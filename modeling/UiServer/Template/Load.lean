import UiServer.Lib.CMem

/-!
# Loading a page text and finding its variables

`temp_load_content_file` reads a page, none or error text and records where
the `$ui...$` variables stand in it. The scan works in place: to look a name
up it overwrites the closing `$` with a terminator and puts it back, so the
text is part of the state of the scan. A round of the scan moves `pstart` on
by at least one byte, which is why the length of the text is enough fuel.

What the renderer relies on is collected in `Content`: the text has no zero
byte, and the recorded variables lie inside it, one after the other.
-/

namespace UiServer

open CMem

inductive CommonPageVar where
  | uiResults | uiQueryWord | uiPid | uiRequestNum | uiTemplateName
  | uiTotalNum | uiPageNum | uiPrePage | uiNextPage | uiTimeUsed
  | uiIfHighLight | uiRelativeMenu | uiRelativeMenuJSON | uiSortMenu | uiCtimeMenu
  | uiSort | uiField | uiLanguageInt | uiLanguage | uiResNum
  | uiQuestionType | uiSearchName | uiPageNumInt | uiTotalNumStr | uiRelativePids
  | uiRelativePidsJSON | uiErrMsg | uiQueryWordURIEnc | uiQueryWordURIEncUTF8
  | uiQueryWordXMLEnc
  | uiWidth | uiHeight | uiCurTimestamp | uiUiStatus | uiType
  | uiPageCount | uiBackspace | uiResStr
deriving DecidableEq, Repr

/-- The enumeration in order: a variable's `id` is its position. -/
def CommonPageVar.all : List CommonPageVar :=
  [.uiResults, .uiQueryWord, .uiPid, .uiRequestNum, .uiTemplateName,
    .uiTotalNum, .uiPageNum, .uiPrePage, .uiNextPage, .uiTimeUsed,
    .uiIfHighLight, .uiRelativeMenu, .uiRelativeMenuJSON, .uiSortMenu, .uiCtimeMenu,
    .uiSort, .uiField, .uiLanguageInt, .uiLanguage, .uiResNum,
    .uiQuestionType, .uiSearchName, .uiPageNumInt, .uiTotalNumStr, .uiRelativePids,
    .uiRelativePidsJSON, .uiErrMsg, .uiQueryWordURIEnc, .uiQueryWordURIEncUTF8,
    .uiQueryWordXMLEnc,
    .uiWidth, .uiHeight, .uiCurTimestamp, .uiUiStatus, .uiType,
    .uiPageCount, .uiBackspace, .uiResStr]

def CommonPageVar.ofId (id : Nat) : Option CommonPageVar := CommonPageVar.all[id]?

def uivar : List Bytes :=
  ["Results", "QueryWord", "Pid", "RequestNum", "TemplateName",
    "TotalNum", "PageNum", "PrePage", "NextPage", "TimeUsed",
    "IfHighLight", "RelativeMenu", "RelativeMenuJSON", "SortMenu", "CtimeMenu",
    "Sort", "Field", "LanguageInt", "Language", "ResNum",
    "QuestionType", "SearchName", "PageNumInt", "TotalNumStr", "RelativePids",
    "RelativePidsJSON", "ErrMsg", "QueryWordURIEnc", "QueryWordURIEncUTF8",
    "QueryWordXMLEnc",
    "Width", "Height", "CurTimestamp", "UiStatus", "Type",
    "PageCount", "Backspace", "ResStr"].map ascii

def tempSearchUivar (str : Bytes) : Option Nat := uivar.findIdx? (· == str)

def maxPagetextLen : Nat := 40960

def maxVarsNum : Nat := 128

def maxVarNameLen : Nat := 32

def dollar : UInt8 := 36

structure VarAttr where
  pos : Nat
  len : Nat
  id : Nat
  name : Bytes
deriving DecidableEq, Repr

/-- `fgets` with room for `n` bytes before the terminator: up to the end of
the line, and what is left of the file. -/
def fgets : Nat → Bytes → Bytes × Bytes
  | 0, s => ([], s)
  | _ + 1, [] => ([], [])
  | n + 1, c :: s =>
      if c = 10 then ([c], s)
      else
        let (line, rest) := fgets n s
        (c :: line, rest)

/-- The `while (fgets(...))` loop: a line counts up to its first zero byte,
and a text that reaches `maxLen` is refused. Each round reads at least one
byte. -/
def readContent (maxLen : Nat) : Nat → Bytes → Bytes → Option Bytes
  | 0, _, text => some text
  | _ + 1, [], text => some text
  | fuel + 1, s, text =>
      let (buf, rest) := fgets 1023 s
      let text := text ++ cstr buf
      if maxLen ≤ text.length then none else readContent maxLen fuel rest text

/-! ## The scan

A round looks for two `$` and takes what lies between for a name. If it is one, a
variable is recorded and the scan goes on behind it. If it is not, the second `$`
may open the next variable, and where the first one opens none at all the scan
goes on behind that. -/

/-- `strchr(text + p, c)`, as an offset. -/
def strchr (c : UInt8) (text : Bytes) (p : Nat) : Option Nat :=
  ((text.drop p).findIdx? (· == c)).map (p + ·)

/-- The name recorded for a variable, cut to the array that holds it. -/
def varName (i : Nat) : Bytes :=
  (ascii "$ui" ++ uivar.getD i [] ++ ascii "$").take (maxVarNameLen - 1)

/-- The parse loop, `num` variables into it. -/
def parseContent : Nat → Bytes → Nat → Nat → Bytes × List VarAttr
  | 0, text, _, _ => (text, [])
  | fuel + 1, text, pstart, num =>
      if maxVarsNum ≤ num then (text, [])
      else
        match strchr dollar text pstart with
        | none => (text, [])
        | some pstart =>
            match strchr dollar text (pstart + 1) with
            | none => (text, [])
            | some pend =>
                if (text.drop pstart).take 3 ≠ ascii "$ui" ∨
                    maxVarNameLen < pend - pstart then
                  parseContent fuel text (pstart + 1) num
                else
                  let cut := text.set pend 0
                  match tempSearchUivar (cstr (cut.drop (pstart + 3))) with
                  | none => parseContent fuel (cut.set pend dollar) pend num
                  | some i =>
                      let (text, vars) :=
                        parseContent fuel (cut.set pend dollar) (pend + 1) (num + 1)
                      (text, ⟨pstart, pend - pstart + 1, i, varName i⟩ :: vars)

/-- `temp_load_content_file`: the text and its variables, or nothing when the
file cannot be opened or is too big. -/
def tempLoadContentFile (file : Option Bytes) : Option (Bytes × List VarAttr) :=
  match file with
  | none => none
  | some s =>
      match readContent maxPagetextLen s.length s [] with
      | none => none
      | some text => some (parseContent (text.length + 1) text 0 0)

/-! ## What the scan guarantees

The byte that is overwritten is put back before the round ends, so the text is
what it was. A variable is recorded behind the one before it, as the scan never
goes back. -/

/-- The variables stand one after the other between `p` and `n`. -/
def InOrder (n : Nat) : Nat → List VarAttr → Prop
  | p, [] => p ≤ n
  | p, v :: vs => p ≤ v.pos ∧ InOrder n (v.pos + v.len) vs

theorem InOrder.le {n p : Nat} {vs : List VarAttr} (h : InOrder n p vs) : p ≤ n := by
  induction vs generalizing p with
  | nil => exact h
  | cons v vs ih =>
      have := ih h.2
      have := h.1
      omega

theorem InOrder.mono {n p q : Nat} {vs : List VarAttr} (h : InOrder n p vs)
    (hq : q ≤ p) : InOrder n q vs := by
  cases vs with
  | nil => exact Nat.le_trans hq h
  | cons v vs => exact ⟨Nat.le_trans hq h.1, h.2⟩

theorem strchr_some {c : UInt8} {text : Bytes} {p q : Nat}
    (h : strchr c text p = some q) :
    p ≤ q ∧ ∃ hq : q < text.length, text[q] = c := by
  rw [strchr] at h
  rw [Option.map_eq_some_iff] at h
  obtain ⟨k, hk, rfl⟩ := h
  obtain ⟨hlt, hc, _⟩ := List.findIdx?_eq_some_iff_getElem.1 hk
  rw [List.length_drop] at hlt
  rw [List.getElem_drop] at hc
  exact ⟨Nat.le_add_right p k, by omega, by simpa using hc⟩

theorem set_restore {text : Bytes} {pend : Nat} (h : pend < text.length)
    (hc : text[pend] = dollar) : (text.set pend 0).set pend dollar = text := by
  rw [List.set_set, ← hc, List.set_getElem_self]

theorem parseContent_spec : ∀ (fuel : Nat) (text : Bytes) (pstart num : Nat),
    pstart ≤ text.length →
    (parseContent fuel text pstart num).1 = text ∧
      InOrder text.length pstart (parseContent fuel text pstart num).2 := by
  intro fuel
  induction fuel with
  | zero => intro text pstart num h; exact ⟨rfl, h⟩
  | succ fuel ih =>
      intro text p num h
      rw [parseContent]
      split
      · exact ⟨rfl, h⟩
      · split
        · exact ⟨rfl, h⟩
        · next pstart hstart =>
            obtain ⟨hp, hlt, _⟩ := strchr_some hstart
            split
            · exact ⟨rfl, h⟩
            · next pend hend =>
                obtain ⟨hpe, helt, hc⟩ := strchr_some hend
                split
                · obtain ⟨ht, ho⟩ := ih text (pstart + 1) num hlt
                  exact ⟨ht, ho.mono (by omega)⟩
                · simp only [set_restore helt hc]
                  split
                  · obtain ⟨ht, ho⟩ := ih text pend num (Nat.le_of_lt helt)
                    exact ⟨ht, ho.mono (by omega)⟩
                  · next i _ =>
                      obtain ⟨ht, ho⟩ := ih text (pend + 1) (num + 1) helt
                      refine ⟨ht, hp, ho.mono ?_⟩
                      show pstart + (pend - pstart + 1) ≤ pend + 1
                      omega

theorem readContent_nulFree {maxLen : Nat} : ∀ (fuel : Nat) (s text text' : Bytes),
    NulFree text → readContent maxLen fuel s text = some text' → NulFree text' := by
  intro fuel
  induction fuel with
  | zero =>
      intro s text text' ht h
      cases h
      exact ht
  | succ fuel ih =>
      intro s text text' ht h
      cases s with
      | nil =>
          cases h
          exact ht
      | cons c s =>
          simp only [readContent] at h
          split at h
          · cases h
          · exact ih _ _ _ (ht.append (nulFree_cstr _)) h

/-- A loaded text with its variables. -/
structure Content where
  text : Bytes
  vars : List VarAttr
  loaded : ∃ file, tempLoadContentFile file = some (text, vars)

theorem Content.spec (c : Content) :
    NulFree c.text ∧ InOrder c.text.length 0 c.vars := by
  obtain ⟨text, vars, file, h⟩ := c
  cases file with
  | none => cases h
  | some s =>
      simp only [tempLoadContentFile] at h
      cases ht : readContent maxPagetextLen s.length s [] with
      | none =>
          rw [ht] at h
          cases h
      | some t =>
          rw [ht] at h
          have hs := parseContent_spec (t.length + 1) t 0 0 (Nat.zero_le _)
          have hnul := readContent_nulFree s.length s [] t (fun _ hb => nomatch hb) ht
          rw [Option.some.inj h] at hs
          obtain ⟨rfl, ho⟩ := hs
          exact ⟨hnul, ho⟩

def Content.empty : Content := ⟨[], [], some [], rfl⟩

end UiServer
