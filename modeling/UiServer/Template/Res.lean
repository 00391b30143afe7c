import UiServer.Template.Load

/-!
# Loading a result text and finding its variables

`temp_load_res_file` is the sibling of `temp_load_content_file` for the text of
one result, with `$res...$` variables. What differs is the test of the prefix and
of the length: it only writes a line to the log here, and the scan goes on to
look up what stands four bytes behind the opening `$`.
-/

namespace UiServer

open CMem

def resvar : List Bytes :=
  ["Title", "Url", "WriterName", "WriterNameColor", "WriterID", "CreatTime", "ReplyTime",
    "ReplyCounter", "ClickCounter", "TopicID", "CreatJavascriptTime",
    "Flag", "OtherStr", "Other2Str", "PidStr", "Status",
    "Digest", "PidName", "PidUrl", "Plate", "CutTitle",
    "ID", "Css", "Weight",
    "Key1", "Key2", "AttrInt1", "AttrInt2", "AttrInt3", "AttrInt4", "AttrInt5", "AttrInt6",
    "AttrDiscrete", "ShortStr1", "ShortStr2", "LongStr1", "LongStr2", "SortWeight",
    "IsDel", "Abstract"].map ascii

def tempSearchResvar (str : Bytes) : Option Nat := resvar.findIdx? (· == str)

def maxResTemplSize : Nat := 4096

/-- A name that was looked up: where it was taken to start, and where the
closing `$` had been overwritten. -/
structure Lookup where
  start : Nat
  pend : Nat
deriving DecidableEq, Repr

/-- What the scan leaves: the text, the variables it recorded and the names it
looked up. -/
structure ResScan where
  text : Bytes
  vars : List VarAttr
  lookups : List Lookup
deriving DecidableEq, Repr

def resVarName (i : Nat) : Bytes :=
  (ascii "$res" ++ resvar.getD i [] ++ ascii "$").take (maxVarNameLen - 1)

def ResScan.looked (r : ResScan) (l : Lookup) : ResScan :=
  { r with lookups := l :: r.lookups }

def ResScan.found (r : ResScan) (v : VarAttr) : ResScan := { r with vars := v :: r.vars }

/-- The parse loop, `num` variables into it. A name that starts behind the text
is read from the memory there, which is still zero. -/
def parseRes : Nat → Bytes → Nat → Nat → ResScan
  | 0, text, _, _ => ⟨text, [], []⟩
  | fuel + 1, text, pstart, num =>
      if maxVarsNum ≤ num then ⟨text, [], []⟩
      else
        match strchr dollar text pstart with
        | none => ⟨text, [], []⟩
        | some pstart =>
            match strchr dollar text (pstart + 1) with
            | none => ⟨text, [], []⟩
            | some pend =>
                let cut := text.set pend 0
                let rest :=
                  match tempSearchResvar (cstr (cut.drop (pstart + 4))) with
                  | none => parseRes fuel (cut.set pend dollar) pend num
                  | some i =>
                      (parseRes fuel (cut.set pend dollar) (pend + 1) (num + 1)).found
                        ⟨pstart, pend - pstart + 1, i, resVarName i⟩
                rest.looked ⟨pstart + 4, pend⟩

/-- `temp_load_res_file`. -/
def tempLoadResFile (file : Option Bytes) : Option ResScan :=
  match file with
  | none => none
  | some s =>
      match readContent maxResTemplSize s.length s [] with
      | none => none
      | some text => some (parseRes (text.length + 1) text 0 0)

/-! ## What the scan guarantees

The byte that is overwritten is put back here as well, and the variables come in
order. -/

theorem parseRes_spec : ∀ (fuel : Nat) (text : Bytes) (pstart num : Nat),
    pstart ≤ text.length →
    (parseRes fuel text pstart num).text = text ∧
      InOrder text.length pstart (parseRes fuel text pstart num).vars := by
  intro fuel
  induction fuel with
  | zero => intro text pstart num h; exact ⟨rfl, h⟩
  | succ fuel ih =>
      intro text p num h
      rw [parseRes]
      split
      · exact ⟨rfl, h⟩
      · split
        · exact ⟨rfl, h⟩
        · next pstart hstart =>
            obtain ⟨hp, hlt, _⟩ := strchr_some hstart
            split
            · exact ⟨rfl, h⟩
            · next pend hend =>
                obtain ⟨hpe, helt, hc⟩ := strchr_some hend
                simp only [set_restore helt hc]
                split
                · obtain ⟨ht, ho⟩ := ih text pend num (Nat.le_of_lt helt)
                  exact ⟨ht, ho.mono (by omega)⟩
                · next i _ =>
                    obtain ⟨ht, ho⟩ := ih text (pend + 1) (num + 1) helt
                    refine ⟨ht, hp, ho.mono ?_⟩
                    show pstart + (pend - pstart + 1) ≤ pend + 1
                    omega

theorem tempLoadResFile_spec {file : Option Bytes} {r : ResScan}
    (h : tempLoadResFile file = some r) :
    NulFree r.text ∧ InOrder r.text.length 0 r.vars := by
  cases file with
  | none => cases h
  | some s =>
      simp only [tempLoadResFile] at h
      cases ht : readContent maxResTemplSize s.length s [] with
      | none =>
          rw [ht] at h
          cases h
      | some text =>
          rw [ht] at h
          cases h
          obtain ⟨htext, ho⟩ := parseRes_spec (text.length + 1) text 0 0 (Nat.zero_le _)
          rw [htext]
          exact ⟨readContent_nulFree s.length s [] text (fun _ hb => nomatch hb) ht, ho⟩

end UiServer
