import UiServer.Lib.Selection
import UiServer.Template.HighLight

/-!
# Marking the words of a title

`temp_make_high_light` cuts the title of a result down and puts tags around the stretches
that came with it. They are sorted in place first, and the copy goes through them with an
index that moves on when a stretch has been written: from there it leaves out those that
begin where that one did.

Each stretch that is written is logged, with where it begins and how long it is.
-/

namespace UiServer

open CMem Intervals

def maxTitleLen : Nat := 128

def maxHightlightNum : Nat := 16

/-- `ty_title_result_term_t`. -/
structure TitleResultTerm where
  sign1 : UInt32
  sign2 : UInt32
  offset : UInt16
  len : UInt16
  tWeight : UInt16
  other : UInt16
deriving DecidableEq, Repr

/-- What is read of `Search_result_t`: the title and the first `hl_num` terms. -/
structure TitleResult where
  title : CString maxTitleLen
  highlightTerm : List TitleResultTerm
  bound : highlightTerm.length ≤ maxHightlightNum

def TitleResultTerm.span (t : TitleResultTerm) : Span := ⟨t.offset.toNat, t.len.toNat⟩

/-- `temp_sort_high_light`. -/
def tempSortHighLight (terms : List TitleResultTerm) : List TitleResultTerm :=
  Selection.sort (fun t => t.offset.toNat) ⟨0, 0, 0, 0, 0, 0⟩ terms

/-- `psrc`, `n` and the terms from `i` on, what has been logged, and the page. -/
structure TitleCopy where
  psrc : Bytes
  n : Nat
  terms : List TitleResultTerm
  logged : List TitleResultTerm
  buf : HighLightBuf

/-- `*pbuf = *psrc` and the steps behind it. -/
def TitleCopy.put (s : TitleCopy) (c : UInt8) (psrc : Bytes) : TitleCopy :=
  { s with
    psrc := psrc
    n := s.n + 1
    buf := ⟨store s.buf.page s.buf.pbuf [c], s.buf.pbuf + 1, s.buf.nleft - 1⟩ }

/-- One `snprintf` of a tag: the room is asked for before the tag is taken off. -/
def TitleCopy.print (s : TitleCopy) (tag : Bytes) : Except TitleCopy TitleCopy :=
  let page := snprintf s.buf.page s.buf.pbuf (sizeOfInt s.buf.nleft) tag
  if s.buf.nleft < tag.length then .error { s with buf := { s.buf with page := page } }
  else .ok { s with buf := ⟨page, s.buf.pbuf + tag.length, s.buf.nleft - tag.length⟩ }

/-- The `for` over `k`, with the rounds left. -/
def TitleCopy.copyTerm : Nat → TitleCopy → TitleCopy
  | 0, s => s
  | k + 1, s =>
      match s.psrc with
      | [] => s
      | c :: psrc => if 0 < s.buf.nleft then copyTerm k (s.put c psrc) else s

/-- The inner `while`, which compares each term with the one before it. -/
def skipSame : TitleResultTerm → List TitleResultTerm → List TitleResultTerm
  | _, [] => []
  | prev, t :: terms => if t.offset = prev.offset then skipSame t terms else t :: terms

/-- What is done where the term `h` begins. -/
def TitleCopy.mark (startTag endTag : Bytes) (h : TitleResultTerm)
    (terms : List TitleResultTerm) (s : TitleCopy) : Except TitleCopy TitleCopy := do
  let s ← s.print startTag
  let s := copyTerm h.len.toNat { s with logged := s.logged ++ [h] }
  let s ← s.print endTag
  pure { s with terms := skipSame h terms }

/-- `while (*psrc != '\0' && nleft > 0)`. A round takes a byte or a term. -/
def titleLoop (startTag endTag : Bytes) : Nat → TitleCopy → Except TitleCopy TitleCopy
  | 0, s => .ok s
  | fuel + 1, s =>
      match s.psrc with
      | [] => .ok s
      | c :: psrc =>
          if 0 < s.buf.nleft then
            match s.terms with
            | [] => titleLoop startTag endTag fuel (s.put c psrc)
            | h :: terms =>
                if s.n = h.offset.toNat then do
                  let s ← s.mark startTag endTag h terms
                  titleLoop startTag endTag fuel s
                else titleLoop startTag endTag fuel (s.put c psrc)
          else .ok s

/-- What a call leaves of the page and of the terms, what it logs and what it returns. -/
structure MadeTitle where
  page : Mem
  ret : Int
  terms : List TitleResultTerm
  logged : List TitleResultTerm

/-- `p`: the title cut down. -/
def cutTitle (titleLength : Int) (title : Bytes) : Bytes :=
  let plen := tempCutdownWithMore title 1024 titleLength
  if plen.num = -1 then title else cstr plen.stored

/-- `temp_make_high_light`, with `g_conf.title_length`. -/
def tempMakeHighLight (titleLength : Int) (page : Mem) (nleft : Int) (pres : TitleResult)
    (hilightStartTag hilightEndTag : Bytes) : MadeTitle :=
  let p := cutTitle titleLength pres.title.str
  if pres.highlightTerm.length = 0 then
    ⟨snprintf page 0 (sizeOfInt nleft) p, p.length, pres.highlightTerm, []⟩
  else
    let terms := tempSortHighLight pres.highlightTerm
    match titleLoop (cstr hilightStartTag) (cstr hilightEndTag) (p.length + terms.length)
        ⟨p, 0, terms, [], ⟨page, 0, nleft⟩⟩ with
    | .error s => ⟨s.buf.page, -1, terms, s.logged⟩
    | .ok s => ⟨s.buf.page, s.buf.pbuf, terms, s.logged⟩

end UiServer
