import UiServer.Lib.Intervals
import UiServer.Template.Cutdown
import UiServer.Template.Query
import UiServer.Util.Text

/-!
# Marking the words of a query

`as_temp_make_high_light` cuts a value down, looks for the words of the query in what
is left, sorts and joins the places where it finds them, and prints the text with a
tag in front of each and one behind. Each piece is printed for itself.

The text that is cut out stands in an array that is taken to be long enough here; how
long it is, is a statement about the text. The build leaves the assertions out.
-/

namespace UiServer

open CMem Intervals

def maxHighLightTermNum : Nat := 128

/-- One word of `as_query_t`, terminated, and with its `len`. A query that was split as
it should be is a list of these (`QuerySplit.holds`). -/
abbrev QueryTerm := CString maxQueryTermLen

def QueryTerm.len (t : QueryTerm) : Nat := t.str.length

/-! ## The places

The search goes over the words and for each word over the value, and puts the
places in order as they come. A place inside one that is there is not recorded. -/

/-- `as_temp_high_light_t`. -/
abbrev HighLight := Span

/-- The places `j` and `j + 1` of the array change over. -/
def swapNext (hl : List HighLight) (j : Nat) : List HighLight :=
  (hl.set j (hl.getD (j + 1) ⟨0, 0⟩)).set (j + 1) (hl.getD j ⟨0, 0⟩)

/-- `while (j > 0)`: the last place goes forward to where it belongs. -/
def settle : Nat → List HighLight → List HighLight
  | 0, hl => hl
  | j + 1, hl =>
      settle j <|
        if (hl.getD (j + 1) ⟨0, 0⟩).offset < (hl.getD j ⟨0, 0⟩).offset then swapNext hl j
        else hl

/-- The test of the inner `for`, which leaves a place out. -/
def isInside (hl : List HighLight) (h : HighLight) : Bool :=
  hl.any fun b => b.offset ≤ h.offset && h.offset + h.len ≤ b.offset + b.len

/-- The `while` of one word, with the rounds left before `term_count == 5`. -/
def searchTerm (pvalue : Bytes) (term : QueryTerm) :
    Nat → Nat → List HighLight → List HighLight
  | 0, _, hl => hl
  | rounds + 1, pf, hl =>
      if 0 < term.len then
        match strcasestrGBK (pvalue.drop pf) term.str with
        | none => hl
        | some p =>
            let h : HighLight := ⟨pf + p, term.len⟩
            if isInside hl h then searchTerm pvalue term rounds (h.offset + term.len) hl
            else
              let hl := settle hl.length (hl ++ [h])
              if hl.length = maxHighLightTermNum - 1 then hl
              else searchTerm pvalue term rounds (h.offset + term.len) hl
      else hl

/-- The loop over the words. -/
def searchTerms (pvalue : Bytes) : List QueryTerm → List HighLight → List HighLight
  | [], hl => hl
  | term :: terms, hl =>
      let hl := searchTerm pvalue term 5 0 hl
      if hl.length = maxHighLightTermNum - 1 then hl else searchTerms pvalue terms hl

/-- The loop that joins the places, `cur` being `high_light[j]` and the list those
from `high_light[i]` on; what it writes lies in front of what it reads. -/
def joinLoop (cur : HighLight) : List HighLight → List HighLight
  | [] => [cur]
  | h :: hl =>
      if h.offset ≤ cur.len + cur.offset then
        let tempLen := h.len + h.offset - cur.offset
        joinLoop (if cur.len < tempLen then { cur with len := tempLen } else cur) hl
      else cur :: joinLoop h hl

def joinHighLights : List HighLight → List HighLight
  | [] => []
  | cur :: hl => joinLoop cur hl

/-! ## The copy

A terminator is put where a stretch of the value ends, and the stretch is printed
up to it. The pieces go to the page one by one, each with its own check of the
room. -/

/-- `pbuf` and `nleft`, and the page they are about. -/
structure HighLightBuf where
  page : Mem
  pbuf : Nat
  nleft : Int

/-- One `snprintf` with what follows it: the room is taken off before it is asked
whether the text was longer than the room. -/
def HighLightBuf.print (b : HighLightBuf) (text : Bytes) : Except Mem HighLightBuf :=
  let page := snprintf b.page b.pbuf (sizeOfInt b.nleft) text
  let nleft := b.nleft - text.length
  if nleft < text.length then .error page else .ok ⟨page, b.pbuf + text.length, nleft⟩

/-- The text from `pf`, with a terminator put at `p`. -/
def cutAt (pvalue : Bytes) (pf p : Nat) : Bytes := cstr ((pvalue.set p 0).drop pf)

/-- The loop over the places, and the rest of the text behind it. -/
def copyLoop (pvalue startTag endTag : Bytes) :
    List HighLight → Nat → HighLightBuf → Except Mem HighLightBuf
  | [], pf, b => b.print (pvalue.drop pf)
  | h :: hl, pf, b => do
      let p := h.offset
      let b ← b.print (cutAt pvalue pf p)
      let b ← b.print startTag
      let b ← b.print (cutAt pvalue p (p + h.len))
      let b ← b.print endTag
      copyLoop pvalue startTag endTag hl (p + h.len) b

/-- What a call leaves of the page and returns. -/
structure MadeHighLight where
  page : Mem
  ret : Int

def madeHighLight : Except Mem HighLightBuf → MadeHighLight
  | .error page => ⟨page, -1⟩
  | .ok b => ⟨b.page, b.pbuf⟩

/-- `max_high_txt_len`, with `g_conf.high_light_length`. -/
def maxHighTxtLen (highLightLength leftLen : Int) : Int :=
  if leftLen < 1023 then highLightLength else 1023

/-- `pvalue`: the value cut down. -/
def cutValue (highLightLength leftLen : Int) (value : Bytes) : Bytes :=
  let plen := tempCutdownWithMore (cstr value) 1024 (maxHighTxtLen highLightLength leftLen)
  if plen.num = -1 then cstr value else cstr plen.stored

/-- `as_temp_make_high_light`. -/
def asTempMakeHighLight (highLightLength : Int) (page : Mem) (nleft : Int) (value : Bytes)
    (hilightStartTag hilightEndTag : Bytes) (queryT : List QueryTerm) (leftLen : Int) :
    MadeHighLight :=
  let pvalue := cutValue highLightLength leftLen value
  if queryT.length = 0 then madeHighLight (HighLightBuf.print ⟨page, 0, nleft⟩ pvalue)
  else
    let hl := joinHighLights (searchTerms pvalue queryT [])
    madeHighLight
      (copyLoop pvalue (cstr hilightStartTag) (cstr hilightEndTag) hl 0 ⟨page, 0, nleft⟩)

end UiServer
