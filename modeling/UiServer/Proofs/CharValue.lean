import UiServer.Proofs.Room

/-!
# When a string is converted completely or refused

`as_char_value_to_other_process` compares the length a conversion answers with
to its room, and lets it be equal. A print of as many bytes as there is room for
has lost its last byte to the terminator; an escape that stops early answers with
the length of what it wrote, which always fits; and a value whose XML form does
not fit the array in between is printed as it is. `CharRoom` says which rooms are
spared, and `asChar_complete_iff` that there are no others.
-/

namespace UiServer

open CMem

/-- The conversion gave up, or its answer counts the bytes of `text`, which stand
in the buffer with a terminator. -/
def CompleteOrError (c : Converted) (text : Bytes) (size : Nat) : Prop :=
  c.num = -1 ∨
    ∃ n : Nat, c.num = n ∧ n < size ∧ c.stored.take n = text ∧ c.stored[n]? = some 0

/-- The check at the end of `as_char_value_to_other_process`. -/
def checkNum (c : Converted) (size : Nat) : Converted :=
  if c.num < 0 ∨ size < c.num then ⟨c.stored, -1⟩ else c

theorem asChar_checkNum (conf : TemplateConf) (value : Option Bytes)
    (method : VarTransMethod) (size : Nat) :
    asCharValueToOtherProcess conf value method size =
      checkNum (charConversion conf value method size) size := rfl

/-- A print is refused when its text is longer than the room, complete when it is
shorter, and cut when it is as long. -/
theorem print_complete_iff {size : Nat} {printed text : Bytes} :
    CompleteOrError (checkNum (.print size printed) size) text size ↔
      size < printed.length ∨ printed.length < size ∧ printed = text := by
  have hnum : (Converted.print size printed).num = printed.length := rfl
  rw [checkNum, hnum]
  by_cases hlong : size < printed.length
  · rw [if_pos (by omega)]
    exact iff_of_true (Or.inl rfl) (Or.inl hlong)
  · rw [if_neg (by omega), CompleteOrError, hnum]
    constructor
    · rintro (hneg | ⟨n, hn, hlt, htext, _⟩)
      · omega
      · have hlen : printed.length = n := by omega
        have hstored : (Converted.print size printed).stored = printed ++ [0] :=
          printed_of_lt (by omega)
        rw [hstored, ← hlen, List.take_left] at htext
        exact Or.inr ⟨by omega, htext⟩
    · rintro (hlt | ⟨hlt, rfl⟩)
      · exact absurd hlt hlong
      · have hstored : (Converted.print size printed).stored = printed ++ [0] :=
          printed_of_lt hlt
        refine Or.inr ⟨printed.length, rfl, hlt, ?_, ?_⟩
        · rw [hstored, List.take_left]
        · rw [hstored, List.getElem?_concat_length]

/-- An escape into one byte is refused; into more it is complete when the text
and two more bytes fit. -/
theorem quoteEscape_complete_iff {value : Bytes} {size : Nat} (hsize : 1 ≤ size) :
    CompleteOrError (checkNum (quoteEscape value size) size)
        (value.flatMap quoteEscapePush) size ↔
      size = 1 ∨ (value.flatMap quoteEscapePush).length + 2 ≤ size := by
  by_cases hone : size = 1
  · rw [hone]
    exact iff_of_true (Or.inl rfl) (Or.inl rfl)
  · let out := quoteEscapeLoop (size - 1) value []
    have hzero : size ≠ 0 := by omega
    have hpush : ¬ size - 1 < 1 := by omega
    have hout : quoteEscape value size = ⟨out ++ [0], out.length⟩ := by
      simp only [quoteEscape, if_neg hzero, if_neg hpush, out]
    have hlt : out.length < size - 1 := quoteEscapeLoop_lt value [] (by simp; omega)
    have hcheck : ¬ ((out.length : Int) < 0 ∨ (size : Int) < out.length) := by omega
    rw [hout, checkNum, if_neg hcheck, or_iff_right hone]
    constructor
    · rintro (hneg | ⟨n, hn, _, htext, _⟩)
      · simp only at hneg
        omega
      · simp only [Int.natCast_inj] at hn
        simp only [← hn, List.take_left] at htext
        rw [← htext]
        omega
    · intro hfit
      have htext : out = value.flatMap quoteEscapePush :=
        quoteEscapeLoop_eq (by rw [List.nil_append]; omega)
      refine Or.inr ⟨out.length, rfl, by omega, ?_, List.getElem?_concat_length⟩
      simp only [List.take_left]
      exact htext

def completeMethods : List VarTransMethod :=
  [.strToStr, .strToConv, .strToConvQuoteEscape, .strToEscapeBackslash, .strXmlEncode]

/-- The rooms into which a value is converted completely or not at all. -/
def CharRoom (conf : TemplateConf) (value : Bytes) (size : Nat) : VarTransMethod → Prop
  | .strToConvQuoteEscape | .strToEscapeBackslash =>
      if conf.escapeBackslash ≠ 0 then
        size = 1 ∨ (value.flatMap quoteEscapePush).length + 2 ≤ size
      else value.length ≠ size
  | .strXmlEncode =>
      let encoded := value.flatMap xmlEncodeByte
      if encoded.length < 1024 then encoded.length ≠ size
      else size < value.length ∨ value.length < size ∧ value = encoded
  | _ => value.length ≠ size

theorem print_self_complete_iff {size : Nat} {text : Bytes} :
    CompleteOrError (checkNum (.print size text) size) text size ↔ text.length ≠ size := by
  rw [print_complete_iff]
  constructor
  · rintro (h | ⟨h, _⟩) <;> omega
  · intro h
    rcases Nat.lt_or_gt_of_ne h with h | h
    · exact Or.inr ⟨h, rfl⟩
    · exact Or.inl h

/-- The whole converted value, or an error: exactly into these rooms. -/
theorem asChar_complete_iff (conf : TemplateConf) (value : Bytes) (method : VarTransMethod)
    (size : Nat) (hmethod : method ∈ completeMethods) (hsize : 1 ≤ size) :
    ∃ text, charText conf value method = some text ∧
      (CompleteOrError (asCharValueToOtherProcess conf (some value) method size) text size ↔
        CharRoom conf value size method) := by
  rw [asChar_checkNum]
  cases method
  case strToStr | strToConv => exact ⟨value, rfl, print_self_complete_iff⟩
  case strToConvQuoteEscape | strToEscapeBackslash =>
    refine ⟨_, rfl, ?_⟩
    simp only [charConversion, Option.map_some, Option.getD_some, CharRoom]
    by_cases hescape : conf.escapeBackslash ≠ 0
    · simp only [if_pos hescape]
      exact quoteEscape_complete_iff hsize
    · simp only [if_neg hescape]
      exact print_self_complete_iff
  case strXmlEncode =>
    refine ⟨_, rfl, ?_⟩
    simp only [charConversion, Option.map_some, Option.getD_some, CharRoom]
    by_cases hshort : (value.flatMap xmlEncodeByte).length < 1024
    · have hencode : xmlEncode value 1024 = some (value.flatMap xmlEncodeByte) :=
        if_neg (by omega)
      rw [if_pos hshort, hencode, Option.getD_some]
      exact print_self_complete_iff
    · have hencode : xmlEncode value 1024 = none := if_pos (by omega)
      rw [if_neg hshort, hencode, Option.getD_none]
      exact print_complete_iff
  all_goals exact absurd hmethod (by decide)

/-- `ab` into three bytes. -/
theorem asChar_complete_iff_ab :
    ∃ text, charText ⟨0, []⟩ (ascii "ab") .strToStr = some text ∧
      (CompleteOrError (asCharValueToOtherProcess ⟨0, []⟩ (some (ascii "ab")) .strToStr 3)
        text 3 ↔ CharRoom ⟨0, []⟩ (ascii "ab") 3 .strToStr) :=
  asChar_complete_iff ⟨0, []⟩ (ascii "ab") .strToStr 3 (by decide) (by decide)

/-- A value as long as its room is answered with its length, and the last byte is
the terminator; an escape that does not fit is cut without a word. -/
theorem asChar_complete_fails :
    asCharValueToOtherProcess ⟨0, []⟩ (some (ascii "abc")) .strToStr 3 =
        ⟨ascii "ab" ++ [0], 3⟩ ∧
      asCharValueToOtherProcess ⟨1, []⟩ (some (ascii "abc")) .strToEscapeBackslash 4 =
        ⟨ascii "ab" ++ [0], 2⟩ ∧
      ¬ ∀ (conf : TemplateConf) (value : Bytes), NulFree value →
        ∀ method ∈ completeMethods, ∀ size, 1 ≤ size →
        ∃ text, charText conf value method = some text ∧
          CompleteOrError (asCharValueToOtherProcess conf (some value) method size) text
            size := by
  have hcut : asCharValueToOtherProcess ⟨0, []⟩ (some (ascii "abc")) .strToStr 3 =
      ⟨ascii "ab" ++ [0], 3⟩ := by decide
  refine ⟨hcut, by decide, fun hall => ?_⟩
  obtain ⟨text, _, hcomplete⟩ := hall ⟨0, []⟩ (ascii "abc") (by decide) .strToStr
    (by decide) 3 (by decide)
  rw [hcut] at hcomplete
  obtain hneg | ⟨n, hn, hlt, _⟩ := hcomplete
  · exact absurd hneg (by decide)
  · have hthree : (3 : Int) = n := hn
    omega

end UiServer
