import UiServer.Lib.Json
import UiServer.Util.Escape

/-!
# What `quote_escape` writes

Each byte is written as one character of a JSON string and read back as itself
(`quoteEscapePush_reads`), and the loop is the writer of `Codes`. So whatever the
size of the buffer, what is written is the inside of a string that stands for the
bytes consumed (`quoteEscape_json`), and calls on what is left, with any sizes
from 8 on, write the same as one call does (`quoteEscape_resumes`).
-/

namespace UiServer

open CMem

/-! ## A byte

There are three kinds of bytes, and all 256 are gone through once to see that what
is written for one is a character of JSON that reads back as the byte. -/

theorem quoteEscapePush_ne_nil (c : UInt8) : quoteEscapePush c ≠ [] := by
  rw [quoteEscapePush]
  repeat' split
  all_goals exact List.cons_ne_nil _ _

theorem length_quoteEscapePush_le (c : UInt8) : (quoteEscapePush c).length ≤ 6 := by
  rw [quoteEscapePush]
  repeat' split
  all_goals first | exact Nat.le_refl 6 | exact Nat.le_add_right 2 4 | exact Nat.le_add_right 1 5

/-- The three kinds of bytes: escaped by a letter, escaped by its number, and not
escaped. -/
theorem quoteEscapePush_cases (c : UInt8) :
    (∃ e, quoteEscapePush c = [Json.backslash, e] ∧ (e, c) ∈ Json.shortEscapes) ∨
      (c.toNat < 32 ∧ quoteEscapePush c = [Json.backslash, 117, 48, 48,
        hexChars.getD (c.toNat / 16) 0, hexChars.getD (c.toNat % 16) 0]) ∨
      (quoteEscapePush c = [c] ∧ 32 ≤ c ∧ c ≠ Json.quote ∧ c ≠ Json.backslash) := by
  rw [quoteEscapePush]
  split
  · next h =>
      refine Or.inl ⟨c, rfl, ?_⟩
      rcases h with rfl | rfl <;> decide
  · next hquote =>
      split
      · next h => exact Or.inl ⟨98, rfl, by rw [h]; decide⟩
      · split
        · next h => exact Or.inl ⟨116, rfl, by rw [h]; decide⟩
        · split
          · next h => exact Or.inl ⟨110, rfl, by rw [h]; decide⟩
          · split
            · next h => exact Or.inl ⟨102, rfl, by rw [h]; decide⟩
            · split
              · next h => exact Or.inl ⟨114, rfl, by rw [h]; decide⟩
              · split
                · next h => exact Or.inr (Or.inl ⟨UInt8.lt_iff_toNat_lt.1 h, rfl⟩)
                · next h =>
                    exact Or.inr (Or.inr ⟨rfl, UInt8.not_lt.1 h,
                      fun hq => hquote (Or.inr hq), fun hb => hquote (Or.inl hb)⟩)

theorem hexDigit_hexChars : ∀ n < 16, Json.hexDigit (hexChars.getD n 0) = some n := by
  decide

theorem quoteEscapePush_isChar (c : UInt8) : Json.IsChar (quoteEscapePush c) := by
  rcases quoteEscapePush_cases c with ⟨e, hpush, he⟩ | ⟨hc, hpush⟩ | ⟨hpush, hc, hq, hb⟩
  · rw [hpush]
    exact .short he
  · have hhigh := hexDigit_hexChars (c.toNat / 16) (by omega)
    have hlow := hexDigit_hexChars (c.toNat % 16) (by omega)
    rw [hpush]
    exact .hex rfl rfl (by rw [hhigh]; rfl) (by rw [hlow]; rfl)
  · rw [hpush]
    exact .plain hc hq hb

theorem quoteEscapePush_reads :
    Codes.Reads Json.readChar quoteEscapePush fun c => [c] := by
  intro c rest
  rcases quoteEscapePush_cases c with ⟨e, hpush, he⟩ | ⟨hc, hpush⟩ | ⟨hpush, hc, hq, hb⟩
  · rw [hpush]
    exact Json.readChar_short he rest
  · have hhigh := hexDigit_hexChars (c.toNat / 16) (by omega)
    have hlow := hexDigit_hexChars (c.toNat % 16) (by omega)
    have hvalue : c.toNat / 16 * 16 + c.toNat % 16 = c.toNat := by omega
    rw [hpush, Json.readChar_hex hhigh hlow (by omega), hvalue, UInt8.ofNat_toNat]
  · rw [hpush]
    exact Json.readChar_plain hc hq hb rest

/-! ## A call

The loop writes bytes as long as the longest escape still fits, and so never stops
inside one. That is what the library's writer does with any code. -/

/-- The loop is the general writer. -/
theorem quoteEscapeScan_eq {canPush : Nat} : ∀ (src : Bytes) (i : Nat) (obj : Bytes),
    quoteEscapeScan canPush src i obj =
      (i + (Codes.fill quoteEscapePush canPush src obj).1,
        (Codes.fill quoteEscapePush canPush src obj).2) := by
  intro src
  induction src with
  | nil => intro i obj; rfl
  | cons c src ih =>
      intro i obj
      simp only [quoteEscapeScan, quoteEscapeSwitch_eq]
      split
      · next hstop => rw [Codes.fill_stop hstop, Nat.add_zero]
      · next hnext =>
          rw [Codes.fill_next hnext, ih, Nat.add_assoc, Nat.add_comm 1]

theorem canPush_of_two_le {size : Nat} (h : 2 ≤ size) : canPush size = size - 1 := by
  rw [canPush, if_neg (by omega)]

theorem quoteEscapeCall_eq {src : Bytes} {len size : Nat} (h : 2 ≤ size) :
    quoteEscapeCall src len size =
      let w := Codes.fill quoteEscapePush (size - 1) (src.take len) []
      some ⟨w.1, w.2.length, w.2 ++ [0]⟩ := by
  rw [quoteEscapeCall, canPush_of_two_le h, if_neg (by omega), quoteEscapeScan_eq,
    Nat.zero_add]

/-- Any buffer of two bytes or more is left with a terminated text in it: the
inside of a JSON string that stands for the bytes the call has consumed. -/
theorem quoteEscape_json (src : Bytes) (len size : Nat) (h : 2 ≤ size) :
    ∃ e, quoteEscapeCall src len size = some e ∧
      Json.IsBody (e.obj.take e.useLen) ∧
      Json.unescape (e.obj.take e.useLen) = some (src.take e.esclen) ∧
      e.esclen ≤ len ∧ e.useLen < size ∧ e.obj[e.useLen]? = some 0 := by
  let w := Codes.fill quoteEscapePush (size - 1) (src.take len) []
  have hle : w.1 ≤ (src.take len).length := Codes.fill_le _ _
  rw [List.length_take] at hle
  have htext : w.2 = (src.take w.1).flatMap quoteEscapePush := by
    have hw : w.2 = [] ++ ((src.take len).take w.1).flatMap quoteEscapePush :=
      Codes.fill_text _ _
    rwa [List.nil_append, List.take_take, Nat.min_eq_left (by omega)] at hw
  have hlt : w.2.length < size - 1 := Codes.fill_lt _ _ (by simp; omega)
  refine ⟨_, quoteEscapeCall_eq h, ?_, ?_, by show w.1 ≤ len; omega,
    by show w.2.length < size; omega, ?_⟩
  · show Json.IsBody ((w.2 ++ [0]).take w.2.length)
    rw [List.take_left, htext]
    exact Json.isBody_flatMap quoteEscapePush_isChar _
  · show Json.unescape ((w.2 ++ [0]).take w.2.length) = _
    rw [List.take_left, htext]
    exact Json.unescape_flatMap quoteEscapePush_reads quoteEscapePush_ne_nil _
  · exact List.getElem?_concat_length

/-- Of three bytes the first one fits into a buffer of four. -/
theorem quoteEscape_json_four :
    ∃ e, quoteEscapeCall [97, 34, 98] 3 4 = some e ∧
      Json.IsBody (e.obj.take e.useLen) ∧
      Json.unescape (e.obj.take e.useLen) = some ([97, 34, 98].take e.esclen) ∧
      e.esclen ≤ 3 ∧ e.useLen < 4 ∧ e.obj[e.useLen]? = some 0 :=
  quoteEscape_json [97, 34, 98] 3 4 (by decide)

/-! ## Call after call

A call starts where the last one stopped, between two bytes. With room for an
escape every call goes on by one byte at least, so the calls come to the end. -/

theorem quoteEscapeCalls_eq {sizes : Nat → Nat} (h : ∀ n, 2 ≤ sizes n) (src : Bytes) :
    ∀ n, quoteEscapeCalls sizes n src =
      some (Codes.calls quoteEscapePush (fun n => sizes n - 1) n src) := by
  intro n
  induction n with
  | zero => rfl
  | succ n ih =>
      rw [quoteEscapeCalls, ih]
      let rest := (Codes.calls quoteEscapePush (fun n => sizes n - 1) n src).1
      show (quoteEscapeCall rest rest.length (sizes n) >>= _) = _
      rw [quoteEscapeCall_eq (h n), List.take_length]
      show some (rest.drop _, _ ++ (_ ++ [0]).take _) = _
      rw [List.take_left]
      rfl

/-- A buffer of eight bytes holds any escape, so a call goes on. -/
theorem quoteEscapeCall_progress {rest : Bytes} {size : Nat} (hrest : rest ≠ [])
    (h : 8 ≤ size) : ∃ e, quoteEscapeCall rest rest.length size = some e ∧ 0 < e.esclen := by
  refine ⟨_, quoteEscapeCall_eq (by omega), ?_⟩
  rw [List.take_length]
  cases rest with
  | nil => exact absurd rfl hrest
  | cons c rest =>
      have := length_quoteEscapePush_le c
      exact Codes.fill_pos (by simp; omega)

/-- A call that consumes everything writes the whole text. -/
theorem quoteEscapeCall_whole {src : Bytes} {size : Nat} {e : Escaped}
    (he : quoteEscapeCall src src.length size = some e) (hall : e.esclen = src.length) :
    e.obj.take e.useLen = src.flatMap quoteEscapePush := by
  rw [quoteEscapeCall, List.take_length, quoteEscapeScan_eq] at he
  split at he
  · cases he
  · cases he
    simp only [Nat.zero_add] at hall
    simp only [List.take_left, Codes.fill_text, hall, List.take_length, List.nil_append]

/-- Calls on what was not consumed, with buffers of eight bytes or more, consume
everything in as many calls as there are bytes, or fewer; together they write what
a single call writes that has the room for it. -/
theorem quoteEscape_resumes (src : Bytes) (sizes : Nat → Nat) (h : ∀ n, 8 ≤ sizes n) :
    (∀ n rest text, quoteEscapeCalls sizes n src = some (rest, text) → rest ≠ [] →
        ∃ e, quoteEscapeCall rest rest.length (sizes n) = some e ∧ 0 < e.esclen) ∧
      ∃ whole, (∀ n, src.length ≤ n →
          quoteEscapeCalls sizes n src = some ([], whole)) ∧
        (∃ big e, quoteEscapeCall src src.length big = some e ∧ e.esclen = src.length) ∧
        ∀ big e, quoteEscapeCall src src.length big = some e → e.esclen = src.length →
          e.obj.take e.useLen = whole := by
  refine ⟨fun n rest text _ hrest => quoteEscapeCall_progress hrest (h n),
    src.flatMap quoteEscapePush, fun n hn => ?_, ?_, fun big e => quoteEscapeCall_whole⟩
  · have hshort : ∀ c n, (quoteEscapePush c).length < sizes n - 1 := fun c n => by
      have := length_quoteEscapePush_le c
      have := h n
      omega
    rw [quoteEscapeCalls_eq (fun n => Nat.le_trans (by decide) (h n)),
      Codes.calls_finish hshort hn]
  · refine ⟨(src.flatMap quoteEscapePush).length + 2, _, quoteEscapeCall_eq (by omega), ?_⟩
    rw [List.take_length]
    exact Codes.fill_all _ _ (by rw [List.nil_append]; omega)

theorem quoteEscape_resumes_eight :
    (∀ n rest text, quoteEscapeCalls (fun _ => 8) n [34, 1, 97] = some (rest, text) →
        rest ≠ [] →
        ∃ e, quoteEscapeCall rest rest.length 8 = some e ∧ 0 < e.esclen) ∧
      ∃ whole, (∀ n, 3 ≤ n →
          quoteEscapeCalls (fun _ => 8) n [34, 1, 97] = some ([], whole)) ∧
        (∃ big e, quoteEscapeCall [34, 1, 97] 3 big = some e ∧ e.esclen = 3) ∧
        ∀ big e, quoteEscapeCall [34, 1, 97] 3 big = some e → e.esclen = 3 →
          e.obj.take e.useLen = whole :=
  quoteEscape_resumes [34, 1, 97] (fun _ => 8) fun _ => Nat.le_refl 8

end UiServer
