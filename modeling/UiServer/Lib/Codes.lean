import Mathlib.Data.List.Flatten
import Mathlib.Data.List.TakeDrop

/-!
# Texts written letter by letter

A code says what each letter is written as, and a text is written by its
letters' codes one after the other. `fill` is a writer that stops in front of
the first code that would bring it to `room`; called again on the letters that
are left, it goes on where it stopped (`calls_spec`), and if no code is as long
as the room it never stops for good (`calls_finish`).

A reader takes one code off the front of a text. If it reads every code,
whatever stands behind it, it reads back what was written (`decode_flatMap`).
-/

namespace Codes

universe u v w

variable {α : Type u} {β : Type v} {γ : Type w}

/-! ## Writing

A call writes code after code and stops in front of the first that would fill the
room. So it has written the codes of a beginning of the text and nothing else. -/

/-- The letters written, by their number, and the text with `out` in front of
it. -/
def fill (code : α → List β) (room : Nat) : List α → List β → Nat × List β
  | [], out => (0, out)
  | a :: s, out =>
      if room ≤ out.length + (code a).length then (0, out)
      else
        let (n, out) := fill code room s (out ++ code a)
        (n + 1, out)

section

variable {code : α → List β} {room : Nat}

theorem fill_stop {a : α} {s : List α} {out : List β}
    (h : room ≤ out.length + (code a).length) : fill code room (a :: s) out = (0, out) := by
  rw [fill, if_pos h]

theorem fill_next {a : α} {s : List α} {out : List β}
    (h : ¬ room ≤ out.length + (code a).length) :
    fill code room (a :: s) out =
      ((fill code room s (out ++ code a)).1 + 1, (fill code room s (out ++ code a)).2) := by
  rw [fill, if_neg h]

theorem fill_le : ∀ (s : List α) (out : List β), (fill code room s out).1 ≤ s.length := by
  intro s
  induction s with
  | nil => intro out; exact Nat.le_refl 0
  | cons a s ih =>
      intro out
      by_cases h : room ≤ out.length + (code a).length
      · rw [fill_stop h]
        exact Nat.zero_le _
      · rw [fill_next h]
        exact Nat.succ_le_succ (ih _)

/-- What was written are the codes of the letters that were taken. -/
theorem fill_text : ∀ (s : List α) (out : List β),
    (fill code room s out).2 = out ++ (s.take (fill code room s out).1).flatMap code := by
  intro s
  induction s with
  | nil => intro out; simp [fill]
  | cons a s ih =>
      intro out
      by_cases h : room ≤ out.length + (code a).length
      · rw [fill_stop h]
        simp
      · rw [fill_next h, List.take_succ_cons, List.flatMap_cons, ← List.append_assoc]
        exact ih _

/-- The text stays below the room. -/
theorem fill_lt : ∀ (s : List α) (out : List β), out.length < room →
    (fill code room s out).2.length < room := by
  intro s
  induction s with
  | nil => intro out h; exact h
  | cons a s ih =>
      intro out h
      by_cases hfull : room ≤ out.length + (code a).length
      · rw [fill_stop hfull]
        exact h
      · rw [fill_next hfull]
        refine ih _ ?_
        rw [List.length_append]
        omega

/-- Everything is written if it stays below the room. -/
theorem fill_all : ∀ (s : List α) (out : List β),
    (out ++ s.flatMap code).length < room → (fill code room s out).1 = s.length := by
  intro s
  induction s with
  | nil => intro out _; rfl
  | cons a s ih =>
      intro out h
      rw [List.flatMap_cons, ← List.append_assoc] at h
      have hfit : ¬ room ≤ out.length + (code a).length := by
        simp only [List.length_append] at h
        omega
      rw [fill_next hfit, List.length_cons, ih _ h]

theorem fill_pos {a : α} {s : List α} {out : List β}
    (h : out.length + (code a).length < room) : 0 < (fill code room (a :: s) out).1 := by
  rw [fill_next (by omega)]
  exact Nat.succ_pos _

end

/-! ## Call after call

Each call goes on where the one before it stopped. What they have written and what
is left make up the text, however the rooms were chosen. -/

/-- What is left of `s` after `n` calls with a room of their own, each on what
the one before it has left, and what they have written. -/
def calls (code : α → List β) (rooms : Nat → Nat) : Nat → List α → List α × List β
  | 0, s => (s, [])
  | n + 1, s =>
      let (rest, text) := calls code rooms n s
      let (taken, out) := fill code (rooms n) rest []
      (rest.drop taken, text ++ out)

section

variable {code : α → List β} {rooms : Nat → Nat}

/-- Nothing is lost, repeated or cut: what was written and the codes of what is
left are the codes of the whole text. -/
theorem calls_spec (n : Nat) (s : List α) :
    (calls code rooms n s).2 ++ (calls code rooms n s).1.flatMap code = s.flatMap code := by
  induction n with
  | zero => rfl
  | succ n ih =>
      rw [calls]
      show _ ++ (fill code (rooms n) (calls code rooms n s).1 []).2 ++ _ = _
      rw [fill_text, List.nil_append, List.append_assoc, ← List.flatMap_append,
        List.take_append_drop]
      exact ih

/-- Each call takes a letter as long as there is one. -/
theorem calls_left (h : ∀ a n, (code a).length < rooms n) (n : Nat) (s : List α) :
    (calls code rooms n s).1.length ≤ s.length - n := by
  induction n with
  | zero => exact Nat.le_refl _
  | succ n ih =>
      rw [calls]
      show ((calls code rooms n s).1.drop _).length ≤ _
      rw [List.length_drop]
      cases hrest : (calls code rooms n s).1 with
      | nil => exact Nat.le_trans (Nat.sub_le _ _) (Nat.zero_le _)
      | cons a rest =>
          rw [hrest] at ih
          have hpos : 0 < (fill code (rooms n) (a :: rest) []).1 :=
            fill_pos (by simpa using h a n)
          omega

theorem calls_finish (h : ∀ a n, (code a).length < rooms n) {n : Nat} {s : List α}
    (hn : s.length ≤ n) : calls code rooms n s = ([], s.flatMap code) := by
  have hleft := calls_left h n s
  have hnil : (calls code rooms n s).1 = [] := List.length_eq_zero_iff.1 (by omega)
  have hspec := @calls_spec _ _ code rooms n s
  rw [hnil, List.flatMap_nil, List.append_nil] at hspec
  exact Prod.ext hnil hspec

end

/-! ## Reading

A reader of one code, used over and over. Where it reads every code whatever
stands behind, it finds the codes one by one in what was written. -/

/-- The values of the codes `bs` is made of, or nothing when the reader refuses
what stands there. A code has at least one item, so the length of the text is
enough fuel. -/
def decode (read : List β → Option (γ × List β)) : Nat → List β → Option (List γ)
  | _, [] => some []
  | 0, _ :: _ => none
  | fuel + 1, b :: bs =>
      (read (b :: bs)).bind fun (c, rest) => (decode read fuel rest).map (c :: ·)

/-- The reader reads each code as `val` says, whatever stands behind it. -/
def Reads (read : List β → Option (γ × List β)) (code : α → List β) (val : α → γ) : Prop :=
  ∀ a rest, read (code a ++ rest) = some (val a, rest)

theorem decode_flatMap {read : List β → Option (γ × List β)} {code : α → List β}
    {val : α → γ} (hread : Reads read code val) (hne : ∀ a, code a ≠ []) :
    ∀ {s : List α} {fuel : Nat}, s.length ≤ fuel →
      decode read fuel (s.flatMap code) = some (s.map val) := by
  intro s
  induction s with
  | nil => intro fuel _; cases fuel <;> rfl
  | cons a s ih =>
      intro fuel h
      obtain ⟨fuel, rfl⟩ : ∃ k, fuel = k + 1 := ⟨fuel - 1, by simp at h; omega⟩
      have hstep := hread a (s.flatMap code)
      rw [List.flatMap_cons]
      cases htext : code a ++ s.flatMap code with
      | nil => exact absurd (List.append_eq_nil_iff.1 htext).1 (hne a)
      | cons b bs =>
          rw [htext] at hstep
          rw [decode, hstep]
          show (decode read fuel (s.flatMap code)).map (val a :: ·) = _
          rw [ih (by simpa using h)]
          rfl

/-- A text is at least as long as what it was written from. -/
theorem length_le_flatMap {code : α → List β} (hne : ∀ a, code a ≠ []) (s : List α) :
    s.length ≤ (s.flatMap code).length := by
  induction s with
  | nil => exact Nat.le_refl 0
  | cons a s ih =>
      have := List.length_pos_iff.2 (hne a)
      rw [List.flatMap_cons, List.length_append, List.length_cons]
      omega

end Codes
