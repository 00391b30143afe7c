import Mathlib.Data.List.Induction
import UiServer.Lib.CMem

/-!
# Memory with two ends

A region is the list of its bytes, and a pointer into it is an integer, which may leave
it on either side. A byte outside can neither be read nor written: the access is refused,
with the pointer.

`walk` is the loop that C programs go through a string with, one byte at a time and in
one direction. Its rules are about a region that is written as what lies on both sides
of the pointer, so that the bytes that are passed over are named.
-/

namespace Region

open CMem

def Inside (m : Bytes) (p : Int) : Prop := 0 ≤ p ∧ p < m.length

instance (m : Bytes) (p : Int) : Decidable (Inside m p) := inferInstanceAs (Decidable (_ ∧ _))

def load (m : Bytes) (p : Int) : Except Int UInt8 :=
  if Inside m p then .ok (m.getD p.toNat 0) else .error p

def put (m : Bytes) (p : Int) (b : UInt8) : Except Int Bytes :=
  if Inside m p then .ok (m.set p.toNat b) else .error p

/-- `while (*p && go(*p)) p += d`. -/
def walk (m : Bytes) (d : Int) (go : UInt8 → Bool) : Nat → Int → Except Int Int
  | 0, p => .ok p
  | fuel + 1, p => do
      let b ← load m p
      if b ≠ 0 ∧ go b then walk m d go fuel (p + d) else pure p

theorem ok_bind {α β : Type} (a : α) (f : α → Except Int β) : (Except.ok a >>= f) = f a := rfl

theorem error_bind {α β : Type} (p : Int) (f : α → Except Int β) :
    (Except.error p >>= f) = .error p := rfl

section

variable {u w rest : Bytes} {b : UInt8} {go : UInt8 → Bool} {fuel : Nat}

theorem inside_append (u : Bytes) (b : UInt8) (rest : Bytes) :
    Inside (u ++ b :: rest) u.length := by
  refine ⟨Int.natCast_nonneg _, ?_⟩
  rw [List.length_append, List.length_cons]
  omega

theorem load_append (u : Bytes) (b : UInt8) (rest : Bytes) :
    load (u ++ b :: rest) u.length = .ok b := by
  rw [load, if_pos (inside_append u b rest)]
  simp [List.getD]

theorem load_before (m : Bytes) : load m (-1) = .error (-1) :=
  if_neg fun h => absurd h.1 (by decide)

theorem put_append (u : Bytes) (b c : UInt8) (rest : Bytes) :
    put (u ++ b :: rest) u.length c = .ok (u ++ c :: rest) := by
  rw [put, if_pos (inside_append u b rest)]
  simp

theorem walk_stop {d : Int} (h : ¬ (b ≠ 0 ∧ go b = true)) :
    walk (u ++ b :: rest) d go (fuel + 1) u.length = .ok (u.length : Int) := by
  rw [walk, load_append]
  exact if_neg h

theorem walk_next {d : Int} (h : b ≠ 0 ∧ go b = true) :
    walk (u ++ b :: rest) d go (fuel + 1) u.length =
      walk (u ++ b :: rest) d go fuel (u.length + d) := by
  rw [walk, load_append]
  exact if_pos h

/-- Forwards over the bytes `w`, up to one that does not go on. -/
theorem walk_forward (hw : ∀ c ∈ w, c ≠ 0 ∧ go c = true) (hb : ¬ (b ≠ 0 ∧ go b = true))
    (hfuel : w.length < fuel) :
    walk (u ++ (w ++ b :: rest)) 1 go fuel u.length = .ok ((u.length : Int) + w.length) := by
  induction w generalizing u fuel with
  | nil =>
      obtain ⟨fuel, rfl⟩ : ∃ k, fuel = k + 1 := ⟨fuel - 1, by rw [List.length_nil] at hfuel; omega⟩
      rw [List.nil_append, walk_stop hb]
      simp
  | cons c w ih =>
      rw [List.length_cons] at hfuel ⊢
      obtain ⟨fuel, rfl⟩ : ∃ k, fuel = k + 1 := ⟨fuel - 1, by omega⟩
      have hmove : u ++ (c :: w ++ b :: rest) = u ++ [c] ++ (w ++ b :: rest) := by simp
      have hnext := @ih (u ++ [c]) fuel (fun e he => hw e (List.mem_cons_of_mem c he)) (by omega)
      rw [List.length_append, List.length_singleton, ← hmove] at hnext
      rw [List.cons_append, walk_next (hw c (List.mem_cons_self ..))]
      refine hnext.trans (congrArg Except.ok ?_)
      omega

/-- Forwards in a string, over the bytes `w`, up to one that does not go on or the
terminator. -/
theorem walk_string (hw : ∀ c ∈ w, c ≠ 0 ∧ go c = true)
    (hrest : ∀ c, rest.head? = some c → go c = false) :
    walk (u ++ (w ++ rest) ++ [0]) 1 go (u ++ (w ++ rest) ++ [0]).length u.length =
      .ok ((u ++ w).length : Int) := by
  obtain ⟨b, tail, htail, hstop⟩ : ∃ b tail, rest ++ [0] = b :: tail ∧
      ¬ (b ≠ 0 ∧ go b = true) := by
    cases rest with
    | nil => exact ⟨0, [], rfl, fun h => h.1 rfl⟩
    | cons b rest => exact ⟨b, rest ++ [0], rfl, fun h => by simp [hrest b rfl] at h⟩
  have hmove : u ++ (w ++ rest) ++ [0] = u ++ (w ++ b :: tail) := by
    rw [List.append_assoc, List.append_assoc, htail]
  rw [hmove, walk_forward hw hstop (by simp only [List.length_append, List.length_cons]; omega),
    List.length_append, Int.natCast_add]

/-- Backwards over the bytes `w`, down to one that does not go on. -/
theorem walk_backward (hw : ∀ c ∈ w, c ≠ 0 ∧ go c = true) (hb : ¬ (b ≠ 0 ∧ go b = true))
    (hfuel : w.length < fuel) :
    walk (u ++ b :: (w ++ rest)) (-1) go fuel ((u.length : Int) + w.length) =
      .ok (u.length : Int) := by
  induction w using List.reverseRecOn generalizing rest fuel with
  | nil =>
      obtain ⟨fuel, rfl⟩ : ∃ k, fuel = k + 1 := ⟨fuel - 1, by rw [List.length_nil] at hfuel; omega⟩
      rw [List.nil_append, List.length_nil]
      exact (congrArg _ (Int.add_zero _)).trans (walk_stop hb)
  | append_singleton w c ih =>
      rw [List.length_append, List.length_singleton] at hfuel ⊢
      obtain ⟨fuel, rfl⟩ : ∃ k, fuel = k + 1 := ⟨fuel - 1, by omega⟩
      have hmove : u ++ b :: (w ++ [c] ++ rest) = u ++ b :: w ++ c :: rest := by simp
      have hplace : (u.length : Int) + ((w.length + 1 : Nat) : Int) = (u ++ b :: w).length := by
        rw [List.length_append, List.length_cons]
        omega
      have hback : ((u ++ b :: w).length : Int) + -1 = u.length + w.length := by omega
      have hnext := @ih ([c] ++ rest) fuel
        (fun e he => hw e (List.mem_append_left _ he)) (by omega)
      rw [hmove, hplace, walk_next (hw c (by simp)), hback, ← hmove, List.append_assoc]
      exact hnext

/-- Backwards over the bytes that a region begins with, and out of it. -/
theorem walk_out (hw : ∀ c ∈ w, c ≠ 0 ∧ go c = true) (hfuel : w.length < fuel) :
    walk (w ++ rest) (-1) go fuel ((w.length : Int) - 1) = .error (-1) := by
  induction w using List.reverseRecOn generalizing rest fuel with
  | nil =>
      obtain ⟨fuel, rfl⟩ : ∃ k, fuel = k + 1 := ⟨fuel - 1, by rw [List.length_nil] at hfuel; omega⟩
      show walk rest (-1) go (fuel + 1) (-1) = _
      rw [walk, load_before]
      rfl
  | append_singleton w c ih =>
      rw [List.length_append, List.length_singleton] at hfuel ⊢
      obtain ⟨fuel, rfl⟩ : ∃ k, fuel = k + 1 := ⟨fuel - 1, by omega⟩
      have hplace : ((w.length + 1 : Nat) : Int) - 1 = w.length := by omega
      have hback : (w.length : Int) + -1 = w.length - 1 := by omega
      have hnext := @ih ([c] ++ rest) fuel
        (fun e he => hw e (List.mem_append_left _ he)) (by omega)
      rw [hplace, List.append_assoc, List.singleton_append, walk_next (hw c (by simp)), hback]
      exact hnext

end

end Region
