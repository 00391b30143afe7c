import Mathlib.Data.List.Basic

/-!
# The first place of a list

A search goes from place to place and stops at the first one where what is left is
as wanted (`findTail`). Two searches find the same if and only if the first place
that either wants is wanted by both (`findTail_eq_iff`).
-/

namespace Search

universe u

variable {α : Type u} {P Q : List α → Bool}

/-- The first place of the list where `P` holds of what is left, its end not being
one. -/
def findTail (P : List α → Bool) : List α → Option Nat
  | [] => none
  | a :: s => if P (a :: s) then some 0 else (findTail P s).map (· + 1)

/-- `k` is the first place where `P` holds. -/
def First (P : List α → Bool) (s : List α) (k : Nat) : Prop :=
  k < s.length ∧ P (s.drop k) = true ∧ ∀ j < k, P (s.drop j) = false

theorem first_zero {a : α} {s : List α} (h : P (a :: s) = true) : First P (a :: s) 0 :=
  ⟨Nat.succ_pos _, h, nofun⟩

theorem first_succ {a : α} {s : List α} {k : Nat} (h : P (a :: s) = false) :
    First P (a :: s) (k + 1) ↔ First P s k := by
  constructor
  · intro ⟨hlt, hk, hlow⟩
    exact ⟨Nat.lt_of_succ_lt_succ hlt, hk, fun j hj => hlow (j + 1) (Nat.succ_lt_succ hj)⟩
  · intro ⟨hlt, hk, hlow⟩
    refine ⟨Nat.succ_lt_succ hlt, hk, fun j hj => ?_⟩
    cases j with
    | zero => exact h
    | succ j => exact hlow j (Nat.lt_of_succ_lt_succ hj)

theorem findTail_eq_some {s : List α} : ∀ {k : Nat},
    findTail P s = some k ↔ First P s k := by
  induction s with
  | nil => exact fun {k} => ⟨nofun, fun h => absurd h.1 (Nat.not_lt_zero k)⟩
  | cons a s ih =>
      intro k
      rw [findTail]
      by_cases h : P (a :: s) = true
      · rw [if_pos h]
        refine ⟨fun hk => ?_, fun hk => ?_⟩
        · cases hk
          exact first_zero h
        · cases k with
          | zero => rfl
          | succ k => exact absurd (hk.2.2 0 (Nat.succ_pos k)) (by simpa using h)
      · have hf : P (a :: s) = false := Bool.eq_false_iff.2 h
        rw [if_neg h]
        cases k with
        | zero =>
            refine ⟨fun hk => ?_, fun hk => absurd hk.2.1 h⟩
            obtain ⟨k, _, hk⟩ := Option.map_eq_some_iff.1 hk
            exact absurd hk (Nat.succ_ne_zero k)
        | succ k =>
            rw [first_succ hf, ← ih]
            cases findTail P s with
            | none => exact ⟨nofun, nofun⟩
            | some j => simp

theorem findTail_eq_none {s : List α} :
    findTail P s = none ↔ ∀ k < s.length, P (s.drop k) = false := by
  induction s with
  | nil => exact ⟨fun _ k hk => absurd hk (Nat.not_lt_zero k), fun _ => rfl⟩
  | cons a s ih =>
      rw [findTail]
      by_cases h : P (a :: s) = true
      · rw [if_pos h]
        refine ⟨nofun, fun hall => ?_⟩
        have hzero := hall 0 (Nat.succ_pos _)
        rw [List.drop_zero, h] at hzero
        cases hzero
      · rw [if_neg h, Option.map_eq_none_iff, ih]
        refine ⟨fun hall k hk => ?_, fun hall k hk => ?_⟩
        · cases k with
          | zero => exact Bool.eq_false_iff.2 h
          | succ k => exact hall k (Nat.lt_of_succ_lt_succ hk)
        · exact hall (k + 1) (Nat.succ_lt_succ hk)

/-- Two searches find the same if and only if the first place wanted by one of
them is wanted by both. -/
theorem findTail_eq_iff {s : List α} :
    findTail P s = findTail Q s ↔
      ∀ k, First (fun t => P t || Q t) s k → P (s.drop k) = true ∧ Q (s.drop k) = true := by
  constructor
  · intro h k ⟨hlt, hk, hlow⟩
    have hlowP : ∀ j < k, P (s.drop j) = false := fun j hj =>
      (Bool.or_eq_false_iff.1 (hlow j hj)).1
    have hlowQ : ∀ j < k, Q (s.drop j) = false := fun j hj =>
      (Bool.or_eq_false_iff.1 (hlow j hj)).2
    rcases Bool.or_eq_true_iff.1 hk with hP | hQ
    · have hfirst := findTail_eq_some.2 ⟨hlt, hP, hlowP⟩
      exact ⟨hP, (findTail_eq_some.1 (h ▸ hfirst)).2.1⟩
    · have hfirst := findTail_eq_some.2 ⟨hlt, hQ, hlowQ⟩
      exact ⟨(findTail_eq_some.1 (h ▸ hfirst)).2.1, hQ⟩
  · intro h
    cases hfind : findTail (fun t => P t || Q t) s with
    | none =>
        have hnone := findTail_eq_none.1 hfind
        rw [findTail_eq_none.2 fun k hk => (Bool.or_eq_false_iff.1 (hnone k hk)).1,
          findTail_eq_none.2 fun k hk => (Bool.or_eq_false_iff.1 (hnone k hk)).2]
    | some k =>
        have hfirst := findTail_eq_some.1 hfind
        obtain ⟨hP, hQ⟩ := h k hfirst
        obtain ⟨hlt, _, hlow⟩ := hfirst
        rw [findTail_eq_some.2 ⟨hlt, hP, fun j hj => (Bool.or_eq_false_iff.1 (hlow j hj)).1⟩,
          findTail_eq_some.2 ⟨hlt, hQ, fun j hj => (Bool.or_eq_false_iff.1 (hlow j hj)).2⟩]

end Search
