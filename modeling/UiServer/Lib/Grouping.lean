import Mathlib.Data.List.Count
import Mathlib.Data.List.Flatten

/-!
# Groups counted from the right

A number is written in groups of digits with a separator between them, the groups
being counted from the last digit. A program that takes the digits from the number
has them in that order, and puts a separator in front of the next one when a group
is full: `fromRight`. `grouped` is the same list the way it is read.

A list that is reversed in place is swapped from both ends (`swapEnds`).
-/

namespace Grouping

universe u

variable {α : Type u}

/-! ## Separators

From the right every group is full when its separator comes, and only the last
one, which is read first, may be short. -/

/-- The items with their separators, from the last item on; `c` more items fit into
the group that is open. -/
def fromRight (sep : α) (k : Nat) : Nat → List α → List α
  | _, [] => []
  | 0, x :: xs => sep :: x :: fromRight sep k (k - 1) xs
  | c + 1, x :: xs => x :: fromRight sep k c xs

def grouped (sep : α) (k : Nat) (xs : List α) : List α :=
  (fromRight sep k k xs.reverse).reverse

section

variable {sep : α} {k : Nat}

/-- A full group is closed by a separator, and the next one is open. -/
theorem fromRight_zero (hk : 0 < k) {xs : List α} (hxs : xs ≠ []) :
    fromRight sep k 0 xs = sep :: fromRight sep k k xs := by
  obtain ⟨k, rfl⟩ : ∃ j, k = j + 1 := ⟨k - 1, by omega⟩
  cases xs with
  | nil => exact absurd rfl hxs
  | cons x xs => rfl

theorem fromRight_short : ∀ {c : Nat} {xs : List α}, xs.length ≤ c →
    fromRight sep k c xs = xs := by
  intro c
  induction c with
  | zero =>
      intro xs h
      rw [List.length_eq_zero_iff.1 (Nat.le_zero.1 h)]
      rfl
  | succ c ih =>
      intro xs h
      cases xs with
      | nil => rfl
      | cons x xs => rw [fromRight, ih (Nat.le_of_succ_le_succ h)]

/-- The items of the open group go before the separator. -/
theorem fromRight_append : ∀ {g xs : List α},
    fromRight sep k g.length (g ++ xs) = g ++ fromRight sep k 0 xs := by
  intro g
  induction g with
  | nil => intro xs; rfl
  | cons x g ih =>
      intro xs
      rw [List.cons_append, List.length_cons, fromRight, ih, List.cons_append]

/-- The first group is the one that may be short; each of the others is full and has
a separator in front of it. -/
theorem grouped_groups (hk : 0 < k) : ∀ {n : Nat} {xs : List α}, xs.length ≤ n → xs ≠ [] →
    ∃ (first : List α) (rest : List (List α)), xs = first ++ rest.flatten ∧
      0 < first.length ∧ first.length ≤ k ∧ (∀ g ∈ rest, g.length = k) ∧
      grouped sep k xs = first ++ rest.flatMap (sep :: ·) := by
  intro n
  induction n with
  | zero => intro xs h hxs; exact absurd (List.length_eq_zero_iff.1 (Nat.le_zero.1 h)) hxs
  | succ n ih =>
      intro xs h hxs
      by_cases hshort : xs.length ≤ k
      · refine ⟨xs, [], ?_, List.length_pos_iff.2 hxs, hshort, nofun, ?_⟩
        · rw [List.flatten_nil, List.append_nil]
        · rw [grouped, fromRight_short (by simpa using hshort), List.reverse_reverse]
          simp
      · -- the last group is split off, and what is in front of it is shorter
        let front := xs.take (xs.length - k)
        let last := xs.drop (xs.length - k)
        have hsplit : xs = front ++ last := (List.take_append_drop _ xs).symm
        have hlast : last.length = k := by
          rw [List.length_drop]
          omega
        have hlen : front.length = xs.length - k := by
          rw [List.length_take]
          omega
        have hfront : front ≠ [] := List.length_pos_iff.1 (by omega)
        obtain ⟨first, rest, hxs', hpos, hle, hfull, htext⟩ := ih (by omega) hfront
        have hgroup : grouped sep k xs = grouped sep k front ++ sep :: last := by
          have hrev : last.reverse.length = k := by rw [List.length_reverse, hlast]
          have hne : front.reverse ≠ [] := by simpa using hfront
          have happ := @fromRight_append _ sep k last.reverse front.reverse
          rw [hrev] at happ
          rw [grouped, hsplit, List.reverse_append, happ, fromRight_zero hk hne, grouped,
            List.reverse_append, List.reverse_cons, List.reverse_reverse]
          simp
        refine ⟨first, rest ++ [last], ?_, hpos, hle, ?_, ?_⟩
        · rw [List.flatten_append, List.flatten_singleton, ← List.append_assoc, ← hxs']
          exact hsplit
        · intro g hg
          rcases List.mem_append.1 hg with hg | hg
          · exact hfull g hg
          · rw [List.mem_singleton.1 hg]
            exact hlast
        · rw [hgroup, htext, List.flatMap_append, List.append_assoc]
          simp

section

variable [DecidableEq α]

/-- Without its separators it is the list again. -/
theorem filter_fromRight : ∀ {c : Nat} {xs : List α}, sep ∉ xs →
    (fromRight sep k c xs).filter (· ≠ sep) = xs := by
  intro c xs
  induction xs generalizing c with
  | nil => intro _; cases c <;> rfl
  | cons x xs ih =>
      intro h
      have hx : x ≠ sep := fun heq => h (heq ▸ List.mem_cons_self)
      have hxs : sep ∉ xs := fun hmem => h (List.mem_cons_of_mem x hmem)
      cases c with
      | zero =>
          rw [fromRight, List.filter_cons_of_neg (by simp), List.filter_cons_of_pos
            (by simpa using hx), ih hxs]
      | succ c => rw [fromRight, List.filter_cons_of_pos (by simpa using hx), ih hxs]

/-- Of the first `r` items one in `k + 1` is a separator. -/
theorem count_take (hk : 0 < k) : ∀ {xs : List α} {r c : Nat}, sep ∉ xs → c ≤ k →
    r ≤ (fromRight sep k c xs).length →
    ((fromRight sep k c xs).take r).count sep = (r + (k - c)) / (k + 1) := by
  intro xs
  induction xs with
  | nil =>
      intro r c _ _ hr
      have hr : r = 0 := by
        cases c <;> exact Nat.le_zero.1 hr
      rw [hr, List.take_zero, List.count_nil, Nat.div_eq_of_lt (by omega)]
  | cons x xs ih =>
      intro r c h hc hr
      have hx : x ≠ sep := fun heq => h (heq ▸ List.mem_cons_self)
      have hxs : sep ∉ xs := fun hmem => h (List.mem_cons_of_mem x hmem)
      cases c with
      | zero =>
          rw [fromRight] at hr ⊢
          match r with
          | 0 => rw [List.take_zero, List.count_nil, Nat.div_eq_of_lt (by omega)]
          | 1 =>
              rw [List.take_succ_cons, List.take_zero, List.count_cons_self, List.count_nil,
                Nat.sub_zero, Nat.add_comm 1 k, Nat.div_self (Nat.succ_pos k)]
          | r + 2 =>
              have hrest := ih hxs (Nat.sub_le k 1)
                (Nat.le_of_succ_le_succ (Nat.le_of_succ_le_succ hr))
              have hsum : r + 2 + (k - 0) = r + (k - (k - 1)) + (k + 1) := by omega
              rw [List.take_succ_cons, List.take_succ_cons, List.count_cons_self,
                List.count_cons_of_ne hx, hrest, hsum, Nat.add_div_right _ (Nat.succ_pos k)]
      | succ c =>
          rw [fromRight] at hr ⊢
          cases r with
          | zero => rw [List.take_zero, List.count_nil, Nat.div_eq_of_lt (by omega)]
          | succ r =>
              have hrest := ih hxs (Nat.le_of_succ_le hc) (Nat.le_of_succ_le_succ hr)
              have hsum : r + 1 + (k - (c + 1)) = r + (k - c) := by omega
              rw [List.take_succ_cons, List.count_cons_of_ne hx, hrest, hsum]

end

end

/-! ## Reversing in place

Two indices go towards each other and the items at them change places. What is
outside them is done and what is between them is as it was. -/

/-- The items at `j` and `i` change places, and both go on towards the middle. What
is returned is counted from where they meet. -/
def swapEnds (d : α) : Nat → List α → Nat → Nat → List α × Nat
  | 0, s, j, i => (s, i + j + 1)
  | fuel + 1, s, j, i =>
      if j < i then
        swapEnds d fuel ((s.set j (s.getD i d)).set i (s.getD j d)) (j + 1) (i - 1)
      else (s, i + j + 1)

theorem set_length_append {a t : List α} {x v : α} :
    (a ++ x :: t).set a.length v = a ++ v :: t := by
  rw [List.set_append_right _ _ (Nat.le_refl _), Nat.sub_self, List.set_cons_zero]

theorem getD_length_append {a t : List α} {x d : α} : (a ++ x :: t).getD a.length d = x := by
  rw [List.getD_eq_getElem?_getD, List.getElem?_append_right (Nat.le_refl _), Nat.sub_self]
  rfl

/-- Two items change places. -/
theorem set_ends {a m b : List α} {x y : α} :
    ((a ++ x :: m ++ y :: b).set a.length y).set (a ++ x :: m).length x =
      a ++ y :: m ++ x :: b := by
  have hlen : (a ++ x :: m).length = (a ++ y :: m).length := by
    rw [List.length_append, List.length_append]
    rfl
  rw [List.append_assoc, List.cons_append, set_length_append, hlen, ← List.cons_append,
    ← List.append_assoc, set_length_append]

theorem swapEnds_length {d : α} : ∀ (fuel : Nat) (s : List α) (j i : Nat),
    (swapEnds d fuel s j i).1.length = s.length := by
  intro fuel
  induction fuel with
  | zero => intro s j i; rfl
  | succ fuel ih =>
      intro s j i
      rw [swapEnds]
      split
      · rw [ih, List.length_set, List.length_set]
      · rfl

/-- What stands from `j` to `i` is turned round; what stands outside is not touched. -/
theorem swapEnds_eq {d : α} : ∀ {fuel : Nat} {a mid b : List α} {i : Nat},
    mid.length ≤ fuel → i + 1 = a.length + mid.length →
    swapEnds d fuel (a ++ mid ++ b) a.length i =
      (a ++ mid.reverse ++ b, a.length + (a.length + mid.length)) := by
  intro fuel
  induction fuel with
  | zero =>
      intro a mid b i hmid hi
      rw [List.length_eq_zero_iff.1 (Nat.le_zero.1 hmid)] at hi ⊢
      rw [swapEnds, ← hi, List.reverse_nil]
      exact congrArg _ (by omega)
  | succ fuel ih =>
      intro a mid b i hmid hi
      cases mid with
      | nil =>
          rw [List.length_nil, Nat.add_zero] at hi
          rw [swapEnds, if_neg (by omega), List.reverse_nil, List.length_nil]
          exact congrArg _ (by omega)
      | cons x t =>
          rcases List.eq_nil_or_concat t with rfl | ⟨m, y, ht⟩
          · rw [List.length_singleton] at hi
            rw [swapEnds, if_neg (by omega), List.reverse_singleton, List.length_singleton]
            exact congrArg _ (by omega)
          · rw [List.concat_eq_append] at ht
            have hlen : (x :: (m ++ [y])).length = m.length + 2 := by simp
            rw [ht, hlen] at hmid hi ⊢
            have hlast : i = (a ++ x :: m).length := by
              rw [List.length_append, List.length_cons]
              omega
            have hsplit : a ++ x :: (m ++ [y]) ++ b = a ++ x :: m ++ y :: b := by simp
            have hx : (a ++ x :: m ++ y :: b).getD a.length d = x := by
              rw [List.append_assoc]
              exact getD_length_append
            have hset : ((a ++ x :: m ++ y :: b).set a.length y).set i x =
                a ++ [y] ++ m ++ x :: b := by
              rw [hlast, set_ends]
              simp
            have hnext := @ih (a ++ [y]) m (x :: b) (i - 1) (by omega)
              (by rw [List.length_append, List.length_singleton]; omega)
            rw [List.length_append, List.length_singleton] at hnext
            rw [swapEnds, if_pos (by omega), hsplit, hx, hlast, getD_length_append, ← hlast,
              hset, hnext]
            simp
            omega

end Grouping
