import Mathlib.Data.List.GetD
import Mathlib.Data.List.Perm.Basic
import Mathlib.Order.Lattice

/-!
# Sorting by selection

One place after the other, the element with the least key behind it is looked for and
changes over with the one that stands there. What has been passed is in order and has
nothing less behind it (`SortedTo`), and no element is lost on the way.

Which of two elements with one key comes first is not said: they may change over.
-/

namespace Selection

universe u v

variable {α : Type u} {κ : Type v} [LinearOrder κ] (key : α → κ) (d : α)

/-- `for (; j < ...; j++) if (key(xs[n]) > key(xs[j])) n = j`, with the rounds left. -/
def leastFrom (xs : List α) : Nat → Nat → Nat → Nat
  | 0, _, n => n
  | left + 1, j, n =>
      leastFrom xs left (j + 1) (if key (xs.getD j d) < key (xs.getD n d) then j else n)

/-- The places `i` and `n` change over. -/
def exchange (xs : List α) (i n : Nat) : List α := (xs.set i (xs.getD n d)).set n (xs.getD i d)

/-- The loop over `i`, with the rounds left. -/
def sortFrom : Nat → Nat → List α → List α
  | 0, _, xs => xs
  | left + 1, i, xs =>
      let n := leastFrom key d xs (xs.length - (i + 1)) (i + 1) i
      sortFrom left (i + 1) (if n ≠ i then exchange d xs i n else xs)

def sort (xs : List α) : List α := sortFrom key d (xs.length - 1) 0 xs

/-- At `n` stands the least of those from `i` up to `k`. -/
structure Least (xs : List α) (i k n : Nat) : Prop where
  ge : i ≤ n
  lt : n < xs.length
  le : ∀ m, i ≤ m → m < k → key (xs.getD n d) ≤ key (xs.getD m d)

variable {key d} {xs : List α} {i j n : Nat}

variable (key d) in
theorem least_start (h : i < xs.length) : Least key d xs i (i + 1) i := by
  refine ⟨Nat.le_refl i, h, fun m hge hlt => ?_⟩
  obtain rfl : m = i := by omega
  exact le_refl _

theorem Least.next (h : Least key d xs i j n) (hij : i ≤ j) (hj : j < xs.length) :
    Least key d xs i (j + 1) (if key (xs.getD j d) < key (xs.getD n d) then j else n) := by
  split
  · next hless =>
      refine ⟨hij, hj, fun m hge hlt => ?_⟩
      rcases Nat.lt_succ_iff_lt_or_eq.1 hlt with hlt | rfl
      · exact le_trans hless.le (h.le m hge hlt)
      · exact le_refl _
  · next hless =>
      refine ⟨h.ge, h.lt, fun m hge hlt => ?_⟩
      rcases Nat.lt_succ_iff_lt_or_eq.1 hlt with hlt | rfl
      · exact h.le m hge hlt
      · exact not_lt.1 hless

theorem leastFrom_spec (left : Nat) : ∀ {j n : Nat}, Least key d xs i j n → i ≤ j →
    j + left ≤ xs.length → Least key d xs i (j + left) (leastFrom key d xs left j n) := by
  induction left with
  | zero => exact fun h _ _ => h
  | succ left ih =>
      intro j n h hij hle
      have hnext := ih (h.next hij (by omega)) (Nat.le_succ_of_le hij) (by omega)
      rw [leastFrom]
      rwa [Nat.add_right_comm, Nat.add_assoc] at hnext

theorem length_exchange : (exchange d xs i n).length = xs.length := by simp [exchange]

theorem getD_exchange (hi : i < xs.length) (hn : n < xs.length) (b : Nat) :
    (exchange d xs i n).getD b d =
      if n = b then xs.getD i d else if i = b then xs.getD n d else xs.getD b d := by
  rw [exchange, List.getD_eq_getElem?_getD, List.getElem?_set, List.length_set, List.getElem?_set]
  split
  · rfl
  · split
    · rfl
    · rw [← List.getD_eq_getElem?_getD]

theorem exchange_perm (hi : i < xs.length) (hn : n < xs.length) :
    (exchange d xs i n).Perm xs := by
  rw [exchange, List.getD_eq_getElem _ _ hi, List.getD_eq_getElem _ _ hn]
  exact List.set_set_perm hi hn

/-! ## The places in front

The invariant of the outer loop: what was passed is in order and has nothing less
behind it. The least of the rest comes next, and both stay true. -/

variable (key d) in
/-- The first `i` are in order, and nothing behind them is less. -/
def SortedTo (i : Nat) (xs : List α) : Prop :=
  ∀ a b, a < b → a < i → b < xs.length → key (xs.getD a d) ≤ key (xs.getD b d)

theorem SortedTo.next (h : SortedTo key d i xs) (hn : Least key d xs i xs.length n) :
    SortedTo key d (i + 1) (exchange d xs i n) := by
  have hi : i < xs.length := Nat.lt_of_le_of_lt hn.ge hn.lt
  intro a b hab ha hb
  rw [length_exchange] at hb
  -- what stands at `b` came from `b` itself or from a place that is not passed yet
  obtain ⟨c, hc, hfrom, hback⟩ : ∃ c, c < xs.length ∧
      (exchange d xs i n).getD b d = xs.getD c d ∧ (c = b ∨ i ≤ c) := by
    rw [getD_exchange hi hn.lt]
    split
    · exact ⟨i, hi, rfl, Or.inr (Nat.le_refl i)⟩
    · split
      · exact ⟨n, hn.lt, rfl, Or.inr hn.ge⟩
      · exact ⟨b, hb, rfl, Or.inl rfl⟩
  have hnge := hn.ge
  rw [hfrom]
  rcases Nat.lt_succ_iff_lt_or_eq.1 ha with ha | rfl
  · rw [getD_exchange hi hn.lt, if_neg (by omega), if_neg (by omega)]
    exact h a c (by omega) ha hc
  · have hleast : (exchange d xs a n).getD a d = xs.getD n d := by
      rw [getD_exchange hi hn.lt]
      split
      · next heq => rw [heq]
      · exact if_pos rfl
    rw [hleast]
    exact hn.le c (by omega) hc

theorem exchange_self (xs : List α) (i : Nat) : exchange d xs i i = xs := by
  rw [exchange, List.set_set]
  by_cases hi : i < xs.length
  · rw [List.getD_eq_getElem _ _ hi, List.set_getElem_self]
  · exact List.set_eq_of_length_le (Nat.not_lt.1 hi)

theorem sortFrom_spec {left : Nat} : ∀ {i : Nat} {xs : List α}, SortedTo key d i xs →
    i + left < xs.length → (sortFrom key d left i xs).Perm xs ∧
      SortedTo key d (i + left) (sortFrom key d left i xs) := by
  induction left with
  | zero => exact fun h _ => ⟨List.Perm.refl _, h⟩
  | succ left ih =>
      intro i xs h hlt
      have hi : i < xs.length := by omega
      have hleast := leastFrom_spec (xs.length - (i + 1)) (least_start key d hi) (Nat.le_succ i)
        (by omega)
      rw [Nat.add_sub_cancel' hi] at hleast
      have hstep := h.next hleast
      have hperm := exchange_perm (d := d) hi hleast.lt
      have hround : sortFrom key d (left + 1) i xs =
          sortFrom key d left (i + 1) (exchange d xs i
            (leastFrom key d xs (xs.length - (i + 1)) (i + 1) i)) := by
        rw [sortFrom]
        split
        · rfl
        · next hsame => rw [not_not.1 hsame, exchange_self]
      obtain ⟨hnext, hsorted⟩ := ih hstep (by rw [length_exchange]; omega)
      rw [hround]
      refine ⟨hnext.trans hperm, ?_⟩
      rwa [Nat.add_right_comm, Nat.add_assoc] at hsorted

variable (key d) in
theorem sort_spec (x : α) (xs : List α) : (sort key d (x :: xs)).Perm (x :: xs) ∧
    SortedTo key d xs.length (sort key d (x :: xs)) := by
  have hstart : SortedTo key d 0 (x :: xs) := fun a b _ ha _ => absurd ha (Nat.not_lt_zero a)
  have hspec := @sortFrom_spec _ _ _ key d xs.length 0 (x :: xs) hstart (by simp)
  rw [Nat.zero_add] at hspec
  exact hspec

variable (key d) in
/-- Nothing is lost or comes twice. -/
theorem sort_perm (xs : List α) : (sort key d xs).Perm xs := by
  cases xs with
  | nil => exact List.Perm.refl _
  | cons x xs => exact (sort_spec key d x xs).1

variable (key d) in
theorem sort_sorted (xs : List α) :
    (sort key d xs).Pairwise fun a b => key a ≤ key b := by
  cases xs with
  | nil => exact List.Pairwise.nil
  | cons x xs =>
      obtain ⟨hperm, hsorted⟩ := sort_spec key d x xs
      have hlen := hperm.length_eq
      rw [List.length_cons] at hlen
      rw [List.pairwise_iff_getElem]
      intro a b ha hb hab
      have hle := hsorted a b hab (by omega) hb
      rwa [List.getD_eq_getElem _ _ ha, List.getD_eq_getElem _ _ hb] at hle

end Selection
