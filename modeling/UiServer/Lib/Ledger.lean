import Mathlib.Algebra.BigOperators.Group.Finset.Basic
import Mathlib.Algebra.Order.BigOperators.Group.Finset

/-!
# A count kept beside the things it counts

A program that counts its objects keeps a number next to a table and changes
both, one entry at a time. `total` is what the number should be: the sum of the
weights of the entries. The rules say what becomes of it when one entry changes,
when an entry is added, and when only the weights matter.
-/

namespace Ledger

universe u v

variable {I : Type u} {T : Type v}

/-- The weights of the entries of `f` over `S`. -/
def total (S : Finset I) (w : T → Nat) (f : I → T) : Nat := S.sum fun i => w (f i)

theorem total_congr {S : Finset I} {w w' : T → Nat} {f f' : I → T}
    (h : ∀ i ∈ S, w (f i) = w' (f' i)) : total S w f = total S w' f' :=
  Finset.sum_congr rfl h

theorem weight_le_total {S : Finset I} {w : T → Nat} {f : I → T} {i : I} (hi : i ∈ S) :
    w (f i) ≤ total S w f := by
  rw [total]
  exact Finset.single_le_sum (fun j _ => Nat.zero_le (w (f j))) hi

theorem total_replace [DecidableEq I] {S : Finset I} {w : T → Nat} {f g : I → T}
    {i : I} (hi : i ∈ S) (h : ∀ j ∈ S, j ≠ i → g j = f j) :
    total S w g + w (f i) = total S w f + w (g i) := by
  have hrest : (S.erase i).sum (fun j => w (g j)) =
      (S.erase i).sum fun j => w (f j) :=
    Finset.sum_congr rfl fun j hj => by
      rw [h j (Finset.mem_of_mem_erase hj) (Finset.ne_of_mem_erase hj)]
  simp only [total]
  rw [← Finset.add_sum_erase S (fun j => w (g j)) hi,
    ← Finset.add_sum_erase S (fun j => w (f j)) hi, hrest]
  omega

theorem total_range_succ (n : Nat) (w : T → Nat) (f : Nat → T) :
    total (Finset.range (n + 1)) w f = total (Finset.range n) w f + w (f n) :=
  Finset.sum_range_succ _ n

theorem total_of_zero {S : Finset I} {w : T → Nat} {f : I → T}
    (h : ∀ i ∈ S, w (f i) = 0) : total S w f = 0 :=
  Finset.sum_eq_zero h

theorem total_eq_zero {S : Finset I} {w : T → Nat} {f : I → T}
    (h : total S w f = 0) {i : I} (hi : i ∈ S) : w (f i) = 0 :=
  Nat.le_zero.1 (h ▸ weight_le_total hi)

end Ledger
