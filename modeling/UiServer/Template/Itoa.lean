import UiServer.Lib.Grouping
import UiServer.Template.Result

/-!
# Numbers in groups of any width

`temp_itoa` takes the width of a group as an argument. It writes the digits from the
last one on, so the text is the wrong way round until the loop at its end turns it.
With `k = 3` it is the conversion of the renderer (`tempItoaGroups_three`).
-/

namespace UiServer

open CMem Grouping

/-- A digit that ends a group is followed by a comma, unless it is the last one or the
last there is room for. -/
def itoaComma (size k : Nat) (n : Int) (s : Bytes) : Bytes :=
  if 0 < n ∧ s.length < size ∧ (s.length + 1) % (k + 1) = 0 then s ++ [44] else s

/-- The `do` loop of `temp_itoa`: what is written, in the order it is written, and
what is left of the number. -/
def itoaDigits (size k : Nat) : Nat → Int → Bytes → Bytes × Int
  | 0, n, s => (s, n)
  | fuel + 1, n, s =>
      let s := s ++ [UInt8.ofInt (n.tmod 10 + 48)]
      let n := n.tdiv 10
      let s := itoaComma size k n s
      if 0 < n ∧ s.length < size then itoaDigits size k fuel n s else (s, n)

/-- The sign, if there is room for it. A text with room for its terminator is turned
round then; otherwise what is left of the number is printed over it. -/
def itoaFinish (n : Int) (size : Nat) (s : Bytes) (m : Int) : Converted :=
  let s := if s.length < size ∧ n < 0 then s ++ [45] else s
  if s.length < size then
    let (s, num) := swapEnds 0 s.length (s ++ [0]) 0 (s.length - 1)
    ⟨s, num⟩
  else
    let text := printed size (decimalInt m)
    ⟨text ++ s.drop text.length, (decimalInt m).length⟩

/-- `temp_itoa`. The negation of the smallest `int` wraps around here and is not
defined in C. -/
def tempItoaGroups (n : Int) (size : Nat) (k : Int) : Converted :=
  if size < 1 then ⟨[], 0⟩
  else if k < 1 then .print size (decimalInt n)
  else
    let (s, m) := itoaDigits size k.toNat 10 (if n < 0 then Int.bmod (-n) (2 ^ 32) else n) []
    itoaFinish n size s m

/-! ## The end of the call

With room for its terminator the text is turned round. In a full buffer it is not,
and what is left of the number is printed over it. -/

/-- The loop at the end leaves the text the right way round and answers with its
length. -/
theorem swapEnds_terminated {s : Bytes} (h : 0 < s.length) :
    swapEnds 0 s.length (s ++ [0]) 0 (s.length - 1) = (s.reverse ++ [0], s.length) := by
  have hmeet : s.length - 1 + 1 = ([] : Bytes).length + s.length := by
    rw [List.length_nil]
    omega
  have hswap := @swapEnds_eq _ (0 : UInt8) s.length [] s [0] (s.length - 1) (Nat.le_refl _) hmeet
  rw [List.nil_append, List.nil_append, List.length_nil, Nat.zero_add, Nat.zero_add] at hswap
  exact hswap

theorem itoaSign_length (n : Int) (size : Nat) (s : Bytes) :
    (if s.length < size ∧ n < 0 then s ++ [45] else s).length =
      s.length + if s.length < size ∧ n < 0 then 1 else 0 := by
  split <;> simp

theorem itoaFinish_room {n : Int} {size : Nat} {s : Bytes} (m : Int) (hs : 0 < s.length)
    (h : ((if n < 0 then [45] else []) ++ s.reverse).length < size) :
    itoaFinish n size s m = ⟨(if n < 0 then [45] else []) ++ s.reverse ++ [0],
      ((if n < 0 then [45] else []) ++ s.reverse).length⟩ := by
  rw [List.length_append, List.length_reverse] at h
  have hsign : (if s.length < size ∧ n < 0 then s ++ [45] else s) =
      ((if n < 0 then [45] else []) ++ s.reverse).reverse := by
    by_cases hn : n < 0
    · rw [if_pos ⟨by omega, hn⟩, if_pos hn, List.reverse_append, List.reverse_reverse]
      rfl
    · rw [if_neg fun hneg => hn hneg.2, if_neg hn, List.nil_append, List.reverse_reverse]
  have hturn := @swapEnds_terminated ((if n < 0 then [45] else []) ++ s.reverse).reverse
    (by rw [List.length_reverse, List.length_append, List.length_reverse]; omega)
  rw [List.reverse_reverse] at hturn
  simp only [itoaFinish, hsign, hturn]
  rw [List.length_reverse, if_pos (by rw [List.length_append, List.length_reverse]; exact h)]

theorem itoaFinish_full {n : Int} {size : Nat} {s : Bytes} (m : Int)
    (h : size ≤ ((if n < 0 then [45] else []) ++ s.reverse).length) :
    (itoaFinish n size s m).num = (decimalInt m).length := by
  rw [List.length_append, List.length_reverse] at h
  have hlong : ¬ (if s.length < size ∧ n < 0 then s ++ [45] else s).length < size := by
    rw [itoaSign_length]
    by_cases hn : n < 0
    · rw [if_pos hn, List.length_singleton] at h
      split <;> omega
    · rw [if_neg hn, List.length_nil] at h
      omega
  simp only [itoaFinish, if_neg hlong]

theorem itoaFinish_stored {n : Int} {size : Nat} {s : Bytes} {m : Int} (h : s.length ≤ size) :
    (itoaFinish n size s m).stored.length ≤ size := by
  have hsign : (if s.length < size ∧ n < 0 then s ++ [45] else s).length ≤ size := by
    rw [itoaSign_length]
    split <;> omega
  rw [itoaFinish]
  generalize (if s.length < size ∧ n < 0 then s ++ [45] else s) = t at hsign ⊢
  have hprinted := length_printed size (decimalInt m)
  simp only []
  split
  · next hlt =>
      rw [swapEnds_length, List.length_append]
      exact hlt
  · rw [List.length_append, List.length_drop]
    omega

/-! ## The digits

Each round writes a digit, and a comma if a group is full and there is room for
what follows. So the text grows by one or two bytes a round and never past the
buffer. -/

theorem length_le_itoaComma (size k : Nat) (n : Int) (s : Bytes) :
    s.length ≤ (itoaComma size k n s).length := by
  rw [itoaComma]
  split
  · rw [List.length_append]
    exact Nat.le_add_right _ _
  · exact Nat.le_refl _

theorem itoaComma_le {size : Nat} (k : Nat) (n : Int) {s : Bytes} (h : s.length ≤ size) :
    (itoaComma size k n s).length ≤ size := by
  rw [itoaComma]
  split
  · next hc =>
      rw [List.length_append]
      exact hc.2.1
  · exact h

theorem itoaDigits_le {size k : Nat} : ∀ (fuel : Nat) (n : Int) {s : Bytes},
    s.length < size → (itoaDigits size k fuel n s).1.length ≤ size := by
  intro fuel
  induction fuel with
  | zero => intro n s h; exact Nat.le_of_lt h
  | succ fuel ih =>
      intro n s h
      have hdigit : (s ++ [UInt8.ofInt (n.tmod 10 + 48)]).length ≤ size := by
        rw [List.length_append, List.length_singleton]
        exact h
      simp only [itoaDigits]
      split
      · next hgo => exact ih _ hgo.2
      · exact itoaComma_le k _ hdigit

theorem itoaDigits_grows {size k : Nat} : ∀ (fuel : Nat) (n : Int) (s : Bytes),
    s.length ≤ (itoaDigits size k fuel n s).1.length := by
  intro fuel
  induction fuel with
  | zero => intro n s; exact Nat.le_refl _
  | succ fuel ih =>
      intro n s
      have hdigit : s.length ≤ (s ++ [UInt8.ofInt (n.tmod 10 + 48)]).length := by
        rw [List.length_append]
        exact Nat.le_add_right _ _
      have hcomma := Nat.le_trans hdigit (length_le_itoaComma size k (n.tdiv 10) _)
      simp only [itoaDigits]
      split
      · exact Nat.le_trans hcomma (ih _ _)
      · exact hcomma

/-- There is a digit for every number, `0` too. -/
theorem itoaDigits_pos {size k : Nat} (fuel : Nat) (n : Int) (s : Bytes) :
    0 < (itoaDigits size k (fuel + 1) n s).1.length := by
  have hcomma := length_le_itoaComma size k (n.tdiv 10) (s ++ [UInt8.ofInt (n.tmod 10 + 48)])
  rw [List.length_append, List.length_singleton] at hcomma
  have hpos := Nat.lt_of_lt_of_le (Nat.succ_pos _) hcomma
  simp only [itoaDigits]
  split
  · exact Nat.lt_of_lt_of_le hpos (itoaDigits_grows _ _ _)
  · exact hpos

/-- The conversion stays in its buffer. -/
theorem tempItoaGroups_stored (n : Int) (size : Nat) (k : Int) :
    (tempItoaGroups n size k).stored.length ≤ size := by
  rw [tempItoaGroups]
  split
  · exact Nat.zero_le _
  · next hsize =>
      split
      · exact length_printed size _
      · exact itoaFinish_stored (itoaDigits_le 10 _ (Nat.not_lt.1 hsize))

theorem itoaDigits_three {size : Nat} : ∀ (fuel : Nat) (n : Int) (s : Bytes),
    itoaDigits size 3 fuel n s =
      ((itoaLoop size fuel n s.reverse).1.reverse, (itoaLoop size fuel n s.reverse).2) := by
  intro fuel
  induction fuel with
  | zero => intro n s; rw [itoaDigits, itoaLoop, List.reverse_reverse]
  | succ fuel ih =>
      intro n s
      have hpush : UInt8.ofInt (n.tmod 10 + 48) :: s.reverse =
          (s ++ [UInt8.ofInt (n.tmod 10 + 48)]).reverse := by rw [List.reverse_concat]
      have hcomma : ∀ (m : Int) (t : Bytes),
          (if 0 < m ∧ t.length < size ∧ (t.length + 1) % 4 = 0 then 44 :: t.reverse
            else t.reverse) = (itoaComma size 3 m t).reverse := by
        intro m t
        rw [itoaComma]
        split
        · rw [List.reverse_concat]
        · rfl
      simp only [itoaDigits, itoaLoop, hpush, List.length_reverse, hcomma]
      split
      · exact ih _ _
      · rw [List.reverse_reverse]

/-- The renderer asks for groups of three. -/
theorem tempItoaGroups_three (n : Int) (size : Nat) :
    tempItoaGroups n size 3 = tempItoa n size := by
  simp only [tempItoaGroups, tempItoa]
  split
  · rfl
  · have hk : (3 : Int).toNat = 3 := rfl
    rw [if_neg (by decide), hk, itoaDigits_three]
    have hpos := @itoaDigits_pos size 3 9 (if n < 0 then Int.bmod (-n) (2 ^ 32) else n) []
    rw [itoaDigits_three, List.length_reverse, List.reverse_nil] at hpos
    rw [List.reverse_nil]
    generalize itoaLoop size 10 (if n < 0 then Int.bmod (-n) (2 ^ 32) else n) [] = r at hpos ⊢
    obtain ⟨s, m⟩ := r
    simp only [itoaFinish, List.length_reverse] at hpos ⊢
    have hsign : (if s.length < size ∧ n < 0 then s.reverse ++ [45] else s.reverse) =
        (if s.length < size ∧ n < 0 then 45 :: s else s).reverse := by
      split
      · rw [List.reverse_cons]
      · rfl
    have hlong : 0 < (if s.length < size ∧ n < 0 then 45 :: s else s).length := by
      split
      · exact Nat.succ_pos _
      · exact hpos
    rw [hsign]
    generalize (if s.length < size ∧ n < 0 then 45 :: s else s) = t at hlong ⊢
    rw [← List.length_reverse] at hlong
    have hturn := swapEnds_terminated hlong
    rw [List.reverse_reverse] at hturn
    rw [hturn, List.length_reverse]

end UiServer
