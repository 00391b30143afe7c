import UiServer.Proofs.Results
import UiServer.Template.Itoa

/-!
# What `temp_itoa` writes

While there is room the loop writes the digits in groups, from the last one on, and
what it has not written yet is what is left of the number (`Grouped`). When the room
ends first, what is left is a shorter number, and that is the one the fallback prints
and counts: the answer is the number of its digits (`tempItoaGroups_cases`).
-/

namespace UiServer

open CMem Grouping

/-! ## Decimal digits

The loop divides and takes remainders, and comes upon the digits of the decimal
text from its end. -/

theorem digitChar_byte : ∀ {d : Nat}, d < 10 →
    (Nat.digitChar d).toNat.toUInt8 = UInt8.ofNat (d + 48) := by
  decide

/-- The last digit comes off the end. -/
theorem decimal_reverse (n : Nat) : (decimal n).reverse =
    UInt8.ofNat (n % 10 + 48) :: if n / 10 = 0 then [] else (decimal (n / 10)).reverse := by
  rw [decimal, Nat.toDigits_eq_if (by decide)]
  by_cases h : n < 10
  · rw [if_pos h, if_pos (Nat.div_eq_of_lt h), Nat.mod_eq_of_lt h, List.map_singleton,
      digitChar_byte h, List.reverse_singleton]
  · rw [if_neg h, if_neg (by omega), List.map_append, List.map_singleton,
      digitChar_byte (Nat.mod_lt n (by decide)), List.reverse_concat]
    rfl

theorem decimal_ne_nil (n : Nat) : decimal n ≠ [] := by
  intro h
  have := decimal_reverse n
  rw [h] at this
  exact absurd this (List.cons_ne_nil _ _).symm

theorem decimal_digit {n : Nat} {b : UInt8} : b ∈ decimal n → 48 ≤ b ∧ b ≤ 57 := by
  rw [← List.mem_reverse]
  induction n using Nat.strong_induction_on with
  | _ n ih =>
      intro hb
      rw [decimal_reverse] at hb
      rcases List.mem_cons.1 hb with rfl | hb
      · have hdigit : ∀ d < 10, 48 ≤ UInt8.ofNat (d + 48) ∧ UInt8.ofNat (d + 48) ≤ 57 := by
          decide
        exact hdigit _ (Nat.mod_lt n (by decide))
      · split at hb
        · exact absurd hb List.not_mem_nil
        · exact ih (n / 10) (by omega) hb

theorem comma_not_mem_decimal (n : Nat) : (44 : UInt8) ∉ (decimal n).reverse := by
  intro h
  exact absurd (decimal_digit (List.mem_reverse.1 h)).1 (by decide)

/-! ## The loop

The invariant is about the text that is to be written and not about the number:
what stands in the buffer, turned round, and the digits of what is left are
together the text. A round moves one digit across and puts a comma where a group
is full. -/

/-- What is written and what is left of the number are the text together; `c` more
digits fit into the group that is open. -/
structure Grouped (k : Nat) (text s : Bytes) (n c : Nat) : Prop where
  text_eq : text = s ++ fromRight 44 k c (decimal n).reverse
  le : c ≤ k
  place : (s.length + c) % (k + 1) = k

theorem comma_place {k i c : Nat} (hc : c ≤ k) (h : (i + c) % (k + 1) = k) :
    (i + 1) % (k + 1) = 0 ↔ c = 0 := by
  constructor
  · intro hi
    -- one place before the comma the remainder is `k`, so `c` places on it is `c - 1`
    obtain ⟨q, hq⟩ := Nat.dvd_of_mod_eq_zero hi
    by_contra hne
    have hsum : i + c = (k + 1) * q + (c - 1) := by omega
    rw [hsum, Nat.mul_add_mod, Nat.mod_eq_of_lt (by omega)] at h
    omega
  · rintro rfl
    have hi := Nat.div_add_mod i (k + 1)
    rw [Nat.add_zero] at h
    rw [h] at hi
    rw [← hi, Nat.add_assoc, Nat.mul_add_mod, Nat.mod_self]

theorem Grouped.last {k : Nat} {text s : Bytes} {n c : Nat} (h : Grouped k text s n (c + 1))
    (hn : n / 10 = 0) : text = s ++ [UInt8.ofNat (n % 10 + 48)] := by
  rw [h.text_eq, decimal_reverse, if_pos hn, fromRight]
  cases c <;> rfl

theorem Grouped.push {k : Nat} {text s : Bytes} {n c : Nat} (h : Grouped k text s n (c + 1))
    (hn : n / 10 ≠ 0) : Grouped k text (s ++ [UInt8.ofNat (n % 10 + 48)]) (n / 10) c where
  text_eq := by
    rw [h.text_eq, decimal_reverse, if_neg hn, fromRight, List.append_assoc]
    rfl
  le := Nat.le_of_succ_le h.le
  place := by
    have := h.place
    rw [List.length_append, List.length_singleton, Nat.add_right_comm]
    exact this

/-- A comma closes the group that is full. -/
theorem Grouped.comma {size k : Nat} {text s : Bytes} {n c : Nat} (hk : 0 < k) (hn : 0 < n)
    (h : Grouped k text s n c) :
    ∃ c', Grouped k text (itoaComma size k n s) n c' ∧
      ((itoaComma size k n s).length < size → 0 < c') := by
  have hplace := comma_place h.le h.place
  by_cases hroom : s.length < size
  · by_cases hc : c = 0
    · rw [itoaComma, if_pos ⟨Int.natCast_pos.2 hn, hroom, hplace.2 hc⟩]
      refine ⟨k, ⟨?_, Nat.le_refl k, ?_⟩, fun _ => hk⟩
      · have hne : (decimal n).reverse ≠ [] := by simpa using decimal_ne_nil n
        rw [h.text_eq, hc, fromRight_zero hk hne, List.append_assoc]
        rfl
      · have := h.place
        rw [hc, Nat.add_zero] at this
        rw [List.length_append, List.length_singleton, Nat.add_assoc, Nat.add_comm 1 k,
          Nat.add_mod_right, this]
    · rw [itoaComma, if_neg fun hcomma => hc (hplace.1 hcomma.2.2)]
      exact ⟨c, h, fun _ => Nat.pos_of_ne_zero hc⟩
  · rw [itoaComma, if_neg fun hcomma => hroom hcomma.2.1]
    exact ⟨c, h, fun hlt => absurd hlt hroom⟩

theorem itoaDigits_step (size k fuel n : Nat) (s : Bytes) :
    itoaDigits size k (fuel + 1) n s =
      let s := itoaComma size k (n / 10 : Nat) (s ++ [UInt8.ofNat (n % 10 + 48)])
      if 0 < n / 10 ∧ s.length < size then itoaDigits size k fuel (n / 10 : Nat) s
      else (s, (n / 10 : Nat)) := by
  have hbyte : ∀ d < 10, UInt8.ofInt ((d : Nat) + 48) = UInt8.ofNat (d + 48) := by decide
  have hmod : (n : Int).tmod 10 = (n % 10 : Nat) := rfl
  have hdiv : (n : Int).tdiv 10 = (n / 10 : Nat) := rfl
  rw [itoaDigits, hmod, hdiv, hbyte _ (Nat.mod_lt n (by decide))]
  simp only [Int.natCast_pos]

/-- The loop ends with the whole text, or with a full buffer. -/
theorem itoaDigits_grouped {size k : Nat} (hk : 0 < k) {text : Bytes} :
    ∀ {fuel n c : Nat} {s : Bytes}, Grouped k text s n (c + 1) → s.length < size →
      n < 10 ^ fuel → 0 < fuel →
      ∃ (s' : Bytes) (m : Nat), itoaDigits size k fuel n s = (s', (m : Int)) ∧
        (m = 0 ∧ s' = text ∨ 0 < m ∧ s'.length = size ∧ ∃ c', Grouped k text s' m c') := by
  intro fuel
  induction fuel with
  | zero => intro n c s _ _ _ hfuel; exact absurd hfuel (Nat.lt_irrefl 0)
  | succ fuel ih =>
      intro n c s h hs hn _
      rw [itoaDigits_step]
      by_cases hlast : n / 10 = 0
      · have hcomma : ∀ t, itoaComma size k (0 : Nat) t = t := fun t =>
          if_neg fun hcomma => absurd hcomma.1 (by decide)
        refine ⟨s ++ [UInt8.ofNat (n % 10 + 48)], 0, ?_, Or.inl ⟨rfl, (h.last hlast).symm⟩⟩
        simp only [hlast, hcomma, Nat.lt_irrefl, false_and, if_false]
      · have hpos : 0 < n / 10 := Nat.pos_of_ne_zero hlast
        obtain ⟨c', hg, hroom⟩ := @Grouped.comma size _ _ _ _ _ hk hpos (h.push hlast)
        have hle : (itoaComma size k (n / 10 : Nat) (s ++ [UInt8.ofNat (n % 10 + 48)])).length ≤
            size := by
          refine itoaComma_le k _ ?_
          rw [List.length_append]
          exact hs
        simp only []
        generalize itoaComma size k (n / 10 : Nat) (s ++ [UInt8.ofNat (n % 10 + 48)]) = t at *
        by_cases hlt : t.length < size
        · rw [if_pos ⟨hpos, hlt⟩]
          obtain ⟨c, rfl⟩ : ∃ d, c' = d + 1 := ⟨c' - 1, by have := hroom hlt; omega⟩
          have hrest : n / 10 < 10 ^ fuel := by
            rw [Nat.pow_succ] at hn
            omega
          refine ih hg hlt hrest (Nat.pos_of_ne_zero fun hzero => ?_)
          rw [hzero] at hrest
          exact hlast (Nat.lt_one_iff.1 hrest)
        · rw [if_neg fun hgo => hlt hgo.2]
          exact ⟨t, n / 10, rfl, Or.inr ⟨hpos, by omega, c', hg⟩⟩

/-! ## The call

The loop starts with all of the text left to write and ends in one of two ways:
nothing is left, and the text is turned round in place; or the buffer is full, and
the fallback prints the number that is left as if it were all of it. -/

/-- The sign, and the digits in groups of `k` with commas between them. -/
def numberText (n : Int) (k : Nat) : Bytes :=
  (if n < 0 then [45] else []) ++ grouped 44 k (decimal n.natAbs)

theorem itoaStart {n : Int} (hmin : -2 ^ 31 < n) (hmax : n < 2 ^ 31) :
    (if n < 0 then Int.bmod (-n) (2 ^ 32) else n) = (n.natAbs : Int) := by
  split
  · rw [Int.bmod_eq_of_le (by omega) (by omega)]
    omega
  · omega

theorem tempItoaGroups_eq {n : Int} {size k : Nat} (hmin : -2 ^ 31 < n) (hmax : n < 2 ^ 31)
    (hk : 1 ≤ k) (hsize : 1 ≤ size) :
    tempItoaGroups n size k =
      itoaFinish n size (itoaDigits size k 10 n.natAbs []).1
        (itoaDigits size k 10 n.natAbs []).2 := by
  have hwidth : ¬ (k : Int) < 1 := by omega
  rw [tempItoaGroups, if_neg (Nat.not_lt.2 hsize), if_neg hwidth, itoaStart hmin hmax,
    Int.toNat_natCast]

theorem grouped_reverse (k n : Nat) :
    (grouped (44 : UInt8) k (decimal n)).reverse = fromRight 44 k k (decimal n).reverse := by
  rw [grouped, List.reverse_reverse]

/-- The loop starts with all of the text to write. -/
theorem Grouped.start (k n : Nat) :
    Grouped k (grouped 44 k (decimal n)).reverse [] n k where
  text_eq := grouped_reverse k n
  le := Nat.le_refl k
  place := by
    rw [List.length_nil, Nat.zero_add]
    exact Nat.mod_eq_of_lt (Nat.lt_succ_self k)

/-- Either all of the text goes in with its terminator, or the answer counts the
digits that were left when the buffer was full. -/
theorem tempItoaGroups_cases {n : Int} {size k : Nat} (hmin : -2 ^ 31 < n)
    (hmax : n < 2 ^ 31) (hk : 1 ≤ k) (hsize : 1 ≤ size) :
    (numberText n k).length < size ∧ tempItoaGroups n size k =
      ⟨numberText n k ++ [0], (numberText n k).length⟩ ∨
    size ≤ (numberText n k).length ∧ ∃ m : Nat,
      (tempItoaGroups n size k).num = (decimal m).length ∧
      (m = 0 ∧ (grouped 44 k (decimal n.natAbs)).length ≤ size ∨ 0 < m ∧
        ∃ s c, s.length = size ∧
          Grouped k (grouped 44 k (decimal n.natAbs)).reverse s m c) := by
  obtain ⟨j, rfl⟩ : ∃ j, k = j + 1 := ⟨k - 1, by omega⟩
  have hdigits : n.natAbs < 10 ^ 10 := by omega
  obtain ⟨s, m, hloop, hend⟩ := itoaDigits_grouped (Nat.succ_pos j)
    (Grouped.start (j + 1) n.natAbs) hsize hdigits (by decide)
  have hcall := tempItoaGroups_eq hmin hmax hk hsize
  have hpos := @itoaDigits_pos size (j + 1) 9 n.natAbs []
  have hle := @itoaDigits_le size (j + 1) 10 n.natAbs [] hsize
  rw [hloop] at hcall hpos hle
  have hleft : decimalInt m = decimal m := if_pos (Int.natCast_nonneg m)
  rcases hend with ⟨rfl, rfl⟩ | ⟨hm, hfull, c, hg⟩
  · rw [List.length_reverse] at hpos hle
    by_cases hroom : (numberText n (j + 1)).length < size
    · have hfinish := @itoaFinish_room n size
        (grouped 44 (j + 1) (decimal n.natAbs)).reverse (0 : Nat)
        (by rw [List.length_reverse]; exact hpos)
      rw [List.reverse_reverse] at hfinish
      exact Or.inl ⟨hroom, hcall.trans (hfinish hroom)⟩
    · have hfinish := @itoaFinish_full n size
        (grouped 44 (j + 1) (decimal n.natAbs)).reverse (0 : Nat)
      rw [List.reverse_reverse] at hfinish
      refine Or.inr ⟨Nat.not_lt.1 hroom, 0, ?_, Or.inl ⟨rfl, hle⟩⟩
      rw [hcall, hfinish (Nat.not_lt.1 hroom), hleft]
  · have hlong : size ≤ (grouped 44 (j + 1) (decimal n.natAbs)).length := by
      rw [← List.length_reverse, hg.text_eq, List.length_append]
      omega
    refine Or.inr ⟨?_, m, ?_, Or.inr ⟨hm, s, c, hfull, hg⟩⟩
    · rw [numberText, List.length_append]
      omega
    · have hfinish := @itoaFinish_full n size s m
        (by rw [List.length_append, List.length_reverse]; omega)
      rw [hcall, hfinish, hleft]

/-! ## The whole text

Where there is room, the text is the number: its digits without the commas, and
each group but the first of the same length. -/

theorem decimalInt_eq (n : Int) :
    decimalInt n = (if n < 0 then [45] else []) ++ decimal n.natAbs := by
  rw [decimalInt]
  by_cases hn : n < 0
  · have habs : (-n).toNat = n.natAbs := by omega
    rw [if_neg (by omega), if_pos hn, habs]
    rfl
  · have habs : n.toNat = n.natAbs := by omega
    rw [if_pos (by omega), if_neg hn, habs]
    rfl

theorem filter_grouped (k n : Nat) :
    (grouped (44 : UInt8) k (decimal n)).filter (· ≠ 44) = decimal n := by
  rw [grouped, List.filter_reverse, filter_fromRight (comma_not_mem_decimal n),
    List.reverse_reverse]

/-- For every number and every width of a group, a buffer larger than the text gets the
text and its terminator: the digits, in groups of `k` counted from the right, with a
comma in front of each group but the first. -/
theorem tempItoaGroups_writes {n : Int} {size k : Nat} (hmin : -2 ^ 31 < n)
    (hmax : n < 2 ^ 31) (hk : 1 ≤ k) (hroom : (numberText n k).length < size) :
    tempItoaGroups n size k = ⟨numberText n k ++ [0], (numberText n k).length⟩ ∧
      (∃ (first : Bytes) (rest : List Bytes), decimal n.natAbs = first ++ rest.flatten ∧
        0 < first.length ∧ first.length ≤ k ∧ (∀ g ∈ rest, g.length = k) ∧
        numberText n k = (if n < 0 then [45] else []) ++ first ++ rest.flatMap (44 :: ·)) ∧
      (∀ b ∈ decimal n.natAbs, 48 ≤ b ∧ b ≤ 57) ∧
      (numberText n k).filter (· ≠ 44) = decimalInt n := by
  refine ⟨?_, ?_, fun b hb => decimal_digit hb, ?_⟩
  · rcases tempItoaGroups_cases hmin hmax hk (Nat.succ_le_of_lt (Nat.zero_lt_of_lt hroom))
      with ⟨_, heq⟩ | ⟨hlong, _⟩
    · exact heq
    · omega
  · obtain ⟨first, rest, hdigits, hpos, hle, hfull, htext⟩ :=
      @grouped_groups _ (44 : UInt8) k hk _ _ (Nat.le_refl _) (decimal_ne_nil n.natAbs)
    refine ⟨first, rest, hdigits, hpos, hle, hfull, ?_⟩
    rw [numberText, htext, List.append_assoc]
  · rw [numberText, List.filter_append, filter_grouped, decimalInt_eq]
    congr 1
    split <;> rfl

theorem tempItoaGroups_writes_negative :
    (numberText (-1234567) 3).length < 11 ∧
      tempItoaGroups (-1234567) 11 3 = ⟨ascii "-1,234,567" ++ [0], 10⟩ := by
  have h : (numberText (-1234567) 3).length < 11 := by decide
  exact ⟨h, (tempItoaGroups_writes (by decide) (by decide) (by decide) h).1.trans (by decide)⟩

/-- The text of a number in a result is the number in groups of three. -/
theorem groupedText_eq {n : Int} (hmin : -2 ^ 31 < n) (hmax : n < 2 ^ 31) :
    groupedText n = numberText n 3 := by
  let size := max (groupedText n).length (numberText n 3).length + 1
  have hroom : (numberText n 3).length < size :=
    Nat.lt_succ_of_le (Nat.le_max_right _ _)
  have hsame := tempItoa_eq (n := n) (Nat.lt_succ_of_le (Nat.le_max_left _ _) :
    (groupedText n).length < size)
  rw [← tempItoaGroups_three] at hsame
  rcases @tempItoaGroups_cases n size 3 hmin hmax (by decide) (Nat.succ_pos _) with
    ⟨_, heq⟩ | ⟨hlong, _⟩
  · have hstored := congrArg Converted.stored (hsame.symm.trans heq)
    exact List.append_cancel_right hstored
  · exact absurd hroom (Nat.not_lt.2 hlong)

/-! ## The full buffer

A full buffer has one comma to `k` digits, so how many digits are left is told
from its size. The answer is that number of digits, and says that the buffer was
too small only if it is as large as the buffer. -/

/-- A full buffer holds one comma for each `k` digits, and the digits that are left are
the others. -/
theorem Grouped.digits_left {k : Nat} {s : Bytes} {n m c : Nat} (hk : 1 ≤ k)
    (h : Grouped k (grouped 44 k (decimal n)).reverse s m c) :
    s.length - s.length / (k + 1) + (decimal m).length = (decimal n).length := by
  have htext := h.text_eq
  rw [grouped_reverse] at htext
  have hcommas : s.count 44 = s.length / (k + 1) := by
    have hle : s.length ≤ (fromRight 44 k k (decimal n).reverse).length := by
      rw [htext, List.length_append]
      exact Nat.le_add_right _ _
    have := count_take hk (comma_not_mem_decimal n) (Nat.le_refl k) hle
    rw [htext, List.take_left, Nat.sub_self, Nat.add_zero] at this
    exact this
  have hdigits : s.filter (· ≠ 44) ++ (decimal m).reverse = (decimal n).reverse := by
    have := @filter_fromRight _ (44 : UInt8) k _ k _ (comma_not_mem_decimal n)
    rw [htext, List.filter_append, filter_fromRight (comma_not_mem_decimal m)] at this
    exact this
  have hsplit : s.length = s.count 44 + (s.filter (· ≠ 44)).length := by
    rw [List.length_eq_countP_add_countP (· == (44 : UInt8)), List.count,
      ← List.countP_eq_length_filter]
    simp
  have hlength := congrArg List.length hdigits
  rw [List.length_append, List.length_reverse, List.length_reverse] at hlength
  omega

/-- The answer for a buffer that is too small says so in no more cases than these: a
buffer of one byte, and one that as many digits are left over from as it has bytes. -/
theorem tempItoaGroups_full_iff {n : Int} {size k : Nat} (hmin : -2 ^ 31 < n)
    (hmax : n < 2 ^ 31) (hk : 1 ≤ k) (hsize : 1 ≤ size)
    (hfull : size ≤ (numberText n k).length) :
    (size : Int) ≤ (tempItoaGroups n size k).num ∧
        (tempItoaGroups n size k).stored.length ≤ size ↔
      size = 1 ∨ size + (size - size / (k + 1)) ≤ (decimal n.natAbs).length := by
  have hstored := tempItoaGroups_stored n size k
  have hcommas : size / (k + 1) < size := Nat.div_lt_self hsize (by omega)
  rw [and_iff_left hstored]
  rcases tempItoaGroups_cases hmin hmax hk hsize with ⟨hroom, _⟩ | ⟨_, m, hnum, hleft⟩
  · exact absurd hfull (Nat.not_le.2 hroom)
  · rw [hnum, Int.ofNat_le]
    rcases hleft with ⟨rfl, hall⟩ | ⟨_, s, c, hlen, hg⟩
    · -- nothing was left, and that is printed as one digit
      have hzero : (decimal 0).length = 1 := rfl
      have hdigits : (decimal n.natAbs).length ≤ size := by
        rw [← filter_grouped k n.natAbs]
        exact Nat.le_trans (List.length_filter_le _ _) hall
      omega
    · have hpos := List.length_pos_iff.2 (decimal_ne_nil m)
      have hdigits := hg.digits_left hk
      rw [hlen] at hdigits
      omega

/-- Four bytes are filled by `765,`, and of the seven digits four are left. -/
theorem tempItoaGroups_full_iff_four :
    (4 : Nat) ≤ (numberText 1234567 3).length ∧
      ((4 : Nat) : Int) ≤ (tempItoaGroups 1234567 4 3).num ∧
      (tempItoaGroups 1234567 4 3).stored.length ≤ 4 := by
  have hfull : 4 ≤ (numberText 1234567 3).length := by decide
  exact ⟨hfull, (tempItoaGroups_full_iff (by decide) (by decide) (by decide) (by decide)
    hfull).2 (Or.inr (by decide))⟩

/-- Five bytes are filled by `765,4`, and what is left is printed and counted as if it
were the number. -/
theorem tempItoaGroups_full_fails :
    ¬ ((5 : Nat) : Int) ≤ (tempItoaGroups 1234567 5 3).num ∧
      (5 : Nat) ≤ (numberText 1234567 3).length ∧
      tempItoaGroups 1234567 5 3 = ⟨ascii "123" ++ [0, 52], 3⟩ := by
  decide

end UiServer
