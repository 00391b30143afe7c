import UiServer.Lib.Gbk
import UiServer.Template.HighLight

/-!
# Cutting a text down

What is cut out of a string is the characters that begin in front of the limit, so a
character of two bytes may stand across it. `temp_cutdown` leaves one byte behind its
limit, which is the terminator's, and `temp_cutdown_with_more` leaves room for the dots
and the terminator; neither leaves room for the second byte of that character
(`cutdowns_inside_iff`). A value of less than 1020 bytes stays inside an array of 1024.

Whether there are dots is decided by the length of the string. A string that is one
byte longer than the limit and ends with a character across it is copied whole and has
dots behind it all the same (`tempCutdownWithMore_right_iff`).
-/

namespace UiServer

open CMem

/-! ## The limits

The limit is compared as a `size_t` and used as an `int`. Written out for all
sizes, it is `len` where that fits and else what the size leaves. -/

/-- The limit of both functions: `len`, or what the size leaves. -/
def cutLimit (size : Nat) (len : Int) : Int :=
  if 0 < len ∧ len < size then len else intOfSize (size - 1)

/-- The limit when the dots go behind the text. -/
def dotsLimit (size : Nat) (limit : Int) : Int :=
  if 0 < limit ∧ limit + 4 ≤ size then limit else intOfSize (size - 4)

/-- As the source has them. -/
theorem cutLimit_eq (size : Nat) (len : Int) :
    (if (size : Int) - 1 < len ∨ len ≤ 0 then intOfSize (size - 1) else len) =
      cutLimit size len := by
  rw [cutLimit]
  split
  · rw [if_neg (by omega)]
  · rw [if_pos (by omega)]

theorem dotsLimit_eq (size : Nat) (limit : Int) :
    (if (size : Int) - 1 < limit + 3 ∨ limit ≤ 0 then intOfSize (size - 1 - 3) else limit) =
      dotsLimit size limit := by
  have hsize : (size : Int) - 1 - 3 = size - 4 := by omega
  rw [dotsLimit, hsize]
  split
  · rw [if_neg (by omega)]
  · rw [if_pos (by omega)]

theorem intOfSize_le (n : Nat) : intOfSize n ≤ n := by
  rw [intOfSize, Int.bmod]
  omega

theorem intOfSize_of_lt {n : Int} (h : -2 ^ 31 ≤ n) (h' : n < 2 ^ 31) : intOfSize n = n :=
  Int.bmod_eq_of_le (by omega) (by omega)

/-! ## What is stored

The loop copies a character at a time while it stands in front of the limit, so
what is stored is the characters that begin in front of it. -/

/-- The copy takes the characters that begin in front of the limit. -/
theorem cutdownLoop_eq (len : Nat) (s : Bytes) (i : Nat) :
    cutdownLoop len s i = firstChars (len - i) s := by
  induction s, i using cutdownLoop.induct len with
  | case1 i => rfl
  | case2 c s i hlen =>
      rw [Nat.sub_eq_zero_of_le hlen, firstChars_zero, cutdownLoop.eq_def]
      exact if_pos hlen
  | case3 c i hlen hc => rw [firstChars_half hc, cutdownLoop, if_neg hlen, if_pos hc]
  | case4 c i hlen hc d s ih =>
      obtain ⟨n, hn⟩ : ∃ n, len - i = n + 1 := ⟨len - i - 1, by omega⟩
      have hrest : len - (i + 2) = n - 1 := by omega
      rw [hn, firstChars_double hc, cutdownLoop, if_neg hlen, if_pos hc, ih, hrest]
  | case5 c s i hlen hc ih =>
      obtain ⟨n, hn⟩ : ∃ n, len - i = n + 1 := ⟨len - i - 1, by omega⟩
      have hrest : len - (i + 1) = n := by omega
      rw [hn, firstChars_single hc, cutdownLoop.eq_def]
      simp only [hlen, hc, if_false, ih, hrest]

theorem tempCutdownInto_eq (s : Bytes) {size : Nat} (len : Int) (h : 2 ≤ size) :
    tempCutdownInto s size len =
      ⟨firstChars (cutLimit size len).toNat s ++ [0],
        (firstChars (cutLimit size len).toNat s).length⟩ := by
  rw [tempCutdownInto, if_neg (Nat.not_lt.2 h)]
  simp only [cutLimit_eq, cutdownLoop_eq, Nat.sub_zero]

theorem tempCutdownWithMore_eq (s : Bytes) {size : Nat} (len : Int) (h : 2 ≤ size) :
    tempCutdownWithMore s size len =
      if cutLimit size len < intOfSize s.length then
        ⟨firstChars (dotsLimit size (cutLimit size len)).toNat s ++ ascii "..." ++ [0],
          ((firstChars (dotsLimit size (cutLimit size len)).toNat s).length + 3 : Nat)⟩
      else
        ⟨firstChars (cutLimit size len).toNat s ++ [0],
          (firstChars (cutLimit size len).toNat s).length⟩ := by
  rw [tempCutdownWithMore, if_neg (Nat.not_lt.2 h)]
  simp only [cutLimit_eq, cutdownLoop_eq, Nat.sub_zero]
  by_cases hmore : cutLimit size len < intOfSize s.length
  · simp only [hmore, decide_true, true_and, if_true, dotsLimit_eq, List.length_append]
    rfl
  · simp only [hmore, decide_false, Bool.false_eq_true, false_and, if_false, List.append_nil]

/-! ## Inside the buffer

The characters that begin in front of a limit are one byte longer than it at most,
when the last of them stands across it. That byte is what the buffer may not have.
-/

/-- The bytes stored lie in the first `size` of the buffer, the answer is where the
terminator is, and counting up to it stays inside an `int`. -/
structure Converted.Inside (c : Converted) (size : Nat) : Prop where
  stored : c.stored.length ≤ size
  num : 0 ≤ c.num ∧ c.num < size
  terminated : c.stored[c.num.toNat]? = some 0
  counter : c.num < 2 ^ 31

/-- Fewer than `room` bytes are cut out of the string: it is that short, or the limit is,
or the limit is one less and no character stands across it. -/
def CutBelow (s : Bytes) (limit room : Int) : Prop :=
  (whole s).length < room ∨ (limit.toNat : Int) + 1 < room ∨
    (limit.toNat : Int) + 1 = room ∧ ¬ Straddles (gbkChars s) limit.toNat

theorem cutBelow_iff {s : Bytes} {limit room : Int} :
    CutBelow s limit room ↔ (firstChars limit.toNat s).length < room := by
  rcases Int.lt_or_le room 0 with hneg | hpos
  · rw [CutBelow]
    omega
  · obtain ⟨k, rfl⟩ := Int.eq_ofNat_of_zero_le hpos
    rw [CutBelow]
    exact_mod_cast (@length_firstChars_lt_iff limit.toNat k s).symm

theorem inside_text_iff {text : Bytes} {size : Nat} :
    (Converted.mk (text ++ [0]) text.length).Inside size ↔
      (text.length : Int) < min (size : Int) (2 ^ 31) := by
  constructor
  · intro h
    have hsize : (text.length : Int) < size := h.num.2
    have hcounter : (text.length : Int) < 2 ^ 31 := h.counter
    omega
  · intro h
    have hsize : (text.length : Int) < size := by omega
    have hcounter : (text.length : Int) < 2 ^ 31 := by omega
    refine ⟨?_, ⟨Int.natCast_nonneg _, hsize⟩, ?_, hcounter⟩
    · rw [List.length_append, List.length_singleton]
      omega
    · simp

theorem tempCutdownInto_inside_iff (s : Bytes) {size : Nat} (len : Int) (h : 2 ≤ size) :
    (tempCutdownInto s size len).Inside size ↔
      CutBelow s (cutLimit size len) (min (size : Int) (2 ^ 31)) := by
  rw [tempCutdownInto_eq s len h, inside_text_iff, cutBelow_iff]

theorem tempCutdownWithMore_inside_iff (s : Bytes) {size : Nat} (len : Int) (h : 2 ≤ size) :
    (tempCutdownWithMore s size len).Inside size ↔
      if cutLimit size len < intOfSize s.length then
        CutBelow s (dotsLimit size (cutLimit size len)) (min (size : Int) (2 ^ 31) - 3)
      else CutBelow s (cutLimit size len) (min (size : Int) (2 ^ 31)) := by
  rw [tempCutdownWithMore_eq s len h]
  split
  · generalize hlimit : dotsLimit size (cutLimit size len) = limit
    have hlen : (firstChars limit.toNat s).length + 3 =
        (firstChars limit.toNat s ++ ascii "...").length := by
      rw [List.length_append]
      rfl
    rw [hlen, inside_text_iff, ← hlen, cutBelow_iff]
    omega
  · rw [inside_text_iff, cutBelow_iff]

/-- What the condition comes to for sizes and strings that an `int` can count: the string is
no longer than the limit, or the dots fit and no character stands across where they begin. -/
theorem tempCutdownWithMore_inside_plain {s : Bytes} {size : Nat} {len : Int} (h : 2 ≤ size)
    (hsize : size < 2 ^ 31) (hs : s.length < 2 ^ 31) :
    (tempCutdownWithMore s size len).Inside size ↔
      s.length ≤ cutLimit size len ∨
        4 ≤ size ∧ ¬ (size - 4 ≤ cutLimit size len ∧ Straddles (gbkChars s) (size - 4)) := by
  have hslen : intOfSize s.length = s.length := intOfSize_of_lt (by omega) (by omega)
  have hlimit : 0 < cutLimit size len ∧ cutLimit size len < size := by
    rw [cutLimit]
    split
    · assumption
    · rw [intOfSize_of_lt (by omega) (by omega)]
      omega
  rw [tempCutdownWithMore_inside_iff s len h, hslen]
  generalize cutLimit size len = limit at hlimit
  split
  · next hmore =>
      rw [cutBelow_iff]
      by_cases hfour : 4 ≤ size
      · have hdots : (dotsLimit size limit).toNat = min limit.toNat (size - 4) := by
          rw [dotsLimit, intOfSize_of_lt (by omega) (by omega)]
          split <;> omega
        by_cases hlong : (size : Int) - 4 ≤ limit
        · have hend : min limit.toNat (size - 4) = size - 4 := by omega
          obtain ⟨hle, hiff, -⟩ := length_firstChars s (size - 4)
          rw [hdots, hend, ← hiff]
          omega
        · have hle := (length_firstChars s (dotsLimit size limit).toNat).1
          exact iff_of_true (by omega) (Or.inr ⟨hfour, fun hand => hlong hand.1⟩)
      · exact iff_of_false (by omega) (by omega)
  · next hall =>
      rw [cutBelow_iff]
      have hle := (firstChars_initial limit.toNat s).length_le
      exact iff_of_true (by omega) (Or.inl (by omega))

/-- For every string, every size from two on and every `len`. -/
theorem cutdowns_inside_iff (s : Bytes) (size : Nat) (len : Int) (h : 2 ≤ size) :
    ((tempCutdownWithMore s size len).Inside size ↔
        if cutLimit size len < intOfSize s.length then
          CutBelow s (dotsLimit size (cutLimit size len)) (min (size : Int) (2 ^ 31) - 3)
        else CutBelow s (cutLimit size len) (min (size : Int) (2 ^ 31))) ∧
      ((tempCutdownInto s size len).Inside size ↔
        CutBelow s (cutLimit size len) (min (size : Int) (2 ^ 31))) :=
  ⟨tempCutdownWithMore_inside_iff s len h, tempCutdownInto_inside_iff s len h⟩

/-- A title of twelve bytes in a buffer with room for it. -/
theorem cutdowns_inside_iff_title :
    ((tempCutdownWithMore (ascii "Mathematical") 16 8).Inside 16 ↔
        if cutLimit 16 8 < intOfSize (ascii "Mathematical").length then
          CutBelow (ascii "Mathematical") (dotsLimit 16 (cutLimit 16 8))
            (min ((16 : Nat) : Int) (2 ^ 31) - 3)
        else CutBelow (ascii "Mathematical") (cutLimit 16 8) (min ((16 : Nat) : Int) (2 ^ 31))) ∧
      ((tempCutdownInto (ascii "Mathematical") 16 8).Inside 16 ↔
        CutBelow (ascii "Mathematical") (cutLimit 16 8) (min ((16 : Nat) : Int) (2 ^ 31))) :=
  cutdowns_inside_iff (ascii "Mathematical") 16 8 (by decide)

/-- Three characters of two bytes each. -/
def threeWide : Bytes := [0xb0, 0xa1, 0xb0, 0xa2, 0xb0, 0xa3]

/-- One of them in front of the dots is six bytes with the terminator, in a buffer of five;
the dots alone are four in a buffer of two; and `temp_cutdown` puts the terminator behind a
character that fills its buffer. -/
theorem cutdowns_inside_fails :
    ¬ (tempCutdownWithMore threeWide 5 10).Inside 5 ∧
      ¬ (tempCutdownWithMore (ascii "ab") 2 1).Inside 2 ∧
      ¬ (tempCutdownInto threeWide 2 1).Inside 2 :=
  ⟨fun h => absurd h.stored (by decide), fun h => absurd h.stored (by decide),
    fun h => absurd h.stored (by decide)⟩

/-! ## Dots

The dots are put where the string was longer than the limit. The text is cut where
what is kept is shorter than the string, and the two differ by the one character
across the limit. -/

/-- What is wanted of a text that is cut down to `len` bytes: `kept`, which is copied, is
made of whole characters and one byte longer at most, and the dots follow if it is not all
of the string. The answer is where the terminator is, counted in an `int`. -/
structure CutsWhole (s : Bytes) (len : Int) (kept : Bytes) (c : Converted) : Prop where
  whole : ∃ pre post, gbkChars s = pre ++ post ∧ kept = pre.flatten
  short : (kept.length : Int) ≤ len + 1
  stored : c.stored = kept ++ (if kept = s then [] else ascii "...") ++ [0]
  num : c.num + 1 = c.stored.length ∧ c.num < 2 ^ 31

theorem cutLimit_of_room {size : Nat} {len : Int} (hlen : 0 < len) (hsize : len + 5 ≤ size) :
    cutLimit size len = len ∧ dotsLimit size len = len :=
  ⟨if_pos ⟨hlen, by omega⟩, if_pos ⟨hlen, by omega⟩⟩

/-- A string that is longer than the limit is kept whole when it is one byte longer and a
character stands across the limit. -/
theorem firstChars_eq_iff {s : Bytes} {n : Nat} (h : n < s.length) :
    firstChars n s = s ↔ s.length = n + 1 ∧ Straddles (gbkChars s) n := by
  obtain ⟨hle, hiff, hall⟩ := length_firstChars s n
  constructor
  · intro heq
    rw [heq] at hle hiff
    have hlen : s.length = n + 1 := by omega
    exact ⟨hlen, hiff.1 hlen⟩
  · rintro ⟨hlen, hacross⟩
    exact (firstChars_initial n s).eq_of_length ((hiff.2 hacross).trans hlen.symm)

/-- For every string that is well formed and every `len` and `size`. -/
theorem tempCutdownWithMore_right_iff (s : Bytes) (size : Nat) (len : Int)
    (hs : WellFormed s) (hint : len < 2 ^ 31) (hlen : 0 < len) (hsize : len + 5 ≤ size) :
    CutsWhole s len (cutdownLoop len.toNat s 0) (tempCutdownWithMore s size len) ↔
      s.length ≤ len ∨
        len < intOfSize s.length ∧
          ¬ (s.length = len + 1 ∧ Straddles (gbkChars s) len.toNat) ∧
          CutBelow s len (2 ^ 31 - 3) := by
  obtain ⟨hlimit, hdots⟩ := cutLimit_of_room hlen hsize
  have hkept := firstChars_whole s len.toNat
  have hshort := (length_firstChars s len.toNat).1
  rw [tempCutdownWithMore_eq s len (by omega), hlimit, hdots, cutdownLoop_eq, Nat.sub_zero,
    cutBelow_iff]
  by_cases hall : s.length ≤ len
  · -- all of it is copied, and no dots
    have heq : firstChars len.toNat s = s := by
      rw [firstChars_all (by omega), hs.whole]
    have hle := intOfSize_le s.length
    rw [if_neg (by omega), heq]
    refine iff_of_true ⟨⟨gbkChars s, [], by simp, by simp⟩, by omega, by simp, ?_⟩ (Or.inl hall)
    show ((s.length : Int) + 1 = (s ++ [0]).length ∧ (s.length : Int) < 2 ^ 31)
    rw [List.length_append, List.length_singleton]
    omega
  · have hwhole := @firstChars_eq_iff s len.toNat (by omega)
    have hone : s.length = len.toNat + 1 ↔ (s.length : Int) = len + 1 := by omega
    rw [hone] at hwhole
    rw [← hwhole, or_iff_right hall]
    split
    · next hmore =>
        rw [and_iff_right hmore]
        constructor
        · intro h
          have hcounter : ((firstChars len.toNat s).length + 3 : Int) < 2 ^ 31 := h.num.2
          refine ⟨fun heq => ?_, by omega⟩
          have hstored := congrArg List.length h.stored
          rw [if_pos heq] at hstored
          simp [ascii] at hstored
        · rintro ⟨hne, hcounter⟩
          refine ⟨hkept, by omega, by rw [if_neg hne], ?_, ?_⟩
          · simp only [List.length_append]
            rfl
          · show (((firstChars len.toNat s).length + 3 : Nat) : Int) < 2 ^ 31
            omega
    · next hmore =>
        -- no dots: then it would have to be all of the string, which no `int` counts
        refine iff_of_false (fun h => ?_) fun h => hmore h.1
        have hstored := congrArg List.length h.stored
        have heq : firstChars len.toNat s = s := by
          by_contra hne
          rw [if_neg hne] at hstored
          simp [ascii] at hstored
        have hcounter : ((firstChars len.toNat s).length : Int) < 2 ^ 31 := h.num.2
        rw [heq] at hcounter
        rw [intOfSize_of_lt (by omega) hcounter] at hmore
        omega

/-- A limit of three bytes in three characters of two. -/
theorem tempCutdownWithMore_right_iff_wide :
    CutsWhole threeWide 3 (cutdownLoop 3 threeWide 0) (tempCutdownWithMore threeWide 16 3) ↔
      (threeWide.length : Int) ≤ 3 ∨
        3 < intOfSize threeWide.length ∧
          ¬ ((threeWide.length : Int) = 3 + 1 ∧ Straddles (gbkChars threeWide) 3) ∧
          CutBelow threeWide 3 (2 ^ 31 - 3) :=
  tempCutdownWithMore_right_iff threeWide 16 3 (by decide) (by decide) (by decide) (by decide)

/-- One character of two bytes and a limit of one: it is copied, and dots behind it. -/
theorem tempCutdownWithMore_right_fails :
    ¬ ∀ (s : Bytes) (size : Nat) (len : Int), WellFormed s → NulFree s → 0 < len →
        len + 5 ≤ size →
        CutsWhole s len (cutdownLoop len.toNat s 0) (tempCutdownWithMore s size len) := by
  intro hall
  have h := hall [0xb0, 0xa1] 6 1 (by decide) (by decide) (by decide) (by decide)
  exact absurd h.stored (by decide)

/-! ## The value that is marked

The value is cut down in an array of its own before it is marked, and a value that
came with a result is small enough for the array. -/

theorem length_cstr_lt {bs : Bytes} (h : 0 ∈ bs) : (cstr bs).length < bs.length := by
  refine Nat.lt_of_le_of_ne (List.takeWhile_prefix _).length_le fun heq => ?_
  have hall : cstr bs = bs := (List.takeWhile_prefix _).eq_of_length heq
  exact nulFree_cstr bs 0 (hall.symm ▸ h) rfl

/-- A string of less than 1020 bytes is cut down inside an array of 1024. -/
theorem tempCutdownWithMore_inside_array {s : Bytes} (len : Int) (h : s.length < 1020) :
    (tempCutdownWithMore s 1024 len).Inside 1024 := by
  refine (tempCutdownWithMore_inside_plain (by decide) (by decide) (by omega)).2 ?_
  rcases Int.lt_or_le (cutLimit 1024 len) s.length with hmore | hall
  · exact Or.inr ⟨by decide, fun hand => by omega⟩
  · exact Or.inl hall

/-- The string that is read back from the array ends inside it. -/
theorem length_cstr_stored {s : Bytes} (len : Int) (h : s.length < 1020) :
    (cstr (tempCutdownWithMore s 1024 len).stored).length < 1024 := by
  have hin := tempCutdownWithMore_inside_array len h
  exact Nat.lt_of_lt_of_le (length_cstr_lt (List.mem_of_getElem? hin.terminated)) hin.stored

/-- The value that is marked stays inside its array. -/
theorem length_cutValue {value : Bytes} (highLightLength leftLen : Int)
    (h : (cstr value).length < 1020) :
    (cutValue highLightLength leftLen value).length < 1024 := by
  rw [cutValue]
  split
  · exact Nat.lt_trans h (by decide)
  · exact length_cstr_stored _ h

end UiServer
