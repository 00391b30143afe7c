import UiServer.Lib.Gbk
import UiServer.Lib.Search
import UiServer.Util.Text

/-!
# The search in a text in GBK

`strcasestrGBK` goes from character to character, so it looks at the right places.
What it asks there is another question than whether the word stands there: the
first byte has to be the same, and behind it every byte is compared without regard
to case, the second bytes of characters as well. So the letter `A` at the head of a
word does not find an `a`, and one character finds another.

Both ask that the bytes compare without regard to case. Besides, the code asks that
the first byte is the same, and the word needs its characters of two bytes as they
are. The answer is right if and only if the first place that meets one of the two
meets the other (`strcasestrGBK_right_iff`).
-/

namespace UiServer

open CMem

/-- The bytes in front of the `k`-th character. -/
def charOffset (chars : List Bytes) (k : Nat) : Nat := (chars.take k).flatten.length

@[simp] theorem charOffset_zero (chars : List Bytes) : charOffset chars 0 = 0 := by
  simp [charOffset]

theorem charOffset_succ (c : Bytes) (chars : List Bytes) (k : Nat) :
    charOffset (c :: chars) (k + 1) = c.length + charOffset chars k := by
  simp [charOffset]

theorem charOffset_lt {chars : List Bytes} (hne : ∀ c ∈ chars, c ≠ []) :
    ∀ {j k : Nat}, j < k → k ≤ chars.length → charOffset chars j < charOffset chars k := by
  induction chars with
  | nil =>
      intro j k hjk hk
      rw [List.length_nil] at hk
      omega
  | cons c chars ih =>
      intro j k hjk hk
      have hpos := List.length_pos_iff.2 (hne c (List.mem_cons_self ..))
      obtain ⟨k, rfl⟩ : ∃ n, k = n + 1 := ⟨k - 1, by omega⟩
      rw [List.length_cons] at hk
      cases j with
      | zero =>
          rw [charOffset_zero, charOffset_succ]
          omega
      | succ j =>
          have hrest := ih (fun d hd => hne d (List.mem_cons_of_mem c hd))
            (Nat.lt_of_succ_lt_succ hjk) (by omega)
          rw [charOffset_succ, charOffset_succ]
          omega

theorem charOffset_inj {chars : List Bytes} (hne : ∀ c ∈ chars, c ≠ []) {j k : Nat}
    (hj : j ≤ chars.length) (hk : k ≤ chars.length)
    (h : charOffset chars j = charOffset chars k) : j = k := by
  rcases Nat.lt_trichotomy j k with hlt | heq | hlt
  · have := charOffset_lt hne hlt hk
    omega
  · exact heq
  · have := charOffset_lt hne hlt hj
    omega

theorem gbkChars_ne_nil {s : Bytes} : ∀ c ∈ gbkChars s, c ≠ [] := by
  intro c hc
  rcases length_gbkChars c hc with h | h <;> exact List.length_pos_iff.1 (by omega)

/-! ## What is asked

The source goes on by one byte or by two, which is by characters, and at each it
asks whether the bytes of the word are there. So it is a search over the
characters of the text for a tail that `bytesStart` holds of. -/

/-- What `strcasestrGBK` asks at a character. -/
def bytesStart (dest : Bytes) (text : List Bytes) : Bool :=
  decide (text.flatten.headD 0 = dest.headD 0) &&
    strncasecmpEq text.flatten dest dest.length

/-- The word stands at a character of the text, letters compared without regard to
case and characters of two bytes as they are. -/
def wordStarts (dest : Bytes) (text : List Bytes) : Bool :=
  decide (GbkStarts toLower (gbkChars dest) text)

theorem bytesStart_iff {dest src : Bytes} {c : UInt8} {text : List Bytes}
    (h : text.flatten = c :: src) :
    bytesStart dest text = true ↔
      c = dest.headD 0 ∧ strncasecmpEq (c :: src) dest dest.length = true := by
  rw [bytesStart, h, Bool.and_eq_true, decide_eq_true_iff]
  rfl

/-- A round at a character that is not the word's: the search goes on behind it. -/
theorem findTail_next {dest : Bytes} {c : Bytes} {chars : List Bytes} (ptemp : Nat)
    (h : ¬ bytesStart dest (c :: chars) = true) :
    (Search.findTail (bytesStart dest) (c :: chars)).map
        (fun k => ptemp + charOffset (c :: chars) k) =
      (Search.findTail (bytesStart dest) chars).map
        fun k => ptemp + c.length + charOffset chars k := by
  rw [Search.findTail, if_neg h, Option.map_map]
  refine congrArg (fun f => Option.map f _) (funext fun k => ?_)
  show ptemp + charOffset (c :: chars) (k + 1) = _
  rw [charOffset_succ, Nat.add_assoc]

theorem findTail_here {dest : Bytes} {c : Bytes} {chars : List Bytes} (ptemp : Nat)
    (h : bytesStart dest (c :: chars) = true) :
    (Search.findTail (bytesStart dest) (c :: chars)).map
        (fun k => ptemp + charOffset (c :: chars) k) = some ptemp := by
  rw [Search.findTail, if_pos h, Option.map_some, charOffset_zero, Nat.add_zero]

theorem strcasestrGBKLoop_eq (dest : Bytes) : ∀ (src : Bytes) (ptemp : Nat),
    strcasestrGBKLoop dest src ptemp =
      (Search.findTail (bytesStart dest) (gbkChars src)).map
        fun k => ptemp + charOffset (gbkChars src) k := by
  intro src
  induction src using gbkChars.induct with
  | case1 => intro ptemp; rfl
  | case2 c =>
      intro ptemp
      have hiff := @bytesStart_iff dest [] c [[c]] rfl
      rw [strcasestrGBKLoop, gbkChars]
      split
      · next h => rw [findTail_here ptemp (hiff.2 h)]
      · next h =>
          rw [findTail_next ptemp (fun hb => h (hiff.1 hb))]
          split <;> rfl
  | case3 c d src hc ih =>
      intro ptemp
      have hiff := @bytesStart_iff dest (d :: src) c ([c, d] :: gbkChars src) (by simp)
      rw [strcasestrGBKLoop, gbkChars_double hc]
      split
      · next h => rw [findTail_here ptemp (hiff.2 h)]
      · next h =>
          rw [findTail_next ptemp (fun hb => h (hiff.1 hb))]
          exact ih (ptemp + 2)
  | case4 c d src hc ih =>
      intro ptemp
      have hiff := @bytesStart_iff dest (d :: src) c ([c] :: gbkChars (d :: src)) (by simp)
      rw [strcasestrGBKLoop, gbkChars_single hc]
      split
      · next h => rw [findTail_here ptemp (hiff.2 h)]
      · next h =>
          rw [findTail_next ptemp (fun hb => h (hiff.1 hb))]
          exact ih (ptemp + 1)

theorem strcasestrGBK_eq (src dest : Bytes) :
    strcasestrGBK src dest =
      (Search.findTail (bytesStart dest) (gbkChars src)).map (charOffset (gbkChars src)) := by
  rw [strcasestrGBK, strcasestrGBKLoop_eq]
  simp

/-- The word ends inside the text. -/
theorem strcasestrGBK_le {src dest : Bytes} {offset : Nat}
    (h : strcasestrGBK src dest = some offset) : offset + dest.length ≤ src.length := by
  rw [strcasestrGBK_eq] at h
  obtain ⟨k, hk, rfl⟩ := Option.map_eq_some_iff.1 h
  obtain ⟨-, hstart, -⟩ := Search.findTail_eq_some.1 hk
  rw [bytesStart, Bool.and_eq_true, strncasecmpEq_iff] at hstart
  have hlen := congrArg List.length hstart.2
  simp only [List.length_map, List.length_take, Nat.min_self] at hlen
  have hsplit : src = ((gbkChars src).take k).flatten ++ ((gbkChars src).drop k).flatten := by
    rw [← List.flatten_append, List.take_append_drop, flatten_gbkChars]
  have hsum := congrArg List.length hsplit
  rw [List.length_append] at hsum
  rw [charOffset]
  omega

/-! ## The answer

What should be asked at each character is `wordStarts`. The two searches agree if
and only if the first tail that either holds of is one that both hold of. -/

/-- The answer for a text: the offset of the first character where the word
stands, or none if it stands at none. -/
def FirstWord (src dest : Bytes) : Option Nat → Prop
  | some offset => ∃ k < (gbkChars src).length, offset = charOffset (gbkChars src) k ∧
      GbkStarts toLower (gbkChars dest) ((gbkChars src).drop k) ∧
      ∀ j < k, ¬ GbkStarts toLower (gbkChars dest) ((gbkChars src).drop j)
  | none => ∀ k < (gbkChars src).length,
      ¬ GbkStarts toLower (gbkChars dest) ((gbkChars src).drop k)

/-- The word and the text compare byte by byte without regard to case, and they
have the first byte or the characters of two bytes in common. -/
def Resembles (dest : Bytes) (text : List Bytes) : Prop :=
  strncasecmpEq text.flatten dest dest.length = true ∧
    (text.flatten.headD 0 = dest.headD 0 ∨ SameWide (gbkChars dest) text)

/-- The first character of the text where the word resembles it has the first byte
and the characters of two bytes in common with the word, if there is one. -/
def SameFirst (src dest : Bytes) : Prop :=
  ∀ k < (gbkChars src).length, Resembles dest ((gbkChars src).drop k) →
    (∀ j < k, ¬ Resembles dest ((gbkChars src).drop j)) →
    ((gbkChars src).drop k).flatten.headD 0 = dest.headD 0 ∧
      SameWide (gbkChars dest) ((gbkChars src).drop k)

theorem toLower_folds : FoldsAscii toLower where
  high := by
    have hall : ∀ n < 256, 128 ≤ UInt8.ofNat n → toLower (UInt8.ofNat n) = UInt8.ofNat n := by
      decide +kernel
    intro c hc
    have h := hall c.toNat c.toNat_lt
    rw [UInt8.ofNat_toNat] at h
    exact h hc
  low := by
    have hall : ∀ n < 256, ¬ 128 ≤ UInt8.ofNat n → ¬ 128 ≤ toLower (UInt8.ofNat n) := by
      decide +kernel
    intro c hc
    have h := hall c.toNat c.toNat_lt
    rw [UInt8.ofNat_toNat] at h
    exact h hc

theorem wordStarts_iff {dest : Bytes} {text : List Bytes} :
    wordStarts dest text = true ↔ GbkStarts toLower (gbkChars dest) text :=
  decide_eq_true_iff

theorem wordStarts_eq_false {dest : Bytes} {text : List Bytes} :
    wordStarts dest text = false ↔ ¬ GbkStarts toLower (gbkChars dest) text :=
  decide_eq_false_iff_not

theorem firstWord_iff {src dest : Bytes} {k : Nat} :
    FirstWord src dest (some (charOffset (gbkChars src) k)) ∧ k < (gbkChars src).length ↔
      Search.First (wordStarts dest) (gbkChars src) k := by
  simp only [FirstWord, Search.First, wordStarts_iff, wordStarts_eq_false]
  constructor
  · intro ⟨⟨j, hj, heq, hstarts, hlow⟩, hk⟩
    have hkj := charOffset_inj gbkChars_ne_nil (Nat.le_of_lt hk) (Nat.le_of_lt hj) heq
    rw [hkj]
    exact ⟨hj, hstarts, hlow⟩
  · intro ⟨hk, hstarts, hlow⟩
    exact ⟨⟨k, hk, rfl, hstarts, hlow⟩, hk⟩

/-- The answer is right if and only if the search by bytes and the search by
characters find the same. -/
theorem firstWord_findTail (src dest : Bytes) :
    FirstWord src dest (strcasestrGBK src dest) ↔
      Search.findTail (bytesStart dest) (gbkChars src) =
        Search.findTail (wordStarts dest) (gbkChars src) := by
  rw [strcasestrGBK_eq]
  cases hfind : Search.findTail (bytesStart dest) (gbkChars src) with
  | none =>
      rw [Option.map_none, eq_comm, Search.findTail_eq_none]
      simp only [FirstWord, wordStarts_eq_false]
  | some k =>
      have hlt := (Search.findTail_eq_some.1 hfind).1
      rw [Option.map_some, eq_comm, Search.findTail_eq_some, ← firstWord_iff]
      exact ⟨fun h => ⟨h, hlt⟩, fun h => h.1⟩

theorem bytesStart_at {dest : Bytes} {text : List Bytes} :
    bytesStart dest text = true ↔
      strncasecmpEq text.flatten dest dest.length = true ∧
        text.flatten.headD 0 = dest.headD 0 := by
  rw [bytesStart, Bool.and_eq_true, decide_eq_true_iff, and_comm]

theorem wordStarts_at {src dest : Bytes} (k : Nat) :
    wordStarts dest ((gbkChars src).drop k) = true ↔
      strncasecmpEq ((gbkChars src).drop k).flatten dest dest.length = true ∧
        SameWide (gbkChars dest) ((gbkChars src).drop k) := by
  obtain ⟨rest, hrest⟩ := drop_gbkChars src k
  rw [wordStarts_iff, hrest, flatten_gbkChars, strncasecmpEq_iff, List.take_length]
  exact gbkStarts_iff toLower_folds dest rest

theorem resembles_at {src dest : Bytes} (k : Nat) :
    (bytesStart dest ((gbkChars src).drop k) || wordStarts dest ((gbkChars src).drop k)) =
      true ↔ Resembles dest ((gbkChars src).drop k) := by
  rw [Bool.or_eq_true, bytesStart_at, wordStarts_at, ← and_or_left]
  rfl

/-- For every text and every word. -/
theorem strcasestrGBK_right_iff (src dest : Bytes) :
    FirstWord src dest (strcasestrGBK src dest) ↔ SameFirst src dest := by
  rw [firstWord_findTail, Search.findTail_eq_iff]
  simp only [Search.First, SameFirst, resembles_at, bytesStart_at, wordStarts_at,
    Bool.eq_false_iff, ne_eq]
  constructor
  · intro h k hk hres hlow
    obtain ⟨hhead, hwide⟩ := h k ⟨hk, hres, hlow⟩
    exact ⟨hhead.2, hwide.2⟩
  · intro h k ⟨hk, hres, hlow⟩
    obtain ⟨hhead, hwide⟩ := h k hk hres hlow
    exact ⟨⟨hres.1, hhead⟩, hres.1, hwide⟩

/-- `abc` is not found by `ABC`; and the second byte of a character is taken for a
letter. -/
theorem strcasestrGBK_right_fails :
    ¬ FirstWord (ascii "abc") (ascii "ABC") (strcasestrGBK (ascii "abc") (ascii "ABC")) ∧
      ¬ FirstWord [0xb0, 0x61] [0xb0, 0x41] (strcasestrGBK [0xb0, 0x61] [0xb0, 0x41]) := by
  constructor
  · intro h
    have hnone : strcasestrGBK (ascii "abc") (ascii "ABC") = none := by decide
    rw [hnone] at h
    exact h 0 (by decide) (by decide)
  · intro h
    have hsome : strcasestrGBK [0xb0, 0x61] [0xb0, 0x41] = some 0 := by decide
    rw [hsome] at h
    obtain ⟨k, hk, _, hstarts, _⟩ := h
    have hzero : k = 0 := by
      have hlen : (gbkChars [0xb0, 0x61]).length = 1 := by decide
      omega
    subst hzero
    exact absurd hstarts (by decide)

end UiServer
