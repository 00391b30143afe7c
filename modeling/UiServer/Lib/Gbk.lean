import UiServer.Lib.CMem

/-!
# Characters of one and two bytes

In GBK a byte with its high bit set is the first of a character of two bytes, and
any other byte is a character of its own. `gbkChars` cuts a string into them; a
first byte at the end of the string, with nothing behind it, is left as it is.
The second byte of a character may be a letter, so letters may be folded in
characters of one byte only (`foldCase`).
-/

namespace CMem

/-! ## Characters

The characters are cut from the left, as there is no telling from a byte alone
whether it is the second of a character. -/

/-- The characters of a string, by their bytes. -/
def gbkChars : Bytes → List Bytes
  | [] => []
  | [c] => [[c]]
  | c :: d :: s => if 128 ≤ c then [c, d] :: gbkChars s else [c] :: gbkChars (d :: s)

theorem gbkChars_single {c : UInt8} (h : ¬ 128 ≤ c) (s : Bytes) :
    gbkChars (c :: s) = [c] :: gbkChars s := by
  cases s with
  | nil => rfl
  | cons d s => rw [gbkChars, if_neg h]

theorem gbkChars_double {c : UInt8} (h : 128 ≤ c) (d : UInt8) (s : Bytes) :
    gbkChars (c :: d :: s) = [c, d] :: gbkChars s := by
  rw [gbkChars, if_pos h]

/-- Nothing is lost. -/
@[simp] theorem flatten_gbkChars (s : Bytes) : (gbkChars s).flatten = s := by
  induction s using gbkChars.induct with
  | case1 => rfl
  | case2 c => rfl
  | case3 c d s h ih => rw [gbkChars_double h, List.flatten_cons, ih]; rfl
  | case4 c d s h ih => rw [gbkChars_single h, List.flatten_cons, ih]; rfl

/-- A character has one byte or two. -/
theorem length_gbkChars {s : Bytes} : ∀ c ∈ gbkChars s, c.length = 1 ∨ c.length = 2 := by
  induction s using gbkChars.induct with
  | case1 => exact nofun
  | case2 c => exact fun c hc => Or.inl (by rw [List.mem_singleton.1 hc]; rfl)
  | case3 c d s h ih =>
      intro e he
      rw [gbkChars_double h] at he
      rcases List.mem_cons.1 he with rfl | he
      · exact Or.inr rfl
      · exact ih e he
  | case4 c d s h ih =>
      intro e he
      rw [gbkChars_single h] at he
      rcases List.mem_cons.1 he with rfl | he
      · exact Or.inl rfl
      · exact ih e he

/-- A character with its letter folded, if it is one byte. -/
def foldCase (lower : UInt8 → UInt8) : Bytes → Bytes
  | [c] => [lower c]
  | cs => cs

/-- A pattern stands at the head of a text, character by character and without
regard to the case of letters. -/
def GbkStarts (lower : UInt8 → UInt8) (pat text : List Bytes) : Prop :=
  pat.map (foldCase lower) <+: text.map (foldCase lower)

instance (lower : UInt8 → UInt8) (pat text : List Bytes) :
    Decidable (GbkStarts lower pat text) :=
  inferInstanceAs (Decidable (_ <+: _))

/-! ## Characters and bytes

A pattern that stands at the head of a text by characters stands there by bytes,
folded everywhere. The way back needs that the characters with a high bit are the
same. -/

/-- The characters of the pattern with a high bit stand at their places of the
text as they are. -/
def SameWide (pat text : List Bytes) : Prop :=
  ∀ (i : Nat) (c : Bytes), pat[i]? = some c → 128 ≤ c.headD 0 → text[i]? = some c

theorem sameWide_nil (text : List Bytes) : SameWide [] text := nofun

theorem sameWide_cons {c t : Bytes} {pat text : List Bytes} :
    SameWide (c :: pat) (t :: text) ↔ (128 ≤ c.headD 0 → t = c) ∧ SameWide pat text := by
  constructor
  · intro h
    exact ⟨fun hc => Option.some.inj (h 0 c rfl hc), fun i d hd => h (i + 1) d hd⟩
  · intro ⟨hhead, htail⟩ i d hd hwide
    cases i with
    | zero =>
        cases hd
        exact congrArg some (hhead hwide)
    | succ i => exact htail i d hd hwide

theorem gbkStarts_cons {lower : UInt8 → UInt8} {c t : Bytes} {pat text : List Bytes} :
    GbkStarts lower (c :: pat) (t :: text) ↔
      foldCase lower c = foldCase lower t ∧ GbkStarts lower pat text := by
  rw [GbkStarts, List.map_cons, List.map_cons, List.cons_prefix_cons]
  rfl

/-- Only bytes without a high bit are letters, and they are folded to such. -/
structure FoldsAscii (lower : UInt8 → UInt8) : Prop where
  high : ∀ c, 128 ≤ c → lower c = c
  low : ∀ c, ¬ 128 ≤ c → ¬ 128 ≤ lower c

theorem FoldsAscii.high_iff {lower : UInt8 → UInt8} (h : FoldsAscii lower) {c d : UInt8}
    (heq : lower c = lower d) : 128 ≤ c ↔ 128 ≤ d := by
  by_cases hc : 128 ≤ c
  · refine ⟨fun _ => ?_, fun _ => hc⟩
    by_cases hd : 128 ≤ d
    · exact hd
    · exact absurd (heq ▸ (h.high c hc).symm ▸ hc) (h.low d hd)
  · refine ⟨fun h' => absurd h' hc, fun hd => ?_⟩
    exact absurd (heq.symm ▸ (h.high d hd).symm ▸ hd) (h.low c hc)

theorem not_sameWide_nil {c : Bytes} {pat : List Bytes} (hc : 128 ≤ c.headD 0) :
    ¬ SameWide (c :: pat) [] := fun h => nomatch h 0 c rfl hc

theorem not_gbkStarts_nil {lower : UInt8 → UInt8} {c : Bytes} {pat : List Bytes} :
    ¬ GbkStarts lower (c :: pat) [] := by
  rw [GbkStarts, List.map_cons, List.map_nil, List.prefix_nil]
  exact List.cons_ne_nil _ _

/-- A character of two bytes at the head of the pattern. -/
theorem gbkStarts_double {lower : UInt8 → UInt8} {c d : UInt8} {pat : Bytes}
    (hc : 128 ≤ c)
    (ih : ∀ s : Bytes, GbkStarts lower (gbkChars pat) (gbkChars s) ↔
      (s.take pat.length).map lower = pat.map lower ∧
        SameWide (gbkChars pat) (gbkChars s)) :
    ∀ s : Bytes, GbkStarts lower ([c, d] :: gbkChars pat) (gbkChars s) ↔
      (s.take (pat.length + 2)).map lower = lower c :: lower d :: pat.map lower ∧
        SameWide ([c, d] :: gbkChars pat) (gbkChars s) := by
  intro s
  cases s with
  | nil => exact ⟨fun h => absurd h not_gbkStarts_nil, fun h => absurd h.2 (not_sameWide_nil hc)⟩
  | cons t s =>
      by_cases ht : 128 ≤ t
      · cases s with
        | nil =>
            rw [gbkChars, gbkStarts_cons, sameWide_cons]
            exact ⟨fun h => by simp [foldCase] at h, fun h => by simpa using h.2.1 hc⟩
        | cons e s =>
            rw [gbkChars_double ht, gbkStarts_cons, sameWide_cons, ih]
            simp only [foldCase, List.take_succ_cons, List.map_cons, List.cons.injEq, and_true]
            constructor
            · rintro ⟨⟨rfl, rfl⟩, hrest, hwide⟩
              exact ⟨⟨rfl, rfl, hrest⟩, fun _ => ⟨rfl, rfl⟩, hwide⟩
            · rintro ⟨⟨_, _, hrest⟩, hsame, hwide⟩
              exact ⟨⟨(hsame hc).1.symm, (hsame hc).2.symm⟩, hrest, hwide⟩
      · rw [gbkChars_single ht, gbkStarts_cons, sameWide_cons]
        exact ⟨fun h => by simp [foldCase] at h, fun h => by simpa using h.2.1 hc⟩

/-- A character of one byte at the head of the pattern. -/
theorem gbkStarts_single {lower : UInt8 → UInt8} (h : FoldsAscii lower) {c : UInt8}
    {pat : Bytes} {chars : List Bytes} (hc : ¬ 128 ≤ c)
    (ih : ∀ s : Bytes, GbkStarts lower chars (gbkChars s) ↔
      (s.take pat.length).map lower = pat.map lower ∧ SameWide chars (gbkChars s)) :
    ∀ s : Bytes, GbkStarts lower ([c] :: chars) (gbkChars s) ↔
      (s.take (pat.length + 1)).map lower = lower c :: pat.map lower ∧
        SameWide ([c] :: chars) (gbkChars s) := by
  intro s
  cases s with
  | nil => exact ⟨fun hs => absurd hs not_gbkStarts_nil, fun hs => nomatch hs.1⟩
  | cons t s =>
      simp only [List.take_succ_cons, List.map_cons, List.cons.injEq]
      by_cases ht : 128 ≤ t
      · -- the text goes on with a byte that no letter folds to
        have hne : lower t ≠ lower c := fun heq => hc ((h.high_iff heq).1 ht)
        refine ⟨fun hs => ?_, fun hs => absurd hs.1.1 hne⟩
        cases s with
        | nil =>
            rw [gbkChars, gbkStarts_cons] at hs
            exact absurd (List.singleton_inj.1 hs.1).symm hne
        | cons e s =>
            rw [gbkChars_double ht, gbkStarts_cons] at hs
            exact absurd hs.1 (by simp [foldCase])
      · rw [gbkChars_single ht, gbkStarts_cons, sameWide_cons, ih]
        simp only [foldCase, List.cons.injEq, and_true, List.headD_cons, hc, false_implies,
          true_and]
        exact ⟨fun hs => ⟨⟨hs.1.symm, hs.2.1⟩, hs.2.2⟩, fun hs => ⟨hs.1.1.symm, hs.1.2, hs.2⟩⟩

/-- A first byte with nothing behind it, at the end of the pattern. -/
theorem gbkStarts_half {lower : UInt8 → UInt8} (h : FoldsAscii lower) {c : UInt8}
    (hc : 128 ≤ c) (s : Bytes) :
    GbkStarts lower [[c]] (gbkChars s) ↔
      (s.take 1).map lower = [lower c] ∧ SameWide [[c]] (gbkChars s) := by
  cases s with
  | nil => exact ⟨fun hs => absurd hs not_gbkStarts_nil, fun hs => nomatch hs.1⟩
  | cons t s =>
      have hstart : ∀ chars, GbkStarts lower [] chars := fun _ => List.nil_prefix
      simp only [List.take_succ_cons, List.take_zero, List.map_cons, List.map_nil]
      by_cases ht : 128 ≤ t
      · cases s with
        | nil =>
            rw [gbkChars, gbkStarts_cons, sameWide_cons]
            simp only [foldCase, h.high c hc, h.high t ht, List.cons.injEq, and_true]
            exact ⟨fun hs => ⟨hs.1.symm, fun _ => hs.1.symm, sameWide_nil _⟩,
              fun hs => ⟨hs.1.symm, hstart _⟩⟩
        | cons e s =>
            rw [gbkChars_double ht, gbkStarts_cons, sameWide_cons]
            exact ⟨fun hs => by simp [foldCase] at hs, fun hs => by simpa using hs.2.1 hc⟩
      · have hne : lower t ≠ lower c := fun heq => ht ((h.high_iff heq).2 hc)
        rw [gbkChars_single ht, gbkStarts_cons]
        exact ⟨fun hs => absurd (List.singleton_inj.1 hs.1).symm hne,
          fun hs => absurd (List.singleton_inj.1 hs.1) hne⟩

theorem gbkStarts_iff {lower : UInt8 → UInt8} (h : FoldsAscii lower) (pat : Bytes) :
    ∀ s : Bytes, GbkStarts lower (gbkChars pat) (gbkChars s) ↔
      (s.take pat.length).map lower = pat.map lower ∧
        SameWide (gbkChars pat) (gbkChars s) := by
  have hnil : ∀ s : Bytes, GbkStarts lower [] (gbkChars s) ↔
      (s.take 0).map lower = [] ∧ SameWide [] (gbkChars s) :=
    fun s => ⟨fun _ => ⟨rfl, sameWide_nil _⟩, fun _ => List.nil_prefix⟩
  induction pat using gbkChars.induct with
  | case1 => exact hnil
  | case2 c =>
      by_cases hc : 128 ≤ c
      · exact gbkStarts_half h hc
      · exact @gbkStarts_single _ h _ [] _ hc hnil
  | case3 c d pat hc ih =>
      rw [gbkChars_double hc]
      exact gbkStarts_double hc ih
  | case4 c d pat hc ih =>
      rw [gbkChars_single hc]
      exact gbkStarts_single h hc ih

/-- From a character on, the characters are those of the rest. -/
theorem drop_gbkChars (s : Bytes) : ∀ k, ∃ rest, (gbkChars s).drop k = gbkChars rest := by
  induction s using gbkChars.induct with
  | case1 => exact fun k => ⟨[], List.drop_nil⟩
  | case2 c =>
      intro k
      cases k with
      | zero => exact ⟨[c], rfl⟩
      | succ k => exact ⟨[], List.drop_nil⟩
  | case3 c d s hc ih =>
      intro k
      cases k with
      | zero => exact ⟨c :: d :: s, rfl⟩
      | succ k =>
          rw [gbkChars_double hc]
          exact ih k
  | case4 c d s hc ih =>
      intro k
      cases k with
      | zero => exact ⟨c :: d :: s, rfl⟩
      | succ k =>
          rw [gbkChars_single hc]
          exact ih k

/-! ## Cutting a string

A string is cut behind a limit of `n` bytes by taking the characters that begin in
front of it. So there may be one byte more than the limit, and there is exactly if a
character of two bytes stands across it. -/

/-- The string without a first byte that ends it. -/
def whole : Bytes → Bytes
  | [] => []
  | [c] => if 128 ≤ c then [] else [c]
  | c :: d :: s => if 128 ≤ c then c :: d :: whole s else c :: whole (d :: s)

/-- Each first byte is followed by the second. -/
def WellFormed (s : Bytes) : Prop := ∀ c ∈ gbkChars s, 128 ≤ c.headD 0 → c.length = 2

instance (s : Bytes) : Decidable (WellFormed s) := List.decidableBAll _ _

/-- The bytes of the characters that begin in front of byte `n`. -/
def firstChars : Nat → Bytes → Bytes
  | _, [] => []
  | n, [c] => if n = 0 ∨ 128 ≤ c then [] else [c]
  | n, c :: d :: s =>
      if n = 0 then []
      else if 128 ≤ c then c :: d :: firstChars (n - 2) s
      else c :: firstChars (n - 1) (d :: s)

/-- A character of two bytes ends one byte behind byte `n`. -/
def Straddles (chars : List Bytes) (n : Nat) : Prop :=
  ∃ pre c post, chars = pre ++ c :: post ∧ c.length = 2 ∧ pre.flatten.length + 1 = n

theorem whole_single {c : UInt8} (h : ¬ 128 ≤ c) (s : Bytes) : whole (c :: s) = c :: whole s := by
  cases s with
  | nil => simp [whole, h]
  | cons d s => rw [whole, if_neg h]

theorem whole_double {c : UInt8} (h : 128 ≤ c) (d : UInt8) (s : Bytes) :
    whole (c :: d :: s) = c :: d :: whole s := by
  rw [whole, if_pos h]

theorem firstChars_zero (s : Bytes) : firstChars 0 s = [] := by
  cases s with
  | nil => rfl
  | cons c s => cases s <;> rfl

theorem firstChars_single {c : UInt8} (h : ¬ 128 ≤ c) (n : Nat) (s : Bytes) :
    firstChars (n + 1) (c :: s) = c :: firstChars n s := by
  cases s with
  | nil => simp [firstChars, h]
  | cons d s => rw [firstChars, if_neg (Nat.succ_ne_zero n), if_neg h, Nat.add_sub_cancel]

theorem firstChars_double {c : UInt8} (h : 128 ≤ c) (n : Nat) (d : UInt8) (s : Bytes) :
    firstChars (n + 1) (c :: d :: s) = c :: d :: firstChars (n - 1) s := by
  rw [firstChars, if_neg (Nat.succ_ne_zero n), if_pos h]
  rfl

theorem firstChars_half {c : UInt8} (h : 128 ≤ c) (n : Nat) : firstChars n [c] = [] := by
  rw [firstChars, if_pos (Or.inr h)]

theorem whole_half {c : UInt8} (h : 128 ≤ c) : whole [c] = [] := by
  rw [whole, if_pos h]

theorem not_straddles_nil (n : Nat) : ¬ Straddles [] n := by
  rintro ⟨pre, c, post, h, -⟩
  simp at h

theorem not_straddles_zero (chars : List Bytes) : ¬ Straddles chars 0 := by
  rintro ⟨pre, c, post, -, -, h⟩
  omega

theorem straddles_cons {c : Bytes} {chars : List Bytes} {n : Nat} :
    Straddles (c :: chars) n ↔
      c.length = 2 ∧ n = 1 ∨ c.length ≤ n ∧ Straddles chars (n - c.length) := by
  constructor
  · rintro ⟨pre, e, post, heq, hlen, hn⟩
    cases pre with
    | nil =>
        obtain ⟨rfl, -⟩ := List.cons.inj heq
        exact Or.inl ⟨hlen, hn.symm⟩
    | cons p pre =>
        obtain ⟨rfl, htail⟩ := List.cons.inj heq
        rw [List.flatten_cons, List.length_append] at hn
        exact Or.inr ⟨by omega, pre, e, post, htail, hlen, by omega⟩
  · rintro (⟨hlen, rfl⟩ | ⟨hle, pre, e, post, heq, hlen, hn⟩)
    · exact ⟨[], c, chars, rfl, hlen, rfl⟩
    · refine ⟨c :: pre, e, post, by rw [heq]; rfl, hlen, ?_⟩
      rw [List.flatten_cons, List.length_append]
      omega

/-- The characters of a string that is well formed are all of it. -/
theorem WellFormed.whole {s : Bytes} (h : WellFormed s) : whole s = s := by
  induction s using gbkChars.induct with
  | case1 => rfl
  | case2 c =>
      by_cases hc : 128 ≤ c
      · exact absurd (h [c] (List.mem_singleton_self _) hc) (by simp)
      · rw [CMem.whole, if_neg hc]
  | case3 c d s hc ih =>
      have htail : WellFormed s := fun e he => h e (by
        rw [gbkChars_double hc]
        exact List.mem_cons_of_mem _ he)
      rw [whole_double hc, ih htail]
  | case4 c d s hc ih =>
      have htail : WellFormed (d :: s) := fun e he => h e (by
        rw [gbkChars_single hc]
        exact List.mem_cons_of_mem _ he)
      rw [whole_single hc, ih htail]

/-- What is cut out is made of characters of the string. -/
theorem firstChars_whole (s : Bytes) : ∀ n, ∃ pre post, gbkChars s = pre ++ post ∧
    firstChars n s = pre.flatten := by
  induction s using gbkChars.induct with
  | case1 => exact fun n => ⟨[], [], rfl, rfl⟩
  | case2 c =>
      intro n
      by_cases hc : n = 0 ∨ 128 ≤ c
      · exact ⟨[], [[c]], rfl, by rw [firstChars, if_pos hc]; rfl⟩
      · exact ⟨[[c]], [], rfl, by rw [firstChars, if_neg hc]; rfl⟩
  | case3 c d s hc ih =>
      intro n
      cases n with
      | zero => exact ⟨[], gbkChars (c :: d :: s), rfl, firstChars_zero _⟩
      | succ n =>
          obtain ⟨pre, post, hsplit, heq⟩ := ih (n - 1)
          refine ⟨[c, d] :: pre, post, ?_, ?_⟩
          · rw [gbkChars_double hc, hsplit]
            rfl
          · rw [firstChars_double hc, heq]
            rfl
  | case4 c d s hc ih =>
      intro n
      cases n with
      | zero => exact ⟨[], gbkChars (c :: d :: s), rfl, firstChars_zero _⟩
      | succ n =>
          obtain ⟨pre, post, hsplit, heq⟩ := ih n
          refine ⟨[c] :: pre, post, ?_, ?_⟩
          · rw [gbkChars_single hc, hsplit]
            rfl
          · rw [firstChars_single hc, heq]
            rfl

theorem firstChars_initial (n : Nat) (s : Bytes) : firstChars n s <+: s := by
  obtain ⟨pre, post, hsplit, heq⟩ := firstChars_whole s n
  refine ⟨post.flatten, ?_⟩
  rw [heq, ← List.flatten_append, ← hsplit, flatten_gbkChars]

theorem length_firstChars_le_whole (s : Bytes) : ∀ n,
    (firstChars n s).length ≤ (whole s).length := by
  induction s using gbkChars.induct with
  | case1 => exact fun _ => Nat.le_refl 0
  | case2 c =>
      intro n
      by_cases hc : 128 ≤ c
      · rw [firstChars_half hc]
        exact Nat.zero_le _
      · rw [whole, if_neg hc, firstChars]
        split <;> simp
  | case3 c d s hc ih =>
      intro n
      cases n with
      | zero =>
          rw [firstChars_zero]
          exact Nat.zero_le _
      | succ n =>
          rw [firstChars_double hc, whole_double hc]
          exact Nat.succ_le_succ (Nat.succ_le_succ (ih _))
  | case4 c d s hc ih =>
      intro n
      cases n with
      | zero =>
          rw [firstChars_zero]
          exact Nat.zero_le _
      | succ n =>
          rw [firstChars_single hc, whole_single hc]
          exact Nat.succ_le_succ (ih n)

/-- One byte more than the limit is the most there can be, and is there when a character
stands across the limit. -/
theorem length_firstChars (s : Bytes) : ∀ n, (firstChars n s).length ≤ n + 1 ∧
    ((firstChars n s).length = n + 1 ↔ Straddles (gbkChars s) n) ∧
    ((firstChars n s).length < n → firstChars n s = whole s) := by
  have hzero : ∀ s : Bytes, (firstChars 0 s).length ≤ 0 + 1 ∧
      ((firstChars 0 s).length = 0 + 1 ↔ Straddles (gbkChars s) 0) ∧
      ((firstChars 0 s).length < 0 → firstChars 0 s = whole s) := by
    intro s
    rw [firstChars_zero]
    exact ⟨Nat.zero_le _, ⟨nofun, fun h => absurd h (not_straddles_zero _)⟩, nofun⟩
  induction s using gbkChars.induct with
  | case1 =>
      intro n
      exact ⟨Nat.zero_le _, ⟨nofun, fun h => absurd h (not_straddles_nil n)⟩, fun _ => rfl⟩
  | case2 c =>
      intro n
      have hnone : ¬ Straddles [[c]] n := by
        rw [straddles_cons]
        rintro (⟨hlen, -⟩ | ⟨-, h⟩)
        · simp at hlen
        · exact not_straddles_nil _ h
      by_cases hc : 128 ≤ c
      · rw [firstChars_half hc, whole_half hc]
        exact ⟨Nat.zero_le _, ⟨nofun, fun h => absurd h hnone⟩, fun _ => rfl⟩
      · cases n with
        | zero => exact hzero [c]
        | succ n =>
            rw [firstChars_single hc, whole_single hc]
            refine ⟨Nat.succ_le_succ (Nat.zero_le _), ⟨fun h => ?_, fun h => absurd h hnone⟩,
              fun _ => rfl⟩
            exact absurd h (by simp [firstChars])
  | case3 c d s hc ih =>
      intro n
      cases n with
      | zero => exact hzero _
      | succ n =>
          obtain ⟨hle, hiff, hall⟩ := ih (n - 1)
          rw [firstChars_double hc, gbkChars_double hc, whole_double hc, straddles_cons]
          simp only [List.length_cons, List.length_nil]
          cases n with
          | zero =>
              rw [firstChars_zero] at hle ⊢
              exact ⟨Nat.le_refl _, ⟨fun _ => Or.inl ⟨trivial, rfl⟩, fun _ => rfl⟩,
                fun h => absurd h (by decide)⟩
          | succ n =>
              rw [Nat.add_sub_cancel] at hle hiff hall ⊢
              refine ⟨by omega, ?_, fun h => by rw [hall (by omega)]⟩
              have hsub : n + 1 + 1 - (0 + 1 + 1) = n := by omega
              rw [hsub, ← hiff]
              omega
  | case4 c d s hc ih =>
      intro n
      cases n with
      | zero => exact hzero _
      | succ n =>
          obtain ⟨hle, hiff, hall⟩ := ih n
          rw [firstChars_single hc, gbkChars_single hc, whole_single hc, straddles_cons]
          simp only [List.length_cons, List.length_nil]
          refine ⟨by omega, ?_, fun h => by rw [hall (by omega)]⟩
          have hsub : n + 1 - (0 + 1) = n := by omega
          rw [hsub, ← hiff]
          omega

/-- When fewer than `k` bytes are cut out: the string is that short, the limit is, or it is
one less and no character stands across it. -/
theorem length_firstChars_lt_iff {n k : Nat} {s : Bytes} : (firstChars n s).length < k ↔
    (whole s).length < k ∨ n + 1 < k ∨ n + 1 = k ∧ ¬ Straddles (gbkChars s) n := by
  obtain ⟨hle, hiff, hall⟩ := length_firstChars s n
  have hwhole := length_firstChars_le_whole s n
  constructor
  · intro hlt
    by_contra hnot
    simp only [not_or, not_and, not_not] at hnot
    obtain ⟨hk, hn, hend⟩ := hnot
    rcases Nat.lt_or_ge n k with hnk | hkn
    · exact absurd (hiff.2 (hend (by omega))) (by omega)
    · have heq := congrArg List.length (hall (by omega))
      omega
  · rintro (h | h | ⟨hk, hnot⟩)
    · omega
    · omega
    · have hne : (firstChars n s).length ≠ n + 1 := fun h => hnot (hiff.1 h)
      omega

/-- A string that is no longer than the limit is not cut. -/
theorem firstChars_all {n : Nat} {s : Bytes} (h : s.length ≤ n) : firstChars n s = whole s := by
  induction s using gbkChars.induct generalizing n with
  | case1 => rfl
  | case2 c =>
      obtain ⟨n, rfl⟩ : ∃ k, n = k + 1 := ⟨n - 1, by rw [List.length_singleton] at h; omega⟩
      by_cases hc : 128 ≤ c
      · rw [firstChars_half hc, whole_half hc]
      · rw [firstChars_single hc, whole_single hc]
        rfl
  | case3 c d s hc ih =>
      rw [List.length_cons, List.length_cons] at h
      obtain ⟨n, rfl⟩ : ∃ k, n = k + 1 := ⟨n - 1, by omega⟩
      rw [firstChars_double hc, whole_double hc, ih (by omega)]
  | case4 c d s hc ih =>
      rw [List.length_cons] at h
      obtain ⟨n, rfl⟩ : ∃ k, n = k + 1 := ⟨n - 1, by omega⟩
      rw [firstChars_single hc, whole_single hc, ih (by omega)]

end CMem
