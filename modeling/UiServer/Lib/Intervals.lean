import Mathlib.Data.List.Sort

/-!
# Intervals of a text

Places of a text are given as intervals that may overlap, lie inside one another and
meet. To mark them, they are sorted and joined where they overlap or meet (`coalesce`).
What comes out covers the same places and has a gap between any two, and there is
only one such list (`Apart.eq_of_covers`): however the intervals are sorted and
joined, and whichever of them are left out because they lie inside others, it is
this one.

The text is then the marks put around the intervals (`parts`). Without the marks it
is the text that was marked.
-/

namespace Intervals

universe u

/-- An interval: where it begins and its length. -/
structure Span where
  offset : Nat
  len : Nat
deriving DecidableEq, Repr

def Span.stop (h : Span) : Nat := h.offset + h.len

def Span.Has (h : Span) (i : Nat) : Prop := h.offset ≤ i ∧ i < h.stop

def Span.Inside (a b : Span) : Prop := b.offset ≤ a.offset ∧ a.stop ≤ b.stop

instance (a b : Span) : Decidable (a.Inside b) := inferInstanceAs (Decidable (_ ∧ _))

/-- The order in which the intervals of a list stand. -/
def Span.Before (a b : Span) : Prop := a.offset ≤ b.offset

instance (a b : Span) : Decidable (a.Before b) := Nat.decLe _ _

instance : Std.Total Span.Before := ⟨fun a b => Nat.le_total a.offset b.offset⟩

instance : IsTrans Span Span.Before := ⟨fun _ _ _ => Nat.le_trans⟩

/-- The place lies in one of the intervals. -/
def Covers (hs : List Span) (i : Nat) : Prop := ∃ h ∈ hs, h.Has i

def Sorted (hs : List Span) : Prop := hs.Pairwise Span.Before

/-- There is something in each interval. -/
def Full (hs : List Span) : Prop := ∀ h ∈ hs, 0 < h.len

/-- The intervals end inside a text of `n` bytes. -/
def Within (n : Nat) (hs : List Span) : Prop := ∀ h ∈ hs, h.stop ≤ n

/-- Something in each interval, and a gap before the next one. -/
structure Apart (hs : List Span) : Prop where
  full : Full hs
  gaps : hs.Pairwise fun a b => a.stop < b.offset

/-! ## Places covered

What a list of intervals covers does not depend on the order in which it has them.
-/

theorem Span.Has.inside {a b : Span} {i : Nat} (h : a.Has i) (hin : a.Inside b) :
    b.Has i :=
  ⟨Nat.le_trans hin.1 h.1, Nat.lt_of_lt_of_le h.2 hin.2⟩

theorem Span.has_offset {h : Span} (hlen : 0 < h.len) : h.Has h.offset :=
  ⟨Nat.le_refl _, Nat.lt_add_of_pos_right hlen⟩

theorem covers_nil {i : Nat} : ¬ Covers [] i := fun ⟨_, hmem, _⟩ => nomatch hmem

theorem covers_cons {h : Span} {hs : List Span} {i : Nat} :
    Covers (h :: hs) i ↔ h.Has i ∨ Covers hs i := by
  simp [Covers]

theorem covers_first {h : Span} (hs : List Span) (hlen : 0 < h.len) :
    Covers (h :: hs) h.offset := covers_cons.2 (Or.inl (h.has_offset hlen))

theorem covers_perm {as bs : List Span} (h : as.Perm bs) {i : Nat} :
    Covers as i ↔ Covers bs i := by
  simp only [Covers, h.mem_iff]

theorem full_cons {h : Span} {hs : List Span} :
    Full (h :: hs) ↔ 0 < h.len ∧ Full hs := List.forall_mem_cons

theorem within_cons {n : Nat} {h : Span} {hs : List Span} :
    Within n (h :: hs) ↔ h.stop ≤ n ∧ Within n hs := List.forall_mem_cons

/-! ## Intervals that are apart

Where there is a gap behind each interval, the first place that is covered and the
first behind it that is not are the ends of the first interval. So the places tell
the list. -/

theorem apart_nil : Apart [] := ⟨nofun, List.Pairwise.nil⟩

theorem apart_cons {h : Span} {hs : List Span} :
    Apart (h :: hs) ↔ 0 < h.len ∧ (∀ b ∈ hs, h.stop < b.offset) ∧ Apart hs := by
  constructor
  · intro ⟨hfull, hgaps⟩
    obtain ⟨hhead, htail⟩ := List.pairwise_cons.1 hgaps
    exact ⟨(full_cons.1 hfull).1, hhead, (full_cons.1 hfull).2, htail⟩
  · intro ⟨hlen, hhead, hfull, hgaps⟩
    exact ⟨full_cons.2 ⟨hlen, hfull⟩, List.pairwise_cons.2 ⟨hhead, hgaps⟩⟩

/-- No place in front of the first interval is covered. -/
theorem Apart.le_of_covers {h : Span} {hs : List Span} (ha : Apart (h :: hs))
    {i : Nat} (hi : Covers (h :: hs) i) : h.offset ≤ i := by
  obtain ⟨-, hgap, -⟩ := apart_cons.1 ha
  rcases covers_cons.1 hi with hi | ⟨b, hb, hi⟩
  · exact hi.1
  · have hlt := hgap b hb
    have hle : b.offset ≤ i := hi.1
    have hstop : h.offset ≤ h.stop := Nat.le_add_right _ _
    omega

/-- The place behind the first interval is not covered. -/
theorem Apart.not_covers_stop {h : Span} {hs : List Span} (ha : Apart (h :: hs)) :
    ¬ Covers (h :: hs) h.stop := by
  obtain ⟨-, hgap, -⟩ := apart_cons.1 ha
  intro hi
  rcases covers_cons.1 hi with hi | ⟨b, hb, hi⟩
  · exact absurd hi.2 (Nat.lt_irrefl _)
  · have hlt := hgap b hb
    have hle : b.offset ≤ h.stop := hi.1
    omega

theorem Apart.covers_tail {h : Span} {hs : List Span} (ha : Apart (h :: hs))
    {i : Nat} : Covers hs i ↔ Covers (h :: hs) i ∧ h.stop < i := by
  obtain ⟨-, hgap, -⟩ := apart_cons.1 ha
  rw [covers_cons]
  constructor
  · intro hi
    obtain ⟨b, hb, hbi⟩ := id hi
    exact ⟨Or.inr hi, Nat.lt_of_lt_of_le (hgap b hb) hbi.1⟩
  · rintro ⟨hi | hi, hlt⟩
    · exact absurd hi.2 (by omega)
    · exact hi

/-- The first intervals begin and end at the same place. -/
theorem Apart.head_eq {a b : Span} {as bs : List Span} (ha : Apart (a :: as))
    (hb : Apart (b :: bs)) (h : ∀ i, Covers (a :: as) i ↔ Covers (b :: bs) i) : a = b := by
  have hafull := (apart_cons.1 ha).1
  have hbfull := (apart_cons.1 hb).1
  have hoffset : a.offset = b.offset := by
    have hab := hb.le_of_covers ((h a.offset).1 (covers_first as hafull))
    have hba := ha.le_of_covers ((h b.offset).2 (covers_first bs hbfull))
    omega
  have hstop : a.stop = b.stop := by
    rcases Nat.lt_trichotomy a.stop b.stop with hlt | heq | hlt
    · have hin : b.Has a.stop := ⟨hoffset ▸ Nat.le_add_right _ _, hlt⟩
      exact absurd ((h _).2 (covers_cons.2 (Or.inl hin))) ha.not_covers_stop
    · exact heq
    · have hin : a.Has b.stop := ⟨hoffset ▸ Nat.le_add_right _ _, hlt⟩
      exact absurd ((h _).1 (covers_cons.2 (Or.inl hin))) hb.not_covers_stop
  obtain ⟨offset, len⟩ := a
  obtain ⟨offset', len'⟩ := b
  cases hoffset
  exact congrArg _ (Nat.add_left_cancel hstop)

/-- Intervals that are apart are told by the places they cover. -/
theorem Apart.eq_of_covers {as : List Span} : ∀ {bs : List Span}, Apart as → Apart bs →
    (∀ i, Covers as i ↔ Covers bs i) → as = bs := by
  induction as with
  | nil =>
      intro bs _ hb h
      cases bs with
      | nil => rfl
      | cons b bs =>
          have hfirst := covers_first bs (apart_cons.1 hb).1
          exact absurd ((h b.offset).2 hfirst) covers_nil
  | cons a as ih =>
      intro bs ha hb h
      cases bs with
      | nil =>
          have hfirst := covers_first as (apart_cons.1 ha).1
          exact absurd ((h a.offset).1 hfirst) covers_nil
      | cons b bs =>
          obtain rfl := ha.head_eq hb h
          have htail := ih (apart_cons.1 ha).2.2 (apart_cons.1 hb).2.2 fun i => by
            rw [ha.covers_tail, hb.covers_tail, h i]
          rw [htail]

/-! ## Joining

In order, an interval overlaps or meets the ones before it or comes after a gap.
In the first case it is joined to the current one, in the second it is the next.
-/

/-- The intervals behind `cur`, in their order, joined to it as long as they overlap
it or meet it. -/
def join (cur : Span) : List Span → List Span
  | [] => [cur]
  | h :: hs =>
      if h.offset ≤ cur.stop then join ⟨cur.offset, max cur.stop h.stop - cur.offset⟩ hs
      else cur :: join h hs

def joined : List Span → List Span
  | [] => []
  | h :: hs => join h hs

/-- The intervals that cover the same places and are apart. -/
def coalesce (hs : List Span) : List Span := joined (hs.insertionSort Span.Before)

/-- What joining two of them comes to. -/
structure Joins (cur h : Span) (new : Span) : Prop where
  offset : new.offset = cur.offset
  stop : new.stop = max cur.stop h.stop

theorem joins_join (cur h : Span) :
    Joins cur h ⟨cur.offset, max cur.stop h.stop - cur.offset⟩ := by
  refine ⟨rfl, ?_⟩
  have hle : cur.offset ≤ cur.stop := Nat.le_add_right _ _
  simp only [Span.stop] at hle ⊢
  omega

theorem Joins.has_iff {cur h new : Span} (hj : Joins cur h new)
    (hbefore : cur.Before h) (hmeet : h.offset ≤ cur.stop) {i : Nat} :
    new.Has i ↔ cur.Has i ∨ h.Has i := by
  have ho := hj.offset
  have hs := hj.stop
  have hb : cur.offset ≤ h.offset := hbefore
  simp only [Span.Has]
  omega

theorem Joins.len_pos {cur h new : Span} (hj : Joins cur h new) (hlen : 0 < cur.len) :
    0 < new.len := by
  have ho := hj.offset
  have hs := hj.stop
  simp only [Span.stop] at hs
  omega

theorem sorted_cons {h : Span} {hs : List Span} :
    Sorted (h :: hs) ↔ (∀ b ∈ hs, h.Before b) ∧ Sorted hs := List.pairwise_cons

/-- Joining goes on with the intervals behind the first two in order. -/
theorem Joins.sorted {cur h new : Span} {hs : List Span} (hj : Joins cur h new)
    (hsorted : Sorted (cur :: h :: hs)) : Sorted (new :: hs) := by
  obtain ⟨hcur, hrest⟩ := sorted_cons.1 hsorted
  refine sorted_cons.2 ⟨fun b hb => ?_, (sorted_cons.1 hrest).2⟩
  have hbefore : cur.offset ≤ b.offset := hcur b (List.mem_cons_of_mem _ hb)
  show new.offset ≤ b.offset
  rw [hj.offset]
  exact hbefore

theorem join_covers {cur : Span} {hs : List Span} (h : Sorted (cur :: hs)) (i : Nat) :
    Covers (join cur hs) i ↔ Covers (cur :: hs) i := by
  induction hs generalizing cur with
  | nil => rfl
  | cons b hs ih =>
      obtain ⟨hcur, hrest⟩ := sorted_cons.1 h
      have hj := joins_join cur b
      rw [join]
      split
      · next hmeet =>
          rw [ih (hj.sorted h), covers_cons, covers_cons, covers_cons,
            hj.has_iff (hcur b (List.mem_cons_self ..)) hmeet, or_assoc]
      · next hgap => rw [covers_cons, covers_cons, ih hrest]

/-- Every interval that comes out begins at one of those that went in. -/
theorem join_offset {cur : Span} {hs : List Span} :
    ∀ a ∈ join cur hs, ∃ b ∈ cur :: hs, a.offset = b.offset := by
  induction hs generalizing cur with
  | nil =>
      intro a ha
      exact ⟨a, ha, rfl⟩
  | cons b hs ih =>
      intro a ha
      rw [join] at ha
      split at ha
      · obtain ⟨c, hc, heq⟩ := ih a ha
        rcases List.mem_cons.1 hc with rfl | hc
        · exact ⟨cur, List.mem_cons_self .., heq⟩
        · exact ⟨c, List.mem_cons_of_mem _ (List.mem_cons_of_mem _ hc), heq⟩
      · rcases List.mem_cons.1 ha with rfl | ha
        · exact ⟨a, List.mem_cons_self .., rfl⟩
        · obtain ⟨c, hc, heq⟩ := ih a ha
          exact ⟨c, List.mem_cons_of_mem _ hc, heq⟩

theorem join_apart {cur : Span} {hs : List Span} (h : Sorted (cur :: hs))
    (hfull : Full (cur :: hs)) : Apart (join cur hs) := by
  induction hs generalizing cur with
  | nil => exact apart_cons.2 ⟨(full_cons.1 hfull).1, nofun, apart_nil⟩
  | cons b hs ih =>
      obtain ⟨hcur, hrest⟩ := sorted_cons.1 h
      obtain ⟨hlen, hfull⟩ := full_cons.1 hfull
      have hj := joins_join cur b
      rw [join]
      split
      · exact ih (hj.sorted h) (full_cons.2 ⟨hj.len_pos hlen, (full_cons.1 hfull).2⟩)
      · next hgap =>
          refine apart_cons.2 ⟨hlen, fun a ha => ?_, ih hrest hfull⟩
          obtain ⟨c, hc, heq⟩ := join_offset a ha
          have hle : b.offset ≤ c.offset := by
            rcases List.mem_cons.1 hc with rfl | hc
            · exact Nat.le_refl _
            · exact (sorted_cons.1 hrest).1 c hc
          omega

/-- An interval inside the text is told by its last place. -/
theorem within_of_covers {n : Nat} {as bs : List Span} (hfull : Full as)
    (hsub : ∀ i, Covers as i → Covers bs i) (h : Within n bs) : Within n as := by
  intro a ha
  have hlen := hfull a ha
  have hlast : a.Has (a.stop - 1) := by
    simp only [Span.Has, Span.stop]
    omega
  obtain ⟨b, hb, hin⟩ := hsub _ ⟨a, ha, hlast⟩
  have hb' := h b hb
  have hlt : a.stop - 1 < b.stop := hin.2
  have hstop : 0 < a.stop := Nat.lt_of_lt_of_le hlen (Nat.le_add_left _ _)
  omega

theorem joined_covers {hs : List Span} (h : Sorted hs) (i : Nat) :
    Covers (joined hs) i ↔ Covers hs i := by
  cases hs with
  | nil => rfl
  | cons a hs => exact join_covers h i

theorem joined_apart {hs : List Span} (h : Sorted hs) (hfull : Full hs) :
    Apart (joined hs) := by
  cases hs with
  | nil => exact apart_nil
  | cons a hs => exact join_apart h hfull

theorem sorted_insertionSort (hs : List Span) :
    Sorted (hs.insertionSort Span.Before) := List.pairwise_insertionSort _ _

theorem coalesce_covers (hs : List Span) (i : Nat) : Covers (coalesce hs) i ↔ Covers hs i := by
  rw [coalesce, joined_covers (sorted_insertionSort hs), covers_perm (List.perm_insertionSort _ _)]

theorem coalesce_apart {hs : List Span} (h : Full hs) : Apart (coalesce hs) :=
  joined_apart (sorted_insertionSort hs) fun a ha => h a ((List.mem_insertionSort _).1 ha)

theorem coalesce_within {n : Nat} {hs : List Span} (hfull : Full hs) (h : Within n hs) :
    Within n (coalesce hs) :=
  within_of_covers (coalesce_apart hfull).full (fun i hi => (coalesce_covers hs i).1 hi) h

/-- Whatever covers the same places, sorted and joined, is the coalesced list. -/
theorem joined_eq_coalesce {as hs : List Span} (hsorted : Sorted as) (hfull : Full as)
    (hfull' : Full hs) (h : ∀ i, Covers as i ↔ Covers hs i) : joined as = coalesce hs :=
  (joined_apart hsorted hfull).eq_of_covers (coalesce_apart hfull') fun i => by
    rw [joined_covers hsorted, h, coalesce_covers]

/-! ## Recording what is new

Intervals are taken one after the other until `cap` of them are recorded. One that
lies inside a recorded one is taken and not recorded. -/

/-- Those that are taken, with the recorded ones so far. -/
def taken (cap : Nat) : List Span → List Span → List Span
  | _, [] => []
  | recorded, h :: hs =>
      if ∃ b ∈ recorded, h.Inside b then h :: taken cap recorded hs
      else if recorded.length + 1 = cap then [h]
      else h :: taken cap (h :: recorded) hs

theorem taken_sublist (cap : Nat) {hs : List Span} :
    ∀ recorded, (taken cap recorded hs).Sublist hs := by
  induction hs with
  | nil => exact fun _ => List.Sublist.refl _
  | cons h hs ih =>
      intro recorded
      rw [taken]
      split
      · exact (ih recorded).cons_cons h
      · split
        · exact (List.nil_sublist hs).cons_cons h
        · exact (ih _).cons_cons h

/-- An interval inside a recorded one covers nothing new. -/
theorem covers_inside {h : Span} {hs : List Span} (hin : ∃ b ∈ hs, h.Inside b) {i : Nat}
    (hi : h.Has i) : Covers hs i := by
  obtain ⟨b, hb, hsub⟩ := hin
  exact ⟨b, hb, hi.inside hsub⟩

/-! ## Marking a text

The marked text is made of parts, stretches of the text and marks in turn. Without
the parts that are marks it is the text again. -/

/-- A part of a marked text. -/
inductive Chunk (α : Type u) where
  | text (bs : List α)
  | tag (bs : List α)

variable {α : Type u}

def Chunk.bytes : Chunk α → List α
  | .text bs => bs
  | .tag bs => bs

def Chunk.isTag : Chunk α → Bool
  | .text _ => false
  | .tag _ => true

def slice (v : List α) (i j : Nat) : List α := (v.take j).drop i

/-- The text from `pf` on, with a mark at the beginning and at the end of each
interval. -/
def parts (v opening closing : List α) : List Span → Nat → List (Chunk α)
  | [], pf => [.text (v.drop pf)]
  | h :: hs, pf =>
      .text (slice v pf h.offset) :: .tag opening :: .text (slice v h.offset h.stop) ::
        .tag closing :: parts v opening closing hs h.stop

def flat (ps : List (Chunk α)) : List α := (ps.map Chunk.bytes).flatten

def unmarked (ps : List (Chunk α)) : List α := flat (ps.filter fun p => !p.isTag)

theorem slice_append_drop (v : List α) {i j : Nat} (h : i ≤ j) :
    slice v i j ++ v.drop j = v.drop i := by
  have hj : v.drop j = (v.drop i).drop (j - i) := by
    rw [List.drop_drop, Nat.add_sub_cancel' h]
  rw [slice, List.drop_take, hj, List.take_append_drop]

/-- The intervals behind `pf`. -/
def From (pf : Nat) (hs : List Span) : Prop := ∀ h ∈ hs, pf ≤ h.offset

/-- Each interval ends where the next one begins, or in front of it. -/
def InOrder (hs : List Span) : Prop := hs.Pairwise fun a b => a.stop ≤ b.offset

theorem inOrder_cons {h : Span} {hs : List Span} :
    InOrder (h :: hs) ↔ From h.stop hs ∧ InOrder hs := List.pairwise_cons

theorem Apart.inOrder {hs : List Span} (ha : Apart hs) : InOrder hs :=
  ha.gaps.imp Nat.le_of_lt

theorem Apart.from_stop {h : Span} {hs : List Span} (ha : Apart (h :: hs)) :
    From h.stop hs :=
  (inOrder_cons.1 ha.inOrder).1

theorem unmarked_parts (v opening closing : List α) {hs : List Span} :
    ∀ {pf : Nat}, InOrder hs → From pf hs →
      unmarked (parts v opening closing hs pf) = v.drop pf := by
  induction hs with
  | nil =>
      intro pf _ _
      exact List.append_nil _
  | cons h hs ih =>
      intro pf ha hfrom
      have hpf : pf ≤ h.offset := hfrom h (List.mem_cons_self ..)
      have htail := ih (inOrder_cons.1 ha).2 (inOrder_cons.1 ha).1
      have hstop : h.offset ≤ h.stop := Nat.le_add_right _ _
      rw [← slice_append_drop v hpf, ← slice_append_drop v hstop, ← htail]
      rfl

/-- A byte in front of the first interval is text. -/
theorem flat_parts_next {v : List α} (opening closing : List α) {hs : List Span} {pf : Nat}
    (hpf : pf < v.length) (hfrom : From (pf + 1) hs) :
    flat (parts v opening closing hs pf) = v[pf] :: flat (parts v opening closing hs (pf + 1)) := by
  cases hs with
  | nil =>
      show v.drop pf ++ [] = v[pf] :: (v.drop (pf + 1) ++ [])
      rw [List.drop_eq_getElem_cons hpf]
      rfl
  | cons h hs =>
      have hlt : pf < h.offset := hfrom h (List.mem_cons_self ..)
      have htake : pf < (v.take h.offset).length := by
        rw [List.length_take]
        omega
      have hslice : slice v pf h.offset = v[pf] :: slice v (pf + 1) h.offset := by
        rw [slice, List.drop_eq_getElem_cons htake, List.getElem_take]
        rfl
      rw [parts, flat, List.map_cons, List.flatten_cons]
      show slice v pf h.offset ++ _ = _
      rw [hslice]
      rfl

end Intervals
