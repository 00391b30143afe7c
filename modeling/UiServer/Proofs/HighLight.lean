import UiServer.Proofs.Gbk
import UiServer.Template.HighLight

/-!
# The words that are marked

The places of the words go through three loops: one looks for them and leaves out
those inside others, one moves each new one to where it belongs, one joins them. What
comes out is the merged list of all the places that were found, the ones left out
included (`highLights_eq`): it covers the same, in order and with a gap between any
two.
-/

namespace UiServer

open CMem Intervals

/-! ## Moving a place to where it belongs

A place is put behind the others and swapped forward while the one in front of it
comes later. The rest of the array does not move, so it is an insertion. -/

theorem length_swapNext (hl : List HighLight) (j : Nat) : (swapNext hl j).length = hl.length := by
  simp [swapNext]

theorem getD_append_left {hl : List HighLight} (tail : List HighLight) {j : Nat}
    (h : j < hl.length) : (hl ++ tail).getD j ⟨0, 0⟩ = hl.getD j ⟨0, 0⟩ :=
  List.getD_append _ _ _ _ h

theorem swapNext_append {hl : List HighLight} (tail : List HighLight) {j : Nat}
    (h : j + 1 < hl.length) : swapNext (hl ++ tail) j = swapNext hl j ++ tail := by
  rw [swapNext, getD_append_left tail h, getD_append_left tail (Nat.lt_of_succ_lt h),
    List.set_append_left _ _ (Nat.lt_of_succ_lt h),
    List.set_append_left _ _ (by rw [List.length_set]; exact h), swapNext]

theorem swapNext_last (hl : List HighLight) (a b : HighLight) :
    swapNext (hl ++ [a] ++ [b]) hl.length = hl ++ [b] ++ [a] := by
  simp [swapNext, List.getD]

/-- The places behind `j` stay where they are. -/
theorem settle_append (tail : List HighLight) : ∀ {j : Nat} {hl : List HighLight},
    j < hl.length → settle j (hl ++ tail) = settle j hl ++ tail := by
  intro j
  induction j with
  | zero => exact fun _ => rfl
  | succ j ih =>
      intro hl hj
      rw [settle, settle, getD_append_left tail hj, getD_append_left tail (Nat.lt_of_succ_lt hj),
        swapNext_append tail hj]
      split
      · exact ih (by rw [length_swapNext]; omega)
      · exact ih (by omega)

/-- Nothing moves in a list that is in order. -/
theorem settle_sorted {hl : List HighLight} (h : Sorted hl) : ∀ {j : Nat},
    j < hl.length → settle j hl = hl := by
  intro j
  induction j with
  | zero => exact fun _ => rfl
  | succ j ih =>
      intro hj
      have hle : hl[j].offset ≤ hl[j + 1].offset :=
        List.pairwise_iff_getElem.1 h j (j + 1) (by omega) hj (Nat.lt_succ_self j)
      rw [settle, List.getD_eq_getElem _ _ hj, List.getD_eq_getElem _ _ (Nat.lt_of_succ_lt hj),
        if_neg (Nat.not_lt.2 hle)]
      exact ih (by omega)

theorem sorted_append_singleton {hl : List HighLight} {a : HighLight} :
    Sorted (hl ++ [a]) ↔ Sorted hl ∧ ∀ b ∈ hl, b.Before a := by
  simp [Sorted, List.pairwise_append]

theorem settle_spec {hl : List HighLight} (h : HighLight) : Sorted hl →
    (settle hl.length (hl ++ [h])).Perm (h :: hl) ∧ Sorted (settle hl.length (hl ++ [h])) := by
  induction hl using List.reverseRecOn with
  | nil => exact fun _ => ⟨List.Perm.refl _, List.pairwise_singleton _ _⟩
  | append_singleton hl a ih =>
      intro hsorted
      obtain ⟨hinit, hlast⟩ := sorted_append_singleton.1 hsorted
      have hlength : (hl ++ [a]).length = hl.length + 1 := List.length_append ..
      have hget : (hl ++ [a] ++ [h]).getD (hl.length + 1) ⟨0, 0⟩ = h := by simp [List.getD]
      have hget' : (hl ++ [a] ++ [h]).getD hl.length ⟨0, 0⟩ = a := by simp [List.getD]
      rw [hlength, settle, hget, hget']
      split
      · next hlt =>
          obtain ⟨hperm, hsorted'⟩ := ih hinit
          have hshort : hl.length < (hl ++ [h]).length := by simp
          rw [swapNext_last, settle_append [a] hshort]
          refine ⟨?_, sorted_append_singleton.2 ⟨hsorted', fun b hb => ?_⟩⟩
          · exact (hperm.append_right [a]).trans (List.Perm.refl _)
          · rcases List.mem_cons.1 (hperm.mem_iff.1 hb) with rfl | hb
            · exact Nat.le_of_lt hlt
            · exact hlast b hb
      · next hge =>
          have hall : Sorted (hl ++ [a] ++ [h]) := by
            refine sorted_append_singleton.2 ⟨hsorted, fun b hb => ?_⟩
            rcases List.mem_append.1 hb with hb | hb
            · exact Nat.le_trans (hlast b hb) (Nat.not_lt.1 hge)
            · rw [List.mem_singleton.1 hb]
              exact Nat.not_lt.1 hge
          rw [settle_sorted hall (by simp)]
          exact ⟨List.perm_append_singleton h _, hall⟩

/-! ## Looking for the words

The loops over the words and over the finds of a word put one place after the
other into the array, until it is full. Seen from the array that is one list of
places. -/

/-- The places where a word is found, with the rounds left. -/
def termOccurrences (v : Bytes) (t : QueryTerm) : Nat → Nat → List HighLight
  | 0, _ => []
  | rounds + 1, pf =>
      if 0 < t.len then
        match strcasestrGBK (v.drop pf) t.str with
        | none => []
        | some p => ⟨pf + p, t.len⟩ :: termOccurrences v t rounds (pf + p + t.len)
      else []

/-- The places where the words are found, five for a word at most, up to the one that
is the last to be recorded. -/
def found (v : Bytes) (terms : List QueryTerm) : List HighLight :=
  taken (maxHighLightTermNum - 1) [] (terms.flatMap fun t => termOccurrences v t 5 0)

/-- The array behind the places `hs`. -/
def addPlaces (hl : List HighLight) : List HighLight → List HighLight
  | [] => hl
  | h :: hs =>
      if isInside hl h then addPlaces hl hs
      else
        let hl := settle hl.length (hl ++ [h])
        if hl.length = maxHighLightTermNum - 1 then hl else addPlaces hl hs

theorem addPlaces_inside {hl hs : List HighLight} {h : HighLight} (hin : isInside hl h = true) :
    addPlaces hl (h :: hs) = addPlaces hl hs := by
  rw [addPlaces, if_pos hin]

theorem addPlaces_full {hl hs : List HighLight} {h : HighLight} (hnew : ¬ isInside hl h = true)
    (hfull : (settle hl.length (hl ++ [h])).length = maxHighLightTermNum - 1) :
    addPlaces hl (h :: hs) = settle hl.length (hl ++ [h]) := by
  rw [addPlaces, if_neg hnew]
  exact if_pos hfull

theorem addPlaces_next {hl hs : List HighLight} {h : HighLight} (hnew : ¬ isInside hl h = true)
    (hfree : (settle hl.length (hl ++ [h])).length ≠ maxHighLightTermNum - 1) :
    addPlaces hl (h :: hs) = addPlaces (settle hl.length (hl ++ [h])) hs := by
  rw [addPlaces, if_neg hnew]
  exact if_neg hfree

theorem searchTerm_eq (v : Bytes) (t : QueryTerm) : ∀ (rounds pf : Nat) (hl : List HighLight),
    searchTerm v t rounds pf hl = addPlaces hl (termOccurrences v t rounds pf) := by
  intro rounds
  induction rounds with
  | zero => exact fun _ _ => rfl
  | succ rounds ih =>
      intro pf hl
      rw [searchTerm, termOccurrences]
      by_cases hlen : 0 < t.len
      · rw [if_pos hlen, if_pos hlen]
        cases strcasestrGBK (v.drop pf) t.str with
        | none => rfl
        | some p => simp only [ih, addPlaces]
      · rw [if_neg hlen, if_neg hlen, addPlaces]

theorem addPlaces_append {as bs : List HighLight} : ∀ {hl : List HighLight},
    hl.length ≠ maxHighLightTermNum - 1 →
    addPlaces hl (as ++ bs) =
      if (addPlaces hl as).length = maxHighLightTermNum - 1 then addPlaces hl as
      else addPlaces (addPlaces hl as) bs := by
  induction as with
  | nil =>
      intro hl hne
      rw [List.nil_append, addPlaces, if_neg hne]
  | cons a as ih =>
      intro hl hne
      rw [List.cons_append]
      by_cases hin : isInside hl a = true
      · rw [addPlaces_inside hin, addPlaces_inside hin]
        exact ih hne
      · by_cases hfull : (settle hl.length (hl ++ [a])).length = maxHighLightTermNum - 1
        · rw [addPlaces_full hin hfull, addPlaces_full hin hfull, if_pos hfull]
        · rw [addPlaces_next hin hfull, addPlaces_next hin hfull]
          exact ih hfull

theorem searchTerms_eq (v : Bytes) {terms : List QueryTerm} : ∀ {hl : List HighLight},
    hl.length ≠ maxHighLightTermNum - 1 →
    searchTerms v terms hl = addPlaces hl (terms.flatMap fun t => termOccurrences v t 5 0) := by
  induction terms with
  | nil => exact fun _ => rfl
  | cons t terms ih =>
      intro hl hne
      rw [searchTerms, List.flatMap_cons, addPlaces_append hne, searchTerm_eq]
      split
      · rfl
      · next hfree => exact ih hfree

/-! ## The places that are marked

A place inside another is left out, and it adds nothing to what is covered. So
joining what the array holds and joining all that was found come to the same. -/

theorem isInside_iff {hl : List HighLight} {h : HighLight} :
    isInside hl h = true ↔ ∃ b ∈ hl, h.Inside b := by
  simp [isInside, Span.Inside, Span.stop]

/-- What the array holds when it began with `recorded` and the places `hs` have gone
into it. -/
structure Holds (recorded hs hl : List HighLight) : Prop where
  sorted : Sorted hl
  full : Full hl
  covers : ∀ i, Covers hl i ↔
    Covers recorded i ∨ Covers (taken (maxHighLightTermNum - 1) recorded hs) i

theorem addPlaces_holds {hs : List HighLight} : ∀ {recorded hl : List HighLight},
    hl.Perm recorded → Sorted hl → Full recorded → Full hs →
    Holds recorded hs (addPlaces hl hs) := by
  induction hs with
  | nil =>
      intro recorded hl hperm hsorted hrec _
      refine ⟨hsorted, fun b hb => hrec b (hperm.mem_iff.1 hb), fun i => ?_⟩
      rw [addPlaces, covers_perm hperm, taken, or_iff_left covers_nil]
  | cons h hs ih =>
      -- the array is what is recorded in another order, so the test and the count agree
      intro recorded hl hperm hsorted hrec hfull
      obtain ⟨hlen, hfull⟩ := full_cons.1 hfull
      have hinside : isInside hl h = true ↔ ∃ b ∈ recorded, h.Inside b := by
        simp only [isInside_iff, hperm.mem_iff]
      by_cases hin : isInside hl h = true
      · obtain ⟨hsorted', hfull', hcovers⟩ := ih hperm hsorted hrec hfull
        rw [addPlaces_inside hin]
        refine ⟨hsorted', hfull', fun i => ?_⟩
        rw [hcovers, taken, if_pos (hinside.1 hin), covers_cons]
        exact ⟨fun hi => hi.imp_right Or.inr, fun hi => hi.elim Or.inl fun hi =>
          hi.imp_left (covers_inside (hinside.1 hin))⟩
      · obtain ⟨hperm', hsorted'⟩ := settle_spec h hsorted
        have hnew : (settle hl.length (hl ++ [h])).Perm (h :: recorded) :=
          hperm'.trans (hperm.cons h)
        have hcount : (settle hl.length (hl ++ [h])).length = recorded.length + 1 :=
          hnew.length_eq
        have hrec' : Full (h :: recorded) := full_cons.2 ⟨hlen, hrec⟩
        by_cases hlast : recorded.length + 1 = maxHighLightTermNum - 1
        · rw [addPlaces_full hin (hcount.trans hlast)]
          refine ⟨hsorted', fun b hb => hrec' b (hnew.mem_iff.1 hb), fun i => ?_⟩
          rw [covers_perm hnew, taken, if_neg (mt hinside.2 hin), if_pos hlast, covers_cons,
            covers_cons, or_iff_left covers_nil, or_comm]
        · obtain ⟨hsorted'', hfull'', hcovers⟩ := ih hnew hsorted' hrec' hfull
          rw [addPlaces_next hin (by rw [hcount]; exact hlast)]
          refine ⟨hsorted'', hfull'', fun i => ?_⟩
          rw [hcovers, taken, if_neg (mt hinside.2 hin), if_neg hlast, covers_cons, covers_cons,
            or_left_comm, or_assoc]

theorem termOccurrences_spec {v : Bytes} {t : QueryTerm} : ∀ {rounds pf : Nat},
    pf ≤ v.length → ∀ h ∈ termOccurrences v t rounds pf, 0 < h.len ∧ h.stop ≤ v.length := by
  intro rounds
  induction rounds with
  | zero => exact fun _ h hh => nomatch hh
  | succ rounds ih =>
      intro pf hpf h hh
      rw [termOccurrences] at hh
      split at hh
      · next hlen =>
          split at hh
          · cases hh
          · next p hp =>
              have hle := strcasestrGBK_le hp
              rw [List.length_drop] at hle
              have hstop : pf + p + t.len ≤ v.length := by
                rw [QueryTerm.len]
                omega
              rcases List.mem_cons.1 hh with rfl | hh
              · exact ⟨hlen, hstop⟩
              · exact ih hstop h hh
      · cases hh

theorem found_spec {v : Bytes} {terms : List QueryTerm} :
    ∀ h ∈ found v terms, 0 < h.len ∧ h.stop ≤ v.length := by
  intro h hh
  obtain ⟨t, -, hh⟩ := List.mem_flatMap.1 ((taken_sublist _ _).subset hh)
  exact termOccurrences_spec (Nat.zero_le _) h hh

theorem found_full (v : Bytes) (terms : List QueryTerm) : Full (found v terms) :=
  fun h hh => (found_spec h hh).1

theorem found_within (v : Bytes) (terms : List QueryTerm) : Within v.length (found v terms) :=
  fun h hh => (found_spec h hh).2

theorem joinLoop_eq (cur : HighLight) (hl : List HighLight) : joinLoop cur hl = join cur hl := by
  induction hl generalizing cur with
  | nil => rfl
  | cons h hl ih =>
      have hmeet : h.offset ≤ cur.len + cur.offset ↔ h.offset ≤ cur.stop := by
        rw [Span.stop, Nat.add_comm]
      have hnew : (if cur.len < h.len + h.offset - cur.offset then
          ({ cur with len := h.len + h.offset - cur.offset } : HighLight) else cur) =
          ⟨cur.offset, max cur.stop h.stop - cur.offset⟩ := by
        have hlen : max cur.stop h.stop - cur.offset =
            max cur.len (h.len + h.offset - cur.offset) := by
          simp only [Span.stop]
          omega
        rw [hlen]
        split
        · next hlt => rw [Nat.max_eq_right (Nat.le_of_lt hlt)]
        · next hge => rw [Nat.max_eq_left (Nat.not_lt.1 hge)]
      rw [joinLoop, join]
      simp only [hmeet, hnew, ih]

theorem joinHighLights_eq (hl : List HighLight) : joinHighLights hl = joined hl := by
  cases hl with
  | nil => rfl
  | cons cur hl => exact joinLoop_eq cur hl

theorem highLights_eq (v : Bytes) (terms : List QueryTerm) :
    joinHighLights (searchTerms v terms []) = coalesce (found v terms) := by
  have hoccurrences : Full (terms.flatMap fun t => termOccurrences v t 5 0) := by
    intro h hh
    obtain ⟨t, -, hh⟩ := List.mem_flatMap.1 hh
    exact (termOccurrences_spec (Nat.zero_le _) h hh).1
  have hholds := addPlaces_holds (List.Perm.refl []) List.Pairwise.nil (fun _ h => nomatch h)
    hoccurrences
  rw [searchTerms_eq v (by decide), joinHighLights_eq]
  -- the places that were left out lie inside others, so nothing is missing
  refine joined_eq_coalesce hholds.sorted hholds.full (found_full v terms) fun i => ?_
  rw [hholds.covers, or_iff_right covers_nil, found]

end UiServer
