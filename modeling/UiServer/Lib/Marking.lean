import Mathlib.Data.List.Destutter
import UiServer.Lib.Intervals

/-!
# Marking while a text is copied

A text is copied byte by byte, and an interval is marked when the copy is where it
begins. Of the intervals that begin at one place the first is taken, and the one after it
is only looked at behind it. So the marking stops for good at an interval that begins in
front of where the copy is (`begun`): those behind it are lost, wherever they begin.

`begun_marks_iff` says when each interval of the text is marked or begins inside one that
is.
-/

namespace Intervals

/-- Of those that begin at one place, the first. -/
def firsts (hs : List Span) : List Span := hs.destutter fun a b => a.offset ≠ b.offset

/-- Those that are marked in a text of `n` bytes, from `pf` on. -/
def begun (n : Nat) : Nat → List Span → List Span
  | _, [] => []
  | pf, h :: hs => if pf ≤ h.offset ∧ h.offset < n then h :: begun n h.stop hs else []

/-- The interval lies in a text of `n` bytes. -/
def InText (n : Nat) (h : Span) : Prop := h.offset < n ∧ h.stop ≤ n

instance (n : Nat) (h : Span) : Decidable (InText n h) := inferInstanceAs (Decidable (_ ∧ _))

/-- The interval is marked, or it begins inside one that is. -/
def Marked (hs : List Span) (h : Span) : Prop := h ∈ hs ∨ Covers hs h.offset

instance (hs : List Span) (h : Span) : Decidable (Marked hs h) :=
  inferInstanceAs (Decidable (h ∈ hs ∨ ∃ a ∈ hs, a.offset ≤ h.offset ∧ h.offset < a.stop))

/-! ## Those that begin at one place

In a sorted list they stand next to each other, so what is kept of them rises. -/

/-- Each begins behind the one before. -/
def Ascending (hs : List Span) : Prop := hs.Pairwise fun a b => a.offset < b.offset

theorem ascending_cons {h : Span} {hs : List Span} :
    Ascending (h :: hs) ↔ From (h.offset + 1) hs ∧ Ascending hs := List.pairwise_cons

theorem firsts_ascending {hs : List Span} (h : Sorted hs) : Ascending (firsts hs) := by
  have hle : (firsts hs).IsChain fun a b => a.offset ≤ b.offset :=
    (h.sublist (List.destutter_sublist _ hs)).isChain
  have hne := List.isChain_destutter (fun a b : Span => a.offset ≠ b.offset) hs
  have hlt : (firsts hs).IsChain fun a b => a.offset < b.offset := by
    rw [List.isChain_iff_forall_rel_of_append_cons_cons] at hle hne ⊢
    exact fun a b pre post heq => Nat.lt_of_le_of_ne (hle heq) (hne heq)
  have htrans : IsTrans Span fun a b => a.offset < b.offset := ⟨fun _ _ _ => Nat.lt_trans⟩
  exact hlt.pairwise

theorem exists_first {hs : List Span} {t : Span} (h : t ∈ hs) :
    ∃ g ∈ firsts hs, g.offset = t.offset := by
  cases hs with
  | nil => exact nomatch h
  | cons a hs =>
      rw [firsts, List.destutter_cons']
      induction hs generalizing a with
      | nil => exact ⟨a, List.mem_singleton_self a, by rw [List.mem_singleton.1 h]⟩
      | cons b hs ih =>
          rcases List.mem_cons.1 h with rfl | hb
          · exact ⟨t, List.mem_destutter' _ _ t, rfl⟩
          · rw [List.destutter'_cons]
            split
            · obtain ⟨g, hg, heq⟩ := ih b hb
              exact ⟨g, List.mem_cons_of_mem _ hg, heq⟩
            · next hsame =>
                rcases List.mem_cons.1 hb with rfl | hmem
                · exact ⟨a, List.mem_destutter' _ _ a, not_not.1 hsame⟩
                · exact ih a (List.mem_cons_of_mem _ hmem)

/-! ## What is marked

What is marked is in order and begins where the copy was. The marking ends with
the text or in front of an interval that begins inside the one marked last. -/

theorem begun_sublist {n : Nat} {hs : List Span} : ∀ pf, (begun n pf hs).Sublist hs := by
  induction hs with
  | nil => exact fun _ => List.Sublist.refl _
  | cons h hs ih =>
      intro pf
      rw [begun]
      split
      · exact (ih _).cons_cons h
      · exact List.nil_sublist _

theorem begun_inOrder {n : Nat} {hs : List Span} :
    ∀ pf, From pf (begun n pf hs) ∧ InOrder (begun n pf hs) := by
  induction hs with
  | nil => exact fun _ => ⟨nofun, List.Pairwise.nil⟩
  | cons h hs ih =>
      intro pf
      obtain ⟨hfrom, horder⟩ := ih h.stop
      rw [begun]
      split
      · next hgo =>
          refine ⟨fun b hb => ?_, inOrder_cons.2 ⟨hfrom, horder⟩⟩
          rcases List.mem_cons.1 hb with rfl | hb
          · exact hgo.1
          · have hstop : h.offset ≤ h.stop := Nat.le_add_right _ _
            exact Nat.le_trans hgo.1 (Nat.le_trans hstop (hfrom b hb))
      · exact ⟨nofun, List.Pairwise.nil⟩

/-- Nothing is marked behind the text. -/
theorem begun_end {n pf : Nat} (h : n ≤ pf) (hs : List Span) : begun n pf hs = [] := by
  cases hs with
  | nil => rfl
  | cons a hs => exact if_neg fun hgo => by omega

/-- Where the marking stops: behind the text, or inside what was marked last. -/
theorem begun_split {n : Nat} {hs : List Span} : ∀ pf, ∃ rest, hs = begun n pf hs ++ rest ∧
    ∀ u post, rest = u :: post → n ≤ u.offset ∨ begun n pf hs = [] ∧ u.offset < pf ∨
      ∃ pre h, begun n pf hs = pre ++ [h] ∧ u.offset < h.stop := by
  induction hs with
  | nil => exact fun _ => ⟨[], rfl, nofun⟩
  | cons h hs ih =>
      intro pf
      rw [begun]
      split
      · obtain ⟨rest, hrest, hwhy⟩ := ih h.stop
        refine ⟨rest, congrArg (h :: ·) hrest, fun u post heq => ?_⟩
        rcases hwhy u post heq with hbehind | ⟨hnone, hinside⟩ | ⟨pre, g, hlast, hinside⟩
        · exact Or.inl hbehind
        · exact Or.inr (Or.inr ⟨[], h, by rw [hnone]; rfl, hinside⟩)
        · exact Or.inr (Or.inr ⟨h :: pre, g, by rw [hlast]; rfl, hinside⟩)
      · next hgo =>
          refine ⟨h :: hs, rfl, fun u post heq => ?_⟩
          obtain ⟨rfl, -⟩ := List.cons.inj heq
          by_cases hpf : pf ≤ h.offset
          · exact Or.inl (Nat.not_lt.1 fun hlt => hgo ⟨hpf, hlt⟩)
          · exact Or.inr (Or.inl ⟨rfl, Nat.not_le.1 hpf⟩)

/-- Intervals in order are marked as far as the text goes. -/
theorem begun_append {n : Nat} {h : Span} {post pre : List Span} : ∀ {pf : Nat},
    Ascending (pre ++ h :: post) → InOrder (pre ++ [h]) → From pf (pre ++ [h]) → h.offset < n →
      begun n pf (pre ++ h :: post) = pre ++ h :: begun n h.stop post := by
  induction pre with
  | nil =>
      intro pf _ _ hfrom hlt
      exact if_pos ⟨hfrom h (List.mem_cons_self ..), hlt⟩
  | cons a pre ih =>
      intro pf hasc horder hfrom hlt
      obtain ⟨hbehind, hasc⟩ := ascending_cons.1 hasc
      obtain ⟨hstop, horder⟩ := inOrder_cons.1 horder
      have ha : a.offset < h.offset := hbehind h (by simp)
      rw [List.cons_append, begun, if_pos ⟨hfrom a (List.mem_cons_self ..), Nat.lt_trans ha hlt⟩,
        ih hasc horder hstop hlt]
      rfl

/-! ## What is lost

Behind the place where the marking stops an interval that begins in the text is
lost. The other loss is at one place: of the intervals that begin there the first
is taken, and when there is nothing in it, it does not cover where the others
begin. -/

/-- The intervals up to `h` are in order, and one begins inside it. -/
def StopsAt (fs : List Span) (h : Span) : Prop :=
  ∃ pre u post, fs = pre ++ h :: u :: post ∧ InOrder (pre ++ [h]) ∧ u.offset < h.stop

/-- The intervals up to `h` are in order, and there is nothing in it. -/
def HidesAt (fs : List Span) (h : Span) : Prop :=
  ∃ pre post, fs = pre ++ h :: post ∧ InOrder (pre ++ [h]) ∧ h.len = 0

/-- No interval of a text of `n` bytes is lost: behind the place where the marking stops
none begins, and only empty ones begin where an empty one is taken. -/
structure NoneLost (n : Nat) (hs : List Span) : Prop where
  stop : ∀ h, StopsAt (firsts hs) h → ∀ t ∈ hs, InText n t → t.offset < h.stop
  empty : ∀ h, HidesAt (firsts hs) h → ∀ t ∈ hs, InText n t → t.offset = h.offset → t.len = 0

section

variable {n : Nat} {hs pre post : List Span} {h t : Span}

/-- Behind what is in order, only what is marked later counts. -/
theorem marked_behind (hasc : Ascending (pre ++ h :: post)) (horder : InOrder (pre ++ [h]))
    (hlt : h.offset < n) (ht : h.offset ≤ t.offset) (hm : Marked (begun n 0 (pre ++ h :: post)) t) :
    t = h ∨ h.Has t.offset ∨ Marked (begun n h.stop post) t := by
  rw [begun_append hasc horder (fun _ _ => Nat.zero_le _) hlt] at hm
  obtain ⟨-, -, hacross⟩ := List.pairwise_append.1 hasc
  obtain ⟨-, -, hends⟩ := List.pairwise_append.1 horder
  rcases hm with hmem | ⟨s, hs, hhas⟩
  · rcases List.mem_append.1 hmem with hpre | hrest
    · have hbefore : t.offset < h.offset := hacross t hpre h (List.mem_cons_self ..)
      omega
    · rcases List.mem_cons.1 hrest with rfl | hlater
      · exact Or.inl rfl
      · exact Or.inr (Or.inr (Or.inl hlater))
  · rcases List.mem_append.1 hs with hpre | hrest
    · have hend : s.stop ≤ h.offset := hends s hpre h (List.mem_singleton_self h)
      have hin : t.offset < s.stop := hhas.2
      omega
    · rcases List.mem_cons.1 hrest with rfl | hlater
      · exact Or.inr (Or.inl hhas)
      · exact Or.inr (Or.inr (Or.inr ⟨s, hlater, hhas⟩))

/-- Nothing that begins at `t` or in front of it is marked behind `h`. -/
theorem not_marked_from {pf : Nat} (hfrom : From (t.offset + 1) post) :
    ¬ Marked (begun n pf post) t := by
  rintro (hmem | ⟨s, hs, hhas⟩)
  · have hbehind := hfrom t ((begun_sublist pf).subset hmem)
    omega
  · have hbehind := hfrom s ((begun_sublist pf).subset hs)
    have hin : s.offset ≤ t.offset := hhas.1
    omega

theorem noneLost_of_marked (hsorted : Sorted hs)
    (hall : ∀ t ∈ hs, InText n t → Marked (begun n 0 (firsts hs)) t) : NoneLost n hs := by
  have hasc := firsts_ascending hsorted
  constructor
  · rintro h ⟨pre, u, post, hsplit, horder, hinside⟩ t ht htext
    by_contra hnot
    have hstop : h.stop ≤ t.offset := Nat.not_lt.1 hnot
    have htn : t.offset < n := htext.1
    rw [hsplit] at hasc
    have hnext : h.offset < u.offset := (ascending_cons.1 (List.pairwise_append.1 hasc).2.1).1 u
      (List.mem_cons_self ..)
    have hm := hall t ht htext
    rw [hsplit] at hm
    have hnone : begun n h.stop (u :: post) = [] := if_neg fun hgo => by omega
    rcases marked_behind hasc horder (by omega) (by omega) hm with rfl | hhas | hlater
    · omega
    · exact hnot hhas.2
    · rw [hnone] at hlater
      rcases hlater with hmem | hcov
      · exact nomatch hmem
      · exact covers_nil hcov
  · rintro h ⟨pre, post, hsplit, horder, hempty⟩ t ht htext heq
    rw [hsplit] at hasc
    have hm := hall t ht htext
    rw [hsplit] at hm
    have hfrom : From (t.offset + 1) post := by
      rw [heq]
      exact (ascending_cons.1 (List.pairwise_append.1 hasc).2.1).1
    rcases marked_behind hasc horder (heq ▸ htext.1) (Nat.le_of_eq heq.symm) hm with
      rfl | hhas | hlater
    · exact hempty
    · have hin : t.offset < h.offset + h.len := hhas.2
      omega
    · exact absurd hlater (not_marked_from hfrom)

theorem NoneLost.marked (hnone : NoneLost n hs) (hsorted : Sorted hs) (ht : t ∈ hs)
    (htext : InText n t) : Marked (begun n 0 (firsts hs)) t := by
  have hasc := firsts_ascending hsorted
  obtain ⟨-, horder⟩ := @begun_inOrder n (firsts hs) 0
  obtain ⟨rest, hsplit, hwhy⟩ := @begun_split n (firsts hs) 0
  obtain ⟨g, hg, hgt⟩ := exists_first ht
  rw [hsplit] at hg
  rcases List.mem_append.1 hg with hbegun | hrest
  · -- the first one that begins where `t` does is marked
    by_cases hlen : 0 < g.len
    · exact Or.inr ⟨g, hbegun, hgt ▸ g.has_offset hlen⟩
    · obtain ⟨pre, post, hin⟩ := List.append_of_mem hbegun
      have hpre : InOrder (pre ++ [g]) := by
        rw [hin] at horder
        exact horder.sublist (by simp)
      have hhides : HidesAt (firsts hs) g :=
        ⟨pre, post ++ rest, by rw [hsplit, hin]; simp, hpre, by omega⟩
      have hzero := hnone.empty g hhides t ht htext hgt.symm
      have hsame : t = g := by
        obtain ⟨offset, len⟩ := t
        obtain ⟨offset', len'⟩ := g
        simp only at hgt hzero hlen
        rw [hgt, hzero, Nat.eq_zero_of_not_pos hlen]
      exact Or.inl (hsame ▸ hbegun)
  · -- it is not, and then `t` begins inside the last one that is
    obtain ⟨u, post, rfl⟩ := List.exists_cons_of_ne_nil (List.ne_nil_of_mem hrest)
    have hug : u.offset ≤ g.offset := by
      rw [hsplit] at hasc
      rcases List.mem_cons.1 hrest with rfl | hpost
      · exact Nat.le_refl _
      · exact Nat.le_of_lt ((ascending_cons.1 (List.pairwise_append.1 hasc).2.1).1 g hpost)
    have htn : t.offset < n := htext.1
    rcases hwhy u post rfl with hbehind | ⟨-, hneg⟩ | ⟨pre, h, hlast, hinside⟩
    · omega
    · exact absurd hneg (Nat.not_lt_zero _)
    · have hstops : StopsAt (firsts hs) h :=
        ⟨pre, u, post, by rw [hsplit, hlast]; simp, hlast ▸ horder, hinside⟩
      have hbefore : h.offset < u.offset := by
        rw [hsplit, hlast] at hasc
        exact (List.pairwise_append.1 hasc).2.2 h (by simp) u (List.mem_cons_self ..)
      refine Or.inr ⟨h, by rw [hlast]; simp, ?_, hnone.stop h hstops t ht htext⟩
      omega

/-- Each interval of the text is marked or begins inside a marked one, if and only if none
is lost. -/
theorem begun_marks_iff (hsorted : Sorted hs) :
    (∀ t ∈ hs, InText n t → Marked (begun n 0 (firsts hs)) t) ↔ NoneLost n hs :=
  ⟨noneLost_of_marked hsorted, fun hnone _ ht htext => hnone.marked hsorted ht htext⟩

end

end Intervals
