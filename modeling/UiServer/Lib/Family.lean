import Mathlib.Algebra.GroupWithZero.Nat
import UiServer.Lib.Progress

/-!
# Many copies of one system

A family is any number of copies of one system, in the order they were started.
Whether a new one can be started, and how, may depend on those that are there. A
step is one of a single member, and the others do not notice it.

So every member is where a run of its own can get to (`reach_member`), a fact
about two members that either of them keeps holds of any two (`pairwise_of_run`),
and when each member comes to its end the family does (`family_comes`).
-/

namespace Lts

universe u v w

variable {S : Type u} {E : Type v} {A : Type w} {start : List S → A → Option S}
  {step : S → E → Option S} {P : S → E → Prop} {I F : S → Prop} {rank : S → Nat}

inductive FamilyEvent (A : Type w) (E : Type v) where
  | start (a : A)
  | move (i : Nat) (e : E)

def family (start : List S → A → Option S) (step : S → E → Option S) (ss : List S) :
    FamilyEvent A E → Option (List S)
  | .start a => (start ss a).map fun s => ss ++ [s]
  | .move i e => ss[i]?.bind fun s => (step s e).map fun t => ss.set i t

/-- The condition that the steps of the members meet. -/
def OnMembers (P : S → E → Prop) (ss : List S) : FamilyEvent A E → Prop
  | .start _ => True
  | .move i e => ∀ s, ss[i]? = some s → P s e

/-- The same, and nothing is started any more. -/
def OnlyMoves (P : S → E → Prop) (ss : List S) : FamilyEvent A E → Prop
  | .start _ => False
  | .move i e => ∀ s, ss[i]? = some s → P s e

theorem family_start {ss ts : List S} {a : A} :
    family start step ss (.start a) = some ts ↔
      ∃ s, start ss a = some s ∧ ts = ss ++ [s] := by
  simp only [family, Option.map_eq_some_iff]
  exact exists_congr fun s => and_congr_right fun _ => eq_comm

theorem family_move {ss ts : List S} {i : Nat} {e : E} :
    family start step ss (.move i e) = some ts ↔
      ∃ s t, ss[i]? = some s ∧ step s e = some t ∧ ts = ss.set i t := by
  simp only [family, Option.bind_eq_some_iff, Option.map_eq_some_iff]
  constructor
  · rintro ⟨s, hs, t, ht, rfl⟩
    exact ⟨s, t, hs, ht, rfl⟩
  · rintro ⟨s, t, hs, ht, rfl⟩
    exact ⟨s, hs, t, ht, rfl⟩

/-! ## Each member by itself

A step of the family is a step of one member. Taken out of a run of the family,
the steps of a member are a run of it alone. -/

/-- What can become of a member. -/
def Member (start : List S → A → Option S) (step : S → E → Option S)
    (P : S → E → Prop) (s : S) : Prop :=
  ∃ ss a s₀, start ss a = some s₀ ∧ Reach step P s₀ s

/-- The projection: a member is reached by a run of its own. -/
theorem reach_member {ss : List S}
    (h : Reach (family start step) (OnMembers P) [] ss) :
    ∀ s ∈ ss, Member start step P s := by
  refine h.inv (I := fun ss => ∀ s ∈ ss, Member start step P s)
    (fun s hs => absurd hs List.not_mem_nil) fun {ss ts e} hI hP hs => ?_
  cases e with
  | start a =>
      obtain ⟨s, hstart, rfl⟩ := family_start.1 hs
      intro r hr
      rcases List.mem_append.1 hr with hr | hr
      · exact hI r hr
      · obtain rfl := List.mem_singleton.1 hr
        exact ⟨ss, a, r, hstart, .init⟩
  | move i e =>
      obtain ⟨s, t, hget, hstep, rfl⟩ := family_move.1 hs
      intro r hr
      rcases List.mem_or_eq_of_mem_set hr with hr | rfl
      · exact hI r hr
      · obtain ⟨before, a, s₀, hstart, hreach⟩ := hI s (List.mem_of_getElem? hget)
        exact ⟨before, a, s₀, hstart, hreach.next (hP s hget) hstep⟩

/-- And the other way round: a run of one member can happen while the others
wait. -/
theorem Reach.of_member {s₀ s : S} (h : Reach step P s₀ s) {init ss : List S}
    (hss : Reach (family start step) (OnMembers P) init (ss ++ [s₀])) :
    Reach (family start step) (OnMembers P) init (ss ++ [s]) := by
  induction h with
  | init => exact hss
  | @next s t e _ hP hs ih =>
      have hget : (ss ++ [s])[ss.length]? = some s := List.getElem?_concat_length
      refine ih.next (e := .move ss.length e) (fun r hr => ?_)
        (family_move.2 ⟨s, t, hget, hs, ?_⟩)
      · obtain rfl : s = r := Option.some.inj (hget.symm.trans hr)
        exact hP
      · rw [List.set_append_right _ _ (Nat.le_refl _), Nat.sub_self]
        rfl

/-! ## Two members

A relation of two members has to survive the steps of either. When a member is
started, it has to hold between it and all that are there. -/

theorem pairwise_set {R : S → S → Prop} {t : S} : ∀ {ss : List S} {i : Nat},
    ss.Pairwise R → (∀ s, ss[i]? = some s → ∀ r ∈ ss, (R r s → R r t) ∧ (R s r → R t r)) →
      (ss.set i t).Pairwise R := by
  intro ss
  induction ss with
  | nil => intro i h _; exact h
  | cons s ss ih =>
      intro i h hR
      obtain ⟨hs, hss⟩ := List.pairwise_cons.1 h
      cases i with
      | zero =>
          refine List.pairwise_cons.2 ⟨fun r hr => ?_, hss⟩
          exact (hR s rfl r (List.mem_cons_of_mem s hr)).2 (hs r hr)
      | succ i =>
          refine List.pairwise_cons.2 ⟨fun r hr => ?_, ih hss fun s' hget r hr =>
            hR s' hget r (List.mem_cons_of_mem s hr)⟩
          rcases List.mem_or_eq_of_mem_set hr with hr' | rfl
          · exact hs r hr'
          · -- the member that was there before stood to the first as it does
            by_cases hi : i < ss.length
            · have hget : ss[i]? = some ss[i] := List.getElem?_eq_getElem hi
              exact (hR ss[i] hget s List.mem_cons_self).1
                (hs ss[i] (List.getElem_mem hi))
            · rw [List.set_eq_of_length_le (Nat.le_of_not_lt hi)] at hr
              exact hs r hr

/-- A relation of each member to those started after it: starting one
establishes it, and no step of either of the two breaks it. -/
theorem pairwise_of_run {R : S → S → Prop}
    (hstart : ∀ {ss : List S} {a : A} {s : S}, (∀ r ∈ ss, Member start step P r) →
      start ss a = some s → ∀ r ∈ ss, R r s)
    (hfirst : ∀ {r s t : S} {e : E}, Member start step P r → P r e → step r e = some t →
      R r s → R t s)
    (hsecond : ∀ {r s t : S} {e : E}, Member start step P r → step s e = some t →
      R r s → R r t)
    {ss : List S} (h : Reach (family start step) (OnMembers P) [] ss) :
    ss.Pairwise R := by
  induction h with
  | init => exact .nil
  | @next ss ts e hreach hP hs ih =>
      have hmember := reach_member hreach
      cases e with
      | start a =>
          obtain ⟨s, hnew, rfl⟩ := family_start.1 hs
          refine List.pairwise_append.2 ⟨ih, List.pairwise_singleton R s, fun r hr q hq => ?_⟩
          obtain rfl := List.mem_singleton.1 hq
          exact hstart hmember hnew r hr
      | move i e =>
          obtain ⟨s, t, hget, hstep, rfl⟩ := family_move.1 hs
          refine pairwise_set ih fun s' hget' r hr => ?_
          obtain rfl : s = s' := Option.some.inj (hget.symm.trans hget')
          exact ⟨hsecond (hmember r hr) hstep,
            hfirst (hmember s (List.mem_of_getElem? hget)) (hP s hget) hstep⟩

/-! ## Coming to the end

Each member has a rank that its steps lower. A step lowers the rank of one member
and leaves the others, so the sum of the ranks goes down until all of them have
come to their end. -/

theorem sum_set_lt {t : S} : ∀ {ss : List S} {i : Nat} {s : S}, ss[i]? = some s →
    rank t < rank s → ((ss.set i t).map rank).sum < (ss.map rank).sum := by
  intro ss
  induction ss with
  | nil => intro i s h _; exact absurd h.symm (Option.some_ne_none s)
  | cons r ss ih =>
      intro i s h hlt
      cases i with
      | zero =>
          obtain rfl : r = s := Option.some.inj h
          simp only [List.set_cons_zero, List.map_cons, List.sum_cons]
          omega
      | succ i =>
          have hrest := ih (i := i) h hlt
          simp only [List.set_cons_succ, List.map_cons, List.sum_cons]
          omega

/-- When nothing is started any more and every member comes to its end, so does
the family: the rank of the whole is the sum of the ranks. -/
theorem family_comes
    (hstep : ∀ {s t : S} {e : E}, I s → P s e → step s e = some t → I t)
    (hrank : ∀ {s t : S} {e : E}, I s → P s e → step s e = some t → rank t < rank s)
    (hnext : ∀ {s : S}, I s → F s ∨ CanGoOn step P s) {ss : List S} (hI : ∀ s ∈ ss, I s) :
    Comes (family start step) (OnlyMoves P) (fun ss => ∀ s ∈ ss, F s)
      (ss.map rank).sum ss := by
  refine @comes_of_rank _ _ (family start step) (OnlyMoves P) (fun ss => ∀ s ∈ ss, I s)
    (fun ss => ∀ s ∈ ss, F s) (fun ss => (ss.map rank).sum) ?_ ?_ ?_ ss hI
  · intro ss ts e hI hP hs
    cases e with
    | start a => exact absurd hP id
    | move i e =>
        obtain ⟨s, t, hget, hst, rfl⟩ := family_move.1 hs
        intro r hr
        rcases List.mem_or_eq_of_mem_set hr with hr | rfl
        · exact hI r hr
        · exact hstep (hI s (List.mem_of_getElem? hget)) (hP s hget) hst
  · intro ss ts e hI hP hs
    cases e with
    | start a => exact absurd hP id
    | move i e =>
        obtain ⟨s, t, hget, hst, rfl⟩ := family_move.1 hs
        exact sum_set_lt hget (hrank (hI s (List.mem_of_getElem? hget)) (hP s hget) hst)
  · intro ss hI
    by_cases hF : ∀ s ∈ ss, F s
    · exact .inl hF
    · obtain ⟨s, hs, hnot⟩ : ∃ s, s ∈ ss ∧ ¬ F s := by
        simpa only [not_forall, exists_prop] using hF
      obtain ⟨i, hi, hget⟩ := List.mem_iff_getElem.1 hs
      have hget' : ss[i]? = some s := List.getElem?_eq_some_iff.2 ⟨hi, hget⟩
      obtain ⟨e, hP, he⟩ := (hnext (hI s hs)).resolve_left hnot
      refine .inr ⟨.move i e, fun r hr => ?_, ?_⟩
      · obtain rfl : s = r := Option.some.inj (hget'.symm.trans hr)
        exact hP
      · obtain ⟨t, ht⟩ := Option.isSome_iff_exists.1 he
        rw [family_move.2 ⟨s, t, hget', ht, rfl⟩]
        rfl

end Lts
