import Mathlib.Logic.Basic

/-!
# Runs of a partial step function

A system is given by `step : S → E → Option S`: `none` says that the event
cannot happen in the state. Everything said here is about whole runs, and
every rule reduces it to one step.

Two ways to name a run are kept. `Reach` is the set of states a run can get
to while its steps meet a condition, which is what a safety property over
all runs quantifies over. `run`, with `Steps`, `States` and `SomeStep` beside
it, keeps the list of events, which is what a statement needs that compares
the steps of a run with the states it passes through.
-/

namespace Lts

universe u v

variable {S : Type u} {E : Type v}

/-- The states a run from `s₀` can be in when each of its steps meets `P`, a
condition on the state before the step and on the event. -/
inductive Reach (step : S → E → Option S) (P : S → E → Prop) (s₀ : S) : S → Prop
  | init : Reach step P s₀ s₀
  | next {s t : S} {e : E} : Reach step P s₀ s → P s e → step s e = some t →
      Reach step P s₀ t

/-- The invariant rule: what holds at the start and is kept by every step
that meets the condition holds in every state reached. -/
theorem Reach.inv {step : S → E → Option S} {P : S → E → Prop} {s₀ s : S}
    {I : S → Prop} (h : Reach step P s₀ s) (h₀ : I s₀)
    (hstep : ∀ {s t : S} {e : E}, I s → P s e → step s e = some t → I t) :
    I s := by
  induction h with
  | init => exact h₀
  | next _ hP hs ih => exact hstep ih hP hs

/-- The state after the events, taken in order; `none` when one of them
cannot happen. -/
def run (step : S → E → Option S) : S → List E → Option S
  | s, [] => some s
  | s, e :: es => (step s e).bind fun t => run step t es

theorem run_cons {step : S → E → Option S} {s u : S} {e : E} {es : List E} :
    run step s (e :: es) = some u ↔
      ∃ t, step s e = some t ∧ run step t es = some u := by
  simp only [run, Option.bind_eq_some_iff]

theorem run_append {step : S → E → Option S} {es fs : List E} :
    ∀ {s u : S}, run step s (es ++ fs) = some u ↔
      ∃ t, run step s es = some t ∧ run step t fs = some u := by
  induction es with
  | nil =>
      intro s u
      exact ⟨fun h => ⟨s, rfl, h⟩, fun ⟨t, ht, h⟩ => by cases ht; exact h⟩
  | cons e es ih =>
      intro s u
      rw [List.cons_append, run_cons]
      simp only [ih, run_cons]
      exact ⟨fun ⟨m, hm, t, ht, hu⟩ => ⟨t, ⟨m, hm, ht⟩, hu⟩,
        fun ⟨t, ⟨m, hm, ht⟩, hu⟩ => ⟨m, hm, t, ht, hu⟩⟩

theorem run_inv {step : S → E → Option S} {I : S → Prop}
    (hstep : ∀ {s t : S} {e : E}, I s → step s e = some t → I t) {es : List E} :
    ∀ {s u : S}, I s → run step s es = some u → I u := by
  induction es with
  | nil =>
      intro s u hI h
      cases h
      exact hI
  | cons e es ih =>
      intro s u hI h
      obtain ⟨t, ht, hu⟩ := run_cons.1 h
      exact ih (hstep hI ht) hu

/-- Events offered in order until one of them cannot happen: the state then,
and the events that were not taken. -/
def feed (step : S → E → Option S) : S → List E → S × List E
  | s, [] => (s, [])
  | s, e :: es =>
      match step s e with
      | some t => feed step t es
      | none => (s, e :: es)

theorem feed_singleton {step : S → E → Option S} {s t : S} {e : E}
    (h : step s e = some t) : feed step s [e] = (t, []) := by
  simp only [feed, h]

/-- Every step of the run of `es` from `s` meets `P`. -/
def Steps (step : S → E → Option S) (P : S → E → Prop) : S → List E → Prop
  | _, [] => True
  | s, e :: es => P s e ∧ ∀ t, step s e = some t → Steps step P t es

/-- Every state of the run of `es` from `s`, the first one included, meets
`Q`. -/
def States (step : S → E → Option S) (Q : S → Prop) : S → List E → Prop
  | s, [] => Q s
  | s, e :: es => Q s ∧ ∀ t, step s e = some t → States step Q t es

/-- Some step of the run of `es` from `s` meets `P`. -/
def SomeStep (step : S → E → Option S) (P : S → E → Prop) : S → List E → Prop
  | _, [] => False
  | s, e :: es => P s e ∨ ∃ t, step s e = some t ∧ SomeStep step P t es

theorem Steps.after {step : S → E → Option S} {P : S → E → Prop} {es fs : List E} :
    ∀ {s t : S}, Steps step P s (es ++ fs) → run step s es = some t →
      Steps step P t fs := by
  induction es with
  | nil =>
      intro s t h ht
      cases ht
      exact h
  | cons e es ih =>
      intro s t h ht
      obtain ⟨m, hm, hrest⟩ := run_cons.1 ht
      exact ih (h.2 m hm) hrest

theorem steps_cons {step : S → E → Option S} {P : S → E → Prop} {s : S} {e : E}
    {es : List E} (h : P s e) (hrest : Steps step P ((step s e).getD s) es) :
    Steps step P s (e :: es) := by
  refine ⟨h, fun t ht => ?_⟩
  rw [ht] at hrest
  exact hrest

/-- Every step of the run of `es` from `s` passes the test `p`. -/
def passes (step : S → E → Option S) (p : S → E → Bool) : S → List E → Bool
  | _, [] => true
  | s, e :: es => p s e && (step s e).all fun t => passes step p t es

theorem steps_of_passes {step : S → E → Option S} {p : S → E → Bool} {P : S → E → Prop}
    (hp : ∀ {s : S} {e : E}, p s e = true → P s e) {es : List E} :
    ∀ {s : S}, passes step p s es = true → Steps step P s es := by
  induction es with
  | nil => exact fun _ => trivial
  | cons e es ih =>
      intro s h
      obtain ⟨hhere, hrest⟩ := Bool.and_eq_true_iff.1 h
      refine ⟨hp hhere, fun t ht => ih ?_⟩
      rwa [ht, Option.all_some] at hrest

theorem reach_of_run {step : S → E → Option S} {P : S → E → Prop} {es : List E} :
    ∀ {s₀ s t : S}, Reach step P s₀ s → run step s es = some t →
      Steps step P s es → Reach step P s₀ t := by
  induction es with
  | nil =>
      intro s₀ s t hr h _
      cases h
      exact hr
  | cons e es ih =>
      intro s₀ s t hr h hs
      obtain ⟨m, hm, hrest⟩ := run_cons.1 h
      exact ih (.next hr hs.1 hm) hrest (hs.2 m hm)

theorem states_of_steps {step : S → E → Option S} {P : S → E → Prop}
    {I Q : S → Prop}
    (hstep : ∀ {s t : S} {e : E}, I s → P s e → step s e = some t → I t)
    (hQ : ∀ {s : S}, I s → Q s) {es : List E} :
    ∀ {s : S}, I s → Steps step P s es → States step Q s es := by
  induction es with
  | nil => intro s hI _; exact hQ hI
  | cons e es ih =>
      intro s hI hs
      exact ⟨hQ hI, fun t ht => ih (hstep hI hs.1 ht) (hs.2 t ht)⟩

/-- The exact condition on runs: when a step that meets `P` keeps the
invariant and one that does not leads at once to a state outside `Q`, the
runs all of whose states meet `Q` are those all of whose steps meet `P`. -/
theorem states_iff_steps {step : S → E → Option S} {P : S → E → Prop}
    {I Q : S → Prop}
    (hstep : ∀ {s t : S} {e : E}, I s → P s e → step s e = some t → I t)
    (hbad : ∀ {s t : S} {e : E}, I s → ¬ P s e → step s e = some t → ¬ Q t)
    (hQ : ∀ {s : S}, I s → Q s) {es : List E} :
    ∀ {s u : S}, I s → run step s es = some u →
      (States step Q s es ↔ Steps step P s es) := by
  induction es with
  | nil => intro s u hI _; exact ⟨fun _ => trivial, fun _ => hQ hI⟩
  | cons e es ih =>
      intro s u hI hrun
      refine ⟨?_, states_of_steps hstep hQ hI⟩
      rintro ⟨_, hrest⟩
      obtain ⟨t, ht, hu⟩ := run_cons.1 hrun
      have hst := hrest t ht
      have hQt : Q t := by
        cases es with
        | nil => exact hst
        | cons _ _ => exact hst.1
      have hP : P s e :=
        Classical.byContradiction fun hP => hbad hI hP ht hQt
      refine ⟨hP, fun t' ht' => ?_⟩
      obtain rfl : t = t' := Option.some.inj (ht.symm.trans ht')
      exact (ih (hstep hI hP ht) hu).1 hst

/-- Two conditions on steps that mean the same as long as an invariant holds,
which a step that meets them keeps, mean the same on whole runs. -/
theorem steps_iff_steps {step : S → E → Option S} {P Q : S → E → Prop} {I : S → Prop}
    (hstep : ∀ {s t : S} {e : E}, I s → Q s e → step s e = some t → I t)
    (hPQ : ∀ {s t : S} {e : E}, I s → step s e = some t → (P s e ↔ Q s e))
    {es : List E} : ∀ {s u : S}, I s → run step s es = some u →
      (Steps step P s es ↔ Steps step Q s es) := by
  induction es with
  | nil => intro s u _ _; exact ⟨fun _ => trivial, fun _ => trivial⟩
  | cons e es ih =>
      intro s u hI hrun
      obtain ⟨t, ht, hu⟩ := run_cons.1 hrun
      have hiff := hPQ hI ht
      refine ⟨fun h => ⟨hiff.1 h.1, fun t' ht' => ?_⟩,
        fun h => ⟨hiff.2 h.1, fun t' ht' => ?_⟩⟩
      · obtain rfl : t = t' := Option.some.inj (ht.symm.trans ht')
        exact (ih (hstep hI (hiff.1 h.1) ht) hu).1 (h.2 t ht)
      · obtain rfl : t = t' := Option.some.inj (ht.symm.trans ht')
        exact (ih (hstep hI h.1 ht) hu).2 (h.2 t ht)

/-- When each step of a run settles a fact exactly if it meets `P`, and a
settled fact stays settled, the fact holds at the end exactly if it held at
the start or some step met `P`. -/
theorem settled_iff_someStep {step : S → E → Option S} {P : S → E → Prop}
    {I F : S → Prop}
    (hstep : ∀ {s t : S} {e : E}, I s → step s e = some t → I t)
    (hF : ∀ {s t : S} {e : E}, I s → step s e = some t → (F t ↔ F s ∨ P s e))
    {es : List E} : ∀ {s u : S}, I s → run step s es = some u →
      (F u ↔ F s ∨ SomeStep step P s es) := by
  induction es with
  | nil =>
      intro s u _ h
      cases h
      simp [SomeStep]
  | cons e es ih =>
      intro s u hI hrun
      obtain ⟨t, ht, hu⟩ := run_cons.1 hrun
      rw [ih (hstep hI ht) hu, hF hI ht, SomeStep, or_assoc]
      refine or_congr Iff.rfl (or_congr Iff.rfl ⟨fun h => ⟨t, ht, h⟩, ?_⟩)
      rintro ⟨t', ht', h⟩
      obtain rfl : t = t' := Option.some.inj (ht.symm.trans ht')
      exact h

/-- The rule for an invariant that also looks at the events to come. -/
theorem steps_of_inv {step : S → E → Option S} {Q : S → E → Prop}
    {I : S → List E → Prop}
    (hQ : ∀ {s : S} {e : E} {es : List E}, I s (e :: es) → Q s e)
    (hstep : ∀ {s t : S} {e : E} {es : List E}, I s (e :: es) → step s e = some t →
      I t es) {es : List E} : ∀ {s : S}, I s es → Steps step Q s es := by
  induction es with
  | nil => intro s _; trivial
  | cons e es ih => intro s hI; exact ⟨hQ hI, fun t ht => ih (hstep hI ht)⟩

/-- Two copies of the system side by side: an event happens when it can happen
in both. -/
def pair (step : S → E → Option S) (x : S × S) (e : E) : Option (S × S) :=
  (step x.1 e).bind fun s => (step x.2 e).map fun t => (s, t)

theorem pair_eq_some {step : S → E → Option S} {x y : S × S} {e : E} :
    pair step x e = some y ↔ step x.1 e = some y.1 ∧ step x.2 e = some y.2 := by
  rw [pair, Option.bind_eq_some_iff]
  constructor
  · rintro ⟨s, hs, hmap⟩
    obtain ⟨t, ht, rfl⟩ := Option.map_eq_some_iff.1 hmap
    exact ⟨hs, ht⟩
  · rintro ⟨hs, ht⟩
    exact ⟨y.1, hs, by rw [ht]; rfl⟩

end Lts
