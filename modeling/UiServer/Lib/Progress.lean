import UiServer.Lib.Lts

/-!
# Runs that come to their end

Two rules about the runs whose steps meet a condition. When every such step
lowers a rank, no run is longer than the rank of the state it starts in. When a
step can be taken wherever the end was not reached, a run that cannot go on has
reached it. Together they say that whatever order the events come in, the end is
reached: `Comes` names that, and `comes_of_rank` is the rule. A run that has a step of
some kind has a last one (`run_last`), and what each step adds to a number or folds into
a part of the state adds up over the run (`run_balance`, `run_foldl`).
-/

namespace Lts

universe u v

variable {S : Type u} {E : Type v} {step : S → E → Option S} {P : S → E → Prop}
  {I F : S → Prop} {rank : S → Nat}

theorem steps_inv (hstep : ∀ {s t : S} {e : E}, I s → P s e → step s e = some t → I t)
    {es : List E} : ∀ {s t : S}, I s → run step s es = some t → Steps step P s es → I t := by
  induction es with
  | nil =>
      intro s t hI h _
      cases h
      exact hI
  | cons e es ih =>
      intro s t hI h hs
      obtain ⟨m, hm, hrest⟩ := run_cons.1 h
      exact ih (hstep hI hs.1 hm) hrest (hs.2 m hm)

theorem Steps.before {es fs : List E} : ∀ {s : S}, Steps step P s (es ++ fs) →
    Steps step P s es := by
  induction es with
  | nil => exact fun _ => trivial
  | cons e es ih => exact fun h => ⟨h.1, fun t ht => ih (h.2 t ht)⟩

theorem steps_mem {es : List E} : ∀ {s t : S}, run step s es = some t → Steps step P s es →
    ∀ e ∈ es, ∃ m, P m e := by
  induction es with
  | nil => exact fun _ _ e he => absurd he List.not_mem_nil
  | cons e es ih =>
      intro s t h hs
      obtain ⟨m, hm, hrest⟩ := run_cons.1 h
      exact List.forall_mem_cons.2 ⟨⟨s, hs.1⟩, ih hrest (hs.2 m hm)⟩

/-- A run either has no event of a kind, or is split by the last one. -/
theorem run_last (p : E → Bool) {es : List E} : ∀ {s u : S}, run step s es = some u →
    (∀ e ∈ es, p e = false) ∨
      ∃ pre e post c d, es = pre ++ e :: post ∧ p e = true ∧ (∀ e ∈ post, p e = false) ∧
        run step s pre = some c ∧ step c e = some d ∧ run step d post = some u := by
  induction es with
  | nil => exact fun _ => .inl fun _ he => absurd he List.not_mem_nil
  | cons e es ih =>
      intro s u h
      obtain ⟨t, ht, hrest⟩ := run_cons.1 h
      rcases ih hrest with hno | ⟨pre, f, post, c, d, rfl, hf, hpost, hc, hd, hu⟩
      · cases he : p e with
        | false => exact .inl (List.forall_mem_cons.2 ⟨he, hno⟩)
        | true => exact .inr ⟨[], e, es, s, t, rfl, he, hno, rfl, ht, hrest⟩
      · exact .inr ⟨e :: pre, f, post, c, d, rfl, hf, hpost, run_cons.2 ⟨t, ht, hc⟩, hd, hu⟩

/-- What the events of a run keep. -/
theorem run_keeps {Q : S → Prop} {p : E → Bool}
    (hstep : ∀ {s t : S} {e : E}, Q s → p e = false → step s e = some t → Q t) {es : List E} :
    ∀ {s u : S}, Q s → (∀ e ∈ es, p e = false) → run step s es = some u → Q u := by
  induction es with
  | nil =>
      intro s u hQ _ h
      cases h
      exact hQ
  | cons e es ih =>
      intro s u hQ hno h
      obtain ⟨t, ht, hrest⟩ := run_cons.1 h
      obtain ⟨he, hes⟩ := List.forall_mem_cons.1 hno
      exact ih (hstep hQ he ht) hes hrest

theorem countP_cons_toNat (p : E → Bool) (e : E) (es : List E) :
    (e :: es).countP p = (p e).toNat + es.countP p := by
  rw [List.countP_cons, Nat.add_comm]
  cases p e <;> rfl

/-- Two kinds of events that move a number up and down, counted over a run. -/
theorem run_balance {w : S → Nat} {p q : E → Bool}
    (hstep : ∀ {s t : S} {e : E}, I s → P s e → step s e = some t → I t)
    (hw : ∀ {s t : S} {e : E}, I s → P s e → step s e = some t →
      w t + (p e).toNat = w s + (q e).toNat) {es : List E} :
    ∀ {s t : S}, I s → run step s es = some t → Steps step P s es →
      w t + es.countP p = w s + es.countP q := by
  induction es with
  | nil =>
      intro s t _ h _
      cases h
      rfl
  | cons e es ih =>
      intro s t hI h hs
      obtain ⟨m, hm, hrest⟩ := run_cons.1 h
      have hone := hw hI hs.1 hm
      have hes := ih (hstep hI hs.1 hm) hrest (hs.2 m hm)
      rw [countP_cons_toNat p, countP_cons_toNat q]
      omega

/-- A part of the state that every step folds its event into. -/
theorem run_foldl {R : Type*} {f : S → R} {g : R → E → R}
    (hstep : ∀ {s t : S} {e : E}, I s → P s e → step s e = some t → I t)
    (hf : ∀ {s t : S} {e : E}, I s → P s e → step s e = some t →
      f t = g (f s) e) {es : List E} :
    ∀ {s t : S}, I s → run step s es = some t → Steps step P s es →
      f t = es.foldl g (f s) := by
  induction es with
  | nil =>
      intro s t _ h _
      cases h
      rfl
  | cons e es ih =>
      intro s t hI h hs
      obtain ⟨m, hm, hrest⟩ := run_cons.1 h
      rw [ih (hstep hI hs.1 hm) hrest (hs.2 m hm), hf hI hs.1 hm]
      rfl

/-- A run whose steps each lower the rank is no longer than the rank. -/
theorem length_add_rank_le
    (hstep : ∀ {s t : S} {e : E}, I s → P s e → step s e = some t → I t)
    (hrank : ∀ {s t : S} {e : E}, I s → P s e → step s e = some t → rank t < rank s)
    {es : List E} : ∀ {s t : S}, I s → run step s es = some t → Steps step P s es →
      es.length + rank t ≤ rank s := by
  induction es with
  | nil =>
      intro s t _ h _
      cases h
      exact Nat.le_of_eq (Nat.zero_add _)
  | cons e es ih =>
      intro s t hI h hs
      obtain ⟨m, hm, hrest⟩ := run_cons.1 h
      have hlt := hrank hI hs.1 hm
      have hle := ih (hstep hI hs.1 hm) hrest (hs.2 m hm)
      rw [List.length_cons]
      omega

/-- The state can go on by a step that meets the condition. -/
def CanGoOn (step : S → E → Option S) (P : S → E → Prop) (s : S) : Prop :=
  ∃ e, P s e ∧ (step s e).isSome = true

/-- Whatever happens from `s` on, as long as the steps meet `P`: the run is no
longer than `bound`, and it has got to `F` when it cannot go on. -/
structure Comes (step : S → E → Option S) (P : S → E → Prop) (F : S → Prop) (bound : Nat)
    (s : S) : Prop where
  bounded : ∀ es t, run step s es = some t → Steps step P s es → es.length ≤ bound
  ends : ∀ es t, run step s es = some t → Steps step P s es → F t ∨ CanGoOn step P t

theorem comes_of_rank
    (hstep : ∀ {s t : S} {e : E}, I s → P s e → step s e = some t → I t)
    (hrank : ∀ {s t : S} {e : E}, I s → P s e → step s e = some t → rank t < rank s)
    (hnext : ∀ {s : S}, I s → F s ∨ CanGoOn step P s) {s : S} (hI : I s) :
    Comes step P F (rank s) s := by
  refine ⟨fun es t h hs => ?_, fun es t h hs => hnext (steps_inv hstep hI h hs)⟩
  have hle := length_add_rank_le hstep hrank hI h hs
  omega

end Lts
