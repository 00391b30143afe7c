import UiServer.Lib.Lts

/-!
# A system and its protocol

A protocol is a relation between states whose steps carry a label or are silent, and
`Trace` is what can be seen of a run of it. A system keeps to the protocol when a function
takes its states to those of the protocol and each of its steps to a trace with the
label of the event; then each run of the system is a run of the protocol with the labels
of its events (`trace_of_run`). What a weight of the protocol's states may gain or lose in
a step adds up along the labels (`Trace.weigh`).
-/

namespace Lts

universe u v w x

variable {S : Type u} {E : Type v} {A : Type w} {L : Type x}

/-- `Trace R a ls b`: some steps of the protocol lead from `a` to `b`, and their labels are
`ls`. -/
inductive Trace (R : A → Option L → A → Prop) : A → List L → A → Prop
  | refl (a : A) : Trace R a [] a
  | next {a b c : A} {l : Option L} {ls : List L} : R a l b → Trace R b ls c →
      Trace R a (l.toList ++ ls) c

section

variable {R : A → Option L → A → Prop} {a b c : A} {l : Option L} {ls ks : List L}

theorem Trace.single (h : R a l b) : Trace R a l.toList b := by
  have htrace := Trace.next h (.refl b)
  rwa [List.append_nil] at htrace

theorem Trace.append (h : Trace R a ls b) (h' : Trace R b ks c) : Trace R a (ls ++ ks) c := by
  induction h with
  | refl => exact h'
  | next hstep _ ih =>
      rw [List.append_assoc]
      exact .next hstep (ih h')

/-- A weight that a step may only raise by a label of one kind, and must lower by a label
of the other. -/
theorem Trace.weigh {weight : A → Nat} {gain cost : L → Bool} (h : Trace R a ls b)
    (hstep : ∀ {a b : A} {l : Option L}, R a l b →
      weight b + l.toList.countP cost ≤ weight a + l.toList.countP gain) :
    weight b + ls.countP cost ≤ weight a + ls.countP gain := by
  induction h with
  | refl => exact Nat.le_refl _
  | next hab _ ih =>
      have hfirst := hstep hab
      rw [List.countP_append, List.countP_append]
      omega

end

/-- Each run of a system that keeps to the protocol is a run of the protocol, or got to
where the protocol says nothing. -/
theorem trace_of_run {step : S → E → Option S} {P : S → E → Prop} {I D : S → Prop}
    {R : A → Option L → A → Prop} (abs : S → A) (label : E → Option L)
    (hdead : ∀ {s t : S} {e : E}, D s → step s e = some t → D t)
    (hstep : ∀ {s t : S} {e : E}, I s → P s e → step s e = some t →
      D t ∨ I t ∧ Trace R (abs s) (label e).toList (abs t)) {es : List E} :
    ∀ {s t : S}, I s → run step s es = some t → Steps step P s es →
      D t ∨ I t ∧ Trace R (abs s) (es.filterMap label) (abs t) := by
  induction es with
  | nil =>
      intro s t hI h _
      cases h
      exact .inr ⟨hI, .refl _⟩
  | cons e es ih =>
      intro s t hI h hs
      obtain ⟨m, hm, hrest⟩ := run_cons.1 h
      rcases hstep hI hs.1 hm with hD | ⟨hI', hfirst⟩
      · exact .inl (run_inv hdead hD hrest)
      · refine (ih hI' hrest (hs.2 m hm)).imp_right fun ⟨hIt, hlast⟩ => ⟨hIt, ?_⟩
        have hlabels : (e :: es).filterMap label = (label e).toList ++ es.filterMap label := by
          cases hl : label e with
          | none => rw [List.filterMap_cons_none hl, Option.toList_none, List.nil_append]
          | some l => rw [List.filterMap_cons_some hl, Option.toList_some, List.singleton_append]
        rw [hlabels]
        exact hfirst.append hlast

end Lts
