import Mathlib.Data.List.Basic

/-!
# Instructions that are carried out one after the other

Instructions settle facts about the state, and the ones that come after them leave
what is settled. Then at the end everything is settled that some instruction settled
or that held at the start, in whatever order they came (`foldl_settled`). Where an
instruction says anew what a part of the state is, the last word counts (`foldl_last`).
-/

namespace Settled

universe u v w

variable {σ : Type u} {ι : Type v} {κ : Type w} {f : σ → ι → σ} {I : σ → Prop}
  {P : ι → Prop}

theorem foldl_inv (hstep : ∀ {s i}, I s → P i → I (f s i)) {l : List ι} :
    ∀ {s : σ}, I s → (∀ i ∈ l, P i) → I (l.foldl f s) := by
  induction l with
  | nil => exact fun hI _ => hI
  | cons i l ih =>
      intro s hI hP
      obtain ⟨hi, hl⟩ := List.forall_mem_cons.1 hP
      exact ih (hstep hI hi) hl

/-- The facts of `K`: `S i k` says that the instruction settles the fact `k`. -/
theorem foldl_settled {K : κ → Prop} {F : κ → σ → Prop} {S : ι → κ → Prop}
    (hstep : ∀ {s i}, I s → P i → I (f s i))
    (hown : ∀ {s i k}, I s → P i → K k → S i k → F k (f s i))
    (hkeep : ∀ {s i k}, I s → P i → K k → F k s → F k (f s i)) {k : κ} (hk : K k)
    {l : List ι} : ∀ {s : σ}, I s → (∀ i ∈ l, P i) → (F k s ∨ ∃ i ∈ l, S i k) →
      F k (l.foldl f s) := by
  induction l with
  | nil =>
      rintro s _ _ (h | ⟨i, hi, _⟩)
      · exact h
      · exact absurd hi List.not_mem_nil
  | cons i l ih =>
      intro s hI hP h
      obtain ⟨hi, hl⟩ := List.forall_mem_cons.1 hP
      rw [List.foldl_cons]
      refine ih (hstep hI hi) hl ?_
      rcases h with h | ⟨j, hj, hset⟩
      · exact Or.inl (hkeep hI hi hk h)
      · rcases List.mem_cons.1 hj with rfl | hj
        · exact Or.inl (hown hI hi hk hset)
        · exact Or.inr ⟨j, hj, hset⟩

/-- A part of the state that an instruction either leaves or says anew. -/
theorem foldl_last {g : σ → κ} {said : ι → Option κ}
    (h : ∀ s i, g (f s i) = (said i).getD (g s)) {l : List ι} : ∀ {s : σ},
    g (l.foldl f s) = (l.filterMap said).getLast?.getD (g s) := by
  induction l with
  | nil => exact rfl
  | cons i l ih =>
      intro s
      rw [List.foldl_cons, ih, h]
      cases hi : said i with
      | none => rw [List.filterMap_cons_none hi, Option.getD_none]
      | some a =>
          rw [List.filterMap_cons_some hi, List.getLast?_cons, Option.getD_some, Option.getD_some]

end Settled
