import Mathlib.Data.List.Basic

/-!
# A value that is set and corrected

A run changes a value by setting it, to anything, and by correcting it when it is
not as it should be. What the value is at the end depends on the last change only:
it is as it should be if and only if no wrong value was set without a change behind
it (`run_ok_iff`).
-/

namespace Register

universe u

inductive Change (α : Type u) where
  | keep
  | set (a : α)
  | fix
deriving DecidableEq

variable {α : Type u} {ok : α → Prop}

def Change.apply (ok : α → Prop) [DecidablePred ok] (d : α) : Change α → α → α
  | .keep, a => a
  | .set b, _ => b
  | .fix, a => if ok a then a else d

def run (ok : α → Prop) [DecidablePred ok] (d : α) (cs : List (Change α)) (a : α) : α :=
  cs.foldl (fun a c => c.apply ok d a) a

/-- Every wrong value is changed once more behind the place where it is set. -/
def Mended (ok : α → Prop) (cs : List (Change α)) : Prop :=
  ∀ a post, Change.set a :: post <:+ cs → ¬ ok a → ∃ c ∈ post, c ≠ .keep

theorem mended_nil : Mended ok [] := by
  intro a post h
  exact absurd (List.suffix_nil.1 h) (List.cons_ne_nil _ _)

theorem mended_cons {c : Change α} {cs : List (Change α)} :
    Mended ok (c :: cs) ↔
      (∀ a, c = .set a → ¬ ok a → ∃ c' ∈ cs, c' ≠ .keep) ∧ Mended ok cs := by
  constructor
  · intro h
    refine ⟨fun a hc hbad => ?_, fun a post hpost => h a post (hpost.trans (List.suffix_cons c cs))⟩
    subst hc
    exact h a cs (List.suffix_refl _) hbad
  · intro ⟨hhead, htail⟩ a post hpost hbad
    rcases List.suffix_cons_iff.1 hpost with heq | hpost
    · obtain ⟨hc, hcs⟩ := List.cons.inj heq
      subst hcs
      exact hhead a hc.symm hbad
    · exact htail a post hpost hbad

variable [DecidablePred ok] {d : α}

theorem apply_ok (hd : ok d) {c : Change α} {a : α} :
    ok (c.apply ok d a) ↔ (c = .keep ∧ ok a) ∨ c = .fix ∨ ∃ b, c = .set b ∧ ok b := by
  cases c with
  | keep => simp [Change.apply]
  | set b => simp [Change.apply]
  | fix =>
      rw [Change.apply]
      split
      · next h => simp [h]
      · simp [hd]

/-- The value at the end is as it should be. -/
theorem run_ok_iff (hd : ok d) (cs : List (Change α)) : ∀ a : α,
    ok (run ok d cs a) ↔ (ok a ∨ ∃ c ∈ cs, c ≠ .keep) ∧ Mended ok cs := by
  induction cs with
  | nil => intro a; simp [run, mended_nil]
  | cons c cs ih =>
      intro a
      have hstep : run ok d (c :: cs) a = run ok d cs (c.apply ok d a) := rfl
      rw [hstep, ih, apply_ok hd, mended_cons, List.exists_mem_cons_iff]
      cases c with
      | keep => simp
      | fix => simp
      | set b =>
          by_cases hb : ok b
          · simp [hb]
          · simp [hb]

end Register
