import Mathlib.Data.Nat.Find

/-!
# Looking round a ring

`n` places in a ring, met one after the other from the place behind `i`: the
`d`-th of them is `place n i d`, and a whole turn of `n` steps meets every place
once and `i` last. `search` stops at the first place that has a property, or
after `t` steps. When `t` is less than a whole turn it may stop too early, and
`search_eq_none_iff` says when.

When places are chosen one after the other, each as the first one round from the
last that may be chosen (`Turns`), none that may be chosen every time is passed
over for a whole turn.
-/

namespace Cyclic

/-- The `d`-th place met on the way round from the one behind `i`. -/
def place (n i d : Nat) : Nat := (i + d) % n

/-- The first place with the property `p` is the `d`-th met. -/
structure FirstAt (p : Nat → Prop) (n i d : Nat) : Prop where
  pos : 0 < d
  le : d ≤ n
  here : p (place n i d)
  before : ∀ k, 0 < k → k < d → ¬ p (place n i k)

def search (p : Nat → Prop) [DecidablePred p] (n : Nat) : Nat → Nat → Option Nat
  | 0, _ => none
  | t + 1, i =>
      if p (place n i 1) then some (place n i 1) else search p n t (place n i 1)

section

variable {p : Nat → Prop} {n i d : Nat}

theorem place_place (n i k d : Nat) : place n (place n i k) d = place n i (k + d) := by
  rw [place, place, place, Nat.mod_add_mod, Nat.add_assoc]

theorem place_lt (h : 0 < n) (i d : Nat) : place n i d < n := Nat.mod_lt _ h

/-- A whole turn meets every place. -/
theorem exists_place {s : Nat} (hi : i < n) (hs : s < n) :
    ∃ d, 0 < d ∧ d ≤ n ∧ place n i d = s := by
  by_cases h : i < s
  · refine ⟨s - i, by omega, by omega, ?_⟩
    rw [place, Nat.add_sub_cancel' (Nat.le_of_lt h), Nat.mod_eq_of_lt hs]
  · refine ⟨s + n - i, by omega, by omega, ?_⟩
    rw [place, Nat.add_sub_cancel' (by omega), Nat.add_mod_right, Nat.mod_eq_of_lt hs]

theorem exists_firstAt [DecidablePred p] {s : Nat} (hi : i < n) (hs : s < n) (hp : p s) :
    ∃ d, FirstAt p n i d := by
  have hsome : ∃ d, 0 < d ∧ d ≤ n ∧ p (place n i d) := by
    obtain ⟨d, hpos, hle, hd⟩ := exists_place hi hs
    exact ⟨d, hpos, hle, hd ▸ hp⟩
  obtain ⟨hpos, hle, hd⟩ := Nat.find_spec hsome
  refine ⟨Nat.find hsome, hpos, hle, hd, fun k hk hlt hpk => ?_⟩
  exact Nat.find_min hsome hlt ⟨hk, by omega, hpk⟩

variable [DecidablePred p]

theorem search_of_firstAt : ∀ {t i d : Nat}, FirstAt p n i d → d ≤ t →
    search p n t i = some (place n i d) := by
  intro t
  induction t with
  | zero =>
      intro i d h ht
      have hpos := h.pos
      omega
  | succ t ih =>
      intro i d h ht
      rw [search]
      by_cases hd : d = 1
      · subst hd
        rw [if_pos h.here]
      · have hpos := h.pos
        have hle := h.le
        have hplace : ∀ k, place n (place n i 1) k = place n i (k + 1) := fun k => by
          rw [place_place, Nat.add_comm]
        have hrest : FirstAt p n (place n i 1) (d - 1) := by
          refine ⟨by omega, by omega, ?_, fun k hk hlt => ?_⟩
          · rw [hplace, Nat.sub_add_cancel h.pos]
            exact h.here
          · rw [hplace]
            exact h.before (k + 1) (by omega) (by omega)
        rw [if_neg (h.before 1 (by omega) (by omega)), ih hrest (by omega), hplace,
          Nat.sub_add_cancel h.pos]

theorem search_eq_none_iff {t : Nat} : ∀ {i : Nat}, search p n t i = none ↔
    ∀ k, 0 < k → k ≤ t → ¬ p (place n i k) := by
  induction t with
  | zero =>
      intro i
      exact ⟨fun _ k hk hle => by omega, fun _ => rfl⟩
  | succ t ih =>
      intro i
      rw [search]
      by_cases h : p (place n i 1)
      · rw [if_pos h]
        exact ⟨nofun, fun hall => absurd h (hall 1 (by omega) (by omega))⟩
      · rw [if_neg h, ih]
        refine ⟨fun hall k hk hle => ?_, fun hall k hk hle => ?_⟩
        · by_cases hk1 : k = 1
          · rw [hk1]
            exact h
          · have hlater := hall (k - 1) (by omega) (by omega)
            rw [place_place, Nat.add_sub_cancel' hk] at hlater
            exact hlater
        · rw [place_place]
          exact hall (1 + k) (by omega) (by omega)

/-- What a search finds is the first place, however many steps it had. -/
theorem eq_of_search {t k : Nat} (h : search p n t i = some k) (hd : FirstAt p n i d) :
    k = place n i d := by
  by_cases hle : d ≤ t
  · rw [search_of_firstAt hd hle] at h
    exact (Option.some.inj h).symm
  · have hnone : search p n t i = none :=
      search_eq_none_iff.2 fun k hk hkt => hd.before k hk (by omega)
    rw [h] at hnone
    cases hnone

end

/-! ## Taking turns

A place that may be chosen every time is met at the latest when the search has
gone all the way round, and each choice in front of it brings the search nearer.
-/

/-- From place `i` on the places `ks` were chosen, each as the first one round from
the one before that could be chosen then; `s` could be, every time. -/
inductive Turns (n s : Nat) : Nat → List Nat → Prop where
  | done {i : Nat} : Turns n s i []
  | turn {p : Nat → Prop} {i d : Nat} {ks : List Nat} : FirstAt p n i d → p s →
      Turns n s (place n i d) ks → Turns n s i (place n i d :: ks)

/-- A place `k` steps away is chosen before `k` others are. -/
theorem Turns.length_lt {n s i : Nat} {ks : List Nat} (h : Turns n s i ks) :
    ∀ {k : Nat}, 0 < k → place n i k = s → s ∉ ks → ks.length < k := by
  induction h with
  | done => exact fun hk _ _ => hk
  | @turn p i d ks hfirst hp _ ih =>
      intro k hk hs hnot
      obtain ⟨hne, hrest⟩ := not_or.1 (mt List.mem_cons.2 hnot)
      have hle : d ≤ k := by
        by_contra hlt
        refine hfirst.before k hk (by omega) ?_
        rw [hs]
        exact hp
      have hlt : d < k := by
        refine Nat.lt_of_le_of_ne hle fun heq => hne ?_
        rw [heq, hs]
      have hafter : place n (place n i d) (k - d) = s := by
        rw [place_place, Nat.add_sub_cancel' hle, hs]
      have hlen := ih (by omega) hafter hrest
      have hpos := hfirst.pos
      rw [List.length_cons]
      omega

/-- Among as many choices as there are places, each place that could always be
chosen was. -/
theorem Turns.mem {n s i : Nat} {ks : List Nat} (h : Turns n s i ks) (hi : i < n)
    (hs : s < n) (hlen : n ≤ ks.length) : s ∈ ks := by
  by_contra hnot
  obtain ⟨k, hpos, hle, hk⟩ := exists_place hi hs
  have hlt := h.length_lt hpos hk hnot
  omega

end Cyclic
