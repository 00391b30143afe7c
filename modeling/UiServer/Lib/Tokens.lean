import Mathlib.Data.List.Basic

/-!
# Greedy tokens

`tok s` says which token, if any, stands at the start of `s`: its length and its
value. `scan` goes through a text from left to right, takes a token wherever one
stands and goes on behind it, and passes over every item that starts none.

What it finds is characterised by three facts: each token stands where it is
said to (`sound`), they follow one another (`pairwise`), and a token that is not
among them overlaps one that is and starts before it (`complete`).
-/

namespace Tokens

universe u v

structure Token (β : Type v) where
  pos : Nat
  len : Nat
  val : β

variable {α : Type u} {β : Type v}

def Token.stop (t : Token β) : Nat := t.pos + t.len

/-- The tokens of `s`, which starts at position `p`; the first `skip` items are
still part of a token. -/
def scan (tok : List α → Option (Nat × β)) : Nat → Nat → List α → List (Token β)
  | _, _, [] => []
  | skip + 1, p, _ :: s => scan tok skip (p + 1) s
  | 0, p, a :: s =>
      match tok (a :: s) with
      | some (n, b) => ⟨p, n, b⟩ :: scan tok (n - 1) (p + 1) s
      | none => scan tok 0 (p + 1) s

/-- A token that starts inside another one does not end before it. -/
def Staggered (tok : List α → Option (Nat × β)) : Prop :=
  ∀ ⦃s : List α⦄ ⦃n m j : Nat⦄ ⦃b c : β⦄, tok s = some (n, b) → j < n →
    tok (s.drop j) = some (m, c) → n ≤ j + m

/-- Tokens that stand in `s`, which starts at position `p`, one behind the other from
position `q` on. -/
structure Row (tok : List α → Option (Nat × β)) (p q : Nat) (s : List α)
    (ts : List (Token β)) : Prop where
  starts : ∀ t ∈ ts, q ≤ t.pos
  stands : ∀ t ∈ ts, tok (s.drop (t.pos - p)) = some (t.len, t.val)
  apart : ts.Pairwise fun t u => t.stop ≤ u.pos

/-- A token takes at least one item, and no more than there are. -/
def Proper (tok : List α → Option (Nat × β)) : Prop :=
  ∀ ⦃s : List α⦄ ⦃n : Nat⦄ ⦃b : β⦄, tok s = some (n, b) → 0 < n ∧ n ≤ s.length

section

variable {tok : List α → Option (Nat × β)} {s : List α} {p n : Nat} {b : β}
  {t : Token β}

theorem scan_skip : ∀ {k p : Nat} {s : List α},
    scan tok k p s = scan tok 0 (p + k) (s.drop k) := by
  intro k
  induction k with
  | zero => intro p s; rfl
  | succ k ih =>
      intro p s
      cases s with
      | nil => rfl
      | cons a s =>
          rw [scan, ih, List.drop_succ_cons]
          congr 1
          omega

theorem scan_some (h : tok s = some (n, b)) (hp : Proper tok) :
    scan tok 0 p s = ⟨p, n, b⟩ :: scan tok 0 (p + n) (s.drop n) := by
  obtain ⟨hpos, hle⟩ := hp h
  cases s with
  | nil => simp at hle; omega
  | cons a s =>
      obtain ⟨k, rfl⟩ : ∃ k, n = k + 1 := ⟨n - 1, by omega⟩
      rw [scan]
      simp only [h]
      rw [scan_skip, List.drop_succ_cons]
      congr 2
      omega

/-- Items that start no token are passed over. -/
theorem scan_append : ∀ {mid s : List α} {p : Nat},
    (∀ j < mid.length, tok (mid.drop j ++ s) = none) →
    scan tok 0 p (mid ++ s) = scan tok 0 (p + mid.length) s := by
  intro mid
  induction mid with
  | nil => intro s p _; rfl
  | cons a mid ih =>
      intro s p h
      have hhead := h 0 (by simp)
      rw [List.drop_zero, List.cons_append] at hhead
      have hrest : ∀ j < mid.length, tok (mid.drop j ++ s) = none := fun j hj => by
        have hnext := h (j + 1) (by simpa using hj)
        rwa [List.drop_succ_cons] at hnext
      rw [List.cons_append, scan]
      simp only [hhead]
      rw [ih hrest, List.length_cons]
      congr 1
      omega

theorem scan_ge : ∀ {s : List α} {k p : Nat}, t ∈ scan tok k p s → p + k ≤ t.pos := by
  intro s
  induction s with
  | nil => intro k p h; cases k <;> cases h
  | cons a s ih =>
      intro k p h
      cases k with
      | succ k =>
          have hge := ih (k := k) h
          omega
      | zero =>
          rw [scan] at h
          split at h
          · rcases List.mem_cons.1 h with rfl | h
            · exact Nat.le_refl _
            · have hge := ih h
              omega
          · have hge := ih h
            omega

/-- A token that is found stands where it is said to. -/
theorem sound : ∀ {s : List α} {k p : Nat}, t ∈ scan tok k p s →
    tok (s.drop (t.pos - p)) = some (t.len, t.val) := by
  intro s
  induction s with
  | nil => intro k p h; cases k <;> cases h
  | cons a s ih =>
      intro k p h
      have hlater : ∀ {k : Nat}, t ∈ scan tok k (p + 1) s →
          tok ((a :: s).drop (t.pos - p)) = some (t.len, t.val) := by
        intro k h
        have hge := scan_ge h
        have hsucc : t.pos - p = (t.pos - (p + 1)) + 1 := by omega
        rw [hsucc, List.drop_succ_cons]
        exact ih h
      cases k with
      | succ k => exact hlater h
      | zero =>
          rw [scan] at h
          split at h
          · next n b htok =>
              rcases List.mem_cons.1 h with rfl | h
              · rw [Nat.sub_self]
                exact htok
              · exact hlater h
          · exact hlater h

theorem pairwise (hp : Proper tok) : ∀ {s : List α} {k p : Nat},
    (scan tok k p s).Pairwise fun t u => t.stop ≤ u.pos := by
  intro s
  induction s with
  | nil => intro k p; cases k <;> exact List.Pairwise.nil
  | cons a s ih =>
      intro k p
      cases k with
      | succ k => exact ih
      | zero =>
          rw [scan]
          split
          · next n b htok =>
              refine List.Pairwise.cons (fun u hu => ?_) ih
              have hge := scan_ge hu
              have hpos := (hp htok).1
              simp only [Token.stop]
              omega
          · exact ih

/-- A token that stands in the text is found, or it is overlapped by one that is
found and starts before it. -/
theorem complete (hp : Proper tok) : ∀ {s : List α} {k p q : Nat}, k ≤ q →
    tok (s.drop q) = some (n, b) →
    ∃ t ∈ scan tok k p s, t.pos ≤ p + q ∧ p + q < t.stop := by
  intro s
  induction s with
  | nil =>
      intro k p q _ h
      rw [List.drop_nil] at h
      have hn := hp h
      rw [List.length_nil] at hn
      omega
  | cons a s ih =>
      intro k p q hq h
      have hlater : ∀ {k q : Nat}, k ≤ q → tok (s.drop q) = some (n, b) →
          ∃ t ∈ scan tok k (p + 1) s, t.pos ≤ p + (q + 1) ∧ p + (q + 1) < t.stop := by
        intro k q hq h
        obtain ⟨t, ht, hlo, hhi⟩ := ih (p := p + 1) hq h
        exact ⟨t, ht, by omega, by omega⟩
      cases k with
      | succ k =>
          obtain ⟨q, rfl⟩ : ∃ q', q = q' + 1 := ⟨q - 1, by omega⟩
          exact hlater (by omega) h
      | zero =>
          rw [scan]
          split
          · next m c htok =>
              by_cases hin : q < m
              · refine ⟨⟨p, m, c⟩, List.mem_cons_self, Nat.le_add_right p q, ?_⟩
                simp only [Token.stop]
                omega
              · have hpos := (hp htok).1
                obtain ⟨q, rfl⟩ : ∃ q', q = q' + 1 := ⟨q - 1, by omega⟩
                obtain ⟨t, ht, hover⟩ := hlater (k := m - 1) (q := q) (by omega) h
                exact ⟨t, List.mem_cons_of_mem _ ht, hover⟩
          · next htok =>
              cases q with
              | zero =>
                  rw [List.drop_zero, htok] at h
                  cases h
              | succ q => exact hlater (Nat.zero_le q) h

/-- The row of the scan. -/
theorem row_scan (hp : Proper tok) {s : List α} {p : Nat} :
    Row tok p p s (scan tok 0 p s) where
  starts := fun _ h => scan_ge h
  stands := fun _ h => sound h
  apart := pairwise hp

/-- Seen from the next item, a row that starts there is still one. -/
theorem Row.next {a : α} {s : List α} {p q : Nat} {ts : List (Token β)}
    (h : Row tok p q (a :: s) ts) (hq : p + 1 ≤ q) : Row tok (p + 1) q s ts where
  starts := h.starts
  stands := by
    intro t ht
    have hge := h.starts t ht
    have hstands := h.stands t ht
    have hsucc : t.pos - p = (t.pos - (p + 1)) + 1 := by omega
    rwa [hsucc, List.drop_succ_cons] at hstands
  apart := h.apart

/-- No row is longer than the one the scan finds. -/
theorem length_le_scan (hp : Proper tok) (hst : Staggered tok) : ∀ {s : List α} {k p : Nat}
    {ts : List (Token β)}, Row tok p (p + k) s ts → ts.length ≤ (scan tok k p s).length := by
  intro s
  induction s with
  | nil =>
      intro k p ts h
      cases ts with
      | nil => exact Nat.zero_le _
      | cons t ts =>
          have hstands := h.stands t List.mem_cons_self
          rw [List.drop_nil] at hstands
          have hn := hp hstands
          rw [List.length_nil] at hn
          omega
  | cons a s ih =>
      intro k p ts h
      cases k with
      | succ k =>
          have hrow : Row tok (p + 1) (p + 1 + k) s ts := by
            have hnext := h.next (by omega)
            rwa [← Nat.add_assoc, Nat.add_right_comm] at hnext
          exact ih hrow
      | zero =>
          rw [scan]
          split
          · next n b htok =>
              cases ts with
              | nil => exact Nat.zero_le _
              | cons t ts =>
                  have hpos := (hp htok).1
                  have hstands := h.stands t List.mem_cons_self
                  have hge := h.starts t List.mem_cons_self
                  have hstop : p + n ≤ t.stop := by
                    simp only [Token.stop]
                    by_cases hin : t.pos - p < n
                    · have hle := hst htok hin hstands
                      omega
                    · omega
                  have hrow : Row tok p (p + n) (a :: s) ts := by
                    obtain ⟨hapart, hrest⟩ := List.pairwise_cons.1 h.apart
                    exact ⟨fun u hu => Nat.le_trans hstop (hapart u hu),
                      fun u hu => h.stands u (List.mem_cons_of_mem t hu), hrest⟩
                  have hnext := hrow.next (by omega)
                  have hk : p + n = p + 1 + (n - 1) := by omega
                  rw [hk] at hnext
                  exact Nat.succ_le_succ (ih hnext)
          · next htok =>
              have hrow : Row tok p (p + 1) (a :: s) ts := by
                refine ⟨fun t ht => ?_, h.stands, h.apart⟩
                have hge := h.starts t ht
                by_contra hlt
                have hstands := h.stands t ht
                rw [show t.pos - p = 0 by omega, List.drop_zero, htok] at hstands
                cases hstands
              exact ih (hrow.next (Nat.le_refl _))

end

end Tokens
