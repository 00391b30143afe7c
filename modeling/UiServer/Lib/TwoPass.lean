import Mathlib.Data.List.Basic

/-!
# Measuring a text before it is written

A converter that goes over its source twice, once to count and once to write,
does so with two loops that know nothing of each other: the first adds up sizes,
the second takes what it writes off the room that is left and stops when there is
none. If both move on by the same steps, and a step writes what was counted for
it and never nothing, then a room as large as the count is never used up before
the source is (`write_measured`).
-/

namespace TwoPass

universe u v

variable {α : Type u} {β : Type v}

/-- The first pass. `count` says what the head of the source adds, and how far the
source moves on behind it. -/
def measure (count : List α → Nat × Nat) : Nat → List α → Nat
  | 0, _ => 0
  | _ + 1, [] => 0
  | fuel + 1, a :: s =>
      measure count fuel ((a :: s).drop (count (a :: s)).2) + (count (a :: s)).1

/-- What the second pass leaves: the source it has not read, what it has written,
and the room after each of its rounds. -/
structure Pass (α : Type u) (β : Type v) where
  left : List α
  out : List β
  rooms : List Int

/-- The second pass. It goes on while there is a source and the room is not zero;
a negative room would not stop it. -/
def write (item : List α → List β × Nat) : Nat → List α → Int → Pass α β
  | 0, s, _ => ⟨s, [], []⟩
  | _ + 1, [], _ => ⟨[], [], []⟩
  | fuel + 1, a :: s, room =>
      if room = 0 then ⟨a :: s, [], []⟩
      else
        let room := room - (item (a :: s)).1.length
        let p := write item fuel ((a :: s).drop (item (a :: s)).2) room
        ⟨p.left, (item (a :: s)).1 ++ p.out, room :: p.rooms⟩

/-- At each place both passes move on by the same number of items, at least one,
and the first one counts what the second one writes there, which is something. -/
structure Agree (count : List α → Nat × Nat) (item : List α → List β × Nat) : Prop where
  moves : ∀ a s, (item (a :: s)).2 = (count (a :: s)).2
  moves_pos : ∀ a s, 0 < (count (a :: s)).2
  size : ∀ a s, (item (a :: s)).1.length = (count (a :: s)).1
  size_pos : ∀ a s, 0 < (count (a :: s)).1

/-- A pass that has read everything, written `size` items and never had less than
no room. -/
structure Pass.Whole (p : Pass α β) (size : Nat) : Prop where
  left : p.left = []
  length_out : p.out.length = size
  rooms : ∀ room ∈ p.rooms, 0 ≤ room

theorem write_measured {count : List α → Nat × Nat} {item : List α → List β × Nat}
    (h : Agree count item) : ∀ (fuel : Nat) (s : List α) (room : Int), s.length ≤ fuel →
      (measure count fuel s : Int) ≤ room →
      (write item fuel s room).Whole (measure count fuel s) := by
  intro fuel
  induction fuel with
  | zero =>
      intro s room hfuel _
      have hs : s = [] := List.length_eq_zero_iff.1 (Nat.le_zero.1 hfuel)
      subst hs
      exact ⟨rfl, rfl, nofun⟩
  | succ fuel ih =>
      intro s room hfuel hroom
      cases s with
      | nil => exact ⟨rfl, rfl, nofun⟩
      | cons a s =>
          have hmoves := h.moves a s
          have hmove := h.moves_pos a s
          have hsize := h.size a s
          have hpos := h.size_pos a s
          have hlen : ((a :: s).drop (count (a :: s)).2).length ≤ fuel := by
            rw [List.length_drop, List.length_cons]
            rw [List.length_cons] at hfuel
            omega
          rw [measure] at hroom ⊢
          have hne : room ≠ 0 := by omega
          have hrest := ih _ (room - (item (a :: s)).1.length) hlen (by omega)
          rw [write, if_neg hne, hmoves]
          refine ⟨hrest.left, ?_, ?_⟩
          · rw [List.length_append, hrest.length_out, hsize, Nat.add_comm]
          · intro r hr
            rcases List.mem_cons.1 hr with hr | hr
            · omega
            · exact hrest.rooms r hr

end TwoPass
