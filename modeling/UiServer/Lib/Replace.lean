import UiServer.Lib.Tokens
import UiServer.Lib.Writer

/-!
# Replacing the tokens of a text

`Tokens.replace` says what a text with its tokens replaced is, item by item and without a
position: a token is exchanged for what there is for it, and every other item stays.

The same text comes out of pieces that are cut differently, so texts are compared by what
they come to (`CMem.Same`): the same expansion, and no room is too small for one of them
only. It is an equivalence, and lists of pieces may be put behind one another.
-/

namespace Tokens

universe u v w

variable {α : Type u} {β : Type v} {γ : Type w}

/-- `s` with the first `room` of its tokens replaced and `lit` for every other item; the
first `skip` items are still part of a token. -/
def replace (tok : List α → Option (Nat × β)) (f : β → List γ) (lit : α → γ) :
    Nat → Nat → List α → List γ
  | _, _, [] => []
  | room, skip + 1, _ :: s => replace tok f lit room skip s
  | 0, 0, a :: s => lit a :: replace tok f lit 0 0 s
  | room + 1, 0, a :: s =>
      match tok (a :: s) with
      | some (n, b) => f b ++ replace tok f lit room (n - 1) s
      | none => lit a :: replace tok f lit (room + 1) 0 s

variable {tok : List α → Option (Nat × β)} {f : β → List γ} {lit : α → γ} {room n : Nat}
  {a : α} {b : β} {s : List α}

theorem replace_skip : ∀ {skip : Nat} {s : List α},
    replace tok f lit room skip s = replace tok f lit room 0 (s.drop skip) := by
  intro skip
  induction skip with
  | zero => intro s; rfl
  | succ skip ih =>
      intro s
      cases s with
      | nil =>
          rw [List.drop_nil, replace]
          cases room <;> rfl
      | cons a s => rw [replace, ih, List.drop_succ_cons]

theorem replace_full : ∀ {s : List α}, replace tok f lit 0 0 s = s.map lit := by
  intro s
  induction s with
  | nil => rfl
  | cons a s ih => rw [replace, ih, List.map_cons]

theorem replace_some (hp : Proper tok) (h : tok s = some (n, b)) :
    replace tok f lit (room + 1) 0 s = f b ++ replace tok f lit room 0 (s.drop n) := by
  obtain ⟨hpos, hle⟩ := hp h
  cases s with
  | nil =>
      rw [List.length_nil] at hle
      omega
  | cons a s =>
      obtain ⟨k, rfl⟩ : ∃ k, n = k + 1 := ⟨n - 1, by omega⟩
      rw [replace]
      simp only [h]
      rw [replace_skip, List.drop_succ_cons, Nat.add_sub_cancel]

theorem replace_none (h : tok (a :: s) = none) :
    replace tok f lit (room + 1) 0 (a :: s) = lit a :: replace tok f lit (room + 1) 0 s := by
  rw [replace]
  simp only [h]

end Tokens

namespace CMem

/-- Two lists of pieces come to the same, behind whatever was there. -/
structure Same (ps qs : List Piece) : Prop where
  expands : ∀ out, expandFrom out ps = expandFrom out qs
  overflows : ∀ size out, OverflowsFrom size out ps ↔ OverflowsFrom size out qs

variable {ps qs rs ps' qs' : List Piece}

theorem Same.refl (ps : List Piece) : Same ps ps := ⟨fun _ => rfl, fun _ _ => Iff.rfl⟩

theorem Same.trans (h : Same ps qs) (h' : Same qs rs) : Same ps rs :=
  ⟨fun out => (h.expands out).trans (h'.expands out),
    fun size out => (h.overflows size out).trans (h'.overflows size out)⟩

theorem Same.append (h : Same ps ps') (h' : Same qs qs') : Same (ps ++ qs) (ps' ++ qs') where
  expands out := by
    rw [expandFrom_append, expandFrom_append, h.expands, h'.expands]
  overflows size out := by
    rw [overflowsFrom_append, overflowsFrom_append, h.overflows, h.expands, h'.overflows]

theorem Same.cons (p : Piece) (h : Same ps qs) : Same (p :: ps) (p :: qs) :=
  (Same.refl [p]).append h

theorem same_nil : Same (.text [] :: ps) ps where
  expands out := by rw [expandFrom_cons, Piece.apply, List.append_nil]
  overflows size out := by
    rw [OverflowsFrom, Piece.apply, List.append_nil]
    exact ⟨fun h => h.elim (fun h => overflowsFrom_of_lt h ps) id, Or.inr⟩

theorem same_split (as bs : Bytes) : Same (.text (as ++ bs) :: ps) (.text as :: .text bs :: ps)
    where
  expands out := by
    simp only [expandFrom_cons, Piece.apply, List.append_assoc]
  overflows size out := by
    simp only [OverflowsFrom, Piece.apply, List.append_assoc]
    constructor
    · rintro (h | h)
      · exact Or.inl h
      · exact Or.inr (Or.inr h)
    · rintro (h | h | h)
      · exact Or.inl h
      · refine Or.inr (overflowsFrom_of_lt (Nat.lt_of_lt_of_le h ?_) ps)
        simp only [List.length_append]
        omega
      · exact Or.inr h

/-- A text is the same as its bytes. -/
theorem same_bytes : ∀ (bs : Bytes), Same [.text bs] (bs.map fun b => .text [b]) := by
  intro bs
  induction bs with
  | nil => exact same_nil
  | cons b bs ih => exact (same_split [b] bs).trans (ih.cons _)

end CMem
