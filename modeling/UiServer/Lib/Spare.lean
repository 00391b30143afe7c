import UiServer.Lib.Writer

/-!
# Writing with room to spare

A computation that needs more room than its text may give up where the text itself
would fit. `Builds n` says of it what holds in a buffer of any size as long as no
expansion on the way is longer than `n`: it ends with the expansion of its pieces. A
computation that follows its pieces builds them (`builds_of_follows`), and what builds
one after the other builds one behind the other (`Builds.bind`).
-/

namespace CMem

theorem OverflowsFrom.mono {n size : Nat} (hn : n ≤ size) {ps : List Piece} : ∀ {out : Bytes},
    OverflowsFrom size out ps → OverflowsFrom n out ps := by
  induction ps with
  | nil => exact fun h => Nat.lt_of_le_of_lt hn h
  | cons p ps ih =>
      rintro out (h | h)
      · exact Or.inl (Nat.lt_of_le_of_lt hn h)
      · exact Or.inr (ih h)

theorem length_le_of_not_overflows {n : Nat} {ps : List Piece} : ∀ {out : Bytes},
    ¬ OverflowsFrom n out ps → (expandFrom out ps).length ≤ n := by
  induction ps with
  | nil => exact fun h => Nat.not_lt.1 h
  | cons p ps ih => exact fun h => ih (not_or.1 h).2

def Builds (n size : Nat) (f : Writer → Except Mem Writer) (ps : List Piece) : Prop :=
  ∀ (w : Writer) (out : Bytes), Agrees size w out → ¬ OverflowsFrom n out ps →
    ∃ w', f w = .ok w' ∧ Agrees size w' (expandFrom out ps)

variable {n size : Nat} {f g : Writer → Except Mem Writer} {ps qs : List Piece}

theorem builds_of_follows (hn : n ≤ size)
    (h : ∀ {w : Writer} {out : Bytes}, Agrees size w out → Follows size (f w) out ps) :
    Builds n size f ps := by
  intro w out ha hfit
  have hf := h ha
  cases hw : f w with
  | error m =>
      rw [hw] at hf
      exact absurd (OverflowsFrom.mono hn hf) hfit
  | ok w' =>
      rw [hw] at hf
      exact ⟨w', rfl, hf.1⟩

theorem Builds.bind (hf : Builds n size f ps) (hg : Builds n size g qs) :
    Builds n size (fun w => f w >>= g) (ps ++ qs) := by
  intro w out ha hfit
  obtain ⟨hfits, hrest⟩ := not_or.1 fun h => hfit (overflowsFrom_append.2 h)
  obtain ⟨w', hw', ha'⟩ := hf w out ha hfits
  obtain ⟨w'', hw'', ha''⟩ := hg w' _ ha' hrest
  refine ⟨w'', ?_, by rw [expandFrom_append]; exact ha''⟩
  show f w >>= g = _
  rw [hw']
  exact hw''

theorem Builds.congr (h : Builds n size f ps) (hfg : ∀ w, g w = f w) : Builds n size g ps := by
  intro w out ha hfit
  rw [hfg]
  exact h w out ha hfit

theorem builds_nil : Builds n size .ok [] := fun _ _ ha _ => ⟨_, rfl, ha⟩

theorem builds_foldlM {α : Type} {F : Writer → α → Except Mem Writer} {text : α → Bytes} :
    ∀ {l : List α}, (∀ a ∈ l, Builds n size (fun w => F w a) [.text (text a)]) →
      Builds n size (fun w => l.foldlM F w) (l.map fun a => .text (text a)) := by
  intro l
  induction l with
  | nil => exact fun _ => builds_nil
  | cons a l ih =>
      intro h
      obtain ⟨ha, hl⟩ := List.forall_mem_cons.1 h
      exact (ha.bind (ih hl)).congr fun w => List.foldlM_cons ..

theorem overflowsFrom_texts {l : List Bytes} : ∀ {out : Bytes},
    OverflowsFrom n out (l.map .text) → OverflowsFrom n out [.text l.flatten] := by
  induction l with
  | nil => exact Or.inl
  | cons t l ih =>
      rintro out (h | h)
      · exact Or.inl h
      · rw [List.flatten_cons]
        rcases ih h with h | h
        · refine Or.inr (Nat.lt_of_lt_of_le h ?_)
          simp only [Piece.apply, List.length_append]
          omega
        · refine Or.inr (Nat.lt_of_lt_of_eq h ?_)
          simp only [Piece.apply, List.append_assoc]

theorem expandFrom_texts {l : List Bytes} : ∀ {out : Bytes},
    expandFrom out (l.map .text) = out ++ l.flatten := by
  induction l with
  | nil => exact fun {out} => (List.append_nil out).symm
  | cons t l ih =>
      intro out
      rw [List.map_cons, expandFrom_cons, ih, List.flatten_cons, Piece.apply, List.append_assoc]

/-- Texts one behind the other are one text. -/
theorem Builds.flatten {l : List Bytes} (h : Builds n size f (l.map .text)) :
    Builds n size f [.text l.flatten] := by
  intro w out ha hfit
  obtain ⟨w', hw', ha'⟩ := h w out ha fun ho => hfit (overflowsFrom_texts ho)
  rw [expandFrom_texts] at ha'
  exact ⟨w', hw', ha'⟩

/-- A step that stores a text, with something behind it, and moves over the text. -/
theorem builds_text (hn : n ≤ size) (text : Bytes)
    (h : ∀ w : Writer, text.length + (size - n) ≤ w.nleft → ∃ tail : Bytes,
      f w = .ok ⟨store w.mem w.pbuf (text ++ tail), w.pbuf + text.length,
        w.nleft - text.length⟩) : Builds n size f [.text text] := by
  intro w out ha hfit
  have hlen : (out ++ text).length ≤ n := length_le_of_not_overflows hfit
  have hpbuf := ha.pbuf
  have hroom := ha.room
  rw [List.length_append] at hlen
  have hle := ha.length_le
  obtain ⟨tail, htail⟩ := h w (by omega)
  refine ⟨_, htail, ha.grow (by omega) (fun i hi => store_lt hi) fun i hi _ => ?_⟩
  have hi' : i < (text ++ tail).length := by
    rw [List.length_append]
    omega
  rw [store_at hi', List.getElem_append_left hi]

/-- A terminator behind the text is not part of it. -/
theorem builds_terminated : Builds n size (fun w => .ok ⟨store w.mem w.pbuf [0], w.pbuf, w.nleft⟩)
    [] := by
  intro w out ha _
  refine ⟨_, rfl, ha.pbuf, ha.room, fun i (hi : i < out.length) hsize => ?_⟩
  have hpbuf := ha.pbuf
  show store w.mem w.pbuf [0] i = _
  rw [store_lt (by omega)]
  exact ha.bytes i hi hsize

end CMem
