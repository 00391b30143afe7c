import Mathlib.Data.List.Basic

/-!
# Reading line by line through a buffer

A text is read line by line (`lines`) and each line is handed to a handler. Read
through a buffer, a line that is too long for it comes in several pieces, and the
handler takes each of them for a line. Whether that matters is a question about each
line that is reached: what the handler makes of the pieces is what it makes of the
line (`Once`). Then reading through the buffer comes to reading the lines (`run_cut`).

The handler is told how many pieces came before, and may stop the reading.
-/

namespace Lines

universe u v w

variable {α : Type u} {σ : Type v} {ρ : Type w}

/-! ## Lines

A line takes its separator with it, so no line is empty and the lines in a row are
the text. -/

/-- The lines of a text, each with the `sep` at its end; the last one may be
without. -/
def lines [DecidableEq α] (sep : α) : List α → List (List α)
  | [] => []
  | c :: s =>
      if c = sep then [c] :: lines sep s
      else
        match lines sep s with
        | [] => [[c]]
        | l :: ls => (c :: l) :: ls

section

variable [DecidableEq α] {sep : α}

theorem lines_sep (s : List α) : lines sep (sep :: s) = [sep] :: lines sep s := by
  rw [lines, if_pos rfl]

theorem lines_ne_nil {s : List α} (h : s ≠ []) : lines sep s ≠ [] := by
  cases s with
  | nil => exact absurd rfl h
  | cons c s =>
      rw [lines]
      split
      · exact List.cons_ne_nil _ _
      · split <;> exact List.cons_ne_nil _ _

/-- A byte that does not end a line goes in front of the next one. -/
theorem lines_cons {c : α} (hc : c ≠ sep) {s : List α} :
    lines sep (c :: s) = (c :: (lines sep s).headD []) :: (lines sep s).tail := by
  rw [lines, if_neg hc]
  cases lines sep s <;> rfl

theorem ne_nil_of_mem_lines {s : List α} : ∀ l ∈ lines sep s, l ≠ [] := by
  induction s with
  | nil => exact nofun
  | cons c s ih =>
      intro l hl
      by_cases hc : c = sep
      · rw [hc, lines_sep] at hl
        rcases List.mem_cons.1 hl with rfl | hl
        · exact List.cons_ne_nil _ _
        · exact ih l hl
      · rw [lines_cons hc] at hl
        rcases List.mem_cons.1 hl with rfl | hl
        · exact List.cons_ne_nil _ _
        · exact ih l (List.mem_of_mem_tail hl)

end

/-! ## Handling

The pieces are handled in the order of the lines. As long as the pieces of each
line come to what the line would have come to, the states behind the lines are the
same in both readings. -/

/-- The handler is called with each of the texts, `n` having come before. -/
def run (handle : Nat → σ → List α → Except ρ σ) : Nat → σ → List (List α) → Except ρ σ
  | _, st, [] => .ok st
  | n, st, p :: ps => handle n st p >>= fun st => run handle (n + 1) st ps

/-- The handler is called with each whole line, although they came in pieces. -/
def runWhole (cut : List α → List (List α)) (handle : Nat → σ → List α → Except ρ σ) :
    Nat → σ → List (List α) → Except ρ σ
  | _, st, [] => .ok st
  | n, st, l :: ls =>
      handle n st l >>= fun st => runWhole cut handle (n + (cut l).length) st ls

/-- The line is reached with `n` pieces before it. -/
def Reached (cut : List α → List (List α)) (handle : Nat → σ → List α → Except ρ σ)
    (ls : List (List α)) (start : σ) (n : Nat) (st : σ) (l : List α) : Prop :=
  ∃ pre post, ls = pre ++ l :: post ∧ n = (pre.flatMap cut).length ∧
    run handle 0 start (pre.flatMap cut) = .ok st

/-- What is made of the pieces of each line is what is made of the line. -/
def Once (cut : List α → List (List α)) (handle : Nat → σ → List α → Except ρ σ)
    (ls : List (List α)) (start : σ) : Prop :=
  ∀ n st l, Reached cut handle ls start n st l → run handle n st (cut l) = handle n st l

variable {cut : List α → List (List α)} {handle : Nat → σ → List α → Except ρ σ}

theorem run_append (ps qs : List (List α)) : ∀ (n : Nat) (st : σ),
    run handle n st (ps ++ qs) =
      run handle n st ps >>= fun st => run handle (n + ps.length) st qs := by
  induction ps with
  | nil => exact fun _ _ => rfl
  | cons p ps ih =>
      intro n st
      rw [List.cons_append, run, run, List.length_cons]
      cases handle n st p with
      | error e => rfl
      | ok st' =>
          have hnext := ih (n + 1) st'
          rw [Nat.add_assoc, Nat.add_comm 1] at hnext
          exact hnext

theorem run_singleton (n : Nat) (st : σ) (p : List α) : run handle n st [p] = handle n st p := by
  rw [run]
  cases handle n st p <;> rfl

/-- The reading from a line on that is reached. -/
theorem run_cut_from {ls : List (List α)} {start : σ} (honce : Once cut handle ls start)
    {rest : List (List α)} : ∀ {pre : List (List α)} {st : σ}, ls = pre ++ rest →
    run handle 0 start (pre.flatMap cut) = .ok st →
    run handle (pre.flatMap cut).length st (rest.flatMap cut) =
      runWhole cut handle (pre.flatMap cut).length st rest := by
  induction rest with
  | nil => exact fun _ _ => rfl
  | cons l rest ih =>
      intro pre st hls hpre
      have hline := honce _ st l ⟨pre, rest, hls, rfl, hpre⟩
      rw [List.flatMap_cons, run_append, hline, runWhole]
      cases hhandle : handle (pre.flatMap cut).length st l with
      | error e => rfl
      | ok st' =>
          have hall : (pre ++ [l]).flatMap cut = pre.flatMap cut ++ cut l := by
            rw [List.flatMap_append, List.flatMap_singleton]
          have hreach : run handle 0 start ((pre ++ [l]).flatMap cut) = .ok st' := by
            rw [hall, run_append, hpre]
            show run handle (0 + _) st (cut l) = _
            rw [Nat.zero_add, hline, hhandle]
          have hnext := @ih (pre ++ [l]) _ (by rw [hls, List.append_assoc]; rfl) hreach
          rw [hall, List.length_append] at hnext
          exact hnext

/-- Reading the pieces comes to reading the lines. -/
theorem run_cut {ls : List (List α)} {start : σ} (honce : Once cut handle ls start) :
    run handle 0 start (ls.flatMap cut) = runWhole cut handle 0 start ls :=
  run_cut_from honce (List.nil_append ls).symm rfl

/-- Where the handler does not ask what came before, the lines are handled as they would
be if they had come whole. -/
theorem runWhole_eq (f : σ → List α → Except ρ σ) (ls : List (List α)) :
    ∀ (n m : Nat) (st : σ),
      runWhole cut (fun _ => f) n st ls = run (fun _ => f) m st ls := by
  induction ls with
  | nil => exact fun _ _ _ => rfl
  | cons l ls ih =>
      intro n m st
      rw [runWhole, run]
      cases f st l with
      | error e => rfl
      | ok st' => exact ih _ _ st'

/-! ## One of the pieces for all of them

What a line comes to may be what one of its pieces comes to, when the other pieces
come to nothing. -/

/-- One of the pieces comes to `b` and the others to nothing. -/
def Alone {β : Type u} (nothing b : β) (bs : List β) : Prop :=
  ∃ pre post, bs = pre ++ b :: post ∧ ∀ c ∈ pre ++ post, c = nothing

theorem alone_iff {β : Type u} [DecidableEq β] {nothing b : β} {bs : List β} (hne : bs ≠ []) :
    Alone nothing b bs ↔ bs.filter (· ≠ nothing) = [b].filter (· ≠ nothing) := by
  have hnone : ∀ {cs : List β}, cs.filter (· ≠ nothing) = [] ↔ ∀ c ∈ cs, c = nothing := by
    intro cs
    simp [List.filter_eq_nil_iff]
  constructor
  · rintro ⟨pre, post, rfl, hall⟩
    have hpre := hnone.2 fun c hc => hall c (List.mem_append_left _ hc)
    have hpost := hnone.2 fun c hc => hall c (List.mem_append_right _ hc)
    rw [List.filter_append, ← List.singleton_append, List.filter_append, hpre, hpost,
      List.nil_append, List.append_nil]
  · intro h
    by_cases hb : b = nothing
    · -- nothing at all: any of the pieces is as good
      subst hb
      have hall := hnone.1 (h.trans (by simp))
      obtain ⟨c, cs, rfl⟩ := List.exists_cons_of_ne_nil hne
      obtain rfl := hall c (List.mem_cons_self ..)
      exact ⟨[], cs, rfl, fun d hd => hall d (List.mem_cons_of_mem _ hd)⟩
    · have hone : bs.filter (· ≠ nothing) = [b] := by simpa [hb] using h
      have hmem : b ∈ bs := List.mem_of_mem_filter (hone ▸ List.mem_singleton_self b)
      obtain ⟨pre, post, rfl⟩ := List.append_of_mem hmem
      refine ⟨pre, post, rfl, hnone.1 ?_⟩
      rw [List.filter_append, List.filter_cons_of_pos (by simpa using hb)] at hone
      have hlen := congrArg List.length hone
      simp only [List.length_append, List.length_cons, List.length_nil] at hlen
      rw [List.filter_append, List.length_eq_zero_iff.1 (by omega :
        (pre.filter (· ≠ nothing)).length = 0), List.length_eq_zero_iff.1 (by omega :
        (post.filter (· ≠ nothing)).length = 0), List.nil_append]

end Lines
