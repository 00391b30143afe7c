import UiServer.Conf.Line
import UiServer.Lib.Lines
import UiServer.Template.Table

/-!
# Lines that are longer than the buffer

The three loaders read with `fgets`, which cuts a line that does not fit the buffer,
and look at each piece as if it were a line.
-/

namespace UiServer

open CMem Lines

/-! ## What `fgets` gives

A line that fits is given whole and one that does not in pieces, and behind the
last piece `fgets` is at the next line. So the pieces of a text are those of its
lines, one line after the other. -/

/-- The pieces of a text that `fgets` gives, read with room for `n` bytes. -/
def fgetsAll (n : Nat) : Nat → Bytes → List Bytes
  | 0, _ => []
  | _ + 1, [] => []
  | fuel + 1, s =>
      let (buf, rest) := fgets n s
      buf :: fgetsAll n fuel rest

/-- The pieces of a line. -/
def pieces (n : Nat) (line : Bytes) : List Bytes := fgetsAll n line.length line

theorem fgets_fits {n : Nat} : ∀ {s l : Bytes} {ls : List Bytes}, lines newline s = l :: ls →
    l.length ≤ n → fgets n s = (l, s.drop l.length) ∧ lines newline (s.drop l.length) = ls := by
  induction n with
  | zero =>
      intro s l ls hs hl
      have hne := ne_nil_of_mem_lines l (hs ▸ List.mem_cons_self ..)
      exact absurd (List.length_eq_zero_iff.1 (Nat.le_zero.1 hl)) hne
  | succ n ih =>
      intro s l ls hs hl
      cases s with
      | nil => cases hs
      | cons c s =>
          by_cases hc : c = newline
          · rw [hc, lines_sep] at hs
            obtain ⟨rfl, rfl⟩ := List.cons.inj hs
            have hc' : c = 10 := hc
            rw [fgets, if_pos hc', hc']
            exact ⟨rfl, rfl⟩
          · rw [lines_cons hc] at hs
            obtain ⟨rfl, rfl⟩ := List.cons.inj hs
            have hc' : ¬ c = 10 := hc
            rw [fgets, if_neg hc']
            cases hrest : lines newline s with
            | nil =>
                cases s with
                | nil => cases n <;> exact ⟨rfl, rfl⟩
                | cons d s => exact absurd hrest (lines_ne_nil (List.cons_ne_nil _ _))
            | cons l ls =>
                rw [hrest, List.headD_cons, List.length_cons] at hl
                obtain ⟨hfgets, hlines⟩ := ih hrest (Nat.le_of_succ_le_succ hl)
                rw [hfgets]
                exact ⟨rfl, hlines⟩

theorem fgets_cut {n : Nat} : ∀ {s l : Bytes} {ls : List Bytes}, lines newline s = l :: ls →
    n < l.length → fgets n s = (l.take n, s.drop n) ∧
      lines newline (s.drop n) = l.drop n :: ls := by
  induction n with
  | zero => exact fun hs _ => ⟨rfl, hs⟩
  | succ n ih =>
      intro s l ls hs hl
      cases s with
      | nil => cases hs
      | cons c s =>
          by_cases hc : c = newline
          · rw [hc, lines_sep] at hs
            obtain ⟨rfl, rfl⟩ := List.cons.inj hs
            exact absurd hl (by simp)
          · rw [lines_cons hc] at hs
            obtain ⟨rfl, rfl⟩ := List.cons.inj hs
            have hc' : ¬ c = 10 := hc
            rw [fgets, if_neg hc']
            cases hrest : lines newline s with
            | nil =>
                rw [hrest] at hl
                exact absurd hl (by simp)
            | cons l ls =>
                rw [hrest, List.headD_cons, List.length_cons] at hl
                obtain ⟨hfgets, hlines⟩ := ih hrest (Nat.lt_of_succ_lt_succ hl)
                rw [hfgets]
                exact ⟨rfl, hlines⟩

theorem fgets_snd_lt {n : Nat} {s : Bytes} (hs : s ≠ []) :
    (fgets (n + 1) s).2.length < s.length := by
  obtain ⟨l, ls, hl⟩ := List.exists_cons_of_ne_nil (@lines_ne_nil _ _ newline _ hs)
  have hpos := List.length_pos_iff.2 hs
  have hlpos := List.length_pos_iff.2 (ne_nil_of_mem_lines l (hl ▸ List.mem_cons_self ..))
  rcases Nat.lt_or_ge (n + 1) l.length with hlt | hge
  · rw [(fgets_cut hl hlt).1, List.length_drop]
    omega
  · rw [(fgets_fits hl hge).1, List.length_drop]
    omega

theorem fgetsAll_cons {n fuel : Nat} {s : Bytes} (hs : s ≠ []) :
    fgetsAll n (fuel + 1) s = (fgets n s).1 :: fgetsAll n fuel (fgets n s).2 := by
  cases s with
  | nil => exact absurd rfl hs
  | cons c s => rfl

theorem fgetsAll_congr {n : Nat} : ∀ {fuel fuel' : Nat} {s : Bytes}, s.length ≤ fuel →
    s.length ≤ fuel' → fgetsAll (n + 1) fuel s = fgetsAll (n + 1) fuel' s := by
  intro fuel
  induction fuel with
  | zero =>
      intro fuel' s hs _
      rw [List.length_eq_zero_iff.1 (Nat.le_zero.1 hs)]
      cases fuel' <;> rfl
  | succ fuel ih =>
      intro fuel' s hs hs'
      by_cases hne : s = []
      · rw [hne]
        cases fuel' <;> rfl
      · have hlt := @fgets_snd_lt n s hne
        have hpos := List.length_pos_iff.2 hne
        obtain ⟨fuel', rfl⟩ : ∃ k, fuel' = k + 1 := ⟨fuel' - 1, by omega⟩
        rw [fgetsAll_cons hne, fgetsAll_cons hne]
        exact congrArg _ (ih (by omega) (by omega))

/-- There is fuel enough in the length of the text. -/
theorem fgetsAll_fuel {n fuel : Nat} {s : Bytes} (h : s.length ≤ fuel) :
    fgetsAll (n + 1) fuel s = pieces (n + 1) s := fgetsAll_congr h (Nat.le_refl _)

theorem pieces_cons {n : Nat} {s : Bytes} (hs : s ≠ []) :
    pieces (n + 1) s = (fgets (n + 1) s).1 :: pieces (n + 1) (fgets (n + 1) s).2 := by
  have hlt := @fgets_snd_lt n s hs
  obtain ⟨k, hk⟩ : ∃ k, s.length = k + 1 := ⟨s.length - 1, by omega⟩
  rw [pieces, hk, fgetsAll_cons hs, fgetsAll_fuel (by omega)]

/-- A line that fits comes in one piece. -/
theorem pieces_fits {n : Nat} {l : Bytes} (hline : lines newline l = [l]) (h : l.length ≤ n + 1) :
    pieces (n + 1) l = [l] := by
  have hne := ne_nil_of_mem_lines l (hline ▸ List.mem_cons_self ..)
  rw [pieces_cons hne, (fgets_fits hline h).1, List.drop_length]
  rfl

/-- One that does not is cut. -/
theorem pieces_cut {n : Nat} {l : Bytes} (hline : lines newline l = [l]) (h : n + 1 < l.length) :
    pieces (n + 1) l = l.take (n + 1) :: pieces (n + 1) (l.drop (n + 1)) := by
  have hne := ne_nil_of_mem_lines l (hline ▸ List.mem_cons_self ..)
  rw [pieces_cons hne, (fgets_cut hline h).1]

/-- A line is its own only line. -/
theorem lines_line {s : Bytes} : ∀ l ∈ lines newline s, lines newline l = [l] := by
  induction s with
  | nil => exact nofun
  | cons c s ih =>
      intro l hl
      by_cases hc : c = newline
      · rw [hc, lines_sep] at hl
        rcases List.mem_cons.1 hl with rfl | hl
        · rfl
        · exact ih l hl
      · rw [lines_cons hc] at hl
        rcases List.mem_cons.1 hl with rfl | hl
        · rw [lines_cons hc]
          cases hs : lines newline s with
          | nil => rfl
          | cons l ls =>
              rw [List.headD_cons, ih l (hs ▸ List.mem_cons_self ..)]
              rfl
        · exact ih l (List.mem_of_mem_tail hl)

/-- The pieces of a text are those of its lines. -/
theorem pieces_lines {n : Nat} (s : Bytes) :
    pieces (n + 1) s = (lines newline s).flatMap (pieces (n + 1)) := by
  generalize hlen : s.length = k
  induction k using Nat.strong_induction_on generalizing s with
  | _ k ih =>
      by_cases hne : s = []
      · rw [hne]
        rfl
      · have hlt := @fgets_snd_lt n s hne
        obtain ⟨l, ls, hl⟩ := List.exists_cons_of_ne_nil (@lines_ne_nil _ _ newline _ hne)
        have hline := lines_line l (hl ▸ List.mem_cons_self ..)
        have hrest := ih _ (hlen ▸ hlt) _ rfl
        rw [pieces_cons hne, hrest, hl, List.flatMap_cons]
        rcases Nat.lt_or_ge (n + 1) l.length with hcut | hfits
        · obtain ⟨hfgets, hlines⟩ := fgets_cut hl hcut
          rw [hfgets, hlines, List.flatMap_cons, pieces_cut hline hcut]
          rfl
        · obtain ⟨hfgets, hlines⟩ := fgets_fits hl hfits
          rw [hfgets, hlines, pieces_fits hline hfits]
          rfl

end UiServer
