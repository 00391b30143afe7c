import Mathlib.Data.List.ReduceOption
import UiServer.Proofs.Lines

/-!
# The three loaders, line by line

`readlines_2_array` reads the names of the templates into places of 32 bytes,
`as_load_template_var_table` and `async_load_conf` read into 1024. Each takes a piece
of a long line for a line: a piece of a comment need not begin with `#`, and a line of
exactly the size of the buffer leaves its line end for a line of its own.

A loader does with each line it reaches what it is meant to if and only if the line
fits, or its pieces come to the same (`loaders_right_iff`): one of them reads as the
line does and the others as nothing, or the loader stops at the line either way.
-/

namespace UiServer

open CMem Lines

/-! ## What comes of a list of pieces

The three loaders are compared with the same reading of a file: each line of it
handled once, against each of the pieces that `fgets` makes of the line. What is
needed of lists is when the pieces say one thing and the line says the same. -/

theorem filter_ne_none {β : Type} [DecidableEq β] (os : List (Option β)) :
    os.filter (· ≠ none) = os.reduceOption.map some := by
  induction os with
  | nil => rfl
  | cons o os ih =>
      cases o with
      | none => rw [List.filter_cons_of_neg (by simp), List.reduceOption_cons_of_none, ih]
      | some b => rw [List.filter_cons_of_pos (by simp), List.reduceOption_cons_of_some,
          List.map_cons, ih]

/-- One of the pieces reads as the line and the others as nothing. -/
theorem alone_none_iff {β : Type} [DecidableEq β] {o : Option β} {os : List (Option β)}
    (hne : os ≠ []) : Alone none o os ↔ os.reduceOption = [o].reduceOption := by
  rw [alone_iff hne, filter_ne_none, filter_ne_none]
  exact (List.map_injective_iff.2 fun _ _ => Option.some.inj).eq_iff

/-- A line and the first of its pieces. -/
theorem pieces_first {n : Nat} {l : Bytes} (hline : lines newline l = [l]) :
    ∃ ps, pieces (n + 1) l = l.take (n + 1) :: ps := by
  rcases Nat.lt_or_ge (n + 1) l.length with hcut | hfits
  · exact ⟨_, pieces_cut hline hcut⟩
  · rw [pieces_fits hline hfits, List.take_of_length_le hfits]
    exact ⟨_, rfl⟩

theorem pieces_ne_nil {n : Nat} {l : Bytes} (hline : lines newline l = [l]) :
    pieces (n + 1) l ≠ [] := by
  obtain ⟨ps, h⟩ := @pieces_first n l hline
  rw [h]
  exact List.cons_ne_nil _ _

/-- A line that is reached is a line. -/
theorem line_of_reached {σ ρ : Type} {cut : Bytes → List Bytes}
    {handle : Nat → σ → Bytes → Except ρ σ} {file : Bytes} {start st : σ} {n : Nat} {l : Bytes}
    (h : Reached cut handle (lines newline file) start n st l) : lines newline l = [l] := by
  obtain ⟨pre, post, hls, -, -⟩ := h
  exact lines_line l (hls ▸ List.mem_append_right _ (List.mem_cons_self ..))

/-! ## The names of the templates

A name takes a place each, so two pieces of one line take two. A line is right if
its pieces are one name, the same as the line's, or if it is reached with one
place left, since the loader then stops behind its first piece. -/

def maxTemplateNum : Nat := 32

/-- The name that a line is, if it is no comment. -/
def nameOf (line : Bytes) : Option Bytes :=
  if line.head? = some 35 then none else some (trimNR line)

/-- A round of `readlines_2_array`. -/
def addName (_ : Nat) (names : List Bytes) (line : Bytes) :
    Except (List Bytes) (List Bytes) :=
  match nameOf line with
  | none => .ok names
  | some name =>
      if names.length + 1 = maxTemplateNum then .error (names ++ [name])
      else .ok (names ++ [name])

def collected : Except (List Bytes) (List Bytes) → List Bytes
  | .ok names => names
  | .error names => names

section

variable {fuel room n : Nat} {s : Bytes} {names : List Bytes}

theorem readlines2Array_comment (hs : s ≠ []) (h : nameOf (fgets 31 s).1 = none) :
    readlines2Array maxTemplateNameLen (fuel + 1) (room + 1) s =
      readlines2Array maxTemplateNameLen fuel (room + 1) (fgets 31 s).2 := by
  obtain ⟨c, s, rfl⟩ := List.exists_cons_of_ne_nil hs
  rw [nameOf] at h
  split at h
  · next hcomment => exact if_pos hcomment
  · cases h

theorem readlines2Array_name {name : Bytes} (hs : s ≠ [])
    (h : nameOf (fgets 31 s).1 = some name) :
    readlines2Array maxTemplateNameLen (fuel + 1) (room + 1) s =
      name :: readlines2Array maxTemplateNameLen fuel room (fgets 31 s).2 := by
  obtain ⟨c, s, rfl⟩ := List.exists_cons_of_ne_nil hs
  rw [nameOf] at h
  split at h
  · cases h
  · next hname =>
      rw [← Option.some.inj h]
      exact if_neg hname

theorem run_addName_comment {p : Bytes} {ps : List Bytes} (h : nameOf p = none) :
    run addName n names (p :: ps) = run addName (n + 1) names ps := by
  rw [run, addName, h]
  rfl

theorem run_addName_last {p name : Bytes} {ps : List Bytes} (h : nameOf p = some name)
    (hlast : names.length + 1 = maxTemplateNum) :
    run addName n names (p :: ps) = .error (names ++ [name]) := by
  rw [run, addName, h]
  simp only [if_pos hlast]
  rfl

theorem run_addName_next {p name : Bytes} {ps : List Bytes} (h : nameOf p = some name)
    (hnext : names.length + 1 ≠ maxTemplateNum) :
    run addName n names (p :: ps) = run addName (n + 1) (names ++ [name]) ps := by
  rw [run, addName, h]
  simp only [if_neg hnext]
  rfl

end

theorem readlines2Array_run : ∀ (fuel room n : Nat) (s : Bytes) (names : List Bytes),
    names.length + (room + 1) = maxTemplateNum →
    names ++ readlines2Array maxTemplateNameLen fuel (room + 1) s =
      collected (run addName n names (fgetsAll 31 fuel s)) := by
  intro fuel
  induction fuel with
  | zero => exact fun _ _ _ _ _ => List.append_nil _
  | succ fuel ih =>
      intro room n s names hroom
      by_cases hs : s = []
      · rw [hs]
        exact List.append_nil _
      · rw [fgetsAll_cons hs]
        cases hname : nameOf (fgets 31 s).1 with
        | none =>
            rw [readlines2Array_comment hs hname, run_addName_comment hname]
            exact ih room _ _ names hroom
        | some name =>
            rw [readlines2Array_name hs hname, ← List.singleton_append, ← List.append_assoc]
            cases room with
            | zero =>
                rw [run_addName_last hname hroom]
                cases fuel <;> exact List.append_nil _
            | succ room =>
                rw [run_addName_next hname (by omega)]
                refine ih room _ _ _ ?_
                rw [List.length_append, List.length_singleton]
                omega

/-- The names behind some pieces: those the pieces are, as many as there is room for. -/
def addNames (names new : List Bytes) : Except (List Bytes) (List Bytes) :=
  if names.length + new.length < maxTemplateNum then .ok (names ++ new) else .error (names ++ new)

theorem addNames_inj {names new new' : List Bytes} (h : addNames names new = addNames names new') :
    new = new' := by
  have hcollected : ∀ new, collected (addNames names new) = names ++ new := by
    intro new
    rw [addNames]
    split <;> rfl
  have hall := congrArg collected h
  rw [hcollected, hcollected] at hall
  exact List.append_cancel_left hall

theorem run_addName {ps : List Bytes} : ∀ {n : Nat} {names : List Bytes},
    names.length < maxTemplateNum →
    run addName n names ps =
      addNames names ((ps.filterMap nameOf).take (maxTemplateNum - names.length)) := by
  induction ps with
  | nil =>
      intro n names hlt
      rw [run, List.filterMap_nil, List.take_nil, addNames, List.length_nil, Nat.add_zero,
        if_pos hlt, List.append_nil]
  | cons p ps ih =>
      intro n names hlt
      rw [List.filterMap_cons]
      cases hname : nameOf p with
      | none =>
          rw [run_addName_comment hname]
          exact ih hlt
      | some name =>
          simp only
          have hsucc : maxTemplateNum - names.length =
              maxTemplateNum - (names.length + 1) + 1 := by omega
          have hlength : (names ++ [name]).length = names.length + 1 := by simp
          rw [hsucc, List.take_succ_cons, addNames, List.length_cons]
          by_cases hlast : names.length + 1 = maxTemplateNum
          · have hfull : ¬ names.length + (0 + 1) < maxTemplateNum := by omega
            rw [run_addName_last hname hlast, hlast, Nat.sub_self, List.take_zero,
              List.length_nil, if_neg hfull]
          · rw [run_addName_next hname hlast, ih (by omega), hlength, addNames, hlength,
              Nat.add_assoc, Nat.add_comm 1, List.append_assoc]
            rfl

/-- The line is a name for which the last place is left, and its first piece is the
same name; or one of its pieces is what the line is, a name or nothing, and the others
are comments. -/
def NameFits (names : List Bytes) (line : Bytes) : Prop :=
  line.length ≤ 31 ∨
    if line.head? ≠ some 35 ∧ names.length + 1 = maxTemplateNum then
      nameOf (line.take 31) = nameOf line
    else Alone none (nameOf line) ((pieces 31 line).map nameOf)

theorem nameOf_eq_none {line : Bytes} : nameOf line = none ↔ line.head? = some 35 := by
  rw [nameOf]
  split
  · next h => exact ⟨fun _ => h, fun _ => rfl⟩
  · next h => exact ⟨nofun, fun h' => absurd h' h⟩

theorem filterMap_nameOf (ps : List Bytes) :
    (ps.map nameOf).reduceOption = ps.filterMap nameOf := by
  rw [List.reduceOption, List.filterMap_map]
  rfl

/-- A list with room left is told from its beginning. -/
theorem take_eq_take_iff {β : Type} {k : Nat} {as bs : List β} (h : bs.length < k) :
    as.take k = bs.take k ↔ as = bs := by
  refine ⟨fun heq => ?_, fun heq => by rw [heq]⟩
  rw [List.take_of_length_le (Nat.le_of_lt h)] at heq
  have hlen := congrArg List.length heq
  rw [List.length_take] at hlen
  rw [List.take_of_length_le (by omega)] at heq
  exact heq

/-- The rounds for the pieces of a line do what a round for the line does. -/
theorem addName_once_iff {n : Nat} {names : List Bytes} {line : Bytes}
    (hlt : names.length < maxTemplateNum) (hline : lines newline line = [line]) :
    run addName n names (pieces 31 line) = addName n names line ↔ NameFits names line := by
  obtain ⟨ps, hps⟩ := @pieces_first 30 line hline
  obtain ⟨c, s, hcons⟩ := List.exists_cons_of_ne_nil
    (ne_nil_of_mem_lines line (hline ▸ List.mem_cons_self ..))
  have hrun : run addName n names (pieces 31 line) = addName n names line ↔
      ((pieces 31 line).filterMap nameOf).take (maxTemplateNum - names.length) =
        ([line].filterMap nameOf).take (maxTemplateNum - names.length) := by
    rw [← @run_singleton _ _ _ addName n names line, run_addName hlt, run_addName hlt]
    exact ⟨addNames_inj, congrArg _⟩
  have halone := @alone_none_iff _ _ (nameOf line) ((pieces 31 line).map nameOf) (by
    rw [hps]
    exact List.cons_ne_nil _ _)
  have hone : [nameOf line].reduceOption = [line].filterMap nameOf := filterMap_nameOf [line]
  rw [filterMap_nameOf, hone] at halone
  rw [NameFits]
  by_cases hfits : line.length ≤ 31
  · rw [@pieces_fits 30 line hline hfits, run_singleton]
    exact ⟨fun _ => Or.inl hfits, fun _ => rfl⟩
  · rw [or_iff_right hfits, hrun]
    split
    · next hlast =>
        -- the first piece fills the last place, and the others are not read
        have hk : maxTemplateNum - names.length = 1 := by omega
        have hname : nameOf line = some (trimNR line) := if_neg hlast.1
        have hfirst : nameOf (line.take 31) = some (trimNR (line.take 31)) := by
          rw [hcons] at hlast ⊢
          exact if_neg hlast.1
        rw [hk, hps, List.filterMap_cons_some hfirst, List.filterMap_cons_some hname, hname,
          hfirst]
        simp
    · next hroom =>
        have hlength : ([line].filterMap nameOf).length < maxTemplateNum - names.length := by
          by_cases hcomment : line.head? = some 35
          · rw [List.filterMap_cons_none (nameOf_eq_none.2 hcomment)]
            exact Nat.sub_pos_of_lt hlt
          · have hmore : names.length + 1 ≠ maxTemplateNum := fun h => hroom ⟨hcomment, h⟩
            have hle := List.length_filterMap_le nameOf [line]
            rw [List.length_singleton] at hle
            omega
        rw [take_eq_take_iff hlength, halone]

/-- The names that are read when a line is reached leave room for one more. -/
theorem reached_names_lt {file line : Bytes} {n : Nat} {names : List Bytes}
    (h : Reached (pieces 31) addName (lines newline file) [] n names line) :
    names.length < maxTemplateNum := by
  obtain ⟨pre, post, -, -, hrun⟩ := h
  rw [run_addName (by decide), addNames] at hrun
  split at hrun
  · next hlt =>
      rw [← Except.ok.inj hrun]
      simpa using hlt
  · cases hrun

/-- `template.conf` is read line by line: the names are those of the lines that are no
comments, as many as there are places. -/
structure NamesRight (file : Bytes) : Prop where
  once : Once (pieces 31) addName (lines newline file) []
  names : readlines2Array maxTemplateNameLen file.length maxTemplateNum file =
    ((lines newline file).filterMap nameOf).take maxTemplateNum

theorem namesRight_iff (file : Bytes) :
    NamesRight file ↔ ∀ n names line,
      Reached (pieces 31) addName (lines newline file) [] n names line → NameFits names line := by
  constructor
  · intro h n names line hreached
    exact (addName_once_iff (reached_names_lt hreached) (line_of_reached hreached)).1
      (h.once n names line hreached)
  · intro h
    have honce : Once (pieces 31) addName (lines newline file) [] := fun n names line hreached =>
      (addName_once_iff (reached_names_lt hreached) (line_of_reached hreached)).2
        (h n names line hreached)
    refine ⟨honce, ?_⟩
    have hread := readlines2Array_run file.length 31 0 file [] rfl
    have hwhole := @runWhole_eq _ _ _ (pieces 31) (addName 0) (lines newline file) 0 0 []
    have hlines : run addName 0 [] (pieces 31 file) =
        run addName 0 [] (lines newline file) := by
      rw [@pieces_lines 30, run_cut honce]
      exact hwhole
    rw [List.nil_append] at hread
    refine hread.trans ?_
    show collected (run addName 0 [] (pieces 31 file)) = _
    rw [hlines, run_addName (by decide), addNames]
    split <;> rfl

/-! ## The table of variables

Here a line that is neither a row nor a comment makes the loader give up. A line
is right if it and its pieces both make it give up, or if one piece is the row
that the line is and the others are passed over. -/

/-- The row that a line is, if it is one. -/
def TableLine.row? : TableLine → Option TemplateTable
  | .row r => some r
  | _ => none

/-- A round of `as_load_template_var_table`. -/
def addRow (_ : Nat) (rows : List TemplateTable) (line : Bytes) :
    Except Unit (List TemplateTable) :=
  match tableLine line with
  | .fail => .error ()
  | .skip => .ok rows
  | .row r => if rows.length + 1 = maxVarsNum then .error () else .ok (rows ++ [r])

/-- With `num` rows in the table these lines make the loader give up: one of them is no
row, or the table gets full. -/
def Refused (num : Nat) (ts : List TableLine) : Prop :=
  .fail ∈ ts ∨ maxVarsNum ≤ num + (ts.filterMap TableLine.row?).length

instance (num : Nat) (ts : List TableLine) : Decidable (Refused num ts) :=
  inferInstanceAs (Decidable (_ ∨ _))

theorem not_refused_nil {num : Nat} (h : num < maxVarsNum) : ¬ Refused num [] := by
  rintro (hmem | hle)
  · cases hmem
  · exact absurd hle (Nat.not_le.2 h)

theorem refused_fail (num : Nat) (ts : List TableLine) : Refused num (.fail :: ts) :=
  Or.inl (List.mem_cons_self ..)

theorem refused_skip {num : Nat} {ts : List TableLine} :
    Refused num (.skip :: ts) ↔ Refused num ts := by
  simp [Refused, List.filterMap_cons, TableLine.row?]

theorem refused_row {num : Nat} {r : TemplateTable} {ts : List TableLine} :
    Refused num (.row r :: ts) ↔ Refused (num + 1) ts := by
  simp [Refused, TableLine.row?, Nat.add_assoc, Nat.add_comm 1]

theorem loadTable_run : ∀ (fuel n : Nat) (s : Bytes) (rows : List TemplateTable),
    (loadTable fuel s rows.length).map (rows ++ ·) =
      (run addRow n rows (fgetsAll 1023 fuel s)).toOption := by
  intro fuel
  induction fuel with
  | zero =>
      intro n s rows
      rw [loadTable, Option.map_some, List.append_nil]
      rfl
  | succ fuel ih =>
      intro n s rows
      cases s with
      | nil =>
          rw [loadTable, Option.map_some, List.append_nil]
          rfl
      | cons c s =>
          rw [fgetsAll_cons (List.cons_ne_nil _ _), run, addRow]
          have hload : loadTable (fuel + 1) (c :: s) rows.length =
              match tableLine (fgets 1023 (c :: s)).1 with
              | .fail => none
              | .skip => loadTable fuel (fgets 1023 (c :: s)).2 rows.length
              | .row row =>
                  if rows.length + 1 = maxVarsNum then none
                  else (loadTable fuel (fgets 1023 (c :: s)).2 (rows.length + 1)).map (row :: ·) :=
            rfl
          rw [hload]
          cases tableLine (fgets 1023 (c :: s)).1 with
          | fail => rfl
          | skip => exact ih _ _ rows
          | row r =>
              simp only
              by_cases hfull : rows.length + 1 = maxVarsNum
              · rw [if_pos hfull, if_pos hfull]
                rfl
              · have hnext := ih (n + 1) (fgets 1023 (c :: s)).2 (rows ++ [r])
                rw [List.length_append, List.length_singleton] at hnext
                rw [if_neg hfull, if_neg hfull, Option.map_map]
                refine Eq.trans ?_ hnext
                refine congrArg (fun f => Option.map f _) (funext fun rest => ?_)
                simp

/-- What the table is behind some lines. -/
theorem run_addRow {ps : List Bytes} : ∀ {n : Nat} {rows : List TemplateTable},
    rows.length < maxVarsNum →
    run addRow n rows ps =
      if Refused rows.length (ps.map tableLine) then .error ()
      else .ok (rows ++ (ps.map tableLine).filterMap TableLine.row?) := by
  induction ps with
  | nil =>
      intro n rows hlt
      rw [run, List.map_nil, if_neg (not_refused_nil hlt), List.filterMap_nil, List.append_nil]
  | cons p ps ih =>
      intro n rows hlt
      rw [run, addRow, List.map_cons]
      cases tableLine p with
      | fail =>
          rw [if_pos (refused_fail _ _)]
          rfl
      | skip =>
          refine (ih hlt).trans ?_
          simp only [refused_skip]
          rfl
      | row r =>
          simp only [refused_row]
          by_cases hfull : rows.length + 1 = maxVarsNum
          · have hrefused : Refused (rows.length + 1) (ps.map tableLine) :=
              Or.inr (by omega)
            rw [if_pos hfull, if_pos hrefused]
            rfl
          · have hlength : (rows ++ [r]).length = rows.length + 1 := by simp
            rw [if_neg hfull]
            refine (ih (by omega)).trans ?_
            rw [hlength, List.append_assoc]
            rfl

/-- The loader gives up at the line and at its pieces; or one of the pieces is what the
line is, and the others are passed over. -/
def RowFits (rows : List TemplateTable) (line : Bytes) : Prop :=
  line.length ≤ 1023 ∨
    if Refused rows.length [tableLine line] then
      Refused rows.length ((pieces 1023 line).map tableLine)
    else Alone .skip (tableLine line) ((pieces 1023 line).map tableLine)

/-- The lines that count and the lines that are passed over tell the rows. -/
theorem filter_skip {ts : List TableLine} (h : .fail ∉ ts) :
    ts.filter (· ≠ .skip) = (ts.filterMap TableLine.row?).map .row := by
  induction ts with
  | nil => rfl
  | cons t ts ih =>
      have htail := ih fun hmem => h (List.mem_cons_of_mem _ hmem)
      cases t with
      | fail => exact absurd (List.mem_cons_self ..) h
      | skip => rw [List.filter_cons_of_neg (by simp), htail]; rfl
      | row r => rw [List.filter_cons_of_pos (by simp), htail]; rfl

theorem filter_skip_eq_iff {ts : List TableLine} {rs : List TemplateTable} :
    ts.filter (· ≠ .skip) = rs.map .row ↔ .fail ∉ ts ∧ ts.filterMap TableLine.row? = rs := by
  constructor
  · intro h
    have hfail : .fail ∉ ts := by
      intro hmem
      have hin : TableLine.fail ∈ rs.map TableLine.row := by
        rw [← h]
        exact List.mem_filter.2 ⟨hmem, by simp⟩
      obtain ⟨r, -, hr⟩ := List.mem_map.1 hin
      cases hr
    rw [filter_skip hfail] at h
    exact ⟨hfail, List.map_injective_iff.2 (fun _ _ => TableLine.row.inj) h⟩
  · intro ⟨hfail, hrows⟩
    rw [filter_skip hfail, hrows]

theorem addRow_once_iff {n : Nat} {rows : List TemplateTable} {line : Bytes}
    (hlt : rows.length < maxVarsNum) (hline : lines newline line = [line]) :
    run addRow n rows (pieces 1023 line) = addRow n rows line ↔ RowFits rows line := by
  have halone := @alone_iff _ _ TableLine.skip (tableLine line)
    ((pieces 1023 line).map tableLine) (mt List.map_eq_nil_iff.1 (pieces_ne_nil hline))
  rw [RowFits]
  by_cases hfits : line.length ≤ 1023
  · rw [@pieces_fits 1022 line hline hfits, run_singleton]
    exact ⟨fun _ => Or.inl hfits, fun _ => rfl⟩
  · rw [or_iff_right hfits, ← @run_singleton _ _ _ addRow n rows line, run_addRow hlt,
      run_addRow hlt, List.map_singleton]
    generalize hts : (pieces 1023 line).map tableLine = ts at halone ⊢
    by_cases hline' : Refused rows.length [tableLine line]
    · rw [if_pos hline', if_pos hline']
      by_cases hpieces : Refused rows.length ts
      · rw [if_pos hpieces]
        exact ⟨fun _ => hpieces, fun _ => rfl⟩
      · rw [if_neg hpieces]
        exact ⟨nofun, fun h => absurd h hpieces⟩
    · have hlinefail := fun h => hline' (Or.inl h)
      rw [if_neg hline', if_neg hline', halone, filter_skip hlinefail, filter_skip_eq_iff]
      by_cases hpieces : Refused rows.length ts
      · -- the same rows would fill the table with the line as well
        rw [if_pos hpieces]
        refine ⟨nofun, fun ⟨hfail, hrows⟩ => absurd ?_ hline'⟩
        rw [Refused, hrows] at hpieces
        exact Or.inr (hpieces.resolve_left hfail)
      · have hfail := fun h => hpieces (Or.inl h)
        rw [if_neg hpieces]
        constructor
        · exact fun h => ⟨hfail, List.append_cancel_left (Except.ok.inj h)⟩
        · exact fun h => by rw [h.2]

theorem reached_rows_lt {file line : Bytes} {n : Nat} {rows : List TemplateTable}
    (h : Reached (pieces 1023) addRow (lines newline file) [] n rows line) :
    rows.length < maxVarsNum := by
  obtain ⟨pre, post, -, -, hrun⟩ := h
  rw [run_addRow (by decide)] at hrun
  split at hrun
  · cases hrun
  · next hnot =>
      rw [← Except.ok.inj hrun, List.nil_append]
      have hlt := mt Or.inr hnot
      rw [List.length_nil] at hlt
      omega

/-- `template_table.conf` is read line by line. -/
structure TableRight (file : Bytes) : Prop where
  once : Once (pieces 1023) addRow (lines newline file) []
  table : asLoadTemplateVarTable (some file) = (run addRow 0 [] (lines newline file)).toOption

theorem tableRight_iff (file : Bytes) :
    TableRight file ↔ ∀ n rows line,
      Reached (pieces 1023) addRow (lines newline file) [] n rows line → RowFits rows line := by
  constructor
  · intro h n rows line hreached
    exact (addRow_once_iff (reached_rows_lt hreached) (line_of_reached hreached)).1
      (h.once n rows line hreached)
  · intro h
    have honce : Once (pieces 1023) addRow (lines newline file) [] := fun n rows line hreached =>
      (addRow_once_iff (reached_rows_lt hreached) (line_of_reached hreached)).2
        (h n rows line hreached)
    refine ⟨honce, ?_⟩
    have hload := loadTable_run file.length 0 file []
    have hwhole := @runWhole_eq _ _ _ (pieces 1023) (addRow 0) (lines newline file) 0 0 []
    have hlines : run addRow 0 [] (pieces 1023 file) = run addRow 0 [] (lines newline file) := by
      rw [@pieces_lines 1022, run_cut honce]
      exact hwhole
    have hid : (fun rest : List TemplateTable => [] ++ rest) = id := rfl
    rw [hid, Option.map_id] at hload
    rw [← hlines]
    exact hload

/-! ## Keys and values

Nothing makes this loader give up. A line is right if one of its pieces is the
setting that the line is, and the others are no settings. What lies in front of
the buffer plays a part for a line that begins with a colon, so the pieces are
numbered. -/

/-- The setting that a line is, with `stray` in front of the buffer, if it is one. -/
def setting (stray buf : Bytes) : Option ConfigLine :=
  match parseConfigLine stray (cstr buf) with
  | none => none
  | some line => if line.key.headD 0 = 35 then none else some line

/-- A round of `async_load_conf`. -/
def addSetting {σ : Type} (fn : σ → ConfigLine → σ) (stray : Nat → Bytes) (n : Nat) (data : σ)
    (buf : Bytes) : Except Empty σ :=
  .ok ((setting (stray n) buf).elim data (fn data))

/-- What the pieces of a line are, `n` having come before. -/
def readings (stray : Nat → Bytes) : Nat → List Bytes → List (Option ConfigLine)
  | _, [] => []
  | n, p :: ps => setting (stray n) p :: readings stray (n + 1) ps

/-- One of the pieces is what the line is, and the others are no settings. -/
def SettingFits (stray : Nat → Bytes) (n : Nat) (line : Bytes) : Prop :=
  line.length ≤ 1023 ∨ Alone none (setting (stray n) line) (readings stray n (pieces 1023 line))

theorem run_addSetting {σ : Type} (fn : σ → ConfigLine → σ) (stray : Nat → Bytes)
    (ps : List Bytes) : ∀ (n : Nat) (data : σ),
    run (addSetting fn stray) n data ps =
      .ok ((readings stray n ps).reduceOption.foldl fn data) := by
  induction ps with
  | nil => exact fun _ _ => rfl
  | cons p ps ih =>
      intro n data
      rw [run, addSetting, readings]
      cases setting (stray n) p with
      | none => exact ih (n + 1) data
      | some line => exact ih (n + 1) (fn data line)

theorem confLoop_run {σ : Type} (fn : σ → ConfigLine → σ) (stray : Nat → Bytes) :
    ∀ (fuel n : Nat) (s : Bytes) (data : σ),
      run (addSetting fn stray) n data (fgetsAll 1023 fuel s) =
        .ok (confLoop fn stray fuel n s data) := by
  intro fuel
  induction fuel with
  | zero => exact fun _ _ _ => rfl
  | succ fuel ih =>
      intro n s data
      cases s with
      | nil => rfl
      | cons c s =>
          have hloop : confLoop fn stray (fuel + 1) n (c :: s) data =
              confLoop fn stray fuel (n + 1) (fgets 1023 (c :: s)).2
                ((setting (stray n) (fgets 1023 (c :: s)).1).elim data (fn data)) := by
            rw [setting]
            show confLoop fn stray fuel (n + 1) (fgets 1023 (c :: s)).2 (match
              parseConfigLine (stray n) (cstr (fgets 1023 (c :: s)).1) with
              | none => data
              | some line => if line.key.headD 0 = 35 then data else fn data line) = _
            refine congrArg _ ?_
            cases parseConfigLine (stray n) (cstr (fgets 1023 (c :: s)).1) with
            | none => rfl
            | some line =>
                simp only
                split <;> rfl
          rw [fgetsAll_cons (List.cons_ne_nil _ _), run, hloop]
          exact ih _ _ _

theorem foldl_append_singleton {β : Type} (ls : List β) : ∀ start : List β,
    ls.foldl (fun ls l => ls ++ [l]) start = start ++ ls := by
  induction ls with
  | nil => exact fun start => (List.append_nil start).symm
  | cons l ls ih =>
      intro start
      rw [List.foldl_cons, ih, List.append_assoc]
      rfl

theorem settingFits_iff {stray : Nat → Bytes} {n : Nat} {line : Bytes}
    (hline : lines newline line = [line]) :
    SettingFits stray n line ↔
      (readings stray n (pieces 1023 line)).reduceOption =
        (readings stray n [line]).reduceOption := by
  have hne : readings stray n (pieces 1023 line) ≠ [] := by
    obtain ⟨ps, hps⟩ := @pieces_first 1022 line hline
    rw [hps]
    exact List.cons_ne_nil _ _
  rw [SettingFits]
  by_cases hfits : line.length ≤ 1023
  · rw [@pieces_fits 1022 line hline hfits]
    exact ⟨fun _ => rfl, fun _ => Or.inl hfits⟩
  · rw [or_iff_right hfits]
    exact alone_none_iff hne

theorem addSetting_once {stray : Nat → Bytes} {n : Nat} {line : Bytes}
    (hline : lines newline line = [line]) (h : SettingFits stray n line) {σ : Type}
    (fn : σ → ConfigLine → σ) (data : σ) :
    run (addSetting fn stray) n data (pieces 1023 line) = addSetting fn stray n data line := by
  rw [← @run_singleton _ _ _ (addSetting fn stray) n data line, run_addSetting,
    run_addSetting, (settingFits_iff hline).1 h]

/-- It is enough to list the settings. -/
theorem settingFits_of_once {stray : Nat → Bytes} {n : Nat} {line : Bytes}
    (hline : lines newline line = [line]) {found : List ConfigLine}
    (h : run (addSetting (fun ls l => ls ++ [l]) stray) n found (pieces 1023 line) =
      addSetting (fun ls l => ls ++ [l]) stray n found line) : SettingFits stray n line := by
  rw [← @run_singleton _ _ _ (addSetting _ stray) n found line, run_addSetting,
    run_addSetting] at h
  have heq := Except.ok.inj h
  rw [foldl_append_singleton, foldl_append_singleton] at heq
  exact (settingFits_iff hline).2 (List.append_cancel_left heq)

/-- `ui.conf` is read line by line. -/
structure ConfRight (stray : Nat → Bytes) (file : Bytes) : Prop where
  once : ∀ {σ : Type} (fn : σ → ConfigLine → σ) (data : σ),
    Once (pieces 1023) (addSetting fn stray) (lines newline file) data
  data : ∀ {σ : Type} (fn : σ → ConfigLine → σ) (data : σ),
    asyncLoadConf fn stray (some file) data =
      (runWhole (pieces 1023) (addSetting fn stray) 0 data (lines newline file)).toOption

theorem confRight_iff (stray : Nat → Bytes) (file : Bytes) :
    ConfRight stray file ↔ ∀ pre line post, lines newline file = pre ++ line :: post →
      SettingFits stray (pre.flatMap (pieces 1023)).length line := by
  constructor
  · intro h pre line post hls
    have hmem : line ∈ lines newline file := by
      rw [hls]
      exact List.mem_append_right _ (List.mem_cons_self ..)
    have hreached := run_addSetting (fun ls l => ls ++ [l]) stray (pre.flatMap (pieces 1023)) 0 []
    exact settingFits_of_once (lines_line line hmem)
      (h.once (fun ls l => ls ++ [l]) [] _ _ line ⟨pre, post, hls, rfl, hreached⟩)
  · intro h
    have honce : ∀ {σ : Type} (fn : σ → ConfigLine → σ) (data : σ),
        Once (pieces 1023) (addSetting fn stray) (lines newline file) data := by
      intro σ fn start n data line hreached
      have hline := line_of_reached hreached
      obtain ⟨pre, post, hls, rfl, -⟩ := hreached
      exact addSetting_once hline (h pre line post hls) fn data
    refine ⟨honce, fun fn data => ?_⟩
    have hloop := confLoop_run fn stray file.length 0 file data
    have hcut := run_cut (honce fn data)
    rw [← @pieces_lines 1022] at hcut
    rw [← hcut]
    exact (congrArg Except.toOption hloop).symm

/-- For every text, as the file of each of the three loaders. -/
theorem loaders_right_iff (stray : Nat → Bytes) (file : Bytes) :
    (NamesRight file ↔ ∀ n names line,
      Reached (pieces 31) addName (lines newline file) [] n names line → NameFits names line) ∧
    (TableRight file ↔ ∀ n rows line,
      Reached (pieces 1023) addRow (lines newline file) [] n rows line → RowFits rows line) ∧
    (ConfRight stray file ↔ ∀ pre line post, lines newline file = pre ++ line :: post →
      SettingFits stray (pre.flatMap (pieces 1023)).length line) :=
  ⟨namesRight_iff file, tableRight_iff file, confRight_iff stray file⟩

/-- A comment that fills the buffer, with `text` behind it in the same line. -/
def longComment (text : String) : Bytes :=
  35 :: List.replicate 1022 120 ++ ascii text ++ [newline]

/-- A name of 31 bytes leaves its line end for a name of its own; what a long comment
leaves makes the table fail, and is taken for a setting. -/
theorem loaders_right_fails :
    ¬ NamesRight (List.replicate 31 97 ++ [newline]) ∧
      ¬ TableRight (longComment "x") ∧
      ¬ ConfRight (fun _ => []) (longComment "Rn : 5") := by
  refine ⟨fun h => ?_, fun h => ?_, fun h => ?_⟩
  · have hread : readlines2Array maxTemplateNameLen 32 maxTemplateNum
        (List.replicate 31 97 ++ [newline]) = [List.replicate 31 97, []] := by
      decide +kernel
    exact absurd (hread.symm.trans h.names) (by decide +kernel)
  · have hload : asLoadTemplateVarTable (some (longComment "x")) = none := by decide +kernel
    exact absurd (hload.symm.trans h.table) (by decide +kernel)
  · have hload : asyncLoadConf (fun n _ => n + 1) (fun _ => []) (some (longComment "Rn : 5")) 0 =
        some 1 := by
      decide +kernel
    exact absurd (hload.symm.trans (h.data (fun n _ => n + 1) 0)) (by decide +kernel)

end UiServer
