import UiServer.Conf.Pointer
import UiServer.Proofs.ConfKey

/-!
# The pointer stays in the line

The pointer of `parse_config_line` leaves a line in two places: `*(p-1)` is read in front
of an empty line, and a first word that is made of colons is walked back over and out of
the line (`WordSplit.parseConfigLineAt_out`). On any other line all accesses are inside
(`WordSplit.parsed`), and then the parser does what it does with any bytes in front
(`configLine_parseConfigLineAt`).

The line is written as what lies on both sides of the pointer, and so is the cursor.
-/

namespace UiServer

open CMem Region

/-- The cursor between `u` and `rest`. -/
def cursorAt (stray u rest : Bytes) : Cursor := ⟨u.length, u.reverse ++ stray, rest⟩

theorem exists_concat {x : Bytes} (h : x ≠ []) : ∃ y e, x = y ++ [e] :=
  ⟨_, _, (List.dropLast_concat_getLast h).symm⟩

/-! ## Loops

A loop over a region stops at a byte that is there, at the latest at the
terminator. It stops where the cursor stops, as the cursor has the same bytes in
front of it. -/

theorem exists_goIf_split (c : UInt8) (v : Bytes) :
    ∃ w rest, v = w ++ rest ∧ (∀ b ∈ w, b = c) ∧ rest.head? ≠ some c := by
  refine ⟨v.takeWhile (· == c), v.dropWhile (· == c), List.takeWhile_append_dropWhile.symm,
    fun b hb => by simpa using List.mem_takeWhile_imp hb, fun hhead => ?_⟩
  have hnot := List.head?_dropWhile_not (· == c) v
  rw [hhead] at hnot
  simp at hnot

theorem exists_goUntil_split (c : UInt8) (v : Bytes) :
    ∃ w rest, v = w ++ rest ∧ c ∉ w ∧ (rest = [] ∨ rest.head? = some c) := by
  obtain ⟨w, rest, hv, hw, hrest, -⟩ := (Cursor.mk 0 [] v).goUntil_eq c
  exact ⟨w, rest, hv, hw, hrest⟩

section

variable {c : UInt8} {u w rest : Bytes}

theorem goIfAt_eq (hc : c ≠ 0) (hw : ∀ b ∈ w, b = c) (hrest : rest.head? ≠ some c) :
    goIfAt (u ++ (w ++ rest) ++ [0]) c u.length = .ok ((u ++ w).length : Int) := by
  refine walk_string (fun b hb => ?_) fun b hb => ?_
  · rw [hw b hb]
    exact ⟨hc, beq_self_eq_true c⟩
  · exact beq_eq_false_iff_ne.2 fun h => hrest (h ▸ hb)

theorem goUntilAt_eq (hnul : NulFree w) (hw : c ∉ w)
    (hrest : rest = [] ∨ rest.head? = some c) :
    goUntilAt (u ++ (w ++ rest) ++ [0]) c u.length = .ok ((u ++ w).length : Int) := by
  refine walk_string (fun b hb => ⟨hnul b hb, bne_iff_ne.2 fun h => hw (h ▸ hb)⟩) fun b hb => ?_
  rcases hrest with rfl | hrest
  · exact nomatch hb
  · rw [hrest] at hb
    rw [Option.some.inj hb, bne_self_eq_false]

theorem cursorAt_goIf (stray : Bytes) (hw : ∀ b ∈ w, b = c) (hrest : rest.head? ≠ some c) :
    (cursorAt stray u (w ++ rest)).goIf c = cursorAt stray (u ++ w) rest := by
  show goIf c u.length (u.reverse ++ stray) (w ++ rest) = _
  rw [goIf_append hw hrest, cursorAt, List.length_append, List.reverse_append, List.append_assoc,
    Int.natCast_add]

theorem cursorAt_goUntil (stray : Bytes) (hw : c ∉ w)
    (hrest : rest = [] ∨ rest.head? = some c) :
    (cursorAt stray u (w ++ rest)).goUntil c = cursorAt stray (u ++ w) rest := by
  show goUntil c u.length (u.reverse ++ stray) (w ++ rest) = _
  rw [goUntil_append hw hrest, cursorAt, List.length_append, List.reverse_append,
    List.append_assoc, Int.natCast_add]

/-- The byte at the pointer, where the cursor has it. -/
theorem load_cursor (stray : Bytes) :
    load (u ++ rest ++ [0]) u.length = .ok (cursorAt stray u rest).get := by
  cases rest with
  | nil =>
      rw [List.append_nil]
      exact load_append u 0 []
  | cons b rest =>
      rw [List.append_assoc]
      exact load_append u b (rest ++ [0])

end

/-! ## The end of the key

Going back is the one loop that no terminator stops. It stops at a byte of the
line that is no colon, and when there is none it leaves the line. -/

theorem backIf_append {c d : UInt8} (hd : d ≠ c) (far : Bytes) {w : Bytes}
    (hw : ∀ b ∈ w, b = c) : ∀ (pos : Int) (rest : Bytes),
    backIf c pos (w ++ d :: far) (c :: rest) =
      ⟨pos - w.length - 1, far, d :: (w.reverse ++ c :: rest)⟩ := by
  induction w with
  | nil =>
      intro pos rest
      have hstop : backIf c (pos - 1) far (d :: c :: rest) = ⟨pos - 1, far, d :: c :: rest⟩ := by
        have hhead : ¬ (d :: c :: rest).headD 0 = c := hd
        cases far with
        | nil => rw [backIf, if_neg hhead]
        | cons e far => rw [backIf, if_neg hhead]
      rw [List.nil_append, backIf]
      refine ((if_pos rfl).trans hstop).trans ?_
      simp
  | cons b w ih =>
      intro pos rest
      obtain rfl : b = c := hw b (List.mem_cons_self ..)
      have hnext := ih (fun e he => hw e (List.mem_cons_of_mem _ he)) (pos - 1) (b :: rest)
      rw [List.cons_append, backIf]
      refine ((if_pos rfl).trans hnext).trans ?_
      rw [List.length_cons, List.reverse_cons, List.append_assoc]
      refine congrArg (fun p => Cursor.mk p far _) ?_
      omega

/-- The key ends in front of the colons that the word ends with. -/
theorem keyEnd_cursorAt (stray rest : Bytes) {u cols : Bytes} (hu : u ≠ [])
    (hlast : u.getLast? ≠ some colon) (hcols : ∀ b ∈ cols, b = colon) :
    keyEnd (cursorAt stray (u ++ cols) rest) = cursorAt stray u (cols ++ rest) := by
  obtain ⟨u, d, rfl⟩ := exists_concat hu
  have hd : d ≠ colon := fun h => hlast (by rw [h, List.getLast?_concat])
  cases cols using List.reverseRecOn with
  | nil =>
      have hprev : (cursorAt stray (u ++ [d]) rest).prev = d := by simp [cursorAt, Cursor.prev]
      rw [List.append_nil, List.nil_append, keyEnd, hprev, if_neg hd]
  | append_singleton cols e =>
      obtain rfl : e = colon := hcols e (by simp)
      have hrev : ∀ b ∈ cols.reverse, b = colon := fun b hb =>
        hcols b (List.mem_append_left _ (List.mem_reverse.1 hb))
      have hfront : (u ++ [d] ++ (cols ++ [colon])).reverse ++ stray =
          colon :: (cols.reverse ++ d :: (u.reverse ++ stray)) := by simp
      have hback := backIf_append hd (u.reverse ++ stray) hrev
        ((u ++ [d] ++ (cols ++ [colon])).length - 1) rest
      rw [keyEnd, cursorAt, hfront]
      refine (if_pos rfl).trans ?_
      rw [Cursor.backIf]
      show (backIf colon ((u ++ [d] ++ (cols ++ [colon])).length - 1)
        (cols.reverse ++ d :: (u.reverse ++ stray)) (colon :: rest)).next = _
      rw [hback, cursorAt]
      refine (Cursor.mk.injEq ..).mpr ⟨?_, ?_, ?_⟩
      · simp only [List.length_append, List.length_reverse, List.length_singleton]
        omega
      · simp [Cursor.get]
      · simp

theorem exists_colons_split (x : Bytes) :
    ∃ u cols, x = u ++ cols ∧ u.getLast? ≠ some colon ∧ ∀ b ∈ cols, b = colon := by
  obtain ⟨w, rest, hsplit, hw, hrest⟩ := exists_goIf_split colon x.reverse
  refine ⟨rest.reverse, w.reverse, ?_, ?_, fun b hb => hw b (List.mem_reverse.1 hb)⟩
  · rw [← List.reverse_append, ← hsplit, List.reverse_reverse]
  · rw [List.getLast?_reverse]
    exact hrest

theorem colon_goes {cols : Bytes} (h : ∀ b ∈ cols, b = colon) :
    ∀ b ∈ cols, b ≠ 0 ∧ (b == colon) = true := fun b hb => by
  rw [h b hb]
  exact ⟨by decide, by decide⟩

theorem keyEndAt_eq (rest : Bytes) {u cols : Bytes} (hu : u ≠ [])
    (hlast : u.getLast? ≠ some colon) (hcols : ∀ b ∈ cols, b = colon) :
    keyEndAt (u ++ cols ++ rest ++ [0]) (u ++ cols).length = .ok (u.length : Int) := by
  obtain ⟨v, d, rfl⟩ := exists_concat hu
  have hd : d ≠ colon := fun h => hlast (by rw [h, List.getLast?_concat])
  have hmove : v ++ [d] ++ cols ++ rest ++ [0] = v ++ d :: (cols ++ (rest ++ [0])) := by simp
  have hplace : (((v ++ [d] ++ cols).length : Nat) : Int) - 1 = v.length + cols.length := by
    simp only [List.length_append, List.length_singleton]
    omega
  cases cols using List.reverseRecOn with
  | nil =>
      have hload := load_append v d ([] ++ (rest ++ [0]))
      rw [List.length_nil] at hplace
      rw [keyEndAt, hmove, hplace, Int.natCast_zero, Int.add_zero, hload, ok_bind, if_neg hd,
        List.append_nil]
      rfl
  | append_singleton cols e =>
      obtain rfl : e = colon := hcols e (by simp)
      have hload := load_append (v ++ d :: cols) colon (rest ++ [0])
      have hlen : ((v ++ d :: cols).length : Int) = v.length + (cols ++ [colon]).length := by
        simp only [List.length_append, List.length_cons, List.length_nil]
        omega
      have hsame : v ++ d :: cols ++ colon :: (rest ++ [0]) =
          v ++ d :: (cols ++ [colon] ++ (rest ++ [0])) := by simp
      have hstop : ¬ (d ≠ 0 ∧ (d == colon) = true) := fun h => hd (eq_of_beq h.2)
      have hback := @walk_backward v (cols ++ [colon]) (rest ++ [0]) d (· == colon)
        (v ++ d :: (cols ++ [colon] ++ (rest ++ [0]))).length
        (colon_goes hcols) hstop (by simp only [List.length_append, List.length_cons]; omega)
      rw [hsame, hlen] at hload
      rw [keyEndAt, hmove, hplace, hload, ok_bind, if_pos rfl, backIfAt, hback]
      refine congrArg Except.ok ?_
      simp

/-- In front of the line: nothing there, or colons only. -/
theorem keyEndAt_out (rest : Bytes) {cols : Bytes} (hcols : ∀ b ∈ cols, b = colon) :
    keyEndAt (cols ++ rest ++ [0]) cols.length = .error (-1) := by
  cases cols using List.reverseRecOn with
  | nil =>
      show keyEndAt _ 0 = _
      rw [keyEndAt]
      show (load _ (-1) >>= _) = _
      rw [load_before, error_bind]
  | append_singleton cols e =>
      obtain rfl : e = colon := hcols e (by simp)
      have hload := load_append cols colon (rest ++ [0])
      have hsame : cols ++ colon :: (rest ++ [0]) = cols ++ [colon] ++ rest ++ [0] := by simp
      have hplace : (((cols ++ [colon]).length : Nat) : Int) - 1 = cols.length := by
        rw [List.length_append, List.length_singleton]
        omega
      have hout := @walk_out (cols ++ [colon]) (rest ++ [0]) (· == colon)
        (cols ++ [colon] ++ rest ++ [0]).length
        (colon_goes hcols) (by simp only [List.length_append, List.length_cons]; omega)
      rw [← List.append_assoc] at hout
      rw [hsame] at hload
      rw [keyEndAt, hplace, hload, ok_bind, if_pos rfl, backIfAt, ← hplace, hout, error_bind]

/-! ## The value

`trim` cuts the line at a line end and at a carriage return in front of it, and
looks at the byte in front of the value for that. The key is there, so it stays
inside. -/

theorem cutAtByte_same (u rest : Bytes) (c : UInt8) :
    cutAtByte (u ++ c :: rest) c u.length = .ok (u ++ 0 :: rest, (u.length : Int) - 1) := by
  rw [cutAtByte, load_append, ok_bind, if_pos rfl, put_append, ok_bind]
  rfl

theorem cutAtByte_other (u rest : Bytes) {b c : UInt8} (h : b ≠ c) :
    cutAtByte (u ++ b :: rest) c u.length = .ok (u ++ b :: rest, (u.length : Int)) := by
  rw [cutAtByte, load_append, ok_bind, if_neg h]
  rfl

/-- The line is cut behind `body`, and the cursor is at `body`. -/
structure Trimmed (a rest : Bytes) (sp body tail post : Bytes) : Prop where
  split : rest = sp ++ (body ++ tail)
  checked : trimAt (a ++ rest ++ [0]) a.length =
    .ok (a ++ sp ++ body ++ 0 :: post, ((a ++ sp).length : Int))
  free : ∀ stray, trim (cursorAt stray a rest) =
    (cursorAt stray (a ++ sp) (body ++ tail), ((a ++ sp ++ body).length : Int))

/-- A carriage return in front of a line end is the value's. -/
theorem exists_value_end {a sp w y : Bytes} (hlast : a.getLast? ≠ some 13)
    (hsp : ∀ b ∈ sp, b = space) (hy : a ++ sp ++ w = y ++ [13]) :
    ∃ body, w = body ++ [13] ∧ a ++ sp ++ body = y := by
  cases w using List.reverseRecOn with
  | nil =>
      have hend : (a ++ sp).getLast? = some 13 := by
        rw [List.append_nil] at hy
        rw [hy, List.getLast?_concat]
      cases sp using List.reverseRecOn with
      | nil => exact absurd (by simpa using hend) hlast
      | append_singleton sp b =>
          obtain rfl : b = 13 := by simpa using hend
          exact absurd (hsp 13 (by simp)) (by decide)
  | append_singleton body b =>
      rw [← List.append_assoc] at hy
      obtain ⟨hbody, hb⟩ := List.append_inj' hy rfl
      exact ⟨body, by rw [hb], hbody⟩

/-- `trim` behind a byte that is no carriage return. -/
theorem trimAt_spec {a rest : Bytes} (ha : a ≠ []) (hlast : a.getLast? ≠ some 13)
    (hnul : NulFree rest) : ∃ sp body tail post, Trimmed a rest sp body tail post := by
  obtain ⟨sp, v, rfl, hsp, hv⟩ := exists_goIf_split space rest
  obtain ⟨w, tail, rfl, hw, htail⟩ := exists_goUntil_split newline v
  have hwnul : NulFree w := fun b hb => hnul b (by simp [hb])
  have hmove : a ++ (sp ++ (w ++ tail)) ++ [0] = a ++ sp ++ (w ++ tail) ++ [0] := by simp
  have hstr : goIfAt (a ++ sp ++ (w ++ tail) ++ [0]) space a.length =
      .ok ((a ++ sp).length : Int) := by
    rw [← hmove]
    exact goIfAt_eq (by decide) hsp hv
  have hend : goUntilAt (a ++ sp ++ (w ++ tail) ++ [0]) newline (a ++ sp).length =
      .ok ((a ++ sp ++ w).length : Int) := goUntilAt_eq hwnul hw htail
  have hcursor : ∀ stray, (cursorAt stray a (sp ++ (w ++ tail))).goIf space =
      cursorAt stray (a ++ sp) (w ++ tail) := fun stray => cursorAt_goIf stray hsp hv
  have hcursor' : ∀ stray, (cursorAt stray (a ++ sp) (w ++ tail)).goUntil newline =
      cursorAt stray (a ++ sp ++ w) tail := fun stray => cursorAt_goUntil stray hw htail
  cases tail with
  | nil =>
      -- no line end: the terminator is neither of the two bytes that are cut
      refine ⟨sp, w, [], [], rfl, ?_, fun stray => ?_⟩
      · have hcut : ∀ c, (0 : UInt8) ≠ c → cutAtByte (a ++ sp ++ (w ++ []) ++ [0]) c
            (a ++ sp ++ w).length = .ok (a ++ sp ++ w ++ 0 :: [], ((a ++ sp ++ w).length : Int)) :=
          fun c hc => by
            rw [List.append_nil]
            exact cutAtByte_other _ _ hc
        have hcut' := cutAtByte_other (a ++ sp ++ w) [] (by decide : (0 : UInt8) ≠ 13)
        rw [hmove, trimAt, hstr, ok_bind, hend, ok_bind, hcut newline (by decide), ok_bind]
        simp only
        rw [hcut', ok_bind]
        rfl
      · rw [trim, hcursor, hcursor']
        exact if_neg (by decide : (0 : UInt8) ≠ newline)
  | cons b tail =>
      obtain rfl : b = newline := by simpa using htail
      -- `p--` goes to `e`, which is in the line because `a` is not empty
      have hnonempty : a ++ sp ++ w ≠ [] := by simp [ha]
      obtain ⟨y, e, hy⟩ := exists_concat hnonempty
      have hplace : ((a ++ sp ++ w).length : Int) - 1 = y.length := by
        rw [hy, List.length_append, List.length_singleton]
        omega
      have hcut : cutAtByte (a ++ sp ++ (w ++ newline :: tail) ++ [0]) newline
          (a ++ sp ++ w).length = .ok (y ++ e :: 0 :: (tail ++ [0]), (y.length : Int)) := by
        have hline : a ++ sp ++ (w ++ newline :: tail) ++ [0] =
            a ++ sp ++ w ++ newline :: (tail ++ [0]) := by simp
        have hmem : y ++ e :: 0 :: (tail ++ [0]) = a ++ sp ++ w ++ 0 :: (tail ++ [0]) := by
          rw [hy]
          simp
        rw [hline, cutAtByte_same, hplace, hmem]
      have hprev : ∀ stray, (cursorAt stray (a ++ sp ++ w) (newline :: tail)).prev = e := by
        intro stray
        rw [hy]
        simp [cursorAt, Cursor.prev]
      have hfree : ∀ stray, trim (cursorAt stray a (sp ++ (w ++ newline :: tail))) =
          (cursorAt stray (a ++ sp) (w ++ newline :: tail),
            if e = 13 then (y.length : Int) else (a ++ sp ++ w).length) := by
        intro stray
        rw [trim, hcursor, hcursor', hprev]
        refine (if_pos rfl).trans ?_
        rw [← hplace]
        rfl
      by_cases he : e = 13
      · subst he
        obtain ⟨body, rfl, hbody⟩ := exists_value_end hlast hsp hy
        refine ⟨sp, body, 13 :: newline :: tail, 0 :: (tail ++ [0]), by simp, ?_,
          fun stray => ?_⟩
        · rw [hmove, trimAt, hstr, ok_bind, hend, ok_bind, hcut, ok_bind]
          simp only
          rw [cutAtByte_same, ok_bind, hbody]
          rfl
        · rw [hfree, if_pos rfl, hbody, List.append_assoc]
          rfl
      · refine ⟨sp, w, newline :: tail, tail ++ [0], rfl, ?_, fun stray => ?_⟩
        · rw [hmove, trimAt, hstr, ok_bind, hend, ok_bind, hcut, ok_bind]
          simp only
          rw [cutAtByte_other _ _ he, ok_bind, hy, List.append_assoc]
          rfl
        · rw [hfree, if_neg he]

/-- A line that is cut behind `body`, with its key behind `front`. -/
def cutLine (front x sp body post : Bytes) (keyLen : Int) : ParsedLine :=
  ⟨front ++ x ++ sp ++ body ++ 0 :: post, front.length, keyLen,
    some ((front ++ x ++ sp).length : Int)⟩

/-- The strings that the callback is given, from the line and from the cursor. -/
theorem Trimmed.configLine_eq {front x rest sp body tail post : Bytes}
    (h : Trimmed (front ++ x) rest sp body tail post) (hnul : NulFree (x ++ rest))
    (stray : Bytes) (p : Cursor) :
    (cutLine front x sp body post (p.pos - front.length)).configLine =
      some (configLine (cursorAt stray front (x ++ rest)) p
        (cursorAt stray (front ++ x) rest)) := by
  have hrest := h.split
  have hbody : NulFree (x ++ sp ++ body) := fun b hb => hnul b (by
    rw [hrest]
    simp only [List.mem_append] at hb ⊢
    tauto)
  have hkey : cstr ((front ++ x ++ sp ++ body ++ 0 :: post).drop front.length) =
      x ++ sp ++ body := by
    have hdrop : front ++ x ++ sp ++ body ++ 0 :: post =
        front ++ (x ++ sp ++ body ++ 0 :: post) := by simp
    rw [hdrop, List.drop_left, cstr_terminated hbody]
  have hvalue : cstr ((front ++ x ++ sp ++ body ++ 0 :: post).drop (front ++ x ++ sp).length) =
      body := by
    rw [List.append_assoc (front ++ x ++ sp), List.drop_left,
      cstr_terminated (hbody.sublist (List.sublist_append_right ..))]
  have hstring : (cursorAt stray front (x ++ rest)).string
      ((front ++ x ++ sp ++ body).length : Int) = x ++ sp ++ body := by
    have hlen : (((front ++ x ++ sp ++ body).length : Int) - front.length).toNat =
        (x ++ sp ++ body).length := by
      simp only [List.length_append]
      omega
    have htake : x ++ rest = x ++ sp ++ body ++ tail := by
      rw [hrest]
      simp
    rw [Cursor.string, cursorAt, hlen, htake, List.take_left]
  have hstring' : (cursorAt stray (front ++ x ++ sp) (body ++ tail)).string
      ((front ++ x ++ sp ++ body).length : Int) = body := by
    have hlen : (((front ++ x ++ sp ++ body).length : Int) -
        (front ++ x ++ sp).length).toNat = body.length := by
      simp only [List.length_append]
      omega
    rw [Cursor.string, cursorAt, hlen, List.take_left]
  rw [ParsedLine.configLine, configLine, h.free]
  exact congrArg some
    ((ConfigLine.mk.injEq ..).mpr ⟨hkey.trans hstring.symm, rfl, hvalue.trans hstring'.symm⟩)

/-! ## A line

A line is spaces, a word with its colons, and the rest. What happens depends on
the word only: it is empty or all colons and the pointer leaves the line, it ends
with a colon, or it does not and the colon is looked for behind it. -/

/-- The line is read inside, and as the cursor reads it. -/
structure Parsed (line : Bytes) (r : ParsedLine) : Prop where
  checked : parseConfigLineAt line = .ok r
  keyLen : 0 ≤ r.keyLen
  free : ∀ stray, r.configLine = parseConfigLine stray line

/-- A line by its spaces, its first word with the colons it ends with, and the rest. -/
structure WordSplit (line sp k cols rest : Bytes) : Prop where
  split : line = sp ++ (k ++ cols ++ rest)
  spaces : ∀ b ∈ sp, b = space
  word : space ∉ k ++ cols
  start : (k ++ cols ++ rest).head? ≠ some space
  last : k.getLast? ≠ some colon
  colons : ∀ b ∈ cols, b = colon
  stop : rest = [] ∨ rest.head? = some space

theorem exists_wordSplit (line : Bytes) : ∃ sp k cols rest, WordSplit line sp k cols rest := by
  obtain ⟨sp, v, rfl, hsp, hv⟩ := exists_goIf_split space line
  obtain ⟨w, rest, rfl, hw, hrest⟩ := exists_goUntil_split space v
  obtain ⟨k, cols, rfl, hlast, hcols⟩ := exists_colons_split w
  exact ⟨sp, k, cols, rest, rfl, hsp, hw, hv, hlast, hcols, hrest⟩

namespace WordSplit

variable {line sp k cols rest : Bytes}

theorem region_eq (h : WordSplit line sp k cols rest) :
    line ++ [0] = sp ++ k ++ cols ++ rest ++ [0] := by
  rw [h.split]
  simp

/-- The two loops of the key. -/
theorem goIfAt_eq (h : WordSplit line sp k cols rest) :
    goIfAt (line ++ [0]) space 0 = .ok (sp.length : Int) := by
  have hgo := UiServer.goIfAt_eq (u := []) (by decide : space ≠ 0) h.spaces h.start
  rw [← h.split] at hgo
  exact hgo

theorem goUntilAt_eq (h : WordSplit line sp k cols rest) (hnul : NulFree line) :
    goUntilAt (line ++ [0]) space sp.length = .ok ((sp ++ k ++ cols).length : Int) := by
  have hword : NulFree (k ++ cols) := fun b hb => hnul b (by
    rw [h.split]
    exact List.mem_append_right _ (List.mem_append_left _ hb))
  rw [h.split, List.append_assoc sp k cols]
  exact UiServer.goUntilAt_eq hword h.word h.stop

theorem cursor_key (h : WordSplit line sp k cols rest) (stray : Bytes) :
    (Cursor.mk 0 stray line).goIf space = cursorAt stray sp (k ++ cols ++ rest) := by
  rw [h.split]
  exact cursorAt_goIf (u := []) stray h.spaces h.start

theorem cursor_word (h : WordSplit line sp k cols rest) (stray : Bytes) :
    (cursorAt stray sp (k ++ cols ++ rest)).goUntil space =
      cursorAt stray (sp ++ k ++ cols) rest := by
  rw [cursorAt_goUntil stray h.word h.stop, List.append_assoc]

theorem last_of_ne (h : WordSplit line sp k cols rest) : (sp ++ k).getLast? ≠ some colon := by
  intro hlast
  cases k using List.reverseRecOn with
  | nil =>
      rw [List.append_nil] at hlast
      exact absurd (h.spaces colon (List.mem_of_getLast? hlast)) (by decide)
  | append_singleton k b =>
      rw [← List.append_assoc, List.getLast?_concat] at hlast
      exact h.last (by rw [List.getLast?_concat, hlast])

/-- The key ends where the cursor says. -/
theorem keyEndAt_eq (h : WordSplit line sp k cols rest) (hne : sp ++ k ≠ []) :
    keyEndAt (line ++ [0]) (sp ++ k ++ cols).length = .ok ((sp ++ k).length : Int) := by
  rw [h.region_eq]
  exact UiServer.keyEndAt_eq rest hne h.last_of_ne h.colons

theorem cursor_keyEnd (h : WordSplit line sp k cols rest) (hne : sp ++ k ≠ [])
    (stray : Bytes) :
    keyEnd (((Cursor.mk 0 stray line).goIf space).goUntil space) =
      cursorAt stray (sp ++ k) (cols ++ rest) := by
  rw [h.cursor_key, h.cursor_word]
  exact keyEnd_cursorAt stray rest hne h.last_of_ne h.colons

theorem load_eq (h : WordSplit line sp k cols rest) (stray : Bytes) :
    load (line ++ [0]) (sp ++ k).length = .ok (cursorAt stray (sp ++ k) (cols ++ rest)).get := by
  rw [h.region_eq, List.append_assoc (sp ++ k)]
  exact load_cursor stray

/-- The word is all colons, and the pointer goes in front of it. -/
theorem parseConfigLineAt_out (h : WordSplit line sp k cols rest) (hnul : NulFree line)
    (hempty : sp ++ k = []) : parseConfigLineAt line = .error (-1) := by
  have hout := keyEndAt_out rest h.colons
  have hregion := h.region_eq
  rw [hempty, List.nil_append] at hregion
  rw [← hregion] at hout
  rw [parseConfigLineAt]
  simp only
  rw [h.goIfAt_eq, ok_bind, h.goUntilAt_eq hnul, ok_bind, hempty, List.nil_append, hout]
  rfl

theorem keyLen_eq (sp k : Bytes) : (((sp ++ k).length : Nat) : Int) - sp.length = k.length := by
  rw [List.length_append]
  omega

/-- What is done behind the key. -/
theorem parseConfigLineAt_eq (h : WordSplit line sp k cols rest) (hnul : NulFree line)
    (hne : sp ++ k ≠ []) :
    parseConfigLineAt line =
      (if (cursorAt [] (sp ++ k) (cols ++ rest)).get = colon then do
        let p ← goUntilAt (line ++ [0]) space (sp ++ k).length
        let (m, value) ← trimAt (line ++ [0]) p
        pure ⟨m, sp.length, k.length, some value⟩
      else do
        let p ← goIfAt (line ++ [0]) space (sp ++ k).length
        let b ← load (line ++ [0]) p
        if b ≠ colon then pure ⟨line ++ [0], sp.length, k.length, none⟩
        else do
          let (m, value) ← trimAt (line ++ [0]) (p + 1)
          pure ⟨m, sp.length, k.length, some value⟩) := by
  rw [parseConfigLineAt]
  simp only
  rw [h.goIfAt_eq, ok_bind, h.goUntilAt_eq hnul, ok_bind, h.keyEndAt_eq hne, ok_bind,
    h.load_eq [], ok_bind, keyLen_eq]

/-- The key ends with a colon, and the value begins behind the word. -/
theorem parsed_glued (h : WordSplit line sp k cols rest) (hnul : NulFree line)
    (hne : sp ++ k ≠ []) (hcols : cols ≠ []) : ∃ r, Parsed line r := by
  have hsplit : line = sp ++ (k ++ cols) ++ rest := by rw [h.split, ← List.append_assoc]
  have hlast : (sp ++ (k ++ cols)).getLast? = some colon := by
    obtain ⟨u, e, rfl⟩ := exists_concat hcols
    obtain rfl : e = colon := h.colons e (by simp)
    rw [← List.append_assoc, ← List.append_assoc, List.getLast?_concat]
  have hrest : NulFree (k ++ cols ++ rest) := fun b hb => hnul b (by
    rw [h.split]
    exact List.mem_append_right _ hb)
  obtain ⟨sp', body, tail, post, htrim⟩ := trimAt_spec (a := sp ++ (k ++ cols))
    (by simp [hcols]) (by rw [hlast]; decide) (hrest.sublist (List.sublist_append_right ..))
  have hcolon : ∀ stray, (cursorAt stray (sp ++ k) (cols ++ rest)).get = colon := by
    intro stray
    obtain ⟨c, cols, rfl⟩ := List.exists_cons_of_ne_nil hcols
    exact h.colons c (List.mem_cons_self ..)
  have hspace : space ∉ cols := fun hmem => h.word (List.mem_append_right _ hmem)
  have hgo : goUntilAt (line ++ [0]) space (sp ++ k).length =
      .ok ((sp ++ (k ++ cols)).length : Int) := by
    have hgo := UiServer.goUntilAt_eq (u := sp ++ k)
      (hrest.sublist (by simp)) hspace h.stop
    rw [← List.append_assoc (sp ++ k), ← h.region_eq] at hgo
    rw [hgo, List.append_assoc]
  refine ⟨cutLine sp (k ++ cols) sp' body post k.length, ?_, Int.natCast_nonneg _,
    fun stray => ?_⟩
  · have hchecked := htrim.checked
    rw [← hsplit] at hchecked
    rw [h.parseConfigLineAt_eq hnul hne, if_pos (hcolon []), hgo, ok_bind, hchecked, ok_bind]
    rfl
  · have hline := htrim.configLine_eq hrest stray (cursorAt stray (sp ++ k) (cols ++ rest))
    have hkey : (cursorAt stray (sp ++ k) (cols ++ rest)).pos - sp.length = k.length :=
      keyLen_eq sp k
    rw [hkey] at hline
    rw [hline, parseConfigLine]
    simp only
    rw [h.cursor_keyEnd hne, if_pos (hcolon stray), h.cursor_key,
      cursorAt_goUntil stray hspace h.stop, List.append_assoc sp k cols]

/-- The key ends with the word, and a colon is looked for behind the spaces. -/
theorem parsed_apart (h : WordSplit line sp k [] rest) (hnul : NulFree line)
    (hne : sp ++ k ≠ []) : ∃ r, Parsed line r := by
  obtain ⟨sp', v, rfl, hsp', hv⟩ := exists_goIf_split space rest
  have hregion := h.region_eq
  rw [List.append_nil] at hregion
  have hword : ∀ stray, (cursorAt stray (sp ++ k) (sp' ++ v)).get ≠ colon := by
    intro stray
    rcases h.stop with hstop | hstop
    · rw [hstop]
      exact (by decide : (0 : UInt8) ≠ colon)
    · obtain ⟨tail, htail⟩ := List.head?_eq_some_iff.1 hstop
      rw [htail]
      exact (by decide : space ≠ colon)
  have hgo : goIfAt (line ++ [0]) space (sp ++ k).length =
      .ok ((sp ++ k ++ sp').length : Int) := by
    rw [hregion]
    exact UiServer.goIfAt_eq (by decide) hsp' hv
  have hload : ∀ stray, load (line ++ [0]) (sp ++ k ++ sp').length =
      .ok (cursorAt stray (sp ++ k ++ sp') v).get := by
    intro stray
    rw [hregion, ← List.append_assoc]
    exact load_cursor stray
  have hfree : ∀ stray, parseConfigLine stray line =
      if (cursorAt stray (sp ++ k ++ sp') v).get = colon then
        some (configLine (cursorAt stray sp (k ++ (sp' ++ v)))
          (cursorAt stray (sp ++ k) (sp' ++ v)) (cursorAt stray (sp ++ k ++ sp') v).next)
      else none := by
    intro stray
    rw [parseConfigLine]
    simp only
    rw [h.cursor_keyEnd hne, List.nil_append, if_neg (hword stray), h.cursor_key,
      cursorAt_goIf stray hsp' hv, List.append_nil]
  by_cases hcolon : (cursorAt [] (sp ++ k ++ sp') v).get = colon
  · obtain ⟨tail', rfl⟩ : ∃ tail', v = colon :: tail' := by
      cases v with
      | nil => exact absurd hcolon (by decide : (0 : UInt8) ≠ colon)
      | cons b tail' => exact ⟨tail', congrArg (· :: tail') hcolon⟩
    have hrest : NulFree (k ++ sp' ++ [colon] ++ tail') := fun b hb => hnul b (by
      rw [h.split]
      simp only [List.mem_append, List.mem_cons, List.not_mem_nil, or_false] at hb ⊢
      tauto)
    have hsplit : line = sp ++ (k ++ sp' ++ [colon]) ++ tail' := by
      rw [h.split]
      simp
    obtain ⟨sp'', body, tail, post, htrim⟩ := trimAt_spec (a := sp ++ (k ++ sp' ++ [colon]))
      (by simp) (by rw [← List.append_assoc, List.getLast?_concat]; decide)
      (hrest.sublist (List.sublist_append_right ..))
    have hnext : (((sp ++ k ++ sp').length : Nat) : Int) + 1 =
        (sp ++ (k ++ sp' ++ [colon])).length := by
      simp only [List.length_append, List.length_singleton]
      omega
    refine ⟨cutLine sp (k ++ sp' ++ [colon]) sp'' body post k.length, ?_,
      Int.natCast_nonneg _, fun stray => ?_⟩
    · have hchecked := htrim.checked
      rw [← hsplit, ← hnext] at hchecked
      rw [h.parseConfigLineAt_eq hnul hne, List.nil_append, if_neg (hword []), hgo, ok_bind,
        hload [], ok_bind, if_neg (not_not.2 hcolon), hchecked, ok_bind]
      rfl
    · have hline := htrim.configLine_eq hrest stray
        (cursorAt stray (sp ++ k) (sp' ++ colon :: tail'))
      have hkey : (cursorAt stray (sp ++ k) (sp' ++ colon :: tail')).pos - sp.length =
          k.length := keyLen_eq sp k
      have hcursor : (cursorAt stray (sp ++ k ++ sp') (colon :: tail')).next =
          cursorAt stray (sp ++ (k ++ sp' ++ [colon])) tail' := by
        refine (Cursor.mk.injEq ..).mpr ⟨hnext, ?_, rfl⟩
        simp [cursorAt, Cursor.get]
      have hfront : k ++ sp' ++ [colon] ++ tail' = k ++ (sp' ++ colon :: tail') := by simp
      rw [hkey, ← hcursor, hfront] at hline
      rw [hline, hfree]
      exact (if_pos rfl).symm
  · refine ⟨⟨line ++ [0], sp.length, k.length, none⟩, ?_, Int.natCast_nonneg _, fun stray => ?_⟩
    · rw [h.parseConfigLineAt_eq hnul hne, List.nil_append, if_neg (hword []), hgo, ok_bind,
        hload [], ok_bind, if_pos hcolon]
      rfl
    · rw [hfree]
      exact (if_neg hcolon).symm

end WordSplit

/-- The line is empty, or its first word begins it and is made of colons. -/
def OnlyColons (line : Bytes) : Prop :=
  line.head? ≠ some space ∧ ∀ b ∈ line.takeWhile (· != space), b = colon

instance (line : Bytes) : Decidable (OnlyColons line) := inferInstanceAs (Decidable (_ ∧ _))

theorem WordSplit.parsed {line sp k cols rest : Bytes} (h : WordSplit line sp k cols rest)
    (hnul : NulFree line) (hne : sp ++ k ≠ []) : ∃ r, Parsed line r := by
  by_cases hcols : cols = []
  · subst hcols
    exact h.parsed_apart hnul hne
  · exact h.parsed_glued hnul hne hcols

theorem onlyColons_iff {line sp k cols rest : Bytes} (h : WordSplit line sp k cols rest) :
    OnlyColons line ↔ sp ++ k = [] := by
  have hword : ∀ b ∈ k ++ cols, (b != space) = true := fun b hb =>
    bne_iff_ne.2 fun heq => h.word (heq ▸ hb)
  have htake : rest.takeWhile (· != space) = [] := by
    rcases h.stop with rfl | hstop
    · rfl
    · obtain ⟨tail, rfl⟩ := List.head?_eq_some_iff.1 hstop
      rfl
  constructor
  · rintro ⟨hhead, hall⟩
    cases hsp : sp with
    | cons b sp' =>
        rw [h.split, hsp] at hhead
        exact absurd (congrArg some (h.spaces b (by simp [hsp]))) hhead
    | nil =>
        rw [h.split, hsp, List.nil_append, List.takeWhile_append_of_pos hword, htake,
          List.append_nil] at hall
        cases k using List.reverseRecOn with
        | nil => rfl
        | append_singleton k b =>
            have hb : b = colon := hall b (by simp)
            exact absurd (by rw [List.getLast?_concat, hb]) h.last
  · intro hempty
    obtain ⟨rfl, rfl⟩ := List.append_eq_nil_iff.1 hempty
    have hline : line = cols ++ rest := h.split
    refine ⟨hline ▸ h.start, fun b hb => ?_⟩
    have hcols : ∀ b ∈ cols, (b != space) = true := hword
    rw [hline, List.takeWhile_append_of_pos hcols, htake, List.append_nil] at hb
    exact h.colons b hb

/-- `parse_config_line` and `trim` stay in a line and its terminator, and the length of
the key is none below zero, if and only if the line begins with a space or with a word that
is not made of colons only. -/
theorem parseConfigLineAt_inside_iff (buf : Bytes) :
    (∃ r, parseConfigLineAt (cstr buf) = .ok r ∧ 0 ≤ r.keyLen) ↔ ¬ OnlyColons (cstr buf) := by
  obtain ⟨sp, k, cols, rest, hsplit⟩ := exists_wordSplit (cstr buf)
  rw [onlyColons_iff hsplit]
  constructor
  · rintro ⟨r, hparsed, -⟩ hempty
    rw [hsplit.parseConfigLineAt_out (nulFree_cstr buf) hempty] at hparsed
    cases hparsed
  · intro hne
    obtain ⟨r, hparsed⟩ := hsplit.parsed (nulFree_cstr buf) hne
    exact ⟨r, hparsed.checked, hparsed.keyLen⟩

/-- Two lines of a file: `": 5\n"`, and one that begins with a zero. The byte in front of
the line is read, and where it is a colon the key has a length below zero. -/
theorem parseConfigLineAt_inside_fails :
    parseConfigLineAt (cstr (fgets 1023 [58, 32, 53, 10]).1) = .error (-1) ∧
      parseConfigLineAt (cstr (fgets 1023 [0, 10]).1) = .error (-1) ∧
      (parseConfigLine [58] (cstr (fgets 1023 [58, 32, 53, 10]).1)).map ConfigLine.keyLen =
        some (-1) := by decide

/-- Where no access is refused, the callback is given what the cursor finds, whatever lies
in front of the line. -/
theorem configLine_parseConfigLineAt {line : Bytes} {r : ParsedLine} (hnul : NulFree line)
    (h : parseConfigLineAt line = .ok r) (stray : Bytes) :
    r.configLine = parseConfigLine stray line := by
  obtain ⟨sp, k, cols, rest, hsplit⟩ := exists_wordSplit line
  by_cases hne : sp ++ k = []
  · rw [hsplit.parseConfigLineAt_out hnul hne] at h
    cases h
  · obtain ⟨r', hparsed⟩ := hsplit.parsed hnul hne
    rw [hparsed.checked] at h
    obtain rfl := Except.ok.inj h
    exact hparsed.free stray

end UiServer
