import UiServer.Conf.Line
import UiServer.Template.Table

/-!
# A setting is read back as it was written

A line of a configuration is a key, a colon and a value, with spaces around each and
a line end. The colon may follow the key at once or the value the colon, but not
both: `parse_config_line` takes a word up to the next space and looks for a colon at
its end, and else behind the spaces that follow.
-/

namespace UiServer

open CMem

/-- A key and a value that can be told apart on a line. -/
structure Setting where
  key : Bytes
  value : Bytes
  key_nonempty : key ≠ []
  key_nulFree : NulFree key
  key_space : space ∉ key
  key_newline : newline ∉ key
  key_begins : key.head? ≠ some colon
  key_ends : key.getLast? ≠ some colon
  value_nulFree : NulFree value
  value_newline : newline ∉ value
  value_begins : value.head? ≠ some space
  value_ends : value.getLast? ≠ some 13

def spaces (n : Nat) : Bytes := List.replicate n space

def lineEnd (crlf : Bool) : Bytes := if crlf then [13, newline] else [newline]

/-- The value, the spaces in front of it and the line end behind it. -/
def Setting.valuePart (s : Setting) (c : Nat) (crlf : Bool) : Bytes :=
  spaces c ++ (s.value ++ lineEnd crlf)

/-- The setting with `a` spaces in front of the key and `b` and `c` around the colon. -/
def Setting.line (s : Setting) (a b c : Nat) (crlf : Bool) : Bytes :=
  spaces a ++ (s.key ++ (spaces b ++ colon :: s.valuePart c crlf))

/-! ## The value

The value does not end with a space or a carriage return, so the spaces in front
of it and the line end behind it are all that `trim` takes away. -/

theorem mem_spaces {n : Nat} {b : UInt8} (h : b ∈ spaces n) : b = space :=
  (List.mem_replicate.1 h).2

theorem reverse_spaces (n : Nat) : (spaces n).reverse = spaces n := List.reverse_replicate

theorem length_spaces (n : Nat) : (spaces n).length = n := List.length_replicate

theorem head?_lineEnd (crlf : Bool) : (lineEnd crlf).head? ≠ some space := by
  cases crlf <;> decide

theorem Setting.value_head (s : Setting) (crlf : Bool) :
    (s.value ++ lineEnd crlf).head? ≠ some space := by
  cases hv : s.value with
  | nil => exact head?_lineEnd crlf
  | cons b v =>
      have hb := s.value_begins
      rw [hv] at hb
      simpa using hb

/-- What `trim` makes of the value, behind a byte that is no carriage return: the line
is cut behind the value. -/
theorem trim_valuePart (s : Setting) {pos : Int} {before : Bytes} (c : Nat) (crlf : Bool)
    (h : before.headD 0 ≠ 13) :
    trim ⟨pos, before, s.valuePart c crlf⟩ =
      (⟨pos + c, spaces c ++ before, s.value ++ lineEnd crlf⟩, pos + c + s.value.length) := by
  have hstr : (Cursor.mk pos before (s.valuePart c crlf)).goIf space =
      ⟨pos + c, spaces c ++ before, s.value ++ lineEnd crlf⟩ := by
    show goIf space pos before (s.valuePart c crlf) = _
    rw [Setting.valuePart, goIf_append (fun b hb => mem_spaces hb) (s.value_head crlf),
      reverse_spaces, length_spaces]
  have hfront : (spaces c ++ before).headD 0 ≠ 13 := by
    cases c with
    | zero => exact h
    | succ c => exact (by decide : space ≠ 13)
  rw [trim, hstr]
  cases crlf with
  | true =>
      have hno : newline ∉ s.value ++ [13] := by
        rw [List.mem_append, not_or]
        exact ⟨s.value_newline, by decide⟩
      have hstop : (Cursor.mk (pos + c) (spaces c ++ before)
          (s.value ++ lineEnd true)).goUntil newline =
          ⟨pos + c + (s.value ++ [13]).length,
            (s.value ++ [13]).reverse ++ (spaces c ++ before), [newline]⟩ := by
        show goUntil newline _ (spaces c ++ before) (s.value ++ ([13] ++ [newline])) = _
        rw [← List.append_assoc, goUntil_append hno (Or.inr rfl)]
      have hprev : ((s.value ++ [13]).reverse ++ (spaces c ++ before)).headD 0 = 13 := by
        rw [List.reverse_append]
        rfl
      rw [hstop]
      refine Prod.ext rfl ((if_pos hprev).trans ?_)
      show pos + c + ((s.value ++ [13]).length : Int) - 1 = _
      rw [List.length_append, List.length_singleton]
      omega
  | false =>
      have hstop : (Cursor.mk (pos + c) (spaces c ++ before)
          (s.value ++ lineEnd false)).goUntil newline =
          ⟨pos + c + s.value.length, s.value.reverse ++ (spaces c ++ before), [newline]⟩ :=
        goUntil_append s.value_newline (Or.inr rfl)
      have hlast : (s.value.reverse ++ (spaces c ++ before)).headD 0 ≠ 13 := by
        cases hrev : s.value.reverse with
        | nil => exact hfront
        | cons b v =>
            intro hb
            have hend := s.value_ends
            rw [List.getLast?_eq_head?_reverse, hrev] at hend
            exact hend (congrArg some hb)
      rw [hstop]
      exact Prod.ext rfl (if_neg hlast)

/-! ## The key

There is no space in the key and no colon at its end. The word at the front of the
line is the key, or the key and the colon, and then the cursor goes back over the
colon. -/

theorem Setting.key_head (s : Setting) (rest : Bytes) :
    (s.key ++ rest).head? ≠ some space := by
  cases hk : s.key with
  | nil => exact absurd hk s.key_nonempty
  | cons b k =>
      intro hb
      have hmem := s.key_space
      rw [hk] at hmem
      exact hmem ((Option.some.inj hb) ▸ List.mem_cons_self ..)

/-- The last byte of the key is no colon. -/
theorem Setting.key_prev (s : Setting) (before : Bytes) :
    (s.key.reverse ++ before).headD 0 ≠ colon := by
  cases hrev : s.key.reverse with
  | nil => exact absurd (List.reverse_eq_nil_iff.1 hrev) s.key_nonempty
  | cons b k =>
      intro hb
      have hend := s.key_ends
      rw [List.getLast?_eq_head?_reverse, hrev] at hend
      exact hend (congrArg some hb)

/-- The end of a key that spaces follow. -/
theorem keyEnd_apart (s : Setting) (pos : Int) (before rest : Bytes) (b : Nat) :
    keyEnd ((Cursor.mk pos before (s.key ++ (spaces (b + 1) ++ rest))).goUntil space) =
      ⟨pos + s.key.length, s.key.reverse ++ before, spaces (b + 1) ++ rest⟩ := by
  have hword : (Cursor.mk pos before (s.key ++ (spaces (b + 1) ++ rest))).goUntil space =
      ⟨pos + s.key.length, s.key.reverse ++ before, spaces (b + 1) ++ rest⟩ :=
    goUntil_append s.key_space (Or.inr rfl)
  rw [hword, keyEnd]
  exact if_neg (s.key_prev before)

/-- The end of a key that the colon follows at once: the cursor goes back over it. -/
theorem keyEnd_glued (s : Setting) (pos : Int) (before rest : Bytes)
    (h : rest.head? = some space) :
    keyEnd ((Cursor.mk pos before (s.key ++ colon :: rest)).goUntil space) =
      ⟨pos + s.key.length, s.key.reverse ++ before, colon :: rest⟩ := by
  have hno : space ∉ s.key ++ [colon] := by
    rw [List.mem_append, not_or]
    exact ⟨s.key_space, by decide⟩
  have hword : (Cursor.mk pos before (s.key ++ colon :: rest)).goUntil space =
      ⟨pos + (s.key ++ [colon]).length, (s.key ++ [colon]).reverse ++ before, rest⟩ := by
    show goUntil space pos before (s.key ++ ([colon] ++ rest)) = _
    rw [← List.append_assoc, goUntil_append hno (Or.inr h)]
  have hprev := s.key_prev before
  have hlast : ∃ d k, s.key.reverse ++ before = d :: k := by
    cases hrev : s.key.reverse with
    | nil => exact absurd (List.reverse_eq_nil_iff.1 hrev) s.key_nonempty
    | cons d k => exact ⟨d, k ++ before, rfl⟩
  obtain ⟨d, k, hd⟩ := hlast
  rw [hd] at hprev
  have hfront : (s.key ++ [colon]).reverse ++ before = colon :: d :: k := by
    rw [List.reverse_append, List.append_assoc, hd]
    rfl
  have hlen : pos + (s.key ++ [colon]).length = pos + s.key.length + 1 := by
    rw [List.length_append, List.length_singleton]
    omega
  have hback : ∀ pos, backIf colon pos (d :: k) (colon :: rest) =
      ⟨pos - 1, k, d :: colon :: rest⟩ := by
    intro pos
    have hstop : backIf colon (pos - 1) k (d :: colon :: rest) =
        ⟨pos - 1, k, d :: colon :: rest⟩ := by
      cases k with
      | nil => exact if_neg hprev
      | cons e k => exact if_neg hprev
    rw [backIf]
    exact (if_pos rfl).trans hstop
  rw [hword, hfront, hlen, hd, keyEnd]
  refine (if_pos rfl).trans ?_
  show (backIf colon (pos + s.key.length + 1 - 1) (d :: k) (colon :: rest)).next = _
  rw [hback, Cursor.next]
  refine (Cursor.mk.injEq ..).mpr ⟨?_, rfl, rfl⟩
  show pos + s.key.length + 1 - 1 - 1 + 1 = _
  omega

/-! ## The line

The two places of the colon come to the same: the cursor is behind it, with the
value still to be read and the length of the key counted. -/

/-- The result is the setting. -/
structure ReadBack (s : Setting) (line : ConfigLine) : Prop where
  key : line.key.take line.keyLen.toNat = s.key
  keyLen : line.keyLen = s.key.length
  value : line.value = s.value

/-- What is made of a line when the cursor has come to the value. -/
theorem readBack_configLine (s : Setting) {pos pos' : Int} (front rest before : Bytes)
    (before' rest' : Bytes) (c : Nat) (crlf : Bool) (hpos : pos + s.key.length ≤ pos')
    (h : before.headD 0 ≠ 13) :
    ReadBack s (configLine ⟨pos, front, s.key ++ rest⟩ ⟨pos + s.key.length, before', rest'⟩
      ⟨pos', before, s.valuePart c crlf⟩) := by
  have hlen : pos + (s.key.length : Int) - pos = s.key.length := by omega
  have hvalue : (pos' + c + s.value.length - (pos' + c)).toNat = s.value.length := by omega
  have hstop : s.key.length ≤ (pos' + c + s.value.length - pos).toNat := by omega
  rw [configLine, trim_valuePart s c crlf h]
  refine ⟨?_, hlen, ?_⟩
  · show ((s.key ++ rest).take _).take (pos + (s.key.length : Int) - pos).toNat = _
    rw [hlen, Int.toNat_natCast, List.take_take, Nat.min_eq_left hstop, List.take_left]
  · show (s.value ++ lineEnd crlf).take _ = _
    rw [hvalue, List.take_left]

/-- A setting is read back from every line it can be written on. -/
theorem parseConfigLine_line (stray : Bytes) (s : Setting) (a b c : Nat) (crlf : Bool)
    (h : 1 ≤ b + c) :
    ∃ line, parseConfigLine stray (s.line a b c crlf) = some line ∧ ReadBack s line := by
  have hkey : (Cursor.mk 0 stray (s.line a b c crlf)).goIf space =
      ⟨0 + a, spaces a ++ stray, s.key ++ (spaces b ++ colon :: s.valuePart c crlf)⟩ := by
    show goIf space 0 stray (spaces a ++ _) = _
    rw [goIf_append (fun d hd => mem_spaces hd) (s.key_head _), reverse_spaces, length_spaces]
  have hcr : colon ≠ 13 := by decide
  rw [parseConfigLine, hkey]
  cases b with
  | zero =>
      have hspace : (s.valuePart c crlf).head? = some space := by
        obtain ⟨c, rfl⟩ : ∃ k, c = k + 1 := ⟨c - 1, by omega⟩
        rfl
      have hend : keyEnd ((Cursor.mk (0 + a) (spaces a ++ stray)
          (s.key ++ (spaces 0 ++ colon :: s.valuePart c crlf))).goUntil space) =
          ⟨0 + a + s.key.length, s.key.reverse ++ (spaces a ++ stray),
            colon :: s.valuePart c crlf⟩ :=
        keyEnd_glued s (0 + a) (spaces a ++ stray) (s.valuePart c crlf) hspace
      have hvalue : (Cursor.mk (0 + a + s.key.length) (s.key.reverse ++ (spaces a ++ stray))
          (colon :: s.valuePart c crlf)).goUntil space =
          ⟨0 + a + s.key.length + 1, colon :: (s.key.reverse ++ (spaces a ++ stray)),
            s.valuePart c crlf⟩ :=
        @goUntil_append space _ _ [colon] _ (by decide) (Or.inr hspace)
      rw [hend]
      refine ⟨_, if_pos rfl, ?_⟩
      rw [hvalue]
      exact readBack_configLine s _ _ _ _ _ c crlf (by omega) hcr
  | succ b =>
      have hend := keyEnd_apart s (0 + a) (spaces a ++ stray) (colon :: s.valuePart c crlf) b
      have hne : (colon :: s.valuePart c crlf).head? ≠ some space := by
        exact (by decide : some colon ≠ some space)
      have hgap : (Cursor.mk (0 + a + s.key.length) (s.key.reverse ++ (spaces a ++ stray))
          (spaces (b + 1) ++ colon :: s.valuePart c crlf)).goIf space =
          ⟨0 + a + s.key.length + (spaces (b + 1)).length,
            spaces (b + 1) ++ (s.key.reverse ++ (spaces a ++ stray)),
            colon :: s.valuePart c crlf⟩ := by
        show goIf space _ _ (spaces (b + 1) ++ _) = _
        rw [goIf_append (fun d hd => mem_spaces hd) hne, reverse_spaces]
      have hnext : 0 + (a : Int) + s.key.length ≤
          0 + a + s.key.length + (spaces (b + 1)).length + 1 := by omega
      have hread := readBack_configLine s (spaces a ++ stray)
        (spaces (b + 1) ++ colon :: s.valuePart c crlf)
        (colon :: (spaces (b + 1) ++ (s.key.reverse ++ (spaces a ++ stray))))
        (s.key.reverse ++ (spaces a ++ stray)) (spaces (b + 1) ++ colon :: s.valuePart c crlf)
        c crlf hnext hcr
      rw [hend]
      refine ⟨_, ?_, hread⟩
      refine (if_neg (by decide : space ≠ colon)).trans ?_
      rw [hgap]
      exact if_pos rfl

/-- `Title_length:  a: b` and a line end of DOS. -/
theorem parseConfigLine_line_title :
    ∃ line, parseConfigLine [58] (ascii "Title_length:  a: b\r\n") = some line ∧
      ReadBack ⟨ascii "Title_length", ascii "a: b", by decide, by decide, by decide, by decide,
        by decide, by decide, by decide, by decide, by decide, by decide⟩ line :=
  parseConfigLine_line [58] ⟨ascii "Title_length", ascii "a: b", by decide, by decide,
    by decide, by decide, by decide, by decide, by decide, by decide, by decide,
    by decide⟩ 0 0 2 true (by decide)

end UiServer
