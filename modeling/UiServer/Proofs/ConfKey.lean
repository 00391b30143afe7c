import UiServer.Conf.Servers
import UiServer.Conf.Settings
import UiServer.Lib.Words

/-!
# Keys and how they are compared

The key that `parse_config_line` hands out is not terminated, so its length goes with
it. It is never longer than the string there, and it takes in all of the bytes in
front of the first space or colon (`le_keyLen`).

The callbacks of `server_conf_load` compare the key as far as it goes and not with
the length of the name. That is right for a key that is no proper part of the name,
and wrong for one that is, the empty key as well (`serverNames_right_iff`).
-/

namespace UiServer

open CMem

/-! ## Where the key ends

The cursor goes on to the first space and back over the colons that the word ends
with. It never goes back over a byte that is no colon, so all that stands in front
of the first space or colon is key. -/

theorem Cursor.goUntil_eq (p : Cursor) (c : UInt8) :
    ∃ w rest, p.rest = w ++ rest ∧ c ∉ w ∧ (rest = [] ∨ rest.head? = some c) ∧
      p.goUntil c = ⟨p.pos + w.length, w.reverse ++ p.before, rest⟩ := by
  obtain ⟨hw, hrest⟩ := @Words.takeWhile_spec _ _ c p.rest
  have hhead : p.rest.dropWhile (· != c) = [] ∨
      (p.rest.dropWhile (· != c)).head? = some c := by
    rcases hrest with h | ⟨t, h⟩
    · exact Or.inl h
    · exact Or.inr (by rw [h]; rfl)
  have hsplit : p.rest = p.rest.takeWhile (· != c) ++ p.rest.dropWhile (· != c) :=
    List.takeWhile_append_dropWhile.symm
  refine ⟨_, _, hsplit, hw, hhead, ?_⟩
  show UiServer.goUntil c p.pos p.before p.rest = _
  rw [← goUntil_append hw hhead, ← hsplit]

theorem goIf_pos (c : UInt8) (rest : Bytes) : ∀ (pos : Int) (before : Bytes),
    pos ≤ (goIf c pos before rest).pos := by
  induction rest with
  | nil => exact fun pos _ => Int.le_refl pos
  | cons b rest ih =>
      intro pos before
      rw [goIf]
      split
      · have := ih (pos + 1) (b :: before)
        omega
      · exact Int.le_refl pos

theorem backIf_le (c : UInt8) (before : Bytes) : ∀ (pos : Int) (rest : Bytes),
    (backIf c pos before rest).pos ≤ pos := by
  induction before with
  | nil =>
      intro pos rest
      rw [backIf]
      split
      · show pos - 1 ≤ pos
        omega
      · exact Int.le_refl pos
  | cons b before ih =>
      intro pos rest
      rw [backIf]
      split
      · have := ih (pos - 1) (b :: rest)
        show (backIf c (pos - 1) before (b :: rest)).pos ≤ pos
        omega
      · exact Int.le_refl pos

/-- The cursor goes back no further than to a byte that is another one. -/
theorem le_backIf {c d : UInt8} (hd : d ≠ c) (far : Bytes) (near : Bytes) :
    ∀ (pos : Int) (rest : Bytes),
      pos - near.length - 1 ≤ (backIf c pos (near ++ d :: far) rest).pos := by
  have hstop : ∀ (pos : Int) (rest : Bytes), (backIf c pos far (d :: rest)).pos = pos := by
    intro pos rest
    have hhead : ¬ (d :: rest).headD 0 = c := hd
    cases far with
    | nil => rw [backIf, if_neg hhead]
    | cons e far => rw [backIf, if_neg hhead]
  induction near with
  | nil =>
      intro pos rest
      rw [List.nil_append, backIf, List.length_nil]
      split
      · show _ ≤ (backIf c (pos - 1) far (d :: rest)).pos
        rw [hstop]
        omega
      · show _ ≤ pos
        omega
  | cons b near ih =>
      intro pos rest
      rw [List.cons_append, backIf, List.length_cons]
      split
      · have := ih (pos - 1) (b :: rest)
        show _ ≤ (backIf c (pos - 1) (near ++ d :: far) (b :: rest)).pos
        omega
      · show _ ≤ pos
        omega

theorem keyEnd_le (p : Cursor) : (keyEnd p).pos ≤ p.pos := by
  rw [keyEnd]
  split
  · have h := backIf_le colon p.back.before p.back.pos p.back.rest
    have hback : p.back.pos = p.pos - 1 := rfl
    show (p.back.backIf colon).pos + 1 ≤ p.pos
    rw [Cursor.backIf]
    omega
  · exact Int.le_refl _

/-- Bytes that are no colon belong to the key. -/
theorem le_keyEnd {pos : Int} {before u v rest : Bytes} (hne : u ≠ []) (hu : colon ∉ u) :
    pos + u.length ≤
      (keyEnd ⟨pos + u.length + v.length, v.reverse ++ (u.reverse ++ before), rest⟩).pos := by
  obtain ⟨d, w, hd⟩ : ∃ d w, u.reverse = d :: w :=
    List.exists_cons_of_ne_nil fun h => hne (List.reverse_eq_nil_iff.1 h)
  have hdc : d ≠ colon := fun h => hu (by
    rw [← List.mem_reverse, hd, h]
    exact List.mem_cons_self ..)
  rw [keyEnd]
  split
  · next hprev =>
      cases hv : v.reverse with
      | nil =>
          rw [hv, hd] at hprev
          exact absurd hprev hdc
      | cons e near =>
          have hlen : v.length = near.length + 1 := by
            rw [← List.length_reverse, hv, List.length_cons]
          have hback := le_backIf hdc (w ++ before) near (pos + u.length + v.length - 1)
            (e :: rest)
          rw [hd]
          show _ ≤ (backIf colon (pos + u.length + v.length - 1) (near ++ d :: (w ++ before))
            (e :: rest)).pos + 1
          omega
  · show pos + (u.length : Int) ≤ pos + u.length + v.length
    omega

theorem trim_stop (p : Cursor) : p.pos - 1 ≤ (trim p).2 := by
  have hstr := goIf_pos space p.rest p.pos p.before
  obtain ⟨w, rest, -, -, -, heq⟩ := (p.goIf space).goUntil_eq newline
  have hpos : p.pos ≤ ((p.goIf space).goUntil newline).pos := by
    have hge : p.pos ≤ (p.goIf space).pos := hstr
    rw [heq]
    show p.pos ≤ (p.goIf space).pos + w.length
    omega
  rw [trim]
  split
  · split
    · show p.pos - 1 ≤ _ - 1
      omega
    · show p.pos - 1 ≤ ((p.goIf space).goUntil newline).pos
      omega
  · show p.pos - 1 ≤ ((p.goIf space).goUntil newline).pos
    omega

theorem le_goUntil_colon {p : Cursor} (h : p.get = colon) :
    p.pos + 1 ≤ (p.goUntil space).pos := by
  obtain ⟨w, rest, hsplit, -, hrest, heq⟩ := p.goUntil_eq space
  have hpos : 0 < w.length := by
    rw [List.length_pos_iff]
    intro hw
    rw [hw, List.nil_append] at hsplit
    rw [Cursor.get, hsplit] at h
    rcases hrest with hrest | hrest
    · rw [hrest] at h
      exact absurd h (by decide)
    · rw [List.headD_eq_head?_getD, hrest] at h
      exact absurd h (by decide)
  rw [heq]
  show p.pos + 1 ≤ p.pos + w.length
  omega

/-- The key of a line that is accepted begins at a cursor and ends at another, and
the line is cut behind it. -/
theorem parseConfigLine_key {stray text : Bytes} {line : ConfigLine}
    (h : parseConfigLine stray text = some line) :
    ∃ (key : Cursor) (stop : Int), line.key = key.string stop ∧
      line.keyLen = (keyEnd (key.goUntil space)).pos - key.pos ∧
      (keyEnd (key.goUntil space)).pos ≤ stop := by
  have hcut : ∀ key e p : Cursor, e.pos + 1 ≤ p.pos → ∃ stop,
      (configLine key e p).key = key.string stop ∧ (configLine key e p).keyLen = e.pos - key.pos ∧
        e.pos ≤ stop := by
    intro key e p hp
    have hstop := trim_stop p
    exact ⟨(trim p).2, rfl, rfl, by omega⟩
  rw [parseConfigLine] at h
  generalize (Cursor.mk 0 stray text).goIf space = key at h
  simp only at h
  split at h
  · next hget =>
      cases h
      exact ⟨key, hcut key _ _ (le_goUntil_colon hget)⟩
  · split at h
    · cases h
      have hgap : (keyEnd (key.goUntil space)).pos ≤
          ((keyEnd (key.goUntil space)).goIf space).pos := goIf_pos space _ _ _
      refine ⟨key, hcut key _ _ ?_⟩
      show _ ≤ ((keyEnd (key.goUntil space)).goIf space).pos + 1
      omega
    · cases h

/-- The key is no longer than the string where it stands. -/
theorem keyLen_le {stray text : Bytes} {line : ConfigLine}
    (h : parseConfigLine stray text = some line) : line.keyLen ≤ line.key.length := by
  obtain ⟨key, stop, hkey, hlen, hstop⟩ := parseConfigLine_key h
  obtain ⟨w, rest, hsplit, -, -, heq⟩ := key.goUntil_eq space
  have hend := keyEnd_le (key.goUntil space)
  have hword : (key.goUntil space).pos = key.pos + w.length := by rw [heq]
  have hrest : w.length ≤ key.rest.length := by
    rw [hsplit, List.length_append]
    omega
  rw [hkey, Cursor.string, List.length_take]
  omega

/-- All that stands in front of the first space or colon is key. -/
theorem le_keyLen {stray text : Bytes} {line : ConfigLine} {u : Bytes}
    (h : parseConfigLine stray text = some line) (hu : u <+: line.key) (hne : u ≠ [])
    (hspace : space ∉ u) (hcolon : colon ∉ u) : u.length ≤ line.keyLen := by
  obtain ⟨key, stop, hkey, hlen, hstop⟩ := parseConfigLine_key h
  have hprefix : line.key <+: key.rest := by
    rw [hkey]
    exact List.take_prefix _ _
  obtain ⟨t, ht⟩ := hu.trans hprefix
  obtain ⟨w, rest, hsplit, hw, hrest, heq⟩ := key.goUntil_eq space
  -- the word begins with these bytes
  obtain ⟨v, hv⟩ : ∃ v, w = u ++ v := by
    rw [← ht] at hsplit
    rcases List.append_eq_append_iff.1 hsplit with ⟨v, hv, -⟩ | ⟨v, hv, hvrest⟩
    · exact ⟨v, hv⟩
    · cases v with
      | nil => exact ⟨[], by rw [hv, List.append_nil, List.append_nil]⟩
      | cons c v =>
          have hc : c = space := by
            rcases hrest with hnil | hhead
            · rw [hnil] at hvrest
              cases hvrest
            · rw [hvrest] at hhead
              exact Option.some.inj hhead
          exact absurd (by rw [hv, hc]; simp) hspace
  have hend := @le_keyEnd key.pos key.before u v rest hne hcolon
  rw [heq, hv, List.length_append, List.reverse_append, List.append_assoc] at hlen
  have hpos : key.pos + ((u.length + v.length : Nat) : Int) =
      key.pos + u.length + v.length := by omega
  rw [hpos] at hlen
  omega

/-! ## The names of the counts

A name without a space and a colon is compared with the key byte by byte, and the
comparison is over when the key is. So a line gets past the name, unless its key
is the beginning of it. -/

/-- The key, as long as it is, is the beginning of the name but not all of it. -/
def ConfigLine.PartOf (line : ConfigLine) (name : Bytes) : Prop :=
  0 ≤ line.keyLen ∧ line.keyLen < name.length ∧
    (line.key.take line.keyLen.toNat).map toLower <+: name.map toLower

/-- A name that has neither a space nor a colon in it, in small letters or large. -/
structure PlainName (name : Bytes) : Prop where
  nonempty : name ≠ []
  space : space ∉ name.map toLower
  colon : colon ∉ name.map toLower

theorem serverGroupNumKey_plain : PlainName serverGroupNumKey :=
  ⟨by decide, by decide, by decide⟩

theorem serverNumKey_plain : PlainName serverNumKey := ⟨by decide, by decide, by decide⟩

/-- A key of negative length is compared with a name in vain. -/
theorem isKeyPart_negative {stray text name : Bytes} {line : ConfigLine}
    (h : parseConfigLine stray text = some line) (hname : PlainName name)
    (hneg : line.keyLen < 0) : line.isKeyPart name = false := by
  refine Bool.eq_false_iff.2 fun hpart => ?_
  obtain ⟨b, rest, hb⟩ := List.exists_cons_of_ne_nil hname.nonempty
  rw [ConfigLine.isKeyPart, sizeOfInt, if_pos hneg, strncasecmpEq_iff, hb] at hpart
  cases hkey : line.key with
  | nil =>
      rw [hkey] at hpart
      cases hpart
  | cons a key =>
      rw [hkey] at hpart
      have hab : toLower a = toLower b := (List.cons.inj hpart).1
      have hmem : toLower a ∈ name.map toLower := by
        rw [hab, hb]
        exact List.mem_cons_self ..
      have hspace : space ∉ [a] := fun hs => by
        rw [← List.mem_singleton.1 hs] at hmem
        exact hname.space hmem
      have hcolon : colon ∉ [a] := fun hs => by
        rw [← List.mem_singleton.1 hs] at hmem
        exact hname.colon hmem
      have hle := le_keyLen h (u := [a]) ⟨key, hkey.symm⟩ (List.cons_ne_nil _ _) hspace hcolon
      rw [List.length_singleton] at hle
      omega

/-- What the comparison of the callbacks lets through. -/
theorem isKeyPart_iff {stray text name : Bytes} {line : ConfigLine}
    (h : parseConfigLine stray text = some line) (hname : PlainName name) :
    line.isKeyPart name = true ↔ line.isKey name = true ∨ line.PartOf name := by
  by_cases hneg : line.keyLen < 0
  · rw [isKeyPart_negative h hname hneg, isKey_iff]
    refine ⟨nofun, ?_⟩
    rintro (⟨hlen, -⟩ | ⟨hlen, -⟩) <;> omega
  · have hle := keyLen_le h
    obtain ⟨n, hn⟩ : ∃ n : Nat, line.keyLen = n := ⟨line.keyLen.toNat, by omega⟩
    have hnle : n ≤ line.key.length := by omega
    have htake : (line.key.take n).length = n := by
      rw [List.length_take, Nat.min_eq_left hnle]
    rw [ConfigLine.isKeyPart, sizeOfInt, if_neg hneg, strncasecmpEq_iff, isKey_iff,
      ConfigLine.PartOf, hn, Int.toNat_natCast]
    constructor
    · intro hpart
      have hlen := congrArg List.length hpart
      rw [List.length_map, List.length_map, htake, List.length_take] at hlen
      by_cases hall : n = name.length
      · refine Or.inl ⟨by rw [hall], ?_⟩
        rw [← hall, hpart, hall, List.take_length]
      · refine Or.inr ⟨by omega, by omega, ?_⟩
        rw [hpart, List.map_take]
        exact List.take_prefix _ _
    · rintro (⟨hlen, hkey⟩ | ⟨-, hlt, hprefix⟩)
      · have hnlen : n = name.length := by omega
        rw [hnlen, hkey, List.take_length]
      · have heq := List.prefix_iff_eq_take.1 hprefix
        rw [heq, List.length_map, htake, List.map_take]

theorem not_isKey_of_partOf {line : ConfigLine} {name : Bytes} (h : line.PartOf name) :
    line.isKey name = false :=
  Bool.eq_false_iff.2 fun hkey => by
    have hlen := (isKey_iff.1 hkey).1
    have hlt := h.2.1
    omega

/-- The callbacks with the test of `assign_conf_item`. -/
def serverAssignExact (c : ServerConf) (line : ConfigLine) : ServerConf :=
  if line.isKey serverGroupNumKey then { c with sgNum := atoiText line.value }
  else serverAssignOther c line

def serverGroupAssignExact (i : Nat) (c : ServerConf) (line : ConfigLine) : ServerConf :=
  if line.isKey serverNumKey then c.setSrvNum i (atoiText line.value)
  else serverGroupAssignOther i c line

/-- For every line that is accepted: the counts are assigned by the lines with their
names and by no others, if and only if the key is no proper part of the name. -/
theorem serverNames_right_iff (stray text : Bytes) (line : ConfigLine)
    (h : parseConfigLine stray text = some line) :
    ((∀ c, serverAssignConfItem c line = serverAssignExact c line) ↔
        ¬ line.PartOf serverGroupNumKey) ∧
      ((∀ i c, serverGroupAssignConfItem i c line = serverGroupAssignExact i c line) ↔
        ¬ line.PartOf serverNumKey) := by
  constructor
  · have hiff := isKeyPart_iff h serverGroupNumKey_plain
    constructor
    · intro hall hpart
      have hc := congrArg ServerConf.sgNum
        (hall { ServerConf.zero with sgNum := atoiText line.value + 1 })
      rw [serverAssignConfItem, if_pos (hiff.2 (Or.inr hpart)), serverAssignExact,
        if_neg (by simp [not_isKey_of_partOf hpart]), serverAssignOther_sgNum] at hc
      have hnum : atoiText line.value = atoiText line.value + 1 := hc
      omega
    · intro hpart c
      rw [serverAssignConfItem, serverAssignExact]
      by_cases hkey : line.isKey serverGroupNumKey = true
      · rw [if_pos (hiff.2 (Or.inl hkey)), if_pos hkey]
      · rw [if_neg fun hp => (hiff.1 hp).elim hkey hpart, if_neg hkey]
  · have hiff := isKeyPart_iff h serverNumKey_plain
    constructor
    · intro hall hpart
      have hc := congrArg (fun c => (c.sgroup 0).srvNum)
        (hall 0 (ServerConf.zero.setSrvNum 0 (atoiText line.value + 1)))
      simp only [serverGroupAssignConfItem, if_pos (hiff.2 (Or.inr hpart)),
        serverGroupAssignExact, not_isKey_of_partOf hpart, Bool.false_eq_true, if_false,
        serverGroupAssignOther_srvNum, ServerConf.setSrvNum, Function.update_self] at hc
      omega
    · intro hpart i c
      rw [serverGroupAssignConfItem, serverGroupAssignExact]
      by_cases hkey : line.isKey serverNumKey = true
      · rw [if_pos (hiff.2 (Or.inl hkey)), if_pos hkey]
        rfl
      · rw [if_neg fun hp => (hiff.1 hp).elim hkey hpart, if_neg hkey]

/-- `Server_num` is no part of itself; in `server.conf` it is not the count. -/
theorem serverNames_right_iff_three :
    ((∀ c, serverAssignConfItem c ⟨ascii "Server_num: 3", 10, ascii "3"⟩ =
          serverAssignExact c ⟨ascii "Server_num: 3", 10, ascii "3"⟩) ↔
        ¬ (ConfigLine.mk (ascii "Server_num: 3") 10 (ascii "3")).PartOf serverGroupNumKey) ∧
      ((∀ i c, serverGroupAssignConfItem i c ⟨ascii "Server_num: 3", 10, ascii "3"⟩ =
          serverGroupAssignExact i c ⟨ascii "Server_num: 3", 10, ascii "3"⟩) ↔
        ¬ (ConfigLine.mk (ascii "Server_num: 3") 10 (ascii "3")).PartOf serverNumKey) :=
  serverNames_right_iff [] (ascii "Server_num: 3\n") _ (by decide +kernel)

/-- `Server: 5` sets the number of groups, and a line that begins with a colon the
number of servers. -/
theorem serverNames_right_fails :
    (∃ line, parseConfigLine [] (ascii "Server: 5\n") = some line ∧
        ¬ ∀ c, serverAssignConfItem c line = serverAssignExact c line) ∧
      ∃ line, parseConfigLine [] (ascii ": 5\n") = some line ∧
        ¬ ∀ i c, serverGroupAssignConfItem i c line = serverGroupAssignExact i c line := by
  constructor
  · refine ⟨⟨ascii "Server: 5", 6, ascii "5"⟩, by decide +kernel, fun hall => ?_⟩
    have hc := congrArg ServerConf.sgNum (hall .zero)
    exact absurd hc (by decide +kernel)
  · refine ⟨⟨ascii ": 5", 0, ascii "5"⟩, by decide +kernel, fun hall => ?_⟩
    have hc := congrArg (fun c => (c.sgroup 0).srvNum) (hall 0 .zero)
    exact absurd hc (by decide +kernel)

end UiServer
