import UiServer.Proofs.ConfRange
import UiServer.Proofs.Rates
import UiServer.Proofs.Written

/-!
# The servers are read back from the files that give them

The tables come out of `server_conf_load` as they were put into the files: `server.conf`
begins with the number of groups, the file of a group with the number of its servers,
and the lines behind it stand in any order, repeated or left out where they would give
a zero. A key carries the number of its row between two words, and the number is what
`atoi` finds there (`Numbered`).
-/

namespace UiServer

open CMem

/-! ## A key with a number in it

The callbacks look at both ends of a key and have the number read from where the
first word ends. The number stops at the second word, which begins with no digit.
-/

/-- The key of row `i`, which the file counts from one. -/
def numbered (front : Bytes) (i : Nat) (behind : Bytes) : Bytes :=
  front ++ (decimal (i + 1) ++ behind)

/-- The line that is read has this key. -/
structure Numbered (line : ConfigLine) (front : Bytes) (i : Nat) (behind : Bytes) : Prop where
  key : ∃ more, line.key = numbered front i behind ++ more
  keyLen : line.keyLen = (numbered front i behind).length

theorem Written.Read.numbered {w : Written} {line : ConfigLine} {front behind : Bytes} {i : Nat}
    (h : w.Read line) (hkey : w.setting.key = numbered front i behind) :
    Numbered line front i behind := by
  obtain ⟨hback, hlen, _⟩ := h.back
  rw [hlen, Int.toNat_natCast] at hback
  refine ⟨⟨line.key.drop w.setting.key.length, ?_⟩, by rw [hlen, hkey]⟩
  rw [← hkey]
  conv_lhs => rw [← List.take_append_drop w.setting.key.length line.key, hback]

section Keys

variable {line : ConfigLine} {front behind : Bytes} {i : Nat}

theorem Numbered.startsWith (h : Numbered line front i behind) :
    line.startsWith front = true := by
  obtain ⟨more, hmore⟩ := h.key
  rw [ConfigLine.startsWith, strncmpEq, hmore, UiServer.numbered, List.append_assoc,
    List.take_left, List.take_length, beq_self_eq_true]

/-- The end of the key is compared, and the end of the key is the second word. -/
theorem Numbered.endsWith (h : Numbered line front i behind) {str : Bytes}
    (hle : str.length ≤ behind.length) :
    line.endsWith str = (behind.drop (behind.length - str.length) == str) := by
  obtain ⟨more, hmore⟩ := h.key
  have hlen : (line.keyLen - str.length).toNat =
      (front ++ decimal (i + 1)).length + (behind.length - str.length) := by
    rw [h.keyLen, UiServer.numbered, ← List.append_assoc, List.length_append]
    omega
  have hdrop : line.key.drop (line.keyLen - str.length).toNat =
      behind.drop (behind.length - str.length) ++ more := by
    rw [hlen, hmore, UiServer.numbered, ← List.append_assoc front, List.append_assoc,
      List.drop_length_add_append, List.drop_append_of_le_length (by omega)]
  have hend : str.length = (behind.drop (behind.length - str.length)).length := by
    rw [List.length_drop]
    omega
  rw [ConfigLine.endsWith, strncmpEq, hdrop, List.take_length]
  conv_lhs => rw [hend]
  rw [← hend, List.take_left' hend.symm]

theorem Numbered.index (h : Numbered line front i behind) {n : Nat} (hn : front.length = n)
    (hbehind : isDigit (behind.headD 0) = false) (hne : behind ≠ []) (hi : i + 1 < 2 ^ 31) :
    line.index n = i := by
  obtain ⟨more, hmore⟩ := h.key
  have hhead : isDigit ((behind ++ more).headD 0) = false := by
    cases behind with
    | nil => exact absurd rfl hne
    | cons b behind => exact hbehind
  rw [ConfigLine.index, hmore, UiServer.numbered, List.append_assoc, ← hn, List.drop_left,
    List.append_assoc, atoiText_decimal hhead hi]
  omega

/-- The key is not the name of a count when their first letters tell them apart. -/
theorem Numbered.isKeyPart (h : Numbered line front i behind) {name : Bytes}
    (hlen : 2 ≤ front.length) (hne : (front.take 2).map toLower ≠ (name.take 2).map toLower) :
    line.isKeyPart name = false := by
  obtain ⟨more, hmore⟩ := h.key
  have hkey : 2 ≤ (UiServer.numbered front i behind).length := by
    rw [UiServer.numbered, List.length_append]
    omega
  have hsize : sizeOfInt line.keyLen = (UiServer.numbered front i behind).length := by
    rw [sizeOfInt, h.keyLen, if_neg (by omega), Int.toNat_natCast]
  rw [Bool.eq_false_iff]
  intro hpart
  rw [ConfigLine.isKeyPart, hsize, strncasecmpEq_iff] at hpart
  have htwo := congrArg (List.take 2) hpart
  rw [← List.map_take, ← List.map_take, List.take_take, List.take_take, Nat.min_eq_left hkey,
    hmore, UiServer.numbered, List.append_assoc, List.take_append_of_le_length hlen] at htwo
  exact hne htwo

end Keys

/-- The key is the name of the count. -/
theorem Written.Read.isKeyPart {w : Written} {line : ConfigLine} {name : Bytes}
    (h : w.Read line) (hkey : sameName w.setting.key name) : line.isKeyPart name = true := by
  obtain ⟨hback, hlen, _⟩ := h.back
  have hsame : w.setting.key.length = name.length := by
    simpa using congrArg List.length hkey
  rw [hlen, Int.toNat_natCast] at hback
  have hsize : sizeOfInt line.keyLen = w.setting.key.length := by
    rw [sizeOfInt, hlen, if_neg (by omega), Int.toNat_natCast]
  rw [ConfigLine.isKeyPart, hsize, strncasecmpEq_iff, hback, hsame, List.take_length]
  exact hkey

/-! ## The cells of a table

A table is a number of cells, each with its key and its text. A line gives a cell,
and what is shown once for cells is that the lines of a file leave every cell as
they give it, when a line puts its own cell right and spoils no other. -/

/-- The cells that a file may give, how they are written, and which may be left out. -/
structure Cells (κ : Type) where
  In : κ → Prop
  key : κ → Bytes
  text : κ → Bytes
  IsZero : κ → Prop

def Written.Says (w : Written) (key value : Bytes) : Prop :=
  w.setting.key = key ∧ w.setting.value = value

instance (w : Written) (key value : Bytes) : Decidable (w.Says key value) :=
  inferInstanceAs (Decidable (_ ∧ _))

def Written.Counts (w : Written) (name : Bytes) (n : Int) : Prop :=
  sameName w.setting.key name ∧ w.setting.value = decimalInt n

instance (w : Written) (name : Bytes) (n : Int) : Decidable (w.Counts name n) :=
  inferInstanceAs (Decidable (_ ∧ _))

/-- Every line gives a cell, or is one of the others; and every cell is given that may
not be left out. -/
structure Cells.Lines {κ : Type} (cells : Cells κ) (other : Written → Prop)
    (ws : List Written) : Prop where
  each : ∀ w ∈ ws, other w ∨ ∃ k, cells.In k ∧ w.Says (cells.key k) (cells.text k)
  all : ∀ k, cells.In k → cells.IsZero k ∨ ∃ w ∈ ws, w.Says (cells.key k) (cells.text k)

/-- A file that begins with a count. -/
def Cells.File {κ : Type} (cells : Cells κ) (name : Bytes) (n : Int) (file : Option Bytes) :
    Prop :=
  ∃ w ws, file = some (written (w :: ws)) ∧ w.Counts name n ∧
    cells.Lines (fun w => w.Counts name n) ws

section Run

variable {σ κ : Type} {cells : Cells κ} {other : Written → Prop} {ws : List Written}
  {lines : List ConfigLine} {f : σ → ConfigLine → σ} {I : σ → Prop} {F : κ → σ → Prop}

/-- A callback that keeps `I` and does with a line what it says leaves every cell as the
lines give it. -/
theorem Cells.Lines.run (h : cells.Lines other ws) (hread : List.Forall₂ Written.Read ws lines)
    (hother : ∀ {c line} {w : Written}, I c → w.Read line → other w →
      I (f c line) ∧ ∀ k, cells.In k → F k c → F k (f c line))
    (hcell : ∀ {c line} {w : Written} {k}, I c → w.Read line → cells.In k →
      w.Says (cells.key k) (cells.text k) →
        I (f c line) ∧ F k (f c line) ∧ ∀ k', cells.In k' → F k' c → F k' (f c line))
    {c : σ} (hI : I c) (hzero : ∀ k, cells.In k → cells.IsZero k → F k c) :
    I (lines.foldl f c) ∧ ∀ k, cells.In k → F k (lines.foldl f c) := by
  obtain ⟨hlines, hws⟩ := mem_of_forall₂ hread
  have hok : ∀ line ∈ lines, ∃ w, w.Read line ∧
      (other w ∨ ∃ k, cells.In k ∧ w.Says (cells.key k) (cells.text k)) := by
    intro line hline
    obtain ⟨w, hw, hwline⟩ := hws line hline
    exact ⟨w, hwline, h.each w hw⟩
  have hstep : ∀ {c line}, I c → (∃ w, w.Read line ∧
      (other w ∨ ∃ k, cells.In k ∧ w.Says (cells.key k) (cells.text k))) →
        I (f c line) ∧ ∀ k, cells.In k → F k c → F k (f c line) := by
    rintro c line hI ⟨w, hwline, hw | ⟨k, hk, hentry⟩⟩
    · exact hother hI hwline hw
    · obtain ⟨hI', _, hkeep⟩ := hcell hI hwline hk hentry
      exact ⟨hI', hkeep⟩
  refine ⟨Settled.foldl_inv (I := I) (fun hI hline => (hstep hI hline).1) hI hok, fun k hk => ?_⟩
  refine Settled.foldl_settled (K := cells.In) (F := F) (S := fun line k =>
      ∃ w : Written, w.Read line ∧ w.Says (cells.key k) (cells.text k))
    (fun hI hline => (hstep hI hline).1) ?_ (fun hI hline hk => (hstep hI hline).2 _ hk) hk hI
    hok ?_
  · rintro c line k hI _ hk ⟨w, hwline, hentry⟩
    exact (hcell hI hwline hk hentry).2.1
  · rcases h.all k hk with hz | ⟨w, hw, hentry⟩
    · exact Or.inl (hzero k hk hz)
    · obtain ⟨line, hline, hwline⟩ := hlines w hw
      exact Or.inr ⟨line, hline, w, hwline, hentry⟩

end Run

/-! ## The tables and their cells

The three kinds of file, each with the cells it may give. A cell that is zero may
be left out, as the tables are zero before the load. -/

/-- A group that a file can give: what it holds is inside its count, numbers have 32
bits and strings fit their arrays. -/
structure ServerGroup.Proper (d : ServerGroup) : Prop where
  srvNum : 0 ≤ d.srvNum ∧ d.srvNum ≤ groupMaxServerNum
  host : ∀ j, (d.servers j).host.length < 32
  port : ∀ j, -2 ^ 31 ≤ (d.servers j).port ∧ (d.servers j).port < 2 ^ 31
  noServer : ∀ j : Nat, d.srvNum ≤ j → d.servers j = ⟨[], 0⟩

/-- Tables that the files can give. -/
structure ServerConf.Proper (d : ServerConf) : Prop where
  sgNum : 0 ≤ d.sgNum ∧ d.sgNum ≤ maxGroupNum
  share : ∀ g, -2 ^ 31 ≤ d.share g ∧ d.share g < 2 ^ 31
  noGroup : ∀ g : Nat, d.sgNum ≤ g → d.sgroup g = .zero
  servers : ∀ g, (d.sgroup g).Proper
  name : ∀ r, (d.rg r).refererName.length < 32
  group : ∀ r, -2 ^ 31 ≤ (d.rg r).groupId ∧ (d.rg r).groupId < 2 ^ 31
  noReferer : ∀ r, maxRefererId ≤ r → d.rg r = ⟨[], 0⟩

/-- `server.conf`: the shares. -/
def shareCells (d : ServerConf) : Cells Nat where
  In g := g < d.sgNum
  key g := numbered (ascii "Group_") g (ascii "_rate")
  text g := decimalInt (d.share g)
  IsZero g := d.share g = 0

inductive ServerCell where
  | host (j : Nat)
  | port (j : Nat)
deriving DecidableEq, Repr

/-- The file of a group: its servers. -/
def serverCells (d : ServerGroup) : Cells ServerCell where
  In
    | .host j => j < d.srvNum
    | .port j => j < d.srvNum
  key
    | .host j => numbered (ascii "Srv_") j (ascii "_host")
    | .port j => numbered (ascii "Srv_") j (ascii "_port")
  text
    | .host j => (d.servers j).host
    | .port j => decimalInt (d.servers j).port
  IsZero
    | .host j => (d.servers j).host = []
    | .port j => (d.servers j).port = 0

inductive RefererCell where
  | name (r : Nat)
  | group (r : Nat)
deriving DecidableEq, Repr

/-- `referer_group.conf`. -/
def refererCells (d : ServerConf) : Cells RefererCell where
  In
    | .name r => r < maxRefererId
    | .group r => r < maxRefererId
  key
    | .name r => numbered (ascii "Ref_") r (ascii "_name")
    | .group r => numbered (ascii "Ref_") r (ascii "_group")
  text
    | .name r => (d.rg r).refererName
    | .group r => decimalInt (d.rg r).groupId
  IsZero
    | .name r => (d.rg r).refererName = []
    | .group r => (d.rg r).groupId = 0

/-- The files give the tables. A group without servers needs no file, and the file of
the referers may be missing when there are none. -/
structure GivenBy (d : ServerConf) (files : ServerFiles) : Prop where
  server : (shareCells d).File serverGroupNumKey d.sgNum files.server.file
  group : ∀ g : Nat, g < d.sgNum →
    (files.group g).file = none ∧ (d.sgroup g).srvNum = 0 ∨
      (serverCells (d.sgroup g)).File serverNumKey (d.sgroup g).srvNum (files.group g).file
  referer : files.referer.file = none ∧ (∀ r, d.rg r = ⟨[], 0⟩) ∨
    ∃ ws, files.referer.file = some (written ws) ∧
      (refererCells d).Lines (fun _ => False) ws

/-! ## `server.conf`

The first line gives the number of groups, and the lines behind it the shares of
groups below that number. So each of them is let through and none is beyond the
table. -/

/-- The tables when only shares have been read. -/
structure OnlyShares (d c : ServerConf) : Prop where
  sgNum : c.sgNum = d.sgNum
  servers : ∀ g, (c.sgroup g).servers = ServerGroup.zero.servers ∧ (c.sgroup g).srvNum = 0
  noShare : ∀ g : Nat, d.sgNum ≤ g → c.share g = 0
  rg : c.rg = fun _ => ⟨[], 0⟩

theorem serverAssign_count_line {c : ServerConf} {line : ConfigLine} {w : Written} {n : Int}
    (hread : w.Read line) (hw : w.Counts serverGroupNumKey n) (hlow : -2 ^ 31 ≤ n)
    (hhigh : n < 2 ^ 31) : serverAssignConfItem c line = { c with sgNum := n } := by
  rw [serverAssignConfItem, if_pos (hread.isKeyPart hw.1), hread.back.value, hw.2,
    atoiText_decimalInt hlow hhigh]

theorem serverAssign_share_line {c : ServerConf} {line : ConfigLine} {g : Nat} {v : Int}
    (h : Numbered line (ascii "Group_") g (ascii "_rate")) (hvalue : line.value = decimalInt v)
    (hlow : -2 ^ 31 ≤ v) (hhigh : v < 2 ^ 31) (hg : g < c.sgNum) (hg' : g + 1 < 2 ^ 31) :
    serverAssignConfItem c line =
      { c with sgroup := Function.update c.sgroup g { c.sgroup g with rate := v } }.use
        .sgroup g := by
  have hindex : line.index 6 = g := h.index rfl (by decide) (by decide) hg'
  have hrate : line.isGroupRate = true := by
    rw [ConfigLine.isGroupRate, h.startsWith, h.endsWith (Nat.le_refl _)]
    decide
  rw [serverAssignConfItem, h.isKeyPart (by decide) (by decide), if_neg Bool.false_ne_true,
    serverAssignOther, if_pos hrate]
  simp only [hindex, Int.toNat_natCast]
  rw [if_neg (by omega), hvalue, atoiText_decimalInt hlow hhigh]

theorem serverConfInit_sgroup : (serverConfInit .zero).sgroup = fun _ => .zero :=
  Function.update_eq_self 0 _

theorem onlyShares_init {d : ServerConf} {n : Int} (hn : d.sgNum = n) :
    OnlyShares d { serverConfInit .zero with sgNum := n } := by
  refine ⟨hn.symm, fun g => ?_, fun g _ => ?_, rfl⟩
  · rw [serverConfInit_sgroup]
    exact ⟨rfl, rfl⟩
  · show ((serverConfInit .zero).sgroup g).rate = 0
    rw [serverConfInit_sgroup]
    rfl

/-- A share is read. -/
theorem OnlyShares.update {d c : ServerConf} (h : OnlyShares d c) {g : Nat} (hg : g < d.sgNum)
    (v : Int) {c' : ServerConf}
    (hc' : c' = { c with sgroup := Function.update c.sgroup g { c.sgroup g with rate := v } }.use
      .sgroup g) :
    OnlyShares d c' ∧ c'.share g = v ∧ ∀ g', g' ≠ g → c'.share g' = c.share g' := by
  have hsgroup : c'.sgroup = Function.update c.sgroup g { c.sgroup g with rate := v } := by
    rw [hc']
    rfl
  have hother : ∀ g', g' ≠ g → c'.sgroup g' = c.sgroup g' := fun g' hne => by
    rw [hsgroup, Function.update_of_ne hne]
  have hown : c'.sgroup g = { c.sgroup g with rate := v } := by
    rw [hsgroup, Function.update_self]
  refine ⟨⟨by rw [hc']; exact h.sgNum, fun g' => ?_, fun g' hle => ?_, by rw [hc']; exact h.rg⟩,
    by rw [ServerConf.share, hown], fun g' hne => by rw [ServerConf.share, hother g' hne]; rfl⟩
  · by_cases hne : g' = g
    · rw [hne, hown]
      exact h.servers g
    · rw [hother g' hne]
      exact h.servers g'
  · have hne : g' ≠ g := by omega
    rw [ServerConf.share, hother g' hne]
    exact h.noShare g' hle

theorem serverFile_run {d : ServerConf} (hd : d.Proper) (stray : Nat → Bytes) {s : Bytes}
    (h : (shareCells d).File serverGroupNumKey d.sgNum (some s)) {c : ServerConf}
    (hc : c = (settings stray s).foldl serverAssignConfItem (serverConfInit .zero)) :
    OnlyShares d c ∧ ∀ g, c.share g = d.share g := by
  obtain ⟨hlow, hhigh⟩ := hd.sgNum
  have hmax : (maxGroupNum : Int) = 16 := rfl
  obtain ⟨w, ws, hs, hw, hlines⟩ := h
  cases hs
  have hread := settings_written stray (w :: ws)
  cases hset : settings stray (written (w :: ws)) with
  | nil =>
      rw [hset] at hread
      cases hread
  | cons line lines =>
      rw [hset] at hread
      cases hread with
      | cons hline hrest =>
          rw [hset, List.foldl_cons,
            serverAssign_count_line hline hw (by omega) (by omega)] at hc
          have hrun := hlines.run (f := serverAssignConfItem) (I := OnlyShares d)
            (F := fun g c => c.share g = d.share g) hrest ?_ ?_ (onlyShares_init rfl) ?_
          · rw [← hc] at hrun
            refine ⟨hrun.1, fun g => ?_⟩
            by_cases hg : g < d.sgNum
            · exact hrun.2 g hg
            · rw [hrun.1.noShare g (by omega), ServerConf.share, hd.noGroup g (by omega)]
              rfl
          · -- the count once more
            intro c line w hI hline hw
            rw [serverAssign_count_line hline hw (by omega) (by omega)]
            exact ⟨⟨rfl, hI.servers, hI.noShare, hI.rg⟩, fun g _ hg => hg⟩
          · intro c line w g hI hline hg hentry
            have hg : (g : Int) < d.sgNum := hg
            obtain ⟨hlow', hhigh'⟩ := hd.share g
            have hstep := serverAssign_share_line (hline.numbered hentry.1)
              (hline.back.value.trans hentry.2) hlow' hhigh' (by rw [hI.sgNum]; exact hg)
              (by omega)
            obtain ⟨hI', hown, hother⟩ := hI.update hg (d.share g) hstep
            refine ⟨hI', hown, fun g' _ hg' => ?_⟩
            by_cases hne : g' = g
            · rw [hne, hown]
            · rw [hother g' hne, hg']
          · intro g hg hzero
            have hzero : d.share g = 0 := hzero
            show ((serverConfInit .zero).sgroup g).rate = d.share g
            rw [hzero, serverConfInit_sgroup]
            rfl

/-! ## The file of a group

The callback works on its group alone, so the file is a fold over the group. Its
first line gives the number of servers and the others give the cells of the rows.
-/

/-- What a line of its file does to a group. -/
def groupAssign (group : ServerGroup) (line : ConfigLine) : ServerGroup :=
  if line.isKeyPart serverNumKey then { group with srvNum := atoiText line.value }
  else if group.srvNum < 1 then group
  else if line.startsWith (ascii "Srv_") then
    let idx := line.index 4
    if group.srvNum ≤ idx ∨ idx < 0 then group
    else
      match serverSet (group.servers idx.toNat) line with
      | none => group
      | some server =>
          { group with servers := Function.update group.servers idx.toNat server }
  else group

/-- The callback does it to group `i`, and leaves the rest of the tables alone. -/
structure GroupChange (i : Nat) (f : ServerGroup → ServerGroup) (c c' : ServerConf) : Prop where
  sgroup : c'.sgroup = Function.update c.sgroup i (f (c.sgroup i))
  sgNum : c'.sgNum = c.sgNum
  rg : c'.rg = c.rg

theorem GroupChange.refl (i : Nat) {f : ServerGroup → ServerGroup} {c : ServerConf}
    (h : f (c.sgroup i) = c.sgroup i) : GroupChange i f c c :=
  ⟨by rw [h, Function.update_eq_self], rfl, rfl⟩

theorem GroupChange.trans {i : Nat} {f f' : ServerGroup → ServerGroup} {c c' c'' : ServerConf}
    (h : GroupChange i f c c') (h' : GroupChange i f' c' c'') :
    GroupChange i (fun group => f' (f group)) c c'' :=
  ⟨by rw [h'.sgroup, h.sgroup, Function.update_self, Function.update_idem],
    h'.sgNum.trans h.sgNum, h'.rg.trans h.rg⟩

theorem groupAssign_change (i : Nat) (c : ServerConf) (line : ConfigLine) :
    GroupChange i (fun group => groupAssign group line) c (serverGroupAssignConfItem i c line) := by
  rw [serverGroupAssignConfItem]
  by_cases hkey : line.isKeyPart serverNumKey = true
  · rw [if_pos hkey]
    refine ⟨?_, rfl, rfl⟩
    simp only [groupAssign, if_pos hkey]
  · rw [if_neg hkey]
    simp only [serverGroupAssignOther]
    split
    · next hfew =>
        refine .refl i ?_
        simp only [groupAssign, if_neg hkey, if_pos hfew]
    · next hmany =>
        split
        · next hstart =>
            split
            · next hout =>
                refine .refl i ?_
                simp only [groupAssign, if_neg hkey, if_neg hmany, if_pos hstart, if_pos hout]
            · next hin =>
                split
                · next hset =>
                    refine .refl i ?_
                    simp only [groupAssign, if_neg hkey, if_neg hmany, if_pos hstart,
                      if_neg hin, hset]
                · next server hset =>
                    refine ⟨?_, rfl, rfl⟩
                    simp only [groupAssign, if_neg hkey, if_neg hmany, if_pos hstart,
                      if_neg hin, hset]
                    rfl
        · next hstart =>
            refine .refl i ?_
            simp only [groupAssign, if_neg hkey, if_neg hmany, if_neg hstart]

theorem foldl_groupAssign_change (i : Nat) (lines : List ConfigLine) : ∀ c : ServerConf,
    GroupChange i (fun group => lines.foldl groupAssign group) c
      (lines.foldl (serverGroupAssignConfItem i) c) := by
  induction lines with
  | nil => exact fun c => .refl i rfl
  | cons line lines ih => exact fun c => (groupAssign_change i c line).trans (ih _)

/-- A group as it is while its file is read. -/
structure GroupRead (d group : ServerGroup) : Prop where
  srvNum : group.srvNum = d.srvNum
  rate : group.rate = d.rate
  noServer : ∀ j : Nat, d.srvNum ≤ j → group.servers j = ⟨[], 0⟩

def ServerCell.Holds (d : ServerGroup) (cell : ServerCell) (group : ServerGroup) : Prop :=
  match cell with
  | .host j => (group.servers j).host = (d.servers j).host
  | .port j => (group.servers j).port = (d.servers j).port

theorem GroupRead.ext {d group : ServerGroup} (h : GroupRead d group)
    (hcells : ∀ cell, (serverCells d).In cell → cell.Holds d group)
    (hno : ∀ j : Nat, d.srvNum ≤ j → d.servers j = ⟨[], 0⟩) : group = d := by
  have hservers : group.servers = d.servers := by
    funext j
    by_cases hj : j < d.srvNum
    · have hhost : (group.servers j).host = (d.servers j).host := hcells (.host j) hj
      have hport : (group.servers j).port = (d.servers j).port := hcells (.port j) hj
      exact congrArg₂ ObjServer.mk hhost hport
    · rw [h.noServer j (by omega), hno j (by omega)]
  have heta : group = ⟨group.servers, group.srvNum, group.rate⟩ := rfl
  rw [heta, hservers, h.srvNum, h.rate]

theorem groupAssign_count_line {group : ServerGroup} {line : ConfigLine} {w : Written} {n : Int}
    (hread : w.Read line) (hw : w.Counts serverNumKey n) (hlow : -2 ^ 31 ≤ n)
    (hhigh : n < 2 ^ 31) : groupAssign group line = { group with srvNum := n } := by
  rw [groupAssign, if_pos (hread.isKeyPart hw.1), hread.back.value, hw.2,
    atoiText_decimalInt hlow hhigh]

/-- A line about server `j`. -/
theorem groupAssign_server_line {group : ServerGroup} {line : ConfigLine} {behind : Bytes}
    {j : Nat} {server : ObjServer} (h : Numbered line (ascii "Srv_") j behind)
    (hbehind : isDigit (behind.headD 0) = false) (hne : behind ≠ [])
    (hj : j < group.srvNum) (hmax : group.srvNum ≤ groupMaxServerNum)
    (hset : serverSet (group.servers j) line = some server) :
    groupAssign group line =
      { group with servers := Function.update group.servers j server } := by
  have hten : (groupMaxServerNum : Int) = 10 := rfl
  have hindex : line.index 4 = j := h.index rfl hbehind hne (by omega)
  rw [groupAssign, h.isKeyPart (by decide) (by decide), if_neg Bool.false_ne_true,
    if_neg (by omega), if_pos h.startsWith]
  simp only [hindex, Int.toNat_natCast]
  rw [if_neg (by omega), hset]

/-- A server is read. -/
theorem GroupRead.update {d group : ServerGroup} (h : GroupRead d group) {j : Nat}
    (hj : j < d.srvNum) (server : ObjServer) :
    GroupRead d { group with servers := Function.update group.servers j server } := by
  refine ⟨h.srvNum, h.rate, fun j' hle => ?_⟩
  show Function.update group.servers j server j' = _
  rw [Function.update_of_ne (by omega)]
  exact h.noServer j' hle

/-- A field of a row stays right when what is put there is right or was there. -/
theorem update_field {α β : Type} (rows : Nat → α) (field : α → β) (right : Nat → β)
    {i k : Nat} {row : α} (h : field (rows k) = right k)
    (hrow : field row = right i ∨ field row = field (rows i)) :
    field (Function.update rows i row k) = right k := by
  by_cases hk : k = i
  · subst hk
    rw [Function.update_self]
    rcases hrow with hrow | hrow
    · exact hrow
    · exact hrow.trans h
  · rw [Function.update_of_ne hk, h]

theorem ServerCell.Holds.update {d group : ServerGroup} {cell : ServerCell} {j : Nat}
    {server : ObjServer} (h : cell.Holds d group)
    (hhost : server.host = (d.servers j).host ∨ server.host = (group.servers j).host)
    (hport : server.port = (d.servers j).port ∨ server.port = (group.servers j).port) :
    cell.Holds d { group with servers := Function.update group.servers j server } := by
  cases cell with
  | host k => exact update_field group.servers (·.host) (fun j => (d.servers j).host) h hhost
  | port k => exact update_field group.servers (·.port) (fun j => (d.servers j).port) h hport

/-- A line that gives a cell of a group. -/
theorem groupAssign_cell {d group : ServerGroup} (hd : d.Proper) {line : ConfigLine}
    {w : Written} {cell : ServerCell} (hI : GroupRead d group) (hline : w.Read line)
    (hin : (serverCells d).In cell)
    (hentry : w.Says ((serverCells d).key cell) ((serverCells d).text cell)) :
    GroupRead d (groupAssign group line) ∧ cell.Holds d (groupAssign group line) ∧
      ∀ cell', (serverCells d).In cell' → cell'.Holds d group →
        cell'.Holds d (groupAssign group line) := by
  have hmax : group.srvNum ≤ groupMaxServerNum := hI.srvNum ▸ hd.srvNum.2
  have hvalue := hline.back.value.trans hentry.2
  cases cell with
  | host j =>
      have hj : (j : Int) < d.srvNum := hin
      have hkey : Numbered line (ascii "Srv_") j (ascii "_host") := hline.numbered hentry.1
      have hset : serverSet (group.servers j) line =
          some { group.servers j with host := (d.servers j).host } := by
        rw [serverSet, hkey.endsWith (Nat.le_refl _), if_pos (by decide), hvalue]
        exact congrArg (fun host => some { group.servers j with host })
          (List.take_of_length_le (Nat.le_sub_one_of_lt (hd.host j)))
      rw [groupAssign_server_line hkey (by decide) (by decide) (hI.srvNum.symm ▸ hj) hmax hset]
      refine ⟨hI.update hj _, ?_, fun cell' _ h => h.update (Or.inl rfl) (Or.inr rfl)⟩
      show (Function.update group.servers j _ j).host = _
      rw [Function.update_self]
  | port j =>
      have hj : (j : Int) < d.srvNum := hin
      have hkey : Numbered line (ascii "Srv_") j (ascii "_port") := hline.numbered hentry.1
      obtain ⟨hlow, hhigh⟩ := hd.port j
      have hvalue : line.value = decimalInt (d.servers j).port := hvalue
      have hset : serverSet (group.servers j) line =
          some { group.servers j with port := (d.servers j).port } := by
        rw [serverSet, hkey.endsWith (by decide), if_neg (by decide),
          hkey.endsWith (Nat.le_refl _), if_pos (by decide), hvalue,
          atoiText_decimalInt hlow hhigh]
      rw [groupAssign_server_line hkey (by decide) (by decide) (hI.srvNum.symm ▸ hj) hmax hset]
      refine ⟨hI.update hj _, ?_, fun cell' _ h => h.update (Or.inr rfl) (Or.inl rfl)⟩
      show (Function.update group.servers j _ j).port = _
      rw [Function.update_self]

theorem groupFile_run {d group : ServerGroup} (hd : d.Proper)
    (hgroup : group = ⟨ServerGroup.zero.servers, 0, d.rate⟩) (stray : Nat → Bytes) {s : Bytes}
    (h : (serverCells d).File serverNumKey d.srvNum (some s)) :
    (settings stray s).foldl groupAssign group = d := by
  obtain ⟨hlow, hhigh⟩ := hd.srvNum
  have hmax : (groupMaxServerNum : Int) = 10 := rfl
  obtain ⟨w, ws, hs, hw, hlines⟩ := h
  cases hs
  have hread := settings_written stray (w :: ws)
  cases hset : settings stray (written (w :: ws)) with
  | nil =>
      rw [hset] at hread
      cases hread
  | cons line lines =>
      rw [hset] at hread
      cases hread with
      | cons hline hrest =>
          rw [List.foldl_cons, groupAssign_count_line hline hw (by omega) (by omega), hgroup]
          have hrun := hlines.run (f := groupAssign) (I := GroupRead d)
            (F := fun cell group => cell.Holds d group) hrest ?_
            (fun hI hline hin hentry => groupAssign_cell hd hI hline hin hentry)
            (c := ⟨ServerGroup.zero.servers, d.srvNum, d.rate⟩) ⟨rfl, rfl, fun _ _ => rfl⟩ ?_
          · exact hrun.1.ext hrun.2 hd.noServer
          · intro group line w hI hline hw
            rw [groupAssign_count_line hline hw (by omega) (by omega)]
            exact ⟨⟨rfl, hI.rate, hI.noServer⟩, fun cell _ hcell => by cases cell <;> exact hcell⟩
          · intro cell hin hzero
            cases cell with
            | host j => exact hzero.symm
            | port j => exact hzero.symm

/-- A round of the loop over the group files. -/
theorem loadGroup_given {d c : ServerConf} (hd : d.Proper) {files : ServerFiles}
    (hfiles : GivenBy d files) {i : Nat} (hi : i < d.sgNum)
    (hc : c.sgroup i = ⟨ServerGroup.zero.servers, 0, d.share i⟩) :
    GroupChange i (fun _ => d.sgroup i) c (loadGroup files c i) := by
  have hproper := hd.servers i
  rcases hfiles.group i hi with ⟨hfile, hnone⟩ | hfile
  · rw [loadGroup_none hfile]
    have hgroup : d.sgroup i = ⟨ServerGroup.zero.servers, 0, d.share i⟩ := by
      have hservers : (d.sgroup i).servers = ServerGroup.zero.servers := by
        funext j
        exact hproper.noServer j (by omega)
      have heta : d.sgroup i = ⟨(d.sgroup i).servers, (d.sgroup i).srvNum, (d.sgroup i).rate⟩ :=
        rfl
      rw [heta, hservers, hnone]
      rfl
    refine ⟨?_, rfl, rfl⟩
    show Function.update c.sgroup i { c.sgroup i with srvNum := 0 } = _
    rw [hc, hgroup]
  · obtain ⟨w, ws, hs, hrest⟩ := hfile
    have hrun := groupFile_run hproper hc (files.group i).stray ⟨w, ws, rfl, hrest⟩
    have hfold := foldl_groupAssign_change i
      (settings (files.group i).stray (written (w :: ws))) (c.use .sgroup i)
    have hown : (c.use .sgroup i).sgroup = c.sgroup := rfl
    have hsgroup := hfold.sgroup
    rw [hown, hrun] at hsgroup
    have hcap : ((settings (files.group i).stray (written (w :: ws))).foldl
        (serverGroupAssignConfItem i) (c.use .sgroup i)).capServers i =
        (settings (files.group i).stray (written (w :: ws))).foldl
          (serverGroupAssignConfItem i) (c.use .sgroup i) := by
      rw [ServerConf.capServers, hsgroup, Function.update_self,
        if_neg (Int.not_lt.2 hproper.srvNum.2)]
    rw [loadGroup_some hs, hcap]
    exact ⟨hsgroup, hfold.sgNum, hfold.rg⟩

/-- The first `n` group files. -/
theorem loadGroups_given {d c : ServerConf} (hd : d.Proper) {files : ServerFiles}
    (hfiles : GivenBy d files) (hsgNum : c.sgNum = d.sgNum)
    (hc : ∀ g, c.sgroup g = ⟨ServerGroup.zero.servers, 0, d.share g⟩) : ∀ n : Nat, n ≤ d.sgNum →
    (loadGroups files c n).sgNum = d.sgNum ∧ (loadGroups files c n).rg = c.rg ∧
      ∀ g, (loadGroups files c n).sgroup g = if g < n then d.sgroup g else c.sgroup g := by
  intro n
  induction n with
  | zero =>
      intro _
      refine ⟨hsgNum, rfl, fun g => ?_⟩
      rw [if_neg (Nat.not_lt_zero g)]
      rfl
  | succ n ih =>
      intro hn
      obtain ⟨hnum, hrg, hgroups⟩ := ih (by omega)
      have hown : (loadGroups files c n).sgroup n = ⟨ServerGroup.zero.servers, 0, d.share n⟩ := by
        rw [hgroups n, if_neg (Nat.lt_irrefl n), hc]
      have hstep := loadGroup_given hd hfiles (i := n) (by omega) hown
      rw [loadGroups]
      refine ⟨hstep.sgNum.trans hnum, hstep.rg.trans hrg, fun g => ?_⟩
      rw [hstep.sgroup]
      by_cases hg : g = n
      · rw [hg, Function.update_self, if_pos (Nat.lt_succ_self n)]
      · rw [Function.update_of_ne hg, hgroups g]
        by_cases hlt : g < n
        · rw [if_pos hlt, if_pos (by omega)]
        · rw [if_neg hlt, if_neg (by omega)]

/-! ## The referers

The referers have no count. A row of theirs has two cells, and the file is read as
the others are. -/

/-- What a line does to the referers. -/
def refererAssign (rg : Nat → RefererGroup) (line : ConfigLine) : Nat → RefererGroup :=
  if line.startsWith (ascii "Ref_") then
    let rId := line.index 4
    if maxRefererId ≤ rId ∨ rId < 0 then rg
    else
      match refererSet (rg rId.toNat) line with
      | none => rg
      | some referer => Function.update rg rId.toNat referer
  else rg

theorem refererAssign_rg (c : ServerConf) (line : ConfigLine) :
    (serverRefererGroupAssignConfItem c line).rg = refererAssign c.rg line := by
  rw [serverRefererGroupAssignConfItem]
  split
  · next hstart =>
      simp only
      split
      · next hout => simp only [refererAssign, if_pos hstart, if_pos hout]
      · next hin =>
          split
          · next hset => simp only [refererAssign, if_pos hstart, if_neg hin, hset]
          · next hset =>
              simp only [refererAssign, if_pos hstart, if_neg hin, hset]
              rfl
  · next hstart => simp only [refererAssign, if_neg hstart]

theorem foldl_refererAssign_rg (lines : List ConfigLine) : ∀ c : ServerConf,
    (lines.foldl serverRefererGroupAssignConfItem c).rg = lines.foldl refererAssign c.rg := by
  induction lines with
  | nil => exact fun c => rfl
  | cons line lines ih =>
      intro c
      rw [List.foldl_cons, List.foldl_cons, ih, refererAssign_rg]

def RefererCell.Holds (d : ServerConf) (cell : RefererCell) (rg : Nat → RefererGroup) : Prop :=
  match cell with
  | .name r => (rg r).refererName = (d.rg r).refererName
  | .group r => (rg r).groupId = (d.rg r).groupId

theorem RefererCell.Holds.update {d : ServerConf} {cell : RefererCell}
    {rg : Nat → RefererGroup} {r : Nat} {referer : RefererGroup} (h : cell.Holds d rg)
    (hname : referer.refererName = (d.rg r).refererName ∨
      referer.refererName = (rg r).refererName)
    (hgroup : referer.groupId = (d.rg r).groupId ∨ referer.groupId = (rg r).groupId) :
    cell.Holds d (Function.update rg r referer) := by
  cases cell with
  | name k => exact update_field rg (·.refererName) (fun r => (d.rg r).refererName) h hname
  | group k => exact update_field rg (·.groupId) (fun r => (d.rg r).groupId) h hgroup

/-- A line about referer `r`. -/
theorem refererAssign_line {rg : Nat → RefererGroup} {line : ConfigLine} {behind : Bytes}
    {r : Nat} {referer : RefererGroup} (h : Numbered line (ascii "Ref_") r behind)
    (hbehind : isDigit (behind.headD 0) = false) (hne : behind ≠ []) (hr : r < maxRefererId)
    (hset : refererSet (rg r) line = some referer) :
    refererAssign rg line = Function.update rg r referer := by
  have hmax : maxRefererId = 10000 := rfl
  have hindex : line.index 4 = r := h.index rfl hbehind hne (by omega)
  rw [refererAssign, if_pos h.startsWith]
  simp only [hindex, Int.toNat_natCast]
  rw [if_neg (by omega), hset]

/-- A line that gives a cell of the referers. -/
theorem refererAssign_cell {d : ServerConf} (hd : d.Proper) {rg : Nat → RefererGroup}
    {line : ConfigLine} {w : Written} {cell : RefererCell} (hline : w.Read line)
    (hin : (refererCells d).In cell)
    (hentry : w.Says ((refererCells d).key cell) ((refererCells d).text cell)) :
    (∀ r, maxRefererId ≤ r → rg r = ⟨[], 0⟩) →
    (∀ r, maxRefererId ≤ r → refererAssign rg line r = ⟨[], 0⟩) ∧
      cell.Holds d (refererAssign rg line) ∧
      ∀ cell', (refererCells d).In cell' → cell'.Holds d rg →
        cell'.Holds d (refererAssign rg line) := by
  intro hI
  have hvalue := hline.back.value.trans hentry.2
  have hkeep : ∀ {k}, k < maxRefererId → ∀ (referer : RefererGroup) r, maxRefererId ≤ r →
      Function.update rg k referer r = ⟨[], 0⟩ := fun hk referer r hr => by
    rw [Function.update_of_ne (by omega), hI r hr]
  cases cell with
  | name r =>
      have hr : r < maxRefererId := hin
      have hkey : Numbered line (ascii "Ref_") r (ascii "_name") := hline.numbered hentry.1
      have hset : refererSet (rg r) line =
          some { rg r with refererName := (d.rg r).refererName } := by
        rw [refererSet, hkey.endsWith (Nat.le_refl _), if_pos (by decide), hvalue]
        exact congrArg (fun name => some { rg r with refererName := name })
          (List.take_of_length_le (Nat.le_sub_one_of_lt (hd.name r)))
      rw [refererAssign_line hkey (by decide) (by decide) hr hset]
      refine ⟨hkeep hr _, ?_, fun cell' _ h => h.update (Or.inl rfl) (Or.inr rfl)⟩
      show (Function.update rg r _ r).refererName = _
      rw [Function.update_self]
  | group r =>
      have hr : r < maxRefererId := hin
      have hkey : Numbered line (ascii "Ref_") r (ascii "_group") := hline.numbered hentry.1
      obtain ⟨hlow, hhigh⟩ := hd.group r
      have hvalue : line.value = decimalInt (d.rg r).groupId := hvalue
      have hset : refererSet (rg r) line = some { rg r with groupId := (d.rg r).groupId } := by
        rw [refererSet, hkey.endsWith (by decide), if_neg (by decide),
          hkey.endsWith (Nat.le_refl _), if_pos (by decide), hvalue,
          atoiText_decimalInt hlow hhigh]
      rw [refererAssign_line hkey (by decide) (by decide) hr hset]
      refine ⟨hkeep hr _, ?_, fun cell' _ h => h.update (Or.inr rfl) (Or.inl rfl)⟩
      show (Function.update rg r _ r).groupId = _
      rw [Function.update_self]

theorem refererFile_run {d : ServerConf} (hd : d.Proper) {ws : List Written}
    (h : (refererCells d).Lines (fun _ => False) ws) (stray : Nat → Bytes) :
    (settings stray (written ws)).foldl refererAssign (fun _ => ⟨[], 0⟩) = d.rg := by
  have hrun := h.run (f := refererAssign) (I := fun rg => ∀ r, maxRefererId ≤ r → rg r = ⟨[], 0⟩)
    (F := fun cell rg => cell.Holds d rg) (settings_written stray ws)
    (fun _ _ hno => hno.elim) (fun hI hline hin hentry => refererAssign_cell hd hline hin hentry hI)
    (c := fun _ => ⟨[], 0⟩) (fun _ _ => rfl) ?_
  · funext r
    by_cases hr : r < maxRefererId
    · exact congrArg₂ RefererGroup.mk (hrun.2 (.name r) hr) (hrun.2 (.group r) hr)
    · rw [hrun.1 r (by omega), hd.noReferer r (by omega)]
  · intro cell hin hzero
    cases cell with
    | name r => exact hzero.symm
    | group r => exact hzero.symm

/-! ## The load

The load goes through the files and makes the table of the shares in between. It
makes it of the shares, so that is the one table that a file does not give. -/

theorem rateStep_rg (c : ServerConf) (rate : Int) (i : Nat) : (rateStep c rate i).1.rg = c.rg := by
  simp only [rateStep]
  split <;> rfl

theorem rateLoop_rg (c : ServerConf) : ∀ n, (rateLoop c n).1.rg = c.rg := by
  intro n
  induction n with
  | zero => rfl
  | succ n ih => rw [rateLoop, rateStep_rg, ih]

/-- A key and a value that a line can hold. -/
structure PlainText (key value : Bytes) : Prop where
  keyOk : key ≠ [] ∧ NulFree key ∧ space ∉ key ∧ newline ∉ key ∧ key.head? ≠ some colon ∧
    key.getLast? ≠ some colon ∧ key.head? ≠ some 35
  valueOk : NulFree value ∧ newline ∉ value ∧ value.head? ≠ some space ∧
    value.getLast? ≠ some 13
  fits : key.length + value.length ≤ 1000

def PlainText.setting {key value : Bytes} (h : PlainText key value) : Setting :=
  ⟨key, value, h.keyOk.1, h.keyOk.2.1, h.keyOk.2.2.1, h.keyOk.2.2.2.1, h.keyOk.2.2.2.2.1,
    h.keyOk.2.2.2.2.2.1, h.valueOk.1, h.valueOk.2.1, h.valueOk.2.2.1, h.valueOk.2.2.2⟩

theorem PlainText.length_line {key value : Bytes} (h : PlainText key value) :
    (h.setting.line 0 0 1 false).length ≤ 1023 := by
  have hfits := h.fits
  simp only [PlainText.setting, Setting.line, Setting.valuePart, spaces, lineEnd,
    List.length_append, List.length_cons, List.length_replicate, Bool.false_eq_true, if_false,
    List.length_nil]
  omega

/-- The line with one space behind the colon. -/
def PlainText.line {key value : Bytes} (h : PlainText key value) : Written where
  setting := h.setting
  indent := 0
  front := 0
  behind := 1
  crlf := false
  apart := Nat.le_refl 1
  fits := h.length_line
  noComment := h.keyOk.2.2.2.2.2.2

def oneGroup : List Written :=
  [(⟨by decide, by decide, by decide⟩ : PlainText (ascii "server_group_num") (ascii "1")).line,
    (⟨by decide, by decide, by decide⟩ : PlainText (ascii "Group_1_rate") (ascii "5")).line]

def oneServer : List Written :=
  [(⟨by decide, by decide, by decide⟩ : PlainText (ascii "Server_num") (ascii "1")).line,
    (⟨by decide, by decide, by decide⟩ : PlainText (ascii "Srv_1_port") (ascii "3000")).line,
    (⟨by decide, by decide, by decide⟩ : PlainText (ascii "Srv_1_host") (ascii "db")).line]

def oneServerConf : ServerConf where
  sgNum := 1
  sgroup
    | 0 => ⟨fun | 0 => ⟨ascii "db", 3000⟩ | _ + 1 => ⟨[], 0⟩, 1, 5⟩
    | _ + 1 => .zero
  rate := .zero
  rg := fun _ => ⟨[], 0⟩
  uses := []

def oneServerFiles : ServerFiles :=
  ⟨⟨some (written oneGroup), fun _ => []⟩, fun _ => ⟨some (written oneServer), fun _ => []⟩,
    ⟨none, fun _ => []⟩⟩

theorem ServerGroup.zero_proper : ServerGroup.zero.Proper := by
  have hempty : ([] : Bytes).length < 32 := by decide
  have hzero : -2 ^ 31 ≤ (0 : Int) ∧ (0 : Int) < 2 ^ 31 := by decide
  exact ⟨by decide, fun _ => hempty, fun _ => hzero, fun _ _ => rfl⟩

theorem oneServerConf_proper : oneServerConf.Proper := by
  have hempty : ([] : Bytes).length < 32 := by decide
  have hzero : -2 ^ 31 ≤ (0 : Int) ∧ (0 : Int) < 2 ^ 31 := by decide
  refine ⟨by decide, fun g => ?_, fun g hg => ?_, fun g => ?_, fun _ => hempty, fun _ => hzero,
    fun _ _ => rfl⟩
  · cases g with
    | zero => decide
    | succ g => exact hzero
  · cases g with
    | zero => exact absurd hg (by decide)
    | succ g => rfl
  · cases g with
    | succ g => exact ServerGroup.zero_proper
    | zero =>
        refine ⟨by decide, fun j => ?_, fun j => ?_, fun j hj => ?_⟩
        · cases j with
          | zero => decide
          | succ j => exact hempty
        · cases j with
          | zero => decide
          | succ j => exact hzero
        · cases j with
          | zero => exact absurd hj (by decide)
          | succ j => rfl

theorem oneServerFiles_given : GivenBy oneServerConf oneServerFiles := by
  have hone : ∀ {n : Nat}, (n : Int) < 1 → n = 0 := fun h => by omega
  refine ⟨⟨_, _, rfl, by decide, fun w hw => ?_, fun g hg => ?_⟩, fun g hg => ?_,
    Or.inl ⟨rfl, fun _ => rfl⟩⟩
  · rw [List.mem_singleton.1 hw]
    exact Or.inr ⟨0, Int.one_pos, by decide⟩
  · obtain rfl := hone hg
    exact Or.inr ⟨_, List.mem_singleton_self _, by decide⟩
  · obtain rfl := hone hg
    refine Or.inr ⟨_, _, rfl, by decide, fun w hw => ?_, fun cell hin => ?_⟩
    · rcases List.mem_cons.1 hw with rfl | hw
      · exact Or.inr ⟨.port 0, Int.one_pos, by decide⟩
      · rw [List.mem_singleton.1 hw]
        exact Or.inr ⟨.host 0, Int.one_pos, by decide⟩
    · cases cell with
      | host j =>
          obtain rfl := hone hin
          exact Or.inr ⟨_, List.mem_cons_of_mem _ (List.mem_singleton_self _), by decide⟩
      | port j =>
          obtain rfl := hone hin
          exact Or.inr ⟨_, List.mem_cons_self, by decide⟩

end UiServer
