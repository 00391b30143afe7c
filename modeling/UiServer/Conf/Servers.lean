import UiServer.Conf.Line
import UiServer.Server.Context
import UiServer.Util.Text

/-!
# The servers and their groups

`server_conf_load` reads how many groups there are and their shares, then a file for
each group with its servers, then the groups of the referers. The tables have a fixed
size. The numbers that the lines give are checked against the count that an earlier
line of the same file has set, and the counts are cut down to the tables behind the
file.

A table is a function here, so a write behind its end has a place to go; `uses` is
the list of all indices, and whether they are inside is a statement about it.
-/

namespace UiServer

open CMem

/-- `MAX_REFERER_ID`. -/
def maxRefererId : Nat := 10 * 1000

structure ObjServer where
  host : Bytes
  port : Int
deriving DecidableEq, Repr

structure ServerGroup where
  servers : Nat → ObjServer
  srvNum : Int
  rate : Int

structure RefererGroup where
  refererName : Bytes
  groupId : Int
deriving DecidableEq, Repr

/-- `Group_rate_t`. -/
structure GroupRate where
  rate : Nat → Int
  id : Nat → Int
  rateNum : Nat
  nid : Nat → Int
  nrateNum : Nat

inductive ConfTable where
  /-- `g_sgroup` -/
  | sgroup
  /-- `servers` of a group -/
  | servers
  /-- `rate`, `id` and `nid` of `g_rate` -/
  | rate
  /-- `g_rg` -/
  | rg
deriving DecidableEq, Repr

def ConfTable.size : ConfTable → Nat
  | .sgroup => maxGroupNum
  | .servers => groupMaxServerNum
  | .rate => maxGroupNum
  | .rg => maxRefererId

structure TableUse where
  table : ConfTable
  index : Int
deriving DecidableEq, Repr

def TableUse.Inside (u : TableUse) : Prop := 0 ≤ u.index ∧ u.index < u.table.size

/-- `g_sg_num`, `g_sgroup`, `g_rate` and `g_rg`, and the indices used. A table has
no end here, so what is written outside of one is found in no other; in the code it
lands in what lies behind, and only the uses that are `Inside` are the code's. -/
structure ServerConf where
  sgNum : Int
  sgroup : Nat → ServerGroup
  rate : GroupRate
  rg : Nat → RefererGroup
  uses : List TableUse

def ServerConf.use (c : ServerConf) (table : ConfTable) (index : Int) : ServerConf :=
  { c with uses := c.uses ++ [⟨table, index⟩] }

def ServerGroup.zero : ServerGroup := ⟨fun _ => ⟨[], 0⟩, 0, 0⟩

def GroupRate.zero : GroupRate := ⟨fun _ => 0, fun _ => 0, 0, fun _ => 0, 0⟩

/-- The memory when the program starts. -/
def ServerConf.zero : ServerConf :=
  ⟨0, fun _ => .zero, .zero, fun _ => ⟨[], 0⟩, []⟩

/-- `server_conf_init`; of `g_sgroup` only the first group is cleared. -/
def serverConfInit (c : ServerConf) : ServerConf :=
  { c with
    sgNum := 0
    rate := .zero
    sgroup := Function.update c.sgroup 0 .zero
    rg := fun _ => ⟨[], 0⟩ }

/-! ## The callbacks

Each kind of file has its own callback. Apart from the counts they tell a key by
its two ends, and the number in between is the index into a table. -/

/-- `CONF_INT` and `CONF_STR` of these callbacks: the key is compared as far as it
goes. -/
def ConfigLine.isKeyPart (line : ConfigLine) (name : Bytes) : Bool :=
  strncasecmpEq line.key name (sizeOfInt line.keyLen)

def ConfigLine.startsWith (line : ConfigLine) (str : Bytes) : Bool :=
  strncmpEq line.key str str.length

/-- `is_end_with_s`, of a key that is at least as long as `str`. -/
def ConfigLine.endsWith (line : ConfigLine) (str : Bytes) : Bool :=
  strncmpEq (line.key.drop (line.keyLen - str.length).toNat) str str.length

def serverGroupNumKey : Bytes := ascii "Server_group_num"

def serverNumKey : Bytes := ascii "Server_num"

/-- The number in a key, behind `n` bytes of it. -/
def ConfigLine.index (line : ConfigLine) (n : Nat) : Int := atoiText (line.key.drop n) - 1

def ConfigLine.isGroupRate (line : ConfigLine) : Bool :=
  line.startsWith (ascii "Group_") && line.endsWith (ascii "_rate")

/-- `server_assign_conf_item` behind `CONF_INT`. -/
def serverAssignOther (c : ServerConf) (line : ConfigLine) : ServerConf :=
  if line.isGroupRate then
    let idx := line.index 6
    if c.sgNum ≤ idx ∨ idx < 0 then c
    else
      let group := { c.sgroup idx.toNat with rate := atoiText line.value }
      { c with sgroup := Function.update c.sgroup idx.toNat group }.use .sgroup idx
  else c

/-- `server_assign_conf_item`. -/
def serverAssignConfItem (c : ServerConf) (line : ConfigLine) : ServerConf :=
  if line.isKeyPart serverGroupNumKey then { c with sgNum := atoiText line.value }
  else serverAssignOther c line

/-- `msetstr` to an array of `n` bytes. -/
def msetstr (n : Nat) (s : Bytes) : Bytes := s.take (n - 1)

/-- A server of a group, with what the line says of it. -/
def serverSet (server : ObjServer) (line : ConfigLine) : Option ObjServer :=
  if line.endsWith (ascii "_host") then some { server with host := msetstr 32 line.value }
  else if line.endsWith (ascii "_port") then some { server with port := atoiText line.value }
  else none

/-- `server_group_assign_conf_item` behind `CONF_INT`; `data` is `g_sgroup + i`. -/
def serverGroupAssignOther (i : Nat) (c : ServerConf) (line : ConfigLine) : ServerConf :=
  let group := c.sgroup i
  if group.srvNum < 1 then c
  else if line.startsWith (ascii "Srv_") then
    let idx := line.index 4
    if group.srvNum ≤ idx ∨ idx < 0 then c
    else
      match serverSet (group.servers idx.toNat) line with
      | none => c
      | some server =>
          let servers := Function.update group.servers idx.toNat server
          { c with sgroup := Function.update c.sgroup i { group with servers } }.use
            .servers idx
  else c

/-- `server_group_assign_conf_item`. -/
def serverGroupAssignConfItem (i : Nat) (c : ServerConf) (line : ConfigLine) : ServerConf :=
  if line.isKeyPart serverNumKey then
    let group := { c.sgroup i with srvNum := atoiText line.value }
    { c with sgroup := Function.update c.sgroup i group }
  else serverGroupAssignOther i c line

/-- A referer, with what the line says of it. -/
def refererSet (referer : RefererGroup) (line : ConfigLine) : Option RefererGroup :=
  if line.endsWith (ascii "_name") then
    some { referer with refererName := msetstr 32 line.value }
  else if line.endsWith (ascii "_group") then
    some { referer with groupId := atoiText line.value }
  else none

/-- `server_referer_group_assign_conf_item`. -/
def serverRefererGroupAssignConfItem (c : ServerConf) (line : ConfigLine) : ServerConf :=
  if line.startsWith (ascii "Ref_") then
    let rId := line.index 4
    if maxRefererId ≤ rId ∨ rId < 0 then c
    else
      match refererSet (c.rg rId.toNat) line with
      | none => c
      | some referer =>
          { c with rg := Function.update c.rg rId.toNat referer }.use .rg rId
  else c

/-! ## Loading

First `server.conf`, then the shares, then a file for each group, then the
referers. What the callbacks use is compared with the counts, and the counts are
cut down behind each file. -/

/-- A file, and what lies in front of the buffer while it is read. -/
structure ConfFile where
  file : Option Bytes
  stray : Nat → Bytes

/-- The files `server_conf_load` opens. -/
structure ServerFiles where
  server : ConfFile
  group : Nat → ConfFile
  referer : ConfFile

/-- A round of the loop over the shares: `rate` is the sum so far. -/
def rateStep (c : ServerConf) (rate : Int) (i : Nat) : ServerConf × Int :=
  let c := c.use .sgroup i
  if 0 < (c.sgroup i).rate then
    let n := c.rate.rateNum
    let rate := Int.bmod (rate + (c.sgroup i).rate) (2 ^ 32)
    let c := c.use .rate n
    ({ c with
       rate := { c.rate with
         rate := Function.update c.rate.rate n rate
         id := Function.update c.rate.id n (i + 1)
         rateNum := n + 1 } }, rate)
  else
    let n := c.rate.nrateNum
    let c := c.use .rate n
    ({ c with
       rate := { c.rate with
         nid := Function.update c.rate.nid n (i + 1)
         nrateNum := n + 1 } }, rate)

/-- The first `n` rounds. -/
def rateLoop (c : ServerConf) : Nat → ServerConf × Int
  | 0 => (c, 0)
  | n + 1 =>
      let (c, rate) := rateLoop c n
      rateStep c rate n

def ServerConf.setSrvNum (c : ServerConf) (i : Nat) (n : Int) : ServerConf :=
  { c with sgroup := Function.update c.sgroup i { c.sgroup i with srvNum := n } }

def ServerConf.capServers (c : ServerConf) (i : Nat) : ServerConf :=
  if groupMaxServerNum < (c.sgroup i).srvNum then c.setSrvNum i groupMaxServerNum else c

/-- A round of the loop over the group files. -/
def loadGroup (files : ServerFiles) (c : ServerConf) (i : Nat) : ServerConf :=
  let c := c.use .sgroup i
  match asyncLoadConf (serverGroupAssignConfItem i) (files.group i).stray (files.group i).file
      c with
  | none => c.setSrvNum i 0
  | some c => c.capServers i

def loadGroups (files : ServerFiles) (c : ServerConf) : Nat → ServerConf
  | 0 => c
  | n + 1 => loadGroup files (loadGroups files c n) n

def ServerConf.capGroups (c : ServerConf) : ServerConf :=
  if maxGroupNum < c.sgNum then { c with sgNum := maxGroupNum } else c

/-- `server_conf_load`: what it returns, and what it leaves behind. -/
def serverConfLoad (files : ServerFiles) (c : ServerConf) : Int × ServerConf :=
  let c := serverConfInit c
  match asyncLoadConf serverAssignConfItem files.server.stray files.server.file c with
  | none => (-1, c)
  | some c =>
      let c := c.capGroups
      let c := (rateLoop c c.sgNum.toNat).1
      let c := loadGroups files c c.sgNum.toNat
      match asyncLoadConf serverRefererGroupAssignConfItem files.referer.stray
          files.referer.file c with
      | none => (0, c)
      | some c => (0, c)

/-! ## What the callbacks leave alone

The callbacks write to different tables, so each fact about a table is about one
of them. -/

theorem serverAssignOther_sgNum (c : ServerConf) (line : ConfigLine) :
    (serverAssignOther c line).sgNum = c.sgNum := by
  rw [serverAssignOther]
  split
  · simp only
    split <;> rfl
  · rfl

theorem serverAssignOther_srvNum (c : ServerConf) (line : ConfigLine) (g : Nat) :
    ((serverAssignOther c line).sgroup g).srvNum = (c.sgroup g).srvNum := by
  rw [serverAssignOther]
  split
  · simp only
    split
    · rfl
    · show (Function.update c.sgroup (line.index 6).toNat
        { c.sgroup (line.index 6).toNat with rate := atoiText line.value } g).srvNum = _
      by_cases hg : g = (line.index 6).toNat
      · rw [hg, Function.update_self]
      · rw [Function.update_of_ne hg]
  · rfl

theorem serverAssignOther_rate (c : ServerConf) (line : ConfigLine) :
    (serverAssignOther c line).rate = c.rate := by
  rw [serverAssignOther]
  split
  · simp only
    split <;> rfl
  · rfl

theorem serverGroupAssignOther_srvNum (i : Nat) (c : ServerConf) (line : ConfigLine) (g : Nat) :
    ((serverGroupAssignOther i c line).sgroup g).srvNum = (c.sgroup g).srvNum := by
  have hset : ∀ servers, (Function.update c.sgroup i
      { c.sgroup i with servers := servers } g).srvNum = (c.sgroup g).srvNum := by
    intro servers
    by_cases hg : g = i
    · subst hg
      rw [Function.update_self]
    · rw [Function.update_of_ne hg]
  simp only [serverGroupAssignOther]
  split
  · rfl
  · split
    · split
      · rfl
      · split
        · rfl
        · exact hset _
    · rfl

theorem serverGroupAssignOther_sgNum (i : Nat) (c : ServerConf) (line : ConfigLine) :
    (serverGroupAssignOther i c line).sgNum = c.sgNum := by
  simp only [serverGroupAssignOther]
  split
  · rfl
  · split
    · split
      · rfl
      · split <;> rfl
    · rfl

theorem loadGroup_none {files : ServerFiles} {i : Nat} (h : (files.group i).file = none)
    (c : ServerConf) : loadGroup files c i = (c.use .sgroup i).setSrvNum i 0 := by
  simp only [loadGroup, h]
  rfl

theorem loadGroup_some {files : ServerFiles} {i : Nat} {s : Bytes}
    (h : (files.group i).file = some s) (c : ServerConf) :
    loadGroup files c i =
      ((settings (files.group i).stray s).foldl (serverGroupAssignConfItem i)
        (c.use .sgroup i)).capServers i := by
  simp only [loadGroup, asyncLoadConf_eq, h, Option.map_some]

@[simp] theorem ServerConf.setSrvNum_srvNum (c : ServerConf) (i : Nat) (n : Int) (g : Nat) :
    ((c.setSrvNum i n).sgroup g).srvNum = if g = i then n else (c.sgroup g).srvNum := by
  rw [setSrvNum]
  by_cases hg : g = i
  · subst hg
    rw [if_pos rfl]
    simp only [Function.update_self]
  · rw [if_neg hg]
    simp only [Function.update_of_ne hg]

end UiServer
