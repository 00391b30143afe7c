import UiServer.Conf.Servers

/-!
# The tables while the servers are loaded

An index is used after it has been compared with the count that the file has given so
far. The count is cut down to the table when the whole file has been read, so a line
that numbers a group or a server beyond the table is let through as long as the count
is large enough. What is used is inside the tables if and only if no line does that
(`serverConfLoad_inside_iff`). The counts that are left are inside in any case, which
is what a `Conf` asks of the counts the server runs with (`serverConfLoad_counts`).
-/

namespace UiServer

open CMem

def ServerConf.AllInside (c : ServerConf) : Prop := ∀ u ∈ c.uses, u.Inside

theorem allInside_use {c : ServerConf} {table : ConfTable} {i : Int} :
    (c.use table i).AllInside ↔ c.AllInside ∧ (0 ≤ i ∧ i < table.size) := by
  simp only [ServerConf.AllInside, ServerConf.use, List.forall_mem_append,
    List.forall_mem_singleton]
  rfl

theorem allInside_congr {c c' : ServerConf} (h : c.uses = c'.uses) :
    c.AllInside ↔ c'.AllInside := by
  rw [ServerConf.AllInside, h]
  rfl

/-! ## The lines of a file

The tables are used as a line says for the count that the lines in front of it
have set. So a fold over the lines stays inside if and only if each line does for
its own count. -/

/-- The count behind a line. -/
def countStep (name : Bytes) (n : Int) (line : ConfigLine) : Int :=
  if line.isKeyPart name = true then atoiText line.value else n

/-- Each line is as it should be for the count that the lines in front of it have set. -/
def EachLine (name : Bytes) (ok : Int → ConfigLine → Prop) : Int → List ConfigLine → Prop
  | _, [] => True
  | n, line :: lines => ok n line ∧ EachLine name ok (countStep name n line) lines

/-- A line that numbers a group numbers one of the table, or none that there is. -/
def GroupLine (n : Int) (line : ConfigLine) : Prop :=
  line.isKeyPart serverGroupNumKey = false → line.isGroupRate = true →
    0 ≤ line.index 6 → line.index 6 < n → line.index 6 < maxGroupNum

/-- A line that numbers a server numbers one of the table, or none that there is. -/
def ServerLine (n : Int) (line : ConfigLine) : Prop :=
  line.isKeyPart serverNumKey = false → line.startsWith (ascii "Srv_") = true →
    (line.endsWith (ascii "_host") = true ∨ line.endsWith (ascii "_port") = true) →
    0 ≤ line.index 4 → line.index 4 < n → line.index 4 < groupMaxServerNum

/-- A fold whose steps use the tables as their lines say. -/
theorem foldl_inside {step : ServerConf → ConfigLine → ServerConf} {count : ServerConf → Int}
    {name : Bytes} {ok : Int → ConfigLine → Prop}
    (hstep : ∀ c line, (step c line).AllInside ↔ c.AllInside ∧ ok (count c) line)
    (hcount : ∀ c line, count (step c line) = countStep name (count c) line) :
    ∀ (lines : List ConfigLine) (c : ServerConf),
      (lines.foldl step c).AllInside ↔ c.AllInside ∧ EachLine name ok (count c) lines := by
  intro lines
  induction lines with
  | nil => exact fun c => ⟨fun h => ⟨h, trivial⟩, fun h => h.1⟩
  | cons line lines ih =>
      intro c
      rw [List.foldl_cons, ih, hstep, hcount, EachLine, and_assoc]

/-! ## `server.conf`

The callback of `server.conf` numbers groups. It is compared with the count that
the file has given so far, which nothing has cut down to the table yet. -/

theorem serverAssign_inside (c : ServerConf) (line : ConfigLine) :
    (serverAssignConfItem c line).AllInside ↔ c.AllInside ∧ GroupLine c.sgNum line := by
  rw [serverAssignConfItem]
  by_cases hkey : line.isKeyPart serverGroupNumKey = true
  · rw [if_pos hkey]
    exact ⟨fun h => ⟨h, fun hno => by rw [hkey] at hno; cases hno⟩, fun h => h.1⟩
  · rw [if_neg hkey, serverAssignOther]
    have hkey' : line.isKeyPart serverGroupNumKey = false := Bool.eq_false_iff.2 hkey
    by_cases hrate : line.isGroupRate = true
    · rw [if_pos hrate]
      simp only
      by_cases hout : c.sgNum ≤ line.index 6 ∨ line.index 6 < 0
      · rw [if_pos hout]
        exact ⟨fun h => ⟨h, fun _ _ hpos hlt => by omega⟩, fun h => h.1⟩
      · rw [if_neg hout, allInside_use]
        obtain ⟨hlt, hpos⟩ := not_or.1 hout
        refine and_congr Iff.rfl ⟨fun h _ _ _ _ => h.2, fun h => ⟨by omega, ?_⟩⟩
        exact h hkey' hrate (by omega) (by omega)
    · rw [if_neg hrate]
      exact ⟨fun h => ⟨h, fun _ hr => absurd hr hrate⟩, fun h => h.1⟩

theorem serverAssign_count (c : ServerConf) (line : ConfigLine) :
    (serverAssignConfItem c line).sgNum = countStep serverGroupNumKey c.sgNum line := by
  rw [serverAssignConfItem, countStep]
  split
  · rfl
  · exact serverAssignOther_sgNum c line

/-- What `server.conf` leaves alone. -/
structure ServerFrame (c c' : ServerConf) : Prop where
  srvNum : ∀ g, (c'.sgroup g).srvNum = (c.sgroup g).srvNum
  rate : c'.rate = c.rate

theorem serverAssign_frame (lines : List ConfigLine) : ∀ c : ServerConf,
    ServerFrame c (lines.foldl serverAssignConfItem c) := by
  induction lines with
  | nil => exact fun c => ⟨fun _ => rfl, rfl⟩
  | cons line lines ih =>
      intro c
      have hrest := ih (serverAssignConfItem c line)
      have hone : ServerFrame c (serverAssignConfItem c line) := by
        rw [serverAssignConfItem]
        split
        · exact ⟨fun _ => rfl, rfl⟩
        · exact ⟨serverAssignOther_srvNum c line, serverAssignOther_rate c line⟩
      exact ⟨fun g => (hrest.srvNum g).trans (hone.srvNum g), hrest.rate.trans hone.rate⟩

/-! ## The shares

The loop over the groups fills two lists from the front, one entry a round.
Together they have as many entries as there were rounds, and there are as many
rounds as groups. -/

/-- After `n` rounds the two counters have gone up by `n` together, and nothing else
of what counts has changed. -/
structure RateDone (c c' : ServerConf) (n : Nat) : Prop where
  count : c'.rate.rateNum + c'.rate.nrateNum = n
  sgNum : c'.sgNum = c.sgNum
  sgroup : c'.sgroup = c.sgroup
  inside : n ≤ maxGroupNum → (c'.AllInside ↔ c.AllInside)

theorem rateStep_done {c c' : ServerConf} {n : Nat} (rate : Int) (h : RateDone c c' n) :
    RateDone c (rateStep c' rate n).1 (n + 1) := by
  have hcount := h.count
  have hinside : ∀ k : Nat, k ≤ n → n + 1 ≤ maxGroupNum →
      (((c'.use .sgroup n).use .rate k).AllInside ↔ c.AllInside) := by
    intro k hk hn
    rw [allInside_use, allInside_use, h.inside (by omega)]
    refine ⟨fun hall => hall.1.1, fun hall => ⟨⟨hall, ?_⟩, ?_⟩⟩
    · show 0 ≤ (n : Int) ∧ (n : Int) < (maxGroupNum : Nat)
      omega
    · show 0 ≤ (k : Int) ∧ (k : Int) < (maxGroupNum : Nat)
      omega
  simp only [rateStep]
  split
  · exact ⟨by show c'.rate.rateNum + 1 + c'.rate.nrateNum = n + 1; omega, h.sgNum, h.sgroup,
      hinside c'.rate.rateNum (by omega)⟩
  · exact ⟨by show c'.rate.rateNum + (c'.rate.nrateNum + 1) = n + 1; omega, h.sgNum, h.sgroup,
      hinside c'.rate.nrateNum (by omega)⟩

theorem rateLoop_done {c : ServerConf} (h : c.rate = .zero) : ∀ n,
    RateDone c (rateLoop c n).1 n := by
  intro n
  induction n with
  | zero => exact ⟨by rw [rateLoop, h]; rfl, rfl, rfl, fun _ => Iff.rfl⟩
  | succ n ih => exact rateStep_done _ ih

/-! ## The files of the groups

Each group has a file of its own, with its own count of servers. A file changes
the counts of its group and of no other, so the conditions of the files do not
meet. -/

theorem groupAssign_inside (i : Nat) (c : ServerConf) (line : ConfigLine) :
    (serverGroupAssignConfItem i c line).AllInside ↔
      c.AllInside ∧ ServerLine (c.sgroup i).srvNum line := by
  rw [serverGroupAssignConfItem]
  by_cases hkey : line.isKeyPart serverNumKey = true
  · rw [if_pos hkey]
    exact ⟨fun h => ⟨h, fun hno => by rw [hkey] at hno; cases hno⟩, fun h => h.1⟩
  · have hkey' : line.isKeyPart serverNumKey = false := Bool.eq_false_iff.2 hkey
    rw [if_neg hkey]
    simp only [serverGroupAssignOther]
    by_cases hfew : (c.sgroup i).srvNum < 1
    · rw [if_pos hfew]
      exact ⟨fun h => ⟨h, fun _ _ _ hpos hlt => by omega⟩, fun h => h.1⟩
    · rw [if_neg hfew]
      by_cases hstart : line.startsWith (ascii "Srv_") = true
      · rw [if_pos hstart]
        by_cases hout : (c.sgroup i).srvNum ≤ line.index 4 ∨ line.index 4 < 0
        · rw [if_pos hout]
          exact ⟨fun h => ⟨h, fun _ _ _ hpos hlt => by omega⟩, fun h => h.1⟩
        · rw [if_neg hout]
          obtain ⟨hlt, hpos⟩ := not_or.1 hout
          cases hset : serverSet ((c.sgroup i).servers (line.index 4).toNat) line with
          | none =>
              refine ⟨fun h => ⟨h, fun _ _ hend => ?_⟩, fun h => h.1⟩
              rw [serverSet] at hset
              split at hset
              · cases hset
              · split at hset
                · cases hset
                · next hhost hport => exact absurd hend (not_or.2 ⟨hhost, hport⟩)
          | some server =>
              have hend : line.endsWith (ascii "_host") = true ∨
                  line.endsWith (ascii "_port") = true := by
                rw [serverSet] at hset
                split at hset
                · next hhost => exact Or.inl hhost
                · split at hset
                  · next hport => exact Or.inr hport
                  · cases hset
              rw [allInside_use]
              refine and_congr Iff.rfl ⟨fun h _ _ _ _ _ => h.2, fun h => ⟨by omega, ?_⟩⟩
              exact h hkey' hstart hend (by omega) (by omega)
      · rw [if_neg hstart]
        exact ⟨fun h => ⟨h, fun _ hs => absurd hs hstart⟩, fun h => h.1⟩

/-- What a line of the file of group `i` does to the counts. -/
theorem groupAssign_srvNum (i : Nat) (c : ServerConf) (line : ConfigLine) (g : Nat) :
    ((serverGroupAssignConfItem i c line).sgroup g).srvNum =
      if g = i then countStep serverNumKey (c.sgroup i).srvNum line
      else (c.sgroup g).srvNum := by
  rw [serverGroupAssignConfItem, countStep]
  by_cases hkey : line.isKeyPart serverNumKey = true
  · rw [if_pos hkey, if_pos hkey]
    exact c.setSrvNum_srvNum i _ g
  · rw [if_neg hkey, if_neg hkey, serverGroupAssignOther_srvNum]
    split
    · next hg => rw [hg]
    · rfl

theorem groupAssign_sgNum (i : Nat) (c : ServerConf) (line : ConfigLine) :
    (serverGroupAssignConfItem i c line).sgNum = c.sgNum := by
  rw [serverGroupAssignConfItem]
  split
  · rfl
  · exact serverGroupAssignOther_sgNum i c line

theorem foldl_groupAssign (i : Nat) (lines : List ConfigLine) : ∀ c : ServerConf,
    (lines.foldl (serverGroupAssignConfItem i) c).sgNum = c.sgNum ∧
      ∀ g, g ≠ i → ((lines.foldl (serverGroupAssignConfItem i) c).sgroup g).srvNum =
        (c.sgroup g).srvNum := by
  induction lines with
  | nil => exact fun c => ⟨rfl, fun _ _ => rfl⟩
  | cons line lines ih =>
      intro c
      obtain ⟨hnum, hother⟩ := ih (serverGroupAssignConfItem i c line)
      refine ⟨hnum.trans (groupAssign_sgNum i c line), fun g hg => ?_⟩
      rw [List.foldl_cons, hother g hg, groupAssign_srvNum, if_neg hg]

/-- The lines of a group file, if there is one, number the servers of the table. -/
def GroupFile (f : ConfFile) : Prop :=
  ∀ s, f.file = some s → EachLine serverNumKey ServerLine 0 (settings f.stray s)

/-- A round of the loop over the group files. -/
theorem loadGroup_inside (files : ServerFiles) {c : ServerConf} {i : Nat} (hi : i < maxGroupNum)
    (hzero : (c.sgroup i).srvNum = 0) :
    (loadGroup files c i).AllInside ↔ c.AllInside ∧ GroupFile (files.group i) := by
  have huse : (c.use .sgroup i).AllInside ↔ c.AllInside := by
    rw [allInside_use]
    refine ⟨fun h => h.1, fun h => ⟨h, ?_⟩⟩
    show 0 ≤ (i : Int) ∧ (i : Int) < (maxGroupNum : Nat)
    omega
  have hset : ∀ (c : ServerConf) n, (c.setSrvNum i n).AllInside ↔ c.AllInside :=
    fun c n => allInside_congr rfl
  cases hfile : (files.group i).file with
  | none =>
      rw [loadGroup_none hfile]
      refine (hset _ 0).trans (huse.trans ⟨fun h => ⟨h, fun s hs => ?_⟩, fun h => h.1⟩)
      rw [hfile] at hs
      cases hs
  | some s =>
      have hcount : ∀ c line, ((serverGroupAssignConfItem i c line).sgroup i).srvNum =
          countStep serverNumKey (c.sgroup i).srvNum line :=
        fun c line => by rw [groupAssign_srvNum, if_pos rfl]
      have hfold := @foldl_inside _ (fun c => (c.sgroup i).srvNum) _ _ (groupAssign_inside i) hcount
        (settings (files.group i).stray s) (c.use .sgroup i)
      have hfile' : GroupFile (files.group i) ↔
          EachLine serverNumKey ServerLine 0 (settings (files.group i).stray s) := by
        refine ⟨fun h => h s hfile, fun h t ht => ?_⟩
        rw [hfile] at ht
        cases ht
        exact h
      have hcount : ((c.use .sgroup i).sgroup i).srvNum = 0 := hzero
      rw [huse, hcount, ← hfile'] at hfold
      rw [loadGroup_some hfile, ServerConf.capServers]
      split
      · exact (hset _ _).trans hfold
      · exact hfold

theorem loadGroup_counts (files : ServerFiles) (c : ServerConf) (i : Nat) :
    (loadGroup files c i).sgNum = c.sgNum ∧
      ((loadGroup files c i).sgroup i).srvNum ≤ groupMaxServerNum ∧
      ∀ g, g ≠ i → ((loadGroup files c i).sgroup g).srvNum = (c.sgroup g).srvNum := by
  have hset : ∀ (c : ServerConf) (n : Int), n ≤ groupMaxServerNum →
      (c.setSrvNum i n).sgNum = c.sgNum ∧
        ((c.setSrvNum i n).sgroup i).srvNum ≤ groupMaxServerNum ∧
        ∀ g, g ≠ i → ((c.setSrvNum i n).sgroup g).srvNum = (c.sgroup g).srvNum :=
    fun c n hn => ⟨rfl, by rw [ServerConf.setSrvNum_srvNum, if_pos rfl]; exact hn,
      fun g hg => by rw [ServerConf.setSrvNum_srvNum, if_neg hg]⟩
  cases hfile : (files.group i).file with
  | none =>
      rw [loadGroup_none hfile]
      exact hset (c.use .sgroup i) 0 (by decide)
  | some s =>
      obtain ⟨hnum, hother⟩ := foldl_groupAssign i (settings (files.group i).stray s)
        (c.use .sgroup i)
      rw [loadGroup_some hfile, ServerConf.capServers]
      split
      · obtain ⟨hnum', hle, hother'⟩ := hset ((settings (files.group i).stray s).foldl
          (serverGroupAssignConfItem i) (c.use .sgroup i)) groupMaxServerNum (Int.le_refl _)
        exact ⟨hnum'.trans hnum, hle, fun g hg => (hother' g hg).trans (hother g hg)⟩
      · next hle => exact ⟨hnum, Int.not_lt.1 hle, hother⟩

/-- The first `n` group files. -/
theorem loadGroups_spec (files : ServerFiles) {c : ServerConf}
    (hzero : ∀ g, (c.sgroup g).srvNum = 0) : ∀ n, n ≤ maxGroupNum →
    ((loadGroups files c n).AllInside ↔
        c.AllInside ∧ ∀ i < n, GroupFile (files.group i)) ∧
      (loadGroups files c n).sgNum = c.sgNum ∧
      (∀ g, ((loadGroups files c n).sgroup g).srvNum ≤ groupMaxServerNum) ∧
      ∀ g, n ≤ g → ((loadGroups files c n).sgroup g).srvNum = 0 := by
  intro n
  induction n with
  | zero =>
      intro _
      refine ⟨⟨fun h => ⟨h, nofun⟩, fun h => h.1⟩, rfl, fun g => ?_, fun g _ => hzero g⟩
      show (c.sgroup g).srvNum ≤ _
      rw [hzero g]
      decide
  | succ n ih =>
      intro hn
      obtain ⟨hinside, hnum, hle, hrest⟩ := ih (by omega)
      obtain ⟨hnum', hle', hother⟩ := loadGroup_counts files (loadGroups files c n) n
      have hstep := loadGroup_inside files (c := loadGroups files c n) (i := n) (by omega)
        (hrest n (Nat.le_refl n))
      rw [loadGroups]
      refine ⟨?_, hnum'.trans hnum, fun g => ?_, fun g hg => ?_⟩
      · rw [hstep, hinside, and_assoc, Nat.forall_lt_succ_right]
      · by_cases hg : g = n
        · rw [hg]
          exact hle'
        · rw [hother g hg]
          exact hle g
      · rw [hother g (by omega)]
        exact hrest g (by omega)

/-! ## The referers

Here the index is compared with the size of the table, and there is no condition.
-/

/-- The index is compared with the size of the table itself. -/
theorem refererAssign_inside (c : ServerConf) (line : ConfigLine) :
    ((serverRefererGroupAssignConfItem c line).AllInside ↔ c.AllInside) ∧
      (serverRefererGroupAssignConfItem c line).sgNum = c.sgNum ∧
      (serverRefererGroupAssignConfItem c line).sgroup = c.sgroup := by
  rw [serverRefererGroupAssignConfItem]
  split
  · simp only
    split
    · exact ⟨Iff.rfl, rfl, rfl⟩
    · next hout =>
        obtain ⟨hlt, hpos⟩ := not_or.1 hout
        split
        · exact ⟨Iff.rfl, rfl, rfl⟩
        · refine ⟨?_, rfl, rfl⟩
          rw [allInside_use]
          refine ⟨fun h => h.1, fun h => ⟨h, Int.not_lt.1 hpos, ?_⟩⟩
          exact Int.not_le.1 hlt
  · exact ⟨Iff.rfl, rfl, rfl⟩

theorem foldl_refererAssign (lines : List ConfigLine) : ∀ c : ServerConf,
    ((lines.foldl serverRefererGroupAssignConfItem c).AllInside ↔ c.AllInside) ∧
      (lines.foldl serverRefererGroupAssignConfItem c).sgNum = c.sgNum ∧
      (lines.foldl serverRefererGroupAssignConfItem c).sgroup = c.sgroup := by
  induction lines with
  | nil => exact fun c => ⟨Iff.rfl, rfl, rfl⟩
  | cons line lines ih =>
      intro c
      obtain ⟨hin, hnum, hgroup⟩ := ih (serverRefererGroupAssignConfItem c line)
      obtain ⟨hin', hnum', hgroup'⟩ := refererAssign_inside c line
      exact ⟨hin.trans hin', hnum.trans hnum', hgroup.trans hgroup'⟩

/-! ## The load

The parts are put together in the order of the load. What is used is inside if
each part was, and the counts are inside because they are cut down behind each
file. -/

/-- The counts that are left are inside the tables. -/
structure CountsInside (c : ServerConf) : Prop where
  sgNum : c.sgNum ≤ maxGroupNum
  srvNum : ∀ g, (c.sgroup g).srvNum ≤ groupMaxServerNum

/-- No line numbers a group or a server that is beyond its table and not beyond the
count that stands in front of it. -/
def NumbersInside (files : ServerFiles) : Prop :=
  ∀ s, files.server.file = some s →
    EachLine serverGroupNumKey GroupLine 0 (settings files.server.stray s) ∧
      ∀ i : Nat, (i : Int) < maxGroupNum →
        i < (settings files.server.stray s).foldl (countStep serverGroupNumKey) 0 →
        GroupFile (files.group i)

theorem foldl_sgNum (lines : List ConfigLine) : ∀ c : ServerConf,
    (lines.foldl serverAssignConfItem c).sgNum =
      lines.foldl (countStep serverGroupNumKey) c.sgNum := by
  induction lines with
  | nil => exact fun c => rfl
  | cons line lines ih =>
      intro c
      rw [List.foldl_cons, List.foldl_cons, ih, serverAssign_count]

theorem capGroups_le (c : ServerConf) : c.capGroups.sgNum ≤ maxGroupNum := by
  rw [ServerConf.capGroups]
  split
  · exact Int.le_refl _
  · next h => exact Int.not_lt.1 h

theorem lt_capGroups (c : ServerConf) (i : Nat) :
    i < c.capGroups.sgNum.toNat ↔ (i : Int) < maxGroupNum ∧ i < c.sgNum := by
  rw [ServerConf.capGroups]
  split
  · next h =>
      show i < ((maxGroupNum : Nat) : Int).toNat ↔ _
      omega
  · next h => omega

theorem capGroups_frame (c : ServerConf) :
    c.capGroups.sgroup = c.sgroup ∧ c.capGroups.rate = c.rate ∧ c.capGroups.uses = c.uses := by
  rw [ServerConf.capGroups]
  split <;> exact ⟨rfl, rfl, rfl⟩

theorem serverConfInit_srvNum (g : Nat) :
    ((serverConfInit .zero).sgroup g).srvNum = 0 := by
  have hzero : (serverConfInit .zero).sgroup g = ServerGroup.zero := by
    show Function.update (fun _ : Nat => ServerGroup.zero) 0 ServerGroup.zero g = _
    by_cases hg : g = 0
    · rw [hg, Function.update_self]
    · rw [Function.update_of_ne hg]
  rw [hzero]
  rfl

/-- What is left when `server.conf` and the group files have been read. -/
theorem loadGroups_load (files : ServerFiles) (lines : List ConfigLine) {c : ServerConf}
    (hc : c = (lines.foldl serverAssignConfItem (serverConfInit .zero)).capGroups) :
    ((loadGroups files (rateLoop c c.sgNum.toNat).1 c.sgNum.toNat).AllInside ↔
        EachLine serverGroupNumKey GroupLine 0 lines ∧
          ∀ i : Nat, (i : Int) < maxGroupNum →
            i < lines.foldl (countStep serverGroupNumKey) 0 → GroupFile (files.group i)) ∧
      CountsInside (loadGroups files (rateLoop c c.sgNum.toNat).1 c.sgNum.toNat) := by
  have hframe := serverAssign_frame lines (serverConfInit .zero)
  have hinside := foldl_inside serverAssign_inside serverAssign_count lines
    (serverConfInit .zero)
  have hcount := foldl_sgNum lines (serverConfInit .zero)
  obtain ⟨hgroup, hrate, huses⟩ :=
    capGroups_frame (lines.foldl serverAssignConfItem (serverConfInit .zero))
  rw [← hc] at hgroup hrate huses
  have hle : c.sgNum ≤ maxGroupNum := hc ▸ capGroups_le _
  have hlt := lt_capGroups (lines.foldl serverAssignConfItem (serverConfInit .zero))
  rw [← hc, hcount] at hlt
  have hbound : c.sgNum.toNat ≤ maxGroupNum := by omega
  have hdone := rateLoop_done (c := c) (hrate.trans hframe.rate) c.sgNum.toNat
  have hzero : ∀ g, ((rateLoop c c.sgNum.toNat).1.sgroup g).srvNum = 0 := by
    intro g
    rw [hdone.sgroup, hgroup, hframe.srvNum, serverConfInit_srvNum]
  obtain ⟨hall, hnum, hsrv, -⟩ := loadGroups_spec files hzero c.sgNum.toNat hbound
  have hstart : (serverConfInit .zero).AllInside := nofun
  refine ⟨?_, ⟨?_, hsrv⟩⟩
  · rw [hall, hdone.inside hbound, allInside_congr huses, hinside]
    simp only [hlt, and_imp]
    exact and_congr (and_iff_right hstart) Iff.rfl
  · rw [hnum, hdone.sgNum]
    exact hle

theorem serverConfLoad_none {files : ServerFiles} (h : files.server.file = none) :
    serverConfLoad files .zero = (-1, serverConfInit .zero) := by
  simp only [serverConfLoad, h]
  rfl

/-- A load that gets to the end leaves what the group files have left, the referers
apart. -/
theorem serverConfLoad_some {files : ServerFiles} {s : Bytes} {c : ServerConf}
    (h : files.server.file = some s)
    (hc : c = ((settings files.server.stray s).foldl serverAssignConfItem
      (serverConfInit .zero)).capGroups) :
    ((serverConfLoad files .zero).2.AllInside ↔
        (loadGroups files (rateLoop c c.sgNum.toNat).1 c.sgNum.toNat).AllInside) ∧
      (CountsInside (loadGroups files (rateLoop c c.sgNum.toNat).1 c.sgNum.toNat) →
        CountsInside (serverConfLoad files .zero).2) := by
  have hnum : (rateLoop c c.sgNum.toNat).1.sgNum = c.sgNum := by
    have hframe := serverAssign_frame (settings files.server.stray s) (serverConfInit .zero)
    have hrate := (capGroups_frame ((settings files.server.stray s).foldl
      serverAssignConfItem (serverConfInit .zero))).2.1
    rw [← hc] at hrate
    exact (rateLoop_done (hrate.trans hframe.rate) c.sgNum.toNat).sgNum
  simp only [serverConfLoad, asyncLoadConf_eq, h, Option.map_some, ← hc, hnum]
  cases files.referer.file with
  | none => exact ⟨Iff.rfl, id⟩
  | some t =>
      obtain ⟨hin, hsg, hgroup⟩ := foldl_refererAssign (settings files.referer.stray t)
        (loadGroups files (rateLoop c c.sgNum.toNat).1 c.sgNum.toNat)
      refine ⟨hin, fun hcounts => ⟨hsg.trans_le hcounts.sgNum, fun g => ?_⟩⟩
      have hsrv := congrArg ServerGroup.srvNum (congrFun hgroup g)
      exact hsrv.trans_le (hcounts.srvNum g)

/-- The counts are inside whatever the files hold. -/
theorem serverConfLoad_counts (files : ServerFiles) :
    CountsInside (serverConfLoad files .zero).2 := by
  cases hfile : files.server.file with
  | none =>
      rw [serverConfLoad_none hfile]
      refine ⟨by decide, fun g => ?_⟩
      show ((serverConfInit .zero).sgroup g).srvNum ≤ _
      rw [serverConfInit_srvNum]
      decide
  | some s =>
      exact (serverConfLoad_some hfile rfl).2 (loadGroups_load files _ rfl).2

theorem allInside_iff_numbersInside (files : ServerFiles) :
    (serverConfLoad files .zero).2.AllInside ↔ NumbersInside files := by
  cases hfile : files.server.file with
  | none =>
      have hstart : (serverConfInit .zero).AllInside := nofun
      rw [serverConfLoad_none hfile]
      refine ⟨fun _ s hs => ?_, fun _ => hstart⟩
      rw [hfile] at hs
      cases hs
  | some s =>
      rw [(serverConfLoad_some hfile rfl).1, (loadGroups_load files _ rfl).1]
      refine ⟨fun h t ht => ?_, fun h => h s hfile⟩
      rw [hfile] at ht
      cases ht
      exact h

/-- For every content of the files, also when some are missing. -/
theorem serverConfLoad_inside_iff (files : ServerFiles) :
    ((serverConfLoad files .zero).2.AllInside ∧ CountsInside (serverConfLoad files .zero).2) ↔
      NumbersInside files := by
  rw [and_iff_left (serverConfLoad_counts files)]
  exact allInside_iff_numbersInside files

/-- A hundred groups, and the share of the fiftieth. -/
theorem serverConfLoad_inside_fails :
    ¬ ((serverConfLoad
          ⟨⟨some (ascii "Server_group_num: 100\nGroup_50_rate: 5\n"), fun _ => []⟩,
            fun _ => ⟨none, fun _ => []⟩, ⟨none, fun _ => []⟩⟩ .zero).2.AllInside ∧
        CountsInside (serverConfLoad
          ⟨⟨some (ascii "Server_group_num: 100\nGroup_50_rate: 5\n"), fun _ => []⟩,
            fun _ => ⟨none, fun _ => []⟩, ⟨none, fun _ => []⟩⟩ .zero).2) := by
  intro h
  have hmem : (⟨.sgroup, 49⟩ : TableUse) ∈ (serverConfLoad
      ⟨⟨some (ascii "Server_group_num: 100\nGroup_50_rate: 5\n"), fun _ => []⟩,
        fun _ => ⟨none, fun _ => []⟩, ⟨none, fun _ => []⟩⟩ .zero).2.uses := by
    decide +kernel
  exact absurd (h.1 _ hmem).2 (by decide)

end UiServer
