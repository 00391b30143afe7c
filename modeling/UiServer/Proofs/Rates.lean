import Mathlib.Algebra.BigOperators.Group.List.Basic
import Mathlib.Algebra.Order.BigOperators.Group.List
import Mathlib.Algebra.Ring.Int.Defs
import Mathlib.Data.List.Induction
import UiServer.Lib.Settled
import UiServer.Proofs.ServerTables

/-!
# The table of the shares

`server_conf_load` goes once over the groups and puts each into one of two lists:
those that have a share of the requests, with the sum of the shares so far, and those
that have none. The files that are read behind it give the groups their servers and
leave the shares alone, so the table fits the groups the server runs with
(`serverConfLoad_rates`).
-/

namespace UiServer

open CMem

theorem map_range_update {α : Type} (f : Nat → α) (n : Nat) (x : α) :
    (List.range (n + 1)).map (Function.update f n x) = (List.range n).map f ++ [x] := by
  rw [List.range_succ, List.map_append, List.map_singleton, Function.update_self]
  congr 1
  refine List.map_congr_left fun k hk => Function.update_of_ne ?_ x f
  exact Nat.ne_of_lt (List.mem_range.1 hk)

/-! ## The shares

Before the round at group `n` the two lists are what the first `n` groups make of
them, and what is carried along is their sum as an `int` holds it. A round adds
the group to one of the lists, which is how the lists of `n + 1` groups come from
those of `n`. -/

def ServerConf.share (c : ServerConf) (g : Nat) : Int := (c.sgroup g).rate

/-- The groups below `n` that have a share, and those that have none. -/
def ServerConf.sharing (c : ServerConf) (n : Nat) : List Nat :=
  (List.range n).filter fun g => 0 < c.share g

def ServerConf.notSharing (c : ServerConf) (n : Nat) : List Nat :=
  (List.range n).filter fun g => ¬ 0 < c.share g

/-- The sums of a list's beginnings, as an `int` holds them. -/
def runningSums (l : List Int) : List Int :=
  (List.range l.length).map fun k => Int.bmod (l.take (k + 1)).sum (2 ^ 32)

theorem runningSums_append (l : List Int) (x : Int) :
    runningSums (l ++ [x]) = runningSums l ++ [Int.bmod (l.sum + x) (2 ^ 32)] := by
  rw [runningSums, List.length_append, List.length_singleton, List.range_succ,
    List.map_append, List.map_singleton]
  congr 1
  · refine List.map_congr_left fun k hk => ?_
    rw [List.take_append_of_le_length (List.mem_range.1 hk)]
  · rw [List.take_of_length_le (by simp), List.sum_append, List.sum_singleton]

/-- The table of the first `n` groups. -/
structure RateTable (c : ServerConf) (n : Nat) : Prop where
  id : (List.range c.rate.rateNum).map c.rate.id =
    (c.sharing n).map fun g : Nat => (g : Int) + 1
  rate : (List.range c.rate.rateNum).map c.rate.rate =
    runningSums ((c.sharing n).map c.share)
  nid : (List.range c.rate.nrateNum).map c.rate.nid =
    (c.notSharing n).map fun g : Nat => (g : Int) + 1

theorem rateStep_sgroup (c : ServerConf) (rate : Int) (i : Nat) :
    (rateStep c rate i).1.sgroup = c.sgroup := by
  simp only [rateStep]
  split <;> rfl

theorem rateLoop_sgroup (c : ServerConf) : ∀ n, (rateLoop c n).1.sgroup = c.sgroup := by
  intro n
  induction n with
  | zero => rfl
  | succ n ih => rw [rateLoop, rateStep_sgroup, ih]

theorem sharing_succ (c : ServerConf) (n : Nat) :
    c.sharing (n + 1) = c.sharing n ++ if 0 < c.share n then [n] else [] := by
  rw [ServerConf.sharing, List.range_succ, List.filter_append, List.filter_singleton]
  simp [ServerConf.sharing]

theorem notSharing_succ (c : ServerConf) (n : Nat) :
    c.notSharing (n + 1) = c.notSharing n ++ if 0 < c.share n then [] else [n] := by
  rw [ServerConf.notSharing, List.range_succ, List.filter_append, List.filter_singleton]
  by_cases h : 0 < c.share n <;> simp [ServerConf.notSharing, h]

/-- A round of the loop. What is carried from round to round is the sum so far. -/
theorem rateStep_table {c : ServerConf} {rate : Int} {n : Nat} (h : RateTable c n)
    (hrate : rate = Int.bmod ((c.sharing n).map c.share).sum (2 ^ 32)) :
    RateTable (rateStep c rate n).1 (n + 1) ∧
      (rateStep c rate n).2 = Int.bmod ((c.sharing (n + 1)).map c.share).sum (2 ^ 32) := by
  have hshare : ((c.use .sgroup n).sgroup n).rate = c.share n := rfl
  have hsum : Int.bmod (rate + c.share n) (2 ^ 32) =
      Int.bmod (((c.sharing n).map c.share).sum + c.share n) (2 ^ 32) := by
    rw [hrate, Int.bmod_add_bmod]
  by_cases hpos : 0 < c.share n
  · have hin : c.sharing (n + 1) = c.sharing n ++ [n] := by rw [sharing_succ, if_pos hpos]
    have hout : c.notSharing (n + 1) = c.notSharing n := by
      rw [notSharing_succ, if_pos hpos, List.append_nil]
    rw [rateStep]
    simp only [hshare, if_pos hpos]
    refine ⟨⟨?_, ?_, ?_⟩, ?_⟩
    · show (List.range (c.rate.rateNum + 1)).map (Function.update c.rate.id c.rate.rateNum _) =
        (c.sharing (n + 1)).map _
      rw [map_range_update, h.id, hin, List.map_append, List.map_singleton]
    · show (List.range (c.rate.rateNum + 1)).map (Function.update c.rate.rate c.rate.rateNum _) =
        runningSums ((c.sharing (n + 1)).map c.share)
      rw [map_range_update, h.rate, hin, List.map_append, List.map_singleton,
        runningSums_append, hsum]
    · show (List.range c.rate.nrateNum).map c.rate.nid = (c.notSharing (n + 1)).map _
      rw [h.nid, hout]
    · rw [hsum, hin, List.map_append, List.map_singleton, List.sum_append, List.sum_singleton]
  · have hin : c.sharing (n + 1) = c.sharing n := by
      rw [sharing_succ, if_neg hpos, List.append_nil]
    have hout : c.notSharing (n + 1) = c.notSharing n ++ [n] := by
      rw [notSharing_succ, if_neg hpos]
    rw [rateStep]
    simp only [hshare, if_neg hpos]
    refine ⟨⟨?_, ?_, ?_⟩, ?_⟩
    · show (List.range c.rate.rateNum).map c.rate.id = (c.sharing (n + 1)).map _
      rw [h.id, hin]
    · show (List.range c.rate.rateNum).map c.rate.rate =
        runningSums ((c.sharing (n + 1)).map c.share)
      rw [h.rate, hin]
    · show (List.range (c.rate.nrateNum + 1)).map (Function.update c.rate.nid c.rate.nrateNum _) =
        (c.notSharing (n + 1)).map _
      rw [map_range_update, h.nid, hout, List.map_append, List.map_singleton]
    · rw [hrate, hin]

theorem sharing_congr {c c' : ServerConf} (h : ∀ g, c'.share g = c.share g) (n : Nat) :
    c'.sharing n = c.sharing n ∧ c'.notSharing n = c.notSharing n := by
  simp only [ServerConf.sharing, ServerConf.notSharing, h, and_self]

theorem rateLoop_table {c : ServerConf} (h : c.rate = .zero) : ∀ n,
    RateTable (rateLoop c n).1 n ∧
      (rateLoop c n).2 = Int.bmod ((c.sharing n).map c.share).sum (2 ^ 32) := by
  intro n
  induction n with
  | zero =>
      have hrate : (rateLoop c 0).1.rate = .zero := h
      exact ⟨⟨by rw [hrate]; rfl, by rw [hrate]; rfl, by rw [hrate]; rfl⟩, rfl⟩
  | succ n ih =>
      obtain ⟨htable, hsum⟩ := ih
      have hshare : ∀ g, (rateLoop c n).1.share g = c.share g := fun g => by
        rw [ServerConf.share, rateLoop_sgroup, ServerConf.share]
      have hshares : (rateLoop c n).1.share = c.share := funext hshare
      have hsame := fun k => (sharing_congr hshare k).1
      rw [← hsame, ← hshares] at hsum
      have hstep := rateStep_table htable hsum
      rw [hsame, hshares] at hstep
      exact hstep

/-! ## The files behind it

The callbacks of the other files write the servers of a group, the counts and the
referers. They have no business with the shares, and the table that was made is
still that of the groups that are left. -/

/-- The shares and their table are the same. -/
structure SameShares (c c' : ServerConf) : Prop where
  sgNum : c'.sgNum = c.sgNum
  rate : c'.rate = c.rate
  share : ∀ g, c'.share g = c.share g

theorem SameShares.refl (c : ServerConf) : SameShares c c := ⟨rfl, rfl, fun _ => rfl⟩

theorem SameShares.trans {c c' c'' : ServerConf} (h : SameShares c c') (h' : SameShares c' c'') :
    SameShares c c'' :=
  ⟨h'.sgNum.trans h.sgNum, h'.rate.trans h.rate, fun g => (h'.share g).trans (h.share g)⟩

theorem SameShares.table {c c' : ServerConf} {n : Nat} (h : SameShares c c')
    (htable : RateTable c n) : RateTable c' n := by
  obtain ⟨hin, hout⟩ := sharing_congr h.share n
  have hshares : c'.share = c.share := funext h.share
  exact ⟨by rw [h.rate, hin]; exact htable.id, by rw [h.rate, hin, hshares]; exact htable.rate,
    by rw [h.rate, hout]; exact htable.nid⟩

/-- A group is given other servers. -/
theorem sameShares_update (c : ServerConf) (i : Nat) {G : ServerGroup}
    (h : G.rate = (c.sgroup i).rate) :
    SameShares c { c with sgroup := Function.update c.sgroup i G } := by
  refine ⟨rfl, rfl, fun g => ?_⟩
  show (Function.update c.sgroup i G g).rate = (c.sgroup g).rate
  by_cases hg : g = i
  · rw [hg, Function.update_self, h]
  · rw [Function.update_of_ne hg]

theorem groupAssign_sameShares (i : Nat) (c : ServerConf) (line : ConfigLine) :
    SameShares c (serverGroupAssignConfItem i c line) := by
  rw [serverGroupAssignConfItem]
  split
  · exact sameShares_update c i rfl
  · simp only [serverGroupAssignOther]
    split
    · exact .refl c
    · split
      · split
        · exact .refl c
        · split
          · exact .refl c
          · next server _ =>
              exact SameShares.trans (sameShares_update c i
                (G := { c.sgroup i with
                  servers := Function.update (c.sgroup i).servers (line.index 4).toNat server })
                rfl) ⟨rfl, rfl, fun _ => rfl⟩
      · exact .refl c

theorem loadGroup_sameShares (files : ServerFiles) (c : ServerConf) (i : Nat) :
    SameShares c (loadGroup files c i) := by
  have hset : ∀ (c : ServerConf) n, SameShares c (c.setSrvNum i n) :=
    fun c n => sameShares_update c i rfl
  have huse : SameShares c (c.use .sgroup i) := ⟨rfl, rfl, fun _ => rfl⟩
  cases hfile : (files.group i).file with
  | none =>
      rw [loadGroup_none hfile]
      exact huse.trans (hset _ 0)
  | some s =>
      rw [loadGroup_some hfile, ServerConf.capServers]
      have hfold := Settled.foldl_inv (f := serverGroupAssignConfItem i) (P := fun _ => True)
        (fun {d line} (h : SameShares (c.use .sgroup i) d) _ =>
          h.trans (groupAssign_sameShares i d line))
        (l := settings (files.group i).stray s) (.refl _) (fun _ _ => trivial)
      split
      · exact huse.trans (hfold.trans (hset _ _))
      · exact huse.trans hfold

theorem loadGroups_sameShares (files : ServerFiles) (c : ServerConf) : ∀ n,
    SameShares c (loadGroups files c n) := by
  intro n
  induction n with
  | zero => exact .refl c
  | succ n ih => exact ih.trans (loadGroup_sameShares files _ n)

theorem refererAssign_sameShares (c : ServerConf) (line : ConfigLine) :
    SameShares c (serverRefererGroupAssignConfItem c line) := by
  rw [serverRefererGroupAssignConfItem]
  split
  · simp only
    split
    · exact .refl c
    · split
      · exact .refl c
      · exact ⟨rfl, rfl, fun _ => rfl⟩
  · exact .refl c

/-! ## The load

The table is that of the groups when it is made, and stays so. What a random
number is compared with are its sums, and as long as an `int` holds the last of
them they grow. -/

/-- As long as an `int` holds the sum, the sums grow up to it. -/
theorem runningSums_grow {l : List Int} : (∀ x ∈ l, 0 < x) → l.sum < 2 ^ 31 →
    (runningSums l).Pairwise (· < ·) ∧ ∀ s ∈ runningSums l, s ≤ l.sum := by
  induction l using List.reverseRecOn with
  | nil => exact fun _ _ => ⟨.nil, fun _ hs => absurd hs List.not_mem_nil⟩
  | append_singleton l x ih =>
      intro hpos hsum
      obtain ⟨hl, hx⟩ := List.forall_mem_append.1 hpos
      have hx : 0 < x := hx x (List.mem_singleton_self x)
      have hl0 : 0 ≤ l.sum := List.sum_nonneg fun y hy => Int.le_of_lt (hl y hy)
      rw [List.sum_append, List.sum_singleton] at hsum ⊢
      obtain ⟨hgrow, hle⟩ := ih hl (by omega)
      have hlast : Int.bmod (l.sum + x) (2 ^ 32) = l.sum + x :=
        Int.bmod_eq_of_le (by omega) (by omega)
      rw [runningSums_append, hlast]
      refine ⟨List.pairwise_append.2 ⟨hgrow, List.pairwise_singleton _ _, ?_⟩, ?_⟩
      · intro s hs t ht
        have hs := hle s hs
        rw [List.mem_singleton.1 ht]
        omega
      · refine List.forall_mem_append.2 ⟨fun s hs => ?_, fun s hs => ?_⟩
        · have hs := hle s hs
          omega
        · exact Int.le_of_eq (List.mem_singleton.1 hs)

theorem sharing_pos (c : ServerConf) (n : Nat) : ∀ x ∈ (c.sharing n).map c.share, 0 < x := by
  intro x hx
  obtain ⟨g, hg, rfl⟩ := List.mem_map.1 hx
  simpa using (List.mem_filter.1 hg).2

/-- What the load leaves when `server.conf` could be read. -/
theorem serverConfLoad_sameShares {files : ServerFiles} {s : Bytes} {c : ServerConf}
    (h : files.server.file = some s)
    (hc : c = ((settings files.server.stray s).foldl serverAssignConfItem
      (serverConfInit .zero)).capGroups) :
    SameShares (rateLoop c c.sgNum.toNat).1 (serverConfLoad files .zero).2 := by
  simp only [serverConfLoad, asyncLoadConf_eq, h, Option.map_some, ← hc]
  cases files.referer.file with
  | none => exact loadGroups_sameShares files _ _
  | some t =>
      refine (loadGroups_sameShares files _ (rateLoop c c.sgNum.toNat).1.sgNum.toNat).trans ?_
      exact Settled.foldl_inv (f := serverRefererGroupAssignConfItem) (P := fun _ => True)
        (fun {d line} hd _ => hd.trans (refererAssign_sameShares d line))
        (l := settings files.referer.stray t) (.refl _) (fun _ _ => trivial)

/-- Where no line numbers an entry beyond its table, nothing else is written into the
table of the shares, and what is left is the table of the groups that are left; and
where an `int` holds the sum of the shares, the sums in it grow. -/
theorem serverConfLoad_rates (files : ServerFiles) (hnumbers : NumbersInside files) :
    let c := (serverConfLoad files .zero).2
    let n := c.sgNum.toNat
    c.AllInside ∧ RateTable c n ∧ (((c.sharing n).map c.share).sum < 2 ^ 31 →
      ((List.range c.rate.rateNum).map c.rate.rate).Pairwise (· < ·)) := by
  intro c n
  have htable : RateTable c n := by
    cases hfile : files.server.file with
    | none =>
        have hc : c = serverConfInit .zero := by
          show (serverConfLoad files .zero).2 = _
          rw [serverConfLoad_none hfile]
        have hn : n = 0 := by
          show c.sgNum.toNat = 0
          rw [hc]
          rfl
        rw [hn, hc]
        exact ⟨rfl, rfl, rfl⟩
    | some s =>
        have hsame := serverConfLoad_sameShares hfile rfl
        have hframe := serverAssign_frame (settings files.server.stray s) (serverConfInit .zero)
        have hrate := (capGroups_frame ((settings files.server.stray s).foldl
          serverAssignConfItem (serverConfInit .zero))).2.1.trans hframe.rate
        have hnum := hsame.sgNum.trans (rateLoop_done hrate _).sgNum
        have hn : n = _ := congrArg Int.toNat hnum
        rw [hn]
        exact hsame.table (rateLoop_table hrate _).1
  refine ⟨(allInside_iff_numbersInside files).2 hnumbers, htable, fun hsum => ?_⟩
  rw [htable.rate]
  exact (runningSums_grow (sharing_pos c n) hsum).1

/-- Three groups, two of them with a share. -/
theorem serverConfLoad_rates_threeGroups :
    let c := (serverConfLoad ⟨⟨some (ascii
        "Server_group_num: 3\nGroup_1_rate: 5\nGroup_3_rate: 7\n"), fun _ => []⟩,
      fun _ => ⟨none, fun _ => []⟩, ⟨none, fun _ => []⟩⟩ .zero).2
    c.AllInside ∧ RateTable c c.sgNum.toNat ∧
      ((List.range c.rate.rateNum).map c.rate.rate).Pairwise (· < ·) := by
  have hinside : (serverConfLoad ⟨⟨some (ascii
        "Server_group_num: 3\nGroup_1_rate: 5\nGroup_3_rate: 7\n"), fun _ => []⟩,
      fun _ => ⟨none, fun _ => []⟩, ⟨none, fun _ => []⟩⟩ .zero).2.AllInside := by
    unfold ServerConf.AllInside TableUse.Inside
    decide +kernel
  have h := serverConfLoad_rates _ ((allInside_iff_numbersInside _).1 hinside)
  exact ⟨h.1, h.2.1, h.2.2 (by decide +kernel)⟩

end UiServer
