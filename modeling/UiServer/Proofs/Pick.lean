import UiServer.Lib.Cyclic
import UiServer.Proofs.Groups

/-!
# Which server of a group is picked

`distribute_request_group` goes round the servers of a group from the one behind
`lru`. It looks at `sock_num` of them, as many as are connected, and not at all
of them: a server that is down uses up a look as well. So the first idle server
is found exactly when it stands within `sock_num` places (`picksInTurn_iff`).
-/

namespace UiServer

/-- The first idle slot of the group is the `d`-th behind `lru`. -/
abbrev GroupServerSock.FirstIdle (group : GroupServerSock) (d : Nat) : Prop :=
  Cyclic.FirstAt (fun s => (group.upstream s).status = .idle) group.realNum.toNat
    group.lru d

theorem findIdle_eq_search (group : GroupServerSock) : ∀ tryTime i,
    findIdle group tryTime i =
      Cyclic.search (fun s => (group.upstream s).status = .idle) group.realNum.toNat
        tryTime i := by
  intro tryTime
  induction tryTime with
  | zero => intro i; rfl
  | succ n ih =>
      intro i
      rw [findIdle, Cyclic.search]
      simp only [ih]
      rfl

/-- Slot `i` of group `g` was given the request, and no other slot of the group
was. -/
structure PickedSlot (c t : ConnCtx) (g i : Nat) : Prop where
  lru : (t.group g).lru = i
  busy : (t.slot g i).status = .work ∨ (t.slot g i).status = .close
  others : ∀ s, s ≠ i → t.slot g s = c.slot g s

/-- The group goes on from `c` to `t` by picking the first idle slot round from
`lru`, and is left alone when there is none. -/
structure PicksInTurn (c t : ConnCtx) (g : Nat) : Prop where
  picks : ∀ d, (c.group g).FirstIdle d →
    PickedSlot c t g (Cyclic.place (c.group g).realNum.toNat (c.group g).lru d)
  unchanged : (∀ s < (c.group g).realNum.toNat, (c.slot g s).status ≠ .idle) → t = c

section

variable {c : ConnCtx} {g i : Nat} {rv : Int}

theorem lru_modSlot (c : ConnCtx) (g s g' : Nat) (f : UpstreamConnect → UpstreamConnect) :
    ((c.modSlot g s f).group g').lru = (c.group g').lru :=
  ConnCtx.modGroup_frame (·.lru) rfl

theorem lru_upstreamServerErr (c : ConnCtx) (g s g' : Nat) :
    ((upstreamServerErr c g s).group g').lru = (c.group g').lru := by
  have hsock : ∀ (d : ConnCtx) (k : Nat) (n : Int),
      ((d.addSockNum k n).group g').lru = (d.group g').lru := fun d k n =>
    ConnCtx.modGroup_frame (·.lru) rfl
  rw [upstreamServerErr]
  rw [lru_modSlot, ConnCtx.group_addNeedClose, hsock, ConnCtx.setStatus, lru_modSlot]

/-- The write to the slot is under way, or it was refused and the slot is lost. -/
theorem distributeRequestUpstream_cases (c : ConnCtx) (g s : Nat) (rv : Int) :
    distributeRequestUpstream c g s rv = (c.modSlot g s .sendRequest, 0) ∨
      ∃ r, distributeRequestUpstream c g s rv =
        (upstreamServerErr (c.setStatus g s .connectFail) g s, r) := by
  have hstatus : (c.setStatus g s .work).slot g s =
      { c.slot g s with status := .work } := by
    rw [ConnCtx.setStatus, ConnCtx.slot_modSlot_same]
  by_cases ho : (c.slot g s).tcp.handle.isOpen = true
  · by_cases hrv : rv = 0
    · subst hrv
      exact .inl (distributeRequestUpstream_ok ho)
    · exact .inr ⟨rv, distributeRequestUpstream_err ho hrv⟩
  · refine .inr ⟨-1, ?_⟩
    have hw : (c.setStatus g s .work).uvWriteUpstream g s rv =
        (c.setStatus g s .work, -1) := by
      rw [ConnCtx.uvWriteUpstream, hstatus]
      simp only [if_neg ho]
      rfl
    simp only [distributeRequestUpstream, hw]
    rw [if_pos (by decide)]
    simp only [ConnCtx.setStatus]
    rw [ConnCtx.modSlot_modSlot]

theorem pickedSlot_distributeRequestUpstream (c : ConnCtx) (g i : Nat) (rv : Int) :
    PickedSlot c (distributeRequestUpstream (c.setLru g i) g i rv).1 g i := by
  have hlru : ((c.setLru g i).group g).lru = i := by
    rw [ConnCtx.setLru, ConnCtx.group_modGroup, if_pos rfl]
  have hslot := ConnCtx.slot_setLru c g i
  rcases distributeRequestUpstream_cases (c.setLru g i) g i rv with heq | ⟨r, heq⟩
  · rw [heq]
    refine ⟨by rw [lru_modSlot, hlru], .inl ?_, fun s hs => ?_⟩
    · rw [ConnCtx.slot_modSlot_same]
      rfl
    · rw [ConnCtx.slot_modSlot_ne fun h => hs h.2, hslot]
  · rw [heq]
    refine ⟨?_, .inr ?_, fun s hs => ?_⟩
    · rw [lru_upstreamServerErr, ConnCtx.setStatus, lru_modSlot, hlru]
    · rw [slot_upstreamServerErr_same]
      rfl
    · rw [slot_upstreamServerErr_ne fun h => hs h.2, ConnCtx.setStatus,
        ConnCtx.slot_modSlot_ne fun h => hs h.2, hslot]

/-- A group without an idle slot within `sock_num` places picks none. -/
theorem distributeRequestGroup_none
    (h : ∀ k : Nat, 0 < k → (k : Int) ≤ (c.group g).sockNum →
      (c.slot g (Cyclic.place (c.group g).realNum.toNat (c.group g).lru k)).status ≠ .idle)
    (rv : Int) : distributeRequestGroup c g rv = (c, -1) := by
  have hnone : pickUpstream (c.group g) = none := by
    rw [pickUpstream, findIdle_eq_search, Cyclic.search_eq_none_iff]
    exact fun k hk hle => h k hk (by omega)
  rw [distributeRequestGroup, hnone]

theorem distributeRequestGroup_first {d : Nat} (h : (c.group g).FirstIdle d)
    (hd : (d : Int) ≤ (c.group g).sockNum) (rv : Int) :
    PickedSlot c (distributeRequestGroup c g rv).1 g
      (Cyclic.place (c.group g).realNum.toNat (c.group g).lru d) := by
  have hsome : pickUpstream (c.group g) =
      some (Cyclic.place (c.group g).realNum.toNat (c.group g).lru d) := by
    rw [pickUpstream, findIdle_eq_search]
    exact Cyclic.search_of_firstAt h (by omega)
  rw [distributeRequestGroup, hsome]
  exact pickedSlot_distributeRequestUpstream c g _ rv

/-- The first idle slot round from `lru` is picked exactly when it stands within
`sock_num` places. -/
theorem picksInTurn_iff (hlru : ((c.group g).lru : Int) < (c.group g).realNum) (rv : Int) :
    PicksInTurn c (distributeRequestGroup c g rv).1 g ↔
      ∀ d : Nat, (c.group g).FirstIdle d → (d : Int) ≤ (c.group g).sockNum := by
  constructor
  · intro h d hd
    by_contra hlate
    have hfar : ∀ k : Nat, 0 < k → (k : Int) ≤ (c.group g).sockNum → (c.slot g
        (Cyclic.place (c.group g).realNum.toNat (c.group g).lru k)).status ≠ .idle :=
      fun k hk hle => hd.before k hk (by omega)
    have hpicked := h.picks d hd
    rw [distributeRequestGroup_none hfar] at hpicked
    have hidle : (c.slot g (Cyclic.place (c.group g).realNum.toNat (c.group g).lru
      d)).status = .idle := hd.here
    rcases hpicked.busy with hbusy | hbusy
    · rw [hidle] at hbusy
      cases hbusy
    · rw [hidle] at hbusy
      cases hbusy
  · intro h
    refine ⟨fun d hd => distributeRequestGroup_first hd (h d hd) rv, fun hnone => ?_⟩
    have hpos : 0 < (c.group g).realNum.toNat := by omega
    rw [distributeRequestGroup_none fun k _ _ => hnone _ (Cyclic.place_lt hpos _ k)]

end

def threeServers : Conf := evenConf 1 3 one_le_maxGroupNum (by decide)

/-- Only the last server of the group answers the connects. -/
def lastServerUp : ConnCtx :=
  (Lts.run (step threeServers) (onNewConnection threeServers .zeroed (fun _ _ => 0) 0)
    [.upstreamConnectCb 0 0 (-1), .upstreamConnectCb 0 1 (-1),
      .upstreamConnectCb 0 2 0]).getD .zeroed

theorem picksInTurn_iff_lastServerUp :
    PicksInTurn lastServerUp (distributeRequestGroup lastServerUp 0 0).1 0 ↔
      ∀ d : Nat, (lastServerUp.group 0).FirstIdle d →
        (d : Int) ≤ (lastServerUp.group 0).sockNum :=
  picksInTurn_iff (by decide +kernel) 0

/-- The only server that is connected stands two places behind `lru`, and the
group gives up after one. -/
theorem picksInTurn_fails :
    ¬ ∀ (c : ConnCtx) (g : Nat) (rv : Int),
        (c.group g).sockNum =
          (c.slotsIn g UpstreamConnectStatus.isConnected).card →
        ((c.group g).lru : Int) < (c.group g).realNum →
        PicksInTurn c (distributeRequestGroup c g rv).1 g := by
  intro hall
  have hturn := hall lastServerUp 0 0 (by decide +kernel) (by decide +kernel)
  have hfirst : (lastServerUp.group 0).FirstIdle 2 := by
    refine ⟨by decide, by decide +kernel, by decide +kernel, fun k hk hlt => ?_⟩
    obtain rfl : k = 1 := by omega
    decide +kernel
  have hbusy := (hturn.picks 2 hfirst).busy
  revert hbusy
  decide +kernel

end UiServer
