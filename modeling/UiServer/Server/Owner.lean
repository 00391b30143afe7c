import Mathlib.Tactic.Linarith
import Mathlib.Tactic.Ring
import UiServer.Server.Context

/-!
# The context a callback finds

The other modules of the server are given the slot that an event is about.
The callbacks themselves only get the address of a handle, and find the slot,
the group array and the context from it. This module is about these addresses:
memory is a function from addresses to the `int` that is stored there, and the
layout of the structures is a parameter with what C says about it.

Going from the handle to its slot is right (`containerOf`). Going from the slot
to the group array is `upstream - upstream->group_idx`, which steps back as
many slots as there are groups before this one. `reachOwner_iff` says which
slots that is right for, and `reachOwners_iff` which configurations.
-/

namespace UiServer.Owner

abbrev Addr := Int

/-- The `int` fields in memory, by address. -/
abbrev Cells := Addr → Int

/-- The sizes and offsets the compiler chose. The offsets named `…Off` are
those of the fields of `upstream_connect_t`, `connecting` lies behind the array
of `Group_server_sock_t`, and `needClose` before `gs` in `conn_ctx_t`. -/
structure Layout where
  connectSize : Nat
  groupSize : Nat
  tcpOff : Nat
  writeOff : Nat
  timerOff : Nat
  statusOff : Nat
  groupIdxOff : Nat
  serverIdxOff : Nat
  connecting : Nat
  needClose : Nat
  gs : Nat
  connectSize_pos : 0 < connectSize
  array_le : groupMaxServerNum * connectSize ≤ groupSize
  status_lt : statusOff < groupIdxOff
  groupIdx_lt : groupIdxOff < serverIdxOff
  serverIdx_lt : serverIdxOff < connectSize
  array_le_connecting : groupMaxServerNum * connectSize ≤ connecting
  connecting_lt : connecting < groupSize
  needClose_lt : needClose < gs

variable (L : Layout)

/-- `&ctx->gs`. -/
def gsAddr (ctx : Addr) : Addr := ctx + L.gs

def groupAddr (pgs : Addr) (g : Nat) : Addr := pgs + g * L.groupSize

/-- `pgs->group[g].upstream + s`. -/
def slotAddr (pgs : Addr) (g s : Nat) : Addr := groupAddr L pgs g + s * L.connectSize

def containerOf (p : Addr) (off : Nat) : Addr := p - off

def set (m : Cells) (a : Addr) (v : Int) : Cells := Function.update m a v

def bump (m : Cells) (a : Addr) (d : Int) : Cells := set m a (m a + d)

def statusNum : UpstreamConnectStatus → Int
  | .connectInit => 0
  | .connecting => 1
  | .idle => 2
  | .work => 3
  | .close => 4
  | .connectFail => 5
  | .waitReconnect => 6

/-- What `upstream_connect_group_server` does to the `int` fields. -/
def upstreamConnectGroupServer (m : Cells) (pgs : Addr) (g s : Nat) (rv : Int) : Cells :=
  let ctx := containerOf pgs L.gs
  let group := groupAddr L pgs g
  let up := slotAddr L pgs g s
  let m := set m (up + L.statusOff) (statusNum .connectInit)
  let m := set m (up + L.groupIdxOff) g
  let m := set m (up + L.serverIdxOff) s
  let m := bump m (ctx + L.needClose) 1
  let m := bump m (ctx + L.needClose) 1
  let m := set m (up + L.statusOff) (statusNum .connecting)
  let m := bump m (group + L.connecting) 1
  if rv ≠ 0 then
    let m := set m (up + L.statusOff) (statusNum .connectFail)
    let m := bump m (group + L.connecting) (-1)
    set m (up + L.statusOff) (statusNum .waitReconnect)
  else m

/-! ## The six callbacks

Each of them is given a handle or a request of a slot and works out the rest. What
it would write to is its `Target`, and it finds its owner if these are the right
addresses. -/

/-- The pointers through which a callback changes a context. -/
structure Target where
  gs : Addr
  ctx : Addr
deriving DecidableEq, Repr

/-- The first lines of every callback, once it has the slot. -/
def target (m : Cells) (upstream : Addr) : Target :=
  let gs := upstream - m (upstream + L.groupIdxOff) * L.connectSize
  ⟨gs, containerOf gs L.gs⟩

def upstreamTcpCleanCb (m : Cells) (tcp : Addr) : Target :=
  target L m (containerOf tcp L.tcpOff)

def upstreamTimerCleanCb (m : Cells) (timer : Addr) : Target :=
  target L m (containerOf timer L.timerOff)

def upstreamReconnectTcpCb (m : Cells) (tcp : Addr) : Target :=
  target L m (containerOf tcp L.tcpOff)

def allocUpstreamResponseBuf (m : Cells) (tcp : Addr) : Target :=
  target L m (containerOf tcp L.tcpOff)

def onGotUpstreamResponse (m : Cells) (tcp : Addr) : Target :=
  target L m (containerOf tcp L.tcpOff)

def distributeUpstreamCb (m : Cells) (write : Addr) : Target :=
  target L m (containerOf write L.writeOff)

/-- Every callback of slot `g`, `s` of the context at `ctx` works on that
context. -/
structure ReachOwner (m : Cells) (ctx : Addr) (g s : Nat) : Prop where
  tcpClean : upstreamTcpCleanCb L m (slotAddr L (gsAddr L ctx) g s + L.tcpOff) =
    ⟨gsAddr L ctx, ctx⟩
  timerClean : upstreamTimerCleanCb L m (slotAddr L (gsAddr L ctx) g s + L.timerOff) =
    ⟨gsAddr L ctx, ctx⟩
  reconnect : upstreamReconnectTcpCb L m (slotAddr L (gsAddr L ctx) g s + L.tcpOff) =
    ⟨gsAddr L ctx, ctx⟩
  alloc : allocUpstreamResponseBuf L m (slotAddr L (gsAddr L ctx) g s + L.tcpOff) =
    ⟨gsAddr L ctx, ctx⟩
  got : onGotUpstreamResponse L m (slotAddr L (gsAddr L ctx) g s + L.tcpOff) =
    ⟨gsAddr L ctx, ctx⟩
  wrote : distributeUpstreamCb L m (slotAddr L (gsAddr L ctx) g s + L.writeOff) =
    ⟨gsAddr L ctx, ctx⟩

/-- What the other modules take for granted about the context at `ctx`: the
callbacks of all slots that the configuration uses work on it. -/
def ReachOwners (m : Cells) (ctx : Addr) (conf : Conf) : Prop :=
  ∀ g < conf.sgNum, ∀ s < conf.servers g, ReachOwner L m ctx g s

/-! ## A slot that was set up

The indices a callback goes by were written when the slot was connected
(`setUp_connect`), and connecting other slots has not written over them, since the
slots and the counters lie apart (`SetUp.connect`). -/

def SetUp (m : Cells) (pgs : Addr) (g s : Nat) : Prop :=
  m (slotAddr L pgs g s + L.groupIdxOff) = g

variable {L}

theorem set_ne {m : Cells} {a b : Addr} {v : Int} (h : b ≠ a) : set m a v b = m b := by
  rw [set]
  exact Function.update_of_ne h v m

theorem set_same {m : Cells} {a : Addr} {v : Int} : set m a v a = v := by
  rw [set]
  exact Function.update_self a v m

theorem bump_ne {m : Cells} {a b : Addr} {d : Int} (h : b ≠ a) : bump m a d b = m b :=
  set_ne h

/-- The places `upstream_connect_group_server` writes to beside the slot's
group. -/
structure Untouched (L : Layout) (pgs : Addr) (g s : Nat) (b : Addr) : Prop where
  status : b ≠ slotAddr L pgs g s + L.statusOff
  serverIdx : b ≠ slotAddr L pgs g s + L.serverIdxOff
  needClose : b ≠ containerOf pgs L.gs + L.needClose
  connecting : b ≠ groupAddr L pgs g + L.connecting

theorem connect_apply {m : Cells} {pgs : Addr} {g s : Nat} {rv : Int} {b : Addr}
    (h : Untouched L pgs g s b) :
    upstreamConnectGroupServer L m pgs g s rv b =
      if b = slotAddr L pgs g s + L.groupIdxOff then (g : Int) else m b := by
  obtain ⟨hst, hsi, hnc, hcg⟩ := h
  have hgroup : ∀ m' : Cells, set m' (slotAddr L pgs g s + L.groupIdxOff) g b =
      if b = slotAddr L pgs g s + L.groupIdxOff then (g : Int) else m' b := by
    intro m'
    split
    · next he => rw [he, set_same]
    · next hne => rw [set_ne hne]
  simp only [upstreamConnectGroupServer]
  split
  · rw [set_ne hst, bump_ne hcg, set_ne hst, bump_ne hcg, set_ne hst, bump_ne hnc,
      bump_ne hnc, set_ne hsi, hgroup, set_ne hst]
  · rw [bump_ne hcg, set_ne hst, bump_ne hnc, bump_ne hnc, set_ne hsi, hgroup,
      set_ne hst]

theorem slot_field_lt {s off : Nat} (hs : s < groupMaxServerNum)
    (hoff : off < L.connectSize) :
    (s : Int) * L.connectSize + off < groupMaxServerNum * L.connectSize := by
  have hle : ((s : Int) + 1) * L.connectSize ≤ groupMaxServerNum * L.connectSize :=
    mul_le_mul_of_nonneg_right (by exact_mod_cast hs) (by omega)
  rw [add_mul, one_mul] at hle
  have hoff' : (off : Int) < L.connectSize := by exact_mod_cast hoff
  linarith

theorem stride_inj {n a b x y : Int} (hx : 0 ≤ x) (hxn : x < n) (hy : 0 ≤ y)
    (hyn : y < n) (h : a * n + x = b * n + y) : a = b ∧ x = y := by
  have hne : n ≠ 0 := ne_of_gt (lt_of_le_of_lt hx hxn)
  have hdiv : ∀ k z : Int, 0 ≤ z → z < n → (k * n + z) / n = k := by
    intro k z hz hzn
    rw [add_comm, Int.add_mul_ediv_right _ _ hne, Int.ediv_eq_zero_of_lt hz hzn,
      zero_add]
  have hab : a = b := by rw [← hdiv a x hx hxn, h, hdiv b y hy hyn]
  subst hab
  exact ⟨rfl, by linarith⟩

section

variable {pgs : Addr} {g s g' s' : Nat}

theorem slot_field_inj {off off' : Nat} (hs : s < groupMaxServerNum)
    (hs' : s' < groupMaxServerNum) (hoff : off < L.connectSize)
    (hoff' : off' < L.connectSize)
    (h : slotAddr L pgs g s + off = slotAddr L pgs g' s' + off') :
    g = g' ∧ s = s' ∧ off = off' := by
  have hlt := slot_field_lt hs hoff
  have hlt' := slot_field_lt hs' hoff'
  have harr : (groupMaxServerNum * L.connectSize : Int) ≤ L.groupSize := by
    exact_mod_cast L.array_le
  simp only [slotAddr, groupAddr] at h
  obtain ⟨hg, hin⟩ := stride_inj (a := g) (b := g') (n := L.groupSize)
    (x := s * L.connectSize + off) (y := s' * L.connectSize + off')
    (by positivity) (by linarith) (by positivity) (by linarith) (by linarith)
  obtain ⟨hss, ho⟩ := stride_inj (by positivity) (by exact_mod_cast hoff)
    (by positivity) (by exact_mod_cast hoff') hin
  exact ⟨by exact_mod_cast hg, by exact_mod_cast hss, by exact_mod_cast ho⟩

theorem slot_field_ne_connecting {off : Nat} (hs : s < groupMaxServerNum)
    (hoff : off < L.connectSize) :
    slotAddr L pgs g s + off ≠ groupAddr L pgs g' + L.connecting := by
  intro h
  have hlt := slot_field_lt hs hoff
  have hle : (groupMaxServerNum * L.connectSize : Int) ≤ L.connecting := by
    exact_mod_cast L.array_le_connecting
  have hsz : (L.connecting : Int) < L.groupSize := by exact_mod_cast L.connecting_lt
  simp only [slotAddr, groupAddr] at h
  obtain ⟨_, hin⟩ := stride_inj (a := g) (b := g') (n := L.groupSize)
    (x := s * L.connectSize + off) (y := L.connecting)
    (by positivity) (by linarith) (by positivity) hsz (by linarith)
  linarith

theorem slot_field_ne_needClose {off : Nat} :
    slotAddr L pgs g s + off ≠ containerOf pgs L.gs + L.needClose := by
  have hlt : (L.needClose : Int) < L.gs := by exact_mod_cast L.needClose_lt
  have hpos : (0 : Int) ≤ g * L.groupSize + s * L.connectSize + off := by positivity
  rw [slotAddr, groupAddr, containerOf]
  intro h
  linarith

theorem untouched_groupIdx (hs : s < groupMaxServerNum) (hs' : s' < groupMaxServerNum) :
    Untouched L pgs g s (slotAddr L pgs g' s' + L.groupIdxOff) := by
  have hgi : L.groupIdxOff < L.connectSize := L.groupIdx_lt.trans L.serverIdx_lt
  have hst : L.statusOff < L.connectSize := L.status_lt.trans hgi
  refine ⟨fun h => ?_, fun h => ?_, slot_field_ne_needClose,
    slot_field_ne_connecting hs' hgi⟩
  · exact absurd (slot_field_inj hs' hs hgi hst h).2.2 (Nat.ne_of_gt L.status_lt)
  · exact absurd (slot_field_inj hs' hs hgi L.serverIdx_lt h).2.2
      (Nat.ne_of_lt L.groupIdx_lt)

theorem setUp_connect (m : Cells) (hs : s < groupMaxServerNum) (rv : Int) :
    SetUp L (upstreamConnectGroupServer L m pgs g s rv) pgs g s := by
  rw [SetUp, connect_apply (untouched_groupIdx hs hs), if_pos rfl]

/-- A slot that was set up stays so when any slot of the context is
connected. -/
theorem SetUp.connect {m : Cells} (h : SetUp L m pgs g' s')
    (hs : s < groupMaxServerNum) (hs' : s' < groupMaxServerNum) (rv : Int) :
    SetUp L (upstreamConnectGroupServer L m pgs g s rv) pgs g' s' := by
  rw [SetUp] at *
  rw [connect_apply (untouched_groupIdx hs hs')]
  split
  · next he =>
      have hgi : L.groupIdxOff < L.connectSize := L.groupIdx_lt.trans L.serverIdx_lt
      rw [(slot_field_inj hs' hs hgi hgi he).1]
  · exact h

end

/-! ## Which slots find their context

The way back is as many slots long as there are groups before the one of the slot.
It comes out at the group array if the slot lies just that far behind it, and only
the first slot of all does. -/

/-- How far from the group array a slot that was set up looks for it. -/
theorem target_eq {m : Cells} {ctx : Addr} {g s : Nat}
    (h : SetUp L m (gsAddr L ctx) g s) :
    target L m (slotAddr L (gsAddr L ctx) g s) =
      ⟨gsAddr L ctx + (g * (L.groupSize - L.connectSize) + s * L.connectSize),
        ctx + (g * (L.groupSize - L.connectSize) + s * L.connectSize)⟩ := by
  rw [target, h]
  rw [slotAddr, groupAddr, containerOf, gsAddr, Target.mk.injEq]
  exact ⟨by ring, by ring⟩

/-- Only the first slot of all is at the distance it assumes. -/
theorem target_owner_iff {m : Cells} {ctx : Addr} {g s : Nat}
    (h : SetUp L m (gsAddr L ctx) g s) :
    target L m (slotAddr L (gsAddr L ctx) g s) = ⟨gsAddr L ctx, ctx⟩ ↔
      g = 0 ∧ s = 0 := by
  have hpos : (0 : Int) < L.connectSize := by exact_mod_cast L.connectSize_pos
  have harr : (groupMaxServerNum * L.connectSize : Int) ≤ L.groupSize := by
    exact_mod_cast L.array_le
  have hgap : (0 : Int) < L.groupSize - L.connectSize := by
    rw [groupMaxServerNum] at harr
    push_cast at harr
    linarith
  rw [target_eq h, Target.mk.injEq]
  constructor
  · rintro ⟨hgs, _⟩
    have hg : (0 : Int) ≤ g * (L.groupSize - L.connectSize) := by positivity
    have hs : (0 : Int) ≤ s * L.connectSize := by positivity
    have hg0 : (g : Int) * (L.groupSize - L.connectSize) = 0 := by linarith
    have hs0 : (s : Int) * L.connectSize = 0 := by linarith
    have hgz := (mul_eq_zero.1 hg0).resolve_right (ne_of_gt hgap)
    have hsz := (mul_eq_zero.1 hs0).resolve_right (ne_of_gt hpos)
    exact ⟨by exact_mod_cast hgz, by exact_mod_cast hsz⟩
  · rintro ⟨rfl, rfl⟩
    simp

/-- Exactly when the callbacks of a slot that was set up work on the context
the slot is in: when it is the first server of the first group. -/
theorem reachOwner_iff {m : Cells} {ctx : Addr} {g s : Nat}
    (h : SetUp L m (gsAddr L ctx) g s) :
    ReachOwner L m ctx g s ↔ g = 0 ∧ s = 0 := by
  have hback : ∀ off : Nat, containerOf (slotAddr L (gsAddr L ctx) g s + off) off =
      slotAddr L (gsAddr L ctx) g s := fun off => add_sub_cancel_right _ _
  rw [← target_owner_iff h]
  constructor
  · intro hr
    have htcp := hr.tcpClean
    rw [upstreamTcpCleanCb] at htcp
    rw [hback] at htcp
    exact htcp
  · intro ht
    constructor
    · rw [upstreamTcpCleanCb, hback, ht]
    · rw [upstreamTimerCleanCb, hback, ht]
    · rw [upstreamReconnectTcpCb, hback, ht]
    · rw [allocUpstreamResponseBuf, hback, ht]
    · rw [onGotUpstreamResponse, hback, ht]
    · rw [distributeUpstreamCb, hback, ht]

/-- For all slots of a configuration it is right only if there is one server at
most, and that one in the first group: with more of them the other modules say
what the code does once the step from the slot to the array is put right. -/
theorem reachOwners_iff {m : Cells} {ctx : Addr} {conf : Conf}
    (h : ∀ g < conf.sgNum, ∀ s < conf.servers g, SetUp L m (gsAddr L ctx) g s) :
    ReachOwners L m ctx conf ↔
      ∀ g < conf.sgNum, ∀ s < conf.servers g, g = 0 ∧ s = 0 := by
  constructor
  · intro hall g hg s hs
    exact (reachOwner_iff (h g hg s hs)).1 (hall g hg s hs)
  · intro hone g hg s hs
    exact (reachOwner_iff (h g hg s hs)).2 (hone g hg s hs)

def slots64 : Layout where
  connectSize := 64
  groupSize := 656
  tcpOff := 8
  writeOff := 16
  timerOff := 24
  statusOff := 40
  groupIdxOff := 44
  serverIdxOff := 48
  connecting := 648
  needClose := 100
  gs := 128
  connectSize_pos := by decide
  array_le := by decide
  status_lt := by decide
  groupIdx_lt := by decide
  serverIdx_lt := by decide
  array_le_connecting := by decide
  connecting_lt := by decide
  needClose_lt := by decide

theorem reachOwner_iff_slots64 :
    ReachOwner slots64
      (upstreamConnectGroupServer slots64 (fun _ => 0) (gsAddr slots64 4096) 0 0 0)
      4096 0 0 :=
  (reachOwner_iff (setUp_connect _ (by decide) 0)).2 ⟨rfl, rfl⟩

/-- The second server of the first group looks for the context 64 bytes behind
its start. -/
theorem reachOwner_fails :
    ¬ ∀ (L : Layout) (m : Cells) (ctx : Addr) (g s : Nat) (rv : Int),
        g < maxGroupNum → s < groupMaxServerNum →
        ReachOwner L (upstreamConnectGroupServer L m (gsAddr L ctx) g s rv) ctx g s := by
  intro hall
  have hr := (hall slots64 (fun _ => 0) 4096 0 1 0 (by decide) (by decide)).tcpClean
  revert hr
  decide

end UiServer.Owner
