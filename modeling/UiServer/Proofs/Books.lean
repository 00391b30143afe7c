import Mathlib.Data.Finset.Prod
import UiServer.Lib.Ledger
import UiServer.Proofs.Serving

/-!
# What a connection counts while it is open

As long as `context_close` has not been called, a slot that was connected is in
one of six modes, and the mode says everything about it (`SlotMode.upstream`).
The three counters of a connection are then sums over the slots: `need_close`
counts the client and the handles of the slots, except a `tcp` that is closed
for a reconnect, and each group counts its slots that are connected and those
that are being connected.

`Books` is the invariant. Its width says how many servers of each group have
been connected, so that it also holds in the middle of `upstream_connect_all`.
-/

namespace UiServer

def allSlots : Finset Slot :=
  Finset.range maxGroupNum ×ˢ Finset.range groupMaxServerNum

def Conf.width (conf : Conf) (g : Nat) : Nat :=
  if g < conf.sgNum then conf.servers g else 0

theorem Conf.servers_le (conf : Conf) (g : Nat) :
    conf.servers g ≤ groupMaxServerNum := by
  have hle := conf.srvNum_le g
  rw [Conf.servers]
  omega

theorem Conf.width_le (conf : Conf) (g : Nat) : conf.width g ≤ groupMaxServerNum := by
  rw [Conf.width]
  split
  · exact conf.servers_le g
  · exact Nat.zero_le _

theorem Conf.lt_sgNum {conf : Conf} {g s : Nat} (h : s < conf.width g) :
    g < conf.sgNum := by
  rw [Conf.width] at h
  split at h
  · next hg => exact hg
  · exact absurd h (Nat.not_lt_zero s)

/-! ## The modes of a slot

A slot has a `tcp`, a timer, two requests and a status, and most combinations of
them never come up. Those that do are named, and `SlotMode.upstream` is the slot
of a mode, so that the counters are sums of one number for each mode. Keeping the
books is then a matter of one slot: `Books.post` asks that each counter moves by
what the new mode counts more than the old one (`Moves`), and the other slots are
in no way looked at. -/

/-- What a slot of an open connection is doing. -/
inductive SlotMode where
  | connecting | waiting | idle | writing | awaiting | closing
deriving DecidableEq, Repr

def SlotMode.status : SlotMode → UpstreamConnectStatus
  | .connecting => .connecting
  | .waiting => .waitReconnect
  | .idle => .idle
  | .writing | .awaiting => .work
  | .closing => .close

def SlotMode.tcp : SlotMode → Uv.Stream CloseCb
  | .awaiting => Uv.Stream.init.readStart
  | .closing => Uv.Stream.init.close .upstreamReconnectTcp
  | _ => .init

def SlotMode.upstream (m : SlotMode) (g s : Nat) : UpstreamConnect where
  connect := decide (m = .connecting)
  tcp := m.tcp
  write := decide (m = .writing)
  timer := .init
  status := m.status
  groupIdx := g
  serverIdx := s

/-- A slot that was never connected. -/
structure UpstreamConnect.Unused (up : UpstreamConnect) : Prop where
  connect : up.connect = false
  tcp : up.tcp = {}
  write : up.write = false
  timer : up.timer = {}

/-- What `need_close` counts of a slot. -/
def UpstreamConnect.counted (up : UpstreamConnect) : Nat :=
  up.timer.live.toNat +
    if up.tcp.handle.phase = .closing .upstreamReconnectTcp then 0
    else up.tcp.handle.live.toNat

/-- What `sock_num` counts. -/
def UpstreamConnect.connected (up : UpstreamConnect) : Nat :=
  if up.status = .idle ∨ up.status = .work then 1 else 0

/-- What `connecting` counts. -/
def UpstreamConnect.pending (up : UpstreamConnect) : Nat :=
  if up.status = .connecting then 1 else 0

theorem UpstreamConnect.Unused.counted {up : UpstreamConnect} (h : up.Unused) :
    up.counted = 0 := by
  rw [UpstreamConnect.counted, h.timer, h.tcp]
  rfl

def ConnCtx.slotAt (c : ConnCtx) (p : Slot) : UpstreamConnect := c.slot p.1 p.2

/-- What `need_close` should be. -/
def ConnCtx.due (c : ConnCtx) : Nat :=
  c.client.handle.live.toNat + Ledger.total allSlots UpstreamConnect.counted c.slotAt

/-- The weights of the first `n` slots of a group. -/
def ConnCtx.row (c : ConnCtx) (w : UpstreamConnect → Nat) (g n : Nat) : Nat :=
  Ledger.total (Finset.range n) w (c.slot g)

/-- A connection before `context_close` whose first `n` groups were set up,
with `width g` servers each, and whose slots are in modes that are `ok`. -/
structure Books (conf : Conf) (ok : SlotMode → Prop) (n : Nat) (width : Nat → Nat)
    (c : ConnCtx) : Prop where
  width_le : ∀ g, width g ≤ groupMaxServerNum
  width_lt : ∀ g s, s < width g → g < n
  n_le : n ≤ maxGroupNum
  slots : ∀ g s, s < width g →
    ∃ m : SlotMode, ok m ∧ c.slot g s = m.upstream g s
  outside : ∀ g s, ¬ s < width g → (c.slot g s).Unused
  realNum : ∀ g, g < n → (c.group g).realNum = conf.srvNum g
  sockNum : ∀ g, g < n → (c.group g).sockNum = c.row UpstreamConnect.connected g (width g)
  connecting : ∀ g, g < n → (c.group g).connecting = c.row UpstreamConnect.pending g (width g)
  needClose : c.needClose = c.due
  client : c.client.handle = .init
  frees : c.frees = 0

/-- The invariant of an open connection: slots are lost only if `errs`. -/
abbrev OpenBooks (conf : Conf) (errs : Prop) : ConnCtx → Prop :=
  Books conf (fun m => m = .closing → errs) conf.sgNum conf.width

theorem mem_allSlots {p : Slot} :
    p ∈ allSlots ↔ p.1 < maxGroupNum ∧ p.2 < groupMaxServerNum := by
  rw [allSlots, Finset.mem_product, Finset.mem_range, Finset.mem_range]

theorem OnlySlot.due {p : Slot} {c t : ConnCtx} (h : OnlySlot p c t)
    (hp : p ∈ allSlots) :
    t.due + (c.slotAt p).counted = c.due + (t.slotAt p).counted := by
  have htotal := Ledger.total_replace (w := UpstreamConnect.counted) (f := c.slotAt)
    (g := t.slotAt) hp fun q _ hq => h.slots q hq
  simp only [ConnCtx.due]
  rw [h.client]
  omega

theorem OnlySlot.row {p : Slot} {c t : ConnCtx} (h : OnlySlot p c t)
    (w : UpstreamConnect → Nat) {n : Nat} (hp : p.2 < n) :
    t.row w p.1 n + w (c.slotAt p) = c.row w p.1 n + w (t.slotAt p) :=
  Ledger.total_replace (Finset.mem_range.2 hp) fun s _ hs =>
    h.slots (p.1, s) fun he => hs (congrArg Prod.snd he)

theorem OnlySlot.row_ne {p : Slot} {c t : ConnCtx} (h : OnlySlot p c t)
    (w : UpstreamConnect → Nat) {g : Nat} (hg : g ≠ p.1) (n : Nat) :
    t.row w g n = c.row w g n :=
  Ledger.total_congr fun s _ =>
    congrArg w (h.slots (g, s) fun he => hg (congrArg Prod.fst he))

section

variable {conf : Conf} {ok : SlotMode → Prop} {n : Nat} {width : Nat → Nat}
  {c t : ConnCtx}

theorem Books.mem_allSlots (h : Books conf ok n width c) {p : Slot}
    (hp : p.2 < width p.1) : p ∈ allSlots :=
  UiServer.mem_allSlots.2 ⟨Nat.lt_of_lt_of_le (h.width_lt p.1 p.2 hp) h.n_le,
    Nat.lt_of_lt_of_le hp (h.width_le p.1)⟩

/-- Slot `p` is changed by `f`, its group's `sock_num` and `connecting` by `ds`
and `dc`, and `need_close` by `dn`; nothing else that the books are about. -/
structure Moves (p : Slot) (f : UpstreamConnect → UpstreamConnect) (dn ds dc : Int)
    (c t : ConnCtx) : Prop where
  only : OnlySlot p c t
  slot : t.slot p.1 p.2 = f (c.slot p.1 p.2)
  realNum : ∀ g, (t.group g).realNum = (c.group g).realNum
  sockNum : ∀ g, (t.group g).sockNum = (c.group g).sockNum + if g = p.1 then ds else 0
  connecting : ∀ g, (t.group g).connecting =
    (c.group g).connecting + if g = p.1 then dc else 0
  needClose : t.needClose = c.needClose + dn
  frees : t.frees = c.frees

/-- The books are right after a slot went from mode `m` to mode `k` when each
counter follows. -/
theorem Books.post (h : Books conf ok n width c) {p : Slot} {m k : SlotMode}
    {f : UpstreamConnect → UpstreamConnect} {dn ds dc : Int}
    (hp : p.2 < width p.1) (hok : ok k) (hm : Moves p f dn ds dc c t)
    (hbefore : c.slot p.1 p.2 = m.upstream p.1 p.2)
    (hafter : f (m.upstream p.1 p.2) = k.upstream p.1 p.2)
    (hdn : (m.upstream p.1 p.2).counted + dn = (k.upstream p.1 p.2).counted)
    (hds : (m.upstream p.1 p.2).connected + ds = (k.upstream p.1 p.2).connected)
    (hdc : (m.upstream p.1 p.2).pending + dc = (k.upstream p.1 p.2).pending) :
    Books conf ok n width t := by
  have hslot : t.slot p.1 p.2 = k.upstream p.1 p.2 := by
    rw [hm.slot, hbefore, hafter]
  have hdue := hm.only.due (h.mem_allSlots hp)
  have hrow := fun w => hm.only.row w hp
  simp only [ConnCtx.slotAt] at hdue hrow
  simp only [hbefore, hslot] at hdue hrow
  refine ⟨h.width_le, h.width_lt, h.n_le, fun g s hs => ?_, fun g s hs => ?_,
    fun g hg => ?_, fun g hg => ?_, fun g hg => ?_, ?_, ?_, ?_⟩
  · by_cases he : (g, s) = p
    · subst he
      exact ⟨k, hok, hslot⟩
    · rw [hm.only.slots (g, s) he]
      exact h.slots g s hs
  · have hne : (g, s) ≠ p := fun he => hs (by rw [← he] at hp; exact hp)
    rw [hm.only.slots (g, s) hne]
    exact h.outside g s hs
  · rw [hm.realNum, h.realNum g hg]
  · have hr := hrow UpstreamConnect.connected
    rw [hm.sockNum, h.sockNum g hg]
    by_cases he : g = p.1
    · subst he
      rw [if_pos rfl]
      omega
    · rw [if_neg he, hm.only.row_ne _ he, Int.add_zero]
  · have hr := hrow UpstreamConnect.pending
    rw [hm.connecting, h.connecting g hg]
    by_cases he : g = p.1
    · subst he
      rw [if_pos rfl]
      omega
    · rw [if_neg he, hm.only.row_ne _ he, Int.add_zero]
  · rw [hm.needClose, h.needClose]
    omega
  · rw [hm.only.client, h.client]
  · rw [hm.frees, h.frees]

/-- What leaves the books alone. -/
structure Aside (c t : ConnCtx) : Prop where
  gs : t.gs = c.gs
  client : t.client.handle = c.client.handle
  needClose : t.needClose = c.needClose
  frees : t.frees = c.frees

theorem Aside.group (h : Aside c t) : t.group = c.group := by
  unfold ConnCtx.group
  rw [h.gs]

theorem Aside.slot (h : Aside c t) : t.slot = c.slot := by
  funext g
  unfold ConnCtx.slot
  rw [h.group]

theorem Aside.due (h : Aside c t) : t.due = c.due := by
  unfold ConnCtx.due ConnCtx.slotAt
  rw [h.client, h.slot]

theorem Books.mono {ok' : SlotMode → Prop} (h : Books conf ok n width c)
    (hok : ∀ m, ok m → ok' m) : Books conf ok' n width c := by
  refine ⟨h.width_le, h.width_lt, h.n_le, fun g s hs => ?_, h.outside, h.realNum,
    h.sockNum, h.connecting, h.needClose, h.client, h.frees⟩
  obtain ⟨m, hm, hslot⟩ := h.slots g s hs
  exact ⟨m, hok m hm, hslot⟩

theorem Books.aside (h : Books conf ok n width c) (ha : Aside c t) :
    Books conf ok n width t := by
  have hrow : ∀ w g k, t.row w g k = c.row w g k := by
    intro w g k
    simp only [ConnCtx.row]
    rw [ha.slot]
  refine ⟨h.width_le, h.width_lt, h.n_le, fun g s hs => ?_, fun g s hs => ?_,
    fun g hg => ?_, fun g hg => ?_, fun g hg => ?_, ?_, ?_, ?_⟩
  · rw [ha.slot]
    exact h.slots g s hs
  · rw [ha.slot]
    exact h.outside g s hs
  · rw [ha.group, h.realNum g hg]
  · rw [ha.group, hrow, h.sockNum g hg]
  · rw [ha.group, hrow, h.connecting g hg]
  · rw [ha.needClose, ha.due, h.needClose]
  · rw [ha.client, h.client]
  · rw [ha.frees, h.frees]

end

/-! ## The slot an event finds

An event names a slot by something that is true of it: its connect or its write is
in flight, it is being read, it is being closed. Each of these holds in one mode
only, so the event says which mode the slot is in, and that it is one of those
that were connected. -/

/-- A flag that no unused slot has and only mode `m` sets gives the mode
away. -/
theorem Books.find {conf : Conf} {ok : SlotMode → Prop} {n : Nat} {width : Nat → Nat}
    {c : ConnCtx} {g s : Nat} {m : SlotMode} (h : Books conf ok n width c)
    (P : UpstreamConnect → Prop) (hP : P (c.slot g s))
    (hunused : ∀ up : UpstreamConnect, up.Unused → ¬ P up)
    (hmode : ∀ m' : SlotMode, P (m'.upstream g s) → m' = m) :
    s < width g ∧ ok m ∧ c.slot g s = m.upstream g s := by
  by_cases hs : s < width g
  · obtain ⟨m', hok, hslot⟩ := h.slots g s hs
    rw [hslot] at hP
    obtain rfl := hmode m' hP
    exact ⟨hs, hok, hslot⟩
  · exact absurd hP (hunused _ (h.outside g s hs))

section

variable {conf : Conf} {errs : Prop} {c : ConnCtx} {g s : Nat}

theorem Books.find_connect (h : OpenBooks conf errs c)
    (hc : (c.slot g s).connect = true) :
    s < conf.width g ∧ c.slot g s = SlotMode.connecting.upstream g s := by
  obtain ⟨hs, _, hslot⟩ := h.find (m := .connecting) (·.connect = true) hc
    (fun up hu hup => by rw [hu.connect] at hup; cases hup)
    (fun m' hm => of_decide_eq_true hm)
  exact ⟨hs, hslot⟩

theorem Books.find_write (h : OpenBooks conf errs c)
    (hc : (c.slot g s).write = true) :
    s < conf.width g ∧ c.slot g s = SlotMode.writing.upstream g s := by
  obtain ⟨hs, _, hslot⟩ := h.find (m := .writing) (·.write = true) hc
    (fun up hu hup => by rw [hu.write] at hup; cases hup)
    (fun m' hm => of_decide_eq_true hm)
  exact ⟨hs, hslot⟩

theorem Books.find_reading (h : OpenBooks conf errs c)
    (hc : (c.slot g s).tcp.reading = true) :
    s < conf.width g ∧ c.slot g s = SlotMode.awaiting.upstream g s := by
  obtain ⟨hs, _, hslot⟩ := h.find (m := .awaiting) (·.tcp.reading = true) hc
    (fun up hu hup => by rw [hu.tcp] at hup; cases hup)
    (fun m' hm => by cases m' <;> first | rfl | cases hm)
  exact ⟨hs, hslot⟩

theorem Books.find_closing {cb : CloseCb} (h : OpenBooks conf errs c)
    (hc : (c.slot g s).tcp.handle.phase = .closing cb) :
    s < conf.width g ∧ cb = .upstreamReconnectTcp ∧
      c.slot g s = SlotMode.closing.upstream g s := by
  obtain ⟨hs, _, hslot⟩ := h.find (m := .closing)
    (·.tcp.handle.phase = .closing cb) hc
    (fun up hu hup => by rw [hu.tcp] at hup; cases hup)
    (fun m' hm => by cases m' <;> first | rfl | cases hm)
  rw [hslot] at hc
  cases hc
  exact ⟨hs, rfl, hslot⟩

theorem Books.timer_not_closing {cb : CloseCb} (h : OpenBooks conf errs c) :
    (c.slot g s).timer.phase ≠ .closing cb := by
  intro hc
  by_cases hs : s < conf.width g
  · obtain ⟨m, _, hslot⟩ := h.slots g s hs
    rw [hslot] at hc
    cases hc
  · rw [(h.outside g s hs).timer] at hc
    cases hc

end

/-! ## What the steps of an event move

The callbacks are made of a few updates of the context. What each of them moves is
said here once, and `Moves.trans` adds up what two of them move one after the
other. -/

section

variable {p : Slot} {c d t : ConnCtx}

theorem onlySlot_of_slot (hs : t.slot = c.slot) (hr : t.request = c.request)
    (hc : t.client = c.client) : OnlySlot p c t :=
  ⟨fun q _ => by rw [hs], hr, hc⟩

theorem moves_modSlot (c : ConnCtx) (p : Slot) (f : UpstreamConnect → UpstreamConnect) :
    Moves p f 0 0 0 c (c.modSlot p.1 p.2 f) := by
  refine ⟨onlySlot_modSlot c p f, ConnCtx.slot_modSlot_same _ _ _ _, fun g => ?_,
    fun g => ?_, fun g => ?_, (Int.add_zero _).symm, rfl⟩ <;> simp

theorem moves_addSockNum (c : ConnCtx) (p : Slot) (d : Int) :
    Moves p id 0 d 0 c (c.addSockNum p.1 d) := by
  have hslot := ConnCtx.slot_addSockNum c p.1 d
  refine ⟨onlySlot_of_slot hslot rfl rfl, by rw [hslot]; rfl, fun g => ?_,
    fun g => ConnCtx.sockNum_addSockNum c p.1 g d, fun g => ?_,
    (Int.add_zero _).symm, rfl⟩ <;> simp

theorem moves_addConnecting (c : ConnCtx) (p : Slot) (d : Int) :
    Moves p id 0 0 d c (c.addConnecting p.1 d) := by
  have hslot := ConnCtx.slot_addConnecting c p.1 d
  refine ⟨onlySlot_of_slot hslot rfl rfl, by rw [hslot]; rfl, fun g => ?_,
    fun g => ?_, fun g => ConnCtx.connecting_addConnecting c p.1 g d,
    (Int.add_zero _).symm, rfl⟩ <;> simp

theorem moves_setLru (c : ConnCtx) (p : Slot) (i : Nat) :
    Moves p id 0 0 0 c (c.setLru p.1 i) := by
  have hslot := ConnCtx.slot_setLru c p.1 i
  refine ⟨onlySlot_of_slot hslot rfl rfl, by rw [hslot]; rfl, fun g => ?_,
    fun g => ?_, fun g => ?_, (Int.add_zero _).symm, rfl⟩ <;> simp

theorem moves_addNeedClose (c : ConnCtx) (p : Slot) (d : Int) :
    Moves p id d 0 0 c (c.addNeedClose d) := by
  refine ⟨onlySlot_of_slot rfl rfl rfl, rfl, fun g => rfl, fun g => ?_, fun g => ?_,
    rfl, rfl⟩ <;> simp

/-- A step that only has to do with the reply, the worker or the client's
writes. -/
theorem moves_none (hg : t.gs.group = c.gs.group) (hr : t.request = c.request)
    (hc : t.client = c.client) (hn : t.needClose = c.needClose)
    (hf : t.frees = c.frees) : Moves p id 0 0 0 c t := by
  have hgroup : ∀ g, t.group g = c.group g := fun g => by
    simp only [ConnCtx.group]
    rw [hg]
  have hslot : t.slot = c.slot := by
    funext g s
    simp only [ConnCtx.slot]
    rw [hgroup]
  refine ⟨onlySlot_of_slot hslot hr hc, by rw [hslot]; rfl, fun g => by rw [hgroup],
    fun g => by rw [hgroup]; simp, fun g => by rw [hgroup]; simp, ?_, hf⟩
  rw [hn, Int.add_zero]

theorem Moves.trans {f f' : UpstreamConnect → UpstreamConnect}
    {dn dn' ds ds' dc dc' : Int} (h : Moves p f dn ds dc c d)
    (h' : Moves p f' dn' ds' dc' d t) :
    Moves p (fun up => f' (f up)) (dn + dn') (ds + ds') (dc + dc') c t := by
  refine ⟨h.only.trans h'.only, by rw [h'.slot, h.slot],
    fun g => (h'.realNum g).trans (h.realNum g), fun g => ?_, fun g => ?_, ?_,
    h'.frees.trans h.frees⟩
  · rw [h'.sockNum, h.sockNum]
    split <;> omega
  · rw [h'.connecting, h.connecting]
    split <;> omega
  · rw [h'.needClose, h.needClose, Int.add_assoc]

theorem Moves.of_eq {f f' : UpstreamConnect → UpstreamConnect}
    {dn dn' ds ds' dc dc' : Int} (h : Moves p f dn ds dc c t) (hf : f = f')
    (hn : dn = dn') (hs : ds = ds') (hc : dc = dc') : Moves p f' dn' ds' dc' c t := by
  subst hf hn hs hc
  exact h

end

/-! ## What the functions of the server move

Put together from the updates, in the order of the source. The numbers in the
statements are what a reader of the source would count by hand: an error takes one
from `need_close` and one from `sock_num`, a connect that is started adds two
handles. -/

theorem moves_upstreamServerErr {c : ConnCtx} {p : Slot}
    (h : (c.slot p.1 p.2).groupIdx = p.1) :
    Moves p .fail (-1) (-1) 0 c (upstreamServerErr c p.1 p.2) := by
  have hidx : ((c.setStatus p.1 p.2 .close).slot p.1 p.2).groupIdx = p.1 := by
    rw [ConnCtx.setStatus, ConnCtx.slot_modSlot_same]
    exact h
  rw [upstreamServerErr]
  simp only [hidx]
  exact (((moves_modSlot c p fun up => { up with status := .close }).trans
    (moves_addSockNum _ p (-1))).trans (moves_addNeedClose _ p (-1))).trans
    (moves_modSlot _ p fun up => { up with tcp := up.tcp.close .upstreamReconnectTcp })

def UpstreamConnect.answered (status : Int) (up : UpstreamConnect) : UpstreamConnect :=
  { up with connect := false, status := if status = 0 then .idle else .waitReconnect }

theorem moves_upstreamConnectCb (c : ConnCtx) (p : Slot) (status : Int) :
    Moves p (.answered status) 0 (if status = 0 then 1 else 0) (-1) c
      (upstreamConnectCb (c.modSlot p.1 p.2 fun up => { up with connect := false })
        p.1 p.2 status) := by
  have hbegin := (moves_modSlot c p fun up => { up with connect := false }).trans
    (moves_addConnecting _ p (-1))
  rw [upstreamConnectCb]
  by_cases hst : status = 0
  · subst hst
    exact ((hbegin.trans (moves_modSlot _ p fun up =>
      { up with status := .idle })).trans (moves_addSockNum _ p 1)).of_eq rfl rfl rfl rfl
  · rw [if_neg hst, if_pos hst]
    refine ((hbegin.trans (moves_modSlot _ p fun up =>
      { up with status := .connectFail })).trans (moves_modSlot _ p fun up =>
      { up with status := .waitReconnect })).of_eq ?_ rfl rfl rfl
    unfold UpstreamConnect.answered
    simp only [if_neg hst]
    rfl

/-- The slot as `upstream_connect_group_server` leaves it. -/
def UpstreamConnect.connectTo (rv : Int) (p : Slot) (up : UpstreamConnect) :
    UpstreamConnect :=
  { up with
    connect := if rv = 0 then true else up.connect
    tcp := .init
    timer := .init
    status := if rv = 0 then .connecting else .waitReconnect
    groupIdx := p.1
    serverIdx := p.2 }

theorem moves_upstreamConnectGroupServer (c : ConnCtx) (p : Slot) (rv : Int) :
    Moves p (.connectTo rv p) 2 0 (if rv = 0 then 1 else 0) c
      (upstreamConnectGroupServer c p.1 p.2 rv) := by
  have hinit := (((moves_modSlot c p fun up =>
    { up with status := .connectInit, groupIdx := p.1, serverIdx := p.2 }).trans
    (moves_modSlot _ p fun up => { up with timer := .init })).trans
    (moves_addNeedClose _ p 1)).trans
    ((moves_modSlot _ p fun up => { up with tcp := .init }).trans
      (moves_addNeedClose _ p 1))
  have hstart : ∀ d : ConnCtx, Moves p (fun up => { up with status := .connecting })
      0 0 1 d ((d.setStatus p.1 p.2 .connecting).addConnecting p.1 1) := fun d =>
    (moves_modSlot d p fun up => { up with status := .connecting }).trans
      (moves_addConnecting _ p 1)
  rw [upstreamConnectGroupServer, ConnCtx.uvTcpConnect]
  by_cases hrv : rv = 0
  · subst hrv
    exact hinit.trans ((moves_modSlot _ p fun up => { up with connect := true }).trans
      (hstart _))
  · have hfail : ∀ d : ConnCtx, Moves p (fun up => { up with status := .waitReconnect })
        0 0 (-1) d (((d.setStatus p.1 p.2 .connectFail).addConnecting p.1
          (-1)).setStatus p.1 p.2 .waitReconnect) := fun d =>
      (((moves_modSlot d p fun up => { up with status := .connectFail }).trans
        (moves_addConnecting _ p (-1))).trans
        (moves_modSlot _ p fun up => { up with status := .waitReconnect })).of_eq
        rfl rfl rfl rfl
    have hall := hinit.trans ((hstart _).trans (hfail _))
    have hf : UpstreamConnect.connectTo rv p = fun up => { up with
        tcp := .init, timer := .init, status := .waitReconnect, groupIdx := p.1,
        serverIdx := p.2 } := by
      unfold UpstreamConnect.connectTo
      simp only [if_neg hrv]
    simp only [if_neg hrv, ne_eq, if_pos hrv]
    rw [hf]
    exact hall

theorem moves_endRead (c : ConnCtx) (p : Slot) :
    Moves p .endRead 0 0 0 c ((c.modSlot p.1 p.2 fun up =>
      { up with tcp := up.tcp.readStop }).setStatus p.1 p.2 .idle) :=
  (moves_modSlot c p fun up => { up with tcp := up.tcp.readStop }).trans
    (moves_modSlot _ p fun up => { up with status := .idle })

theorem moves_onGotUpstreamResponse (c : ConnCtx) (p : Slot) {nread : Int}
    (h : 0 < nread) (base : Nat) :
    Moves p .endRead 0 0 0 c (onGotUpstreamResponse c p.1 p.2 nread base) := by
  have hcount : Moves p id 0 0 0 c (c.addResponseCount 1) :=
    moves_none rfl rfl rfl rfl rfl
  have hread := hcount.trans (moves_endRead _ p)
  have hrest : ∀ {t : ConnCtx}, Moves p id 0 0 0 (((c.addResponseCount 1).modSlot
      p.1 p.2 fun up => { up with tcp := up.tcp.readStop }).setStatus p.1 p.2 .idle) t →
      Moves p .endRead 0 0 0 c t := fun ht => hread.trans ht
  rw [onGotUpstreamResponse]
  simp only []
  rw [if_neg (by omega), if_neg (by omega)]
  split
  · rw [ConnCtx.uvWriteClient]
    split
    · exact hrest (moves_none rfl rfl rfl rfl rfl)
    · exact hrest (moves_none rfl rfl rfl rfl rfl)
  · split
    · exact hrest (moves_none rfl rfl rfl rfl rfl)
    · exact hrest (moves_none rfl rfl rfl rfl rfl)

theorem moves_readUpstream (c : ConnCtx) (p : Slot) {bs : CMem.Bytes} (h : bs ≠ []) :
    Moves p .endRead 0 0 0 c (readUpstream c p.1 p.2 bs) := by
  have hlen : (0 : Int) < bs.length := Int.natCast_pos.2 (List.length_pos_iff.2 h)
  have hstart : ∀ r : UpstreamResponse, Moves p id 0 0 0 c
      { c with upstreamResponse := r } := fun r => moves_none rfl rfl rfl rfl rfl
  exact (hstart _).trans (moves_onGotUpstreamResponse _ p hlen _)

end UiServer
