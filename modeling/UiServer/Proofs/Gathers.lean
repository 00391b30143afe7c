import UiServer.Lib.Gather
import UiServer.Proofs.Served

/-!
# The connection as a coordinator

What a connection is for is told by the protocol of a coordinator: put a request to the
servers that are free, gather what they answer, and have one response made when none of
them is at work any more. A connection keeps to it as long as no reply is read at a
moment when it looks like the last one and is not, since a server is still being written
to: then each of its runs is a run of the protocol (`gathers_of_run`). So a client gets no
more responses than it sent requests (`responses_le_requests`); and when it sends the next
one only after the response has been sent, neither the worker nor the write to the client
is ever used twice at once (`used_once`).
-/

namespace UiServer

open CMem

/-! ## What a connection looks like to the protocol

The protocol knows four states of a server, and the six modes of a slot fall into
them. Of the events it sees a request, a report, an answer and what becomes of a
response; most callbacks are a change of one server to it, and some are nothing at
all. -/

def UpstreamConnect.peer (up : UpstreamConnect) : Gather.Peer :=
  if up.write then .told
  else if up.tcp.reading then .owing
  else if up.tcp.handle.isOpen ∧ up.status = .idle then .free
  else .away

def SlotMode.peer : SlotMode → Gather.Peer
  | .connecting | .waiting | .closing => .away
  | .idle => .free
  | .writing => .told
  | .awaiting => .owing

@[simp] theorem SlotMode.peer_upstream (m : SlotMode) (g s : Nat) :
    (m.upstream g s).peer = m.peer := by cases m <;> rfl

theorem UpstreamConnect.busy_peer (up : UpstreamConnect) : up.peer.busy = up.busy := by
  simp only [UpstreamConnect.peer, UpstreamConnect.busy]
  cases up.write
  · cases up.tcp.reading
    · simp only [Bool.false_eq_true, if_false]
      split <;> rfl
    · rfl
  · rfl

def ConnCtx.peers (c : ConnCtx) (p : Slot) : Gather.Peer := (c.slotAt p).peer

def ConnCtx.gatherer (c : ConnCtx) : Gather.Gatherer Slot UpstreamResponse where
  wanted := c.idler.active
  peer := c.peers
  gathered := c.upstreamResponse
  jobs := c.worker.queued
  made := c.worker.ran
  sending := c.write

/-- What `on_request` does to the merged reply. -/
def UpstreamResponse.reset (r : UpstreamResponse) : UpstreamResponse :=
  { r with head := .zero, len := 0 }

/-- What the protocol sees of an event. -/
def Event.act : Event → Option (Gather.Act Slot Bytes)
  | .onRequest (.data _) => some .request
  | .onGotUpstreamResponse g s (.data bs) => some (.answer (g, s) bs)
  | .handleRequest => some .work
  | .sendResponse _ => some .report
  | .responseSendCb _ => some .sent
  | _ => none

/-- A reply is read only when no server is being written to, or when another reply is
awaited. -/
def RepliesInOrder (c : ConnCtx) : Event → Prop
  | .onGotUpstreamResponse g s (.data _) => (∀ p ∈ allSlots, (c.slotAt p).write = false) ∨
      ∃ p ∈ allSlots, p ≠ (g, s) ∧ (c.slotAt p).tcp.reading = true
  | _ => True

instance decidableRepliesInOrder (c : ConnCtx) : (e : Event) → Decidable (RepliesInOrder c e)
  | .onGotUpstreamResponse _ _ (.data _) => inferInstanceAs (Decidable (_ ∨ _))
  | .onGotUpstreamResponse _ _ .error | .onGotUpstreamResponse _ _ .again
  | .onRequest _ | .doDistribute _ | .upstreamConnectCb _ _ _ | .distributeUpstreamCb _ _ _
  | .upstreamTcpClosed _ _ _ | .upstreamTimerClosed _ _ | .clientClosed | .handleRequest
  | .sendResponse _ | .responseSendCb _ => .isTrue trivial

section

variable {conf : Conf} {k : Int} {c t : ConnCtx} {e : Event}

theorem gatherer_eq {peers : Slot → Gather.Peer} (hwork : SameWork c t)
    (hidler : t.idler = c.idler) (hmerged : t.upstreamResponse = c.upstreamResponse)
    (hpeers : t.peers = peers) : t.gatherer = { c.gatherer with peer := peers } := by
  rw [ConnCtx.gatherer, ConnCtx.gatherer, hwork.worker, hwork.write, hidler, hmerged, hpeers]

theorem Moves.peers {p : Slot} {f : UpstreamConnect → UpstreamConnect} {dn ds dc : Int}
    (h : Moves p f dn ds dc c t) {m : SlotMode} (hslot : c.slot p.1 p.2 = m.upstream p.1 p.2) :
    t.peers = Function.update c.peers p (f (m.upstream p.1 p.2)).peer := by
  funext q
  by_cases hq : q = p
  · subst hq
    rw [Function.update_self, ← hslot, ← h.slot]
    rfl
  · rw [Function.update_of_ne hq]
    exact congrArg UpstreamConnect.peer (h.only.slots q hq)

theorem peers_of_mode {p : Slot} {m : SlotMode} (hslot : c.slot p.1 p.2 = m.upstream p.1 p.2) :
    c.peers p = m.peer := by
  rw [ConnCtx.peers, ConnCtx.slotAt, hslot, SlotMode.peer_upstream]

/-! ## A request is put to the servers

Distributing a request takes some idle servers to asked ones and may lose others,
which is all that the protocol asks of it. Which ones they are is the code's
affair. -/

theorem peers_distributeRequestGroup {errs : Prop} {g : Nat} (h : OpenBooks conf errs c)
    (hg : g < conf.sgNum) (rv : Int) (p : Slot) :
    (c.peers p).Asked ((distributeRequestGroup c g rv).1.peers p) := by
  rw [distributeRequestGroup]
  split
  · next i hi =>
      obtain ⟨hlt, hslot⟩ := h.pick hg hi
      have hlru := moves_setLru c (g, i) i
      have hidle : ((c.setLru g i).slot g i) = SlotMode.idle.upstream g i := by
        rw [ConnCtx.slot_setLru, hslot]
      have ho : ((c.setLru g i).slot g i).tcp.handle.isOpen = true := by
        rw [hidle]
        rfl
      have hasked : ∀ {t : ConnCtx} {k : Gather.Peer},
          t.peers = Function.update c.peers (g, i) k → k = .told ∨ k = .away →
          (c.peers p).Asked (t.peers p) := by
        intro t k hpeers hk
        rw [hpeers]
        by_cases hp : p = (g, i)
        · subst hp
          rw [Function.update_self]
          exact .inr ⟨@peers_of_mode c (g, i) .idle hslot, hk⟩
        · rw [Function.update_of_ne hp]
          exact .inl rfl
      by_cases hrv : rv = 0
      · subst hrv
        rw [distributeRequestUpstream_ok ho]
        exact hasked ((hlru.trans (moves_modSlot _ (g, i) .sendRequest)).peers hslot) (.inl rfl)
      · rw [distributeRequestUpstream_err ho hrv]
        have hstat := moves_modSlot (c.setLru g i) (g, i) fun up =>
          { up with status := .connectFail }
        have hidx : (((c.setLru g i).setStatus g i .connectFail).slot g i).groupIdx = g := by
          rw [ConnCtx.setStatus, ConnCtx.slot_modSlot_same, hidle]
          rfl
        exact hasked (((hlru.trans hstat).trans (moves_upstreamServerErr hidx)).peers hslot)
          (.inr rfl)
  · exact .inl rfl

theorem peers_distributeRequest (h : OpenBooks conf True c) (rvs : Nat → Int) (p : Slot) :
    (c.peers p).Asked ((distributeRequest conf c rvs).1.peers p) := by
  have hpart : ∀ n, n ≤ conf.sgNum →
      (c.peers p).Asked ((distributeRequestGroups c rvs n).1.peers p) := by
    intro n
    induction n with
    | zero => exact fun _ => .inl rfl
    | succ n ih =>
        intro hn
        have hbooks := (Books.distributeRequestGroups h rvs (fun _ _ _ _ => trivial)
          (Nat.le_of_succ_le hn)).1
        have hlast := peers_distributeRequestGroup hbooks hn (rvs n) p
        exact (ih (Nat.le_of_succ_le hn)).trans hlast
  exact hpart conf.sgNum (Nat.le_refl _)

/-! ## The last reply

The protocol says of an answer whether it is the last one, the code compares two
counts. The counts say whether another reply is awaited, and that is the same as
long as no server is still being written to; this is what the order of the replies
is for. -/

/-- The counts tell whether another reply is awaited. -/
theorem InSession.pending_le_one (h : InSession conf 0 c) {p : Slot}
    (hread : (c.slotAt p).tcp.reading = true) :
    c.pending ≤ 1 ↔ ∀ q, q ≠ p → (c.slotAt q).tcp.reading = false := by
  have hin : ∀ {q : Slot}, (c.slotAt q).tcp.reading = true → q ∈ allSlots := fun hq =>
    Conf.mem_allSlots (h.books.find_reading hq).1
  have hsum : c.awaits = 1 + ∑ q ∈ allSlots.erase p, (c.slotAt q).awaits := by
    have hone : (c.slotAt p).awaits = 1 := by rw [UpstreamConnect.awaits, hread]; rfl
    rw [← hone]
    exact (Finset.add_sum_erase allSlots (fun q => (c.slotAt q).awaits) (hin hread)).symm
  have hcounts := h.counts
  constructor
  · intro hle q hq
    by_contra hreading
    rw [Bool.not_eq_false] at hreading
    have hmem := Finset.mem_erase.2 ⟨hq, hin hreading⟩
    have hpos := Finset.single_le_sum (f := fun q => (c.slotAt q).awaits)
      (fun _ _ => Nat.zero_le _) hmem
    have hone : (c.slotAt q).awaits = 1 := by rw [UpstreamConnect.awaits, hreading]; rfl
    simp only [hone] at hpos
    omega
  · intro hnone
    have hzero : ∑ q ∈ allSlots.erase p, (c.slotAt q).awaits = 0 := by
      refine Finset.sum_eq_zero fun q hq => ?_
      rw [UpstreamConnect.awaits, hnone q (Finset.ne_of_mem_erase hq)]
      rfl
    omega

theorem InSession.last_iff (h : InSession conf 0 c) {g s : Nat} {bs : Bytes}
    (hread : (c.slot g s).tcp.reading = true)
    (horder : RepliesInOrder c (.onGotUpstreamResponse g s (.data bs))) :
    c.gs.distributeCount ≤ c.gs.responseCount + 1 ↔ c.gatherer.Last (g, s) := by
  have hpending : c.gs.distributeCount ≤ c.gs.responseCount + 1 ↔ c.pending ≤ 1 := by
    rw [ConnCtx.pending]
    omega
  rw [hpending, h.pending_le_one (p := (g, s)) hread]
  have hbusy : ∀ q, (c.gatherer.peer q).busy = (c.slotAt q).busy := fun q =>
    UpstreamConnect.busy_peer _
  constructor
  · intro hnone q hq
    rw [hbusy, UpstreamConnect.busy, hnone q hq, Bool.or_false]
    rcases horder with hwritten | ⟨p, -, hother, hreading⟩
    · by_contra hwrite
      rw [Bool.not_eq_false] at hwrite
      have hin := Conf.mem_allSlots (h.books.find_write hwrite).1
      rw [hwritten q hin] at hwrite
      cases hwrite
    · rw [hnone p hother] at hreading
      cases hreading
  · intro hlast q hq
    have hidle := hlast q hq
    rw [hbusy] at hidle
    exact (Bool.or_eq_false_iff.1 hidle).2

/-! ## One step

The refinement: each callback that leaves the connection open is a step of the
protocol with the label of its event, or leaves the picture as it is. -/

abbrev GatherStep := Gather.Step (σ := Slot) mergeRead UpstreamResponse.reset

/-- The callbacks of one slot that bring no reply. -/
def Event.ofSlot : Event → Bool
  | .upstreamConnectCb _ _ _ | .distributeUpstreamCb _ _ _ | .upstreamTcpClosed _ _ _ => true
  | .onGotUpstreamResponse _ _ .error => true
  | _ => false

theorem Callback.idler (h : Callback conf c e t) (he : e.ofSlot = true) :
    t.idler = c.idler := by
  have hkept : ∀ {d : ConnCtx}, UpstreamsOnly c d → d.idler = c.idler := by
    rintro d ⟨gs, n, rfl⟩
    rfl
  have hslot : ∀ (g s : Nat) (f : UpstreamConnect → UpstreamConnect),
      GroupsOnly c (c.modSlot g s f) := fun _ _ _ => (GroupsOnly.refl c).modSlot
  cases h with
  | connected =>
      exact hkept ((hslot _ _ _).trans (groupsOnly_upstreamConnectCb _ _ _ _)).upstreamsOnly
  | written =>
      exact hkept ((hslot _ _ _).upstreamsOnly.trans (upstreamsOnly_distributeUpstreamCb _ _ _ _))
  | replyFailed => exact hkept (upstreamsOnly_readError c _ _)
  | tcpClosed => exact (runCloseCb_rest (c.modSlot _ _ _) _ _ _ _).2
  | _ => cases he

/-- A callback of one slot, seen as a change of that server. -/
theorem Callback.gatherer (h : Callback conf c e t) (he : e.ofSlot = true) {p : Slot}
    {f : UpstreamConnect → UpstreamConnect} {dn ds dc : Int} (hmoves : Moves p f dn ds dc c t)
    {m : SlotMode} (hmode : c.slot p.1 p.2 = m.upstream p.1 p.2) {n : Gather.Peer}
    (hpeer : (f (m.upstream p.1 p.2)).peer = n) : t.gatherer = c.gatherer.set p n := by
  have hkind : e.works = false ∧ e.serves = false := by
    cases e with
    | onGotUpstreamResponse g s r => cases r <;> first | exact ⟨rfl, rfl⟩ | cases he
    | upstreamConnectCb | distributeUpstreamCb | upstreamTcpClosed => exact ⟨rfl, rfl⟩
    | _ => cases he
  have hpeers := hmoves.peers hmode
  rw [hpeer] at hpeers
  exact gatherer_eq (h.sameWork hkind.1) (h.idler he) (h.untouched hkind.2).merged hpeers

/-- A server that comes back is not there yet. -/
theorem peer_reconnect (g s : Nat) (rv : Int) :
    (UpstreamConnect.connectTo rv (g, s) { SlotMode.closing.upstream g s with
      tcp := (SlotMode.closing.upstream g s).tcp.finish }).peer = .away := by
  rw [UpstreamConnect.connectTo]
  by_cases hrv : rv = 0
  · simp only [if_pos hrv]
    rfl
  · simp only [if_neg hrv]
    rfl

/-- A reply is an answer, and the last one when the counts say so. -/
theorem InSession.gathers_reply (h : InSession conf 0 c) {g s : Nat} {bs : Bytes}
    (hread : (c.slot g s).tcp.reading = true) (hbs : bs ≠ [])
    (horder : RepliesInOrder c (.onGotUpstreamResponse g s (.data bs))) :
    Lts.Trace GatherStep c.gatherer [.answer (g, s) bs] (readUpstream c g s bs).gatherer := by
  obtain ⟨-, hmode⟩ := h.books.find_reading hread
  have howing : c.gatherer.peer (g, s) = .owing := peers_of_mode (p := (g, s)) hmode
  have hpeers : (readUpstream c g s bs).peers = Function.update c.peers (g, s) .free :=
    (moves_readUpstream c (g, s) hbs).peers hmode
  have hlast := h.last_iff hread horder
  have heq := readUpstream_eq (g := g) (s := s) hbs (h.needMerge hread)
  by_cases hcount : c.gs.distributeCount ≤ c.gs.responseCount + 1
  · have ht : (readUpstream c g s bs).gatherer = { c.gatherer.set (g, s) .free with
        gathered := mergeRead c.upstreamResponse bs, jobs := c.worker.queued + 1 } := by
      rw [ConnCtx.gatherer, hpeers, heq, if_pos hcount]
      rfl
    rw [ht]
    exact Lts.Trace.single (Gather.Step.lastAnswer _ (g, s) bs howing (hlast.1 hcount))
  · have ht : (readUpstream c g s bs).gatherer = { c.gatherer.set (g, s) .free with
        gathered := mergeRead c.upstreamResponse bs } := by
      rw [ConnCtx.gatherer, hpeers, heq, if_neg hcount]
      rfl
    rw [ht]
    exact Lts.Trace.single (Gather.Step.answer _ (g, s) bs howing fun hl => hcount (hlast.2 hl))

/-- A connection that stays open takes a step of the protocol, or none. -/
theorem InSession.gathers (h : InSession conf 0 c) (hs : Callback conf c e t)
    (hopen : t.client.handle.isOpen = true) (horder : RepliesInOrder c e) :
    Lts.Trace GatherStep c.gatherer e.act.toList t.gatherer := by
  have hclose : ∀ d : ConnCtx, ¬ (contextClose conf d).client.handle.isOpen = true := by
    intro d
    rw [client_contextClose]
    exact Bool.false_ne_true
  have hset := hs.gatherer
  have hsame : ∀ {d : ConnCtx}, d.gatherer = c.gatherer →
      Lts.Trace GatherStep c.gatherer [] d.gatherer := fun hd => hd ▸ .refl _
  cases hs with
  | readFailed => exact absurd hopen (hclose c)
  | refused => exact absurd hopen (hclose _)
  | unserved => exact absurd hopen (hclose _)
  | readAgain | replyAgain => exact .refl _
  | taken => exact .single (.request c.gatherer)
  | waits hactive =>
      refine hsame ?_
      rw [ConnCtx.gatherer, ConnCtx.gatherer, hactive]
      rfl
  | @distributed rvs hactive =>
      have hstopped : OpenBooks conf True c.idleStopped := h.books.aside ⟨rfl, rfl, rfl, rfl⟩
      obtain ⟨gs, n, heq⟩ := groupsOnly_distributeRequest conf c.idleStopped rvs
      have hask : GatherStep c.gatherer none { c.gatherer with
          wanted := false, peer := (distributeRequest conf c.idleStopped rvs).1.peers } :=
        .ask _ _ hactive (peers_distributeRequest hstopped rvs)
      have ht : (distributeRequest conf c.idleStopped rvs).1.gatherer = { c.gatherer with
          wanted := false, peer := (distributeRequest conf c.idleStopped rvs).1.peers } := by
        rw [ConnCtx.gatherer, heq]
        rfl
      rw [ht]
      exact .single hask
  | @connected g s status hc =>
      obtain ⟨-, hmode⟩ := h.books.find_connect hc
      have haway : c.gatherer.peer (g, s) = .away := peers_of_mode (p := (g, s)) hmode
      have hmoves := moves_upstreamConnectCb c (g, s) status
      by_cases hst : status = 0
      · subst hst
        rw [hset rfl hmoves hmode rfl]
        exact .single (.back _ _ haway)
      · have hpeer : (UpstreamConnect.answered status (SlotMode.connecting.upstream g s)).peer =
            .away := by
          rw [UpstreamConnect.answered, if_neg hst]
          rfl
        refine hsame ?_
        rw [hset rfl hmoves hmode hpeer]
        exact Gather.Gatherer.set_same haway
  | @written g s status hw =>
      obtain ⟨-, hmode⟩ := h.books.find_write hw
      have htold : c.gatherer.peer (g, s) = .told := peers_of_mode (p := (g, s)) hmode
      have hbegin := moves_modSlot c (g, s) fun up => { up with write := false }
      by_cases hst : status = 0
      · subst hst
        have hcount : ∀ d : ConnCtx, Moves (g, s) id 0 0 0 d (d.addDistributeCount 1) :=
          fun d => moves_none rfl rfl rfl rfl rfl
        have hread := (hbegin.trans (hcount _)).trans (moves_modSlot _ (g, s) fun up =>
          { up with tcp := up.tcp.readStart })
        rw [← distributeUpstreamCb_ok] at hread
        rw [hset rfl hread hmode rfl]
        exact .single (.told _ _ htold)
      · have hidx : ((c.modSlot g s fun up =>
            { up with write := false }).slot g s).groupIdx = g := by
          rw [ConnCtx.slot_modSlot_same, hmode]
          rfl
        have hlost := hbegin.trans (moves_upstreamServerErr (p := (g, s)) hidx)
        rw [← distributeUpstreamCb_err hst] at hlost
        rw [hset rfl hlost hmode rfl]
        exact .single (.lost _ _ (by rw [htold]; rfl))
  | @replyFailed g s _ hread =>
      obtain ⟨-, hmode⟩ := h.books.find_reading hread
      have howing : c.gatherer.peer (g, s) = .owing := peers_of_mode (p := (g, s)) hmode
      have hcount : Moves (g, s) id 0 0 0 c (c.addResponseCount 1) :=
        moves_none rfl rfl rfl rfl rfl
      have hidx : ((c.addResponseCount 1).slot g s).groupIdx = g := by
        show (c.slot g s).groupIdx = g
        rw [hmode]
        rfl
      have hlost := hcount.trans (moves_upstreamServerErr (p := (g, s)) hidx)
      rw [hset rfl hlost hmode rfl]
      exact .single (.lost _ _ (by rw [howing]; rfl))
  | @reply g s bs _ hread hbs => exact h.gathers_reply hread hbs horder
  | @tcpClosed g s rv cb hph =>
      obtain ⟨-, hmode, hmoves⟩ := Books.moves_reconnect h.books hph rv
      have haway : c.gatherer.peer (g, s) = .away := peers_of_mode (p := (g, s)) hmode
      refine hsame ?_
      rw [hset rfl hmoves hmode (peer_reconnect g s rv)]
      exact Gather.Gatherer.set_same haway
  | timerClosed hph => exact absurd hph (Books.timer_not_closing h.books)
  | clientClosed hph =>
      rw [h.books.client] at hph
      cases hph
  | handled hqueued =>
      obtain ⟨up, response, len, heq⟩ := workerHandler_eq conf c
      rw [handleRequest, heq]
      exact .single (.work c.gatherer hqueued)
  | @responded status hran =>
      rcases sendResponse_eq { c with worker := c.worker.report } status with heq | ⟨_, heq⟩
      · rw [heq]
        exact .single (.report c.gatherer 0 hran (Nat.zero_le 1))
      · rw [heq]
        exact .single (.report c.gatherer 1 hran (Nat.le_refl 1))
  | responseSent hpos => exact .single (.sent c.gatherer hpos)

/-! ## A run

The steps put one behind the other, from a new connection, which looks like a
coordinator that has asked nothing yet. -/

theorem InSession.gathers_run (h : InSession conf 0 c) {es : List Event}
    (hrun : Lts.run (UiServer.step conf) c es = some t)
    (horder : Lts.Steps (UiServer.step conf) RepliesInOrder c es) :
    t.client.handle.isOpen = false ∨ InSession conf 0 t ∧
      Lts.Trace GatherStep c.gatherer (es.filterMap Event.act) t.gatherer := by
  refine Lts.trace_of_run (I := InSession conf 0) (D := fun c => c.client.handle.isOpen = false)
    ConnCtx.gatherer Event.act (fun hD hs => ((callback_of_step hs).closed hD).1) ?_ h hrun horder
  intro c t e hI hP hs
  have hcb := callback_of_step hs
  rcases hI.callback hcb with ht | hclosed
  · exact .inr ⟨ht, hI.gathers hcb ht.open hP⟩
  · exact .inl hclosed

/-- A new connection is a coordinator that has asked nothing yet. -/
theorem gatherer_onNewConnection (conf : Conf) (m : ConnCtx) (rvs : Nat → Nat → Int)
    (accept : Int) (hopen : (onNewConnection conf m rvs accept).client.handle.isOpen = true) :
    (onNewConnection conf m rvs accept).gatherer = Gather.start m.upstreamResponse := by
  obtain ⟨hworker, hwrite, -⟩ := onNewConnection_rest conf m rvs accept
  have hmerged : (onNewConnection conf m rvs accept).upstreamResponse = m.upstreamResponse := by
    obtain ⟨gs, n, hall⟩ := groupsOnly_upstreamConnectAll conf
      ({ allocConnContext m with idler := {}, client := .init }.addNeedClose 1) rvs
    simp only [onNewConnection, hall]
    split
    · rfl
    · exact (untouched_contextClose conf _).merged
  obtain ⟨d, hd, hrest, heq | heq⟩ := onNewConnection_cases conf m rvs accept
  · have hidler : d.idler.active = false := by rw [hrest.idler]
    have hpeers : d.peers = fun _ => .away := by
      funext p
      by_cases hp : p.2 < conf.width p.1
      · obtain ⟨md, hm, hslot⟩ := hd.slots p.1 p.2 hp
        rw [peers_of_mode hslot]
        rcases hm with rfl | rfl <;> rfl
      · have hunused := hd.outside p.1 p.2 hp
        rw [ConnCtx.peers, UpstreamConnect.peer, ConnCtx.slotAt, hunused.write, hunused.tcp]
        rfl
    rw [heq] at hworker hwrite hmerged ⊢
    rw [ConnCtx.gatherer, hworker, hwrite, hmerged, hidler, hpeers]
    rfl
  · rw [heq, client_contextClose] at hopen
    cases hopen

theorem trace_of_onNewConnection {m : ConnCtx} (hm : m.pending = 0) {rvs : Nat → Nat → Int}
    {accept : Int} {es : List Event}
    (hrun : Lts.run (step conf) (onNewConnection conf m rvs accept) es = some c)
    (horder : Lts.Steps (step conf) RepliesInOrder (onNewConnection conf m rvs accept) es)
    (hopen : c.client.handle.isOpen = true) :
    Lts.Trace GatherStep (Gather.start m.upstreamResponse) (es.filterMap Event.act)
      c.gatherer := by
  have hnot : ¬ c.client.handle.isOpen = false := by
    rw [hopen]
    exact Bool.true_eq_false.mp
  have hstart := session_start conf m rvs accept
  rw [hm] at hstart
  rcases hstart with h | hclosed
  · obtain ⟨-, htrace⟩ := (h.gathers_run hrun horder).resolve_left hnot
    rwa [gatherer_onNewConnection conf m rvs accept h.open] at htrace
  · rw [isOpen_of_run hrun hopen] at hclosed
    cases hclosed

/-- The connection keeps to the protocol: where every reply that looks like the last one
is, a run of it is a run of the coordinator, from the one that has asked nothing yet to
what the connection looks like then. -/
theorem gathers_of_run {m : ConnCtx} (hm : m.pending = 0) {rvs : Nat → Nat → Int} {accept : Int}
    {es : List Event}
    (hinside : RunInside conf (onNewConnection conf m rvs accept) es c)
    (horder : Lts.Steps (step conf) RepliesInOrder (onNewConnection conf m rvs accept) es)
    (hopen : c.client.handle.isOpen = true) :
    Lts.Trace (Gather.Step mergeRead UpstreamResponse.reset) (Gather.start m.upstreamResponse)
      (es.filterMap Event.act) c.gatherer :=
  trace_of_onNewConnection hm hinside.run horder hopen

/-- Two requests, one after the other; the page of the second has just been made. -/
def secondMade : List Event :=
  twoRequests ++ [.distributeUpstreamCb 0 0 0, .distributeUpstreamCb 1 0 0,
    .onGotUpstreamResponse 0 0 (.data (plainReply 0)),
    .onGotUpstreamResponse 1 0 (.data (plainReply 0)), .handleRequest]

theorem secondMade_inOrder : Lts.Steps (step twoGroups) RepliesInOrder
    (onNewConnection twoGroups .zeroed (fun _ _ => 0) 0) secondMade :=
  Lts.steps_of_passes (p := fun c e => decide (RepliesInOrder c e)) of_decide_eq_true
    (by decide +kernel)

theorem secondMade_run : ∃ c, RunInside twoGroups
    (onNewConnection twoGroups .zeroed (fun _ _ => 0) 0) secondMade c ∧
      c.client.handle.isOpen = true ∧ c.worker.ran = 1 := by
  have hrun : ((Lts.run (step twoGroups)
      (onNewConnection twoGroups .zeroed (fun _ _ => 0) 0) secondMade).map fun c =>
        (c.client.handle.isOpen, c.worker.ran)) = some (true, 1) := by
    decide +kernel
  obtain ⟨c, hc, heq⟩ := Option.map_eq_some_iff.1 hrun
  obtain ⟨hopen, hran⟩ := Prod.mk.inj heq
  exact ⟨c, runInside_of_passes hc (by decide +kernel), hopen, hran⟩

theorem gathers_of_run_second :
    ∃ c, Lts.run (step twoGroups) (onNewConnection twoGroups .zeroed (fun _ _ => 0) 0)
        secondMade = some c ∧ c.gatherer.made = 1 ∧
      Lts.Trace (Gather.Step mergeRead UpstreamResponse.reset)
        (Gather.start ConnCtx.zeroed.upstreamResponse) (secondMade.filterMap Event.act)
        c.gatherer := by
  obtain ⟨c, hc, hopen, hran⟩ := secondMade_run
  exact ⟨c, hc.run, hran, gathers_of_run rfl hc secondMade_inOrder hopen⟩

/-! ## As many responses as requests

What is under way in a run of the protocol, with what was sent, is at most as much
as was requested (`Gather.underWay_le`). Counting the labels of the events carries
that over. -/

def Event.isRequest : Event → Bool
  | .onRequest (.data _) => true
  | _ => false

theorem countP_act {p : Gather.Act Slot Bytes → Bool} {q : Event → Bool}
    (h : ∀ e : Event, (e.act.map p).getD false = q e) (es : List Event) :
    (es.filterMap Event.act).countP p = es.countP q := by
  rw [List.countP_filterMap]
  exact List.countP_congr fun e _ => by rw [h]

theorem isRequest_act (e : Event) :
    (e.act.map Gather.Act.isRequest).getD false = e.isRequest := by
  cases e with
  | onRequest r => cases r <;> rfl
  | onGotUpstreamResponse g s r => cases r <;> rfl
  | _ => rfl

theorem isSent_act (e : Event) :
    (e.act.map Gather.Act.isSent).getD false = e.isWritten := by
  cases e with
  | onRequest r => cases r <;> rfl
  | onGotUpstreamResponse g s r => cases r <;> rfl
  | _ => rfl

/-- At any point of such a session there are no more responses, sent, being sent, made or
asked for, than reads of the client. -/
theorem responses_le_requests {m : ConnCtx} (hm : m.pending = 0) {rvs : Nat → Nat → Int}
    {accept : Int} {es : List Event}
    (hinside : RunInside conf (onNewConnection conf m rvs accept) es c)
    (horder : Lts.Steps (step conf) RepliesInOrder (onNewConnection conf m rvs accept) es)
    (hopen : c.client.handle.isOpen = true) :
    c.worker.queued + c.worker.ran + c.write + es.countP Event.isWritten ≤
      es.countP Event.isRequest := by
  have hle := Gather.underWay_le (trace_of_onNewConnection hm hinside.run horder hopen)
  rw [countP_act isRequest_act, countP_act isSent_act] at hle
  have hparts : c.worker.queued + c.worker.ran + c.write ≤ c.gatherer.underWay := by
    rw [Gather.Gatherer.underWay]
    show c.worker.queued + c.worker.ran + c.write ≤
      _ + _ + c.worker.queued + c.worker.ran + c.write
    omega
  omega

/-- The client has sent twice: one response is on its way and one was sent. -/
theorem responses_le_requests_second :
    ∃ c, Lts.run (step twoGroups) (onNewConnection twoGroups .zeroed (fun _ _ => 0) 0)
        secondMade = some c ∧ c.worker.ran = 1 ∧
      c.worker.queued + c.worker.ran + c.write + secondMade.countP Event.isWritten ≤ 2 := by
  obtain ⟨c, hc, hopen, hran⟩ := secondMade_run
  exact ⟨c, hc.run, hran, responses_le_requests rfl hc secondMade_inOrder hopen⟩

/-! ## Nothing is used twice at once

At most one thing is under way at a time when a request only comes while nothing
is: that is an invariant of the protocol. For the connection it means that the one
`uv_work_t` and the one `uv_write_t` it has are enough. -/

/-- The client sends when nothing is at work for it and nothing is being sent to it. -/
def SendsAtRest (c : ConnCtx) : Event → Prop
  | .onRequest (.data _) => (∀ p ∈ allSlots, (c.slotAt p).busy = false) ∧ c.worker.Done ∧
      c.write = 0
  | _ => True

instance decidableSendsAtRest (c : ConnCtx) : (e : Event) → Decidable (SendsAtRest c e)
  | .onRequest (.data _) => inferInstanceAs (Decidable (_ ∧ (_ ∧ _) ∧ _))
  | .onRequest .error | .onRequest .again
  | .onGotUpstreamResponse _ _ _ | .doDistribute _ | .upstreamConnectCb _ _ _
  | .distributeUpstreamCb _ _ _ | .upstreamTcpClosed _ _ _ | .upstreamTimerClosed _ _
  | .clientClosed | .handleRequest | .sendResponse _ | .responseSendCb _ => .isTrue trivial

/-- The worker and the write to the client are in use once at most, and while one of them
is, no request is wanted and no server is at work. -/
structure UsedOnce (c : ConnCtx) : Prop where
  once : c.worker.queued + c.worker.ran + c.write ≤ 1
  alone : 0 < c.worker.queued + c.worker.ran + c.write →
    c.idler.active = false ∧ ∀ g s, (c.slot g s).busy = false

theorem usedOnce_of_underWay (h : c.gatherer.underWay ≤ 1) : UsedOnce c := by
  have hsum : c.idler.active.toNat + c.gatherer.waiting + c.worker.queued + c.worker.ran +
      c.write ≤ 1 := h
  refine ⟨by omega, fun hpos => ⟨?_, fun g s => ?_⟩⟩
  · cases hactive : c.idler.active with
    | false => rfl
    | true =>
        rw [hactive, Bool.toNat_true] at hsum
        omega
  · by_contra hbusy
    rw [Bool.not_eq_false] at hbusy
    have hwaits : c.gatherer.waiting = 1 := Gather.Gatherer.waiting_of_waits
      ⟨(g, s), (UpstreamConnect.busy_peer _).trans hbusy⟩
    omega

theorem InSession.not_waits (h : InSession conf k c)
    (hrest : ∀ p ∈ allSlots, (c.slotAt p).busy = false) : ¬ c.gatherer.Waits := by
  rintro ⟨p, hp⟩
  have hbusy : (c.slotAt p).busy = true := (UpstreamConnect.busy_peer _).symm.trans hp
  have hin : p ∈ allSlots := by
    rcases Bool.or_eq_true_iff.1 hbusy with hwrite | hread
    · exact Conf.mem_allSlots (h.books.find_write hwrite).1
    · exact Conf.mem_allSlots (h.books.find_reading hread).1
  rw [hrest p hin] at hbusy
  cases hbusy

theorem InSession.underWay_le_one (h : InSession conf 0 c) (hle : c.gatherer.underWay ≤ 1)
    (hs : Callback conf c e t) (hopen : t.client.handle.isOpen = true)
    (horder : RepliesInOrder c e) (hrest : SendsAtRest c e) : t.gatherer.underWay ≤ 1 := by
  by_cases hrequest : e.isRequest = true
  · cases hs with
    | taken =>
        obtain ⟨hidle, ⟨hqueued, hran⟩, hwrite⟩ := hrest
        have hnone : c.gatherer.waiting = 0 :=
          Gather.Gatherer.waiting_of_not (h.not_waits hidle)
        show 1 + c.gatherer.waiting + c.worker.queued + c.worker.ran + c.write ≤ 1
        omega
    | refused =>
        rw [client_contextClose] at hopen
        cases hopen
    | _ => cases hrequest
  · have hweigh := (h.gathers hs hopen horder).weigh Gather.Step.weigh
    have hnone : e.act.toList.countP Gather.Act.isRequest = 0 := by
      have hact := isRequest_act e
      rw [Bool.eq_false_iff.2 hrequest] at hact
      cases hl : e.act with
      | none => rfl
      | some a =>
          rw [hl] at hact
          have hno : a.isRequest = false := hact
          rw [Option.toList_some, List.countP_singleton, hno]
          rfl
    omega

/-- When the client sends the next request only after the response to the last one was
sent, neither the worker nor the write to the client is used twice at once, and no reply
comes while the worker has the merged one. -/
theorem used_once {m : ConnCtx} (hm : m.pending = 0) {rvs : Nat → Nat → Int} {accept : Int}
    {es : List Event}
    (hinside : RunInside conf (onNewConnection conf m rvs accept) es c)
    (hpolite : Lts.Steps (step conf) (fun c e => RepliesInOrder c e ∧ SendsAtRest c e)
      (onNewConnection conf m rvs accept) es)
    (hopen : c.client.handle.isOpen = true) : UsedOnce c := by
  have hstart := session_start conf m rvs accept
  rw [hm] at hstart
  have hinv := Lts.steps_inv (I := fun c => c.client.handle.isOpen = false ∨
    InSession conf 0 c ∧ c.gatherer.underWay ≤ 1) (s := onNewConnection conf m rvs accept)
    (fun {c t e} hI hP hs => ?_) ?_ hinside.run hpolite
  · rcases hinv with hclosed | ⟨-, hle⟩
    · rw [hopen] at hclosed
      cases hclosed
    · exact usedOnce_of_underWay hle
  · have hcb := callback_of_step hs
    rcases hI with hclosed | ⟨h, hle⟩
    · exact .inl (hcb.closed hclosed).1
    · rcases h.callback hcb with ht | hclosed
      · exact .inr ⟨ht, h.underWay_le_one hle hcb ht.open hP.1 hP.2⟩
      · exact .inl hclosed
  · refine hstart.symm.imp_right fun h => ⟨h, ?_⟩
    rw [gatherer_onNewConnection conf m rvs accept h.open, Gather.underWay_start]
    exact Nat.zero_le 1

theorem used_once_second :
    ∃ c, Lts.run (step twoGroups) (onNewConnection twoGroups .zeroed (fun _ _ => 0) 0)
        secondMade = some c ∧ c.worker.ran = 1 ∧ UsedOnce c := by
  have hpolite : Lts.Steps (step twoGroups) (fun c e => RepliesInOrder c e ∧ SendsAtRest c e)
      (onNewConnection twoGroups .zeroed (fun _ _ => 0) 0) secondMade :=
    Lts.steps_of_passes (p := fun c e => decide (RepliesInOrder c e ∧ SendsAtRest c e))
      of_decide_eq_true (by decide +kernel)
  obtain ⟨c, hc, hopen, hran⟩ := secondMade_run
  exact ⟨c, hc.run, hran, used_once rfl hc hpolite hopen⟩

end

end UiServer
