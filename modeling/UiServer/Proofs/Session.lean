import UiServer.Lib.Progress
import UiServer.Proofs.Groups
import UiServer.Proofs.Leftovers

/-!
# Many requests on one connection

A connection serves one request after the other, and the counters that decide
when a response is made are never set back. What they are over a whole session
is said here, whatever happens in it as long as the replies stay inside the
buffer: `distribute_count` is ahead of `response_count` by the slots whose reply
is awaited, so a reply queues the worker exactly when no other is awaited
(`queued_iff_noneAwaited`). The reply itself never goes to the client, since no
slot is at work for a request that is not to be merged (`reply_not_forwarded`),
and the responses are accounted for by the replies that were read
(`accounts_of_run`).
-/

namespace UiServer

open CMem

/-! ## The slots whose reply is awaited

Each of the six modes awaits a reply or does not, so the awaited replies of an
open connection are a sum over its slots like the counters in the books, and a
callback moves it by what it does to one slot. It moves the difference of the two
counts by as much. -/

def UpstreamConnect.awaits (up : UpstreamConnect) : Nat := up.tcp.reading.toNat

/-- The number of slots whose reply is awaited. -/
def ConnCtx.awaits (c : ConnCtx) : Nat :=
  Ledger.total allSlots UpstreamConnect.awaits c.slotAt

section

variable {conf : Conf} {errs : Prop} {c t : ConnCtx} {e : Event} {g s : Nat}

theorem awaits_of_slot (h : t.slot = c.slot) : t.awaits = c.awaits := by
  unfold ConnCtx.awaits ConnCtx.slotAt
  rw [h]

/-- A slot in mode `m` is changed by `f`, and the awaited replies by `d`. -/
theorem Moves.awaits {p : Slot} {f : UpstreamConnect → UpstreamConnect} {dn ds dc d : Int}
    (h : Moves p f dn ds dc c t) (hp : p.2 < conf.width p.1) {m : SlotMode}
    (hslot : c.slot p.1 p.2 = m.upstream p.1 p.2)
    (hd : ((m.upstream p.1 p.2).awaits : Int) + d = (f (m.upstream p.1 p.2)).awaits) :
    (t.awaits : Int) = c.awaits + d := by
  have htotal := Ledger.total_replace (w := UpstreamConnect.awaits) (f := c.slotAt)
    (g := t.slotAt) (Conf.mem_allSlots hp) fun q _ hq => h.only.slots q hq
  have hold : c.slotAt p = m.upstream p.1 p.2 := hslot
  have hnew : t.slotAt p = f (m.upstream p.1 p.2) := by
    rw [← hslot]
    exact h.slot
  rw [hold, hnew] at htotal
  simp only [ConnCtx.awaits]
  omega

theorem awaits_distributeRequestGroup (h : OpenBooks conf errs c) (hg : g < conf.sgNum)
    (rv : Int) : ((distributeRequestGroup c g rv).1.awaits : Int) = c.awaits + 0 := by
  rw [distributeRequestGroup]
  split
  · next i hi =>
      obtain ⟨hlt, hslot⟩ := h.pick hg hi
      have hlru := moves_setLru c (g, i) i
      have hidle : ((c.setLru g i).slot g i) = SlotMode.idle.upstream g i := by
        rw [ConnCtx.slot_setLru, hslot]
      have ho : ((c.setLru g i).slot g i).tcp.handle.isOpen = true := by
        rw [hidle]
        rfl
      by_cases hrv : rv = 0
      · subst hrv
        rw [distributeRequestUpstream_ok ho]
        exact (hlru.trans (moves_modSlot _ (g, i) .sendRequest)).awaits hlt hslot rfl
      · rw [distributeRequestUpstream_err ho hrv]
        have hstat := moves_modSlot (c.setLru g i) (g, i) fun up =>
          { up with status := .connectFail }
        have hidx : (((c.setLru g i).setStatus g i .connectFail).slot g i).groupIdx = g := by
          rw [ConnCtx.setStatus, ConnCtx.slot_modSlot_same, hidle]
          rfl
        exact ((hlru.trans hstat).trans (moves_upstreamServerErr hidx)).awaits hlt hslot rfl
  · exact (Int.add_zero _).symm

/-- Distributing a request neither starts nor stops a read. -/
theorem awaits_distributeRequest (h : OpenBooks conf True c) (rvs : Nat → Int) :
    (distributeRequest conf c rvs).1.awaits = c.awaits := by
  have hpart : ∀ n, n ≤ conf.sgNum →
      (distributeRequestGroups c rvs n).1.awaits = c.awaits := by
    intro n
    induction n with
    | zero => exact fun _ => rfl
    | succ n ih =>
        intro hn
        have hbooks := (Books.distributeRequestGroups h rvs (fun _ _ _ _ => trivial)
          (Nat.le_of_succ_le hn)).1
        have hlast := awaits_distributeRequestGroup hbooks hn (rvs n)
        have hbefore := ih (Nat.le_of_succ_le hn)
        simp only [distributeRequestGroups]
        omega
  exact hpart conf.sgNum (Nat.le_refl _)

/-- The awaited replies and the two counts go up and down together, as long as
the connection is open. -/
theorem Callback.awaits (h : OpenBooks conf True c) (hs : Callback conf c e t)
    (hopen : t.client.handle.isOpen = true) :
    (t.awaits : Int) = c.awaits + e.pending := by
  have hclose : ∀ d : ConnCtx, ¬ (contextClose conf d).client.handle.isOpen = true := by
    intro d
    rw [client_contextClose]
    exact Bool.false_ne_true
  have hsame : t.awaits = c.awaits → (t.awaits : Int) = c.awaits + 0 := by
    intro heq
    rw [heq, Int.add_zero]
  cases hs with
  | readFailed => exact absurd hopen (hclose c)
  | refused => exact absurd hopen (hclose _)
  | unserved => exact absurd hopen (hclose _)
  | readAgain | taken | waits | replyAgain | responseSent => exact hsame rfl
  | distributed =>
      have hstopped : OpenBooks conf True c.idleStopped := h.aside ⟨rfl, rfl, rfl, rfl⟩
      exact hsame (awaits_distributeRequest hstopped _)
  | @connected g s status hc =>
      obtain ⟨hlt, hslot⟩ := h.find_connect hc
      exact (moves_upstreamConnectCb c (g, s) status).awaits hlt hslot rfl
  | @written g s status hw =>
      obtain ⟨hlt, hslot⟩ := h.find_write hw
      have hbegin := moves_modSlot c (g, s) fun up => { up with write := false }
      by_cases hst : status = 0
      · subst hst
        have hcount : ∀ d : ConnCtx, Moves (g, s) id 0 0 0 d (d.addDistributeCount 1) :=
          fun d => moves_none rfl rfl rfl rfl rfl
        have hread := (hbegin.trans (hcount _)).trans (moves_modSlot _ (g, s) fun up =>
          { up with tcp := up.tcp.readStart })
        rw [← distributeUpstreamCb_ok] at hread
        exact hread.awaits hlt hslot rfl
      · rw [distributeUpstreamCb_err hst]
        have hidx : ((c.modSlot g s fun up =>
            { up with write := false }).slot g s).groupIdx = g := by
          rw [ConnCtx.slot_modSlot_same, hslot]
          rfl
        have hpend : Event.pending (.distributeUpstreamCb g s status) = 0 := if_neg hst
        rw [hpend]
        exact (hbegin.trans (moves_upstreamServerErr hidx)).awaits hlt hslot rfl
  | @replyFailed g s _ hread =>
      obtain ⟨hlt, hslot⟩ := h.find_reading hread
      have hcount : Moves (g, s) id 0 0 0 c (c.addResponseCount 1) :=
        moves_none rfl rfl rfl rfl rfl
      have hidx : ((c.addResponseCount 1).slot g s).groupIdx = g := by
        show (c.slot g s).groupIdx = g
        rw [hslot]
        rfl
      exact (hcount.trans (moves_upstreamServerErr hidx)).awaits hlt hslot rfl
  | @reply g s bs _ hread hbs =>
      obtain ⟨hlt, hslot⟩ := h.find_reading hread
      exact (moves_readUpstream c (g, s) hbs).awaits hlt hslot rfl
  | @tcpClosed g s rv cb hph =>
      obtain ⟨hlt, hslot, hm⟩ := Books.moves_reconnect h hph rv
      exact hm.awaits hlt hslot rfl
  | timerClosed hph => exact absurd hph (Books.timer_not_closing h)
  | clientClosed hph =>
      rw [h.client] at hph
      cases hph
  | handled => exact hsame (awaits_of_slot (aside_handled conf c).slot)
  | @responded status => exact hsame (awaits_of_slot (aside_responded c status).slot)

end

/-! ## What is not touched

Connecting, losing and closing slots has nothing to do with the worker or with the
writes to the client. That is said of the functions first and then of all events
but five. -/

/-- The worker and the writes to the client stay. -/
structure SameWork (c t : ConnCtx) : Prop where
  worker : t.worker = c.worker
  write : t.write = c.write

/-- The events that queue the worker, run it, report it, or end a write to the
client. -/
def Event.works : Event → Bool
  | .onGotUpstreamResponse _ _ (.data _) => true
  | .handleRequest | .sendResponse _ | .responseSendCb _ => true
  | _ => false

section

variable {conf : Conf} {c t : ConnCtx} {e : Event}

theorem UpstreamsOnly.sameWork (h : UpstreamsOnly c t) : SameWork c t := by
  obtain ⟨gs, n, rfl⟩ := h
  exact ⟨rfl, rfl⟩

theorem sameWork_contextClose (conf : Conf) (c : ConnCtx) :
    SameWork c (contextClose conf c) := by
  obtain ⟨gs, n, heq⟩ := contextClose_eq conf c
  rw [heq]
  exact ⟨rfl, rfl⟩

theorem SameWork.trans {d : ConnCtx} (h : SameWork c d) (h' : SameWork d t) :
    SameWork c t := ⟨h'.worker.trans h.worker, h'.write.trans h.write⟩

theorem countDown_rest (c : ConnCtx) :
    SameWork c (countDown c) ∧ (countDown c).idler = c.idler := by
  simp only [countDown]
  split
  · exact ⟨⟨rfl, rfl⟩, rfl⟩
  · exact ⟨⟨rfl, rfl⟩, rfl⟩

theorem runCloseCb_rest (c : ConnCtx) (g s : Nat) (rv : Int) (cb : CloseCb) :
    SameWork c (runCloseCb c g s rv cb) ∧ (runCloseCb c g s rv cb).idler = c.idler := by
  cases cb with
  | upstreamTcpClean => exact countDown_rest c
  | upstreamTimerClean => exact countDown_rest c
  | contextClean => exact countDown_rest c
  | upstreamReconnectTcp =>
      obtain ⟨gs, n, heq⟩ := ((GroupsOnly.refl c).addNeedClose (k := -1)).trans
        (groupsOnly_upstreamConnectGroupServer (c.addNeedClose (-1))
          (c.slot g s).groupIdx (c.slot g s).serverIdx rv)
      have heq' : runCloseCb c g s rv .upstreamReconnectTcp =
          { c with gs := { c.gs with group := gs }, needClose := n } := heq
      rw [heq']
      exact ⟨⟨rfl, rfl⟩, rfl⟩

theorem Callback.sameWork (h : Callback conf c e t) (he : e.works = false) :
    SameWork c t := by
  have hslot : ∀ {g s : Nat} {f : UpstreamConnect → UpstreamConnect},
      GroupsOnly c (c.modSlot g s f) := (GroupsOnly.refl c).modSlot
  have hclosed : ∀ {g s : Nat} {f : UpstreamConnect → UpstreamConnect} {rv : Int}
      {cb : CloseCb}, SameWork c (runCloseCb (c.modSlot g s f) g s rv cb) :=
    hslot.upstreamsOnly.sameWork.trans (runCloseCb_rest _ _ _ _ _).1
  have hgo : ∀ rvs, SameWork c (distributeRequest conf c.idleStopped rvs).1 := by
    intro rvs
    obtain ⟨gs, n, heq⟩ := groupsOnly_distributeRequest conf c.idleStopped rvs
    rw [heq]
    exact ⟨rfl, rfl⟩
  cases h with
  | readFailed => exact sameWork_contextClose conf c
  | refused =>
      exact SameWork.trans (d := receiveRequest c _) ⟨rfl, rfl⟩ (sameWork_contextClose conf _)
  | readAgain | taken | waits | replyAgain => exact ⟨rfl, rfl⟩
  | distributed => exact hgo _
  | unserved => exact (hgo _).trans (sameWork_contextClose conf _)
  | connected => exact (hslot.trans (groupsOnly_upstreamConnectCb _ _ _ _)).upstreamsOnly.sameWork
  | written =>
      exact (hslot.upstreamsOnly.trans (upstreamsOnly_distributeUpstreamCb _ _ _ _)).sameWork
  | replyFailed => exact (upstreamsOnly_readError _ _ _).sameWork
  | reply | handled | responded | responseSent => cases he
  | tcpClosed => exact hclosed
  | timerClosed => exact hclosed
  | clientClosed =>
      exact SameWork.trans (d := { c with client := c.client.finish }) ⟨rfl, rfl⟩
        (countDown_rest _).1

/-! ## The request that is at work

A request is at work while it waits to be distributed or a slot is busy with it.
Only `on_request` begins that on an open connection, and it has then set
`need_merge` and `need_pb`; since nobody else writes them, they are set as long as
the request is at work. -/

/-- A request is to be distributed, or a slot is at work. -/
def AtWork (c : ConnCtx) : Prop :=
  c.idler.active = true ∨ ∃ g s, (c.slot g s).busy = true

theorem FlagKept.atWork (h : FlagKept UpstreamConnect.busy c t)
    (hi : t.idler = c.idler) (ht : AtWork t) : AtWork c := by
  rcases ht with hact | ⟨g, s, hbusy⟩
  · rw [hi] at hact
    exact .inl hact
  · exact .inr ⟨g, s, h g s hbusy⟩

/-- Only `on_request` puts an open connection to work. -/
theorem Callback.atWork (h : Callback conf c e t) (hopen : t.client.handle.isOpen = true)
    (htakes : takes c e = false) (ht : AtWork t) : AtWork c := by
  have hclose : ∀ d : ConnCtx, ¬ (contextClose conf d).client.handle.isOpen = true := by
    intro d
    rw [client_contextClose]
    exact Bool.false_ne_true
  have hidler : ∀ {d : ConnCtx}, UpstreamsOnly c d → d.idler = c.idler := by
    rintro d ⟨gs, n, rfl⟩
    rfl
  have hslot : ∀ {g s : Nat} {f : UpstreamConnect → UpstreamConnect},
      GroupsOnly c (c.modSlot g s f) := (GroupsOnly.refl c).modSlot
  cases h with
  | readFailed => exact absurd hopen (hclose c)
  | refused => exact absurd hopen (hclose _)
  | unserved => exact absurd hopen (hclose _)
  | taken _ _ hok =>
      rw [takes, decide_eq_false_iff_not] at htakes
      exact absurd hok htakes
  | readAgain | replyAgain | responseSent => exact ht
  | waits hactive => exact .inl hactive
  | distributed hactive => exact .inl hactive
  | connected =>
      exact (busy_upstreamConnectCb _ _ _ _).atWork
        (hidler (hslot.trans (groupsOnly_upstreamConnectCb _ _ _ _)).upstreamsOnly) ht
  | written hw =>
      exact (busy_distributeUpstreamCb hw _).atWork (hidler (hslot.upstreamsOnly.trans
        (upstreamsOnly_distributeUpstreamCb _ _ _ _))) ht
  | @replyFailed g s =>
      have hkept : FlagKept UpstreamConnect.busy c
          (upstreamServerErr (c.addResponseCount 1) g s) :=
        FlagKept.trans (d := c.addResponseCount 1) (flagKept_of_slot rfl)
          (flagKept_upstreamServerErr g s (busy_fail _))
      exact hkept.atWork (hidler (upstreamsOnly_readError c g s)) ht
  | @reply g s bs _ hread hbs => exact .inr ⟨g, s, Bool.or_eq_true_iff.2 (.inr hread)⟩
  | @tcpClosed g s rv cb =>
      have hkept : FlagKept UpstreamConnect.busy c
          (c.modSlot g s fun up => { up with tcp := up.tcp.finish }) := flagKept_modSlot id
      exact (hkept.trans (busy_runCloseCb _ g s rv cb)).atWork (runCloseCb_rest _ _ _ _ _).2
        ht
  | @timerClosed g s cb =>
      have hkept : FlagKept UpstreamConnect.busy c
          (c.modSlot g s fun up => { up with timer := up.timer.finish }) :=
        flagKept_modSlot id
      exact (hkept.trans (busy_runCloseCb _ g s 0 cb)).atWork (runCloseCb_rest _ _ _ _ _).2
        ht
  | clientClosed =>
      have hkept : FlagKept UpstreamConnect.busy c
          (contextCleanCb { c with client := c.client.finish }) :=
        FlagKept.trans (d := { c with client := c.client.finish }) (flagKept_of_slot rfl)
          (busy_runCloseCb { c with client := c.client.finish } 0 0 0 .contextClean)
      exact hkept.atWork (countDown_rest _).2 ht
  | handled =>
      obtain ⟨up, response, len, heq⟩ := workerHandler_eq conf c
      rw [handleRequest, heq] at ht
      exact ht
  | @responded status =>
      rcases sendResponse_eq { c with worker := c.worker.report } status with
        heq | ⟨_, heq⟩
      · rw [heq] at ht
        exact ht
      · rw [heq] at ht
        exact ht

theorem Callback.sameWeb (h : Callback conf c e t) (htakes : takes c e = false)
    (hopen : t.client.handle.isOpen = true) : t.request.web = c.request.web := by
  have hrest := h.untouched
  cases h with
  | taken _ _ hok =>
      rw [takes, decide_eq_false_iff_not] at htakes
      exact absurd hok htakes
  | refused =>
      rw [client_contextClose] at hopen
      cases hopen
  | reply _ _ hbs => rw [(replyOnly_readUpstream c _ _ hbs).request]
  | handled =>
      obtain ⟨up, response, len, heq⟩ := workerHandler_eq conf c
      rw [handleRequest, heq]
  | _ => rw [(hrest rfl).request]

/-- A request that is served is to be merged and to be shown on a page. -/
structure WebRequest.Asks (web : WebRequest) : Prop where
  merge : web.needMerge ≠ 0
  page : web.needPb ≠ 0

theorem asks_acceptRequest (c : ConnCtx) : (acceptRequest c).request.web.Asks := by
  refine ⟨needMerge_acceptRequest c, ?_⟩
  have hone : (acceptRequest c).request.web.needPb = 1 :=
    @store_at (store c.request.web.mem 148 [1]) 149 0 [1] (by decide)
  rw [hone]
  decide

/-! ## A session

The two counts are never initialised, so they start with a difference that the
block from `malloc` has held, and `k` is that difference for the whole run. Beside
it the invariant has the books and what a request at work asks for. -/

/-- The invariant of an open connection whose block held two counts that were
`k` apart. -/
structure InSession (conf : Conf) (k : Int) (c : ConnCtx) : Prop where
  books : OpenBooks conf True c
  counts : c.pending = k + c.awaits
  asks : AtWork c → c.request.web.Asks

def SessionOrClosed (conf : Conf) (k : Int) (c : ConnCtx) : Prop :=
  InSession conf k c ∨ c.client.handle.isOpen = false

variable {k : Int}

theorem InSession.callback (h : InSession conf k c) (hs : Callback conf c e t) :
    SessionOrClosed conf k t := by
  by_cases hopen : t.client.handle.isOpen = true
  · refine .inl ⟨(OpenBooks.callback h.books hs).books hopen, ?_, fun ht => ?_⟩
    · have hcount := hs.awaits h.books hopen
      rw [hs.pending, h.counts, hcount, Int.add_assoc]
    · by_cases htakes : takes c e = true
      · cases hs with
        | taken => exact asks_acceptRequest _
        | refused _ hbad =>
            rw [takes, decide_eq_true_iff] at htakes
            exact absurd htakes hbad
        | _ => cases htakes
      · have hnot := Bool.of_not_eq_true htakes
        rw [hs.sameWeb hnot hopen]
        exact h.asks (hs.atWork hopen hnot ht)
  · exact .inr (Bool.of_not_eq_true hopen)

theorem SessionOrClosed.step (h : SessionOrClosed conf k c) (hs : step conf c e = some t) :
    SessionOrClosed conf k t := by
  have hcb := callback_of_step hs
  rcases h with h | h
  · exact h.callback hcb
  · exact .inr (hcb.closed h).1

/-- A new connection has an idle worker and writes nothing; its two counts are what
the block held. -/
theorem onNewConnection_rest (conf : Conf) (m : ConnCtx) (rvs : Nat → Nat → Int)
    (accept : Int) : (onNewConnection conf m rvs accept).worker = {} ∧
      (onNewConnection conf m rvs accept).write = 0 ∧
      (onNewConnection conf m rvs accept).pending = m.pending := by
  obtain ⟨gs, n, hall⟩ := groupsOnly_upstreamConnectAll conf
    ({ allocConnContext m with idler := {}, client := .init }.addNeedClose 1) rvs
  simp only [onNewConnection, hall]
  split
  · exact ⟨rfl, rfl, rfl⟩
  · have hsame := sameWork_contextClose conf
    refine ⟨(hsame _).worker, (hsame _).write, ?_⟩
    exact (untouched_contextClose conf _).pending.trans (Int.add_zero _)

/-- A new connection that was accepted keeps the books, reads nothing and is not at
work. -/
theorem onNewConnection_quiet (conf : Conf) (m : ConnCtx) (rvs : Nat → Nat → Int)
    (accept : Int) :
    (OpenBooks conf True (onNewConnection conf m rvs accept) ∧
        (∀ g s, ((onNewConnection conf m rvs accept).slot g s).tcp.reading = false) ∧
        ¬ AtWork (onNewConnection conf m rvs accept)) ∨
      (onNewConnection conf m rvs accept).client.handle.isOpen = false := by
  obtain ⟨d, hd, hrest, heq | heq⟩ := onNewConnection_cases conf m rvs accept
  · have hquiet : ∀ g s, (d.slot g s).tcp.reading = false := by
      intro g s
      by_cases hs : s < conf.width g
      · obtain ⟨md, hm, hslot⟩ := hd.slots g s hs
        rw [hslot]
        rcases hm with rfl | rfl <;> rfl
      · rw [(hd.outside g s hs).tcp]
    rw [heq]
    refine .inl ⟨hd.openBooks, hquiet, ?_⟩
    rintro (hact | ⟨g, s, hbusy⟩)
    · rw [hrest.idler] at hact
      cases hact
    · rw [UpstreamConnect.busy, (hd.fresh_slot g s).1, hquiet g s] at hbusy
      cases hbusy
  · rw [heq]
    refine .inr ?_
    rw [client_contextClose]
    rfl

theorem session_start (conf : Conf) (m : ConnCtx) (rvs : Nat → Nat → Int) (accept : Int) :
    SessionOrClosed conf m.pending (onNewConnection conf m rvs accept) := by
  refine (onNewConnection_quiet conf m rvs accept).imp_left ?_
  rintro ⟨hbooks, hquiet, hrest⟩
  refine ⟨hbooks, ?_, fun hwork => absurd hwork hrest⟩
  have hnone : (onNewConnection conf m rvs accept).awaits = 0 :=
    Ledger.total_of_zero fun p _ => by
      rw [UpstreamConnect.awaits]
      exact congrArg Bool.toNat (hquiet p.1 p.2)
  rw [(onNewConnection_rest conf m rvs accept).2.2, hnone]
  exact (Int.add_zero _).symm

theorem pending_of_isReply (h : e.isReply = true) : e.pending = -1 := by
  cases e with
  | onGotUpstreamResponse g s r =>
      cases r with
      | data bs => rfl
      | _ => cases h
  | _ => cases h

theorem session_of_run {m : ConnCtx} {rvs : Nat → Nat → Int} {accept : Int}
    {es : List Event}
    (hrun : Lts.run (step conf) (onNewConnection conf m rvs accept) es = some c) :
    SessionOrClosed conf m.pending c :=
  Lts.run_inv SessionOrClosed.step (session_start conf m rvs accept) hrun

/-- At any point of a session, a callback queues the worker exactly when it reads
a reply and no other reply is awaited then, if the two counts in the block from
`malloc` were equal; what they were apart stays between them. -/
theorem queued_iff_noneAwaited {m : ConnCtx} {rvs : Nat → Nat → Int} {accept : Int}
    {es : List Event}
    (hinside : RunInside conf (onNewConnection conf m rvs accept) (es ++ [e]) t)
    (hrun : Lts.run (step conf) (onNewConnection conf m rvs accept) es = some c)
    (hopen : t.client.handle.isOpen = true) :
    c.worker.calls < t.worker.calls ↔ e.isReply = true ∧ m.pending + t.awaits ≤ 0 := by
  have hs := hinside.last hrun
  have hcb := callback_of_step hs
  have hc := isOpen_of_step hs hopen
  have h : InSession conf m.pending c := by
    refine (session_of_run hrun).resolve_right fun hclosed => ?_
    rw [hc] at hclosed
    cases hclosed
  have hcount := hcb.awaits h.books hopen
  rw [hcb.queues_iff, h.counts]
  constructor
  · rintro ⟨hreply, _, hle⟩
    rw [pending_of_isReply hreply] at hcount
    exact ⟨hreply, by omega⟩
  · rintro ⟨hreply, hle⟩
    rw [pending_of_isReply hreply] at hcount
    refine ⟨hreply, ?_, by omega⟩
    cases hcb with
    | @reply g s bs _ hread _ =>
        exact (h.asks (.inr ⟨g, s, Bool.or_eq_true_iff.2 (.inr hread)⟩)).merge
    | _ => cases hreply

theorem SessionOrClosed.reply_write {g s : Nat} {r : Read} (h : SessionOrClosed conf k c)
    (hs : UiServer.step conf c (.onGotUpstreamResponse g s r) = some t) :
    t.write = c.write := by
  cases callback_of_step hs with
  | replyFailed => exact (upstreamsOnly_readError _ _ _).sameWork.write
  | replyAgain => rfl
  | reply _ hread hbs =>
      rcases h with h | h
      · rw [readUpstream_eq hbs
          (h.asks (.inr ⟨g, s, Bool.or_eq_true_iff.2 (.inr hread)⟩)).merge]
        rfl
      · by_cases hm : c.request.web.needMerge = 0
        · rw [readUpstream_unmerged hbs hm, ConnCtx.uvWriteClient, if_neg]
          · rfl
          · exact ne_true_of_eq_false h
        · rw [readUpstream_eq hbs hm]
          rfl

/-- A request is written to both servers, and the first of them answers. -/
def firstReplied : List Event :=
  twoGroupsEvents ++ [.distributeUpstreamCb 0 0 0, .distributeUpstreamCb 1 0 0,
    .onGotUpstreamResponse 0 0 (.data (plainReply 1))]

theorem bothReplied_inside : ∃ c t,
    Lts.run (UiServer.step twoGroups) (onNewConnection twoGroups .zeroed (fun _ _ => 0) 0)
        firstReplied = some c ∧
      RunInside twoGroups (onNewConnection twoGroups .zeroed (fun _ _ => 0) 0)
        (firstReplied ++ [.onGotUpstreamResponse 1 0 (.data (plainReply 1))]) t ∧
      c.awaits = 1 ∧ t.awaits = 0 ∧ t.client.handle.isOpen = true := by
  have hrun : ((Lts.run (UiServer.step twoGroups)
      (onNewConnection twoGroups .zeroed (fun _ _ => 0) 0) firstReplied).bind fun c =>
        (Lts.run (UiServer.step twoGroups) c
          [.onGotUpstreamResponse 1 0 (.data (plainReply 1))]).map
            fun t => (c.awaits, t.awaits, t.client.handle.isOpen)) = some (1, 0, true) := by
    decide +kernel
  obtain ⟨c, hc, hmap⟩ := Option.bind_eq_some_iff.1 hrun
  obtain ⟨t, ht, heq⟩ := Option.map_eq_some_iff.1 hmap
  obtain ⟨hc', ht', hopen⟩ : c.awaits = 1 ∧ t.awaits = 0 ∧ _ = true := by
    simpa only [Prod.mk.injEq] using heq
  exact ⟨c, t, hc, runInside_of_passes (Lts.run_append.2 ⟨c, hc, ht⟩) (by decide +kernel), hc',
    ht', hopen⟩

/-- The second answer is awaited, and its read queues the worker. -/
theorem queued_iff_noneAwaited_second :
    ∃ c t, Lts.run (UiServer.step twoGroups)
        (onNewConnection twoGroups .zeroed (fun _ _ => 0) 0) firstReplied = some c ∧
      UiServer.step twoGroups c (.onGotUpstreamResponse 1 0 (.data (plainReply 1))) =
        some t ∧
      c.awaits = 1 ∧ c.worker.calls < t.worker.calls := by
  obtain ⟨c, t, hc, hinside, hone, hnone, hopen⟩ := bothReplied_inside
  refine ⟨c, t, hc, hinside.last hc, hone,
    (queued_iff_noneAwaited hinside hc hopen).2 ⟨rfl, ?_⟩⟩
  rw [hnone]
  decide

/-- A reply is never written to the client as it is: `on_got_upstream_response`
leaves the writes to the client alone in every run that stays inside. -/
theorem reply_not_forwarded {m : ConnCtx} {rvs : Nat → Nat → Int} {accept : Int}
    {es : List Event} {g s : Nat} {r : Read}
    (hinside : RunInside conf (onNewConnection conf m rvs accept)
      (es ++ [.onGotUpstreamResponse g s r]) t)
    (hrun : Lts.run (step conf) (onNewConnection conf m rvs accept) es = some c) :
    t.write = c.write :=
  (session_of_run hrun).reply_write (hinside.last hrun)

theorem reply_not_forwarded_second :
    ∃ c t, Lts.run (UiServer.step twoGroups)
        (onNewConnection twoGroups .zeroed (fun _ _ => 0) 0) firstReplied = some c ∧
      UiServer.step twoGroups c (.onGotUpstreamResponse 1 0 (.data (plainReply 1))) =
        some t ∧ t.write = c.write := by
  obtain ⟨c, t, hc, hinside, -⟩ := bothReplied_inside
  exact ⟨c, t, hc, hinside.last hc, reply_not_forwarded hinside hc⟩

/-! ## The room for a reply

`len` is set to nothing by the request that is taken in, and what a reply adds to it
leaves the reply's head free again. So as long as the replies stay inside there is room
for one more head, and `len` is far from the largest word. -/

def HasRoom (c : ConnCtx) : Prop :=
  c.upstreamResponse.len.toNat + responseHeadSize ≤ 2 * responseBufSize

theorem HasRoom.body_lt (h : HasRoom c) : c.upstreamResponse.len.toNat < 2 ^ 31 := by
  rw [HasRoom, responseBufSize] at h
  omega

theorem Callback.hasRoom (hs : Callback conf c e t) (hinside : ReplyInside c e)
    (h : HasRoom c) : HasRoom t := by
  rw [HasRoom, hs.upstreamResponse]
  cases e with
  | onRequest r =>
      cases r with
      | data bs =>
          simp only [ConnCtx.nextResponse]
          split
          · exact Nat.le_of_ble_eq_true rfl
          · exact h
      | error | again => exact h
  | onGotUpstreamResponse g s r =>
      cases r with
      | data bs =>
          simp only [ConnCtx.nextResponse]
          split
          · exact h
          · next hm =>
              obtain ⟨⟨-, hread⟩, hbody⟩ := hinside
              have hpos := (hbody hm).1
              have hfree : (c.upstreamResponse.len.toNat : Int) +
                  bodyLen c.upstreamResponse bs + responseHeadSize ≤
                    2 * (responseBufSize : Int) := by
                rw [HasRoom] at h
                rw [bodyLen_eq]
                split <;> omega
              obtain ⟨n, hn⟩ := Int.eq_ofNat_of_zero_le hpos
              rw [mergeRead_len_eq, hn, u32_ofInt_natCast, UInt32.toNat_add,
                UInt32.toNat_ofNat']
              rw [hn] at hfree
              rw [responseHeadSize, responseBufSize] at hfree ⊢
              omega
      | error | again => exact h
  | _ => exact h

theorem Callback.hasRoom_taken (hs : Callback conf c e t) (htakes : takes c e = true) :
    HasRoom t := by
  cases hs with
  | taken => exact Nat.le_of_ble_eq_true rfl
  | refused _ hbad =>
      rw [takes, decide_eq_true_iff] at htakes
      exact absurd htakes hbad
  | _ => cases htakes

/-- A request is at work, or its worker is still to run. -/
def InProgress (c : ConnCtx) : Prop := AtWork c ∨ 0 < c.worker.queued

theorem Callback.inProgress (h : Callback conf c e t)
    (hopen : t.client.handle.isOpen = true) (htakes : takes c e = false)
    (ht : InProgress t) : InProgress c := by
  rcases ht with hwork | hqueued
  · exact .inl (h.atWork hopen htakes hwork)
  have hsame : e.works = false → InProgress c := fun he => by
    rw [(h.sameWork he).worker] at hqueued
    exact .inr hqueued
  cases h with
  | @reply g s bs _ hread =>
      exact .inl (.inr ⟨g, s, Bool.or_eq_true_iff.2 (.inr hread)⟩)
  | handled hpos => exact .inr hpos
  | @responded status =>
      rcases sendResponse_eq { c with worker := c.worker.report } status with
        heq | ⟨_, heq⟩
      · rw [heq] at hqueued
        exact .inr hqueued
      · rw [heq] at hqueued
        exact .inr hqueued
  | responseSent => exact .inr hqueued
  | _ => exact hsame rfl

theorem hasRoom_of_run {m : ConnCtx} {rvs : Nat → Nat → Int} {accept : Int}
    {es : List Event} (hinside : RunInside conf (onNewConnection conf m rvs accept) es c)
    (hopen : c.client.handle.isOpen = true) (hc : InProgress c) : HasRoom c := by
  have hstart : (onNewConnection conf m rvs accept).client.handle.isOpen = false ∨
      (InProgress (onNewConnection conf m rvs accept) →
        HasRoom (onNewConnection conf m rvs accept)) := by
    refine (onNewConnection_quiet conf m rvs accept).symm.imp_right ?_
    rintro ⟨-, -, hrest⟩ (hwork | hqueued)
    · exact absurd hwork hrest
    · rw [(onNewConnection_rest conf m rvs accept).1] at hqueued
      cases hqueued
  have hinv := Lts.steps_inv
    (I := fun c => c.client.handle.isOpen = false ∨ (InProgress c → HasRoom c))
    (fun {c t e} hI hP hs => ?_) hstart hinside.run hinside.inside
  · refine hinv.elim (fun hclosed => ?_) fun h => h hc
    rw [hopen] at hclosed
    cases hclosed
  · have hcb := callback_of_step hs
    rcases hI with hclosed | hroom
    · exact .inl (hcb.closed hclosed).1
    · by_cases ht : t.client.handle.isOpen = true
      · refine .inr fun hin => ?_
        by_cases htakes : takes c e = true
        · exact hcb.hasRoom_taken htakes
        · exact hcb.hasRoom hP
            (hroom (hcb.inProgress ht (Bool.eq_false_of_not_eq_true htakes) hin))
      · exact .inl (Bool.eq_false_of_not_eq_true ht)

/-! ## Replies, pages and responses

Double entry over a run: a reply queues the worker or does not, a run of the
worker takes one off its queue, a report one off its runs and may begin a write,
and the end of a write takes one off the writes. Summed up, no response is there
that no reply has paid for. -/

def Event.isRun : Event → Bool
  | .handleRequest => true
  | _ => false

def Event.isReport : Event → Bool
  | .sendResponse _ => true
  | _ => false

def Event.isWritten : Event → Bool
  | .responseSendCb _ => true
  | _ => false

/-- What becomes of the worker and of the writes to the client while `replies`
replies are read, the worker runs `runs` times and is reported `reports` times,
and `written` writes to the client end. -/
structure Accounts (c t : ConnCtx) (replies runs reports written : Nat) : Prop where
  calls_le : t.worker.calls ≤ c.worker.calls + replies
  queued : t.worker.queued + runs + c.worker.calls = c.worker.queued + t.worker.calls
  ran : t.worker.ran + reports = c.worker.ran + runs
  write_le : t.write + written ≤ c.write + reports

theorem SameWork.accounts (h : SameWork c t) (n : Nat) : Accounts c t n 0 0 0 := by
  refine ⟨?_, ?_, ?_, ?_⟩
  · rw [h.worker]
    exact Nat.le_add_right _ _
  · rw [h.worker, Nat.add_zero]
  · rw [h.worker]
  · rw [h.write]

/-- A reply leaves the worker alone or queues it once. -/
theorem worker_readUpstream (c : ConnCtx) (g s : Nat) {bs : Bytes} (h : bs ≠ []) :
    (readUpstream c g s bs).worker = c.worker ∨
      (readUpstream c g s bs).worker = c.worker.queue := by
  by_cases hm : c.request.web.needMerge = 0
  · rw [readUpstream_unmerged h hm, ConnCtx.uvWriteClient]
    split <;> exact .inl rfl
  · rw [readUpstream_eq h hm]
    simp only []
    split
    · exact .inr rfl
    · exact .inl rfl

theorem Callback.accounts (h : Callback conf c e t)
    (hwrite : e.isReply = true → t.write = c.write) :
    Accounts c t e.isReply.toNat e.isRun.toNat e.isReport.toNat e.isWritten.toNat := by
  have hsame := h.sameWork
  cases h with
  | @reply g s bs _ _ hbs =>
      have hw := hwrite rfl
      rcases worker_readUpstream c g s hbs with heq | heq
      · exact SameWork.accounts ⟨heq, hw⟩ 1
      · refine ⟨?_, ?_, ?_, Nat.le_of_eq hw⟩
        · rw [heq]
          exact Nat.le_refl _
        · rw [heq]
          show c.worker.queued + 1 + 0 + c.worker.calls = c.worker.queued + (c.worker.calls + 1)
          omega
        · rw [heq]
          rfl
  | handled hqueued =>
      obtain ⟨up, response, len, heq⟩ := workerHandler_eq conf c
      rw [handleRequest, heq]
      refine ⟨Nat.le_refl _, ?_, rfl, Nat.le_refl _⟩
      show c.worker.queued - 1 + 1 + c.worker.calls = c.worker.queued + c.worker.calls
      omega
  | @responded status hran =>
      have hback : c.worker.ran - 1 + 1 = c.worker.ran := Nat.sub_add_cancel hran
      rcases sendResponse_eq { c with worker := c.worker.report } status with
        heq | ⟨_, heq⟩
      · rw [heq]
        exact ⟨Nat.le_refl _, rfl, hback, Nat.le_succ _⟩
      · rw [heq]
        exact ⟨Nat.le_refl _, rfl, hback, Nat.le_refl _⟩
  | responseSent hpos =>
      refine ⟨Nat.le_refl _, rfl, rfl, ?_⟩
      show c.write - 1 + 1 ≤ c.write + 0
      omega
  | _ => exact (hsame rfl).accounts 0

theorem Accounts.trans {d : ConnCtx} {n n' r r' p p' w w' : Nat}
    (h : Accounts c d n r p w) (h' : Accounts d t n' r' p' w') :
    Accounts c t (n + n') (r + r') (p + p') (w + w') := by
  obtain ⟨hc, hq, hr, hw⟩ := h
  obtain ⟨hc', hq', hr', hw'⟩ := h'
  exact ⟨by omega, by omega, by omega, by omega⟩

/-- Over any run of a new connection that stays inside every response is accounted
for by a report of the worker, every report by a run, every run by a call, and every
call by a reply that was read. So the client gets no more responses than replies were
read. -/
theorem accounts_of_run {m : ConnCtx} {rvs : Nat → Nat → Int} {accept : Int}
    {es : List Event} (hinside : RunInside conf (onNewConnection conf m rvs accept) es c) :
    c.write + es.countP Event.isWritten ≤ es.countP Event.isReport ∧
      es.countP Event.isReport + c.worker.ran = es.countP Event.isRun ∧
      es.countP Event.isRun + c.worker.queued = c.worker.calls ∧
      c.worker.calls ≤ es.countP Event.isReply := by
  have hall : ∀ {es : List Event} {d : ConnCtx}, SessionOrClosed conf m.pending d →
      Lts.run (step conf) d es = some c →
      Accounts d c (es.countP Event.isReply) (es.countP Event.isRun)
        (es.countP Event.isReport) (es.countP Event.isWritten) := by
    intro es
    induction es with
    | nil =>
        intro d _ h
        cases h
        exact SameWork.accounts ⟨rfl, rfl⟩ 0
    | cons e es ih =>
        intro d hd h
        obtain ⟨t, ht, hrest⟩ := Lts.run_cons.1 h
        simp only [Lts.countP_cons_toNat]
        refine Accounts.trans ((callback_of_step ht).accounts fun hreply => ?_)
          (ih (hd.step ht) hrest)
        cases e with
        | onGotUpstreamResponse g s r => exact hd.reply_write ht
        | _ => cases hreply
  obtain ⟨hcalls, hqueued, hran, hwrite⟩ := hall (session_start conf m rvs accept) hinside.run
  obtain ⟨hworker, hnone, _⟩ := onNewConnection_rest conf m rvs accept
  rw [hworker] at hcalls hqueued hran
  rw [hnone] at hwrite
  simp only [Nat.zero_add, Nat.add_zero] at hcalls hqueued hran hwrite
  omega

/-- Both servers answer, the page is made and sent. -/
theorem accounts_of_run_served :
    ∃ c, Lts.run (UiServer.step twoGroups)
        (onNewConnection twoGroups .zeroed (fun _ _ => 0) 0)
        (firstReplied ++ [.onGotUpstreamResponse 1 0 (.data (plainReply 1)),
          .handleRequest, .sendResponse 0]) = some c ∧
      c.write = 1 ∧ c.worker.calls ≤ 2 := by
  have hrun : ((Lts.run (UiServer.step twoGroups)
      (onNewConnection twoGroups .zeroed (fun _ _ => 0) 0)
      (firstReplied ++ [.onGotUpstreamResponse 1 0 (.data (plainReply 1)),
        .handleRequest, .sendResponse 0])).map fun c => c.write) = some 1 := by
    decide +kernel
  obtain ⟨c, hc, hwrite⟩ := Option.map_eq_some_iff.1 hrun
  have hinside := runInside_of_passes hc (by decide +kernel)
  exact ⟨c, hc, hwrite, (accounts_of_run hinside).2.2.2⟩

end

end UiServer
