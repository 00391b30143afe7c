import UiServer.Proofs.Answer

/-!
# A request whose servers answer is answered

When nothing fails from some point on, the callbacks that are still due to an open
connection come to an end in whatever order they run: each of them leaves less to serve
(`ConnCtx.leftToServe`). The last reply finds that no other is awaited, so it queues the
worker, and the worker's last run finds every reply merged. What the client is sent then
was made out of all of them (`request_served`), although a reply that came early may have
had the worker make a response of its own before.
-/

namespace UiServer

open CMem

/-! ## What is due

A measure on open connections, in which a slot that still has to be written to
counts for the reply that will follow and a reply for the work it may bring.
`asked` are the slots that count as asked: those that are written to or read. -/

/-- The callbacks that do not fail; nothing comes from the client meanwhile. A server
that was lost before may come back or not. -/
def Event.goesWell : Event → Bool
  | .upstreamConnectCb _ _ _ => true
  | .upstreamTcpClosed _ _ _ => true
  | .distributeUpstreamCb _ _ status => decide (status = 0)
  | .onGotUpstreamResponse _ _ (.data _) => true
  | .handleRequest => true
  | .sendResponse status => decide (0 ≤ status)
  | .responseSendCb _ => true
  | _ => false

/-- What is left of a slot. A reply may queue the worker, which is run and reported and
then writes to the client, so it counts for three more. -/
def UpstreamConnect.leftToServe (up : UpstreamConnect) : Nat :=
  up.connect.toNat + 2 * (up.tcp.handle.live && !up.tcp.handle.isOpen).toNat +
    5 * up.write.toNat + 4 * up.tcp.reading.toNat

/-- The slot was asked and has not answered. -/
def UpstreamConnect.asked (up : UpstreamConnect) : Nat :=
  up.write.toNat + up.tcp.reading.toNat

def ConnCtx.total (c : ConnCtx) (w : UpstreamConnect → Nat) : Nat :=
  Ledger.total allSlots w c.slotAt

/-- The servers that were asked and have not answered. -/
def ConnCtx.asked (c : ConnCtx) : Nat := c.total UpstreamConnect.asked

def ConnCtx.leftToServe (c : ConnCtx) : Nat :=
  c.total UpstreamConnect.leftToServe + (3 * c.worker.queued + 2 * c.worker.ran + c.write)

/-- Nothing is under way between the connection, its servers, its worker and its
client. -/
structure NothingDue (c : ConnCtx) : Prop where
  slots : ∀ g s, (c.slot g s).connect = false ∧ (c.slot g s).write = false ∧
    (c.slot g s).tcp.reading = false ∧ ∀ cb, (c.slot g s).tcp.handle.phase ≠ .closing cb
  worker : c.worker.Done
  write : c.write = 0

section

variable {conf : Conf} {k : Int} {c d t : ConnCtx} {e : Event}

/-- A slot in mode `m` is changed by `f`. -/
theorem Moves.total {p : Slot} {f : UpstreamConnect → UpstreamConnect} {dn ds dc : Int}
    (h : Moves p f dn ds dc c t) (hp : p.2 < conf.width p.1) {m : SlotMode}
    (hslot : c.slot p.1 p.2 = m.upstream p.1 p.2) (w : UpstreamConnect → Nat) :
    t.total w + w (m.upstream p.1 p.2) = c.total w + w (f (m.upstream p.1 p.2)) := by
  have htotal := Ledger.total_replace (w := w) (f := c.slotAt) (g := t.slotAt)
    (Conf.mem_allSlots hp) fun q _ hq => h.only.slots q hq
  have hold : c.slotAt p = m.upstream p.1 p.2 := hslot
  have hnew : t.slotAt p = f (m.upstream p.1 p.2) := by
    rw [← hslot]
    exact h.slot
  rw [hold, hnew] at htotal
  exact htotal

theorem total_of_slot (h : t.slot = c.slot) (w : UpstreamConnect → Nat) :
    t.total w = c.total w := by
  unfold ConnCtx.total ConnCtx.slotAt
  rw [h]

/-! ## One step

What a callback that does not fail does to the measure, to the slots that were
asked and to the client, in one structure. The callbacks of one slot have it from
the mode of the slot before and behind, the others leave the slots alone. -/

/-- What a callback that does not fail does to what is due. -/
structure ServesOn (c : ConnCtx) (e : Event) (t : ConnCtx) : Prop where
  client : t.client.handle = c.client.handle
  less : t.leftToServe < c.leftToServe
  asked : t.asked + e.isReply.toNat = c.asked
  write : t.write + e.isWritten.toNat = c.write + e.isReport.toNat

/-- A callback of one slot that leaves the worker and the client alone. -/
theorem Moves.servesOn {p : Slot} {f : UpstreamConnect → UpstreamConnect} {dn ds dc : Int}
    (h : Moves p f dn ds dc c t) (hp : p.2 < conf.width p.1) {m : SlotMode}
    (hslot : c.slot p.1 p.2 = m.upstream p.1 p.2) (hwork : SameWork c t)
    (hless : (f (m.upstream p.1 p.2)).leftToServe < (m.upstream p.1 p.2).leftToServe)
    (hasked : (f (m.upstream p.1 p.2)).asked = (m.upstream p.1 p.2).asked)
    (he : e.works = false) : ServesOn c e t := by
  have hleft := h.total hp hslot UpstreamConnect.leftToServe
  have hsame := h.total hp hslot UpstreamConnect.asked
  have hno : e.isReply = false ∧ e.isWritten = false ∧ e.isReport = false := by
    cases e with
    | onGotUpstreamResponse g s r =>
        cases r with
        | data bs => cases he
        | error | again => exact ⟨rfl, rfl, rfl⟩
    | handleRequest | sendResponse | responseSendCb => cases he
    | _ => exact ⟨rfl, rfl, rfl⟩
  refine ⟨congrArg _ h.only.client, ?_, ?_, ?_⟩
  · simp only [ConnCtx.leftToServe]
    rw [hwork.worker, hwork.write]
    omega
  · simp only [ConnCtx.asked]
    rw [hno.1, Bool.toNat_false]
    omega
  · rw [hno.2.1, hno.2.2, hwork.write]

/-- A server that comes back is connected, or waits. -/
theorem leftToServe_reconnect (g s : Nat) (rv : Int) :
    (UpstreamConnect.connectTo rv (g, s) { SlotMode.closing.upstream g s with
      tcp := (SlotMode.closing.upstream g s).tcp.finish }).leftToServe ≤ 1 := by
  rw [UpstreamConnect.connectTo]
  by_cases hrv : rv = 0
  · simp only [if_pos hrv]
    exact Nat.le_refl 1
  · simp only [if_neg hrv]
    exact Nat.zero_le 1

/-- A callback that leaves the slots alone. -/
theorem servesOn_of_slot (hslot : t.slot = c.slot) (hclient : t.client.handle = c.client.handle)
    (hless : 3 * t.worker.queued + 2 * t.worker.ran + t.write <
      3 * c.worker.queued + 2 * c.worker.ran + c.write) (hreply : e.isReply = false)
    (hwrite : t.write + e.isWritten.toNat = c.write + e.isReport.toNat) : ServesOn c e t := by
  refine ⟨hclient, ?_, ?_, hwrite⟩
  · rw [ConnCtx.leftToServe, total_of_slot hslot]
    exact Nat.add_lt_add_left hless _
  · rw [ConnCtx.asked, total_of_slot hslot, hreply]
    exact Nat.add_zero _

theorem InSession.open (h : InSession conf k c) : c.client.handle.isOpen = true := by
  rw [h.books.client]
  rfl

theorem InSession.needMerge {g s : Nat} (h : InSession conf k c)
    (hread : (c.slot g s).tcp.reading = true) : c.request.web.needMerge ≠ 0 :=
  (h.asks (.inr ⟨g, s, Bool.or_eq_true_iff.2 (.inr hread)⟩)).merge

theorem InSession.servesOn (h : InSession conf k c) (hs : Callback conf c e t)
    (he : e.goesWell = true) : ServesOn c e t := by
  have hwork := hs.sameWork
  cases hs with
  | @connected g s status hc =>
      obtain ⟨hlt, hslot⟩ := h.books.find_connect hc
      exact (moves_upstreamConnectCb c (g, s) status).servesOn hlt hslot (hwork rfl)
        Nat.one_pos rfl rfl
  | @written g s status hw =>
      obtain ⟨hlt, hslot⟩ := h.books.find_write hw
      obtain rfl : status = 0 := of_decide_eq_true he
      have hcount : ∀ d : ConnCtx, Moves (g, s) id 0 0 0 d (d.addDistributeCount 1) :=
        fun d => moves_none rfl rfl rfl rfl rfl
      have hread := ((moves_modSlot c (g, s) fun up => { up with write := false }).trans
        (hcount _)).trans (moves_modSlot _ (g, s) fun up =>
          { up with tcp := up.tcp.readStart })
      rw [← distributeUpstreamCb_ok] at hread
      exact hread.servesOn hlt hslot (hwork rfl) (Nat.lt_succ_self 4) rfl rfl
  | @reply g s bs _ hread hbs =>
      obtain ⟨hlt, hslot⟩ := h.books.find_reading hread
      have hm := moves_readUpstream c (g, s) hbs
      have hasked : (readUpstream c g s bs).total UpstreamConnect.asked + 1 =
          c.total UpstreamConnect.asked + 0 := hm.total hlt hslot UpstreamConnect.asked
      have hwrite : (readUpstream c g s bs).write = c.write := by
        rw [readUpstream_eq hbs (h.needMerge hread)]
        rfl
      have hleft : (readUpstream c g s bs).total UpstreamConnect.leftToServe + 4 =
          c.total UpstreamConnect.leftToServe + 0 :=
        hm.total hlt hslot UpstreamConnect.leftToServe
      refine ⟨congrArg _ hm.only.client, ?_, hasked.trans (Nat.add_zero _), hwrite⟩
      simp only [ConnCtx.leftToServe]
      rcases worker_readUpstream c g s hbs with heq | heq
      · rw [heq, hwrite]
        omega
      · simp only [heq, hwrite, Uv.Work.queue]
        omega
  | @tcpClosed g s rv cb hph =>
      obtain ⟨hlt, hslot, hm⟩ := Books.moves_reconnect h.books hph rv
      exact hm.servesOn hlt hslot (hwork rfl) (Nat.lt_succ_of_le (leftToServe_reconnect g s rv))
        rfl rfl
  | handled hqueued =>
      obtain ⟨up, response, len, heq⟩ := workerHandler_eq conf c
      rw [handleRequest, heq]
      refine servesOn_of_slot rfl rfl ?_ rfl rfl
      show 3 * (c.worker.queued - 1) + 2 * (c.worker.ran + 1) + c.write < _
      omega
  | @responded status hran =>
      have hstatus : ¬ status < 0 := Int.not_lt.2 (of_decide_eq_true he)
      have heq : sendResponse { c with worker := c.worker.report } status =
          { c with worker := c.worker.report, write := c.write + 1 } := by
        rw [sendResponse, if_neg hstatus, ConnCtx.uvWriteClient, if_pos h.open]
      rw [heq]
      refine servesOn_of_slot rfl rfl ?_ rfl rfl
      show 3 * c.worker.queued + 2 * (c.worker.ran - 1) + (c.write + 1) < _
      omega
  | responseSent hpos =>
      refine servesOn_of_slot rfl rfl ?_ rfl (Nat.sub_add_cancel hpos)
      show 3 * c.worker.queued + 2 * c.worker.ran + (c.write - 1) < _
      omega
  | timerClosed hph => exact absurd hph (Books.timer_not_closing h.books)
  | _ => cases he

/-! ## Going on

Whatever is left of a slot waits for one callback, and that callback can run: a
connect or a write is answered, a close is finished, and a server that is awaited
may send a head alone, for which there is always room. So the run can go on until
nothing is due. -/

/-- The callback does not fail, a reply stays inside, and none is read while the worker
is using the ones before. -/
structure GoesWell (c : ConnCtx) (e : Event) : Prop where
  event : e.goesWell = true
  inside : ReplyInside c e
  alone : WorkerAlone c e

instance (c : ConnCtx) (e : Event) : Decidable (GoesWell c e) :=
  decidable_of_iff (e.goesWell = true ∧ ReplyInside c e ∧ WorkerAlone c e)
    ⟨fun ⟨he, hin, halone⟩ => ⟨he, hin, halone⟩, fun h => ⟨h.event, h.inside, h.alone⟩⟩

theorem InSession.step (h : InSession conf k c) (he : GoesWell c e)
    (hs : UiServer.step conf c e = some t) : InSession conf k t := by
  have hcb := callback_of_step hs
  refine (h.callback hcb).resolve_right fun hclosed => ?_
  have hopen := h.open
  rw [← (h.servesOn hcb he.event).client, hclosed] at hopen
  cases hopen

/-- A slot that something is left of gets one of its callbacks; a server that is awaited
may answer with a head alone. -/
theorem InSession.canGoOn_slot {g s : Nat} (h : InSession conf k c) (hroom : HasRoom c)
    (hdone : c.worker.Done) (hleft : (c.slot g s).leftToServe ≠ 0) :
    Lts.CanGoOn (UiServer.step conf) GoesWell c := by
  have hs : s < conf.width g := by
    by_contra hs
    have hunused := h.books.outside g s hs
    refine hleft ?_
    rw [UpstreamConnect.leftToServe, hunused.connect, hunused.tcp, hunused.write]
    rfl
  obtain ⟨m, -, hslot⟩ := h.books.slots g s hs
  rw [hslot] at hleft
  cases m with
  | waiting | idle => exact absurd rfl hleft
  | connecting =>
      refine ⟨.upstreamConnectCb g s 0, ⟨rfl, trivial, trivial⟩, ?_⟩
      simp only [UiServer.step, hslot]
      rfl
  | writing =>
      refine ⟨.distributeUpstreamCb g s 0, ⟨rfl, trivial, trivial⟩, ?_⟩
      simp only [UiServer.step, hslot]
      rfl
  | awaiting =>
      refine ⟨.onGotUpstreamResponse g s (.data (tplReply 0 0).bytes),
        ⟨rfl, replyInside_iff.2 hroom, hdone⟩, ?_⟩
      simp only [UiServer.step, hslot]
      rfl
  | closing =>
      refine ⟨.upstreamTcpClosed g s 0, ⟨rfl, trivial, trivial⟩, ?_⟩
      simp only [UiServer.step, hslot]
      rfl

theorem nothingDue_slot {up : UpstreamConnect} (h : up.leftToServe = 0) :
    up.connect = false ∧ up.write = false ∧ up.tcp.reading = false ∧
      ∀ cb, up.tcp.handle.phase ≠ .closing cb := by
  have hflag : ∀ b : Bool, b.toNat = 0 → b = false := fun b hb => by
    cases b
    · rfl
    · cases hb
  rw [UpstreamConnect.leftToServe] at h
  refine ⟨hflag _ (by omega), hflag _ (by omega), hflag _ (by omega), fun cb hcb => ?_⟩
  have hlive := hflag (up.tcp.handle.live && !up.tcp.handle.isOpen) (by omega)
  rw [Uv.Handle.live, Uv.Handle.isOpen, hcb] at hlive
  cases hlive

theorem InSession.next (h : InSession conf k c) (hroom : HasRoom c) :
    NothingDue c ∨ Lts.CanGoOn (UiServer.step conf) GoesWell c := by
  by_cases hqueued : 0 < c.worker.queued
  · refine .inr ⟨.handleRequest, ⟨rfl, trivial, trivial⟩, ?_⟩
    simp only [UiServer.step, hqueued, if_true]
    rfl
  by_cases hran : 0 < c.worker.ran
  · refine .inr ⟨.sendResponse 0, ⟨rfl, trivial, trivial⟩, ?_⟩
    simp only [UiServer.step, hran, if_true]
    rfl
  by_cases hwrite : 0 < c.write
  · refine .inr ⟨.responseSendCb 0, ⟨rfl, trivial, trivial⟩, ?_⟩
    simp only [UiServer.step, hwrite, if_true]
    rfl
  have hdone : c.worker.Done := ⟨by omega, by omega⟩
  by_cases hslot : ∃ g s, (c.slot g s).leftToServe ≠ 0
  · obtain ⟨g, s, hleft⟩ := hslot
    exact .inr (h.canGoOn_slot hroom hdone hleft)
  · refine .inl ⟨fun g s => nothingDue_slot ?_, hdone, by omega⟩
    exact Classical.byContradiction fun hne => hslot ⟨g, s, hne⟩

/-- The invariant of an open connection on which a request is served: its session, and
the room for a reply. -/
structure InService (conf : Conf) (k : Int) (c : ConnCtx) : Prop where
  session : InSession conf k c
  room : HasRoom c

theorem InService.step (h : InService conf k c) (he : GoesWell c e)
    (hs : UiServer.step conf c e = some t) : InService conf k t :=
  ⟨h.session.step he hs, (callback_of_step hs).hasRoom he.inside h.room⟩

/-! ## The replies of a run

Each reply is merged behind the ones before, and takes one off the servers that
were asked. At the end of the run no server is left, so there were as many replies
as servers, and the merged reply is made of all of them. -/

def Event.reply? : Event → Option Bytes
  | .onGotUpstreamResponse _ _ (.data bs) => some bs
  | _ => none

def repliesOf (es : List Event) : List Bytes := es.filterMap Event.reply?

theorem isSome_reply? (e : Event) : e.reply?.isSome = e.isReply := by
  cases e with
  | onGotUpstreamResponse g s r => cases r <;> rfl
  | _ => rfl

theorem length_repliesOf (es : List Event) : (repliesOf es).length = es.countP Event.isReply := by
  rw [repliesOf, List.length_filterMap_eq_countP]
  exact List.countP_congr fun e _ => by rw [isSome_reply?]

theorem InSession.merges (h : InSession conf k c) (he : GoesWell c e)
    (hs : Callback conf c e t) :
    t.upstreamResponse = e.reply?.elim c.upstreamResponse (mergeRead c.upstreamResponse) := by
  rw [hs.upstreamResponse]
  cases e with
  | onRequest r => cases he.event
  | onGotUpstreamResponse g s r =>
      cases r with
      | data bs =>
          cases hs with
          | reply _ hread _ => exact if_neg (h.needMerge hread)
      | error | again => rfl
  | _ => rfl

theorem InSession.merged_run (h : InSession conf k c) {fs : List Event}
    (hrun : Lts.run (UiServer.step conf) c fs = some t)
    (hwell : Lts.Steps (UiServer.step conf) GoesWell c fs) :
    t.upstreamResponse = (repliesOf fs).foldl mergeRead c.upstreamResponse := by
  rw [Lts.run_foldl (f := ConnCtx.upstreamResponse)
    (g := fun r e => e.reply?.elim r (mergeRead r)) (fun hI hP hs => hI.step hP hs)
    (fun hI hP hs => hI.merges hP (callback_of_step hs)) h hrun hwell, repliesOf,
    List.foldl_filterMap]
  congr 1
  funext r e
  cases e.reply? <;> rfl

/-- Each reply is one of the servers that were asked. -/
theorem InSession.asked_run (h : InSession conf k c) {fs : List Event}
    (hrun : Lts.run (UiServer.step conf) c fs = some t)
    (hwell : Lts.Steps (UiServer.step conf) GoesWell c fs) :
    t.asked + fs.countP Event.isReply = c.asked := by
  have hcount := Lts.run_balance (w := ConnCtx.asked) (p := Event.isReply) (q := fun _ => false)
    (fun hI hP hs => hI.step hP hs)
    (fun hI hP hs => by
      rw [(hI.servesOn (callback_of_step hs) hP.event).asked, Bool.toNat_false, Nat.add_zero])
    h hrun hwell
  rwa [List.countP_false, Function.const_apply, Nat.add_zero] at hcount

/-! ## The last run of the worker

Nothing but the worker takes work off its queue, and the reply behind which no
other is awaited has put it there. So the worker runs behind the last reply, and
no reply comes after its last run. -/

/-- Only a run of the worker takes something off its queue. -/
theorem Callback.queued (h : Callback conf c e t) (he : e.isRun = false) :
    c.worker.queued ≤ t.worker.queued := by
  have hsame : e.works = false → c.worker.queued ≤ t.worker.queued := fun hw => by
    rw [(h.sameWork hw).worker]
  cases h with
  | reply _ _ hbs =>
      rcases worker_readUpstream c _ _ hbs with heq | heq
      · rw [heq]
      · rw [heq]
        exact Nat.le_succ _
  | handled => cases he
  | responded =>
      rcases sendResponse_eq { c with worker := c.worker.report } _ with heq | ⟨_, heq⟩
      · rw [heq]
        exact Nat.le_refl _
      · rw [heq]
        exact Nat.le_refl _
  | responseSent => exact Nat.le_refl _
  | _ => exact hsame rfl

theorem awaits_le_asked (c : ConnCtx) : c.awaits ≤ c.asked := by
  unfold ConnCtx.awaits ConnCtx.asked ConnCtx.total Ledger.total
  exact Finset.sum_le_sum fun p _ => Nat.le_add_left _ (c.slotAt p).write.toNat

/-- The reply after which no other is awaited queues the worker. -/
theorem InSession.queues (h : InSession conf 0 c) (hs : Callback conf c e t)
    (ht : InSession conf 0 t) (he : e.isReply = true) (hasked : t.asked = 0) :
    0 < t.worker.queued := by
  have hnone := awaits_le_asked t
  have hpending := hs.pending
  rw [ht.counts, pending_of_isReply he, ConnCtx.pending] at hpending
  cases hs with
  | reply _ hread hbs =>
      rw [readUpstream_eq hbs (h.needMerge hread)]
      simp only []
      rw [if_pos (by omega)]
      exact Nat.succ_pos _
  | _ => cases he

/-! ## The request is answered

The run is cut at the last run of the worker. In front of it all replies are
merged; behind it nothing makes another response, and the report of that run
begins the write whose end is still to be seen in the run. -/

/-- What a run `fs` from `c` to `t` has done for the client: every server that was asked
has answered, and after the last answer the worker made a response out of all of them,
which is what was sent last. -/
structure Served (conf : Conf) (c : ConnCtx) (fs : List Event) (t : ConnCtx) : Prop where
  replies : (repliesOf fs).length = c.asked
  merged : t.upstreamResponse = (repliesOf fs).foldl mergeRead c.upstreamResponse
  answered : ∃ pre post d, fs = pre ++ .handleRequest :: post ∧
    Lts.run (UiServer.step conf) c pre = some d ∧ d.upstreamResponse = t.upstreamResponse ∧
    (∀ f ∈ post, f.answers = false) ∧ responseText t = responseText (workerHandler conf d) ∧
    ∃ status, .responseSendCb status ∈ post

theorem GoesWell.answers (he : GoesWell c e) (hrun : e.isRun = false) : e.answers = false := by
  cases e with
  | onRequest r => cases he.event
  | handleRequest => cases hrun
  | _ => rfl

theorem ServesOn.reply_write (h : ServesOn c e t) (he : e.isReply = true) :
    t.write = c.write := by
  have hwrite := h.write
  cases e with
  | onGotUpstreamResponse g s r =>
      cases r with
      | data bs => exact hwrite
      | error | again => cases he
  | _ => cases he

theorem NothingDue.asked (h : NothingDue c) : c.asked = 0 := by
  unfold ConnCtx.asked ConnCtx.total
  refine Ledger.total_of_zero fun p _ => ?_
  obtain ⟨-, hwrite, hread, -⟩ := h.slots p.1 p.2
  rw [ConnCtx.slotAt, UpstreamConnect.asked, hwrite, hread]
  rfl

variable {fs : List Event}

theorem repliesOf_none (h : ∀ e ∈ fs, e.isReply = false) : repliesOf fs = [] := by
  refine List.length_eq_zero_iff.1 ?_
  rw [length_repliesOf, List.countP_eq_zero]
  exact fun e he => ne_true_of_eq_false (h e he)

/-- After a run of the worker has been reported, something was sent. -/
theorem InSession.sent (h : InSession conf k c)
    (hrun : Lts.run (UiServer.step conf) c fs = some t)
    (hwell : Lts.Steps (UiServer.step conf) GoesWell c fs) (hran : 0 < c.worker.ran)
    (hdone : NothingDue t) : ∃ status, .responseSendCb status ∈ fs := by
  have hreports := Lts.run_balance (w := fun c => c.worker.ran) (p := Event.isReport)
    (q := Event.isRun) (fun hI hP hs => hI.step hP hs)
    (fun hI hP hs => ((callback_of_step hs).accounts
      (hI.servesOn (callback_of_step hs) hP.event).reply_write).ran) h hrun hwell
  have hwrites := Lts.run_balance (w := ConnCtx.write) (p := Event.isWritten)
    (q := Event.isReport) (fun hI hP hs => hI.step hP hs)
    (fun hI hP hs => (hI.servesOn (callback_of_step hs) hP.event).write) h hrun hwell
  have hnone := hdone.worker.2
  have hzero := hdone.write
  have hpos : 0 < fs.countP Event.isWritten := by omega
  obtain ⟨e, he, hwritten⟩ := List.countP_pos_iff.1 hpos
  cases e with
  | responseSendCb status => exact ⟨status, he⟩
  | _ => cases hwritten

theorem InSession.served (h : InSession conf 0 c) (hasked : 0 < c.asked)
    (hrun : Lts.run (UiServer.step conf) c fs = some t)
    (hwell : Lts.Steps (UiServer.step conf) GoesWell c fs) (hdone : NothingDue t) :
    Served conf c fs t := by
  have hcount := h.asked_run hrun hwell
  rw [hdone.asked, Nat.zero_add] at hcount
  refine ⟨(length_repliesOf fs).trans hcount, h.merged_run hrun hwell, ?_⟩
  have hinv : ∀ {c d : ConnCtx} {es : List Event}, InSession conf 0 c →
      Lts.run (UiServer.step conf) c es = some d →
      Lts.Steps (UiServer.step conf) GoesWell c es → InSession conf 0 d :=
    fun hI => Lts.steps_inv (fun hI hP hs => hI.step hP hs) hI
  -- the last reply queues the worker
  obtain ⟨pre, r, rest, c₁, d₁, rfl, hr, hnoReply, hc₁, hd₁, hrest⟩ :=
    (Lts.run_last Event.isReply hrun).resolve_left fun hno => by
      rw [List.countP_eq_zero.2 fun e he => ne_true_of_eq_false (hno e he)] at hcount
      omega
  have hI₁ := hinv h hc₁ hwell.before
  have hwell₁ := hwell.after hc₁
  have hI₂ := hI₁.step hwell₁.1 hd₁
  have hwell₂ := hwell₁.2 d₁ hd₁
  have hasked₁ : d₁.asked = 0 := by
    have hcount₁ := hI₂.asked_run hrest hwell₂
    rw [hdone.asked, ← length_repliesOf, repliesOf_none hnoReply] at hcount₁
    exact hcount₁.symm
  have hqueued := hI₁.queues (callback_of_step hd₁) hI₂ hr hasked₁
  -- so the worker runs after it
  obtain ⟨mid, e, post, d, u, rfl, he, hnoRun, hd, hu, hpost⟩ :=
    (Lts.run_last Event.isRun hrest).resolve_left fun hno => by
      have hkept := Lts.run_keeps (Q := fun c => 0 < c.worker.queued) (p := Event.isRun)
        (fun hQ he hs => Nat.lt_of_lt_of_le hQ ((callback_of_step hs).queued he)) hqueued hno
        hrest
      exact absurd hdone.worker.1 (Nat.pos_iff_ne_zero.1 hkept)
  have hId := hinv hI₂ hd hwell₂.before
  have hwell₃ := hwell₂.after hd
  have hIu := hId.step hwell₃.1 hu
  have hwell₄ := hwell₃.2 u hu
  have hnoAnswer : ∀ f ∈ post, f.answers = false := fun f hf => by
    obtain ⟨m, hm⟩ := Lts.steps_mem hpost hwell₄ f hf
    exact hm.answers (hnoRun f hf)
  cases e with
  | handleRequest =>
      refine ⟨pre ++ r :: mid, post, d, by simp, Lts.run_append.2 ⟨c₁, hc₁,
        Lts.run_cons.2 ⟨d₁, hd₁, hd⟩⟩, ?_, hnoAnswer, ?_, ?_⟩
      · have hmerged := hId.merged_run (Lts.run_cons.2 ⟨u, hu, hpost⟩) hwell₃
        rw [repliesOf_none fun f hf => hnoReply f (List.mem_append_right _ hf)] at hmerged
        exact hmerged.symm
      · have htext := Lts.run_keeps (Q := fun t => responseText t = responseText u)
          (p := Event.answers) (fun hQ he ht => ((callback_of_step ht).text he).trans hQ) rfl
          hnoAnswer hpost
        rw [htext]
        cases callback_of_step hu with
        | handled => rfl
      · refine hIu.sent hpost hwell₄ ?_ hdone
        cases callback_of_step hu with
        | handled => exact Nat.succ_pos _
  | _ => cases he

theorem atWork_of_asked (h : 0 < c.asked) : AtWork c := by
  by_contra hno
  have hzero : c.asked = 0 := by
    unfold ConnCtx.asked ConnCtx.total
    refine Ledger.total_of_zero fun p _ => ?_
    have hidle : (c.slot p.1 p.2).busy = false :=
      Bool.eq_false_iff.2 fun hbusy => hno (.inr ⟨p.1, p.2, hbusy⟩)
    obtain ⟨hwrite, hread⟩ := Bool.or_eq_false_iff.1 hidle
    rw [ConnCtx.slotAt, UpstreamConnect.asked, hwrite, hread]
    rfl
  omega

/-- A connection whose request was written to a server, in a run that stays inside. -/
theorem inService_of_run {m : ConnCtx} (hm : m.pending = 0) {rvs : Nat → Nat → Int}
    {accept : Int} {es : List Event}
    (hinside : RunInside conf (onNewConnection conf m rvs accept) es c)
    (hopen : c.client.handle.isOpen = true) (hasked : 0 < c.asked) : InService conf 0 c := by
  refine ⟨?_, hasRoom_of_run hinside hopen (.inl (atWork_of_asked hasked))⟩
  rw [← hm]
  refine (session_of_run hinside.run).resolve_right fun hclosed => ?_
  rw [hopen] at hclosed
  cases hclosed

/-- Once a request was written to a server, and as long as all goes well: the callbacks
come to an end in any order, none of them gets stuck before, and then the client was sent
a response made out of the answers of all servers that were asked. -/
theorem request_served {m : ConnCtx} (hm : m.pending = 0) {rvs : Nat → Nat → Int}
    {accept : Int} {es : List Event}
    (hinside : RunInside conf (onNewConnection conf m rvs accept) es c)
    (hopen : c.client.handle.isOpen = true) (hasked : 0 < c.asked) :
    Lts.Comes (step conf) GoesWell NothingDue c.leftToServe c ∧
      ∀ fs t, Lts.run (step conf) c fs = some t → Lts.Steps (step conf) GoesWell c fs →
        NothingDue t → Served conf c fs t := by
  have h := inService_of_run hm hinside hopen hasked
  refine ⟨Lts.comes_of_rank (I := InService conf 0) (fun hI hP hs => hI.step hP hs)
    (fun hI hP hs => (hI.session.servesOn (callback_of_step hs) hP.event).less)
    (fun hI => hI.session.next hI.room) h, ?_⟩
  exact fun fs t hfs hwell hdone => h.session.served hasked hfs hwell hdone

/-- A request is written to two servers: ten callbacks at most. -/
theorem request_served_both :
    ∃ c, Lts.run (step twoGroups) (onNewConnection twoGroups .zeroed (fun _ _ => 0) 0)
        twoGroupsEvents = some c ∧ c.asked = 2 ∧
      Lts.Comes (step twoGroups) GoesWell NothingDue 10 c ∧
      ∀ fs t, Lts.run (step twoGroups) c fs = some t →
        Lts.Steps (step twoGroups) GoesWell c fs → NothingDue t →
          Served twoGroups c fs t := by
  have hrun : ((Lts.run (step twoGroups)
      (onNewConnection twoGroups .zeroed (fun _ _ => 0) 0) twoGroupsEvents).map fun c =>
        (c.asked, c.leftToServe, c.client.handle.isOpen)) = some (2, 10, true) := by
    decide +kernel
  obtain ⟨c, hc, heq⟩ := Option.map_eq_some_iff.1 hrun
  obtain ⟨hasked, hleft, hopen⟩ : c.asked = 2 ∧ c.leftToServe = 10 ∧ _ = true := by
    simpa only [Prod.mk.injEq] using heq
  have hinside := runInside_of_passes hc (by decide +kernel)
  have hserved := request_served rfl hinside hopen (hasked ▸ Nat.two_pos)
  rw [hleft] at hserved
  exact ⟨c, hc, hasked, hserved⟩

end

end UiServer
