import UiServer.Proofs.NeedClose

/-!
# Nothing is closed twice or used after its free

`context_close` leaves the idle handle and the worker as they are, and the
writes it cancels come back through `upstream_server_err`, which closes the
slot once more. A connection is let go of in order when none of this is under
way: `ClosesInOrder` says so of each step, and `closed_once` that every run of
such steps closes each handle once and ends with the free.
-/

namespace UiServer

/-- No slot is being written to or closed for a reconnect. -/
def NothingInFlight (c : ConnCtx) : Prop :=
  NoneClosing c ∧ ∀ g s, (c.slot g s).write = false

/-- The condition. The connection is closed, by the client or because the
request has gone to no upstream, only while nothing is in flight to a slot and
the idle handle will not call back; and the worker is done when the last close
callback comes. -/
def ClosesInOrder (conf : Conf) (c : ConnCtx) : Event → Prop
  | .onRequest .error => NothingInFlight c ∧ c.idler.active = false
  | .onRequest (.data bs) =>
      (receiveRequest c bs).request.web.MagicOk ∨
        NothingInFlight c ∧ c.idler.active = false
  | .doDistribute rvs =>
      needWaitUpstream conf c = true ∨ Serves conf c rvs ∨
        NonePicked conf c ∧ NothingInFlight c
  | .upstreamTcpClosed _ _ _ | .upstreamTimerClosed _ _ | .clientClosed =>
      c.needClose ≤ 1 → c.worker.Done
  | _ => True

/-- Each handle was closed at most once since its initialisation, and no
callback of a context that was freed is still to come. -/
structure ClosedOnce (conf : Conf) (c : ConnCtx) : Prop where
  client : c.client.handle.closes ≤ 1
  tcp : ∀ g s, (c.slot g s).tcp.handle.closes ≤ 1
  timer : ∀ g s, (c.slot g s).timer.closes ≤ 1
  freed : 0 < c.frees → ∀ e, step conf c e = none

/-- What a connection that is being closed in order has left to do: nothing
but close callbacks, connects that are cancelled, and what the worker does. -/
structure Still (c : ConnCtx) : Prop where
  idler : c.idler.active = false
  write : ∀ g s, (c.slot g s).write = false
  connect : ∀ g s, (c.slot g s).tcp.handle.phase = .closed → (c.slot g s).connect = false
  response : c.client.handle.phase = .closed → c.write = 0
  worker : 0 < c.frees → c.worker.Done

section

variable {conf : Conf} {errs : Prop} {c d t : ConnCtx}

/-! ## Closing

`context_close` is called from three places, and in each of them the condition
says that nothing is in flight to a slot and that the idle handle is stopped. So
the connection is `Still` from its first moment: what is left are the callbacks
that closing brings about. -/

theorem OpenBooks.still (h : OpenBooks conf errs d) (hflight : NothingInFlight d)
    (hidler : d.idler.active = false) : Still (UiServer.contextClose conf d) := by
  have hslot := OpenBooks.slot_contextClose h
  have hfrees : (UiServer.contextClose conf d).frees = d.frees :=
    upstreamClean_frame (·.frees) (fun _ _ _ _ => rfl) conf d
  refine ⟨?_, fun g s => ?_, fun g s hph => ?_, fun hph => ?_, fun hpos => ?_⟩
  · rw [idler_contextClose, hidler]
  · rw [hslot]
    split
    · exact hflight.2 g s
    · exact hflight.2 g s
  · rw [hslot] at hph ⊢
    split at hph
    · cases hph
    · next hs =>
        rw [if_neg hs]
        exact (h.outside g s hs).connect
  · rw [client_contextClose] at hph
    cases hph
  · rw [hfrees, h.frees] at hpos
    exact absurd hpos (Nat.lt_irrefl 0)

theorem ClosedIn.nothingInFlight {e : Event} (h : ClosedIn conf c d e)
    (hc : NothingInFlight c) : NothingInFlight d := by
  have hslot : d.slot = c.slot := by
    funext g s
    simp only [ConnCtx.slot, ConnCtx.group]
    rw [h.gs]
  rw [NothingInFlight, NoneClosing, hslot]
  exact hc

theorem ClosesInOrder.still {e : Event} (hP : ClosesInOrder conf c e)
    (hcl : ClosedIn conf c d e) (hd : OpenBooks conf errs d) :
    Still (contextClose conf d) := by
  have hcloses := hcl.closes
  have hundisturbed : NothingInFlight c ∧ c.idler.active = false →
      Still (contextClose conf d) := by
    rintro ⟨hflight, hidler⟩
    refine OpenBooks.still hd (hcl.nothingInFlight hflight) ?_
    by_contra hact
    have hact' := (hcl.idler (Bool.of_not_eq_false hact)).1
    rw [hidler] at hact'
    cases hact'
  cases e with
  | onRequest r =>
      cases r with
      | error => exact hundisturbed hP
      | again => exact hcloses.elim
      | data bs => exact hundisturbed (hP.resolve_left hcloses)
  | doDistribute rvs =>
      obtain ⟨_, hflight⟩ := (hP.resolve_left hcloses.1).resolve_left hcloses.2
      refine OpenBooks.still hd (hcl.nothingInFlight hflight) ?_
      by_contra hact
      exact (hcl.idler (Bool.of_not_eq_false hact)).2 rvs rfl
  | _ => exact hcloses.elim

/-! ## Being closed

A connection that is being closed stays still. What could stir it is the write
that was cancelled and comes back through `upstream_server_err`, and the idle
handle; the condition at the close has kept both away. -/

/-- A close callback that frees the context finds the worker done. -/
theorem Still.countDown (h : Still t) (hdone : t.needClose ≤ 1 → t.worker.Done) :
    Still (countDown t) := by
  simp only [UiServer.countDown]
  split
  · next hlt =>
      have hlt' : t.needClose + -1 < 1 := hlt
      exact ⟨h.idler, h.write, h.connect, h.response, fun _ => hdone (by omega)⟩
  · exact ⟨h.idler, h.write, h.connect, h.response, h.worker⟩

theorem Still.modSlot (h : Still c) {g s : Nat} {f : UpstreamConnect → UpstreamConnect}
    (hwrite : (f (c.slot g s)).write = false)
    (hconnect : (f (c.slot g s)).tcp.handle.phase = .closed →
      (f (c.slot g s)).connect = false) : Still (c.modSlot g s f) := by
  refine ⟨h.idler, fun g' s' => ?_, fun g' s' => ?_, h.response, h.worker⟩
  · rw [ConnCtx.slot_modSlot]
    split
    · exact hwrite
    · exact h.write g' s'
  · rw [ConnCtx.slot_modSlot]
    split
    · exact hconnect
    · exact h.connect g' s'

theorem ClosingBooks.orderly {e : Event} (h : ClosingBooks conf c) (hst : Still c)
    (hs : UiServer.step conf c e = some t) : Orderly conf True c e := by
  cases e with
  | onRequest r =>
      cases r with
      | error => exact h.noneClosing
      | again => trivial
      | data bs => exact .inr h.noneClosing
  | doDistribute rvs =>
      simp only [UiServer.step, hst.idler] at hs
      cases hs
  | distributeUpstreamCb g s status =>
      simp only [UiServer.step, hst.write] at hs
      cases hs
  | onGotUpstreamResponse g s r => cases r <;> trivial
  | _ => trivial

theorem Still.upstreamConnectCb (h : Still c) (g s : Nat) (status : Int) :
    Still (upstreamConnectCb
      (c.modSlot g s fun up => { up with connect := false }) g s status) := by
  have hoff : Still (c.modSlot g s fun up => { up with connect := false }) :=
    h.modSlot (h.write g s) fun _ => rfl
  generalize (c.modSlot g s fun up => { up with connect := false }) = d at hoff
  have hcount : ∀ {d : ConnCtx} {k : Int}, Still d → Still (d.addConnecting g k) := by
    intro d k hd
    refine ⟨hd.idler, ?_, ?_, hd.response, hd.worker⟩
    · rw [ConnCtx.slot_addConnecting]
      exact hd.write
    · rw [ConnCtx.slot_addConnecting]
      exact hd.connect
  have hstatus : ∀ {d : ConnCtx} {st : UpstreamConnectStatus}, Still d →
      Still (d.setStatus g s st) := fun hd =>
    hd.modSlot (hd.write g s) (hd.connect g s)
  simp only [UiServer.upstreamConnectCb]
  split
  · exact hstatus (hstatus (hcount hoff))
  · have hidle := @hstatus _ .idle (hcount (k := -1) hoff)
    refine ⟨hidle.idler, ?_, ?_, hidle.response, hidle.worker⟩
    · rw [ConnCtx.slot_addSockNum]
      exact hidle.write
    · rw [ConnCtx.slot_addSockNum]
      exact hidle.connect

theorem Still.not_freed (h : Still c) (hw : ¬ c.worker.Done) : ¬ 0 < c.frees :=
  fun hpos => hw (h.worker hpos)

theorem Still.step {e : Event} (h : Still c) (hb : ClosingBooks conf c)
    (hP : ClosesInOrder conf c e) (hs : step conf c e = some t) : Still t := by
  have hclient := hb.client_not_open
  have hslot : ∀ {g s : Nat}, ¬ (c.slot g s).tcp.handle.isOpen = true := hb.tcp_not_open _ _
  have hidler : ¬ c.idler.active = true := by
    rw [h.idler]
    exact Bool.false_ne_true
  cases callback_of_step hs with
  | readFailed hopen => exact absurd hopen hclient
  | taken hopen => exact absurd hopen hclient
  | refused hopen => exact absurd hopen hclient
  | waits hactive => exact absurd hactive hidler
  | distributed hactive => exact absurd hactive hidler
  | unserved hactive => exact absurd hactive hidler
  | replyFailed hopen => exact absurd hopen hslot
  | reply hopen => exact absurd hopen hslot
  | @written g s _ hwrite =>
      rw [h.write g s] at hwrite
      cases hwrite
  | readAgain => exact h
  | replyAgain => exact h
  | @connected g s status => exact h.upstreamConnectCb g s status
  | @tcpClosed g s rv cb hph hconnect =>
      obtain ⟨rfl, _⟩ := (hb.slots g s (hb.lt_width (.inl hph))).tcp.phase hph
      exact Still.countDown (h.modSlot (h.write g s) fun _ => hconnect) hP
  | @timerClosed g s cb hph =>
      obtain ⟨rfl, _⟩ := (hb.slots g s (hb.lt_width (.inr hph))).timer.phase hph
      exact Still.countDown (h.modSlot (h.write g s) (h.connect g s)) hP
  | clientClosed _ hzero =>
      exact Still.countDown ⟨h.idler, h.write, h.connect, fun _ => hzero, h.worker⟩ hP
  | handled hqueued =>
      have hnot := h.not_freed fun hdone => by rw [hdone.1] at hqueued; cases hqueued
      obtain ⟨up, response, len, heq⟩ := workerHandler_eq conf c
      rw [handleRequest, heq]
      exact ⟨h.idler, h.write, h.connect, h.response, fun hpos => absurd hpos hnot⟩
  | @responded status hran =>
      have hnot := h.not_freed fun hdone => by rw [hdone.2] at hran; cases hran
      rcases sendResponse_eq { c with worker := c.worker.report } status with
        heq | ⟨hopen, _⟩
      · rw [heq]
        exact ⟨h.idler, h.write, h.connect, h.response, fun hpos => absurd hpos hnot⟩
      · exact absurd hopen hclient
  | responseSent hpos =>
      refine ⟨h.idler, h.write, h.connect, fun hph => ?_, h.worker⟩
      rw [h.response hph] at hpos
      cases hpos

/-! ## After the free

The free is done by the callback that finds `need_close` at one, and that is the
number of the handles still there. So all of them are closed by then, and with the
worker done there is no event left whose guard could be met. -/

theorem ClosingBooks.all_closed (h : ClosingBooks conf c) (hpos : 0 < c.frees) :
    c.client.handle.phase = .closed ∧ ∀ g s, s < conf.width g →
      (c.slot g s).tcp.handle.phase = .closed ∧ (c.slot g s).timer.phase = .closed := by
  have hdue : c.due = 0 := by
    by_contra hne
    rw [h.frees, if_neg hne] at hpos
    cases hpos
  have hsum : c.client.handle.live.toNat + Ledger.total allSlots UpstreamConnect.counted
      c.slotAt = 0 := hdue
  constructor
  · rcases h.client with hcl | hcl
    · rw [hcl] at hsum
      have hone : (Uv.Handle.mk (.closing CloseCb.contextClean) 1).live.toNat = 1 := rfl
      omega
    · rw [hcl]
  · intro g s hs
    have hzero : (c.slot g s).counted = 0 :=
      Ledger.total_eq_zero (Nat.eq_zero_of_add_eq_zero_left hsum) (Conf.mem_allSlots hs)
    rw [UpstreamConnect.counted] at hzero
    constructor
    · rcases (h.slots g s hs).tcp with htcp | htcp
      · rw [htcp] at hzero
        exact absurd (Nat.eq_zero_of_add_eq_zero_left hzero) (by decide)
      · rw [htcp]
    · rcases (h.slots g s hs).timer with htimer | htimer
      · rw [htimer] at hzero
        exact absurd (Nat.eq_zero_of_add_eq_zero_right hzero) (by decide)
      · rw [htimer]

theorem ClosingBooks.freed (h : ClosingBooks conf c) (hst : Still c) (hpos : 0 < c.frees)
    (e : Event) : UiServer.step conf c e = none := by
  obtain ⟨hclient, hslots⟩ := h.all_closed hpos
  have hdone := hst.worker hpos
  cases e with
  | onRequest r => simp only [UiServer.step, h.client.not_open]; rfl
  | doDistribute rvs => simp only [UiServer.step, hst.idler]; rfl
  | upstreamConnectCb g s status =>
      have hoff : (c.slot g s).connect = false := by
        by_cases hs : s < conf.width g
        · exact hst.connect g s (hslots g s hs).1
        · exact (h.outside g s hs).connect
      simp only [UiServer.step, hoff]
      rfl
  | distributeUpstreamCb g s status => simp only [UiServer.step, hst.write]; rfl
  | onGotUpstreamResponse g s r => simp only [UiServer.step, h.slot_not_open g s]; rfl
  | upstreamTcpClosed g s rv =>
      simp only [UiServer.step]
      split
      · next cb hph =>
          by_cases hs : s < conf.width g
          · rw [(hslots g s hs).1] at hph
            cases hph
          · rw [(h.outside g s hs).tcp] at hph
            cases hph
      · rfl
  | upstreamTimerClosed g s =>
      simp only [UiServer.step]
      split
      · next cb hph =>
          by_cases hs : s < conf.width g
          · rw [(hslots g s hs).2] at hph
            cases hph
          · rw [(h.outside g s hs).timer] at hph
            cases hph
      · rfl
  | clientClosed => simp only [UiServer.step, hclient]
  | handleRequest => simp only [UiServer.step, hdone.1]; rfl
  | sendResponse status => simp only [UiServer.step, hdone.2]; rfl
  | responseSendCb status => simp only [UiServer.step, hst.response hclient]; rfl

/-! ## Every run

An open connection has its books, one that is being closed has its own, and the
step from the one to the other meets `Orderly`. Both give the property, so it
holds in every state. -/

theorem SlotMode.tcp_closes (m : SlotMode) : m.tcp.handle.closes ≤ 1 := by
  cases m <;> decide

theorem OpenBooks.closedOnce (h : OpenBooks conf errs c) : ClosedOnce conf c := by
  refine ⟨by rw [h.client]; decide, fun g s => ?_, fun g s => ?_, fun hpos => ?_⟩
  · by_cases hs : s < conf.width g
    · obtain ⟨m, _, hslot⟩ := h.slots g s hs
      rw [hslot]
      exact m.tcp_closes
    · rw [(h.outside g s hs).tcp]
      decide
  · by_cases hs : s < conf.width g
    · obtain ⟨m, _, hslot⟩ := h.slots g s hs
      rw [hslot]
      exact Nat.zero_le 1
    · rw [(h.outside g s hs).timer]
      decide
  · rw [h.frees] at hpos
    cases hpos

theorem ClosingBooks.closedOnce (h : ClosingBooks conf c) (hst : Still c) :
    ClosedOnce conf c := by
  refine ⟨by rw [h.client.closes], fun g s => ?_, fun g s => ?_, h.freed hst⟩
  · by_cases hs : s < conf.width g
    · rw [(h.slots g s hs).tcp.closes]
    · rw [(h.outside g s hs).tcp]
      decide
  · by_cases hs : s < conf.width g
    · rw [(h.slots g s hs).timer.closes]
    · rw [(h.outside g s hs).timer]
      decide

theorem ClosesInOrder.orderly {e : Event} (hP : ClosesInOrder conf c e)
    (hb : OpenBooks conf errs c) : Orderly conf True c e := by
  have hopen : c.client.handle.isOpen = true := by rw [hb.client]; rfl
  cases e with
  | onRequest r =>
      cases r with
      | error => exact hP.1.1
      | again => trivial
      | data bs => exact hP.imp id fun h => h.1.1
  | doDistribute rvs =>
      exact hP.imp id fun h => ⟨hopen, h.imp id fun h => ⟨h.1, h.2.1⟩, .inl trivial⟩
  | distributeUpstreamCb g s status => exact .inr ⟨trivial, hopen⟩
  | onGotUpstreamResponse g s r => cases r <;> trivial
  | _ => trivial

/-- In every run that lets go of the connection in order, no handle is closed
twice, and nothing happens once the context was freed. -/
theorem closed_once {m : ConnCtx} {rvs : Nat → Nat → Int} {accept : Int}
    (h : Lts.Reach (step conf) (ClosesInOrder conf)
      (onNewConnection conf m rvs accept) c) : ClosedOnce conf c := by
  have hbooks : OpenBooks conf True c ∨ ClosingBooks conf c ∧ Still c := by
    refine h.inv (I := fun c => OpenBooks conf True c ∨ ClosingBooks conf c ∧ Still c) ?_
      fun {c t e} hI hP hs => ?_
    · obtain ⟨d, hd, hrest, heq | heq⟩ := onNewConnection_cases conf m rvs accept
      · rw [heq]
        exact .inl hd.openBooks
      · have hflight : NothingInFlight d :=
          ⟨fun g s => (hd.fresh_slot g s).2, fun g s => (hd.fresh_slot g s).1⟩
        have hbd : OpenBooks conf True d := hd.openBooks
        rw [heq]
        exact .inr ⟨OpenBooks.contextClose hbd hflight.1,
          OpenBooks.still hbd hflight hrest.idler⟩
    · rcases hI with hI | ⟨hI, hst⟩
      · rcases OpenBooks.step hI (hP.orderly hI) hs with ht | ⟨d, hd, hnone, hcl, rfl⟩
        · exact .inl ht
        · exact .inr ⟨OpenBooks.contextClose hd hnone, hP.still hcl hd⟩
      · exact .inr ⟨hI.step (hI.orderly hst hs) hs, hst.step hI hP hs⟩
  rcases hbooks with hb | ⟨hb, hst⟩
  · exact OpenBooks.closedOnce hb
  · exact hb.closedOnce hst

def connected : ConnCtx :=
  (Lts.run (step twoGroups) (onNewConnection twoGroups .zeroed (fun _ _ => 0) 0)
    [.upstreamConnectCb 0 0 0, .upstreamConnectCb 1 0 0]).getD .zeroed

set_option maxRecDepth 10000 in
theorem connected_nothingInFlight : NothingInFlight connected := by
  constructor
  · intro g s
    match g, s with
    | 0, 0 => decide
    | 1, 0 => decide
    | 0, s + 1 => exact nofun
    | 1, s + 1 => exact nofun
    | g + 2, s => exact nofun
  · intro g s
    match g, s with
    | 0, 0 => rfl
    | 1, 0 => rfl
    | 0, s + 1 => rfl
    | 1, s + 1 => rfl
    | g + 2, s => rfl

/-- The client goes away, and every handle is closed. -/
def letGo : List Event :=
  [.onRequest .error, .upstreamTcpClosed 0 0 0, .upstreamTcpClosed 1 0 0,
    .upstreamTimerClosed 0 0, .upstreamTimerClosed 1 0, .clientClosed]

theorem closed_once_letGo :
    ∃ c, Lts.run (step twoGroups) connected letGo = some c ∧ c.frees = 1 ∧
      ClosedOnce twoGroups c := by
  have hstart : ∃ c, Lts.run (step twoGroups)
      (onNewConnection twoGroups .zeroed (fun _ _ => 0) 0)
      [.upstreamConnectCb 0 0 0, .upstreamConnectCb 1 0 0] = some c :=
    Option.isSome_iff_exists.1 (by decide +kernel)
  have hconnected : Lts.run (step twoGroups)
      (onNewConnection twoGroups .zeroed (fun _ _ => 0) 0)
      [.upstreamConnectCb 0 0 0, .upstreamConnectCb 1 0 0] = some connected := by
    obtain ⟨c, hc⟩ := hstart
    rw [connected, hc]
    rfl
  have hrun : ((Lts.run (step twoGroups) connected letGo).map fun c => c.frees) =
      some 1 := by decide +kernel
  obtain ⟨c, hc, hfrees⟩ := Option.map_eq_some_iff.1 hrun
  have hreach := Lts.reach_of_run (P := ClosesInOrder twoGroups) .init hconnected
    ⟨trivial, fun _ _ => ⟨trivial, fun _ _ => trivial⟩⟩
  refine ⟨c, hc, hfrees, closed_once (Lts.reach_of_run hreach hc ?_)⟩
  refine Lts.steps_cons ⟨connected_nothingInFlight, by decide +kernel⟩ ?_
  refine Lts.steps_cons (show _ ≤ _ → _ by decide +kernel) ?_
  refine Lts.steps_cons (show _ ≤ _ → _ by decide +kernel) ?_
  refine Lts.steps_cons (show _ ≤ _ → _ by decide +kernel) ?_
  refine Lts.steps_cons (show _ ≤ _ → _ by decide +kernel) ?_
  exact Lts.steps_cons (show _ ≤ _ → _ by decide +kernel) trivial

/-- The client goes away while a slot whose read failed is being closed: that
slot is closed a second time. -/
theorem closed_once_fails :
    ¬ ∀ (conf : Conf) (m c : ConnCtx) (rvs : Nat → Nat → Int) (accept : Int)
        (es : List Event),
        Lts.run (step conf) (onNewConnection conf m rvs accept) es = some c →
        ClosedOnce conf c := by
  intro hall
  have hrun : ((Lts.run (step twoGroups)
      (onNewConnection twoGroups .zeroed (fun _ _ => 0) 0)
      (twoGroupsEvents ++ [.distributeUpstreamCb 0 0 0, .onGotUpstreamResponse 0 0 .error,
        .onRequest .error])).map fun c => (c.slot 0 0).tcp.handle.closes) = some 2 := by
    decide +kernel
  obtain ⟨c, hc, htwo⟩ := Option.map_eq_some_iff.1 hrun
  have honce := (hall _ _ _ _ _ _ hc).tcp 0 0
  omega

end

end UiServer
