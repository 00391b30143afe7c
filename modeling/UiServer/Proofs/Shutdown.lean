import UiServer.Lib.Progress
import UiServer.Proofs.ClosedOnce

/-!
# Closing a connection comes to its end

Once the client of a connection was closed in order, all that can still happen
to it are close callbacks, connects that are cancelled, the worker's two halves
and the writes to the client that come back. Each of them leaves less to do
(`ConnCtx.leftToDo`), and as long as the context was not freed one of them can
happen. So the context is freed, whatever the order is, after at most so many
callbacks (`close_comes`).
-/

namespace UiServer

/-! ## What is left to do

A measure: each callback that can still come is counted, and a piece of work that
is queued counts for the two callbacks it will bring. It is a sum over the slots,
so one callback changes one summand. -/

/-- The callbacks a slot of a connection that is being closed has still to get. -/
def UpstreamConnect.leftToDo (up : UpstreamConnect) : Nat :=
  up.connect.toNat + up.tcp.handle.live.toNat + up.timer.live.toNat

/-- The callbacks that are left. A piece of work that is queued runs and is then
reported. -/
def ConnCtx.leftToDo (c : ConnCtx) : Nat :=
  Ledger.total allSlots UpstreamConnect.leftToDo c.slotAt + c.client.handle.live.toNat +
    c.write + (2 * c.worker.queued + c.worker.ran)

/-- The context was freed, once, and no callback of it is to come. -/
def Freed (conf : Conf) (c : ConnCtx) : Prop :=
  c.frees = 1 ∧ ∀ e, step conf c e = none

/-- The connection was closed in order, and nothing happened to it since that
could not. -/
structure Closing (conf : Conf) (c : ConnCtx) : Prop where
  books : ClosingBooks conf c
  still : Still c

section

variable {conf : Conf} {errs : Prop} {c t : ConnCtx} {g s : Nat}

theorem OnlySlot.leftToDo {p : Slot} (h : OnlySlot p c t) (hp : p ∈ allSlots)
    (hw : t.write = c.write) (hk : t.worker = c.worker) :
    t.leftToDo + (c.slotAt p).leftToDo = c.leftToDo + (t.slotAt p).leftToDo := by
  have htotal := Ledger.total_replace (w := UpstreamConnect.leftToDo) (f := c.slotAt)
    (g := t.slotAt) hp fun q _ hq => h.slots q hq
  simp only [ConnCtx.leftToDo]
  rw [h.client, hw, hk]
  omega

theorem leftToDo_modSlot (c : ConnCtx) {f : UpstreamConnect → UpstreamConnect}
    (hs : s < conf.width g) :
    (c.modSlot g s f).leftToDo + (c.slot g s).leftToDo =
      c.leftToDo + (f (c.slot g s)).leftToDo := by
  have h := (onlySlot_modSlot c (g, s) f).leftToDo (Conf.mem_allSlots hs) rfl rfl
  simp only [ConnCtx.slotAt] at h
  rw [ConnCtx.slot_modSlot_same] at h
  exact h

/-- Counting down is nothing that is left to do. -/
theorem leftToDo_countDown (c : ConnCtx) : (countDown c).leftToDo = c.leftToDo := by
  simp only [countDown]
  split <;> rfl

theorem leftToDo_upstreamConnectCb (hs : s < conf.width g)
    (hc : (c.slot g s).connect = true) (status : Int) :
    (upstreamConnectCb (c.modSlot g s fun up => { up with connect := false })
      g s status).leftToDo + 1 = c.leftToDo := by
  have hrest : ∀ d : ConnCtx, (upstreamConnectCb d g s status).write = d.write ∧
      (upstreamConnectCb d g s status).worker = d.worker := by
    intro d
    simp only [upstreamConnectCb]
    split <;> exact ⟨rfl, rfl⟩
  have hm := moves_upstreamConnectCb c (g, s) status
  have hleft := hm.only.leftToDo (Conf.mem_allSlots hs) (hrest _).1 (hrest _).2
  have hslot := hm.slot
  simp only [ConnCtx.slotAt] at hleft
  simp only [hslot] at hleft
  have hbefore : (c.slot g s).leftToDo =
      ((c.slot g s).answered status).leftToDo + 1 := by
    simp only [UpstreamConnect.leftToDo, UpstreamConnect.answered, hc, Bool.toNat_true,
      Bool.toNat_false]
    omega
  omega

theorem leftToDo_finishTcp {up : UpstreamConnect} {cb : CloseCb}
    (h : up.tcp.handle = ⟨.closing cb, 1⟩) :
    ({ up with tcp := up.tcp.finish } : UpstreamConnect).leftToDo + 1 = up.leftToDo := by
  have hlive : up.tcp.handle.live.toNat = 1 := by rw [h]; rfl
  simp only [UpstreamConnect.leftToDo, Uv.Stream.handle_finish, Uv.Handle.live_finish,
    Bool.toNat_false]
  omega

theorem leftToDo_finishTimer {up : UpstreamConnect} {cb : CloseCb}
    (h : up.timer = ⟨.closing cb, 1⟩) :
    ({ up with timer := up.timer.finish } : UpstreamConnect).leftToDo + 1 =
      up.leftToDo := by
  have hlive : up.timer.live.toNat = 1 := by rw [h]; rfl
  simp only [UpstreamConnect.leftToDo, Uv.Handle.live_finish, Bool.toNat_false]
  omega

/-! ## One step

No read and no reply can come any more, and no request is distributed. Each of the
events that are left ends one of the things that were counted and begins none. -/

theorem ClosingBooks.no_read (h : ClosingBooks conf c) (r : Read) :
    UiServer.step conf c (.onRequest r) = none := by
  simp only [UiServer.step, h.client.not_open]
  rfl

theorem ClosingBooks.no_reply (h : ClosingBooks conf c) (g s : Nat) (r : Read) :
    UiServer.step conf c (.onGotUpstreamResponse g s r) = none := by
  simp only [UiServer.step, h.slot_not_open g s]
  rfl

/-- What can happen now leaves less to do. -/
theorem Closing.lowers {e : Event} (h : Closing conf c)
    (hs : UiServer.step conf c e = some t) : t.leftToDo < c.leftToDo := by
  have hclient := h.books.client_not_open
  have hidler : ¬ c.idler.active = true := by
    rw [h.still.idler]
    exact Bool.false_ne_true
  cases callback_of_step hs with
  | readFailed | readAgain | taken | refused =>
      rw [h.books.no_read] at hs
      cases hs
  | replyFailed | replyAgain | reply =>
      rw [h.books.no_reply] at hs
      cases hs
  | waits hactive => exact absurd hactive hidler
  | distributed hactive => exact absurd hactive hidler
  | unserved hactive => exact absurd hactive hidler
  | @written g s _ hwrite =>
      rw [h.still.write g s] at hwrite
      cases hwrite
  | @connected g s status hc =>
      have hwidth : s < conf.width g := by
        by_contra hs
        rw [(h.books.outside g s hs).connect] at hc
        cases hc
      have hleft := leftToDo_upstreamConnectCb hwidth hc status
      omega
  | @tcpClosed g s rv cb hph =>
      have hwidth := h.books.lt_width (.inl hph)
      obtain ⟨rfl, hhandle⟩ := (h.books.slots g s hwidth).tcp.phase hph
      have hleft := leftToDo_modSlot c (f := fun up => { up with tcp := up.tcp.finish })
        hwidth
      have hone := leftToDo_finishTcp hhandle
      have hdown := leftToDo_countDown
        (c.modSlot g s fun up => { up with tcp := up.tcp.finish })
      show (countDown _).leftToDo < _
      omega
  | @timerClosed g s cb hph =>
      have hwidth := h.books.lt_width (.inr hph)
      obtain ⟨rfl, hhandle⟩ := (h.books.slots g s hwidth).timer.phase hph
      have hleft := leftToDo_modSlot c
        (f := fun up => { up with timer := up.timer.finish }) hwidth
      have hone := leftToDo_finishTimer hhandle
      have hdown := leftToDo_countDown
        (c.modSlot g s fun up => { up with timer := up.timer.finish })
      show (countDown _).leftToDo < _
      omega
  | clientClosed hph =>
      have hhandle := (h.books.client.phase hph).2
      have hlive : c.client.handle.live.toNat = 1 := by rw [hhandle]; rfl
      have hleft : ({ c with client := c.client.finish } : ConnCtx).leftToDo + 1 =
          c.leftToDo := by
        have hsame : ({ c with client := c.client.finish } : ConnCtx).slotAt = c.slotAt :=
          rfl
        simp only [ConnCtx.leftToDo]
        rw [hsame, hlive, Uv.Stream.handle_finish, Uv.Handle.live_finish]
        simp only [Bool.toNat_false]
        omega
      have hdown := leftToDo_countDown { c with client := c.client.finish }
      show (countDown _).leftToDo < _
      omega
  | handled hqueued =>
      obtain ⟨up, response, len, heq⟩ := workerHandler_eq conf c
      rw [handleRequest, heq]
      show Ledger.total allSlots UpstreamConnect.leftToDo c.slotAt +
        c.client.handle.live.toNat + c.write +
          (2 * (c.worker.queued - 1) + (c.worker.ran + 1)) < _
      rw [ConnCtx.leftToDo]
      omega
  | @responded status hran =>
      rcases sendResponse_eq { c with worker := c.worker.report } status with
        heq | ⟨hopen, _⟩
      · rw [heq]
        show Ledger.total allSlots UpstreamConnect.leftToDo c.slotAt +
          c.client.handle.live.toNat + c.write +
            (2 * c.worker.queued + (c.worker.ran - 1)) < _
        rw [ConnCtx.leftToDo]
        omega
      · exact absurd hopen hclient
  | responseSent hpos =>
      show Ledger.total allSlots UpstreamConnect.leftToDo c.slotAt +
        c.client.handle.live.toNat + (c.write - 1) +
          (2 * c.worker.queued + c.worker.ran) < _
      rw [ConnCtx.leftToDo]
      omega

/-! ## Going on

As long as `need_close` is not down to zero some handle is still there, and the
callback that it waits for can run: the connect first, then the close. When the
worker is not done its two callbacks are there. So nothing waits for something
that does not come. -/

/-- A slot that is not done with can get one of its callbacks. -/
theorem Closing.canGoOn_slot (h : Closing conf c) (hdone : c.worker.Done)
    (hs : s < conf.width g) (hcount : (c.slot g s).counted ≠ 0) :
    Lts.CanGoOn (UiServer.step conf) (ClosesInOrder conf) c := by
  obtain ⟨htcp, htimer⟩ := h.books.slots g s hs
  have hwrite := h.still.write g s
  rcases htcp with htcp | htcp
  · by_cases hconnect : (c.slot g s).connect = true
    · refine ⟨.upstreamConnectCb g s (-1), trivial, ?_⟩
      have hanswer : mayAnswer (c.slot g s).tcp.handle (-1) = true :=
        Bool.or_eq_true_iff.2 (.inr rfl)
      simp only [UiServer.step, hconnect, hanswer]
      rfl
    · refine ⟨.upstreamTcpClosed g s 0, fun _ => hdone, ?_⟩
      simp only [UiServer.step, htcp, Bool.not_eq_true _ ▸ hconnect, hwrite]
      rfl
  · rcases htimer with htimer | htimer
    · refine ⟨.upstreamTimerClosed g s, fun _ => hdone, ?_⟩
      simp only [UiServer.step, htimer]
      rfl
    · rw [UpstreamConnect.counted, htcp, htimer] at hcount
      exact absurd rfl hcount

theorem Closing.next (h : Closing conf c) :
    Freed conf c ∨ Lts.CanGoOn (UiServer.step conf) (ClosesInOrder conf) c := by
  by_cases hqueued : 0 < c.worker.queued
  · refine .inr ⟨.handleRequest, trivial, ?_⟩
    simp only [UiServer.step, hqueued, if_true]
    rfl
  by_cases hran : 0 < c.worker.ran
  · refine .inr ⟨.sendResponse 0, trivial, ?_⟩
    simp only [UiServer.step, hran, if_true]
    rfl
  have hdone : c.worker.Done := ⟨by omega, by omega⟩
  by_cases hdue : c.due = 0
  · have hfrees : c.frees = 1 := by rw [h.books.frees, if_pos hdue]
    exact .inl ⟨hfrees, h.books.freed h.still (by omega)⟩
  refine .inr ?_
  rcases h.books.client with hclient | hclient
  · by_cases hwrite : 0 < c.write
    · refine ⟨.responseSendCb 0, trivial, ?_⟩
      simp only [UiServer.step, hwrite, if_true]
      rfl
    · refine ⟨.clientClosed, fun _ => hdone, ?_⟩
      simp only [UiServer.step, hclient]
      rw [if_pos (by omega)]
      rfl
  · -- the client is done with, so it is a slot that is counted
    have htotal : Ledger.total allSlots UpstreamConnect.counted c.slotAt ≠ 0 := by
      intro hzero
      refine hdue ?_
      rw [ConnCtx.due, hzero, hclient]
      rfl
    obtain ⟨p, hcount⟩ : ∃ p : Slot, (c.slotAt p).counted ≠ 0 := by
      by_contra hall
      refine htotal (Ledger.total_of_zero fun p _ => ?_)
      exact Classical.byContradiction fun hne => hall ⟨p, hne⟩
    have hs : p.2 < conf.width p.1 := by
      by_contra hs
      exact hcount (h.books.outside p.1 p.2 hs).counted
    exact h.canGoOn_slot hdone hs hcount

theorem Closing.step {e : Event} (h : Closing conf c) (hP : ClosesInOrder conf c e)
    (hs : step conf c e = some t) : Closing conf t :=
  ⟨h.books.step (h.books.orderly h.still hs) hs, h.still.step h.books hP hs⟩

/-- Every run that lets go of the connection in order keeps it open, or closes it
in order. -/
theorem open_or_closing {m : ConnCtx} {rvs : Nat → Nat → Int} {accept : Int}
    (h : Lts.Reach (UiServer.step conf) (ClosesInOrder conf)
      (onNewConnection conf m rvs accept) c) : OpenBooks conf True c ∨ Closing conf c := by
  refine h.inv (I := fun c => OpenBooks conf True c ∨ Closing conf c) ?_
    fun {c t e} hI hP hs => ?_
  · obtain ⟨d, hd, hrest, heq | heq⟩ := onNewConnection_cases conf m rvs accept
    · rw [heq]
      exact .inl hd.openBooks
    · have hflight : NothingInFlight d :=
        ⟨fun g s => (hd.fresh_slot g s).2, fun g s => (hd.fresh_slot g s).1⟩
      have hbd : OpenBooks conf True d := hd.openBooks
      rw [heq]
      exact .inr ⟨OpenBooks.contextClose hbd hflight.1,
        OpenBooks.still hbd hflight hrest.idler⟩
  · rcases hI with hI | hI
    · rcases OpenBooks.step hI (hP.orderly hI) hs with ht | ⟨d, hd, hnone, hcl, rfl⟩
      · exact .inl ht
      · exact .inr ⟨OpenBooks.contextClose hd hnone, hP.still hcl hd⟩
    · exact .inr (hI.step hP hs)

/-- After a connection was closed in order its context is freed: no run of
callbacks is longer than what is left to do, and none of them gets stuck before
the free. -/
theorem close_comes {m : ConnCtx} {rvs : Nat → Nat → Int} {accept : Int}
    (h : Lts.Reach (UiServer.step conf) (ClosesInOrder conf)
      (onNewConnection conf m rvs accept) c)
    (hclosed : c.client.handle.isOpen = false) :
    Lts.Comes (UiServer.step conf) (ClosesInOrder conf) (Freed conf) c.leftToDo c := by
  have hclosing : Closing conf c := by
    refine (open_or_closing h).resolve_left fun hopen => ?_
    rw [hopen.client] at hclosed
    cases hclosed
  exact Lts.comes_of_rank (I := Closing conf) (fun hI hP hs => hI.step hP hs)
    (fun hI _ hs => hI.lowers hs) (fun hI => hI.next) hclosing

theorem connected_reach : Lts.Reach (UiServer.step twoGroups) (ClosesInOrder twoGroups)
    (onNewConnection twoGroups .zeroed (fun _ _ => 0) 0) connected := by
  have hsome : ∃ c, Lts.run (UiServer.step twoGroups)
      (onNewConnection twoGroups .zeroed (fun _ _ => 0) 0)
      [.upstreamConnectCb 0 0 0, .upstreamConnectCb 1 0 0] = some c :=
    Option.isSome_iff_exists.1 (by decide +kernel)
  obtain ⟨c, hc⟩ := hsome
  have hconnected : connected = c := by
    rw [connected, hc]
    rfl
  rw [hconnected]
  exact Lts.reach_of_run .init hc ⟨trivial, fun _ _ => ⟨trivial, fun _ _ => trivial⟩⟩

/-- The client goes away when both servers are connected: five handles are to be
closed. -/
theorem close_comes_letGo :
    ∃ c, Lts.run (UiServer.step twoGroups) connected [.onRequest .error] = some c ∧
      Lts.Comes (UiServer.step twoGroups) (ClosesInOrder twoGroups) (Freed twoGroups) 5
        c := by
  have hrun : ((Lts.run (UiServer.step twoGroups) connected [.onRequest .error]).map
      fun c => (c.leftToDo, c.client.handle.isOpen)) = some (5, false) := by
    decide +kernel
  obtain ⟨c, hc, heq⟩ := Option.map_eq_some_iff.1 hrun
  obtain ⟨hleft, hclosed⟩ := Prod.mk.inj heq
  have hreach := Lts.reach_of_run connected_reach hc
    (Lts.steps_cons ⟨connected_nothingInFlight, by decide +kernel⟩ trivial)
  have hcomes := close_comes hreach hclosed
  rw [hleft] at hcomes
  exact ⟨c, hc, hcomes⟩

end

end UiServer
