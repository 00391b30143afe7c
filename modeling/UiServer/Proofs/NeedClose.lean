import UiServer.Proofs.Callbacks
import UiServer.Proofs.Closing
import UiServer.Proofs.NewConnection

/-!
# Letting go of a connection

Two properties of every run of a connection rest on the books. `need_close` is
the number of the handles that are still there, so the context is freed once,
by the last close callback (`needClose_counts`); and no handle is closed twice
and nothing uses the context once it was freed (`closed_once`).

Neither holds of all runs. A slot that is lost is counted down twice, first by
`upstream_server_err` and then by the reconnect, so the count is one short in
between, and `context_close` closes such a slot a second time. It also leaves
the idle handle and the worker as they are, and the writes it cancels come back
through `upstream_server_err`. The conditions say which steps are free of this.
-/

namespace UiServer

/-! ## The first state

A run begins with a connection whose slots are being connected or wait, or with
one that was refused by `uv_accept` and closed at once. In both nothing was
written to yet. -/

structure Resting (c : ConnCtx) : Prop where
  idler : c.idler.active = false
  worker : c.worker.Done
  write : c.write = 0

/-- A new connection is open with fresh slots, or it was such a one and is
closed at once. -/
theorem onNewConnection_cases (conf : Conf) (m : ConnCtx) (rvs : Nat → Nat → Int)
    (accept : Int) : ∃ d, Books conf SlotMode.Fresh conf.sgNum conf.width d ∧ Resting d ∧
      (onNewConnection conf m rvs accept = d ∨
        onNewConnection conf m rvs accept = contextClose conf d) := by
  have hall := books_upstreamConnectAll conf m rvs
  have honly := groupsOnly_upstreamConnectAll conf
    ({ allocConnContext m with idler := {}, client := .init }.addNeedClose 1) rvs
  unfold onNewConnection
  simp only []
  generalize upstreamConnectAll conf
    ({ allocConnContext m with idler := {}, client := .init }.addNeedClose 1) rvs = d
    at hall honly
  have hrest : Resting d := by
    obtain ⟨gs, n, rfl⟩ := honly
    exact ⟨rfl, ⟨rfl, rfl⟩, rfl⟩
  by_cases hacc : accept = 0
  · rw [if_pos hacc]
    refine ⟨{ d with client := d.client.readStart }, ?_,
      ⟨hrest.idler, hrest.worker, hrest.write⟩, .inl rfl⟩
    exact hall.aside ⟨rfl, Uv.Stream.handle_readStart _, rfl, rfl⟩
  · rw [if_neg hacc]
    exact ⟨d, hall, hrest, .inr rfl⟩

section

variable {conf : Conf} {errs : Prop} {c : ConnCtx}

theorem Books.fresh_slot
    (h : Books conf SlotMode.Fresh conf.sgNum conf.width c) (g s : Nat) :
    (c.slot g s).write = false ∧
      (c.slot g s).tcp.handle.phase ≠ .closing .upstreamReconnectTcp := by
  by_cases hs : s < conf.width g
  · obtain ⟨m, hm, hslot⟩ := h.slots g s hs
    rw [hslot]
    rcases hm with rfl | rfl <;> exact ⟨rfl, nofun⟩
  · have hun := h.outside g s hs
    rw [hun.tcp]
    exact ⟨hun.write, nofun⟩

theorem Books.openBooks (h : Books conf SlotMode.Fresh conf.sgNum conf.width c) :
    OpenBooks conf errs c :=
  h.mono fun m hm hcl => by rcases hm with rfl | rfl <;> cases hcl

end

/-! ## The count is right

`due` is what the books count, and it leaves out a `tcp` that is closed for a
reconnect. Where no slot is being closed so, it is the number of all handles that
are there. That no slot is closed so is what the condition keeps up, from step to
step. -/

/-- The handles that were initialised and whose close callback has not run. -/
def liveCount (c : ConnCtx) : Nat :=
  c.client.handle.live.toNat + Ledger.total allSlots
    (fun up : UpstreamConnect => up.timer.live.toNat + up.tcp.handle.live.toNat) c.slotAt

/-- `need_close` is that number, and the context was freed when it came to
zero, once. -/
def Counted (c : ConnCtx) : Prop :=
  c.needClose = liveCount c ∧ c.frees = if liveCount c = 0 then 1 else 0

instance (c : ConnCtx) : Decidable (Counted c) := inferInstanceAs (Decidable (_ ∧ _))

/-- The condition: the step does not lose a slot. No read of an upstream fails,
no write to one fails, and a request is not distributed once the connection is
being closed. -/
def NoSlotLost (conf : Conf) (c : ConnCtx) : Event → Prop
  | .doDistribute rvs =>
      needWaitUpstream conf c = true ∨
        c.client.handle.isOpen = true ∧ WritesGoThrough conf c rvs
  | .distributeUpstreamCb _ _ status => status = 0
  | .onGotUpstreamResponse _ _ .error => False
  | _ => True

section

variable {conf : Conf} {c t : ConnCtx}

theorem OpenBooks.noneClosing (h : OpenBooks conf False c) : NoneClosing c := by
  intro g s hph
  obtain ⟨_, _, hslot⟩ := Books.find_closing h hph
  obtain ⟨m, herr, hm⟩ := h.slots g s (Books.find_closing h hph).1
  rw [hslot] at hm
  have hstatus := congrArg UpstreamConnect.status hm
  cases m <;> first | exact herr rfl | cases hstatus

theorem ClosingBooks.noneClosing (h : ClosingBooks conf c) : NoneClosing c :=
  fun g s hph =>
    absurd ((h.slots g s (h.lt_width (.inl hph))).tcp.phase hph).1 (by decide)

theorem orderly_of_noSlotLost {e : Event}
    (h : OpenBooks conf False c ∨ ClosingBooks conf c) (hP : NoSlotLost conf c e) :
    Orderly conf False c e := by
  cases e with
  | onRequest r =>
      have hnone : NoneClosing c :=
        h.elim OpenBooks.noneClosing ClosingBooks.noneClosing
      cases r with
      | error => exact hnone
      | again => trivial
      | data bs => exact .inr hnone
  | doDistribute rvs =>
      rcases hP with hwait | ⟨hopen, hgo⟩
      · exact .inl hwait
      · have hb : OpenBooks conf False c := by
          refine h.resolve_right fun hcl => ?_
          rw [hcl.client.not_open] at hopen
          cases hopen
        refine .inr ⟨hopen, ?_, .inr hgo⟩
        by_cases hpick : NonePicked conf c
        · exact .inr ⟨hpick, OpenBooks.noneClosing hb⟩
        · obtain ⟨g, hg⟩ := not_forall.1 hpick
          obtain ⟨hlt, hne⟩ := Classical.not_imp.1 hg
          exact .inl ⟨g, hlt, hne, hgo g hlt hne⟩
  | distributeUpstreamCb g s status => exact .inl hP
  | onGotUpstreamResponse g s r =>
      cases r with
      | error => exact hP
      | again => trivial
      | data bs => trivial
  | _ => trivial

theorem due_eq_liveCount (h : NoneClosing c) : c.due = liveCount c := by
  have htotal : Ledger.total allSlots UpstreamConnect.counted c.slotAt =
      Ledger.total allSlots
        (fun up : UpstreamConnect => up.timer.live.toNat + up.tcp.handle.live.toNat)
        c.slotAt := by
    refine Ledger.total_congr fun p _ => ?_
    rw [UpstreamConnect.counted]
    have hne : (c.slotAt p).tcp.handle.phase ≠ .closing .upstreamReconnectTcp := h p.1 p.2
    rw [if_neg hne]
  rw [ConnCtx.due, liveCount, htotal]

theorem OpenBooks.due_pos {errs : Prop} (h : OpenBooks conf errs c) : c.due ≠ 0 := by
  have hlive : c.client.handle.live.toNat = 1 := by rw [h.client]; rfl
  rw [ConnCtx.due]
  omega

/-- In every run that loses no slot, `need_close` is the number of the handles
that are still there and the context is freed by the last of them. -/
theorem needClose_counts {m : ConnCtx} {rvs : Nat → Nat → Int} {accept : Int}
    (h : Lts.Reach (step conf) (NoSlotLost conf) (onNewConnection conf m rvs accept) c) :
    Counted c := by
  have hbooks : OpenBooks conf False c ∨ ClosingBooks conf c := by
    refine h.inv (I := fun c => OpenBooks conf False c ∨ ClosingBooks conf c) ?_
      fun {c t e} hI hP hs => ?_
    · obtain ⟨d, hd, _, heq | heq⟩ := onNewConnection_cases conf m rvs accept
      · rw [heq]
        exact .inl hd.openBooks
      · have hbd : OpenBooks conf False d := hd.openBooks
        rw [heq]
        exact .inr (OpenBooks.contextClose hbd fun g s => (hd.fresh_slot g s).2)
    · have ho := orderly_of_noSlotLost hI hP
      rcases hI with hI | hI
      · rcases OpenBooks.step hI ho hs with ht | ⟨d, hd, hnone, _, rfl⟩
        · exact .inl ht
        · exact .inr (OpenBooks.contextClose hd hnone)
      · exact .inr (hI.step ho hs)
  rcases hbooks with hb | hb
  · have hdue := due_eq_liveCount (OpenBooks.noneClosing hb)
    refine ⟨by rw [hb.needClose, hdue], ?_⟩
    rw [hb.frees, ← hdue, if_neg (OpenBooks.due_pos hb)]
  · have hdue := due_eq_liveCount hb.noneClosing
    exact ⟨by rw [hb.needClose, hdue], by rw [hb.frees, hdue]⟩

/-- The client goes away between the request and its distribution, and every
handle is closed. -/
def clientLeaves : List Event :=
  [.upstreamConnectCb 0 0 0, .upstreamConnectCb 1 0 0, .onRequest (.data plainRequest),
    .onRequest .error, .upstreamTcpClosed 0 0 0, .upstreamTcpClosed 1 0 0,
    .upstreamTimerClosed 0 0, .upstreamTimerClosed 1 0, .clientClosed]

theorem needClose_counts_clientLeaves :
    ∃ c, Lts.run (step twoGroups) (onNewConnection twoGroups .zeroed (fun _ _ => 0) 0)
      clientLeaves = some c ∧ c.frees = 1 ∧ Counted c := by
  have hrun : ((Lts.run (step twoGroups)
      (onNewConnection twoGroups .zeroed (fun _ _ => 0) 0) clientLeaves).map fun c =>
        c.frees) = some 1 := by decide +kernel
  obtain ⟨c, hc, hfrees⟩ := Option.map_eq_some_iff.1 hrun
  refine ⟨c, hc, hfrees, needClose_counts (Lts.reach_of_run .init hc ?_)⟩
  exact ⟨trivial, fun _ _ => ⟨trivial, fun _ _ => ⟨trivial, fun _ _ => ⟨trivial,
    fun _ _ => ⟨trivial, fun _ _ => ⟨trivial, fun _ _ => ⟨trivial, fun _ _ =>
      ⟨trivial, fun _ _ => ⟨trivial, fun _ _ => trivial⟩⟩⟩⟩⟩⟩⟩⟩⟩

/-- A read of an upstream fails: five handles are left, and four are counted. -/
theorem needClose_counts_fails :
    ¬ ∀ (conf : Conf) (m c : ConnCtx) (rvs : Nat → Nat → Int) (accept : Int)
        (es : List Event),
        Lts.run (step conf) (onNewConnection conf m rvs accept) es = some c →
        Counted c := by
  intro hall
  have hrun : ((Lts.run (step twoGroups)
      (onNewConnection twoGroups .zeroed (fun _ _ => 0) 0)
      (twoGroupsEvents ++
        [.distributeUpstreamCb 0 0 0, .onGotUpstreamResponse 0 0 .error])).map fun c =>
          decide (Counted c)) = some false := by decide +kernel
  obtain ⟨c, hc, hcounted⟩ := Option.map_eq_some_iff.1 hrun
  exact of_decide_eq_false hcounted (hall _ _ _ _ _ _ hc)

end

end UiServer
