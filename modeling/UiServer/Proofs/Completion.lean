import UiServer.Proofs.Distribute

/-!
# When the worker is queued

The worker is queued by a good read that finds no other slot awaited. That is
neither the moment when every slot has answered, as long as some write is still
in flight, nor one that has to come at all, since a read that fails and a write
that fails never look at the counts. Both consequences are stated exactly:
`queuedOnce_iff`, and `notStuck_iff` for replies that stay inside the buffer, since
one that does not may take `need_merge` away.
-/

namespace UiServer

/-! ## Queued once, and only when every slot has answered

A reply that finds no other slot awaited queues the worker. If no write is in
flight then, it is the last event of the request but for reads that find nothing,
so the worker is queued once and for all of the replies. If a write is in flight,
the worker is queued with that slot still to answer, and the property is gone in
the same step (`ServingOnce.early`); this is what makes the condition exact. -/

/-- What is wanted of every state: since the request was written, when the
worker had been queued `n` times, it was queued at most once, and if it was,
then no slot has its answer still to come. -/
def QueuedOnce (S : Finset Slot) (n : Nat) (c : ConnCtx) : Prop :=
  c.worker.calls ≤ n + 1 ∧ (n < c.worker.calls → ∀ p ∈ S, Settled c p)

/-- The condition: the last awaited reply is not read while the request is
still being written to another slot. -/
def RepliesInTime (c : ConnCtx) : SlotEvent → Prop
  | .got p (.data _) => (∀ q, ¬ Writing c q) ∨ ∃ q, q ≠ p ∧ Awaiting c q
  | _ => True

structure ServingOnce (S : Finset Slot) (n : Nat) (c : ConnCtx) : Prop where
  serving : Serving S c
  once : c.worker.calls = n ∨ c.worker.calls = n + 1 ∧ ∀ p, Settled c p

theorem ServingOnce.queuedOnce {S : Finset Slot} {n : Nat} {c : ConnCtx}
    (h : ServingOnce S n c) : QueuedOnce S n c := by
  rcases h.once with hn | ⟨hn, hset⟩
  · exact ⟨by omega, fun hlt => by omega⟩
  · exact ⟨by omega, fun _ p _ => hset p⟩

/-- Once every slot is settled no event is left but a read that finds
nothing. -/
theorem SlotMove.eq_of_settled {c t : ConnCtx} {e : SlotEvent}
    (hm : SlotMove c t e) (hset : ∀ p, Settled c p) : t = c := by
  cases hm with
  | again he => exact he
  | @wroteOk p hw => exact absurd hw (hset p).1
  | @wroteFailed p _ _ hw => exact absurd hw (hset p).1
  | @gotFailed p ha => exact absurd ha (hset p).2
  | @gotReply p _ ha => exact absurd ha (hset p).2

theorem SlotMove.all_settled {c t : ConnCtx} {p : Slot} {bs : CMem.Bytes}
    (hm : SlotMove c t (.got p (.data bs))) (hw : ∀ q, ¬ Writing c q)
    (ha : ∀ q, q ≠ p → ¬ Awaiting c q) (q : Slot) : Settled t q := by
  cases hm with
  | gotReply _ honly hset =>
      by_cases hq : q = p
      · exact hq ▸ hset
      · rw [Settled, honly.writing hq, honly.awaiting hq]
        exact ⟨hw q, ha q hq⟩

theorem ServingOnce.move {S : Finset Slot} {n : Nat} {c t : ConnCtx} {e : SlotEvent}
    (h : ServingOnce S n c) (hin : RepliesInTime c e) (hm : SlotMove c t e) :
    ServingOnce S n t := by
  refine ⟨h.serving.move hm, ?_⟩
  rcases h.once with hn | ⟨hn, hset⟩
  · rcases h.serving.calls_move hm with heq | ⟨p, bs, rfl, hlast, hcalls⟩
    · exact .inl (heq.trans hn)
    · have hnone : ∀ q, ¬ Writing c q :=
        hin.resolve_right fun ⟨q, hqp, hq⟩ => hlast q hqp hq
      exact .inr ⟨by omega, hm.all_settled hnone hlast⟩
  · obtain rfl := hm.eq_of_settled hset
    exact .inr ⟨hn, hset⟩

/-- A reply that is read too early queues the worker with a write in
flight. -/
theorem ServingOnce.early {S : Finset Slot} {n : Nat} {c t : ConnCtx} {e : SlotEvent}
    (h : ServingOnce S n c) (hin : ¬ RepliesInTime c e) (hm : SlotMove c t e) :
    ¬ QueuedOnce S n t := by
  intro hq
  cases hm with
  | again | wroteOk | wroteFailed | gotFailed => exact hin trivial
  | @gotReply p bs ha honly _ _ _ hwk =>
      have hout := not_or.1 hin
      obtain ⟨q, hqw⟩ := not_forall_not.1 hout.1
      have hlast : ∀ q, q ≠ p → ¬ Awaiting c q := fun q hqp hqa =>
        hout.2 ⟨q, hqp, hqa⟩
      rw [if_pos ((h.serving.count_test ha).2 hlast)] at hwk
      have hcalls : n < t.worker.calls := by
        have hn : n ≤ c.worker.calls := by
          rcases h.once with hn | ⟨hn, _⟩ <;> omega
        rw [hwk]
        exact Nat.lt_succ_of_le hn
      have hqp : q ≠ p := fun he => (h.serving.writing q hqw).2 (he ▸ ha)
      have hqS := (h.serving.writing q hqw).1
      exact (hq.2 hcalls q hqS).1 ((honly.writing hqp).2 hqw)

/-- Exactly when the worker is queued as it should be: in the runs in which
the last awaited reply is never read with a write still in flight. -/
theorem queuedOnce_iff {conf : Conf} {S : Finset Slot} {c u : ConnCtx}
    {es : List SlotEvent} (h : WrittenTo S c)
    (hrun : Lts.run (slotStep conf) c es = some u) :
    Lts.States (slotStep conf) (QueuedOnce S c.worker.calls) c es ↔
      Lts.Steps (slotStep conf) RepliesInTime c es := by
  have hinit : ServingOnce S c.worker.calls c := ⟨h.serving, .inl rfl⟩
  refine Lts.states_iff_steps ?_ ?_ ServingOnce.queuedOnce hinit hrun
  · intro s t e hI hP hs
    exact hI.move hP (slotMove_of_step hI.serving hs)
  · intro s t e hI hP hs
    exact hI.early hP (slotMove_of_step hI.serving hs)

def bothReply : List SlotEvent :=
  [.wrote (0, 0) 0, .wrote (1, 0) 0, .got (1, 0) (.data (plainReply 0)),
    .got (0, 0) (.data (plainReply 0))]

theorem queuedOnce_iff_bothReply :
    Lts.States (slotStep twoGroups) (QueuedOnce bothSlots
        twoGroupsServed.worker.calls) twoGroupsServed bothReply ↔
      Lts.Steps (slotStep twoGroups) RepliesInTime twoGroupsServed bothReply := by
  have hsome : (Lts.run (slotStep twoGroups) twoGroupsServed bothReply).isSome := by
    decide +kernel
  obtain ⟨u, hu⟩ := Option.isSome_iff_exists.1 hsome
  exact queuedOnce_iff twoGroupsServed_writtenTo hu

/-- The first reply is read before the write to the second group is
answered: the worker is queued for half of the merge. -/
theorem queuedOnce_fails :
    ¬ ∀ (conf : Conf) (m c u : ConnCtx) (rvs : Nat → Nat → Int) (pre : List Event)
        (S : Finset Slot) (es : List SlotEvent),
        Lts.run (step conf) (onNewConnection conf m rvs 0) pre = some c →
        WrittenTo S c → Lts.run (slotStep conf) c es = some u →
        QueuedOnce S c.worker.calls u := by
  intro hall
  have hrun : ((Lts.run (slotStep twoGroups) twoGroupsServed
      [.wrote (0, 0) 0, .got (0, 0) (.data (plainReply 0))]).map fun u =>
        (u.worker.calls, (u.slot 1 0).write)) = some (1, true) := by decide +kernel
  obtain ⟨u, hu, hpair⟩ := Option.map_eq_some_iff.1 hrun
  obtain ⟨hcalls, hwrite⟩ := Prod.mk.inj hpair
  have hzero : twoGroupsServed.worker.calls = 0 := by decide +kernel
  have hq := hall _ _ _ _ _ _ _ _ twoGroupsServed_run twoGroupsServed_writtenTo hu
  exact (hq.2 (by omega) (1, 0) (by decide)).1 hwrite

/-! ## Queued at all

No other event looks at the counts, so a request is left without an answer exactly
when no reply of it was ever the last one awaited. The replies must stay inside
the buffer here: one that goes past it may turn `need_merge` off in the request
behind, and is then written to the client instead of queueing the worker. -/

/-- Every slot has had its last event, the worker was not queued since it had
been queued `n` times, and the connection is still there. -/
def Stuck (S : Finset Slot) (n : Nat) (c : ConnCtx) : Prop :=
  (∀ p ∈ S, Settled c p) ∧ c.worker.calls = n ∧ c.client.handle.isOpen = true

/-- The condition: a reply is read while no other slot is awaited. -/
def LastAwaited (c : ConnCtx) : SlotEvent → Prop
  | .got p (.data _) => ∀ q, q ≠ p → ¬ Awaiting c q
  | _ => False

theorem SlotMove.client {c t : ConnCtx} {e : SlotEvent} (hm : SlotMove c t e) :
    t.client = c.client := by
  cases hm with
  | again he => rw [he]
  | wroteOk _ honly => exact honly.client
  | wroteFailed _ _ honly => exact honly.client
  | gotFailed _ honly => exact honly.client
  | gotReply _ honly => exact honly.client

/-- One event queues the worker exactly if it is the last awaited reply. -/
theorem Serving.calls_iff {S : Finset Slot} {n : Nat} {c t : ConnCtx} {e : SlotEvent}
    (h : Serving S c) (hn : n ≤ c.worker.calls) (hm : SlotMove c t e) :
    n < t.worker.calls ↔ n < c.worker.calls ∨ LastAwaited c e := by
  constructor
  · intro hlt
    rcases h.calls_move hm with heq | ⟨p, bs, rfl, hlast, _⟩
    · exact .inl (heq ▸ hlt)
    · exact .inr hlast
  · rintro (hlt | hlast)
    · rcases h.calls_move hm with heq | ⟨_, _, _, _, heq⟩ <;> omega
    · cases hm with
      | again | wroteOk | wroteFailed | gotFailed => exact hlast.elim
      | @gotReply p bs ha _ _ _ _ hwk =>
          rw [if_pos ((h.count_test ha).2 hlast)] at hwk
          rw [hwk]
          exact Nat.lt_succ_of_le hn

/-- Exactly when a request is not left without an answer, as long as no reply
goes past the buffer: some reply was read at a moment when no other slot was
awaited. -/
theorem notStuck_iff {conf : Conf} {S : Finset Slot} {c u : ConnCtx}
    {es : List SlotEvent} (h : WrittenTo S c)
    (hopen : c.client.handle.isOpen = true)
    (hinside : RunInside conf c (es.map SlotEvent.toEvent) u)
    (hend : ∀ p ∈ S, Settled u p) :
    ¬ Stuck S c.worker.calls u ↔ Lts.SomeStep (slotStep conf) LastAwaited c es := by
  have hrun : Lts.run (slotStep conf) c es = some u :=
    (run_slotStep conf c).trans hinside.run
  have hstep : ∀ {s t : ConnCtx} {e : SlotEvent},
      (Serving S s ∧ c.worker.calls ≤ s.worker.calls ∧ s.client = c.client) →
      slotStep conf s e = some t →
      (Serving S t ∧ c.worker.calls ≤ t.worker.calls ∧ t.client = c.client) := by
    rintro s t e ⟨hI, hn, hcl⟩ hs
    have hm := slotMove_of_step hI hs
    refine ⟨hI.move hm, ?_, hm.client.trans hcl⟩
    rcases hI.calls_move hm with heq | ⟨_, _, _, _, heq⟩ <;> omega
  have hinit : Serving S c ∧ c.worker.calls ≤ c.worker.calls ∧ c.client = c.client :=
    ⟨h.serving, Nat.le_refl _, rfl⟩
  have hqueued : c.worker.calls < u.worker.calls ↔
      c.worker.calls < c.worker.calls ∨
        Lts.SomeStep (slotStep conf) LastAwaited c es :=
    Lts.settled_iff_someStep hstep
      (fun hI hs => hI.1.calls_iff hI.2.1 (slotMove_of_step hI.1 hs)) hinit hrun
  rw [or_iff_right (Nat.lt_irrefl _)] at hqueued
  rw [← hqueued]
  obtain ⟨_, hge, hcl⟩ := Lts.run_inv hstep hinit hrun
  constructor
  · intro hns
    refine Nat.lt_of_le_of_ne hge fun heq => hns ⟨hend, heq.symm, ?_⟩
    rw [hcl]
    exact hopen
  · rintro hlt ⟨_, heq, _⟩
    omega

theorem notStuck_iff_bothReply :
    ∃ u, Lts.run (slotStep twoGroups) twoGroupsServed bothReply = some u ∧
      (¬ Stuck bothSlots twoGroupsServed.worker.calls u ↔
        Lts.SomeStep (slotStep twoGroups) LastAwaited twoGroupsServed bothReply) := by
  have hrun : ((Lts.run (slotStep twoGroups) twoGroupsServed bothReply).map fun u =>
      decide (∀ p ∈ bothSlots, Settled u p)) = some true := by
    decide +kernel
  obtain ⟨u, hu, hend⟩ := Option.map_eq_some_iff.1 hrun
  have hinside := runInside_of_passes ((run_slotStep twoGroups _).symm.trans hu)
    (by decide +kernel)
  exact ⟨u, hu, notStuck_iff twoGroupsServed_writtenTo (by decide +kernel) hinside
    (of_decide_eq_true hend)⟩

/-- One reply is read while the other slot is awaited, the other read fails:
no event is left, the worker was not queued and the client waits. -/
theorem notStuck_fails :
    ¬ ∀ (conf : Conf) (m c u : ConnCtx) (rvs : Nat → Nat → Int) (pre : List Event)
        (S : Finset Slot) (es : List SlotEvent), S.Nonempty →
        Lts.run (step conf) (onNewConnection conf m rvs 0) pre = some c →
        WrittenTo S c → Lts.run (slotStep conf) c es = some u →
        ¬ Stuck S c.worker.calls u := by
  intro hall
  have hrun : ((Lts.run (slotStep twoGroups) twoGroupsServed
      [.wrote (0, 0) 0, .wrote (1, 0) 0, .got (1, 0) (.data (plainReply 0)),
        .got (0, 0) .error]).map fun u =>
        (decide (∀ p ∈ bothSlots, Settled u p),
          u.worker.calls, u.client.handle.isOpen)) = some (true, 0, true) := by
    decide +kernel
  obtain ⟨u, hu, htriple⟩ := Option.map_eq_some_iff.1 hrun
  obtain ⟨hend, hpair⟩ := Prod.mk.inj htriple
  obtain ⟨hcalls, hopen⟩ := Prod.mk.inj hpair
  have hzero : twoGroupsServed.worker.calls = 0 := by decide +kernel
  refine hall _ _ _ _ _ _ bothSlots _ ⟨(0, 0), by decide⟩ twoGroupsServed_run
    twoGroupsServed_writtenTo hu ⟨of_decide_eq_true hend, ?_, hopen⟩
  rw [hcalls, hzero]

end UiServer
