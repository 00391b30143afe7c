import Mathlib.Data.Finset.Card
import Mathlib.Data.Finset.Filter
import UiServer.Proofs.Callbacks

/-!
# A request that was written

A request that was written to a set of slots ends with one event for each
write and, where the write went through, one event of the read that follows
it. The server counts the writes that went through and the reads that ended,
and queues the worker when a good read finds the counts equal.

What the counts say is `Serving.balance`: they differ by the number of slots
that are awaited, those whose write went through and whose read has not ended.
So the worker is queued by a good read exactly if no other slot is awaited
(`Serving.count_test`, `Serving.calls_move`).
-/

namespace UiServer

abbrev Slot := Nat × Nat

def Writing (c : ConnCtx) (p : Slot) : Prop := (c.slot p.1 p.2).write = true

def Awaiting (c : ConnCtx) (p : Slot) : Prop := (c.slot p.1 p.2).tcp.reading = true

instance (c : ConnCtx) (p : Slot) : Decidable (Writing c p) :=
  inferInstanceAs (Decidable (_ = true))

instance (c : ConnCtx) (p : Slot) : Decidable (Awaiting c p) :=
  inferInstanceAs (Decidable (_ = true))

def Settled (c : ConnCtx) (p : Slot) : Prop := ¬ Writing c p ∧ ¬ Awaiting c p

instance (c : ConnCtx) (p : Slot) : Decidable (Settled c p) :=
  inferInstanceAs (Decidable (_ ∧ _))

/-! ## The events of one request

The run is cut down to the two kinds of events that are about the slots of one
request, as a step function of its own over `step`. `SlotMove` is what such an
event can do, with the state it is possible in, and everything behind it is proved
from its five cases. -/

inductive SlotEvent where
  | wrote (p : Slot) (status : Int)
  | got (p : Slot) (r : Read)

def SlotEvent.toEvent : SlotEvent → Event
  | .wrote p status => .distributeUpstreamCb p.1 p.2 status
  | .got p r => .onGotUpstreamResponse p.1 p.2 r

def slotStep (conf : Conf) (c : ConnCtx) (e : SlotEvent) : Option ConnCtx :=
  step conf c e.toEvent

theorem run_slotStep (conf : Conf) {es : List SlotEvent} : ∀ c : ConnCtx,
    Lts.run (slotStep conf) c es = Lts.run (step conf) c (es.map SlotEvent.toEvent) := by
  induction es with
  | nil => intro c; rfl
  | cons e es ih =>
      intro c
      rw [List.map_cons]
      simp only [Lts.run, slotStep, ih]

/-- The request was written to the slots of `S`, and nothing has come of it
yet. -/
structure WrittenTo (S : Finset Slot) (c : ConnCtx) : Prop where
  distributeCount : c.gs.distributeCount = 0
  responseCount : c.gs.responseCount = 0
  needMerge : c.request.web.needMerge ≠ 0
  writing : ∀ p, Writing c p ↔ p ∈ S
  awaiting : ∀ p, ¬ Awaiting c p
  isOpen : ∀ p ∈ S, (c.slot p.1 p.2).tcp.handle.isOpen = true

def awaited (S : Finset Slot) (c : ConnCtx) : Finset Slot := S.filter (Awaiting c)

/-- What holds while the events of the request come in. -/
structure Serving (S : Finset Slot) (c : ConnCtx) : Prop where
  needMerge : c.request.web.needMerge ≠ 0
  writing : ∀ p, Writing c p → p ∈ S ∧ ¬ Awaiting c p
  isOpen : ∀ p, Writing c p → (c.slot p.1 p.2).tcp.handle.isOpen = true
  awaiting : ∀ p, Awaiting c p → p ∈ S
  balance : c.gs.distributeCount = c.gs.responseCount + (awaited S c).card

theorem WrittenTo.serving {S : Finset Slot} {c : ConnCtx} (h : WrittenTo S c) :
    Serving S c where
  needMerge := h.needMerge
  writing := fun p hp => ⟨(h.writing p).1 hp, h.awaiting p⟩
  isOpen := fun p hp => h.isOpen p ((h.writing p).1 hp)
  awaiting := fun p hp => absurd hp (h.awaiting p)
  balance := by
    have hnone : awaited S c = ∅ :=
      Finset.filter_false_of_mem fun p _ => h.awaiting p
    rw [hnone, h.distributeCount, h.responseCount]
    rfl

/-- What an event of slot `p` leaves alone. -/
structure OnlySlot (p : Slot) (c t : ConnCtx) : Prop where
  slots : ∀ q, q ≠ p → t.slot q.1 q.2 = c.slot q.1 q.2
  request : t.request = c.request
  client : t.client = c.client

theorem OnlySlot.writing {p q : Slot} {c t : ConnCtx} (h : OnlySlot p c t)
    (hq : q ≠ p) : Writing t q ↔ Writing c q := by
  simp only [Writing]
  rw [h.slots q hq]

theorem OnlySlot.awaiting {p q : Slot} {c t : ConnCtx} (h : OnlySlot p c t)
    (hq : q ≠ p) : Awaiting t q ↔ Awaiting c q := by
  simp only [Awaiting]
  rw [h.slots q hq]

/-- Everything an event of a slot can do: the state it is possible in, what
becomes of the slot, of the two counts and of the worker. -/
inductive SlotMove (c t : ConnCtx) : SlotEvent → Prop where
  | wroteOk {p : Slot} : Writing c p → OnlySlot p c t → ¬ Writing t p → Awaiting t p →
      t.gs.distributeCount = c.gs.distributeCount + 1 →
      t.gs.responseCount = c.gs.responseCount → t.worker = c.worker →
      SlotMove c t (.wrote p 0)
  | wroteFailed {p : Slot} {status : Int} : status ≠ 0 → Writing c p →
      OnlySlot p c t → Settled t p →
      t.gs.distributeCount = c.gs.distributeCount →
      t.gs.responseCount = c.gs.responseCount → t.worker = c.worker →
      SlotMove c t (.wrote p status)
  | again {p : Slot} : t = c → SlotMove c t (.got p .again)
  | gotFailed {p : Slot} : Awaiting c p → OnlySlot p c t → Settled t p →
      t.gs.distributeCount = c.gs.distributeCount →
      t.gs.responseCount = c.gs.responseCount + 1 → t.worker = c.worker →
      SlotMove c t (.got p .error)
  | gotReply {p : Slot} {bs : CMem.Bytes} : Awaiting c p → OnlySlot p c t →
      Settled t p → t.gs.distributeCount = c.gs.distributeCount →
      t.gs.responseCount = c.gs.responseCount + 1 →
      t.worker = (if c.gs.distributeCount ≤ c.gs.responseCount + 1 then c.worker.queue
        else c.worker) →
      SlotMove c t (.got p (.data bs))

theorem onlySlot_upstreamServerErr (c : ConnCtx) (p : Slot) :
    OnlySlot p c (upstreamServerErr c p.1 p.2) where
  slots := fun _ hq => slot_upstreamServerErr_ne fun h => hq (Prod.ext h.1 h.2)
  request := rfl
  client := rfl

theorem onlySlot_modSlot (c : ConnCtx) (p : Slot)
    (f : UpstreamConnect → UpstreamConnect) : OnlySlot p c (c.modSlot p.1 p.2 f) where
  slots := fun _ hq => ConnCtx.slot_modSlot_ne fun h => hq (Prod.ext h.1 h.2)
  request := rfl
  client := rfl

theorem OnlySlot.trans {p : Slot} {c m t : ConnCtx} (h : OnlySlot p c m)
    (h' : OnlySlot p m t) : OnlySlot p c t where
  slots := fun q hq => (h'.slots q hq).trans (h.slots q hq)
  request := h'.request.trans h.request
  client := h'.client.trans h.client

theorem settled_upstreamServerErr {c : ConnCtx} {p : Slot} (h : ¬ Writing c p) :
    Settled (upstreamServerErr c p.1 p.2) p := by
  rw [Settled, Writing, Awaiting] at *
  rw [slot_upstreamServerErr_same]
  exact ⟨h, Bool.false_ne_true⟩

theorem slotMove_wrote {S : Finset Slot} {conf : Conf} {c t : ConnCtx} {p : Slot}
    {status : Int} (h : Serving S c)
    (hs : slotStep conf c (.wrote p status) = some t) :
    SlotMove c t (.wrote p status) := by
  cases callback_of_step hs with
  | written hw =>
      generalize hm : (c.modSlot p.1 p.2 fun up => { up with write := false }) = m
      have hslot : m.slot p.1 p.2 = { c.slot p.1 p.2 with write := false } := by
        rw [← hm]
        exact ConnCtx.slot_modSlot_same _ _ _ _
      have honly : OnlySlot p c m := hm ▸ onlySlot_modSlot c p _
      have hdone : ¬ Writing m p := by
        rw [Writing, hslot]
        exact Bool.false_ne_true
      by_cases hst : status = 0
      · subst hst
        rw [distributeUpstreamCb_ok]
        have hopen : (m.slot p.1 p.2).tcp.handle.isOpen = true := by
          rw [hslot]
          exact h.isOpen p hw
        have hread := onlySlot_modSlot (m.addDistributeCount 1) p
          fun up => { up with tcp := up.tcp.readStart }
        refine .wroteOk hw (honly.trans ⟨hread.slots, rfl, rfl⟩) ?_ ?_ ?_ ?_ ?_
        · rw [Writing] at hdone ⊢
          rw [ConnCtx.slot_modSlot_same]
          exact hdone
        · rw [Awaiting, ConnCtx.slot_modSlot_same]
          exact Uv.Stream.reading_readStart hopen
        all_goals subst hm; rfl
      · rw [distributeUpstreamCb_err hst]
        refine .wroteFailed hst hw (honly.trans (onlySlot_upstreamServerErr m p))
          (settled_upstreamServerErr hdone) ?_ ?_ ?_
        all_goals subst hm; rfl

theorem slotMove_got {S : Finset Slot} {conf : Conf} {c t : ConnCtx} {p : Slot}
    {r : Read} (h : Serving S c) (hs : slotStep conf c (.got p r) = some t) :
    SlotMove c t (.got p r) := by
  have hnot : Awaiting c p → ¬ Writing c p := fun ha hw => (h.writing p hw).2 ha
  cases callback_of_step hs with
  | replyAgain => exact .again rfl
  | replyFailed _ ha =>
      have honly := onlySlot_upstreamServerErr (c.addResponseCount 1) p
      have hset : Settled (upstreamServerErr (c.addResponseCount 1) p.1 p.2) p :=
        settled_upstreamServerErr (hnot ha)
      exact .gotFailed ha ⟨honly.slots, rfl, rfl⟩ hset rfl rfl rfl
  | reply _ ha hbs =>
      rw [readUpstream_eq hbs h.needMerge]
      have honly := onlySlot_modSlot (c.addResponseCount 1) p .endRead
      have hslot := ConnCtx.slot_modSlot_same (c.addResponseCount 1) p.1 p.2 .endRead
      refine .gotReply ha ⟨honly.slots, rfl, rfl⟩ ⟨?_, ?_⟩ rfl rfl rfl
      · show ¬ (((c.addResponseCount 1).modSlot p.1 p.2 .endRead).slot p.1 p.2).write = true
        rw [hslot]
        exact hnot ha
      · show ¬ (((c.addResponseCount 1).modSlot p.1 p.2 .endRead).slot
          p.1 p.2).tcp.reading = true
        rw [hslot]
        exact Bool.false_ne_true

theorem slotMove_of_step {S : Finset Slot} {conf : Conf} {c t : ConnCtx}
    {e : SlotEvent} (h : Serving S c) (hs : slotStep conf c e = some t) :
    SlotMove c t e := by
  cases e with
  | wrote p status => exact slotMove_wrote h hs
  | got p r => exact slotMove_got h hs

/-! ## The counts

A write that goes through makes a slot awaited and raises the one count, a read
that ends makes it settled and raises the other. The difference of the counts is
the number of awaited slots, and the test of `on_got_upstream_response` asks
whether that is none. -/

theorem mem_awaited {S : Finset Slot} {c : ConnCtx} {p : Slot} :
    p ∈ awaited S c ↔ p ∈ S ∧ Awaiting c p := Finset.mem_filter

theorem card_awaited_start {S : Finset Slot} {c t : ConnCtx} {p : Slot}
    (h : OnlySlot p c t) (hp : p ∈ S) (hc : ¬ Awaiting c p) (ht : Awaiting t p) :
    (awaited S t).card = (awaited S c).card + 1 := by
  have hins : awaited S t = insert p (awaited S c) := by
    ext q
    rw [Finset.mem_insert, mem_awaited, mem_awaited]
    by_cases hq : q = p
    · subst hq
      exact ⟨fun _ => .inl rfl, fun _ => ⟨hp, ht⟩⟩
    · rw [h.awaiting hq]
      exact ⟨.inr, fun h => h.resolve_left hq⟩
  have hnew : p ∉ awaited S c := fun h => hc (mem_awaited.1 h).2
  rw [hins, Finset.card_insert_of_notMem hnew]

theorem card_awaited_stop {S : Finset Slot} {c t : ConnCtx} {p : Slot}
    (h : OnlySlot p c t) (hp : p ∈ S) (hc : Awaiting c p) (ht : ¬ Awaiting t p) :
    (awaited S t).card + 1 = (awaited S c).card := by
  have hera : awaited S t = (awaited S c).erase p := by
    ext q
    rw [Finset.mem_erase, mem_awaited, mem_awaited]
    by_cases hq : q = p
    · subst hq
      exact ⟨fun h => absurd h.2 ht, fun h => absurd rfl h.1⟩
    · rw [h.awaiting hq]
      exact ⟨fun h => ⟨hq, h⟩, And.right⟩
  rw [hera, Finset.card_erase_add_one (mem_awaited.2 ⟨hp, hc⟩)]

theorem awaited_congr {S : Finset Slot} {c t : ConnCtx} {p : Slot}
    (h : OnlySlot p c t) (hc : ¬ Awaiting c p) (ht : ¬ Awaiting t p) :
    awaited S t = awaited S c := by
  ext q
  rw [mem_awaited, mem_awaited]
  by_cases hq : q = p
  · subst hq
    exact ⟨fun h => absurd h.2 ht, fun h => absurd h.2 hc⟩
  · rw [h.awaiting hq]

/-- The test of the completion path, in terms of the slots: no other slot is
awaited. -/
theorem Serving.count_test {S : Finset Slot} {c : ConnCtx} {p : Slot}
    (h : Serving S c) (hp : Awaiting c p) :
    c.gs.distributeCount ≤ c.gs.responseCount + 1 ↔ ∀ q, q ≠ p → ¬ Awaiting c q := by
  have hbal := h.balance
  have hone : (awaited S c).card ≤ 1 ↔ ∀ q, q ≠ p → ¬ Awaiting c q := by
    rw [Finset.card_le_one]
    constructor
    · intro hall q hq hqa
      exact hq (hall q (mem_awaited.2 ⟨h.awaiting q hqa, hqa⟩) p
        (mem_awaited.2 ⟨h.awaiting p hp, hp⟩))
    · intro hnone
      have honly : ∀ q ∈ awaited S c, q = p := fun q hq =>
        Classical.byContradiction fun hqp => hnone q hqp (mem_awaited.1 hq).2
      intro a ha b hb
      rw [honly a ha, honly b hb]
  rw [← hone]
  omega

/-- An event of slot `p` ends its write, and leaves it awaited or not. -/
theorem Serving.only {S : Finset Slot} {c t : ConnCtx} {p : Slot} (h : Serving S c)
    (honly : OnlySlot p c t) (hw : ¬ Writing t p) (ha : Awaiting t p → p ∈ S)
    (hcount : t.gs.distributeCount = t.gs.responseCount + (awaited S t).card) :
    Serving S t := by
  have hne : ∀ q, Writing t q → q ≠ p := fun q hq he => hw (he ▸ hq)
  refine ⟨honly.request ▸ h.needMerge, fun q hq => ?_, fun q hq => ?_,
    fun q hq => ?_, hcount⟩
  · have hqp := hne q hq
    rw [honly.writing hqp] at hq
    rw [honly.awaiting hqp]
    exact h.writing q hq
  · have hqp := hne q hq
    rw [honly.writing hqp] at hq
    rw [honly.slots q hqp]
    exact h.isOpen q hq
  · by_cases hqp : q = p
    · subst hqp
      exact ha hq
    · rw [honly.awaiting hqp] at hq
      exact h.awaiting q hq

theorem Serving.move {S : Finset Slot} {c t : ConnCtx} {e : SlotEvent}
    (h : Serving S c) (hm : SlotMove c t e) : Serving S t := by
  have hbal := h.balance
  cases hm with
  | again he => exact he ▸ h
  | @wroteOk p hw honly hnw ha hdc hrc _ =>
      obtain ⟨hp, hna⟩ := h.writing p hw
      have hcard := card_awaited_start honly hp hna ha
      exact h.only honly hnw (fun _ => hp) (by omega)
  | @wroteFailed p _ _ hw honly hset hdc hrc _ =>
      have hsame := awaited_congr honly (h.writing p hw).2 hset.2 (S := S)
      exact h.only honly hset.1 (fun ha => absurd ha hset.2) (by rw [hsame]; omega)
  | @gotFailed p ha honly hset hdc hrc _ =>
      have hcard := card_awaited_stop honly (h.awaiting p ha) ha hset.2
      exact h.only honly hset.1 (fun ha => absurd ha hset.2) (by omega)
  | @gotReply p _ ha honly hset hdc hrc _ =>
      have hcard := card_awaited_stop honly (h.awaiting p ha) ha hset.2
      exact h.only honly hset.1 (fun ha => absurd ha hset.2) (by omega)

/-- The worker is queued by a good read that finds no other slot awaited, and
by nothing else. -/
theorem Serving.calls_move {S : Finset Slot} {c t : ConnCtx} {e : SlotEvent}
    (h : Serving S c) (hm : SlotMove c t e) :
    t.worker.calls = c.worker.calls ∨
      ∃ p bs, e = .got p (.data bs) ∧ (∀ q, q ≠ p → ¬ Awaiting c q) ∧
        t.worker.calls = c.worker.calls + 1 := by
  cases hm with
  | again he => exact .inl (he ▸ rfl)
  | wroteOk _ _ _ _ _ _ hwk => exact .inl (hwk ▸ rfl)
  | wroteFailed _ _ _ _ _ _ hwk => exact .inl (hwk ▸ rfl)
  | gotFailed _ _ _ _ _ hwk => exact .inl (hwk ▸ rfl)
  | @gotReply p bs ha _ _ _ _ hwk =>
      split at hwk
      · next hle =>
          exact .inr ⟨p, bs, rfl, (h.count_test ha).1 hle, hwk ▸ rfl⟩
      · exact .inl (hwk ▸ rfl)

end UiServer
