import UiServer.Proofs.Busy
import UiServer.Proofs.History
import UiServer.Proofs.Merge
import UiServer.Proofs.NeedClose

/-!
# One request at a time

Everything a response is made from is there once per connection: the request,
the merge buffer, the worker, the response buffer. So a response is made from
the replies to one request exactly as long as `on_request` takes in a request
only when no slot and no worker is at work for an earlier one, no read of an
upstream brings the rest of a reply that was cut, and no page is made while the
response to an earlier request is still being written (`unmixed_iff`). What a
read answers the server cannot tell, so it is the environment that says it.
-/

namespace UiServer

open CMem

/-! ## The property and the condition

`Unmixed` is what should hold in every state of a run and `OneAtATime` is what is
asked of a step, both said with the numbers of the history. `OneRequest` is what
carries the proof: it is `Unmixed` with what must be known in addition for the
next step, the books among it. When the client is gone nothing is sent any more,
and `HungUp` is all that is left. -/

/-- Everything on the connection is about one request: the merge buffer holds
the replies to the current request and only those, no reply went into the merge
buffer of another request than it answers, the slots and the worker are at work
for the current request, each response was made from the replies to the request
it is for, and its page stays in the response buffer while it is written. As
long as a request waits to be distributed nothing is merged, so one that takes
its place then resets nothing. -/
structure Unmixed (conf : Conf) (x : Tracked) : Prop where
  merge : x.conn.client.handle.isOpen = true → 0 < x.current →
    MergedFrom x.conn.upstreamResponse (repliesTo x.replies x.current)
  own : x.conn.client.handle.isOpen = true → ∀ a ∈ x.replies, a.request = a.current
  armed : x.conn.client.handle.isOpen = true → x.conn.idler.active = true →
    MergedFrom x.conn.upstreamResponse []
  waiting : x.conn.client.handle.isOpen = true → ∀ g s,
    (x.conn.slot g s).busy = true → x.asked (g, s) = x.current
  work : x.conn.client.handle.isOpen = true → ¬ x.conn.worker.Done → x.work = x.current
  sent : ∀ r ∈ x.sent, MadeFor conf x r.request r.text
  writing : 0 < x.conn.write → ∀ r ∈ x.sent.head?, r.request = x.page

def Quiescent (c : ConnCtx) : Prop :=
  (∀ g s, (c.slot g s).busy = false) ∧ c.worker.Done

/-- The condition: a request is taken in only when nothing is at work for the
one before, what is read of an upstream answers what its slot was asked last and
is not the rest of an earlier reply, and no page is made while the response to an
earlier request is being written. -/
def OneAtATime (x : Tracked) : Observed → Prop
  | ⟨.onRequest (.data bs), _⟩ =>
      (receiveRequest x.conn bs).request.web.MagicOk → Quiescent x.conn
  | ⟨.onGotUpstreamResponse g s (.data _), k⟩ =>
      x.conn.client.handle.isOpen = true → k = x.asked (g, s)
  | ⟨.handleRequest, _⟩ => x.conn.write = 0 ∨ ∀ r ∈ x.sent.head?, r.request = x.current
  | _ => True

/-- The invariant of an open connection. -/
structure OneRequest (conf : Conf) (x : Tracked) : Prop where
  books : OpenBooks conf True x.conn
  begun : x.conn.idler.active = true ∨ ¬ Quiescent x.conn → 0 < x.current
  request : 0 < x.current → x.conn.request.web = x.webs x.current ∧
    x.conn.request.web.needMerge ≠ 0
  known : ∀ a ∈ x.replies, a.request ≤ x.current
  own : ∀ a ∈ x.replies, a.request = a.current
  armed : x.conn.idler.active = true →
    Quiescent x.conn ∧ repliesTo x.replies x.current = []
  merge : 0 < x.current →
    MergedFrom x.conn.upstreamResponse (repliesTo x.replies x.current)
  waiting : ∀ g s, (x.conn.slot g s).busy = true → x.asked (g, s) = x.current
  work : ¬ x.conn.worker.Done → x.work = x.current
  page : 0 < x.conn.worker.ran →
    x.page = x.current ∧ MadeFor conf x x.current (responseText x.conn)
  sent : ∀ r ∈ x.sent, r.request ≤ x.current ∧ MadeFor conf x r.request r.text
  writing : 0 < x.conn.write → ∀ r ∈ x.sent.head?, r.request = x.page

/-- The invariant of a connection that `context_close` was called on: no
response is sent any more. -/
structure HungUp (conf : Conf) (x : Tracked) : Prop where
  client : x.conn.client.handle.isOpen = false
  sent : ∀ r ∈ x.sent, MadeFor conf x r.request r.text
  writing : 0 < x.conn.write → ∀ r ∈ x.sent.head?, r.request = x.page

section

variable {conf : Conf} {x : Tracked} {t : ConnCtx} {k : Nat} {e : Event}

theorem OneRequest.unmixed (h : OneRequest conf x) : Unmixed conf x where
  merge := fun _ => h.merge
  own := fun _ => h.own
  armed := fun _ hact => by
    have hmerged := h.merge (h.begun (.inl hact))
    rwa [(h.armed hact).2] at hmerged
  waiting := fun _ => h.waiting
  work := fun _ => h.work
  sent := fun r hr => (h.sent r hr).2
  writing := h.writing

theorem HungUp.unmixed (h : HungUp conf x) : Unmixed conf x := by
  have hclosed : ¬ x.conn.client.handle.isOpen = true := by
    rw [h.client]
    exact Bool.false_ne_true
  exact ⟨fun ho => absurd ho hclosed, fun ho => absurd ho hclosed,
    fun ho => absurd ho hclosed, fun ho => absurd ho hclosed, fun ho => absurd ho hclosed,
    h.sent, h.writing⟩

/-! ## Steps in which the request goes on

Most callbacks take in no request and read no reply. What such a step may do is
said in `GoesOn`, and that the invariant survives it is proved for all of them at
once; the lemmas behind it bring the callbacks under it. -/

/-- No request is taken in and no reply read, the page stays, a response is
sent only if the worker has made its page, and a slot is busy anew only if the
current request is now written to it, which no longer waits then. -/
structure GoesOn (x : Tracked) (k : Nat) (e : Event) (t : ConnCtx) : Prop where
  takes : takes x.conn e = false
  reply : x.replyOf k e = []
  page : (x.next k e t).page = x.page
  request : t.request = x.conn.request
  merged : t.upstreamResponse = x.conn.upstreamResponse
  text : responseText t = responseText x.conn
  calls : t.worker.calls = x.conn.worker.calls
  done : x.conn.worker.Done → t.worker.Done
  ran : t.worker.ran ≤ x.conn.worker.ran
  write : x.conn.write < t.write → 0 < x.conn.worker.ran
  idler : t.idler.active = true → x.conn.idler.active = true ∧
    ∀ g s, (t.slot g s).busy = true → (x.conn.slot g s).busy = true
  busy : ∀ g s, (t.slot g s).busy = true → (x.conn.slot g s).busy = true ∨
    0 < x.current ∧ (t.slot g s).write = true ∧ (x.conn.slot g s).write = false

/-- A slot at work is at work for the current request. -/
theorem OneRequest.asked (h : OneRequest conf x) (htakes : takes x.conn e = false)
    {g s : Nat} (hbusy : (x.conn.slot g s).busy = true ∨
      (t.slot g s).write = true ∧ (x.conn.slot g s).write = false) :
    (x.next k e t).asked (g, s) = x.current := by
  show (if (t.slot g s).write && !(x.conn.slot g s).write then x.currentAfter e
    else x.asked (g, s)) = x.current
  split
  · exact Tracked.next_current htakes (t := t) (k := k)
  · next hold =>
      refine h.waiting g s (hbusy.resolve_right fun hnew => hold ?_)
      rw [hnew.1, hnew.2]
      rfl

theorem OneRequest.sentBefore (h : OneRequest conf x) (htakes : takes x.conn e = false) :
    ∀ r ∈ x.sent, r.request ≤ x.current ∧ MadeFor conf (x.next k e t) r.request r.text :=
  fun r hr => ⟨(h.sent r hr).1, (h.sent r hr).2.next (.inl htakes)⟩

theorem OneRequest.not_quiescent (h : OneRequest conf x)
    (hg : GoesOn x k e t) (hq : ¬ Quiescent t) : 0 < x.current := by
  by_contra hzero
  have hquiet : Quiescent x.conn := by
    by_contra hnot
    exact hzero (h.begun (.inr hnot))
  refine hq ⟨fun g s => ?_, hg.done hquiet.2⟩
  by_contra hslot
  rcases hg.busy g s (Bool.of_not_eq_false hslot) with hold | ⟨hpos, _⟩
  · rw [hquiet.1 g s] at hold
    cases hold
  · exact hzero hpos

theorem OneRequest.goesOn (h : OneRequest conf x) (hb : OpenBooks conf True t)
    (hg : GoesOn x k e t) : OneRequest conf (x.next k e t) := by
  have hcurrent : (x.next k e t).current = x.current := Tracked.next_current hg.takes
  have hreplies : (x.next k e t).replies = x.replies := by
    show x.replies ++ x.replyOf k e = x.replies
    rw [hg.reply, List.append_nil]
  have hwork : (x.next k e t).work = x.work := Tracked.next_work hg.calls
  have hsent : (x.next k e t).sent = x.sent ∧ t.write ≤ x.conn.write ∨
      (x.next k e t).sent = ⟨x.page, responseText t⟩ :: x.sent ∧ 0 < x.conn.worker.ran := by
    by_cases hlt : x.conn.write < t.write
    · exact .inr ⟨if_pos hlt, hg.write hlt⟩
    · exact .inl ⟨if_neg hlt, Nat.not_lt.1 hlt⟩
  have hmade : 0 < x.conn.worker.ran → x.page = x.current ∧
      MadeFor conf (x.next k e t) x.current (responseText t) := fun hran => by
    rw [hg.text]
    exact ⟨(h.page hran).1, (h.page hran).2.next (.inl hg.takes)⟩
  refine ⟨hb, ?_, ?_, ?_, ?_, ?_, ?_, ?_, ?_, ?_, ?_, ?_⟩
  · rw [hcurrent]
    rintro (hact | hnot)
    · exact h.begun (.inl (hg.idler hact).1)
    · exact h.not_quiescent hg hnot
  · rw [hcurrent, Tracked.next_webs hg.takes]
    show 0 < x.current → t.request.web = _ ∧ t.request.web.needMerge ≠ 0
    rw [hg.request]
    exact h.request
  · rw [hcurrent, hreplies]
    exact h.known
  · rw [hreplies]
    exact h.own
  · rw [hcurrent, hreplies]
    intro hact
    obtain ⟨hactive, hkept⟩ := hg.idler hact
    obtain ⟨⟨hslots, hdone⟩, hnone⟩ := h.armed hactive
    refine ⟨⟨fun g s => ?_, hg.done hdone⟩, hnone⟩
    by_contra hslot
    have hbusy := hkept g s (Bool.of_not_eq_false hslot)
    rw [hslots g s] at hbusy
    cases hbusy
  · rw [hcurrent, hreplies]
    show 0 < x.current → MergedFrom t.upstreamResponse _
    rw [hg.merged]
    exact h.merge
  · intro g s hslot
    rw [hcurrent]
    exact h.asked hg.takes ((hg.busy g s hslot).imp id And.right)
  · rw [hcurrent, hwork]
    exact fun hnot => h.work fun hdone => hnot (hg.done hdone)
  · rw [hcurrent, hg.page]
    exact fun hran => hmade (Nat.lt_of_lt_of_le hran hg.ran)
  · rw [hcurrent]
    rcases hsent with ⟨hsame, _⟩ | ⟨hnew, hran⟩
    · rw [hsame]
      exact h.sentBefore hg.takes
    · rw [hnew]
      intro r hr
      rcases List.mem_cons.1 hr with rfl | hr
      · obtain ⟨hpage, hmk⟩ := hmade hran
        rw [hpage]
        exact ⟨Nat.le_refl _, hmk⟩
      · exact h.sentBefore hg.takes r hr
  · rw [hg.page]
    show 0 < t.write → ∀ r ∈ (x.next k e t).sent.head?, r.request = x.page
    rcases hsent with ⟨hsame, hle⟩ | ⟨hnew, _⟩
    · rw [hsame]
      exact fun hpos => h.writing (Nat.lt_of_lt_of_le hpos hle)
    · rw [hnew]
      intro _ r hr
      cases hr
      rfl

/-- A callback that is only about the upstreams and makes no slot busy. -/
theorem OneRequest.upstream (h : OneRequest conf x) (hb : OpenBooks conf True t)
    (htakes : takes x.conn e = false) (hreply : x.replyOf k e = [])
    (hpage : (x.next k e t).page = x.page) (hrest : UpstreamsOnly x.conn t)
    (hbusy : FlagKept UpstreamConnect.busy x.conn t) :
    OneRequest conf (x.next k e t) := by
  obtain ⟨gs, n, rfl⟩ := hrest
  exact h.goesOn hb ⟨htakes, hreply, hpage, rfl, rfl, rfl, rfl, id, Nat.le_refl _,
    fun hlt => absurd hlt (Nat.lt_irrefl _), fun hact => ⟨hact, hbusy⟩,
    fun g s hs => .inl (hbusy g s hs)⟩

theorem OneRequest.distribute {rvs : Nat → Int} (h : OneRequest conf x)
    (hactive : x.conn.idler.active = true) :
    OneRequest conf (x.next k (.doDistribute rvs)
      (distributeRequest conf x.conn.idleStopped rvs).1) := by
  have hpos := h.begun (.inl hactive)
  have hb : OpenBooks conf True (distributeRequest conf x.conn.idleStopped rvs).1 :=
    (OpenBooks.distribute h.books (.inl trivial)).1
  have hreading := reading_distributeRequest conf x.conn.idleStopped rvs
  have hbusy : ∀ g s, (((distributeRequest conf x.conn.idleStopped rvs).1).slot g s).busy
      = true → (x.conn.slot g s).busy = true ∨ 0 < x.current ∧
        (((distributeRequest conf x.conn.idleStopped rvs).1).slot g s).write = true ∧
        (x.conn.slot g s).write = false := by
    intro g s hslot
    cases hwas : (x.conn.slot g s).write with
    | true => exact .inl (Bool.or_eq_true_iff.2 (.inl hwas))
    | false =>
        rcases Bool.or_eq_true_iff.1 hslot with hnew | hread
        · exact .inr ⟨hpos, hnew, rfl⟩
        · exact .inl (Bool.or_eq_true_iff.2 (.inr (hreading g s hread)))
  obtain ⟨gs, n, heq⟩ := groupsOnly_distributeRequest conf x.conn.idleStopped rvs
  generalize (distributeRequest conf x.conn.idleStopped rvs).1 = t at hb hbusy heq
  subst heq
  exact h.goesOn hb ⟨rfl, rfl, rfl, rfl, rfl, rfl, rfl, id, Nat.le_refl _,
    fun hlt => absurd hlt (Nat.lt_irrefl _), nofun, hbusy⟩

/-- The worker's report and the writes to the client: a response that is sent is
the page of the current request. -/
theorem OneRequest.respond (h : OneRequest conf x) (htakes : takes x.conn e = false)
    (hreply : x.replyOf k e = []) {w : Uv.Work} {n : Nat}
    (hpage : (x.next k e { x.conn with worker := w, write := n }).page = x.page)
    (hdone : x.conn.worker.Done → w.Done) (hran : w.ran ≤ x.conn.worker.ran)
    (hcalls : w.calls = x.conn.worker.calls)
    (hn : x.conn.write < n → 0 < x.conn.worker.ran) :
    OneRequest conf (x.next k e { x.conn with worker := w, write := n }) :=
  h.goesOn (h.books.aside ⟨rfl, rfl, rfl, rfl⟩) ⟨htakes, hreply, hpage, rfl, rfl, rfl,
    hcalls, hdone, hran, hn, fun hact => ⟨hact, fun _ _ hs => hs⟩, fun _ _ hs => .inl hs⟩

/-! ## Steps of the current request

The three steps that make something new: a request is taken in, which needs that
nothing is at work for the one before; a reply is read, which needs that it
answers what its slot was asked; and the worker makes the page, which needs that
the last page is not being written any more. -/

theorem OneRequest.taken {bs : Bytes} (h : OneRequest conf x)
    (hok : (receiveRequest x.conn bs).request.web.MagicOk) (hq : Quiescent x.conn) :
    OneRequest conf (x.next k (.onRequest (.data bs))
      (acceptRequest (receiveRequest x.conn bs))) := by
  have htakes : takes x.conn (.onRequest (.data bs)) = true := decide_eq_true hok
  generalize ht : acceptRequest (receiveRequest x.conn bs) = t
  have haside : Aside x.conn t := by subst ht; exact ⟨rfl, rfl, rfl, rfl⟩
  have hworker : t.worker = x.conn.worker := by subst ht; rfl
  have hwrite : t.write = x.conn.write := by subst ht; rfl
  have hcurrent : (x.next k (.onRequest (.data bs)) t).current = x.current + 1 :=
    if_pos htakes
  have hreplies : (x.next k (.onRequest (.data bs)) t).replies = x.replies :=
    List.append_nil _
  have hsent : (x.next k (.onRequest (.data bs)) t).sent = x.sent :=
    Tracked.next_sent (Nat.le_of_eq hwrite)
  have hnil : repliesTo x.replies (x.current + 1) = [] :=
    repliesTo_eq_nil fun a ha => Nat.ne_of_lt (Nat.lt_succ_of_le (h.known a ha))
  refine ⟨h.books.aside haside, fun _ => ?_, fun _ => ⟨?_, ?_⟩, ?_, ?_, fun _ => ⟨?_, ?_⟩,
    fun _ => ?_, ?_, ?_, ?_, ?_, ?_⟩
  · rw [hcurrent]
    exact Nat.succ_pos _
  · show t.request.web = (if takes x.conn _ then Function.update x.webs
      (x.currentAfter _) t.request.web else x.webs) _
    rw [if_pos htakes]
    exact (Function.update_self (x.currentAfter _) _ x.webs).symm
  · subst ht
    exact needMerge_acceptRequest _
  · rw [hcurrent, hreplies]
    exact fun a ha => Nat.le_succ_of_le (h.known a ha)
  · rw [hreplies]
    exact h.own
  · show Quiescent t
    rw [Quiescent, haside.slot, hworker]
    exact hq
  · rw [hcurrent, hreplies, hnil]
  · rw [hcurrent, hreplies, hnil]
    subst ht
    exact ⟨_, rfl⟩
  · intro g s hslot
    have hbusy : (t.slot g s).busy = true := hslot
    rw [haside.slot, hq.1 g s] at hbusy
    cases hbusy
  · intro hnot
    have hdone : t.worker.Done := hworker ▸ hq.2
    exact absurd hdone hnot
  · intro hran
    have hpos : 0 < t.worker.ran := hran
    rw [hworker, hq.2.2] at hpos
    cases hpos
  · rw [hcurrent, hsent]
    exact fun r hr => ⟨Nat.le_succ_of_le (h.sent r hr).1,
      (h.sent r hr).2.next (.inr (h.sent r hr).1)⟩
  · rw [hsent]
    show 0 < t.write → _
    rw [hwrite]
    exact h.writing

theorem OneRequest.reply {g s : Nat} {bs : Bytes} (h : OneRequest conf x)
    (hread : (x.conn.slot g s).tcp.reading = true) (hbs : bs ≠ [])
    (hanswers : k = x.asked (g, s)) :
    OneRequest conf (x.next k (.onGotUpstreamResponse g s (.data bs))
      (readUpstream x.conn g s bs)) := by
  have hbusy : (x.conn.slot g s).busy = true := Bool.or_eq_true_iff.2 (.inr hread)
  have hpos : 0 < x.current :=
    h.begun (.inr fun hq => by rw [hq.1 g s] at hbusy; cases hbusy)
  have hbooks := Books.readUpstream h.books hread hbs
  have hkept : FlagKept UpstreamConnect.busy x.conn (readUpstream x.conn g s bs) :=
    (moves_readUpstream x.conn (g, s) hbs).flagKept fun hend =>
      Bool.or_eq_true_iff.2 (.inl ((Bool.or_eq_true_iff.1 hend).resolve_right nofun))
  have heq := readUpstream_eq (g := g) (s := s) hbs (h.request hpos).2
  generalize readUpstream x.conn g s bs = t at hbooks hkept heq
  obtain ⟨hrequest, hmerged, hwrite, hidler, htext, hran⟩ :
      t.request = x.conn.request ∧
      t.upstreamResponse = mergeRead x.conn.upstreamResponse bs ∧
      t.write = x.conn.write ∧ t.idler = x.conn.idler ∧
      responseText t = responseText x.conn ∧ t.worker.ran = x.conn.worker.ran := by
    rw [heq]
    refine ⟨rfl, rfl, rfl, rfl, rfl, ?_⟩
    simp only []
    split <;> rfl
  have hworker : t.worker = x.conn.worker ∨ x.conn.worker.calls < t.worker.calls := by
    rw [heq]
    simp only []
    split
    · exact .inr (Nat.lt_succ_self _)
    · exact .inl rfl
  have hreplies : (x.next k (.onGotUpstreamResponse g s (.data bs)) t).replies =
      x.replies ++ [⟨x.current, x.current, bs⟩] := by
    show x.replies ++ [⟨k, x.current, bs⟩] = _
    rw [hanswers, h.waiting g s hbusy]
  have hsent : (x.next k (.onGotUpstreamResponse g s (.data bs)) t).sent = x.sent :=
    Tracked.next_sent (Nat.le_of_eq hwrite)
  refine ⟨hbooks, fun _ => hpos, ?_, ?_, ?_, ?_, fun _ => ?_, ?_, ?_, ?_, ?_, ?_⟩
  · show 0 < x.current → t.request.web = x.webs x.current ∧ t.request.web.needMerge ≠ 0
    rw [hrequest]
    exact h.request
  · rw [hreplies]
    intro a ha
    rcases List.mem_append.1 ha with ha | ha
    · exact h.known a ha
    · rw [List.mem_singleton.1 ha]
      exact Nat.le_refl _
  · rw [hreplies]
    intro a ha
    rcases List.mem_append.1 ha with ha | ha
    · exact h.own a ha
    · rw [List.mem_singleton.1 ha]
  · show t.idler.active = true → _
    rw [hidler]
    intro hact
    rw [(h.armed hact).1.1 g s] at hbusy
    cases hbusy
  · show MergedFrom t.upstreamResponse (repliesTo _ x.current)
    rw [hreplies, repliesTo_append_self, hmerged]
    exact (h.merge hpos).read bs
  · exact fun g' s' hslot => h.asked rfl (.inl (hkept g' s' hslot))
  · intro hnot
    show (if x.conn.worker.calls < t.worker.calls then x.current else x.work) = x.current
    split
    · rfl
    · next hle =>
        refine h.work ?_
        rw [← hworker.resolve_right hle]
        exact hnot
  · show 0 < t.worker.ran → x.page = x.current ∧ MadeFor conf _ x.current (responseText t)
    rw [hran, htext]
    exact fun hr => ⟨(h.page hr).1, (h.page hr).2.next (.inl rfl)⟩
  · rw [hsent]
    exact h.sentBefore rfl
  · rw [hsent]
    show 0 < t.write → _
    rw [hwrite]
    exact h.writing

theorem OneRequest.handled (h : OneRequest conf x) (hqueued : 0 < x.conn.worker.queued)
    (hwriting : x.conn.write = 0 ∨ ∀ r ∈ x.sent.head?, r.request = x.current) :
    OneRequest conf (x.next k .handleRequest { handleRequest conf x.conn with
      worker := (handleRequest conf x.conn).worker.run }) := by
  have hnot : ¬ x.conn.worker.Done := fun hdone => by rw [hdone.1] at hqueued; cases hqueued
  have hpos : 0 < x.current := h.begun (.inr fun hq => hnot hq.2)
  obtain ⟨up, response, len, heq⟩ := workerHandler_eq conf x.conn
  have hmade : MadeFor conf x x.current (responseText (workerHandler conf x.conn)) :=
    ⟨x.replies, x.conn, List.prefix_rfl, (h.request hpos).1, h.merge hpos, rfl⟩
  generalize ht : ({ handleRequest conf x.conn with
    worker := (handleRequest conf x.conn).worker.run } : ConnCtx) = t
  have htext : responseText t = responseText (workerHandler conf x.conn) := by
    subst ht
    rfl
  obtain ⟨haside, hidler, hweb, hmerged, hcalls, hwrite⟩ : Aside x.conn t ∧
      t.idler = x.conn.idler ∧ t.request.web = x.conn.request.web ∧
      t.upstreamResponse = x.conn.upstreamResponse ∧
      t.worker.calls = x.conn.worker.calls ∧ t.write = x.conn.write := by
    subst ht
    rw [handleRequest, heq]
    exact ⟨⟨rfl, rfl, rfl, rfl⟩, rfl, rfl, rfl, rfl, rfl⟩
  have hwork : (x.next k .handleRequest t).work = x.work := Tracked.next_work hcalls
  have hsent : (x.next k .handleRequest t).sent = x.sent :=
    Tracked.next_sent (Nat.le_of_eq hwrite)
  have hreplies : (x.next k .handleRequest t).replies = x.replies := List.append_nil _
  refine ⟨h.books.aside haside, fun _ => hpos, fun _ => ?_, ?_, ?_, ?_, fun _ => ?_, ?_,
    fun _ => ?_, fun _ => ⟨rfl, ?_⟩, ?_, ?_⟩
  · show t.request.web = x.webs x.current ∧ t.request.web.needMerge ≠ 0
    rw [hweb]
    exact h.request hpos
  · rw [hreplies]
    exact h.known
  · rw [hreplies]
    exact h.own
  · show t.idler.active = true → _
    rw [hidler]
    exact fun hact => absurd (h.armed hact).1.2 hnot
  · show MergedFrom t.upstreamResponse (repliesTo _ x.current)
    rw [hreplies, hmerged]
    exact h.merge hpos
  · intro g s hslot
    have hold : (x.conn.slot g s).busy = true := by
      rw [← haside.slot]
      exact hslot
    exact h.asked rfl (.inl hold)
  · rw [hwork]
    exact h.work hnot
  · show MadeFor conf _ x.current (responseText t)
    rw [htext]
    exact hmade.next (.inl rfl)
  · rw [hsent]
    exact h.sentBefore rfl
  · rw [hsent]
    show 0 < t.write → ∀ r ∈ x.sent.head?, r.request = x.current
    rw [hwrite]
    intro hpend
    exact hwriting.resolve_left (Nat.ne_of_gt hpend)

/-! ## Closed connections

After `context_close` the callbacks that are still to come find a client that is
being closed. They take in nothing and start no write, so what was sent stays
right, and the condition is only needed for the page that lies in the response
buffer. -/

/-- A connection that was closed stays so and sends nothing. -/
theorem Callback.closed {c : ConnCtx} (h : Callback conf c e t)
    (hc : c.client.handle.isOpen = false) : t.client.handle.isOpen = false ∧
      t.write ≤ c.write ∧ takes c e = false := by
  have hopen : ¬ c.client.handle.isOpen = true := by
    rw [hc]
    exact Bool.false_ne_true
  have hupstream : ∀ {d : ConnCtx}, UpstreamsOnly c d →
      d.client.handle.isOpen = false ∧ d.write ≤ c.write := by
    rintro d ⟨gs, n, rfl⟩
    exact ⟨hc, Nat.le_refl _⟩
  have hclose : ∀ {cb : CloseCb} {d : ConnCtx} {g s : Nat} {rv : Int},
      GroupsOnly c d → (runCloseCb d g s rv cb).client.handle.isOpen = false ∧
        (runCloseCb d g s rv cb).write ≤ c.write := by
    intro cb d g s rv hd
    have hdown : (countDown d).client.handle.isOpen = false ∧
        (countDown d).write ≤ c.write := by
      obtain ⟨gs, n, rfl⟩ := hd
      simp only [countDown]
      split
      · exact ⟨hc, Nat.le_refl _⟩
      · exact ⟨hc, Nat.le_refl _⟩
    cases cb with
    | upstreamTcpClean => exact hdown
    | upstreamTimerClean => exact hdown
    | contextClean => exact hdown
    | upstreamReconnectTcp =>
        exact hupstream (hd.addNeedClose.trans
          (groupsOnly_upstreamConnectGroupServer _ _ _ rv)).upstreamsOnly
  have hslot : ∀ {g s : Nat} {f : UpstreamConnect → UpstreamConnect},
      GroupsOnly c (c.modSlot g s f) := (GroupsOnly.refl c).modSlot
  cases h with
  | readFailed ho => exact absurd ho hopen
  | taken ho => exact absurd ho hopen
  | refused ho => exact absurd ho hopen
  | readAgain => exact ⟨hc, Nat.le_refl _, rfl⟩
  | waits => exact ⟨hc, Nat.le_refl _, rfl⟩
  | @distributed rvs =>
      obtain ⟨gs, n, heq⟩ := groupsOnly_distributeRequest conf c.idleStopped rvs
      rw [heq]
      exact ⟨hc, Nat.le_refl _, rfl⟩
  | @unserved rvs =>
      obtain ⟨gs, n, heq⟩ := groupsOnly_distributeRequest conf c.idleStopped rvs
      obtain ⟨gs', n', heq'⟩ := contextClose_eq conf
        (distributeRequest conf c.idleStopped rvs).1
      rw [heq', heq]
      exact ⟨rfl, Nat.le_refl _, rfl⟩
  | connected =>
      obtain ⟨hclient, hwrite⟩ := hupstream (hslot.trans
        (groupsOnly_upstreamConnectCb _ _ _ _)).upstreamsOnly
      exact ⟨hclient, hwrite, rfl⟩
  | written =>
      obtain ⟨hclient, hwrite⟩ := hupstream (hslot.upstreamsOnly.trans
        (upstreamsOnly_distributeUpstreamCb _ _ _ _))
      exact ⟨hclient, hwrite, rfl⟩
  | replyFailed =>
      obtain ⟨hclient, hwrite⟩ := hupstream (upstreamsOnly_readError _ _ _)
      exact ⟨hclient, hwrite, rfl⟩
  | replyAgain => exact ⟨hc, Nat.le_refl _, rfl⟩
  | reply _ _ hbs =>
      by_cases hm : c.request.web.needMerge = 0
      · rw [readUpstream_unmerged hbs hm, ConnCtx.uvWriteClient]
        split
        · next ho => exact absurd ho hopen
        · exact ⟨hc, Nat.le_refl _, rfl⟩
      · rw [readUpstream_eq hbs hm]
        exact ⟨hc, Nat.le_refl _, rfl⟩
  | tcpClosed =>
      obtain ⟨hclient, hwrite⟩ := hclose hslot
      exact ⟨hclient, hwrite, rfl⟩
  | timerClosed =>
      obtain ⟨hclient, hwrite⟩ := hclose hslot
      exact ⟨hclient, hwrite, rfl⟩
  | clientClosed =>
      simp only [contextCleanCb, countDown]
      split
      · exact ⟨rfl, Nat.le_refl _, rfl⟩
      · exact ⟨rfl, Nat.le_refl _, rfl⟩
  | handled =>
      obtain ⟨up, response, len, heq⟩ := workerHandler_eq conf c
      rw [handleRequest, heq]
      exact ⟨hc, Nat.le_refl _, rfl⟩
  | @responded status =>
      rcases sendResponse_eq { c with worker := c.worker.report } status with
        heq | ⟨ho, _⟩
      · rw [heq]
        exact ⟨hc, Nat.le_refl _, rfl⟩
      · exact absurd ho hopen
  | responseSent => exact ⟨hc, Nat.sub_le _ _, rfl⟩

theorem isOpen_of_step {c : ConnCtx} (hs : step conf c e = some t)
    (hopen : t.client.handle.isOpen = true) : c.client.handle.isOpen = true := by
  by_contra hclosed
  have hstill := ((callback_of_step hs).closed (Bool.eq_false_of_not_eq_true hclosed)).1
  rw [hopen] at hstill
  cases hstill

/-- A connection that is open at the end of a run was open all along. -/
theorem isOpen_of_run {c : ConnCtx} {es : List Event} (hrun : Lts.run (step conf) c es = some t)
    (hopen : t.client.handle.isOpen = true) : c.client.handle.isOpen = true := by
  by_contra hclosed
  have hstill := Lts.run_inv (I := fun c : ConnCtx => c.client.handle.isOpen = false)
    (fun hI hs => ((callback_of_step hs).closed hI).1) (Bool.eq_false_of_not_eq_true hclosed) hrun
  rw [hopen] at hstill
  cases hstill

/-- A page that is made is for the request whose response is being written. -/
theorem OneAtATime.page (h : OneAtATime x ⟨e, k⟩) (htakes : takes x.conn e = false) :
    (x.next k e t).page = x.page ∨ x.conn.write = 0 ∨
      ∀ r ∈ x.sent.head?, r.request = (x.next k e t).page := by
  have hafter : x.currentAfter e = x.current := Tracked.next_current htakes (t := t) (k := k)
  cases e with
  | handleRequest =>
      have hpage : (x.next k .handleRequest t).page = x.current := hafter
      rw [hpage]
      exact .inr h
  | _ => exact .inl rfl

theorem hungUp_next (hsent : ∀ r ∈ x.sent, MadeFor conf x r.request r.text)
    (hwriting : 0 < x.conn.write → ∀ r ∈ x.sent.head?, r.request = x.page)
    (hP : OneAtATime x ⟨e, k⟩) (hclient : t.client.handle.isOpen = false)
    (hwrite : t.write ≤ x.conn.write) (htakes : takes x.conn e = false) :
    HungUp conf (x.next k e t) := by
  have hsame : (x.next k e t).sent = x.sent := Tracked.next_sent hwrite
  refine ⟨hclient, ?_, ?_⟩
  · rw [hsame]
    exact fun r hr => (hsent r hr).next (.inl htakes)
  · rw [hsame]
    intro hpos
    have hpos' : 0 < x.conn.write := Nat.lt_of_lt_of_le hpos hwrite
    rcases hP.page htakes (t := t) with hpage | hzero | hall
    · rw [hpage]
      exact hwriting hpos'
    · omega
    · exact hall

theorem HungUp.step (h : HungUp conf x) (hP : OneAtATime x ⟨e, k⟩)
    (hs : step conf x.conn e = some t) : HungUp conf (x.next k e t) := by
  obtain ⟨hclient, hwrite, htakes⟩ := (callback_of_step hs).closed h.client
  exact hungUp_next h.sent h.writing hP hclient hwrite htakes

theorem OneRequest.hangUp (h : OneRequest conf x) (hP : OneAtATime x ⟨e, k⟩)
    (htakes : takes x.conn e = false) {d : ConnCtx} (hd : d.write = x.conn.write) :
    HungUp conf (x.next k e (contextClose conf d)) := by
  obtain ⟨gs, n, heq⟩ := contextClose_eq conf d
  refine hungUp_next (fun r hr => (h.sent r hr).2) h.writing hP ?_ ?_ htakes
  · rw [heq]
    rfl
  · rw [heq]
    exact Nat.le_of_eq hd

/-! ## Every run

The invariant holds at the start and every step that meets the condition keeps it.
The other direction is a matter of one step: one that does not meet the condition
mixes two requests in the state it ends in (`Watched.mixes`). -/

theorem OneRequest.step (h : OneRequest conf x) (hP : OneAtATime x ⟨e, k⟩)
    (hs : step conf x.conn e = some t) :
    OneRequest conf (x.next k e t) ∨ HungUp conf (x.next k e t) := by
  have hslot : ∀ {g s : Nat} {f : UpstreamConnect → UpstreamConnect},
      GroupsOnly x.conn (x.conn.modSlot g s f) := (GroupsOnly.refl x.conn).modSlot
  have hsame : ∀ {e : Event}, takes x.conn e = false → x.replyOf k e = [] →
      (x.next k e x.conn).page = x.page → OneRequest conf (x.next k e x.conn) :=
    fun ht hr hp => h.upstream h.books ht hr hp (GroupsOnly.refl _).upstreamsOnly (.refl _)
  cases callback_of_step hs with
  | readFailed => exact .inr (h.hangUp hP rfl rfl)
  | readAgain => exact .inl (hsame rfl rfl rfl)
  | taken _ _ hok => exact .inl (h.taken hok (hP hok))
  | refused _ hbad => exact .inr (h.hangUp hP (decide_eq_false hbad) rfl)
  | waits hactive =>
      have haside : Aside x.conn { x.conn with idler := x.conn.idler.stop.start } :=
        ⟨rfl, rfl, rfl, rfl⟩
      exact .inl (h.goesOn (h.books.aside haside) ⟨rfl, rfl, rfl, rfl, rfl, rfl, rfl, id,
        Nat.le_refl _, fun hlt => absurd hlt (Nat.lt_irrefl _),
        fun _ => ⟨hactive, fun _ _ hs => hs⟩, fun _ _ hs => .inl hs⟩)
  | distributed hactive =>
      exact .inl (h.distribute hactive)
  | @unserved rvs =>
      obtain ⟨gs, n, heq⟩ := groupsOnly_distributeRequest conf x.conn.idleStopped rvs
      exact .inr (h.hangUp hP rfl (by rw [heq]; rfl))
  | connected hconnect =>
      exact .inl (h.upstream (Books.upstreamConnectCb h.books hconnect _) rfl rfl rfl
        (hslot.trans (groupsOnly_upstreamConnectCb _ _ _ _)).upstreamsOnly
        (busy_upstreamConnectCb _ _ _ _))
  | written hwrite =>
      exact .inl (h.upstream (Books.distributeUpstreamCb h.books hwrite fun _ => trivial)
        rfl rfl rfl
        (hslot.upstreamsOnly.trans (upstreamsOnly_distributeUpstreamCb _ _ _ _))
        (busy_distributeUpstreamCb hwrite _))
  | @replyFailed g s _ hread =>
      exact .inl (h.upstream (Books.readError h.books hread trivial) rfl rfl rfl
        (upstreamsOnly_readError _ _ _)
        ((flagKept_of_slot rfl).trans (flagKept_upstreamServerErr g s (busy_fail _))))
  | replyAgain => exact .inl (hsame rfl rfl rfl)
  | reply _ hread hbs =>
      have hopen : x.conn.client.handle.isOpen = true := by
        rw [h.books.client]
        rfl
      exact .inl (h.reply hread hbs (hP hopen))
  | @tcpClosed g s rv cb hph =>
      obtain ⟨_, rfl, _⟩ := Books.find_closing h.books hph
      have hkept : FlagKept UpstreamConnect.busy x.conn
          (x.conn.modSlot g s fun up => { up with tcp := up.tcp.finish }) :=
        flagKept_modSlot id
      exact .inl (h.upstream (Books.reconnect h.books hph rv) rfl rfl rfl
        (hslot.addNeedClose.trans
          (groupsOnly_upstreamConnectGroupServer _ _ _ _)).upstreamsOnly
        (hkept.trans (busy_runCloseCb _ g s rv _)))
  | timerClosed hph => exact absurd hph (Books.timer_not_closing h.books)
  | clientClosed hph =>
      rw [h.books.client] at hph
      cases hph
  | handled hqueued => exact .inl (h.handled hqueued hP)
  | @responded status hran =>
      have hdone : x.conn.worker.Done → x.conn.worker.report.Done := fun hd =>
        ⟨hd.1, by show x.conn.worker.ran - 1 = 0; rw [hd.2]⟩
      rcases sendResponse_eq { x.conn with worker := x.conn.worker.report } status with
        heq | ⟨_, heq⟩
      · rw [heq]
        exact .inl (h.respond rfl rfl rfl hdone (Nat.sub_le _ _) rfl fun _ => hran)
      · rw [heq]
        exact .inl (h.respond rfl rfl rfl hdone (Nat.sub_le _ _) rfl fun _ => hran)
  | responseSent =>
      exact .inl (h.respond rfl rfl rfl id (Nat.le_refl _) rfl fun hlt =>
        absurd hlt (by omega))

/-- The invariant of every run that meets the condition. -/
def Watched (conf : Conf) (x : Tracked) : Prop := OneRequest conf x ∨ HungUp conf x

theorem Watched.unmixed (h : Watched conf x) : Unmixed conf x :=
  h.elim OneRequest.unmixed HungUp.unmixed

theorem watched_start (conf : Conf) (m : ConnCtx) (rvs : Nat → Nat → Int)
    (accept : Int) : Watched conf (.start (onNewConnection conf m rvs accept)) := by
  obtain ⟨d, hd, hrest, heq | heq⟩ := onNewConnection_cases conf m rvs accept
  · rw [heq]
    have hquiet : ∀ g s, (d.slot g s).busy = false := by
      intro g s
      by_cases hs : s < conf.width g
      · obtain ⟨m, hm, hslot⟩ := hd.slots g s hs
        rw [hslot]
        rcases hm with rfl | rfl <;> rfl
      · have hun := hd.outside g s hs
        rw [UpstreamConnect.busy, hun.write, hun.tcp]
        rfl
    have hidle : ¬ d.idler.active = true := by
      rw [hrest.idler]
      exact Bool.false_ne_true
    refine .inl ⟨hd.openBooks, ?_, nofun, nofun, nofun, fun hact => absurd hact hidle, nofun,
      fun g s hslot => ?_, fun hnot => absurd hrest.worker hnot, fun hran => ?_, nofun,
      fun _ => nofun⟩
    · rintro (hact | hnot)
      · exact absurd hact hidle
      · exact absurd ⟨hquiet, hrest.worker⟩ hnot
    · have hbusy : (d.slot g s).busy = true := hslot
      rw [hquiet g s] at hbusy
      cases hbusy
    · have hpos : 0 < d.worker.ran := hran
      rw [hrest.worker.2] at hpos
      cases hpos
  · rw [heq]
    refine .inr ⟨?_, nofun, fun _ => nofun⟩
    show (contextClose conf d).client.handle.isOpen = false
    rw [client_contextClose]
    rfl

/-- A step that does not meet the condition mixes two requests at once. -/
theorem Watched.mixes (h : Watched conf x) (hP : ¬ OneAtATime x ⟨e, k⟩)
    (hs : step conf x.conn e = some t) : ¬ Unmixed conf (x.next k e t) := by
  intro hu
  cases callback_of_step hs with
  | @taken bs hopen _ hok =>
      have hx := h.resolve_right fun hh => by rw [hh.client] at hopen; cases hopen
      have htakes : takes x.conn (.onRequest (.data bs)) = true := decide_eq_true hok
      generalize ht : acceptRequest (receiveRequest x.conn bs) = t at hu
      obtain ⟨hslots, hworker, hclient⟩ : t.slot = x.conn.slot ∧
          t.worker = x.conn.worker ∧ t.client = x.conn.client := by
        subst ht
        exact ⟨rfl, rfl, rfl⟩
      have hcurrent : (x.next k (.onRequest (.data bs)) t).current = x.current + 1 :=
        if_pos htakes
      have hopen' : (x.next k (.onRequest (.data bs)) t).conn.client.handle.isOpen = true :=
        hclient ▸ hopen
      refine hP fun _ => ⟨fun g s => ?_, ?_⟩
      · by_contra hslot
        have hbusy := Bool.of_not_eq_false hslot
        have hnew := hu.waiting hopen' g s (hslots ▸ hbusy)
        have hold : (x.next k (.onRequest (.data bs)) t).asked (g, s) = x.asked (g, s) := by
          refine if_neg ?_
          rw [hslots, Bool.and_not_self]
          exact Bool.false_ne_true
        have hwas := hx.waiting g s hbusy
        omega
      · by_contra hnot
        have hnew := hu.work hopen' (hworker ▸ hnot)
        have hold : (x.next k (.onRequest (.data bs)) t).work = x.work :=
          Tracked.next_work (by rw [hworker])
        have hwas := hx.work hnot
        omega
  | refused _ hbad => exact hP fun hok => absurd hok hbad
  | @reply g s bs _ hread hbs =>
      refine hP fun hopen => ?_
      have hx := h.resolve_right fun hh => by rw [hh.client] at hopen; cases hopen
      have hclient := (moves_readUpstream x.conn (g, s) hbs).only.client
      have hown := hu.own (hclient ▸ hopen) ⟨k, x.current, bs⟩
        (List.mem_append_right _ (List.mem_singleton.2 rfl))
      exact Eq.trans hown (hx.waiting g s (Bool.or_eq_true_iff.2 (.inr hread))).symm
  | handled =>
      obtain ⟨up, response, len, heq⟩ := workerHandler_eq conf x.conn
      generalize ht : ({ handleRequest conf x.conn with
        worker := (handleRequest conf x.conn).worker.run } : ConnCtx) = t at hu
      have hwrite : t.write = x.conn.write := by
        subst ht
        rw [handleRequest, heq]
      refine hP (Classical.or_iff_not_imp_left.2 fun hne => ?_)
      have hall := hu.writing (show 0 < t.write by omega)
      rw [Tracked.next_sent (Nat.le_of_eq hwrite)] at hall
      exact hall
  | _ => exact hP trivial

/-- Exactly when a connection never mixes two requests, as long as no reply goes
past the buffer: when it never takes in a request before it is done with the one
before, and never reads the rest of an earlier reply. -/
theorem unmixed_iff {m : ConnCtx} {rvs : Nat → Nat → Int} {accept : Int}
    {os : List Observed} {c : ConnCtx}
    (hrun : RunInside conf (onNewConnection conf m rvs accept) (os.map Observed.event) c) :
    Lts.States (track conf) (Unmixed conf) (.start (onNewConnection conf m rvs accept)) os ↔
      Lts.Steps (track conf) OneAtATime (.start (onNewConnection conf m rvs accept)) os := by
  obtain ⟨y, hy, -⟩ := Option.map_eq_some_iff.1
    ((run_track conf (.start (onNewConnection conf m rvs accept))).trans hrun.run)
  refine Lts.states_iff_steps (I := Watched conf) ?_ ?_ Watched.unmixed
    (watched_start conf m rvs accept) hy
  · intro x y o hI hP hs
    obtain ⟨t, ht, rfl⟩ := track_eq_some.1 hs
    rcases hI with hI | hI
    · exact hI.step hP ht
    · exact .inr (hI.step hP ht)
  · intro x y o hI hP hs
    obtain ⟨t, ht, rfl⟩ := track_eq_some.1 hs
    exact hI.mixes hP ht

/-- Two requests, one after the other, each answered by both servers. -/
def twoRequests : List Event :=
  twoGroupsEvents ++ [.distributeUpstreamCb 0 0 0, .distributeUpstreamCb 1 0 0,
    .onGotUpstreamResponse 0 0 (.data (plainReply 0)),
    .onGotUpstreamResponse 1 0 (.data (plainReply 0)), .handleRequest, .sendResponse 0,
    .responseSendCb 0, .onRequest (.data plainRequest), .doDistribute fun _ => 0]

/-- What is read answers the first request. -/
theorem unmixed_iff_twoRequests :
    Lts.States (track twoGroups) (Unmixed twoGroups)
        (.start (onNewConnection twoGroups .zeroed (fun _ _ => 0) 0))
        (twoRequests.map fun e => ⟨e, 1⟩) ↔
      Lts.Steps (track twoGroups) OneAtATime
        (.start (onNewConnection twoGroups .zeroed (fun _ _ => 0) 0))
        (twoRequests.map fun e => ⟨e, 1⟩) := by
  have hsome : (Lts.run (step twoGroups)
      (onNewConnection twoGroups .zeroed (fun _ _ => 0) 0) twoRequests).isSome := by
    decide +kernel
  obtain ⟨c, hc⟩ := Option.isSome_iff_exists.1 hsome
  have hevents : (twoRequests.map fun e => (⟨e, 1⟩ : Observed)).map Observed.event =
      twoRequests := by
    rw [List.map_map]
    exact List.map_id _
  refine unmixed_iff (c := c) ?_
  rw [hevents]
  exact runInside_of_passes hc (by decide +kernel)

/-- A second request comes in while the first is being written to the slots, and
then a reply. -/
def secondComes : List Event :=
  twoGroupsEvents ++ [.onRequest (.data plainRequest), .distributeUpstreamCb 0 0 0,
    .onGotUpstreamResponse 0 0 (.data (plainReply 7))]

/-- The reply answers the first request and is merged into the second. -/
theorem unmixed_fails :
    ¬ ∀ (conf : Conf) (m : ConnCtx) (rvs : Nat → Nat → Int) (accept : Int)
        (os : List Observed) (y : Tracked),
        Lts.run (track conf) (.start (onNewConnection conf m rvs accept)) os = some y →
        Unmixed conf y := by
  intro hall
  have hrun : ((Lts.run (track twoGroups)
      (.start (onNewConnection twoGroups .zeroed (fun _ _ => 0) 0))
      (secondComes.map fun e => ⟨e, 1⟩)).map fun y =>
          (y.conn.client.handle.isOpen, y.current, repliesTo y.replies y.current,
            y.conn.upstreamResponse.head.returnNum)) = some (true, 2, [], 7) := by
    decide +kernel
  obtain ⟨y, hy, hstate⟩ := Option.map_eq_some_iff.1 hrun
  simp only [Prod.mk.injEq] at hstate
  obtain ⟨hopen, hcurrent, hnone, hreturn⟩ := hstate
  obtain ⟨buf, hmerged⟩ := (hall _ _ _ _ _ _ hy).merge hopen (by omega)
  rw [hnone] at hmerged
  rw [hmerged] at hreturn
  cases hreturn

end

end UiServer
