import UiServer.Server.Loop

/-!
# What a callback can do

`Callback` says once what each event can come to, guards included; the proofs
about runs go through its cases. Most of them only touch what the context keeps
about the upstreams (`UpstreamsOnly`): everything about the request, its
response and the worker stays as it is.
-/

namespace UiServer

open CMem

/-! ## The cases of a step

The guards and the branches of `step` are taken apart here and nowhere else. A
case of `Callback` carries what was true when the callback ran and the state it
leaves, so that a proof about steps is a case analysis without an unfolding. -/

def ConnCtx.idleStopped (c : ConnCtx) : ConnCtx := { c with idler := c.idler.stop }

/-- Everything an event can do to a connection. -/
inductive Callback (conf : Conf) (c : ConnCtx) : Event → ConnCtx → Prop where
  | readFailed : c.client.handle.isOpen = true →
      Callback conf c (.onRequest .error) (contextClose conf c)
  | readAgain : Callback conf c (.onRequest .again) c
  | taken {bs : Bytes} : c.client.handle.isOpen = true → bs ≠ [] →
      (receiveRequest c bs).request.web.MagicOk →
      Callback conf c (.onRequest (.data bs)) (acceptRequest (receiveRequest c bs))
  | refused {bs : Bytes} : c.client.handle.isOpen = true →
      ¬ (receiveRequest c bs).request.web.MagicOk →
      Callback conf c (.onRequest (.data bs)) (contextClose conf (receiveRequest c bs))
  | waits {rvs : Nat → Int} : c.idler.active = true → needWaitUpstream conf c = true →
      Callback conf c (.doDistribute rvs) { c with idler := c.idler.stop.start }
  | distributed {rvs : Nat → Int} : c.idler.active = true →
      needWaitUpstream conf c ≠ true →
      ¬ (distributeRequest conf c.idleStopped rvs).2 < 1 →
      Callback conf c (.doDistribute rvs) (distributeRequest conf c.idleStopped rvs).1
  | unserved {rvs : Nat → Int} : c.idler.active = true →
      needWaitUpstream conf c ≠ true →
      (distributeRequest conf c.idleStopped rvs).2 < 1 →
      Callback conf c (.doDistribute rvs)
        (contextClose conf (distributeRequest conf c.idleStopped rvs).1)
  | connected {g s : Nat} {status : Int} : (c.slot g s).connect = true →
      Callback conf c (.upstreamConnectCb g s status) (upstreamConnectCb
        (c.modSlot g s fun up => { up with connect := false }) g s status)
  | written {g s : Nat} {status : Int} : (c.slot g s).write = true →
      mayAnswer (c.slot g s).tcp.handle status = true →
      Callback conf c (.distributeUpstreamCb g s status) (distributeUpstreamCb
        (c.modSlot g s fun up => { up with write := false }) g s status)
  | replyFailed {g s : Nat} : (c.slot g s).tcp.handle.isOpen = true →
      (c.slot g s).tcp.reading = true →
      Callback conf c (.onGotUpstreamResponse g s .error)
        (upstreamServerErr (c.addResponseCount 1) g s)
  | replyAgain {g s : Nat} : Callback conf c (.onGotUpstreamResponse g s .again) c
  | reply {g s : Nat} {bs : Bytes} : (c.slot g s).tcp.handle.isOpen = true →
      (c.slot g s).tcp.reading = true → bs ≠ [] →
      Callback conf c (.onGotUpstreamResponse g s (.data bs)) (readUpstream c g s bs)
  | tcpClosed {g s : Nat} {rv : Int} {cb : CloseCb} :
      (c.slot g s).tcp.handle.phase = .closing cb → (c.slot g s).connect = false →
      (c.slot g s).write = false →
      Callback conf c (.upstreamTcpClosed g s rv) (runCloseCb
        (c.modSlot g s fun up => { up with tcp := up.tcp.finish }) g s rv cb)
  | timerClosed {g s : Nat} {cb : CloseCb} : (c.slot g s).timer.phase = .closing cb →
      Callback conf c (.upstreamTimerClosed g s) (runCloseCb
        (c.modSlot g s fun up => { up with timer := up.timer.finish }) g s 0 cb)
  | clientClosed {cb : CloseCb} : c.client.handle.phase = .closing cb → c.write = 0 →
      Callback conf c .clientClosed (contextCleanCb { c with client := c.client.finish })
  | handled : 0 < c.worker.queued → Callback conf c .handleRequest
      { handleRequest conf c with worker := (handleRequest conf c).worker.run }
  | responded {status : Int} : 0 < c.worker.ran → Callback conf c (.sendResponse status)
      (sendResponse { c with worker := c.worker.report } status)
  | responseSent {status : Int} : 0 < c.write →
      Callback conf c (.responseSendCb status) { c with write := c.write - 1 }

section

variable {conf : Conf} {c t : ConnCtx}

theorem callback_onRequest {r : Read} (h : step conf c (.onRequest r) = some t) :
    Callback conf c (.onRequest r) t := by
  simp only [step] at h
  split at h
  · next hen =>
      have hopen := (Bool.and_eq_true_iff.1 hen).1
      cases r with
      | error =>
          rw [onRequest_error] at h
          cases h
          exact .readFailed hopen
      | again =>
          rw [onRequest_again] at h
          cases h
          exact .readAgain
      | data bs =>
          simp only [] at h
          split at h
          · next hfit =>
              have hbs : bs ≠ [] := List.length_pos_iff.1 (of_decide_eq_true hfit).1
              rw [readClient_eq hbs] at h
              split at h
              · next hok =>
                  cases h
                  exact .taken hopen hbs hok
              · next hbad =>
                  cases h
                  exact .refused hopen hbad
          · cases h
  · cases h

theorem callback_doDistribute {rvs : Nat → Int}
    (h : step conf c (.doDistribute rvs) = some t) :
    Callback conf c (.doDistribute rvs) t := by
  simp only [step] at h
  split at h
  · next hactive =>
      have hwait : needWaitUpstream conf c.idleStopped = needWaitUpstream conf c := rfl
      cases h
      rw [doDistribute]
      show Callback conf c _ (if needWaitUpstream conf c.idleStopped then _ else _)
      rw [hwait]
      split
      · next hw => exact .waits hactive hw
      · next hw =>
          simp only []
          split
          · next hnone => exact .unserved hactive hw hnone
          · next hsome => exact .distributed hactive hw hsome
  · cases h

theorem callback_onGotUpstreamResponse {g s : Nat} {r : Read}
    (h : step conf c (.onGotUpstreamResponse g s r) = some t) :
    Callback conf c (.onGotUpstreamResponse g s r) t := by
  simp only [step] at h
  split at h
  · next hen =>
      obtain ⟨hopen, hreading⟩ := Bool.and_eq_true_iff.1 hen
      cases r with
      | error =>
          rw [onGotUpstreamResponse_error (by decide)] at h
          cases h
          exact .replyFailed hopen hreading
      | again =>
          rw [onGotUpstreamResponse_again] at h
          cases h
          exact .replyAgain
      | data bs =>
          simp only [] at h
          split at h
          · next hfit =>
              cases h
              exact .reply hopen hreading
                (List.length_pos_iff.1 (of_decide_eq_true hfit).1)
          · cases h
  · cases h

theorem callback_of_step {e : Event} (h : step conf c e = some t) :
    Callback conf c e t := by
  cases e with
  | onRequest r => exact callback_onRequest h
  | doDistribute rvs => exact callback_doDistribute h
  | onGotUpstreamResponse g s r => exact callback_onGotUpstreamResponse h
  | upstreamConnectCb g s status =>
      simp only [step] at h
      split at h
      · next hen =>
          cases h
          exact .connected (Bool.and_eq_true_iff.1 hen).1
      · cases h
  | distributeUpstreamCb g s status =>
      simp only [step] at h
      split at h
      · next hen =>
          cases h
          exact .written (Bool.and_eq_true_iff.1 hen).1 (Bool.and_eq_true_iff.1 hen).2
      · cases h
  | upstreamTcpClosed g s rv =>
      simp only [step] at h
      split at h
      · next cb hph =>
          split at h
          · cases h
          · next hpending =>
              cases h
              obtain ⟨hconnect, hwrite⟩ :=
                Bool.or_eq_false_iff.1 (Bool.not_eq_true _ ▸ hpending)
              exact .tcpClosed hph hconnect hwrite
      · cases h
  | upstreamTimerClosed g s =>
      simp only [step] at h
      split at h
      · next cb hph =>
          cases h
          exact .timerClosed hph
      · cases h
  | clientClosed =>
      simp only [step] at h
      split at h
      · next cb hph =>
          split at h
          · next hwrite =>
              cases h
              exact .clientClosed hph hwrite
          · cases h
      · cases h
  | handleRequest =>
      simp only [step] at h
      split at h
      · next hqueued =>
          cases h
          exact .handled hqueued
      · cases h
  | sendResponse status =>
      simp only [step] at h
      split at h
      · next hran =>
          cases h
          exact .responded hran
      · cases h
  | responseSendCb status =>
      simp only [step] at h
      split at h
      · next hwrite =>
          cases h
          exact .responseSent hwrite
      · cases h

end

/-! ## What the functions about the upstreams leave alone

Connecting, distributing, failing and cleaning up change the groups and
`need_close`, two of them a count of the request besides, and nothing else. That
is a relation between two contexts that goes together with itself, so each
function has it from its parts. -/

/-- Only what the context keeps about the upstreams differs: the slots, the
counters of the groups and `need_close`. -/
def UpstreamsOnly (c t : ConnCtx) : Prop :=
  ∃ gs n, t = { c with gs := gs, needClose := n }

/-- The same, and the two counts of the request stay as well. -/
def GroupsOnly (c t : ConnCtx) : Prop :=
  ∃ group n, t = { c with gs := { c.gs with group := group }, needClose := n }

section

variable {conf : Conf} {c d t : ConnCtx}

theorem UpstreamsOnly.trans (h : UpstreamsOnly c d) (h' : UpstreamsOnly d t) :
    UpstreamsOnly c t := by
  obtain ⟨gs, n, rfl⟩ := h
  obtain ⟨gs', n', rfl⟩ := h'
  exact ⟨gs', n', rfl⟩

theorem GroupsOnly.upstreamsOnly (h : GroupsOnly c t) : UpstreamsOnly c t := by
  obtain ⟨group, n, rfl⟩ := h
  exact ⟨_, n, rfl⟩

theorem GroupsOnly.trans (h : GroupsOnly c d) (h' : GroupsOnly d t) :
    GroupsOnly c t := by
  obtain ⟨group, n, rfl⟩ := h
  obtain ⟨group', n', rfl⟩ := h'
  exact ⟨group', n', rfl⟩

theorem GroupsOnly.refl (c : ConnCtx) : GroupsOnly c c := ⟨c.gs.group, c.needClose, rfl⟩

theorem GroupsOnly.modGroup (h : GroupsOnly c d) {g : Nat}
    {f : GroupServerSock → GroupServerSock} : GroupsOnly c (d.modGroup g f) := by
  obtain ⟨group, n, rfl⟩ := h
  exact ⟨_, n, rfl⟩

theorem GroupsOnly.modSlot (h : GroupsOnly c d) {g s : Nat}
    {f : UpstreamConnect → UpstreamConnect} : GroupsOnly c (d.modSlot g s f) :=
  h.modGroup

theorem GroupsOnly.addNeedClose (h : GroupsOnly c d) {k : Int} :
    GroupsOnly c (d.addNeedClose k) := by
  obtain ⟨group, n, rfl⟩ := h
  exact ⟨group, _, rfl⟩

theorem groupsOnly_upstreamServerErr (c : ConnCtx) (g s : Nat) :
    GroupsOnly c (upstreamServerErr c g s) := by
  rw [upstreamServerErr]
  exact (GroupsOnly.refl c).modSlot.modGroup.addNeedClose.modSlot

theorem groupsOnly_upstreamConnectCb (c : ConnCtx) (g s : Nat) (status : Int) :
    GroupsOnly c (upstreamConnectCb c g s status) := by
  simp only [upstreamConnectCb]
  split
  · exact (GroupsOnly.refl c).modGroup.modSlot.modSlot
  · exact (GroupsOnly.refl c).modGroup.modSlot.modGroup

theorem groupsOnly_uvTcpConnect (c : ConnCtx) (g s : Nat) (rv : Int) :
    GroupsOnly c (c.uvTcpConnect g s rv) := by
  rw [ConnCtx.uvTcpConnect]
  split
  · exact (GroupsOnly.refl c).modSlot
  · exact .refl c

theorem groupsOnly_upstreamConnectGroupServer (c : ConnCtx) (g s : Nat) (rv : Int) :
    GroupsOnly c (upstreamConnectGroupServer c g s rv) := by
  have hinit := (GroupsOnly.refl c).modSlot
    (g := g) (s := s) (f := fun up =>
      { up with status := .connectInit, groupIdx := g, serverIdx := s })
  have hhandles := (hinit.modSlot (g := g) (s := s) (f := fun up =>
    { up with timer := .init })).addNeedClose (k := 1)
  have hconnect := ((hhandles.modSlot (g := g) (s := s) (f := fun up =>
    { up with tcp := .init })).addNeedClose (k := 1)).trans
      (groupsOnly_uvTcpConnect _ g s rv)
  simp only [upstreamConnectGroupServer]
  split
  · exact hconnect.modSlot.modGroup.modSlot.modGroup.modSlot
  · exact hconnect.modSlot.modGroup

theorem groupsOnly_upstreamConnectServers (c : ConnCtx) (g : Nat) (rvs : Nat → Int)
    (n : Nat) : GroupsOnly c (upstreamConnectServers c g rvs n) := by
  induction n with
  | zero => exact .refl _
  | succ n ih => exact ih.trans (groupsOnly_upstreamConnectGroupServer _ g n (rvs n))

theorem groupsOnly_upstreamConnectAll (conf : Conf) (c : ConnCtx)
    (rvs : Nat → Nat → Int) : GroupsOnly c (upstreamConnectAll conf c rvs) := by
  rw [upstreamConnectAll]
  induction conf.sgNum with
  | zero => exact .refl _
  | succ n ih =>
      exact (ih.modGroup).trans (groupsOnly_upstreamConnectServers _ n _ _)

theorem upstreamsOnly_distributeUpstreamCb (c : ConnCtx) (g s : Nat) (status : Int) :
    UpstreamsOnly c (distributeUpstreamCb c g s status) := by
  rw [distributeUpstreamCb]
  split
  · exact (groupsOnly_upstreamServerErr c g s).upstreamsOnly
  · have hcount : UpstreamsOnly c (c.addDistributeCount 1) := ⟨_, c.needClose, rfl⟩
    exact hcount.trans (GroupsOnly.refl _).modSlot.upstreamsOnly

theorem upstreamsOnly_readError (c : ConnCtx) (g s : Nat) :
    UpstreamsOnly c (upstreamServerErr (c.addResponseCount 1) g s) := by
  have hcount : UpstreamsOnly c (c.addResponseCount 1) := ⟨_, c.needClose, rfl⟩
  exact hcount.trans (groupsOnly_upstreamServerErr _ g s).upstreamsOnly

theorem groupsOnly_uvWriteUpstream (c : ConnCtx) (g s : Nat) (rv : Int) :
    GroupsOnly c (c.uvWriteUpstream g s rv).1 := by
  simp only [ConnCtx.uvWriteUpstream]
  generalize (if (c.slot g s).tcp.handle.isOpen = true then rv else -1) = rv
  split
  · simp only []
    exact (GroupsOnly.refl c).modSlot
  · exact .refl c

theorem groupsOnly_distributeRequestGroup (c : ConnCtx) (g : Nat) (rv : Int) :
    GroupsOnly c (distributeRequestGroup c g rv).1 := by
  rw [distributeRequestGroup]
  split
  · next i _ =>
      have hwork : GroupsOnly c ((c.setLru g i).setStatus g i .work) :=
        (GroupsOnly.refl c).modGroup.modSlot
      have hstart := hwork.trans (groupsOnly_uvWriteUpstream _ g i rv)
      simp only [distributeRequestUpstream]
      split
      · exact hstart.modSlot.trans (groupsOnly_upstreamServerErr _ g i)
      · exact hstart
  · exact .refl c

theorem groupsOnly_distributeRequest (conf : Conf) (c : ConnCtx) (rvs : Nat → Int) :
    GroupsOnly c (distributeRequest conf c rvs).1 := by
  rw [distributeRequest]
  induction conf.sgNum with
  | zero => exact .refl _
  | succ n ih => exact ih.trans (groupsOnly_distributeRequestGroup _ n (rvs n))

theorem groupsOnly_upstreamClean (conf : Conf) (c : ConnCtx) :
    GroupsOnly c (upstreamClean conf c) := by
  have hservers : ∀ (d : ConnCtx) (g n : Nat),
      GroupsOnly d (upstreamCleanServers d g n) := by
    intro d g n
    induction n with
    | zero => exact .refl _
    | succ n ih => exact ih.trans ⟨_, _, rfl⟩
  rw [upstreamClean]
  induction conf.sgNum with
  | zero => exact .refl _
  | succ n ih => exact ih.trans (hservers _ n _)

theorem contextClose_eq (conf : Conf) (c : ConnCtx) :
    ∃ group n, contextClose conf c =
      { c with
        gs := { c.gs with group := group }
        needClose := n
        client := c.client.close .contextClean } := by
  obtain ⟨group, n, h⟩ := groupsOnly_upstreamClean conf c
  refine ⟨group, n, ?_⟩
  rw [contextClose, h]

end

/-! ## What leaves the request alone

Of all events only four bring bytes or make a response. The others leave the
request, the merged reply and the response as they are, and the two counts as far
apart as they say themselves (`Event.pending`). -/

/-- The requests that were written and not yet counted as answered. -/
def ConnCtx.pending (c : ConnCtx) : Int := c.gs.distributeCount - c.gs.responseCount

/-- What an event adds to `pending`. -/
def Event.pending : Event → Int
  | .distributeUpstreamCb _ _ status => if status = 0 then 1 else 0
  | .onGotUpstreamResponse _ _ .error => -1
  | .onGotUpstreamResponse _ _ (.data _) => -1
  | _ => 0

/-- The events that bring bytes of a request or a reply, or make the response. -/
def Event.serves : Event → Bool
  | .onRequest (.data _) => true
  | .onGotUpstreamResponse _ _ (.data _) => true
  | .handleRequest => true
  | _ => false

/-- The request, the replies and the response stay, nothing is queued, and `n`
is added to `pending`. -/
structure Untouched (n : Int) (c t : ConnCtx) : Prop where
  request : t.request = c.request
  merged : t.upstreamResponse = c.upstreamResponse
  response : t.response = c.response
  responseLen : t.responseLen = c.responseLen
  calls : t.worker.calls = c.worker.calls
  pending : t.pending = c.pending + n

section

variable {conf : Conf} {c d t : ConnCtx} {e : Event}

theorem Untouched.trans {m n : Int} (h : Untouched m c d) (h' : Untouched n d t) :
    Untouched (m + n) c t where
  request := h'.request.trans h.request
  merged := h'.merged.trans h.merged
  response := h'.response.trans h.response
  responseLen := h'.responseLen.trans h.responseLen
  calls := h'.calls.trans h.calls
  pending := by rw [h'.pending, h.pending, Int.add_assoc]

theorem Untouched.refl (c : ConnCtx) : Untouched 0 c c :=
  ⟨rfl, rfl, rfl, rfl, rfl, (Int.add_zero _).symm⟩

theorem Untouched.then {n : Int} (h : Untouched n c d) (h' : Untouched 0 d t) :
    Untouched n c t := by
  simpa using h.trans h'

theorem Untouched.after {n : Int} (h : Untouched 0 c d) (h' : Untouched n d t) :
    Untouched n c t := by
  simpa using h.trans h'

theorem GroupsOnly.untouched (h : GroupsOnly c t) : Untouched 0 c t := by
  obtain ⟨group, n, rfl⟩ := h
  exact ⟨rfl, rfl, rfl, rfl, rfl, (Int.add_zero _).symm⟩

theorem untouched_addResponseCount (c : ConnCtx) :
    Untouched (-1) c (c.addResponseCount 1) := by
  refine ⟨rfl, rfl, rfl, rfl, rfl, ?_⟩
  show c.gs.distributeCount - (c.gs.responseCount + 1) = _
  rw [ConnCtx.pending]
  omega

theorem untouched_distributeUpstreamCb (c : ConnCtx) (g s : Nat) (status : Int) :
    Untouched (if status = 0 then 1 else 0) c (distributeUpstreamCb c g s status) := by
  by_cases hs : status = 0
  · subst hs
    refine ⟨rfl, rfl, rfl, rfl, rfl, ?_⟩
    show c.gs.distributeCount + 1 - c.gs.responseCount = _
    rw [ConnCtx.pending, if_pos rfl]
    omega
  · rw [distributeUpstreamCb_err hs, if_neg hs]
    exact (groupsOnly_upstreamServerErr c g s).untouched

theorem untouched_contextClose (conf : Conf) (c : ConnCtx) :
    Untouched 0 c (contextClose conf c) := by
  obtain ⟨group, n, heq⟩ := contextClose_eq conf c
  rw [heq]
  exact ⟨rfl, rfl, rfl, rfl, rfl, (Int.add_zero _).symm⟩

theorem untouched_countDown (c : ConnCtx) : Untouched 0 c (countDown c) := by
  simp only [countDown]
  split
  · exact ⟨rfl, rfl, rfl, rfl, rfl, (Int.add_zero _).symm⟩
  · exact (GroupsOnly.refl c).addNeedClose.untouched

theorem untouched_runCloseCb (c : ConnCtx) (g s : Nat) (rv : Int) (cb : CloseCb) :
    Untouched 0 c (runCloseCb c g s rv cb) := by
  cases cb with
  | upstreamTcpClean => exact untouched_countDown c
  | upstreamTimerClean => exact untouched_countDown c
  | contextClean => exact untouched_countDown c
  | upstreamReconnectTcp =>
      exact ((GroupsOnly.refl c).addNeedClose.trans
        (groupsOnly_upstreamConnectGroupServer _ _ _ rv)).untouched

theorem untouched_sendResponse (c : ConnCtx) (status : Int) :
    Untouched 0 c (sendResponse c status) := by
  rcases sendResponse_eq c status with heq | ⟨_, heq⟩
  · rw [heq]
    exact .refl c
  · rw [heq]
    exact ⟨rfl, rfl, rfl, rfl, rfl, (Int.add_zero _).symm⟩

/-- An event that neither brings bytes nor makes the response. -/
theorem Callback.untouched (h : Callback conf c e t) (he : e.serves = false) :
    Untouched e.pending c t := by
  have hslot : ∀ {g s : Nat} {f : UpstreamConnect → UpstreamConnect},
      GroupsOnly c (c.modSlot g s f) := (GroupsOnly.refl c).modSlot
  have hidle : Untouched 0 c c.idleStopped :=
    ⟨rfl, rfl, rfl, rfl, rfl, (Int.add_zero _).symm⟩
  cases h with
  | readFailed => exact untouched_contextClose conf c
  | readAgain => exact .refl c
  | taken => cases he
  | refused => cases he
  | waits => exact hidle.then ⟨rfl, rfl, rfl, rfl, rfl, (Int.add_zero _).symm⟩
  | distributed => exact hidle.then (groupsOnly_distributeRequest conf _ _).untouched
  | unserved =>
      exact (hidle.then (groupsOnly_distributeRequest conf _ _).untouched).then
        (untouched_contextClose conf _)
  | connected => exact (hslot.trans (groupsOnly_upstreamConnectCb _ _ _ _)).untouched
  | written => exact hslot.untouched.after (untouched_distributeUpstreamCb _ _ _ _)
  | replyFailed =>
      exact (untouched_addResponseCount c).then
        (groupsOnly_upstreamServerErr _ _ _).untouched
  | replyAgain => exact .refl c
  | reply => cases he
  | tcpClosed => exact hslot.untouched.then (untouched_runCloseCb _ _ _ _ _)
  | timerClosed => exact hslot.untouched.then (untouched_runCloseCb _ _ _ _ _)
  | clientClosed =>
      have hfinished : Untouched 0 c { c with client := c.client.finish } :=
        ⟨rfl, rfl, rfl, rfl, rfl, (Int.add_zero _).symm⟩
      exact hfinished.then (untouched_countDown _)
  | handled => cases he
  | responded =>
      have hreported : Untouched 0 c { c with worker := c.worker.report } :=
        ⟨rfl, rfl, rfl, rfl, rfl, (Int.add_zero _).symm⟩
      exact hreported.then (untouched_sendResponse _ _)
  | responseSent => exact ⟨rfl, rfl, rfl, rfl, rfl, (Int.add_zero _).symm⟩

end

end UiServer
