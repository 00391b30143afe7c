import UiServer.Proofs.Books
import UiServer.Proofs.Callbacks

/-!
# An open connection keeps its books

Every callback that does not call `context_close` takes one slot from one mode
to another, or several of them when a request is distributed, and each counter
follows. `OpenBooks.step` is the whole of it: what a step of an open connection
can come to.
-/

namespace UiServer

/-! ## Every event of an open connection

One lemma for each callback, and each is `Books.post` at the mode the event has
found, the mode it leaves, and the numbers the function moves. The arithmetic of
the counters is done there and nowhere else. -/

section

variable {conf : Conf} {errs : Prop} {c t : ConnCtx} {g s : Nat}

theorem Books.upstreamConnectCb (h : OpenBooks conf errs c)
    (hc : (c.slot g s).connect = true) (status : Int) :
    OpenBooks conf errs (upstreamConnectCb
      (c.modSlot g s fun up => { up with connect := false }) g s status) := by
  obtain ⟨hs, hslot⟩ := h.find_connect hc
  have hm := moves_upstreamConnectCb c (g, s) status
  by_cases hst : status = 0
  · subst hst
    exact h.post (m := .connecting) (k := .idle) hs (fun h => nomatch h) hm hslot
      rfl rfl rfl rfl
  · rw [if_neg hst] at hm
    refine h.post (m := .connecting) (k := .waiting) hs (fun h => nomatch h) hm hslot
      ?_ rfl rfl rfl
    rw [UpstreamConnect.answered, if_neg hst]
    rfl

theorem Books.distributeUpstreamCb (h : OpenBooks conf errs c)
    (hc : (c.slot g s).write = true) {status : Int} (herr : status ≠ 0 → errs) :
    OpenBooks conf errs (distributeUpstreamCb
      (c.modSlot g s fun up => { up with write := false }) g s status) := by
  obtain ⟨hs, hslot⟩ := h.find_write hc
  have hbegin := moves_modSlot c (g, s) fun up => { up with write := false }
  by_cases hst : status = 0
  · subst hst
    rw [distributeUpstreamCb_ok]
    have hcount : ∀ d : ConnCtx, Moves (g, s) id 0 0 0 d (d.addDistributeCount 1) :=
      fun d => moves_none rfl rfl rfl rfl rfl
    have hread := (hbegin.trans (hcount _)).trans (moves_modSlot _ (g, s) fun up =>
      { up with tcp := up.tcp.readStart })
    exact h.post (m := .writing) (k := .awaiting) hs (fun h => nomatch h) hread hslot
      rfl rfl rfl rfl
  · rw [distributeUpstreamCb_err hst]
    have hidx : (((c.modSlot g s fun up => { up with write := false }).slot g s)).groupIdx
        = g := by
      rw [ConnCtx.slot_modSlot_same, hslot]
      rfl
    exact h.post (m := .writing) (k := .closing) hs (fun _ => herr hst)
      (hbegin.trans (moves_upstreamServerErr hidx)) hslot rfl rfl rfl rfl

theorem Books.readError (h : OpenBooks conf errs c)
    (hc : (c.slot g s).tcp.reading = true) (herr : errs) :
    OpenBooks conf errs (upstreamServerErr (c.addResponseCount 1) g s) := by
  obtain ⟨hs, hslot⟩ := h.find_reading hc
  have hcount : Moves (g, s) id 0 0 0 c (c.addResponseCount 1) :=
    moves_none rfl rfl rfl rfl rfl
  have hidx : ((c.addResponseCount 1).slot g s).groupIdx = g := by
    show (c.slot g s).groupIdx = g
    rw [hslot]
    rfl
  exact h.post (m := .awaiting) (k := .closing) hs (fun _ => herr)
    (hcount.trans (moves_upstreamServerErr hidx)) hslot rfl rfl rfl rfl

theorem Books.readUpstream (h : OpenBooks conf errs c)
    (hc : (c.slot g s).tcp.reading = true) {bs : CMem.Bytes} (hbs : bs ≠ []) :
    OpenBooks conf errs (readUpstream c g s bs) := by
  obtain ⟨hs, hslot⟩ := h.find_reading hc
  exact h.post (m := .awaiting) (k := .idle) hs (fun h => nomatch h)
    (moves_readUpstream c (g, s) hbs) hslot rfl rfl rfl rfl

/-- The close callback of a lost slot connects it again. -/
theorem Books.moves_reconnect {cb : CloseCb} (h : OpenBooks conf errs c)
    (hc : (c.slot g s).tcp.handle.phase = .closing cb) (rv : Int) :
    s < conf.width g ∧ c.slot g s = SlotMode.closing.upstream g s ∧
      Moves (g, s) (fun up => { up with tcp := up.tcp.finish }.connectTo rv (g, s))
        1 0 (if rv = 0 then 1 else 0) c
        (runCloseCb (c.modSlot g s fun up => { up with tcp := up.tcp.finish })
          g s rv cb) := by
  obtain ⟨hs, rfl, hslot⟩ := h.find_closing hc
  have hbegin := (moves_modSlot c (g, s) fun up => { up with tcp := up.tcp.finish }).trans
    (moves_addNeedClose _ (g, s) (-1))
  have hfin : ((c.modSlot g s fun up => { up with tcp := up.tcp.finish }).addNeedClose
      (-1)).slot g s = { SlotMode.closing.upstream g s with
        tcp := (SlotMode.closing.upstream g s).tcp.finish } := by
    rw [ConnCtx.slot_addNeedClose, ConnCtx.slot_modSlot_same, hslot]
  rw [runCloseCb, upstreamReconnectTcpCb]
  simp only [hfin]
  refine ⟨hs, hslot, ?_⟩
  exact (hbegin.trans (moves_upstreamConnectGroupServer _ (g, s) rv)).of_eq rfl rfl rfl
    (Int.zero_add _)

theorem Books.reconnect {cb : CloseCb} (h : OpenBooks conf errs c)
    (hc : (c.slot g s).tcp.handle.phase = .closing cb) (rv : Int) :
    OpenBooks conf errs (runCloseCb
      (c.modSlot g s fun up => { up with tcp := up.tcp.finish }) g s rv cb) := by
  obtain ⟨hs, hslot, hall⟩ := Books.moves_reconnect h hc rv
  by_cases hrv : rv = 0
  · subst hrv
    exact h.post (m := .closing) (k := .connecting) hs (fun h => nomatch h) hall hslot
      rfl rfl rfl rfl
  · rw [if_neg hrv] at hall
    refine h.post (m := .closing) (k := .waiting) hs (fun h => nomatch h) hall hslot
      ?_ rfl rfl rfl
    rw [UpstreamConnect.connectTo]
    simp only [if_neg hrv]
    rfl

end

/-! ## Distributing a request

A group takes its slot from idle to writing, leaves its slots alone, or loses the
one whose write is refused. The loop over the groups adds these up, with the
counters after each group as they were before but for the slots that were lost. -/

section

variable {conf : Conf} {errs : Prop} {c t : ConnCtx} {g : Nat}

theorem Books.pick (h : OpenBooks conf errs c) (hg : g < conf.sgNum) {i : Nat}
    (hi : pickUpstream (c.group g) = some i) :
    i < conf.width g ∧ c.slot g i = SlotMode.idle.upstream g i := by
  have hreal := h.realNum g hg
  have hwidth : conf.width g = (c.group g).realNum.toNat := by
    rw [hreal]
    exact if_pos hg
  have hpos : 0 < (c.group g).realNum := by
    by_contra hle
    have hzero : conf.width g = 0 := by omega
    have hsock := h.sockNum g hg
    rw [hzero] at hsock
    have hnone : (c.group g).sockNum.toNat = 0 := by
      rw [hsock]
      rfl
    rw [pickUpstream, hnone] at hi
    cases hi
  have hlt : i < conf.width g := hwidth ▸ findIdle_lt hpos hi
  obtain ⟨m, _, hslot⟩ := h.slots g i hlt
  have hidle : (c.slot g i).status = .idle := findIdle_status hi
  rw [hslot] at hidle ⊢
  cases m <;> first | exact ⟨hlt, rfl⟩ | cases hidle

theorem Books.distributeRequestGroup (h : OpenBooks conf errs c)
    (hg : g < conf.sgNum) (rv : Int)
    (herr : pickUpstream (c.group g) ≠ none → rv ≠ 0 → errs) :
    OpenBooks conf errs (distributeRequestGroup c g rv).1 ∧
      (∀ g', g' ≠ g → (distributeRequestGroup c g rv).1.group g' = c.group g') ∧
      (pickUpstream (c.group g) = none → distributeRequestGroup c g rv = (c, -1)) ∧
      (pickUpstream (c.group g) ≠ none → (distributeRequestGroup c g rv).2 = rv) := by
  rw [UiServer.distributeRequestGroup]
  split
  · next i hi =>
      obtain ⟨hlt, hslot⟩ := h.pick hg hi
      have hne : pickUpstream (c.group g) ≠ none := by rw [hi]; exact Option.some_ne_none i
      have hlslot : (c.setLru g i).slot g i = SlotMode.idle.upstream g i := by
        rw [ConnCtx.slot_setLru, hslot]
      have ho : ((c.setLru g i).slot g i).tcp.handle.isOpen = true := by
        rw [hlslot]
        rfl
      by_cases hrv : rv = 0
      · subst hrv
        rw [distributeRequestUpstream_ok ho]
        refine ⟨?_, fun g' hg' => ?_, fun hnone => absurd hnone hne, fun _ => rfl⟩
        · exact h.post (m := .idle) (k := .writing) hlt (fun h => absurd h (by decide))
            ((moves_setLru c (g, i) i).trans (moves_modSlot _ (g, i) .sendRequest)) hslot
            rfl rfl rfl rfl
        · exact (ConnCtx.group_modGroup_ne hg').trans (ConnCtx.group_modGroup_ne hg')
      · rw [distributeRequestUpstream_err ho hrv]
        have hstat := moves_modSlot (c.setLru g i) (g, i) fun up =>
          { up with status := .connectFail }
        have hidx : (((c.setLru g i).setStatus g i .connectFail).slot g i).groupIdx = g := by
          rw [ConnCtx.setStatus, ConnCtx.slot_modSlot_same, hlslot]
          rfl
        refine ⟨?_, fun g' hg' => ?_, fun hnone => absurd hnone hne, fun _ => rfl⟩
        · exact h.post (m := .idle) (k := .closing) hlt (fun _ => herr hne hrv)
            (((moves_setLru c (g, i) i).trans hstat).trans
              (moves_upstreamServerErr hidx)) hslot rfl rfl rfl rfl
        · exact (group_upstreamServerErr_ne hidx hg').trans
            ((ConnCtx.group_modGroup_ne hg').trans (ConnCtx.group_modGroup_ne hg'))
  · next hnone =>
      exact ⟨h, fun _ _ => rfl, fun _ => rfl, fun hne => absurd hnone hne⟩

/-- What distributing to the first `n` groups does: the books are right after
it, a group that picks a slot and whose write goes through is counted, and
nothing happens when no group picks one. -/
theorem Books.distributeRequestGroups (h : OpenBooks conf errs c) (rvs : Nat → Int)
    (herr : ∀ g < conf.sgNum, pickUpstream (c.group g) ≠ none → rvs g ≠ 0 → errs) :
    ∀ {n : Nat}, n ≤ conf.sgNum →
      OpenBooks conf errs (distributeRequestGroups c rvs n).1 ∧
      (∀ g, n ≤ g → (distributeRequestGroups c rvs n).1.group g = c.group g) ∧
      ((∃ g < n, pickUpstream (c.group g) ≠ none ∧ rvs g = 0) →
        1 ≤ (distributeRequestGroups c rvs n).2) ∧
      ((∀ g < n, pickUpstream (c.group g) = none) →
        distributeRequestGroups c rvs n = (c, 0)) := by
  intro n
  induction n with
  | zero =>
      intro _
      exact ⟨h, fun _ _ => rfl, fun ⟨g, hg, _⟩ => absurd hg (Nat.not_lt_zero g),
        fun _ => rfl⟩
  | succ n ih =>
      intro hn
      obtain ⟨hb, hgroup, hserved, hnone⟩ := ih (Nat.le_of_succ_le hn)
      have hsame := hgroup n (Nat.le_refl n)
      have herrn := herr n hn
      rw [← hsame] at herrn
      obtain ⟨hb', hgroup', hnone', hserved'⟩ := hb.distributeRequestGroup hn (rvs n) herrn
      rw [hsame] at hnone' hserved'
      simp only [UiServer.distributeRequestGroups]
      refine ⟨hb', fun g hg => ?_, ?_, fun hall => ?_⟩
      · rw [hgroup' g (by omega), hgroup g (by omega)]
      · rintro ⟨g, hg, hpick, hrv⟩
        rcases Nat.lt_succ_iff_lt_or_eq.1 hg with hlt | rfl
        · have hone := hserved ⟨g, hlt, hpick, hrv⟩
          split <;> omega
        · rw [if_pos (by rw [hserved' hpick, hrv])]
          omega
      · have hc := hnone fun g hg => hall g (Nat.lt_succ_of_lt hg)
        have hlast := hnone' (hall n (Nat.lt_succ_self n))
        rw [hc] at hlast ⊢
        simp only [hlast]
        rfl

end

/-! ## One step

What is asked of a step is `Orderly`: that it closes the connection only when no
slot is being closed already, and loses a slot only where losing one is allowed.
The parameter `errs` is that permission: with it the books are kept in every run,
without it the count of the handles is exact. -/

def NoneClosing (c : ConnCtx) : Prop :=
  ∀ g s, (c.slot g s).tcp.handle.phase ≠ .closing .upstreamReconnectTcp

def Serves (conf : Conf) (c : ConnCtx) (rvs : Nat → Int) : Prop :=
  ∃ g < conf.sgNum, pickUpstream (c.group g) ≠ none ∧ rvs g = 0

def NonePicked (conf : Conf) (c : ConnCtx) : Prop :=
  ∀ g < conf.sgNum, pickUpstream (c.group g) = none

def WritesGoThrough (conf : Conf) (c : ConnCtx) (rvs : Nat → Int) : Prop :=
  ∀ g < conf.sgNum, pickUpstream (c.group g) ≠ none → rvs g = 0

/-- The steps that leave the books right. The connection is closed only when
no slot is being closed already, and slots are lost only if `errs`, and only
while the connection is open. -/
def Orderly (conf : Conf) (errs : Prop) (c : ConnCtx) : Event → Prop
  | .onRequest .error => NoneClosing c
  | .onRequest (.data bs) => (receiveRequest c bs).request.web.MagicOk ∨ NoneClosing c
  | .doDistribute rvs =>
      needWaitUpstream conf c = true ∨ c.client.handle.isOpen = true ∧
        (Serves conf c rvs ∨ NonePicked conf c ∧ NoneClosing c) ∧
        (errs ∨ WritesGoThrough conf c rvs)
  | .distributeUpstreamCb _ _ status =>
      status = 0 ∨ errs ∧ c.client.handle.isOpen = true
  | .onGotUpstreamResponse _ _ .error => errs
  | _ => True

def Closes (conf : Conf) (c : ConnCtx) : Event → Prop
  | .onRequest .error => True
  | .onRequest (.data bs) => ¬ (receiveRequest c bs).request.web.MagicOk
  | .doDistribute rvs => needWaitUpstream conf c ≠ true ∧ ¬ Serves conf c rvs
  | _ => False

/-- The context that `context_close` is called with in a step from `c`: the
idle handle was stopped if it is its callback that closes. -/
structure ClosedIn (conf : Conf) (c d : ConnCtx) (e : Event) : Prop where
  closes : Closes conf c e
  gs : d.gs = c.gs
  client : d.client = c.client
  worker : d.worker = c.worker
  write : d.write = c.write
  idler : d.idler.active = true → c.idler.active = true ∧ ∀ rvs, e ≠ .doDistribute rvs

/-- What a step of an open connection comes to: it is open and its books are
right, or it was closed, with right books and no slot being closed already. -/
def OpenOrClosed (conf : Conf) (errs : Prop) (c t : ConnCtx) (e : Event) : Prop :=
  OpenBooks conf errs t ∨
    ∃ d, OpenBooks conf errs d ∧ NoneClosing d ∧ ClosedIn conf c d e ∧
      t = contextClose conf d

section

variable {conf : Conf} {errs : Prop} {c t : ConnCtx}

theorem aside_handled (conf : Conf) (c : ConnCtx) :
    Aside c { handleRequest conf c with worker := (handleRequest conf c).worker.run } := by
  obtain ⟨up, response, len, heq⟩ := workerHandler_eq conf c
  rw [handleRequest, heq]
  exact ⟨rfl, rfl, rfl, rfl⟩

theorem aside_responded (c : ConnCtx) (status : Int) :
    Aside c (sendResponse { c with worker := c.worker.report } status) := by
  rcases sendResponse_eq { c with worker := c.worker.report } status with heq | ⟨_, heq⟩
  · rw [heq]
    exact ⟨rfl, rfl, rfl, rfl⟩
  · rw [heq]
    exact ⟨rfl, rfl, rfl, rfl⟩

theorem OpenBooks.distribute {rvs : Nat → Int} (h : OpenBooks conf errs c)
    (herr : errs ∨ WritesGoThrough conf c rvs) :
    OpenBooks conf errs (distributeRequest conf c.idleStopped rvs).1 ∧
      (Serves conf c rvs → 1 ≤ (distributeRequest conf c.idleStopped rvs).2) ∧
      (NonePicked conf c →
        distributeRequest conf c.idleStopped rvs = (c.idleStopped, 0)) := by
  have hstopped : OpenBooks conf errs c.idleStopped := h.aside ⟨rfl, rfl, rfl, rfl⟩
  obtain ⟨hbooks, _, hserved, hnone⟩ := Books.distributeRequestGroups hstopped rvs
    (fun g hg hpick hrv => herr.resolve_right fun hall => hrv (hall g hg hpick))
    (Nat.le_refl _)
  exact ⟨hbooks, hserved, hnone⟩

/-- An open connection is open after the step and its books are right, or the
step closed it in order. -/
theorem OpenBooks.step {e : Event} (h : OpenBooks conf errs c)
    (ho : Orderly conf errs c e) (hs : step conf c e = some t) :
    OpenOrClosed conf errs c t e := by
  cases callback_of_step hs with
  | readFailed =>
      exact .inr ⟨c, h, ho, ⟨trivial, rfl, rfl, rfl, rfl, fun ha => ⟨ha, nofun⟩⟩, rfl⟩
  | readAgain => exact .inl h
  | taken => exact .inl (h.aside ⟨rfl, rfl, rfl, rfl⟩)
  | @refused bs _ hbad =>
      have hrecv : Aside c (receiveRequest c bs) := ⟨rfl, rfl, rfl, rfl⟩
      exact .inr ⟨_, h.aside hrecv, ho.resolve_left hbad,
        ⟨hbad, rfl, rfl, rfl, rfl, fun ha => ⟨ha, nofun⟩⟩, rfl⟩
  | waits => exact .inl (h.aside ⟨rfl, rfl, rfl, rfl⟩)
  | distributed _ hwait =>
      exact .inl (OpenBooks.distribute h (ho.resolve_left hwait).2.2).1
  | @unserved rvs _ hwait hcount =>
      obtain ⟨_, hend, herr⟩ := ho.resolve_left hwait
      obtain ⟨_, hserved, hnone⟩ := OpenBooks.distribute h herr
      have hnot : ¬ Serves conf c rvs := fun hserves => by
        have hone := hserved hserves
        omega
      obtain ⟨hpick, hclosing⟩ := hend.resolve_left hnot
      rw [hnone hpick]
      exact .inr ⟨c.idleStopped, h.aside ⟨rfl, rfl, rfl, rfl⟩, hclosing,
        ⟨⟨hwait, hnot⟩, rfl, rfl, rfl, rfl, fun hact => nomatch hact⟩, rfl⟩
  | @connected g s status hc => exact .inl (Books.upstreamConnectCb h hc status)
  | written hw =>
      exact .inl (Books.distributeUpstreamCb h hw fun hst => (ho.resolve_left hst).1)
  | replyFailed _ hread => exact .inl (Books.readError h hread ho)
  | replyAgain => exact .inl h
  | reply _ hread hbs => exact .inl (Books.readUpstream h hread hbs)
  | @tcpClosed g s rv cb hph => exact .inl (Books.reconnect h hph rv)
  | timerClosed hph => exact absurd hph (Books.timer_not_closing h)
  | clientClosed hph =>
      rw [h.client] at hph
      cases hph
  | handled => exact .inl (h.aside (aside_handled conf c))
  | @responded status => exact .inl (h.aside (aside_responded c status))
  | responseSent => exact .inl (h.aside ⟨rfl, rfl, rfl, rfl⟩)

end

end UiServer
