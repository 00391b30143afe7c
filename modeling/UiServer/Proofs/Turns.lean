import UiServer.Proofs.Pick

/-!
# The servers of a group take turns

`lru` is the server that was picked last, and it is moved by nothing but a pick.
So the picks of a whole run go round: a server that is idle whenever the group
picks one is picked before any other server is picked a second time after it,
whatever the other servers do and however the requests are spread over the run
(`picked_within_turn`).
-/

namespace UiServer

/-- The server of group `g` that the event picks. -/
def picked (conf : Conf) (g : Nat) (c : ConnCtx) : Event → Option Nat
  | .doDistribute _ => if needWaitUpstream conf c then none else pickUpstream (c.group g)
  | _ => none

/-- The servers of group `g` that the run picks, in order. -/
def picks (conf : Conf) (g : Nat) : ConnCtx → List Event → List Nat
  | _, [] => []
  | c, e :: es =>
      (picked conf g c e).toList ++ ((step conf c e).map fun t => picks conf g t es).getD []

/-- Server `s` of group `g` is idle if the event picks a server of the group. -/
def IdleIfPicked (conf : Conf) (g s : Nat) (c : ConnCtx) (e : Event) : Prop :=
  picked conf g c e ≠ none → (c.slot g s).status = .idle

/-! ## What moves `lru`

Every callback is gone through: connects, losses, replies and close callbacks
leave `lru` where it is, and distributing a request moves that of each group to
the slot it picks. -/

section

variable {conf : Conf} {c t : ConnCtx} {e : Event} {g s : Nat}

theorem lru_addConnecting (c : ConnCtx) (g g' : Nat) (d : Int) :
    ((c.addConnecting g d).group g').lru = (c.group g').lru :=
  ConnCtx.modGroup_frame (·.lru) rfl

theorem lru_addSockNum (c : ConnCtx) (g g' : Nat) (d : Int) :
    ((c.addSockNum g d).group g').lru = (c.group g').lru :=
  ConnCtx.modGroup_frame (·.lru) rfl

theorem lru_upstreamConnectCb (c : ConnCtx) (g s g' : Nat) (status : Int) :
    ((upstreamConnectCb c g s status).group g').lru = (c.group g').lru := by
  simp only [upstreamConnectCb, ConnCtx.setStatus]
  split
  · rw [lru_modSlot, lru_modSlot, lru_addConnecting]
  · rw [lru_addSockNum, lru_modSlot, lru_addConnecting]

theorem lru_upstreamConnectGroupServer (c : ConnCtx) (g s g' : Nat) (rv : Int) :
    ((upstreamConnectGroupServer c g s rv).group g').lru = (c.group g').lru := by
  have hconnect : ∀ d : ConnCtx, ((d.uvTcpConnect g s rv).group g').lru =
      (d.group g').lru := by
    intro d
    rw [ConnCtx.uvTcpConnect]
    split
    · rw [lru_modSlot]
    · rfl
  simp only [upstreamConnectGroupServer, ConnCtx.setStatus]
  split
  · rw [lru_modSlot, lru_addConnecting, lru_modSlot, lru_addConnecting, lru_modSlot,
      hconnect, ConnCtx.group_addNeedClose, lru_modSlot, ConnCtx.group_addNeedClose,
      lru_modSlot, lru_modSlot]
  · rw [lru_addConnecting, lru_modSlot, hconnect, ConnCtx.group_addNeedClose, lru_modSlot,
      ConnCtx.group_addNeedClose, lru_modSlot, lru_modSlot]

theorem lru_countDown (c : ConnCtx) (g : Nat) :
    ((countDown c).group g).lru = (c.group g).lru := by
  simp only [countDown]
  split <;> rfl

theorem lru_runCloseCb (c : ConnCtx) (g s g' : Nat) (rv : Int) (cb : CloseCb) :
    ((runCloseCb c g s rv cb).group g').lru = (c.group g').lru := by
  cases cb with
  | upstreamTcpClean => exact lru_countDown c g'
  | upstreamTimerClean => exact lru_countDown c g'
  | contextClean => exact lru_countDown c g'
  | upstreamReconnectTcp =>
      exact lru_upstreamConnectGroupServer (c.addNeedClose (-1)) _ _ g' rv

theorem lru_readUpstream (c : ConnCtx) (g s g' : Nat) {bs : CMem.Bytes} (h : bs ≠ []) :
    ((readUpstream c g s bs).group g').lru = (c.group g').lru := by
  by_cases hm : c.request.web.needMerge = 0
  · rw [readUpstream_unmerged h hm, ConnCtx.uvWriteClient]
    split <;> exact lru_modSlot c g s g' _
  · rw [readUpstream_eq h hm]
    exact lru_modSlot c g s g' _

/-- Distributing a request moves the `lru` of each group to what it picks. -/
theorem lru_distributeRequest (h : OpenBooks conf True c) (hg : g < conf.sgNum)
    (rvs : Nat → Int) : ((distributeRequest conf c rvs).1.group g).lru =
      (pickUpstream (c.group g)).getD (c.group g).lru := by
  have hpart : ∀ n, n ≤ conf.sgNum → g < n →
      ((distributeRequestGroups c rvs n).1.group g).lru =
        (pickUpstream (c.group g)).getD (c.group g).lru := by
    intro n
    induction n with
    | zero => exact fun _ hlt => absurd hlt (Nat.not_lt_zero g)
    | succ n ih =>
        intro hn hlt
        obtain ⟨hbooks, hsame, _, _⟩ := Books.distributeRequestGroups h rvs
          (fun _ _ _ _ => trivial) (Nat.le_of_succ_le hn)
        simp only [distributeRequestGroups]
        rcases Nat.lt_succ_iff_lt_or_eq.1 hlt with hlt | rfl
        · obtain ⟨_, hothers, _, _⟩ := hbooks.distributeRequestGroup hn (rvs n)
            (fun _ _ => trivial)
          rw [hothers g (by omega), ih (Nat.le_of_succ_le hn) hlt]
        · have hgroup := hsame g (Nat.le_refl g)
          rw [distributeRequestGroup, hgroup]
          cases pickUpstream (c.group g) with
          | none => rw [hgroup]; rfl
          | some i => exact (pickedSlot_distributeRequestUpstream _ g i (rvs g)).lru
  exact hpart conf.sgNum (Nat.le_refl _) hg

/-- While the connection is open only a pick moves `lru`. -/
theorem Callback.lru (h : OpenBooks conf True c) (hs : Callback conf c e t)
    (hopen : t.client.handle.isOpen = true) (hg : g < conf.sgNum) :
    (t.group g).lru = (picked conf g c e).getD (c.group g).lru := by
  have hclose : ∀ d : ConnCtx, ¬ (contextClose conf d).client.handle.isOpen = true := by
    intro d
    rw [client_contextClose]
    exact Bool.false_ne_true
  cases hs with
  | readFailed => exact absurd hopen (hclose c)
  | refused => exact absurd hopen (hclose _)
  | unserved => exact absurd hopen (hclose _)
  | readAgain | taken | replyAgain | responseSent => rfl
  | waits _ hwait =>
      rw [picked, if_pos hwait]
      rfl
  | distributed _ hwait =>
      have hstopped : OpenBooks conf True c.idleStopped := h.aside ⟨rfl, rfl, rfl, rfl⟩
      rw [picked, if_neg hwait]
      exact lru_distributeRequest hstopped hg _
  | connected => exact (lru_upstreamConnectCb _ _ _ g _).trans (lru_modSlot c _ _ g _)
  | @written g' s' status =>
      have hbegin := lru_modSlot c g' s' g fun up => { up with write := false }
      by_cases hst : status = 0
      · subst hst
        rw [distributeUpstreamCb_ok]
        exact (lru_modSlot _ g' s' g _).trans hbegin
      · rw [distributeUpstreamCb_err hst]
        exact (lru_upstreamServerErr _ g' s' g).trans hbegin
  | replyFailed => exact lru_upstreamServerErr (c.addResponseCount 1) _ _ g
  | reply _ _ hbs => exact lru_readUpstream c _ _ g hbs
  | tcpClosed => exact (lru_runCloseCb _ _ _ g _ _).trans (lru_modSlot c _ _ g _)
  | timerClosed => exact (lru_runCloseCb _ _ _ g _ _).trans (lru_modSlot c _ _ g _)
  | clientClosed => exact lru_countDown _ g
  | handled =>
      have haside := aside_handled conf c
      rw [haside.group]
      rfl
  | @responded status =>
      have haside := aside_responded c status
      rw [haside.group]
      rfl

/-! ## Where `lru` starts

`upstream_connect_all` sets it to the first server of each group. It has to start
inside the group, since the places round from it are counted by remainders. -/

theorem lru_upstreamConnectServers (c : ConnCtx) (g g' : Nat) (rvs : Nat → Int) (n : Nat) :
    ((upstreamConnectServers c g rvs n).group g').lru = (c.group g').lru := by
  induction n with
  | zero => rfl
  | succ n ih => rw [upstreamConnectServers, lru_upstreamConnectGroupServer, ih]

theorem lru_upstreamConnectGroups (conf : Conf) (c : ConnCtx) (rvs : Nat → Nat → Int)
    (g : Nat) : ∀ n, g < n → ((upstreamConnectGroups conf c rvs n).group g).lru = 0 := by
  intro n
  induction n with
  | zero => exact fun h => absurd h (Nat.not_lt_zero g)
  | succ n ih =>
      intro h
      simp only [upstreamConnectGroups, upstreamConnectGroup]
      rw [lru_upstreamConnectServers, ConnCtx.group_modGroup]
      split
      · rfl
      · next hne => exact ih (by omega)

theorem lru_contextClose (conf : Conf) (c : ConnCtx) (g : Nat) :
    ((contextClose conf c).group g).lru = (c.group g).lru :=
  upstreamClean_frame (fun d : ConnCtx => (d.group g).lru)
    (fun d g' s f => lru_modSlot d g' s g f) conf c

theorem lru_onNewConnection (conf : Conf) (m : ConnCtx) (rvs : Nat → Nat → Int)
    (accept : Int) (hg : g < conf.sgNum) :
    ((onNewConnection conf m rvs accept).group g).lru = 0 := by
  have hall := lru_upstreamConnectGroups conf
    ({ allocConnContext m with idler := {}, client := .init }.addNeedClose 1) rvs g
    conf.sgNum hg
  simp only [onNewConnection]
  split
  · exact hall
  · exact (lru_contextClose conf _ g).trans hall

/-! ## A whole run

Read as a sequence of picks a run is one of turns: each pick is the first idle
server round from the pick before. What the library says of taking turns then
holds of it, with the events in between forgotten. -/

/-- The books of an open connection, with the `lru` of group `g` inside it. -/
structure InTurn (conf : Conf) (g : Nat) (c : ConnCtx) : Prop where
  books : OpenBooks conf True c
  lru : (c.group g).lru < conf.width g

theorem InTurn.realNum (h : InTurn conf g c) :
    (c.group g).realNum.toNat = conf.width g := by
  have hg : g < conf.sgNum := Conf.lt_sgNum h.lru
  rw [h.books.realNum g hg, Conf.width, if_pos hg]
  rfl

/-- The server that is picked is the first idle one round from `lru`. -/
theorem InTurn.picked_eq (h : InTurn conf g c) {k : Nat}
    (hk : picked conf g c e = some k) (hs : s < conf.width g)
    (hidle : (c.slot g s).status = .idle) :
    ∃ d, Cyclic.FirstAt (fun s => (c.slot g s).status = .idle) (conf.width g)
      (c.group g).lru d ∧ k = Cyclic.place (conf.width g) (c.group g).lru d := by
  obtain ⟨d, hd⟩ := Cyclic.exists_firstAt (p := fun s => (c.slot g s).status = .idle)
    h.lru hs hidle
  refine ⟨d, hd, ?_⟩
  cases e with
  | doDistribute rvs =>
      rw [picked] at hk
      split at hk
      · cases hk
      · rw [pickUpstream, findIdle_eq_search, h.realNum] at hk
        exact Cyclic.eq_of_search hk hd
  | _ => cases hk

theorem InTurn.callback (h : InTurn conf g c) (hs : Callback conf c e t)
    (hopen : t.client.handle.isOpen = true) : InTurn conf g t := by
  refine ⟨(OpenBooks.callback h.books hs).books hopen, ?_⟩
  rw [hs.lru h.books hopen (Conf.lt_sgNum h.lru)]
  cases hp : picked conf g c e with
  | none => exact h.lru
  | some k =>
      cases e with
      | doDistribute rvs =>
          rw [picked] at hp
          split at hp
          · cases hp
          · exact (h.books.pick (Conf.lt_sgNum h.lru) hp).1
      | _ => cases hp

theorem turns_of_run (hs : s < conf.width g) {es : List Event} : ∀ {c : ConnCtx},
    InTurn conf g c → Lts.run (step conf) c es = some t →
    t.client.handle.isOpen = true → Lts.Steps (step conf) (IdleIfPicked conf g s) c es →
    Cyclic.Turns (conf.width g) s (c.group g).lru (picks conf g c es) := by
  induction es with
  | nil => exact fun _ _ _ _ => .done
  | cons e es ih =>
      intro c h hrun hopen hsteps
      obtain ⟨d, hd, hrest⟩ := Lts.run_cons.1 hrun
      have hdopen := isOpen_of_run hrest hopen
      have hcb := callback_of_step hd
      have hturns := ih (h.callback hcb hdopen) hrest hopen (hsteps.2 d hd)
      rw [hcb.lru h.books hdopen (Conf.lt_sgNum h.lru)] at hturns
      simp only [picks, hd, Option.map_some, Option.getD_some]
      cases hp : picked conf g c e with
      | none =>
          rw [hp] at hturns
          exact hturns
      | some k =>
          have hidle : (c.slot g s).status = .idle :=
            hsteps.1 (by rw [hp]; exact Option.some_ne_none k)
          obtain ⟨n, hfirst, rfl⟩ := h.picked_eq hp hs hidle
          rw [hp] at hturns
          exact .turn hfirst hidle hturns

theorem inTurn_of_run {m : ConnCtx} {rvs : Nat → Nat → Int} {accept : Int}
    {es : List Event} (hs : s < conf.width g)
    (hrun : Lts.run (step conf) (onNewConnection conf m rvs accept) es = some c)
    (hopen : c.client.handle.isOpen = true) : InTurn conf g c := by
  have hpos : 0 < conf.width g := Nat.lt_of_le_of_lt (Nat.zero_le s) hs
  have hinv : InTurn conf g c ∨ c.client.handle.isOpen = false := by
    refine Lts.run_inv (I := fun c => InTurn conf g c ∨ c.client.handle.isOpen = false)
      (fun {c t e} hI hs => ?_) ?_ hrun
    · have hcb := callback_of_step hs
      rcases hI with hI | hI
      · by_cases ht : t.client.handle.isOpen = true
        · exact .inl (hI.callback hcb ht)
        · exact .inr (Bool.of_not_eq_true ht)
      · exact .inr (hcb.closed hI).1
    · rcases booksWhileOpen_start conf m rvs accept with h | h
      · refine .inl ⟨h, ?_⟩
        rw [lru_onNewConnection conf m rvs accept (Conf.lt_sgNum hs)]
        exact hpos
      · exact .inr h
  refine hinv.resolve_right fun hclosed => ?_
  rw [hopen] at hclosed
  cases hclosed

/-- A server that is idle whenever its group picks one is itself picked within as
many picks as the group has servers, at any point of a run. -/
theorem picked_within_turn {m : ConnCtx} {rvs : Nat → Nat → Int} {accept : Int}
    {es fs : List Event}
    (hrun : Lts.run (step conf) (onNewConnection conf m rvs accept) es = some c)
    (hrest : Lts.run (step conf) c fs = some t) (hopen : t.client.handle.isOpen = true)
    (hs : s < conf.width g)
    (hidle : Lts.Steps (step conf) (IdleIfPicked conf g s) c fs)
    (hlong : conf.width g ≤ (picks conf g c fs).length) : s ∈ picks conf g c fs := by
  have h := inTurn_of_run hs hrun (isOpen_of_run hrest hopen)
  exact (turns_of_run hs h hrest hopen hidle).mem h.lru hs hlong

def twoServers : Conf := evenConf 1 2 one_le_maxGroupNum (by decide)

def bothUp : List Event := [.upstreamConnectCb 0 0 0, .upstreamConnectCb 0 1 0]

/-- Two requests, the second while the first is being written. -/
def twoAsked : List Event :=
  [.onRequest (.data plainRequest), .doDistribute fun _ => 0,
    .onRequest (.data plainRequest), .doDistribute fun _ => 0]

theorem picked_within_turn_first :
    ∃ c, Lts.run (step twoServers) (onNewConnection twoServers .zeroed (fun _ _ => 0) 0)
      bothUp = some c ∧ picks twoServers 0 c twoAsked = [1, 0] ∧
      0 ∈ picks twoServers 0 c twoAsked := by
  have hrun : ((Lts.run (step twoServers)
      (onNewConnection twoServers .zeroed (fun _ _ => 0) 0) bothUp).map fun c =>
        (picks twoServers 0 c twoAsked,
          (Lts.run (step twoServers) c twoAsked).map fun t => t.client.handle.isOpen)) =
      some ([1, 0], some true) := by decide +kernel
  obtain ⟨c, hc, heq⟩ := Option.map_eq_some_iff.1 hrun
  obtain ⟨hpicks, hlast⟩ := Prod.mk.inj heq
  obtain ⟨t, ht, hopen⟩ := Option.map_eq_some_iff.1 hlast
  refine ⟨c, hc, hpicks, picked_within_turn hc ht hopen (by decide) ?_ ?_⟩
  · have hc' : c = (Lts.run (step twoServers)
        (onNewConnection twoServers .zeroed (fun _ _ => 0) 0) bothUp).getD .zeroed := by
      rw [hc]
      rfl
    subst hc'
    refine Lts.steps_cons (show _ ≠ _ → _ by decide +kernel) ?_
    refine Lts.steps_cons (show _ ≠ _ → _ by decide +kernel) ?_
    refine Lts.steps_cons (show _ ≠ _ → _ by decide +kernel) ?_
    exact Lts.steps_cons (show _ ≠ _ → _ by decide +kernel) trivial
  · rw [hpicks]
    decide

end

end UiServer
