import Mathlib.Algebra.BigOperators.Group.Finset.Piecewise
import UiServer.Proofs.Distribute
import UiServer.Proofs.NeedClose
import UiServer.Proofs.Requests

/-!
# The groups of an open connection

Until `context_close` the books of a connection are right whatever happens to
it, the slots that are lost included. So `sock_num` and `connecting` are what
their names say (`groupCounts`). What becomes of a slot is another matter: one
whose connect fails is given the status `upstream_wait_reconnect`, and nothing
ever starts the connect it waits for (`noneAbandoned_iff`).
-/

namespace UiServer

open UpstreamConnectStatus

/-! ## As long as the connection is open

Here nothing is asked of the steps. An error loses a slot, but the books know of
slots that are being closed for a reconnect, and go on counting right. Only
`context_close` ends them. -/

/-- The books are right, unless the connection was closed. -/
def BooksWhileOpen (conf : Conf) (c : ConnCtx) : Prop :=
  OpenBooks conf True c ∨ c.client.handle.isOpen = false

section

variable {conf : Conf} {c t : ConnCtx} {e : Event}

theorem booksWhileOpen_contextClose (conf : Conf) (c : ConnCtx) :
    BooksWhileOpen conf (contextClose conf c) := by
  refine .inr ?_
  rw [client_contextClose]
  rfl

theorem OpenBooks.callback (h : OpenBooks conf True c) (hs : Callback conf c e t) :
    BooksWhileOpen conf t := by
  cases hs with
  | readFailed => exact booksWhileOpen_contextClose conf c
  | readAgain => exact .inl h
  | taken => exact .inl (h.aside ⟨rfl, rfl, rfl, rfl⟩)
  | refused => exact booksWhileOpen_contextClose conf _
  | waits => exact .inl (h.aside ⟨rfl, rfl, rfl, rfl⟩)
  | distributed => exact .inl (OpenBooks.distribute h (.inl trivial)).1
  | unserved => exact booksWhileOpen_contextClose conf _
  | @connected g s status hc => exact .inl (Books.upstreamConnectCb h hc status)
  | written hw => exact .inl (Books.distributeUpstreamCb h hw fun _ => trivial)
  | replyFailed _ hread => exact .inl (Books.readError h hread trivial)
  | replyAgain => exact .inl h
  | reply _ hread hbs => exact .inl (Books.readUpstream h hread hbs)
  | @tcpClosed g s rv cb hph => exact .inl (Books.reconnect h hph rv)
  | timerClosed hph => exact absurd hph (Books.timer_not_closing h)
  | clientClosed hph =>
      rw [h.client] at hph
      cases hph
  | handled => exact .inl (h.aside (aside_handled conf c))
  | @responded status => exact .inl (h.aside (aside_responded c status))
  | responseSent => exact .inl (h.aside ⟨rfl, rfl, rfl, rfl⟩)

theorem BooksWhileOpen.step (h : BooksWhileOpen conf c) (hs : step conf c e = some t) :
    BooksWhileOpen conf t := by
  have hcb := callback_of_step hs
  rcases h with h | h
  · exact OpenBooks.callback h hcb
  · exact .inr (hcb.closed h).1

theorem booksWhileOpen_start (conf : Conf) (m : ConnCtx) (rvs : Nat → Nat → Int)
    (accept : Int) : BooksWhileOpen conf (onNewConnection conf m rvs accept) := by
  obtain ⟨d, hd, _, heq | heq⟩ := onNewConnection_cases conf m rvs accept
  · rw [heq]
    exact .inl hd.openBooks
  · rw [heq]
    exact booksWhileOpen_contextClose conf d

theorem BooksWhileOpen.books (h : BooksWhileOpen conf c)
    (ho : c.client.handle.isOpen = true) : OpenBooks conf True c := by
  refine h.resolve_right ?_
  rw [ho]
  exact Bool.noConfusion

end

/-! ## The counters of a group

The books have the counters as sums of weights over the slots that were connected.
A weight is 0 or 1 by the status, so a sum is the number of the slots with that
status, and the two statuses exclude each other. `real_num` is a bound where it is
not negative. -/

/-- The slots of group `g` whose status is one of those of `P`. -/
def ConnCtx.slotsIn (c : ConnCtx) (g : Nat) (P : UpstreamConnectStatus → Bool) :
    Finset Nat :=
  (Finset.range (c.group g).realNum.toNat).filter fun s => P (c.slot g s).status = true

def UpstreamConnectStatus.isConnecting : UpstreamConnectStatus → Bool
  | .connecting => true
  | _ => false

def UpstreamConnectStatus.isConnected : UpstreamConnectStatus → Bool
  | .idle | .work => true
  | _ => false

/-- The counters of group `g` are right, its slots are at most `bound`, and
`distribute_request_group` does not divide by zero: its loop is only entered
when `sock_num` is positive, and takes remainders by `real_num`. -/
structure GroupCounts (c : ConnCtx) (g : Nat) (bound : Int) : Prop where
  connecting : (c.group g).connecting = (c.slotsIn g isConnecting).card
  sockNum : (c.group g).sockNum = (c.slotsIn g isConnected).card
  connecting_nonneg : 0 ≤ (c.group g).connecting
  sockNum_nonneg : 0 ≤ (c.group g).sockNum
  le_bound : (c.group g).sockNum + (c.group g).connecting ≤ bound
  modulus : 0 < (c.group g).sockNum → (c.group g).realNum ≠ 0

section

variable {conf : Conf} {errs : Prop} {c : ConnCtx} {g : Nat}

theorem row_eq_card {weight : UpstreamConnect → Nat} {P : UpstreamConnectStatus → Bool}
    (hw : ∀ up, weight up = if P up.status then 1 else 0) (c : ConnCtx) (g : Nat) :
    c.row weight g (c.group g).realNum.toNat = (c.slotsIn g P).card := by
  rw [ConnCtx.slotsIn, Finset.card_filter, ConnCtx.row, Ledger.total]
  exact Finset.sum_congr rfl fun s _ => hw _

theorem connected_eq (up : UpstreamConnect) :
    up.connected = if isConnected up.status then 1 else 0 := by
  rw [UpstreamConnect.connected]
  cases up.status <;> rfl

theorem pending_eq (up : UpstreamConnect) :
    up.pending = if isConnecting up.status then 1 else 0 := by
  rw [UpstreamConnect.pending]
  cases up.status <;> rfl

theorem card_slotsIn_le (c : ConnCtx) (g : Nat) :
    (c.slotsIn g isConnected).card + (c.slotsIn g isConnecting).card ≤
      (c.group g).realNum.toNat := by
  have hdisj : Disjoint (c.slotsIn g isConnected) (c.slotsIn g isConnecting) := by
    refine Finset.disjoint_filter.2 fun s _ hs hs' => ?_
    cases hst : (c.slot g s).status <;> rw [hst] at hs hs' <;>
      first | exact Bool.noConfusion hs | exact Bool.noConfusion hs'
  have hsub : c.slotsIn g isConnected ∪ c.slotsIn g isConnecting ⊆
      Finset.range (c.group g).realNum.toNat :=
    Finset.union_subset (Finset.filter_subset _ _) (Finset.filter_subset _ _)
  have hcard := Finset.card_le_card hsub
  rw [Finset.card_union_of_disjoint hdisj, Finset.card_range] at hcard
  exact hcard

theorem Books.groupCountsOf (h : OpenBooks conf errs c) (hg : g < conf.sgNum) :
    GroupCounts c g (max (c.group g).realNum 0) := by
  have hwidth : conf.width g = (c.group g).realNum.toNat := by
    rw [h.realNum g hg]
    exact if_pos hg
  have hsock := h.sockNum g hg
  have hconn := h.connecting g hg
  rw [hwidth, row_eq_card connected_eq] at hsock
  rw [hwidth, row_eq_card pending_eq] at hconn
  have hle := card_slotsIn_le c g
  exact ⟨hconn, hsock, by omega, by omega, by omega, by omega⟩

end

/-- In every state of a connection before `context_close` the counters of each
group are right. -/
theorem groupCounts {conf : Conf} {m c : ConnCtx} {rvs : Nat → Nat → Int} {accept : Int}
    {es : List Event}
    (hrun : Lts.run (step conf) (onNewConnection conf m rvs accept) es = some c)
    (hopen : c.client.handle.isOpen = true) :
    ∀ g < conf.sgNum, GroupCounts c g (max (c.group g).realNum 0) := by
  intro g hg
  have hbooks : BooksWhileOpen conf c :=
    Lts.run_inv BooksWhileOpen.step (booksWhileOpen_start conf m rvs accept) hrun
  exact Books.groupCountsOf (hbooks.books hopen) hg

theorem groupCounts_served :
    ∃ c, Lts.run (step twoGroups) (onNewConnection twoGroups .zeroed (fun _ _ => 0) 0)
      twoGroupsEvents = some c ∧
      ∀ g < 2, GroupCounts c g (max (c.group g).realNum 0) := by
  have hopen : twoGroupsServed.client.handle.isOpen = true := by decide +kernel
  exact ⟨twoGroupsServed, twoGroupsServed_run, groupCounts twoGroupsServed_run hopen⟩

/-- One group, and its configuration file says `Server_num: -1`. -/
def minusOneServer : Conf :=
  { evenConf 1 0 one_le_maxGroupNum (by decide) with
    srvNum := fun _ => -1
    srvNum_le := fun _ => by decide }

/-- `real_num` is what the configuration says, which may be negative. -/
theorem groupCounts_negative :
    ¬ ∀ (conf : Conf) (m c : ConnCtx) (rvs : Nat → Nat → Int) (accept : Int)
        (es : List Event),
        Lts.run (step conf) (onNewConnection conf m rvs accept) es = some c →
        c.client.handle.isOpen = true →
        ∀ g < conf.sgNum, GroupCounts c g (c.group g).realNum := by
  intro hall
  have hcounts := hall minusOneServer .zeroed
    (onNewConnection minusOneServer .zeroed (fun _ _ => 0) 0) (fun _ _ => 0) 0 [] rfl
    (by decide +kernel) 0 (by decide)
  exact absurd hcounts.le_bound (by decide +kernel)

/-! ## The slots that wait for a reconnect

Of the six modes only `waiting` has nothing pending. A slot comes into it by a
connect that fails, at once or in its callback, and by nothing else; and a slot
that is lost otherwise is in `closing`, whose callback starts a new connect. -/

/-- The slot is connecting or connected, or the close callback that connects it
again is pending. There is no timer that could do it: `uv_timer_start` is never
called. -/
def UpstreamConnect.Kept (up : UpstreamConnect) : Prop :=
  up.status = .connecting ∨ up.status = .idle ∨ up.status = .work ∨
    up.tcp.handle.phase = .closing .upstreamReconnectTcp

instance (up : UpstreamConnect) : Decidable up.Kept :=
  inferInstanceAs (Decidable (_ ∨ _))

/-- No slot is abandoned before `context_close`. -/
def NoneAbandoned (conf : Conf) (c : ConnCtx) : Prop :=
  c.client.handle.isOpen = true →
    ∀ g < conf.sgNum, ∀ s < conf.servers g, (c.slot g s).Kept

/-- As long as the connection is open a connect succeeds: the one that a
reconnect starts, and one that is answered. -/
def ConnectsSucceed (c : ConnCtx) : Event → Prop
  | .upstreamConnectCb _ _ status => c.client.handle.isOpen = true → status = 0
  | .upstreamTcpClosed _ _ rv => c.client.handle.isOpen = true → rv = 0
  | _ => True

/-- The status of the slot says that it waits to be connected again. -/
def UpstreamConnect.waiting (up : UpstreamConnect) : Bool :=
  decide (up.status = .waitReconnect)

section

variable {conf : Conf} {c t : ConnCtx} {e : Event}

theorem SlotMode.kept_iff (m : SlotMode) (g s : Nat) :
    (m.upstream g s).Kept ↔ (m.upstream g s).waiting = false := by
  cases m with
  | connecting => exact ⟨fun _ => rfl, fun _ => .inl rfl⟩
  | idle => exact ⟨fun _ => rfl, fun _ => .inr (.inl rfl)⟩
  | writing => exact ⟨fun _ => rfl, fun _ => .inr (.inr (.inl rfl))⟩
  | awaiting => exact ⟨fun _ => rfl, fun _ => .inr (.inr (.inl rfl))⟩
  | closing => exact ⟨fun _ => rfl, fun _ => .inr (.inr (.inr rfl))⟩
  | waiting =>
      refine ⟨fun h => ?_, fun h => nomatch h⟩
      rcases h with h | h | h | h <;> cases h

/-- In the books of an open connection the abandoned slots are those that
wait. -/
theorem Books.kept_iff_not_waiting (h : OpenBooks conf True c) :
    (∀ g < conf.sgNum, ∀ s < conf.servers g, (c.slot g s).Kept) ↔
      ∀ g s, s < conf.width g → (c.slot g s).waiting = false := by
  refine ⟨fun hall g s hs => ?_, fun hall g hg s hs => ?_⟩
  · have hg := Conf.lt_sgNum hs
    have hs' : s < conf.servers g := by
      rw [Conf.width, if_pos hg] at hs
      exact hs
    obtain ⟨m, _, hslot⟩ := h.slots g s hs
    have hkept := hall g hg s hs'
    rw [hslot] at hkept ⊢
    exact (m.kept_iff g s).1 hkept
  · have hw : s < conf.width g := by
      rw [Conf.width, if_pos hg]
      exact hs
    obtain ⟨m, _, hslot⟩ := h.slots g s hw
    have hwait := hall g s hw
    rw [hslot] at hwait ⊢
    exact (m.kept_iff g s).2 hwait

/-- Only a connect that fails makes a slot wait. -/
theorem OpenBooks.waitingKept (h : OpenBooks conf True c)
    (ho : c.client.handle.isOpen = true) (hok : ConnectsSucceed c e)
    (hs : Callback conf c e t) (hot : t.client.handle.isOpen = true) :
    FlagKept UpstreamConnect.waiting c t := by
  have hclosed : ∀ {d : ConnCtx}, t = UiServer.contextClose conf d →
      FlagKept UpstreamConnect.waiting c t := by
    intro d ht
    rw [ht, client_contextClose] at hot
    cases hot
  cases hs with
  | readFailed => exact hclosed rfl
  | refused => exact hclosed rfl
  | unserved => exact hclosed rfl
  | readAgain => exact .refl c
  | replyAgain => exact .refl c
  | taken => exact flagKept_of_slot rfl
  | waits => exact flagKept_of_slot rfl
  | responseSent => exact flagKept_of_slot rfl
  | handled => exact flagKept_of_slot (aside_handled conf c).slot
  | @responded status => exact flagKept_of_slot (aside_responded c status).slot
  | @distributed rvs =>
      exact flagKept_distributeRequest conf c.idleStopped rvs (fun _ h => nomatch h)
        (fun _ => id) fun _ h => nomatch h
  | @connected g s status =>
      refine (moves_upstreamConnectCb c (g, s) status).flagKept fun hw => ?_
      rw [hok ho] at hw
      cases hw
  | @written g s status hw =>
      refine flagKept_of_onlySlot (onlySlot_distributeUpstreamCb c g s status)
        fun hwait => ?_
      by_cases hst : status = 0
      · subst hst
        rw [distributeUpstreamCb_ok, ConnCtx.slot_modSlot_same,
          ConnCtx.slot_addDistributeCount, ConnCtx.slot_modSlot_same] at hwait
        exact hwait
      · rw [distributeUpstreamCb_err hst, slot_upstreamServerErr_same] at hwait
        cases hwait
  | @replyFailed g s =>
      have hcount : FlagKept UpstreamConnect.waiting c (c.addResponseCount 1) :=
        flagKept_of_slot rfl
      exact hcount.trans (flagKept_upstreamServerErr g s fun hw => nomatch hw)
  | @reply g s bs _ _ hbs =>
      exact (moves_readUpstream c (g, s) hbs).flagKept fun hw => nomatch hw
  | @tcpClosed g s rv cb hph =>
      obtain ⟨_, _, hm⟩ := Books.moves_reconnect h hph rv
      refine hm.flagKept fun hw => ?_
      rw [hok ho] at hw
      cases hw
  | timerClosed hph => exact absurd hph (Books.timer_not_closing h)
  | clientClosed hph =>
      rw [h.client] at hph
      cases hph

/-- A connect of an open connection that fails leaves a slot that waits. -/
theorem OpenBooks.abandons (h : OpenBooks conf True c)
    (ho : c.client.handle.isOpen = true) (hbad : ¬ ConnectsSucceed c e)
    (hs : Callback conf c e t) : ¬ NoneAbandoned conf t := by
  have hlost : ∀ {g s : Nat}, s < conf.width g → (t.slot g s).waiting = true →
      OpenBooks conf True t → t.client = c.client → ¬ NoneAbandoned conf t := by
    intro g s hlt hwait ht hclient hnone
    have hopen : t.client.handle.isOpen = true := by rw [hclient, ho]
    have hkept := (Books.kept_iff_not_waiting ht).1 (hnone hopen) g s hlt
    rw [hwait] at hkept
    cases hkept
  cases hs with
  | readFailed => exact absurd trivial hbad
  | refused => exact absurd trivial hbad
  | unserved => exact absurd trivial hbad
  | readAgain => exact absurd trivial hbad
  | replyAgain => exact absurd trivial hbad
  | taken => exact absurd trivial hbad
  | waits => exact absurd trivial hbad
  | responseSent => exact absurd trivial hbad
  | handled => exact absurd trivial hbad
  | responded => exact absurd trivial hbad
  | distributed => exact absurd trivial hbad
  | written => exact absurd trivial hbad
  | replyFailed => exact absurd trivial hbad
  | reply => exact absurd trivial hbad
  | timerClosed => exact absurd trivial hbad
  | clientClosed => exact absurd trivial hbad
  | @connected g s status hc =>
      have hst : status ≠ 0 := fun hst => hbad fun _ => hst
      obtain ⟨hlt, _⟩ := Books.find_connect h hc
      have hm := moves_upstreamConnectCb c (g, s) status
      refine hlost hlt ?_ (Books.upstreamConnectCb h hc status) hm.only.client
      rw [hm.slot, UpstreamConnect.waiting, UpstreamConnect.answered, if_neg hst]
      rfl
  | @tcpClosed g s rv cb hph =>
      have hrv : rv ≠ 0 := fun hrv => hbad fun _ => hrv
      obtain ⟨hlt, _, hm⟩ := Books.moves_reconnect h hph rv
      refine hlost hlt ?_ (Books.reconnect h hph rv) hm.only.client
      rw [hm.slot, UpstreamConnect.waiting, UpstreamConnect.connectTo]
      simp only [if_neg hrv]
      rfl

end

/-! ## The first connects

`on_new_connection` starts a connect for each slot, and the slot waits if that
call failed. The loops are followed slot by slot to say which connects these are.
-/

theorem slot_upstreamConnectServers (c : ConnCtx) (g : Nat) (rvs : Nat → Int)
    (g' s' : Nat) : ∀ n, (upstreamConnectServers c g rvs n).slot g' s' =
      if g' = g ∧ s' < n then (c.slot g' s').connectTo (rvs s') (g', s')
      else c.slot g' s' := by
  intro n
  induction n with
  | zero => rw [if_neg fun h => Nat.not_lt_zero _ h.2]; rfl
  | succ n ih =>
      have hm := moves_upstreamConnectGroupServer (upstreamConnectServers c g rvs n)
        (g, n) (rvs n)
      rw [upstreamConnectServers]
      by_cases he : (g', s') = (g, n)
      · cases he
        rw [hm.slot, ih, if_neg fun h => Nat.lt_irrefl _ h.2,
          if_pos ⟨rfl, Nat.lt_succ_self _⟩]
      · rw [hm.only.slots (g', s') he, ih]
        refine if_congr ⟨fun h => ⟨h.1, Nat.lt_succ_of_lt h.2⟩, fun h => ⟨h.1, ?_⟩⟩ rfl rfl
        have hne : s' ≠ n := fun hse => he (by rw [h.1, hse])
        omega

theorem slot_upstreamConnectGroups (conf : Conf) (c : ConnCtx) (rvs : Nat → Nat → Int)
    (g s : Nat) : ∀ n, (upstreamConnectGroups conf c rvs n).slot g s =
      if g < n ∧ s < conf.servers g then (c.slot g s).connectTo (rvs g s) (g, s)
      else c.slot g s := by
  intro n
  induction n with
  | zero => rw [if_neg fun h => Nat.not_lt_zero _ h.1]; rfl
  | succ n ih =>
      have hreset : ∀ d : ConnCtx, ∀ f : GroupServerSock → GroupServerSock,
          (f (d.group n)).upstream = (d.group n).upstream →
          (d.modGroup n f).slot g s = d.slot g s := fun d f hf =>
        congrFun (ConnCtx.modGroup_frame (·.upstream) hf) s
      have hreal : ∀ d : ConnCtx, ((d.modGroup n fun group => { group with
          realNum := conf.srvNum n, sockNum := 0, connecting := 0, lru := 0 }).group
            n).realNum.toNat = conf.servers n := fun d => by
        rw [ConnCtx.group_modGroup, if_pos rfl]
        rfl
      rw [upstreamConnectGroups, upstreamConnectGroup]
      simp only [hreal]
      rw [slot_upstreamConnectServers, hreset _ _ rfl, ih]
      by_cases hg : g = n
      · subst hg
        rw [if_neg (c := g < g ∧ _) fun h => Nat.lt_irrefl _ h.1]
        refine if_congr ⟨fun h => ⟨Nat.lt_succ_self g, h.2⟩, fun h => ⟨rfl, h.2⟩⟩ rfl rfl
      · rw [if_neg fun h => hg h.1]
        refine if_congr ⟨fun h => ⟨Nat.lt_succ_of_lt h.1, h.2⟩, fun h => ⟨?_, h.2⟩⟩ rfl rfl
        omega

/-- The connects that `on_new_connection` starts succeed, if the connection is
accepted at all. -/
def FirstConnectsSucceed (conf : Conf) (rvs : Nat → Nat → Int) (accept : Int) : Prop :=
  accept = 0 → ∀ g < conf.sgNum, ∀ s < conf.servers g, rvs g s = 0

theorem slot_onNewConnection (conf : Conf) (m : ConnCtx) (rvs : Nat → Nat → Int)
    {g s : Nat} (hg : g < conf.sgNum) (hs : s < conf.servers g) :
    ((onNewConnection conf m rvs 0).slot g s).waiting = decide (rvs g s ≠ 0) := by
  have hslot : (onNewConnection conf m rvs 0).slot g s = (upstreamConnectAll conf
      ({ allocConnContext m with idler := {}, client := .init }.addNeedClose 1)
      rvs).slot g s := rfl
  rw [hslot, upstreamConnectAll, slot_upstreamConnectGroups, if_pos ⟨hg, hs⟩,
    UpstreamConnect.waiting, UpstreamConnect.connectTo]
  by_cases hrv : rvs g s = 0
  · simp [hrv]
  · simp [hrv]

theorem isOpen_onNewConnection (conf : Conf) (m : ConnCtx) (rvs : Nat → Nat → Int)
    (accept : Int) : (onNewConnection conf m rvs accept).client.handle.isOpen =
      decide (accept = 0) := by
  rw [onNewConnection]
  by_cases hacc : accept = 0
  · obtain ⟨gs, n, heq⟩ := groupsOnly_upstreamConnectAll conf
      ({ allocConnContext m with idler := {}, client := .init }.addNeedClose 1) rvs
    simp only [heq, if_pos hacc]
    rw [decide_eq_true hacc]
    rfl
  · simp only [if_neg hacc]
    rw [client_contextClose, decide_eq_false hacc]
    rfl

theorem noneAbandoned_start (conf : Conf) (m : ConnCtx) (rvs : Nat → Nat → Int)
    (accept : Int) : NoneAbandoned conf (onNewConnection conf m rvs accept) ↔
      FirstConnectsSucceed conf rvs accept := by
  have hopen := isOpen_onNewConnection conf m rvs accept
  by_cases hacc : accept = 0
  · subst hacc
    have hbooks := (booksWhileOpen_start conf m rvs 0).books hopen
    have hiff := Books.kept_iff_not_waiting hbooks
    refine ⟨fun h _ g hg s hs => ?_, fun h _ => hiff.2 fun g s hs => ?_⟩
    · have hw : s < conf.width g := by
        rw [Conf.width, if_pos hg]
        exact hs
      have hwait := hiff.1 (h hopen) g s hw
      rw [slot_onNewConnection conf m rvs hg hs] at hwait
      exact of_not_not (of_decide_eq_false hwait)
    · have hg := Conf.lt_sgNum hs
      rw [Conf.width, if_pos hg] at hs
      rw [slot_onNewConnection conf m rvs hg hs]
      exact decide_eq_false fun hne => hne (h rfl g hg s hs)
  · rw [decide_eq_false hacc] at hopen
    refine ⟨fun _ h => absurd h hacc, fun _ h => ?_⟩
    rw [hopen] at h
    cases h

/-! ## Whole runs

A slot that waits stays so: no event takes it out of its mode. Hence one failed
connect is enough for the property to be lost in the state behind it, and without
one it never is. -/

section

variable {conf : Conf} {c t : ConnCtx} {e : Event}

theorem BooksWhileOpen.noneAbandoned (h : BooksWhileOpen conf c)
    (hnone : NoneAbandoned conf c) (hok : ConnectsSucceed c e)
    (hs : UiServer.step conf c e = some t) : NoneAbandoned conf t := by
  intro hot
  have hcb := callback_of_step hs
  have ho := isOpen_of_step hs hot
  have hb := h.books ho
  have hbt := (h.step hs).books hot
  refine (Books.kept_iff_not_waiting hbt).2 fun g s hlt => ?_
  have hkept := (Books.kept_iff_not_waiting hb).1 (hnone ho) g s hlt
  have hflag := OpenBooks.waitingKept hb ho hok hcb hot g s
  cases hw : (t.slot g s).waiting with
  | false => rfl
  | true => rw [hflag hw] at hkept; cases hkept

theorem BooksWhileOpen.abandons (h : BooksWhileOpen conf c)
    (hbad : ¬ ConnectsSucceed c e) (hs : UiServer.step conf c e = some t) :
    ¬ NoneAbandoned conf t := by
  have ho : c.client.handle.isOpen = true := by
    by_contra hclosed
    refine hbad ?_
    cases e <;> first | exact trivial | exact fun ho => absurd ho hclosed
  exact OpenBooks.abandons (h.books ho) ho hbad (callback_of_step hs)

end

/-- No slot is abandoned in any state of a run exactly when every connect of it
succeeds. -/
theorem noneAbandoned_iff {conf : Conf} {m c : ConnCtx} {rvs : Nat → Nat → Int}
    {accept : Int} {es : List Event}
    (hrun : Lts.run (step conf) (onNewConnection conf m rvs accept) es = some c) :
    Lts.States (step conf) (NoneAbandoned conf) (onNewConnection conf m rvs accept) es ↔
      FirstConnectsSucceed conf rvs accept ∧
        Lts.Steps (step conf) ConnectsSucceed (onNewConnection conf m rvs accept) es := by
  rw [← noneAbandoned_start conf m rvs accept]
  have hall : NoneAbandoned conf (onNewConnection conf m rvs accept) →
      (Lts.States (step conf) (NoneAbandoned conf) (onNewConnection conf m rvs accept) es ↔
        Lts.Steps (step conf) ConnectsSucceed (onNewConnection conf m rvs accept) es) := by
    intro hstart
    refine Lts.states_iff_steps
      (I := fun c => BooksWhileOpen conf c ∧ NoneAbandoned conf c) ?_ ?_ (fun h => h.2)
      ⟨booksWhileOpen_start conf m rvs accept, hstart⟩ hrun
    · exact fun h hok hs => ⟨h.1.step hs, h.1.noneAbandoned h.2 hok hs⟩
    · exact fun h hbad hs => h.1.abandons hbad hs
  refine ⟨fun h => ?_, fun h => (hall h.1).2 h.2⟩
  have hstart : NoneAbandoned conf (onNewConnection conf m rvs accept) := by
    cases es with
    | nil => exact h
    | cons e es => exact h.1
  exact ⟨hstart, (hall hstart).1 h⟩

theorem noneAbandoned_iff_served :
    Lts.States (step twoGroups) (NoneAbandoned twoGroups)
        (onNewConnection twoGroups .zeroed (fun _ _ => 0) 0) twoGroupsEvents ↔
      FirstConnectsSucceed twoGroups (fun _ _ => 0) 0 ∧
        Lts.Steps (step twoGroups) ConnectsSucceed
          (onNewConnection twoGroups .zeroed (fun _ _ => 0) 0) twoGroupsEvents :=
  noneAbandoned_iff twoGroupsServed_run

/-- The first connect is refused: the slot waits and nothing is pending. -/
theorem noneAbandoned_fails :
    ¬ ∀ (conf : Conf) (m c : ConnCtx) (rvs : Nat → Nat → Int) (accept : Int)
        (es : List Event),
        Lts.run (step conf) (onNewConnection conf m rvs accept) es = some c →
        NoneAbandoned conf c := by
  intro hall
  have hrun : ((Lts.run (step twoGroups)
      (onNewConnection twoGroups .zeroed (fun _ _ => 0) 0)
      [.upstreamConnectCb 0 0 (-1)]).map fun c =>
        (c.client.handle.isOpen, decide (c.slot 0 0).Kept)) = some (true, false) := by
    decide +kernel
  obtain ⟨c, hc, heq⟩ := Option.map_eq_some_iff.1 hrun
  obtain ⟨hopen, hkept⟩ := Prod.mk.inj heq
  exact of_decide_eq_false hkept
    (hall _ _ _ _ _ _ hc hopen 0 (by decide) 0 (by decide))

end UiServer
