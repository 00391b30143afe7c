import UiServer.Proofs.OpenStep

/-!
# A connection that is being closed

`context_close` closes the client and both handles of every slot, and from then
on every close callback takes one from `need_close`. As long as nothing else
closes a handle, `need_close` is the number of the handles whose callback is
still to come, and the callback that finds it at one frees the context.
-/

namespace UiServer

/-! ## What `context_close` does to the slots

Two loops go over the groups and their servers and close both handles of each
slot. For one slot what is left of them is a case distinction: it was reached, or
it was not. -/

theorem slot_upstreamCleanServers (c : ConnCtx) (g n g' s' : Nat) :
    (upstreamCleanServers c g n).slot g' s' =
      if g' = g ∧ s' < n then (c.slot g' s').clean else c.slot g' s' := by
  induction n with
  | zero => rw [upstreamCleanServers, if_neg (fun h => Nat.not_lt_zero s' h.2)]
  | succ n ih =>
      rw [upstreamCleanServers, ConnCtx.slot_modSlot]
      by_cases he : g' = g ∧ s' = n
      · obtain ⟨rfl, rfl⟩ := he
        rw [if_pos ⟨rfl, rfl⟩, ih, if_neg (fun h => Nat.lt_irrefl _ h.2),
          if_pos ⟨rfl, Nat.lt_succ_self _⟩]
      · rw [if_neg he, ih]
        by_cases hlt : g' = g ∧ s' < n
        · rw [if_pos hlt, if_pos ⟨hlt.1, Nat.lt_succ_of_lt hlt.2⟩]
        · rw [if_neg hlt, if_neg]
          rintro ⟨hg, hs⟩
          rcases Nat.lt_succ_iff_lt_or_eq.1 hs with hs | hs
          · exact hlt ⟨hg, hs⟩
          · exact he ⟨hg, hs⟩

theorem realNum_upstreamCleanGroups (c : ConnCtx) (n g : Nat) :
    ((upstreamCleanGroups c n).group g).realNum = (c.group g).realNum := by
  induction n with
  | zero => rfl
  | succ n ih =>
      have hservers := upstreamCleanServers_frame (fun d : ConnCtx => (d.group g).realNum)
        (fun d g' s f => ConnCtx.realNum_modSlot d g' s g f)
        (upstreamCleanGroups c n) n ((upstreamCleanGroups c n).group n).realNum.toNat
      exact hservers.trans ih

theorem slot_upstreamCleanGroups (c : ConnCtx) (n g s : Nat) :
    (upstreamCleanGroups c n).slot g s =
      if g < n ∧ s < (c.group g).realNum.toNat then (c.slot g s).clean
      else c.slot g s := by
  induction n with
  | zero => rw [upstreamCleanGroups, if_neg (fun h => Nat.not_lt_zero g h.1)]
  | succ n ih =>
      rw [upstreamCleanGroups, slot_upstreamCleanServers, realNum_upstreamCleanGroups, ih]
      by_cases hg : g = n
      · subst hg
        simp
      · rw [if_neg (fun h => hg h.1)]
        have hiff : g < n + 1 ↔ g < n := by omega
        simp only [hiff]

theorem OpenBooks.slot_contextClose {conf : Conf} {errs : Prop} {c : ConnCtx}
    (h : OpenBooks conf errs c) (g s : Nat) :
    (contextClose conf c).slot g s =
      if s < conf.width g then (c.slot g s).clean else c.slot g s := by
  have hclean := slot_upstreamCleanGroups c conf.sgNum g s
  have hiff : (g < conf.sgNum ∧ s < (c.group g).realNum.toNat) ↔ s < conf.width g := by
    rw [Conf.width]
    constructor
    · rintro ⟨hg, hs⟩
      rw [h.realNum g hg] at hs
      rw [if_pos hg]
      exact hs
    · intro hs
      by_cases hg : g < conf.sgNum
      · rw [if_pos hg] at hs
        rw [h.realNum g hg]
        exact ⟨hg, hs⟩
      · rw [if_neg hg] at hs
        exact absurd hs (Nat.not_lt_zero s)
  simp only [hiff] at hclean
  exact hclean

/-! ## The invariant

Each handle of a slot was closed once, by the callback that counts down, and may
have been finished since (`LetGo`). What is counted is then the handles that are
not finished, and a callback that finishes one takes off just what it was counted
for. -/

/-- Closed once, by the callback that counts down; the callback may have run. -/
def LetGo (h : Uv.Handle CloseCb) (cb : CloseCb) : Prop :=
  h = ⟨.closing cb, 1⟩ ∨ h = ⟨.closed, 1⟩

structure UpstreamConnect.Cleaning (up : UpstreamConnect) : Prop where
  tcp : LetGo up.tcp.handle .upstreamTcpClean
  timer : LetGo up.timer .upstreamTimerClean

/-- The invariant of a connection that was closed in order. -/
structure ClosingBooks (conf : Conf) (c : ConnCtx) : Prop where
  slots : ∀ g s, s < conf.width g → (c.slot g s).Cleaning
  outside : ∀ g s, ¬ s < conf.width g → (c.slot g s).Unused
  client : LetGo c.client.handle .contextClean
  needClose : c.needClose = c.due
  frees : c.frees = if c.due = 0 then 1 else 0

theorem LetGo.not_open {h : Uv.Handle CloseCb} {cb : CloseCb} (hl : LetGo h cb) :
    h.isOpen = false := by
  rcases hl with rfl | rfl <;> rfl

theorem LetGo.phase {h : Uv.Handle CloseCb} {cb cb' : CloseCb} (hl : LetGo h cb)
    (hp : h.phase = .closing cb') : cb' = cb ∧ h = ⟨.closing cb, 1⟩ := by
  rcases hl with rfl | rfl
  · cases hp
    exact ⟨rfl, rfl⟩
  · cases hp

theorem LetGo.finish {h : Uv.Handle CloseCb} {cb : CloseCb} (hl : LetGo h cb) :
    LetGo h.finish cb := by
  rcases hl with rfl | rfl <;> exact .inr rfl

theorem LetGo.closes {h : Uv.Handle CloseCb} {cb : CloseCb} (hl : LetGo h cb) :
    h.closes = 1 := by
  rcases hl with rfl | rfl <;> rfl

section

variable {conf : Conf} {errs : Prop} {c t : ConnCtx}

/-- An open connection that loses no slot closes in order. -/
theorem OpenBooks.contextClose (h : OpenBooks conf errs c) (hnone : NoneClosing c) :
    ClosingBooks conf (contextClose conf c) := by
  have hslot := OpenBooks.slot_contextClose h
  have hneed : (UiServer.contextClose conf c).needClose = c.needClose :=
    upstreamClean_frame (·.needClose) (fun _ _ _ _ => rfl) conf c
  have hfrees : (UiServer.contextClose conf c).frees = c.frees :=
    upstreamClean_frame (·.frees) (fun _ _ _ _ => rfl) conf c
  have hmode : ∀ g s, s < conf.width g → (c.slot g s).tcp.handle = .init ∧
      (c.slot g s).timer = .init := by
    intro g s hs
    obtain ⟨m, _, hm⟩ := h.slots g s hs
    have hne := hnone g s
    rw [hm] at hne ⊢
    cases m <;> first | exact ⟨rfl, rfl⟩ | exact absurd rfl hne
  have hdue : (UiServer.contextClose conf c).due = c.due := by
    have htotal : Ledger.total allSlots UpstreamConnect.counted
        (UiServer.contextClose conf c).slotAt =
        Ledger.total allSlots UpstreamConnect.counted c.slotAt := by
      refine Ledger.total_congr fun p _ => ?_
      simp only [ConnCtx.slotAt]
      rw [hslot]
      split
      · next hs =>
          obtain ⟨htcp, htimer⟩ := hmode p.1 p.2 hs
          simp only [UpstreamConnect.counted, UpstreamConnect.clean]
          simp only [htcp, htimer, Uv.Stream.handle_close]
          rfl
      · rfl
    simp only [ConnCtx.due]
    rw [htotal, client_contextClose, Uv.Stream.handle_close, h.client]
    rfl
  have hpos : c.due ≠ 0 := by
    rw [ConnCtx.due, h.client]
    show 1 + _ ≠ 0
    omega
  refine ⟨fun g s hs => ?_, fun g s hs => ?_, ?_, ?_, ?_⟩
  · obtain ⟨htcp, htimer⟩ := hmode g s hs
    rw [hslot, if_pos hs]
    rw [UpstreamConnect.clean]
    exact ⟨.inl (by rw [Uv.Stream.handle_close, htcp]; rfl), .inl (by rw [htimer]; rfl)⟩
  · rw [hslot, if_neg hs]
    exact h.outside g s hs
  · rw [client_contextClose, Uv.Stream.handle_close, h.client]
    exact .inl rfl
  · rw [hneed, hdue, h.needClose]
  · rw [hfrees, hdue, if_neg hpos, h.frees]

theorem ClosingBooks.aside (h : ClosingBooks conf c) (ha : Aside c t) :
    ClosingBooks conf t := by
  refine ⟨fun g s hs => ?_, fun g s hs => ?_, ?_, ?_, ?_⟩
  · rw [ha.slot]
    exact h.slots g s hs
  · rw [ha.slot]
    exact h.outside g s hs
  · rw [ha.client]
    exact h.client
  · rw [ha.needClose, ha.due, h.needClose]
  · rw [ha.frees, ha.due, h.frees]

/-- A close callback counts down what the finished handle was counted for. -/
theorem ClosingBooks.countDown (h : ClosingBooks conf c)
    (hslots : ∀ g s, s < conf.width g → (t.slot g s).Cleaning)
    (hout : ∀ g s, ¬ s < conf.width g → (t.slot g s).Unused)
    (hclient : LetGo t.client.handle .contextClean)
    (hneed : t.needClose = c.needClose) (hfrees : t.frees = c.frees)
    (hdue : t.due + 1 = c.due) : ClosingBooks conf (countDown t) := by
  have hn := h.needClose
  have hf := h.frees
  rw [if_neg (by omega)] at hf
  unfold UiServer.countDown
  simp only []
  split
  · next hlt =>
      have hlt' : t.needClose + -1 < 1 := hlt
      have hzero : t.due = 0 := by omega
      refine ⟨hslots, hout, hclient, ?_, ?_⟩
      · show t.needClose + -1 = t.due
        omega
      · show t.frees + 1 = if t.due = 0 then 1 else 0
        rw [if_pos hzero, hfrees, hf]
  · next hge =>
      have hge' : ¬ t.needClose + -1 < 1 := hge
      have hpos : t.due ≠ 0 := by omega
      refine ⟨hslots, hout, hclient, ?_, ?_⟩
      · show t.needClose + -1 = t.due
        omega
      · show t.frees = if t.due = 0 then 1 else 0
        rw [if_neg hpos, hfrees, hf]

theorem ClosingBooks.modSlot_slots (h : ClosingBooks conf c) {g s : Nat}
    {f : UpstreamConnect → UpstreamConnect} (hs : s < conf.width g)
    (hf : (f (c.slot g s)).Cleaning) :
    (∀ g' s', s' < conf.width g' → ((c.modSlot g s f).slot g' s').Cleaning) ∧
      ∀ g' s', ¬ s' < conf.width g' → ((c.modSlot g s f).slot g' s').Unused := by
  constructor
  · intro g' s' hs'
    rw [ConnCtx.slot_modSlot]
    split
    · exact hf
    · exact h.slots g' s' hs'
  · intro g' s' hs'
    rw [ConnCtx.slot_modSlot_ne]
    · exact h.outside g' s' hs'
    · rintro ⟨rfl, rfl⟩
      exact hs' hs

theorem Conf.mem_allSlots {g s : Nat} (h : s < conf.width g) : (g, s) ∈ allSlots :=
  UiServer.mem_allSlots.2 ⟨Nat.lt_of_lt_of_le (Conf.lt_sgNum h) conf.sgNum_le,
    Nat.lt_of_lt_of_le h (conf.width_le g)⟩

theorem due_modSlot {g s : Nat} (f : UpstreamConnect → UpstreamConnect)
    (h : s < conf.width g) :
    (c.modSlot g s f).due + (c.slot g s).counted = c.due + (f (c.slot g s)).counted := by
  have hdue := (onlySlot_modSlot c (g, s) f).due (Conf.mem_allSlots h)
  simp only [ConnCtx.slotAt] at hdue
  rw [ConnCtx.slot_modSlot_same] at hdue
  exact hdue

theorem counted_finishTcp {up : UpstreamConnect}
    (h : up.tcp.handle = ⟨.closing .upstreamTcpClean, 1⟩) :
    ({ up with tcp := up.tcp.finish } : UpstreamConnect).counted + 1 = up.counted := by
  simp only [UpstreamConnect.counted]
  simp only [Uv.Stream.handle_finish, h]
  rfl

theorem counted_finishTimer {up : UpstreamConnect}
    (h : up.timer = ⟨.closing .upstreamTimerClean, 1⟩) :
    ({ up with timer := up.timer.finish } : UpstreamConnect).counted + 1 =
      up.counted := by
  have hlive : up.timer.live.toNat = up.timer.finish.live.toNat + 1 := by rw [h]; rfl
  simp only [UpstreamConnect.counted]
  simp only [hlive]
  omega

/-! ## One step

A connection that is being closed is read no more, so the events that are left are
the close callbacks, the connects that were cancelled, and what the worker and the
writes to the client still do. The callback of another kind of close finds no
handle to run for. -/

theorem ClosingBooks.upstreamConnectCb {g s : Nat} (h : ClosingBooks conf c)
    (hc : (c.slot g s).connect = true) (status : Int) :
    ClosingBooks conf (upstreamConnectCb
      (c.modSlot g s fun up => { up with connect := false }) g s status) := by
  have hm := moves_upstreamConnectCb c (g, s) status
  generalize UiServer.upstreamConnectCb _ g s status = t at hm
  have hs : s < conf.width g := by
    by_contra hs
    rw [(h.outside g s hs).connect] at hc
    cases hc
  have hslot : t.slot g s = (c.slot g s).answered status := hm.slot
  have hdue := hm.only.due (Conf.mem_allSlots hs)
  simp only [ConnCtx.slotAt] at hdue
  simp only [hslot] at hdue
  have hsame : ((c.slot g s).answered status).counted = (c.slot g s).counted := rfl
  have hdue' : t.due = c.due := by omega
  refine ⟨fun g' s' hs' => ?_, fun g' s' hs' => ?_, ?_, ?_, ?_⟩
  · by_cases he : (g', s') = (g, s)
    · cases he
      rw [hslot]
      exact ⟨(h.slots g s hs).tcp, (h.slots g s hs).timer⟩
    · rw [hm.only.slots (g', s') he]
      exact h.slots g' s' hs'
  · have he : (g', s') ≠ (g, s) := fun he => by
      cases he
      exact hs' hs
    rw [hm.only.slots (g', s') he]
    exact h.outside g' s' hs'
  · rw [hm.only.client]
    exact h.client
  · rw [hm.needClose, hdue', h.needClose, Int.add_zero]
  · rw [hm.frees, hdue', h.frees]

theorem ClosingBooks.lt_width {g s : Nat} {cb : CloseCb} (h : ClosingBooks conf c)
    (hp : (c.slot g s).tcp.handle.phase = .closing cb ∨
      (c.slot g s).timer.phase = .closing cb) : s < conf.width g := by
  by_contra hs
  rw [(h.outside g s hs).tcp, (h.outside g s hs).timer] at hp
  rcases hp with hp | hp <;> cases hp

theorem ClosingBooks.tcpClosed {g s : Nat} {cb : CloseCb} (h : ClosingBooks conf c)
    (hp : (c.slot g s).tcp.handle.phase = .closing cb) (rv : Int) :
    ClosingBooks conf (runCloseCb
      (c.modSlot g s fun up => { up with tcp := up.tcp.finish }) g s rv cb) := by
  have hs := h.lt_width (.inl hp)
  have hclean := h.slots g s hs
  obtain ⟨rfl, hhandle⟩ := hclean.tcp.phase hp
  have hdue := due_modSlot (c := c) (fun up => { up with tcp := up.tcp.finish }) hs
  have hcount := counted_finishTcp hhandle
  obtain ⟨hslots, hout⟩ := h.modSlot_slots hs
    (f := fun up => { up with tcp := up.tcp.finish })
    ⟨hclean.tcp.finish, hclean.timer⟩
  exact h.countDown hslots hout h.client rfl rfl (by omega)

theorem ClosingBooks.timerClosed {g s : Nat} {cb : CloseCb} (h : ClosingBooks conf c)
    (hp : (c.slot g s).timer.phase = .closing cb) (rv : Int) :
    ClosingBooks conf (runCloseCb
      (c.modSlot g s fun up => { up with timer := up.timer.finish }) g s rv cb) := by
  have hs := h.lt_width (.inr hp)
  have hclean := h.slots g s hs
  obtain ⟨rfl, hhandle⟩ := hclean.timer.phase hp
  have hdue := due_modSlot (c := c) (fun up => { up with timer := up.timer.finish }) hs
  have hcount := counted_finishTimer hhandle
  obtain ⟨hslots, hout⟩ := h.modSlot_slots hs
    (f := fun up => { up with timer := up.timer.finish })
    ⟨hclean.tcp, hclean.timer.finish⟩
  exact h.countDown hslots hout h.client rfl rfl (by omega)

theorem ClosingBooks.clientClosed {cb : CloseCb} (h : ClosingBooks conf c)
    (hp : c.client.handle.phase = .closing cb) :
    ClosingBooks conf (contextCleanCb { c with client := c.client.finish }) := by
  have hhandle := (h.client.phase hp).2
  have hdue : ({ c with client := c.client.finish } : ConnCtx).due + 1 = c.due := by
    have hlive : c.client.handle.live.toNat = 1 := by rw [hhandle]; rfl
    have hslots : ({ c with client := c.client.finish } : ConnCtx).slotAt = c.slotAt := rfl
    simp only [ConnCtx.due]
    rw [hlive, hslots, Uv.Stream.handle_finish, Uv.Handle.live_finish]
    simp only [Bool.toNat_false]
    omega
  exact h.countDown h.slots h.outside h.client.finish rfl rfl hdue

theorem ClosingBooks.slot_not_open (h : ClosingBooks conf c) (g s : Nat) :
    (c.slot g s).tcp.handle.isOpen = false := by
  by_cases hs : s < conf.width g
  · exact (h.slots g s hs).tcp.not_open
  · rw [(h.outside g s hs).tcp]
    rfl

theorem ClosingBooks.client_not_open (h : ClosingBooks conf c) :
    ¬ c.client.handle.isOpen = true := by
  rw [h.client.not_open]
  exact Bool.false_ne_true

theorem ClosingBooks.tcp_not_open (h : ClosingBooks conf c) (g s : Nat) :
    ¬ (c.slot g s).tcp.handle.isOpen = true := by
  rw [h.slot_not_open g s]
  exact Bool.false_ne_true

theorem ClosingBooks.step {e : Event} (h : ClosingBooks conf c)
    (ho : Orderly conf errs c e) (hs : step conf c e = some t) : ClosingBooks conf t := by
  have hclient := h.client_not_open
  have hslot : ∀ {g s : Nat}, ¬ (c.slot g s).tcp.handle.isOpen = true := h.tcp_not_open _ _
  cases callback_of_step hs with
  | readFailed hopen => exact absurd hopen hclient
  | taken hopen => exact absurd hopen hclient
  | refused hopen => exact absurd hopen hclient
  | distributed _ hwait => exact absurd (ho.resolve_left hwait).1 hclient
  | unserved _ hwait => exact absurd (ho.resolve_left hwait).1 hclient
  | replyFailed hopen => exact absurd hopen hslot
  | reply hopen => exact absurd hopen hslot
  | @written g s status _ hanswer =>
      -- only a write that was cancelled is answered now
      obtain rfl := ho.resolve_right fun hlost => hclient hlost.2
      rcases Bool.or_eq_true_iff.1 hanswer with hopen | hne
      · exact absurd hopen hslot
      · exact absurd rfl (of_decide_eq_true hne)
  | readAgain => exact h
  | replyAgain => exact h
  | waits => exact h.aside ⟨rfl, rfl, rfl, rfl⟩
  | @connected g s status hc => exact h.upstreamConnectCb hc status
  | @tcpClosed g s rv cb hph => exact h.tcpClosed hph rv
  | timerClosed hph => exact h.timerClosed hph 0
  | clientClosed hph => exact h.clientClosed hph
  | handled => exact h.aside (aside_handled conf c)
  | @responded status => exact h.aside (aside_responded c status)
  | responseSent => exact h.aside ⟨rfl, rfl, rfl, rfl⟩

end

end UiServer
