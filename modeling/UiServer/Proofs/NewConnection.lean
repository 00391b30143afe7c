import UiServer.Proofs.Books

/-!
# The books of a new connection

`on_new_connection` goes through the groups and their servers and connects to
each. The books are right after every call of `upstream_connect_group_server`,
with a width that has grown by one server.
-/

namespace UiServer

/-- The modes of a slot right after `upstream_connect_group_server`. -/
def SlotMode.Fresh (m : SlotMode) : Prop := m = .connecting ∨ m = .waiting

section

variable {conf : Conf} {ok : SlotMode → Prop} {n : Nat} {width width' : Nat → Nat}
  {c : ConnCtx} {g s : Nat}

theorem Books.openGroup (h : Books conf ok n width c) (hn : n < maxGroupNum)
    (hw : width n = 0) :
    Books conf ok (n + 1) width (c.modGroup n fun group =>
      { group with realNum := conf.srvNum n, sockNum := 0, connecting := 0, lru := 0 }) := by
  generalize hf : (fun group : GroupServerSock =>
    { group with realNum := conf.srvNum n, sockNum := 0, connecting := 0, lru := 0 }) = f
  have hslot : (c.modGroup n f).slot = c.slot := by
    funext g'
    refine ConnCtx.modGroup_frame (·.upstream) ?_
    rw [← hf]
  have hother : ∀ g', g' < n → (c.modGroup n f).group g' = c.group g' := fun g' hg' =>
    ConnCtx.group_modGroup_ne (Nat.ne_of_lt hg')
  have hsame : (c.modGroup n f).group n = f (c.group n) := by
    rw [ConnCtx.group_modGroup, if_pos rfl]
  have hrow : ∀ w g' k, (c.modGroup n f).row w g' k = c.row w g' k := by
    intro w g' k
    simp only [ConnCtx.row]
    rw [hslot]
  have hempty : ∀ w, c.row w n (width n) = 0 := by
    intro w
    rw [hw]
    rfl
  refine ⟨h.width_le, fun g' s' hs' => Nat.lt_succ_of_lt (h.width_lt g' s' hs'), hn,
    fun g' s' hs' => ?_, fun g' s' hs' => ?_, fun g' hg' => ?_, fun g' hg' => ?_,
    fun g' hg' => ?_, ?_, h.client, h.frees⟩
  · rw [hslot]
    exact h.slots g' s' hs'
  · rw [hslot]
    exact h.outside g' s' hs'
  · rcases Nat.lt_succ_iff_lt_or_eq.1 hg' with hlt | rfl
    · rw [hother g' hlt, h.realNum g' hlt]
    · rw [hsame, ← hf]
  · rw [hrow]
    rcases Nat.lt_succ_iff_lt_or_eq.1 hg' with hlt | rfl
    · rw [hother g' hlt, h.sockNum g' hlt]
    · rw [hsame, hempty, ← hf]
      rfl
  · rw [hrow]
    rcases Nat.lt_succ_iff_lt_or_eq.1 hg' with hlt | rfl
    · rw [hother g' hlt, h.connecting g' hlt]
    · rw [hsame, hempty, ← hf]
      rfl
  · have hdue : (c.modGroup n f).due = c.due := by
      unfold ConnCtx.due ConnCtx.slotAt
      rw [hslot]
      rfl
    rw [hdue]
    exact h.needClose

theorem Books.connect (h : Books conf ok n width c)
    (hok : ∀ m : SlotMode, m.Fresh → ok m) (hg : g < n)
    (hs : width g = s) (hlt : s < groupMaxServerNum) (hw : width' g = s + 1)
    (hw' : ∀ g', g' ≠ g → width' g' = width g') (rv : Int) :
    Books conf ok n width' (upstreamConnectGroupServer c g s rv) := by
  have hm := moves_upstreamConnectGroupServer c (g, s) rv
  generalize upstreamConnectGroupServer c g s rv = t at hm
  have hunused := h.outside g s (by omega)
  have hout : ∀ g' s', ¬ s' < width' g' → (g', s') ≠ (g, s) ∧ ¬ s' < width g' := by
    intro g' s' hs'
    by_cases he : g' = g
    · subst he
      exact ⟨fun hp => by cases hp; omega, by omega⟩
    · rw [hw' g' he] at hs'
      exact ⟨fun hp => he (congrArg Prod.fst hp), hs'⟩
  obtain ⟨m, hmode, hslot, hpend⟩ : ∃ m : SlotMode, m.Fresh ∧
      t.slot g s = m.upstream g s ∧
      ((m.upstream g s).pending : Int) = if rv = 0 then 1 else 0 := by
    by_cases hrv : rv = 0
    · subst hrv
      refine ⟨.connecting, .inl rfl, ?_, rfl⟩
      rw [hm.slot]
      rw [UpstreamConnect.connectTo, hunused.write]
      rfl
    · refine ⟨.waiting, .inr rfl, ?_, by rw [if_neg hrv]; rfl⟩
      rw [hm.slot]
      rw [UpstreamConnect.connectTo, hunused.write, hunused.connect]
      simp only [if_neg hrv]
      rfl
  have hcount : (m.upstream g s).counted = 2 := by
    rcases hmode with rfl | rfl <;> rfl
  have hconn : (m.upstream g s).connected = 0 := by
    have hstat := congrArg UpstreamConnect.status (hslot.symm.trans hm.slot)
    rw [UpstreamConnect.connectTo] at hstat
    rw [UpstreamConnect.connected, hstat]
    split <;> rfl
  have hmem : (g, s) ∈ allSlots :=
    UiServer.mem_allSlots.2 ⟨Nat.lt_of_lt_of_le hg h.n_le, hlt⟩
  have hdue := hm.only.due hmem
  simp only [ConnCtx.slotAt] at hdue
  simp only [hslot, hcount, hunused.counted] at hdue
  have hrow : ∀ w, t.row w g (s + 1) = c.row w g s + w (m.upstream g s) := by
    intro w
    have hsame : Ledger.total (Finset.range s) w (t.slot g) =
        Ledger.total (Finset.range s) w (c.slot g) :=
      Ledger.total_congr fun s' hs' => congrArg w (hm.only.slots (g, s') fun hp => by
        cases hp
        exact Nat.lt_irrefl _ (Finset.mem_range.1 hs'))
    simp only [ConnCtx.row]
    rw [Ledger.total_range_succ, hsame, hslot]
  refine ⟨fun g' => ?_, fun g' s' hs' => ?_, h.n_le, fun g' s' hs' => ?_,
    fun g' s' hs' => ?_, fun g' hg' => ?_, fun g' hg' => ?_, fun g' hg' => ?_, ?_, ?_, ?_⟩
  · by_cases he : g' = g
    · rw [he, hw]
      exact hlt
    · rw [hw' g' he]
      exact h.width_le g'
  · by_cases he : g' = g
    · rw [he]
      exact hg
    · rw [hw' g' he] at hs'
      exact h.width_lt g' s' hs'
  · by_cases he : (g', s') = (g, s)
    · cases he
      exact ⟨m, hok m hmode, hslot⟩
    · rw [hm.only.slots (g', s') he]
      refine h.slots g' s' ?_
      by_cases hge : g' = g
      · subst hge
        have hne : s' ≠ s := fun hse => he (by rw [hse])
        omega
      · rw [hw' g' hge] at hs'
        exact hs'
  · obtain ⟨hne, hs''⟩ := hout g' s' hs'
    rw [hm.only.slots (g', s') hne]
    exact h.outside g' s' hs''
  · rw [hm.realNum, h.realNum g' hg']
  · rw [hm.sockNum, h.sockNum g' hg']
    by_cases he : g' = g
    · subst he
      rw [hw, hrow, hconn, hs, if_pos rfl]
      omega
    · rw [hw' g' he, hm.only.row_ne _ he, if_neg he, Int.add_zero]
  · rw [hm.connecting, h.connecting g' hg']
    by_cases he : g' = g
    · subst he
      rw [hw, hrow, hs, if_pos rfl]
      push_cast
      rw [hpend]
    · rw [hw' g' he, hm.only.row_ne _ he, if_neg he, Int.add_zero]
  · rw [hm.needClose, h.needClose]
    omega
  · rw [hm.only.client, h.client]
  · rw [hm.frees, h.frees]

/-- The width while group `n` is connected, `k` servers of it so far. -/
def partWidth (conf : Conf) (n k g : Nat) : Nat :=
  if g < n then conf.servers g else if g = n then k else 0

theorem partWidth_self (conf : Conf) (n k : Nat) : partWidth conf n k n = k := by
  rw [partWidth, if_neg (Nat.lt_irrefl n), if_pos rfl]

theorem partWidth_ne (conf : Conf) {n k k' g : Nat} (h : g ≠ n) :
    partWidth conf n k g = partWidth conf n k' g := by
  simp only [partWidth]
  rw [if_neg h, if_neg h]

theorem Books.upstreamConnectServers
    (h : Books conf SlotMode.Fresh (n + 1) (partWidth conf n 0) c) (rvs : Nat → Int) :
    ∀ {k : Nat}, k ≤ conf.servers n →
      Books conf SlotMode.Fresh (n + 1) (partWidth conf n k)
        (upstreamConnectServers c n rvs k) := by
  intro k
  induction k with
  | zero => intro _; exact h
  | succ k ih =>
      intro hk
      have hlt : k < groupMaxServerNum := Nat.lt_of_lt_of_le hk (conf.servers_le n)
      exact (ih (Nat.le_of_succ_le hk)).connect (fun _ => id) (Nat.lt_succ_self n)
        (partWidth_self conf n k) hlt (partWidth_self conf n (k + 1))
        (fun g' hg' => partWidth_ne conf hg') (rvs k)

theorem Books.upstreamConnectGroups
    (h : Books conf SlotMode.Fresh 0 (partWidth conf 0 0) c) (rvs : Nat → Nat → Int) :
    ∀ {n : Nat}, n ≤ conf.sgNum →
    Books conf SlotMode.Fresh n (partWidth conf n 0) (upstreamConnectGroups conf c rvs n) := by
  intro n
  induction n with
  | zero => intro _; exact h
  | succ n ih =>
      intro hn
      have hlt : n < maxGroupNum := Nat.lt_of_lt_of_le hn conf.sgNum_le
      have hopen := (ih (Nat.le_of_succ_le hn)).openGroup hlt (partWidth_self conf n 0)
      have hreal := hopen.realNum n (Nat.lt_succ_self n)
      have hall := hopen.upstreamConnectServers (rvs n) (Nat.le_refl _)
      have hwidth : partWidth conf n (conf.servers n) = partWidth conf (n + 1) 0 := by
        funext g'
        simp only [partWidth]
        by_cases hlt' : g' < n
        · rw [if_pos hlt', if_pos (Nat.lt_succ_of_lt hlt')]
        · by_cases he : g' = n
          · rw [if_neg hlt', if_pos he, if_pos (by omega), he]
          · rw [if_neg hlt', if_neg he, if_neg (by omega)]
            split <;> rfl
      rw [hwidth] at hall
      rw [UiServer.upstreamConnectGroups, upstreamConnectGroup]
      simp only [hreal]
      exact hall

end

theorem books_allocConnContext (conf : Conf) (m : ConnCtx) :
    Books conf SlotMode.Fresh 0 (partWidth conf 0 0)
      ({ allocConnContext m with idler := {}, client := .init }.addNeedClose 1) := by
  have hzero : ∀ g, partWidth conf 0 0 g = 0 := by
    intro g
    rw [partWidth, if_neg (Nat.not_lt_zero g)]
    split <;> rfl
  have hunused : ∀ g s, ((({ allocConnContext m with
      idler := {}, client := .init } : ConnCtx).addNeedClose 1).slot g s).Unused :=
    fun g s => ⟨rfl, rfl, rfl, rfl⟩
  refine ⟨fun g => ?_, fun g s hs => ?_, Nat.zero_le _, fun g s hs => ?_,
    fun g s _ => hunused g s, fun g hg => absurd hg (Nat.not_lt_zero g),
    fun g hg => absurd hg (Nat.not_lt_zero g), fun g hg => absurd hg (Nat.not_lt_zero g),
    ?_, rfl, rfl⟩
  · rw [hzero]
    exact Nat.zero_le _
  · rw [hzero] at hs
    exact absurd hs (Nat.not_lt_zero s)
  · rw [hzero] at hs
    exact absurd hs (Nat.not_lt_zero s)
  · have hnone : ∀ p ∈ allSlots, ((({ allocConnContext m with
        idler := {}, client := .init } : ConnCtx).addNeedClose 1).slotAt p).counted = 0 :=
      fun p _ => (hunused p.1 p.2).counted
    rw [ConnCtx.due, Ledger.total_of_zero hnone]
    rfl

/-- The books of a connection whose upstreams were all connected to. -/
theorem books_upstreamConnectAll (conf : Conf) (m : ConnCtx)
    (rvs : Nat → Nat → Int) :
    Books conf SlotMode.Fresh conf.sgNum conf.width (upstreamConnectAll conf
      ({ allocConnContext m with idler := {}, client := .init }.addNeedClose 1) rvs) := by
  have hall := (books_allocConnContext conf m).upstreamConnectGroups rvs
    (Nat.le_refl conf.sgNum)
  have hwidth : partWidth conf conf.sgNum 0 = conf.width := by
    funext g
    rw [partWidth, Conf.width]
    split
    · rfl
    · split <;> rfl
  rw [hwidth] at hall
  exact hall

end UiServer
