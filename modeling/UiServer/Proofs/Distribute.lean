import UiServer.Proofs.Serving

/-!
# What distributing a request leaves

`distribute_request` goes through the groups and writes the request to one
idle slot of each, when it finds one and the write is not refused. Between two
requests no slot is busy (`Quiet`), so afterwards exactly the slots it wrote to
are, which is where `WrittenTo` starts from (`distributeRequest_writtenTo`).
-/

namespace UiServer

/-! ## The slots a request is written to

The loop over the groups is followed with the set of the slots that were written
to so far, at most one of each group that was passed. A group adds its slot, adds
none, or loses one whose write is refused; the slots of the other groups do not
hear of it. -/

/-- A context between two requests: the counts are at their start, and no slot
is busy with a request. -/
structure Quiet (c : ConnCtx) : Prop where
  distributeCount : c.gs.distributeCount = 0
  responseCount : c.gs.responseCount = 0
  needMerge : c.request.web.needMerge ≠ 0
  writing : ∀ p, ¬ Writing c p
  awaiting : ∀ p, ¬ Awaiting c p
  isOpen : ∀ g s, (c.slot g s).status = .idle →
    (c.slot g s).tcp.handle.isOpen = true

theorem Quiet.writtenTo {c : ConnCtx} (h : Quiet c) : WrittenTo ∅ c where
  distributeCount := h.distributeCount
  responseCount := h.responseCount
  needMerge := h.needMerge
  writing := fun p => ⟨fun hp => absurd hp (h.writing p), fun hp => nomatch hp⟩
  awaiting := h.awaiting
  isOpen := fun _ hp => nomatch hp

theorem WrittenTo.insert {S : Finset Slot} {c : ConnCtx} {p : Slot}
    (h : WrittenTo S c) (ho : (c.slot p.1 p.2).tcp.handle.isOpen = true) :
    WrittenTo (Insert.insert p S) (c.modSlot p.1 p.2 .sendRequest) := by
  have honly := onlySlot_modSlot c p .sendRequest
  have hslot := ConnCtx.slot_modSlot_same c p.1 p.2 .sendRequest
  refine ⟨h.distributeCount, h.responseCount, h.needMerge, fun q => ?_, fun q => ?_,
    fun q hq => ?_⟩
  · rw [Finset.mem_insert]
    by_cases hq : q = p
    · subst hq
      rw [Writing, hslot]
      exact ⟨fun _ => .inl rfl, fun _ => rfl⟩
    · rw [honly.writing hq, h.writing q, or_iff_right hq]
  · by_cases hq : q = p
    · subst hq
      rw [Awaiting, hslot]
      exact h.awaiting q
    · rw [honly.awaiting hq]
      exact h.awaiting q
  · by_cases hqp : q = p
    · subst hqp
      rw [hslot]
      exact ho
    · rw [honly.slots q hqp]
      exact h.isOpen q ((Finset.mem_insert.1 hq).resolve_left hqp)

/-- The slots written to do not hear of what becomes of another one. -/
theorem WrittenTo.other {S : Finset Slot} {c t : ConnCtx} {p : Slot}
    (h : WrittenTo S c) (hp : p ∉ S) (honly : OnlySlot p c t) (hset : Settled t p)
    (hdc : t.gs.distributeCount = c.gs.distributeCount)
    (hrc : t.gs.responseCount = c.gs.responseCount) : WrittenTo S t := by
  refine ⟨hdc.trans h.distributeCount, hrc.trans h.responseCount,
    honly.request ▸ h.needMerge, fun q => ?_, fun q => ?_, fun q hq => ?_⟩
  · by_cases hqp : q = p
    · subst hqp
      exact ⟨fun hw => absurd hw hset.1, fun hq => absurd hq hp⟩
    · rw [honly.writing hqp, h.writing q]
  · by_cases hqp : q = p
    · exact hqp ▸ hset.2
    · rw [honly.awaiting hqp]
      exact h.awaiting q
  · have hqp : q ≠ p := fun he => hp (he ▸ hq)
    rw [honly.slots q hqp]
    exact h.isOpen q hq

theorem WrittenTo.refused {S : Finset Slot} {c d : ConnCtx} {p : Slot}
    (h : WrittenTo S c) (hp : p ∉ S) (hd : d = c.setStatus p.1 p.2 .connectFail) :
    WrittenTo S (upstreamServerErr d p.1 p.2) ∧
      OnlySlot p c (upstreamServerErr d p.1 p.2) := by
  have hmod : OnlySlot p c d := hd ▸ onlySlot_modSlot c p _
  have honly := hmod.trans (onlySlot_upstreamServerErr d p)
  have hnw : ¬ Writing d p := by
    rw [Writing, hd, ConnCtx.setStatus, ConnCtx.slot_modSlot_same]
    exact fun hw => hp ((h.writing p).1 hw)
  have hdc : d.gs.distributeCount = c.gs.distributeCount := by rw [hd]; rfl
  have hrc : d.gs.responseCount = c.gs.responseCount := by rw [hd]; rfl
  have hset := settled_upstreamServerErr hnw
  rw [← distributeCount_upstreamServerErr d p.1 p.2] at hdc
  rw [← responseCount_upstreamServerErr d p.1 p.2] at hrc
  exact ⟨h.other hp honly hset hdc hrc, honly⟩

theorem WrittenTo.setLru {S : Finset Slot} {c : ConnCtx} (h : WrittenTo S c)
    (g i : Nat) : WrittenTo S (c.setLru g i) := by
  have hslot := ConnCtx.slot_setLru c g i
  refine ⟨h.distributeCount, h.responseCount, h.needMerge, fun p => ?_, fun p => ?_,
    fun p hp => ?_⟩
  · rw [Writing, hslot]
    exact h.writing p
  · rw [Awaiting, hslot]
    exact h.awaiting p
  · rw [hslot]
    exact h.isOpen p hp

/-- One group is served by one of its slots, or not at all. -/
theorem WrittenTo.group {S : Finset Slot} {c t : ConnCtx} {g : Nat} {rv r : Int}
    (h : WrittenTo S c) (hS : ∀ p ∈ S, p.1 ≠ g)
    (hidle : ∀ s, (c.slot g s).status = .idle →
      (c.slot g s).tcp.handle.isOpen = true)
    (ht : distributeRequestGroup c g rv = (t, r)) :
    (r = 0 → ∃ i, WrittenTo (Insert.insert (g, i) S) t) ∧
      (r ≠ 0 → WrittenTo S t) ∧
      ∀ g' s', g' ≠ g → t.slot g' s' = c.slot g' s' := by
  rw [distributeRequestGroup] at ht
  split at ht
  · next i hi =>
      have hlru := h.setLru g i
      have hslot := ConnCtx.slot_setLru c g i
      have ho : ((c.setLru g i).slot g i).tcp.handle.isOpen = true := by
        rw [hslot]
        exact hidle i (findIdle_status hi)
      by_cases hrv : rv = 0
      · subst hrv
        rw [distributeRequestUpstream_ok ho] at ht
        cases ht
        refine ⟨fun _ => ⟨i, hlru.insert ho⟩, fun h => absurd rfl h,
          fun g' s' hg => ?_⟩
        rw [ConnCtx.slot_modSlot_ne fun h => hg h.1, hslot]
      · rw [distributeRequestUpstream_err ho hrv] at ht
        cases ht
        have hnew : (g, i) ∉ S := fun hmem => hS _ hmem rfl
        obtain ⟨hw, honly⟩ := hlru.refused (p := (g, i)) hnew rfl
        refine ⟨fun h => absurd h hrv, fun _ => hw, fun g' s' hg => ?_⟩
        have hother := honly.slots (g', s') fun he => hg (congrArg Prod.fst he)
        rw [hslot] at hother
        exact hother
  · cases ht
    exact ⟨fun h => absurd h (by decide), fun _ => h, fun _ _ _ => rfl⟩

theorem distributeRequestGroups_writtenTo {c : ConnCtx} (h : Quiet c)
    (rvs : Nat → Int) : ∀ (n : Nat) {t : ConnCtx} {k : Nat},
    distributeRequestGroups c rvs n = (t, k) →
      (∃ S : Finset Slot, WrittenTo S t ∧ S.card = k ∧ (∀ p ∈ S, p.1 < n) ∧
        Set.InjOn Prod.fst (S : Set Slot)) ∧
      ∀ g s, n ≤ g → t.slot g s = c.slot g s := by
  intro n
  induction n with
  | zero =>
      intro t k ht
      cases ht
      have hnone : ∀ p ∈ (∅ : Finset Slot), p.1 < 0 := fun p hp =>
        absurd hp (Finset.notMem_empty p)
      refine ⟨⟨∅, h.writtenTo, rfl, hnone, ?_⟩, fun _ _ _ => rfl⟩
      rw [Finset.coe_empty]
      exact Set.injOn_empty _
  | succ n ih =>
      intro t k ht
      obtain ⟨⟨S, hw, hcard, hlt, hinj⟩, hframe⟩ :=
        ih (t := (distributeRequestGroups c rvs n).1) rfl
      have hne : ∀ p ∈ S, p.1 ≠ n := fun p hp => Nat.ne_of_lt (hlt p hp)
      have hidle : ∀ s, ((distributeRequestGroups c rvs n).1.slot n s).status = .idle →
          ((distributeRequestGroups c rvs n).1.slot n s).tcp.handle.isOpen = true := by
        intro s hs
        rw [hframe n s (Nat.le_refl n)] at hs ⊢
        exact h.isOpen n s hs
      simp only [distributeRequestGroups, Prod.mk.injEq] at ht
      obtain ⟨hgt, rfl⟩ := ht
      have ht : distributeRequestGroup (distributeRequestGroups c rvs n).1 n (rvs n) =
          (t, _) := Prod.ext hgt rfl
      obtain ⟨hserved, hfailed, hrest⟩ := hw.group hne hidle ht
      refine ⟨?_, fun g s hg => ?_⟩
      · split
        · next hr =>
            obtain ⟨i, hi⟩ := hserved hr
            have hnew : (n, i) ∉ S := fun hmem => hne _ hmem rfl
            refine ⟨Insert.insert (n, i) S, hi, ?_, fun p hp => ?_, ?_⟩
            · rw [Finset.card_insert_of_notMem hnew, hcard]
            · rcases Finset.mem_insert.1 hp with rfl | hp
              · exact Nat.lt_succ_self n
              · exact Nat.lt_succ_of_lt (hlt p hp)
            · rw [Finset.coe_insert, Set.injOn_insert hnew]
              refine ⟨hinj, ?_⟩
              rintro ⟨p, hp, he⟩
              exact hne p hp he
        · next hr =>
            exact ⟨S, hfailed hr, hcard, fun p hp => Nat.lt_succ_of_lt (hlt p hp),
              hinj⟩
      · rw [hrest g s (by omega), hframe g s (by omega)]

/-- Between two requests `distribute_request` writes the request to as many
slots as it says, one for each group. -/
theorem distributeRequest_writtenTo {conf : Conf} {c t : ConnCtx} {rvs : Nat → Int}
    {k : Nat} (h : Quiet c) (ht : distributeRequest conf c rvs = (t, k)) :
    ∃ S : Finset Slot, WrittenTo S t ∧ S.card = k ∧
      Set.InjOn Prod.fst (S : Set Slot) := by
  obtain ⟨⟨S, hw, hcard, _, hinj⟩, _⟩ :=
    distributeRequestGroups_writtenTo h rvs conf.sgNum ht
  exact ⟨S, hw, hcard, hinj⟩

/-! ## Two groups

The smallest server on which the order of the answers can go wrong, with its
request written to both of its servers. The fixed runs of the next modules start
from here. -/

theorem twoGroupsServed_run :
    Lts.run (step twoGroups) (onNewConnection twoGroups .zeroed (fun _ _ => 0) 0)
      twoGroupsEvents = some twoGroupsServed := by
  have hsome : (Lts.run (step twoGroups)
      (onNewConnection twoGroups .zeroed (fun _ _ => 0) 0) twoGroupsEvents).isSome := by
    decide +kernel
  obtain ⟨c, hc⟩ := Option.isSome_iff_exists.1 hsome
  rw [twoGroupsServed, hc]
  rfl

def bothSlots : Finset Slot := {(0, 0), (1, 0)}

set_option maxRecDepth 10000 in
theorem twoGroupsServed_writtenTo : WrittenTo bothSlots twoGroupsServed := by
  refine ⟨rfl, rfl, by decide +kernel, ?_, ?_, by decide +kernel⟩
  · rintro ⟨g, s⟩
    match g, s with
    | 0, 0 => exact ⟨fun _ => by decide, fun _ => rfl⟩
    | 1, 0 => exact ⟨fun _ => by decide, fun _ => rfl⟩
    | 0, s + 1 => exact ⟨fun h => Bool.noConfusion h, fun h => by simp [bothSlots] at h⟩
    | 1, s + 1 => exact ⟨fun h => Bool.noConfusion h, fun h => by simp [bothSlots] at h⟩
    | g + 2, s => exact ⟨fun h => Bool.noConfusion h, fun h => by simp [bothSlots] at h⟩
  · rintro ⟨g, s⟩
    match g, s with
    | 0, 0 => exact Bool.false_ne_true
    | 1, 0 => exact Bool.false_ne_true
    | 0, s + 1 => exact Bool.false_ne_true
    | 1, s + 1 => exact Bool.false_ne_true
    | g + 2, s => exact Bool.false_ne_true

end UiServer
