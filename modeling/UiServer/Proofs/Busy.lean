import UiServer.Proofs.Books

/-!
# Which slots are busy

A slot is busy from the write of a request to the read of its reply. Only
distributing a request makes a slot busy: every other callback keeps the flags
of the slots or clears them (`FlagKept`), in whatever state the connection is.
-/

namespace UiServer

/-- The slot is being written to, or its reply is awaited. -/
def UpstreamConnect.busy (up : UpstreamConnect) : Bool := up.write || up.tcp.reading

def FlagKept (flag : UpstreamConnect → Bool) (c t : ConnCtx) : Prop :=
  ∀ g s, flag (t.slot g s) = true → flag (c.slot g s) = true

section

variable {flag : UpstreamConnect → Bool} {c d t : ConnCtx} {g s : Nat}

theorem FlagKept.refl (c : ConnCtx) : FlagKept flag c c := fun _ _ h => h

theorem FlagKept.trans (h : FlagKept flag c d) (h' : FlagKept flag d t) :
    FlagKept flag c t := fun g s ht => h g s (h' g s ht)

theorem flagKept_of_slot (h : t.slot = c.slot) : FlagKept flag c t := fun g s ht => by
  rwa [h] at ht

theorem flagKept_of_onlySlot {p : Slot} (h : OnlySlot p c t)
    (hp : flag (t.slot p.1 p.2) = true → flag (c.slot p.1 p.2) = true) :
    FlagKept flag c t := by
  intro g s ht
  by_cases he : (g, s) = p
  · subst he
    exact hp ht
  · rwa [h.slots (g, s) he] at ht

theorem flagKept_modSlot {f : UpstreamConnect → UpstreamConnect}
    (h : flag (f (c.slot g s)) = true → flag (c.slot g s) = true) :
    FlagKept flag c (c.modSlot g s f) := by
  refine flagKept_of_onlySlot (onlySlot_modSlot c (g, s) f) fun ht => h ?_
  rwa [ConnCtx.slot_modSlot_same] at ht

theorem flagKept_upstreamServerErr (g s : Nat)
    (h : flag (c.slot g s).fail = true → flag (c.slot g s) = true) :
    FlagKept flag c (upstreamServerErr c g s) := by
  refine flagKept_of_onlySlot (onlySlot_upstreamServerErr c (g, s)) fun ht => h ?_
  rwa [slot_upstreamServerErr_same] at ht

theorem Moves.flagKept {p : Slot} {f : UpstreamConnect → UpstreamConnect}
    {dn ds dc : Int} (h : Moves p f dn ds dc c t)
    (hf : flag (f (c.slot p.1 p.2)) = true → flag (c.slot p.1 p.2) = true) :
    FlagKept flag c t := by
  refine flagKept_of_onlySlot h.only fun ht => hf ?_
  rwa [h.slot] at ht

theorem busy_fail (up : UpstreamConnect) (h : up.fail.busy = true) : up.busy = true :=
  Bool.or_eq_true_iff.2 (.inl ((Bool.or_eq_true_iff.1 h).resolve_right Bool.false_ne_true))

theorem busy_runCloseCb (c : ConnCtx) (g s : Nat) (rv : Int) (cb : CloseCb) :
    FlagKept UpstreamConnect.busy c (runCloseCb c g s rv cb) := by
  have hdown : FlagKept UpstreamConnect.busy c (countDown c) := by
    simp only [countDown]
    split
    · exact flagKept_of_slot rfl
    · exact flagKept_of_slot rfl
  cases cb with
  | upstreamTcpClean => exact hdown
  | upstreamTimerClean => exact hdown
  | contextClean => exact hdown
  | upstreamReconnectTcp =>
      have hcount : FlagKept UpstreamConnect.busy c (c.addNeedClose (-1)) :=
        flagKept_of_slot rfl
      refine hcount.trans ((moves_upstreamConnectGroupServer _
        ((c.slot g s).groupIdx, (c.slot g s).serverIdx) rv).flagKept fun h => ?_)
      exact Bool.or_eq_true_iff.2
        (.inl ((Bool.or_eq_true_iff.1 h).resolve_right Bool.false_ne_true))

theorem busy_upstreamConnectCb (c : ConnCtx) (g s : Nat) (status : Int) :
    FlagKept UpstreamConnect.busy c (upstreamConnectCb
      (c.modSlot g s fun up => { up with connect := false }) g s status) :=
  (moves_upstreamConnectCb c (g, s) status).flagKept id

theorem onlySlot_distributeUpstreamCb (c : ConnCtx) (g s : Nat) (status : Int) :
    OnlySlot (g, s) c (distributeUpstreamCb
      (c.modSlot g s fun up => { up with write := false }) g s status) := by
  have hbegin := onlySlot_modSlot c (g, s) fun up => { up with write := false }
  by_cases hst : status = 0
  · subst hst
    rw [distributeUpstreamCb_ok]
    have hread := onlySlot_modSlot ((c.modSlot g s fun up =>
      { up with write := false }).addDistributeCount 1) (g, s)
      fun up => { up with tcp := up.tcp.readStart }
    exact hbegin.trans ⟨hread.slots, rfl, rfl⟩
  · rw [distributeUpstreamCb_err hst]
    exact hbegin.trans (onlySlot_upstreamServerErr _ (g, s))

/-- The answer to a write makes no other slot busy. -/
theorem busy_distributeUpstreamCb (h : (c.slot g s).write = true) (status : Int) :
    FlagKept UpstreamConnect.busy c (distributeUpstreamCb
      (c.modSlot g s fun up => { up with write := false }) g s status) :=
  flagKept_of_onlySlot (onlySlot_distributeUpstreamCb c g s status) fun _ =>
    Bool.or_eq_true_iff.2 (.inl h)

/-- Distributing a request raises no flag that neither the new status nor the
write raises. -/
theorem flagKept_distributeRequest (conf : Conf) (c : ConnCtx) (rvs : Nat → Int)
    (hwork : ∀ up, flag { up with status := .work } = true → flag up = true)
    (hwrite : ∀ up, flag { up with write := true } = true → flag up = true)
    (hfail : ∀ up : UpstreamConnect,
      flag { up with status := .connectFail }.fail = true → flag up = true) :
    FlagKept flag c (distributeRequest conf c rvs).1 := by
  have hsend : ∀ (d : ConnCtx) (g s : Nat) (rv : Int),
      FlagKept flag d (d.uvWriteUpstream g s rv).1 := by
    intro d g s rv
    simp only [ConnCtx.uvWriteUpstream]
    generalize (if (d.slot g s).tcp.handle.isOpen = true then rv else -1) = rv
    split
    · simp only []
      exact flagKept_modSlot (hwrite _)
    · exact .refl d
  have hgroup : ∀ (d : ConnCtx) (g : Nat) (rv : Int),
      FlagKept flag d (distributeRequestGroup d g rv).1 := by
    intro d g rv
    rw [distributeRequestGroup]
    split
    · next i _ =>
        have hlru : FlagKept flag d (d.setLru g i) :=
          flagKept_of_slot (ConnCtx.slot_setLru d g i)
        have hbusy : FlagKept flag (d.setLru g i)
            ((d.setLru g i).setStatus g i .work) := flagKept_modSlot (hwork _)
        have hstart := (hlru.trans hbusy).trans (hsend _ g i rv)
        simp only [distributeRequestUpstream]
        split
        · refine hstart.trans ?_
          have honly := (onlySlot_modSlot (((d.setLru g i).setStatus g i
            .work).uvWriteUpstream g i rv).1 (g, i) fun up =>
              { up with status := .connectFail }).trans
            (onlySlot_upstreamServerErr _ (g, i))
          refine flagKept_of_onlySlot honly fun ht => hfail _ ?_
          rw [slot_upstreamServerErr_same, ConnCtx.setStatus,
            ConnCtx.slot_modSlot_same] at ht
          exact ht
        · exact hstart
    · exact .refl d
  rw [distributeRequest]
  induction conf.sgNum with
  | zero => exact .refl c
  | succ n ih => exact ih.trans (hgroup _ n (rvs n))

theorem reading_distributeRequest (conf : Conf) (c : ConnCtx) (rvs : Nat → Int) :
    FlagKept (·.tcp.reading) c (distributeRequest conf c rvs).1 :=
  flagKept_distributeRequest conf c rvs (fun _ => id) (fun _ => id) fun _ h => nomatch h

end

end UiServer
