import UiServer.Proofs.Window

/-!
# The copy of a body

A reply is read to where the next body goes, with its head in front. So its body lies
one head behind the place that it is copied to, whatever has been merged before, and
`memcpy` is given ranges that overlap as soon as the body is longer than a head
(`bodiesCopied_iff`).
-/

namespace UiServer

open CMem

/-- A read of `bs` into the window at `base` has its body appended by a `memcpy` that is
defined, and what is appended is the body. -/
structure BodyCopied (r : UpstreamResponse) (base : Nat) (bs : Bytes) : Prop where
  apart : NoOverlap r.len.toNat (base + responseHeadSize) (copySize (bodyLen r bs))
  appended : read (mergeRead r bs).buf r.len.toNat (copySize (bodyLen r bs)) =
    bs.drop responseHeadSize
  len : (mergeRead r bs).len = r.len + UInt32.ofNat (bs.drop responseHeadSize).length

/-- The reply of an event has its body copied, if it is merged and has results. -/
def BodyCopiedAt (c : ConnCtx) : Event → Prop
  | .onGotUpstreamResponse _ _ (.data bs) =>
      c.request.web.needMerge ≠ 0 → foundResults c.upstreamResponse bs ≠ 0 →
        BodyCopied c.upstreamResponse (allocUpstreamResponseBuf c).1 bs
  | _ => True

/-- The reply of an event has a whole head and a body that is no longer than that, if it is
merged and has results. -/
def BodyShortAt (c : ConnCtx) : Event → Prop
  | .onGotUpstreamResponse _ _ (.data bs) =>
      c.request.web.needMerge ≠ 0 → foundResults c.upstreamResponse bs ≠ 0 →
        responseHeadSize ≤ bs.length ∧ bs.length ≤ 2 * responseHeadSize
  | _ => True

/-! ## One reply

The window begins where the next body goes, so the body that is read begins one
head further on. The two ranges are 40 bytes apart, and that is all there is to
it: a body of 41 bytes makes them overlap, and a read that is cut inside the head
has a size below zero. -/

section

variable {r : UpstreamResponse} {bs : Bytes}

theorem bodyLen_of_results (h : foundResults r bs ≠ 0) :
    bodyLen r bs = (bs.length : Int) - (responseHeadSize : Nat) := by
  rw [bodyLen_eq, if_neg h]

/-- The size of the copy of a body behind a whole head. -/
theorem copySize_bodyLen (h : foundResults r bs ≠ 0) (hwhole : responseHeadSize ≤ bs.length)
    (hfit : bs.length ≤ responseHeadSize + responseBufSize) :
    copySize (bodyLen r bs) = bs.length - responseHeadSize := by
  have hlen : (bs.length : Int) - (responseHeadSize : Nat) =
      ((bs.length - responseHeadSize : Nat) : Int) := by omega
  rw [bodyLen_of_results h, hlen]
  rw [responseHeadSize, responseBufSize] at hfit
  exact copySize_natCast (by omega)

/-- Source and destination are one head apart. -/
theorem noOverlap_body (p n : Nat) :
    NoOverlap p (p + responseHeadSize) n ↔ n ≤ responseHeadSize := by
  rw [noOverlap_iff, responseHeadSize]
  omega

theorem noOverlap_iff_short (h : foundResults r bs ≠ 0)
    (hfit : bs.length ≤ responseHeadSize + responseBufSize) :
    NoOverlap r.len.toNat (r.len.toNat + responseHeadSize) (copySize (bodyLen r bs)) ↔
      responseHeadSize ≤ bs.length ∧ bs.length ≤ 2 * responseHeadSize := by
  rw [noOverlap_body]
  by_cases hwhole : responseHeadSize ≤ bs.length
  · rw [copySize_bodyLen h hwhole hfit]
    omega
  · -- a length below zero is a huge size
    rw [bodyLen_of_results h, copySize]
    rw [responseHeadSize] at hwhole ⊢
    omega

/-- What the merge stores behind the bodies before. -/
theorem mergeRead_buf (h : foundResults r bs ≠ 0) :
    (mergeRead r bs).buf = store (store r.buf r.len.toNat bs) r.len.toNat
      (read (store r.buf r.len.toNat bs) (r.len.toNat + responseHeadSize)
        (bodyLen r bs).toNat) := by
  have hcount : (readHead (store r.buf r.len.toNat bs) r.len.toNat).returnNum ≠ 0 := h
  rw [mergeRead, mergeReply, bodyLen_of_results h]
  simp only [hcount, ne_eq, not_false_eq_true, if_true]

/-- The body of a reply with a whole head is appended, and counted in `len`. -/
theorem mergeRead_appends (h : foundResults r bs ≠ 0)
    (hwhole : responseHeadSize ≤ bs.length) :
    read (mergeRead r bs).buf r.len.toNat (bs.length - responseHeadSize) =
        bs.drop responseHeadSize ∧
      (mergeRead r bs).len = r.len + UInt32.ofNat (bs.drop responseHeadSize).length := by
  have hlen : bodyLen r bs = ((bs.drop responseHeadSize).length : Nat) := by
    rw [bodyLen_of_results h, List.length_drop]
    omega
  have hbody : read (store r.buf r.len.toNat bs) (r.len.toNat + responseHeadSize)
      (bs.drop responseHeadSize).length = bs.drop responseHeadSize := by
    rw [read_store_part (by rw [List.length_drop]; omega), List.take_length]
  refine ⟨?_, ?_⟩
  · rw [mergeRead_buf h, hlen, Int.toNat_natCast, hbody, ← List.length_drop, read_store]
  · rw [mergeRead_len_eq, hlen, u32_ofInt_natCast]

theorem bodyCopied_iff (h : foundResults r bs ≠ 0)
    (hfit : bs.length ≤ responseHeadSize + responseBufSize) :
    BodyCopied r r.len.toNat bs ↔
      responseHeadSize ≤ bs.length ∧ bs.length ≤ 2 * responseHeadSize := by
  rw [← noOverlap_iff_short h hfit]
  refine ⟨fun hcopied => hcopied.apart, fun hapart => ?_⟩
  have hwhole := ((noOverlap_iff_short h hfit).1 hapart).1
  obtain ⟨hbody, hlen⟩ := mergeRead_appends h hwhole
  exact ⟨hapart, by rw [copySize_bodyLen h hwhole hfit]; exact hbody, hlen⟩

end

theorem bodyCopiedAt_iff {conf : Conf} {c t : ConnCtx} {e : Event}
    (hs : step conf c e = some t) : BodyCopiedAt c e ↔ BodyShortAt c e := by
  cases e with
  | onGotUpstreamResponse g s r =>
      cases r with
      | data bs =>
          exact forall_congr' fun _ => forall_congr' fun hfound =>
            bodyCopied_iff hfound (length_of_reply hs)
      | error => exact Iff.rfl
      | again => exact Iff.rfl
  | _ => exact Iff.rfl

/-- In every run, from any state of a connection: all bodies are appended by copies that
are defined exactly when no reply with results is cut inside its head or has a body that
is longer than a head. -/
theorem bodiesCopied_iff {conf : Conf} {c u : ConnCtx} {es : List Event}
    (hrun : Lts.run (step conf) c es = some u) :
    Lts.Steps (step conf) BodyCopiedAt c es ↔ Lts.Steps (step conf) BodyShortAt c es :=
  Lts.steps_iff_steps (I := fun _ => True) (fun _ _ _ => trivial)
    (fun _ hs => bodyCopiedAt_iff hs) trivial hrun

/-- A new connection up to where the first server has been asked. -/
def askedEvents : List Event := twoGroupsEvents ++ [.distributeUpstreamCb 0 0 0]

/-- One result, with a body of `n` bytes. -/
def resultReply (n : Nat) (h : n ≤ responseBufSize) : Reply where
  head := { UpstreamResponseHead.zero with returnNum := 1 }
  body := List.replicate n 97
  fits := by rw [List.length_replicate]; exact h

def answeredEvents (n : Nat) (h : n ≤ responseBufSize) : List Event :=
  askedEvents ++ [.onGotUpstreamResponse 0 0 (.data (resultReply n h).bytes)]

theorem bodiesCopied_iff_forty :
    ∃ u, Lts.run (step twoGroups) listening (answeredEvents 40 (by decide)) = some u ∧
      (Lts.Steps (step twoGroups) BodyCopiedAt listening (answeredEvents 40 (by decide)) ↔
        Lts.Steps (step twoGroups) BodyShortAt listening
          (answeredEvents 40 (by decide))) := by
  have hsome : (Lts.run (step twoGroups) listening
      (answeredEvents 40 (by decide))).isSome := by decide +kernel
  obtain ⟨u, hu⟩ := Option.isSome_iff_exists.1 hsome
  exact ⟨u, hu, bodiesCopied_iff hu⟩

/-- The first reply to the first request of a connection, with a body of 41 bytes. -/
theorem bodiesCopied_fails :
    ¬ ∀ (conf : Conf) (m : ConnCtx) (rvs : Nat → Nat → Int) (es : List Event) (u : ConnCtx),
        Lts.run (step conf) (onNewConnection conf m rvs 0) es = some u →
        Lts.Steps (step conf) BodyCopiedAt (onNewConnection conf m rvs 0) es := by
  intro hall
  have hsome : (Lts.run (step twoGroups) listening
      (answeredEvents 41 (by decide))).isSome := by decide +kernel
  obtain ⟨u, hu⟩ := Option.isSome_iff_exists.1 hsome
  obtain ⟨t, ht, hreply⟩ := Lts.run_append.1 hu
  have hsteps := (hall twoGroups .zeroed (fun _ _ => 0) _ u hu).after ht
  have hasked : (Lts.run (step twoGroups) listening askedEvents).all fun t =>
      t.request.web.needMerge ≠ 0 ∧
        foundResults t.upstreamResponse (resultReply 41 (by decide)).bytes ≠ 0 := by
    decide +kernel
  rw [ht] at hasked
  obtain ⟨hmerge, hfound⟩ := of_decide_eq_true hasked
  have hcopied := hsteps.1 hmerge hfound
  have hshort := (bodyCopied_iff hfound (by decide)).1 hcopied
  exact absurd hshort.2 (by decide)

end UiServer
