import UiServer.Proofs.Books
import UiServer.Proofs.History
import UiServer.Proofs.Merge
import UiServer.Proofs.Reads

/-!
# The windows a reply is read into

`alloc_upstream_response_buf` hands out the same window size whatever has been
merged already, so how much of `buf` and `padding` is left for it depends on the
bodies before. `Tally` keeps their lengths for each request, and `readsInside_iff`
says up to which total every window and every appended body stay inside.
-/

namespace UiServer

open CMem

/-! ## What an event does to the merged reply

A function of the event and the context, for all callbacks at once: a request that
is accepted resets it, a reply is merged, and the rest leaves it alone. -/

/-- The merged reply after an event that is taken. -/
def ConnCtx.nextResponse (c : ConnCtx) : Event → UpstreamResponse
  | .onRequest (.data bs) =>
      if takes c (.onRequest (.data bs)) then
        { c.upstreamResponse with head := .zero, len := 0 }
      else c.upstreamResponse
  | .onGotUpstreamResponse _ _ (.data bs) =>
      if c.request.web.needMerge = 0 then
        let r := c.upstreamResponse
        { r with buf := store r.buf r.len.toNat bs }
      else mergeRead c.upstreamResponse bs
  | _ => c.upstreamResponse

section

variable {conf : Conf} {c d t : ConnCtx} {e : Event}

theorem upstreamResponse_readUpstream (c : ConnCtx) (g s : Nat) {bs : Bytes}
    (hbs : bs ≠ []) : (readUpstream c g s bs).upstreamResponse =
      c.nextResponse (.onGotUpstreamResponse g s (.data bs)) := by
  rw [ConnCtx.nextResponse]
  by_cases hm : c.request.web.needMerge = 0
  · rw [if_pos hm, readUpstream_unmerged hbs hm, ConnCtx.uvWriteClient]
    split <;> rfl
  · rw [if_neg hm, readUpstream_eq hbs hm]

/-- The merged reply is reset by a request that is accepted and added to by a
reply; no other callback touches it. -/
theorem Callback.upstreamResponse (h : Callback conf c e t) :
    t.upstreamResponse = c.nextResponse e := by
  have hrest := h.untouched
  cases h with
  | taken _ _ hok =>
      rw [ConnCtx.nextResponse, takes, decide_eq_true hok]
      rfl
  | refused _ hbad =>
      rw [(untouched_contextClose conf _).merged, ConnCtx.nextResponse, takes,
        decide_eq_false hbad]
      rfl
  | reply _ _ hbs => exact upstreamResponse_readUpstream c _ _ hbs
  | handled =>
      obtain ⟨up, response, len, heq⟩ := workerHandler_eq conf c
      rw [handleRequest, heq]
      rfl
  | _ => exact (hrest rfl).merged

theorem mergeRead_len_eq (r : UpstreamResponse) (bs : Bytes) :
    (mergeRead r bs).len = r.len + UInt32.ofInt (bodyLen r bs) := by
  rw [mergeRead, mergeReply, bodyLen]
  by_cases h : (readHead (store r.buf r.len.toNat bs) r.len.toNat).returnNum = 0
  · have hzero : UInt32.ofInt 0 = 0 := rfl
    simp [h, hzero]
  · simp only [ne_eq, h, not_false_eq_true, if_true, if_false]

end

/-! ## The bodies of a request

What is counted beside the run is told from the replies alone: a reply brings the
bytes behind its head if its own count of results is not zero. As long as all fit,
`len` is that number, and the window is inside exactly up to 65495 bytes of it. -/

/-- The bytes of results in a reply, by its own count of results. -/
def resultLen (bs : Bytes) : Nat :=
  if (readHead (store (fun _ => 0) 0 bs) 0).returnNum = 0 then 0
  else bs.length - responseHeadSize

/-- A connection and the bytes of results in the replies merged into it since
the last request was accepted. -/
structure Tally where
  conn : ConnCtx
  merged : Nat

def Tally.mergedAfter (x : Tally) : Event → Nat
  | .onRequest (.data bs) => if takes x.conn (.onRequest (.data bs)) then 0 else x.merged
  | .onGotUpstreamResponse _ _ (.data bs) =>
      if x.conn.request.web.needMerge = 0 then x.merged else x.merged + resultLen bs
  | _ => x.merged

def tally (conf : Conf) (x : Tally) (e : Event) : Option Tally :=
  (step conf x.conn e).map fun t => ⟨t, x.mergedAfter e⟩

/-- The window an upstream is read into lies inside, and so does the body that
is appended. -/
def ReadInside (c : ConnCtx) : Event → Prop
  | .onGotUpstreamResponse _ _ r =>
      InsideBuf (allocUpstreamResponseBuf c).1 (allocUpstreamResponseBuf c).2 ∧
        ∀ bs, r = .data bs → c.request.web.needMerge ≠ 0 →
          InsideBuf c.upstreamResponse.len.toNat (bodyLen c.upstreamResponse bs)
  | _ => True

/-- The count of results that a read of `bs` finds, which is partly what the
buffer held before when `bs` is short. -/
def foundResults (r : UpstreamResponse) (bs : Bytes) : UInt32 :=
  (readHead (store r.buf r.len.toNat bs) r.len.toNat).returnNum

/-- Up to here the replies left room for a whole window, and a read that is
shorter than a head finds no results. -/
def RepliesFit (x : Tally) : Event → Prop
  | .onGotUpstreamResponse _ _ r =>
      x.merged + responseHeadSize ≤ responseBufSize ∧
        ∀ bs, r = .data bs → x.conn.request.web.needMerge ≠ 0 →
          bs.length < responseHeadSize → foundResults x.conn.upstreamResponse bs = 0
  | _ => True

section

variable {conf : Conf} {x y : Tally} {c t : ConnCtx} {e : Event}

theorem bodyLen_eq (r : UpstreamResponse) (bs : Bytes) : bodyLen r bs =
    if foundResults r bs = 0 then 0 else (bs.length : Int) - (responseHeadSize : Nat) :=
  rfl

theorem u32_store_part {m : Mem} {p k : Nat} {bs : Bytes} (h : k + 4 ≤ bs.length) :
    u32 (store m p bs) (p + k) = UInt32.ofNat (leNat ((bs.drop k).take 4)) := by
  rw [u32, read_store_part h]

/-- A whole head tells the count of results by itself. -/
theorem bodyLen_of_whole {r : UpstreamResponse} {bs : Bytes}
    (h : responseHeadSize ≤ bs.length) : bodyLen r bs = resultLen bs := by
  have hk : 4 + 4 ≤ bs.length := by
    rw [responseHeadSize] at h
    omega
  have hcount : foundResults r bs = (readHead (store (fun _ => 0) 0 bs) 0).returnNum := by
    show u32 (store r.buf r.len.toNat bs) (r.len.toNat + 4) =
      u32 (store (fun _ => 0) 0 bs) (0 + 4)
    rw [u32_store_part hk, u32_store_part hk]
  rw [bodyLen_eq, resultLen, hcount]
  split
  · rfl
  · omega

theorem resultLen_of_short {bs : Bytes} (h : bs.length < responseHeadSize) :
    resultLen bs = 0 := by
  rw [resultLen]
  split
  · rfl
  · omega

theorem length_of_reply {g s : Nat} {bs : Bytes}
    (h : step conf c (.onGotUpstreamResponse g s (.data bs)) = some t) :
    bs.length ≤ responseHeadSize + responseBufSize := by
  simp only [step] at h
  split at h
  · split at h
    · next hfit => exact (of_decide_eq_true hfit).2
    · cases h
  · cases h

theorem tally_eq_some : tally conf x e = some y ↔
    ∃ t, step conf x.conn e = some t ∧ (⟨t, x.mergedAfter e⟩ : Tally) = y :=
  Option.map_eq_some_iff

/-- `len` is the number of bytes of results merged. -/
def Tally.Exact (x : Tally) : Prop := x.conn.upstreamResponse.len.toNat = x.merged

theorem RepliesFit.bodyLen {g s : Nat} {bs : Bytes}
    (h : RepliesFit x (.onGotUpstreamResponse g s (.data bs)))
    (hm : x.conn.request.web.needMerge ≠ 0) :
    bodyLen x.conn.upstreamResponse bs = resultLen bs := by
  by_cases hwhole : responseHeadSize ≤ bs.length
  · exact bodyLen_of_whole hwhole
  · have hshort : bs.length < responseHeadSize := by omega
    rw [bodyLen_eq, if_pos (h.2 bs rfl hm hshort), resultLen_of_short hshort]
    rfl

theorem Tally.Exact.step (h : x.Exact) (hfit : RepliesFit x e)
    (hs : tally conf x e = some y) : y.Exact := by
  obtain ⟨t, ht, rfl⟩ := tally_eq_some.1 hs
  have hresp := (callback_of_step ht).upstreamResponse
  simp only [Tally.Exact] at h ⊢
  rw [hresp]
  cases e with
  | onRequest r =>
      cases r with
      | data bs =>
          simp only [ConnCtx.nextResponse, Tally.mergedAfter]
          split
          · rfl
          · exact h
      | error => exact h
      | again => exact h
  | onGotUpstreamResponse g s r =>
      cases r with
      | data bs =>
          simp only [ConnCtx.nextResponse, Tally.mergedAfter]
          by_cases hm : x.conn.request.web.needMerge = 0
          · simp only [if_pos hm]
            exact h
          · simp only [if_neg hm]
            have hlen := length_of_reply ht
            have hres : resultLen bs ≤ bs.length := by
              rw [resultLen]
              split <;> omega
            have hroom := hfit.1
            rw [mergeRead_len_eq, hfit.bodyLen hm, u32_ofInt_natCast, UInt32.toNat_add,
              UInt32.toNat_ofNat', h]
            rw [responseHeadSize, responseBufSize] at hroom hlen
            omega
      | error => exact h
      | again => exact h
  | _ => exact h

/-- As long as `len` is right, a read stays inside exactly when the replies
left room for it. -/
theorem Tally.Exact.readInside_iff (h : x.Exact) (hs : tally conf x e = some y) :
    ReadInside x.conn e ↔ RepliesFit x e := by
  obtain ⟨t, ht, rfl⟩ := tally_eq_some.1 hs
  rw [Tally.Exact] at h
  cases e with
  | onGotUpstreamResponse g s r =>
      have hwindow : InsideBuf (allocUpstreamResponseBuf x.conn).1
          (allocUpstreamResponseBuf x.conn).2 ↔
          x.merged + responseHeadSize ≤ responseBufSize := by
        simp only [InsideBuf, allocUpstreamResponseBuf, h]
        omega
      refine ⟨fun hin => ⟨hwindow.1 hin.1, fun bs hr hm hshort => ?_⟩,
        fun hfit => ⟨hwindow.2 hfit.1, fun bs hr hm => ?_⟩⟩
      · by_contra hfound
        have hbody := (hin.2 bs hr hm).1
        rw [bodyLen_eq, if_neg hfound] at hbody
        omega
      · subst hr
        have hroom := hfit.1
        have hlen := length_of_reply ht
        have hres : resultLen bs ≤ bs.length - responseHeadSize := by
          rw [resultLen]
          split <;> omega
        rw [RepliesFit.bodyLen hfit hm, h, InsideBuf]
        omega
  | _ => exact Iff.rfl

end

/-- In every run that follows an accepted request all windows and bodies stay
inside the buffer exactly when the replies fit. -/
theorem readsInside_iff {conf : Conf} {d : ConnCtx} {es : List Event} {u : Tally}
    (hrun : Lts.run (tally conf) ⟨acceptRequest d, 0⟩ es = some u) :
    Lts.Steps (tally conf) (fun x e => ReadInside x.conn e) ⟨acceptRequest d, 0⟩ es ↔
      Lts.Steps (tally conf) RepliesFit ⟨acceptRequest d, 0⟩ es :=
  Lts.steps_iff_steps (I := Tally.Exact) (fun h hfit hs => h.step hfit hs)
    (fun h hs => h.readInside_iff hs) rfl hrun

/-! ## Two replies

A body of 65496 bytes is too long a value to be computed with, so the failing run
is put together from the lemmas about one read. -/

/-- Both servers are connected and a request has been read. -/
def requestRead : ConnCtx :=
  receiveRequest ((Lts.run (step twoGroups)
    (onNewConnection twoGroups .zeroed (fun _ _ => 0) 0)
    [.upstreamConnectCb 0 0 0, .upstreamConnectCb 1 0 0]).getD .zeroed) plainRequest

def bothWritten : List Event :=
  [.doDistribute fun _ => 0, .distributeUpstreamCb 0 0 0, .distributeUpstreamCb 1 0 0]

theorem readsInside_iff_bothWritten :
    ∃ u, Lts.run (tally twoGroups) ⟨acceptRequest requestRead, 0⟩ bothWritten = some u ∧
      (Lts.Steps (tally twoGroups) (fun x e => ReadInside x.conn e)
          ⟨acceptRequest requestRead, 0⟩ bothWritten ↔
        Lts.Steps (tally twoGroups) RepliesFit ⟨acceptRequest requestRead, 0⟩
          bothWritten) := by
  have hsome : (Lts.run (tally twoGroups) ⟨acceptRequest requestRead, 0⟩
      bothWritten).isSome := by decide +kernel
  obtain ⟨u, hu⟩ := Option.isSome_iff_exists.1 hsome
  exact ⟨u, hu, readsInside_iff hu⟩

/-- A reply that leaves less than a window behind its body. -/
def longReply : Reply where
  head := { UpstreamResponseHead.zero with returnNum := 1 }
  body := List.replicate 65496 0
  fits := by
    rw [List.length_replicate]
    decide

def awaitingBoth : ConnCtx :=
  ((Lts.run (tally twoGroups) ⟨acceptRequest requestRead, 0⟩ bothWritten).map
    Tally.conn).getD .zeroed

theorem run_bothWritten :
    Lts.run (tally twoGroups) ⟨acceptRequest requestRead, 0⟩ bothWritten =
      some ⟨awaitingBoth, 0⟩ := by
  have hmerged : (Lts.run (tally twoGroups) ⟨acceptRequest requestRead, 0⟩
      bothWritten).map Tally.merged = some 0 := by decide +kernel
  obtain ⟨u, hu, hzero⟩ := Option.map_eq_some_iff.1 hmerged
  rw [awaitingBoth, hu, ← hzero]
  rfl

theorem tally_longReply {x : Tally} {g : Nat}
    (ho : (x.conn.slot g 0).tcp.handle.isOpen = true)
    (hr : (x.conn.slot g 0).tcp.reading = true) :
    tally twoGroups x (.onGotUpstreamResponse g 0 (.data longReply.bytes)) =
      some ⟨readUpstream x.conn g 0 longReply.bytes,
        x.mergedAfter (.onGotUpstreamResponse g 0 (.data longReply.bytes))⟩ := by
  have hlen : longReply.bytes.length ≤ responseHeadSize + responseBufSize := by
    rw [Reply.length_bytes]
    exact Nat.add_le_add_left longReply.fits _
  have hstep : step twoGroups x.conn (.onGotUpstreamResponse g 0 (.data longReply.bytes)) =
      some (readUpstream x.conn g 0 longReply.bytes) :=
    readStep_eq ho hr longReply.bytes_ne_nil hlen
  rw [tally, hstep]
  rfl

/-- Behind a body of 65496 bytes the window of the next reply ends one byte past
the end. -/
theorem readsInside_fails :
    ¬ ∀ (conf : Conf) (d : ConnCtx) (es : List Event) (u : Tally),
        Lts.run (tally conf) ⟨acceptRequest d, 0⟩ es = some u →
        Lts.Steps (tally conf) (fun x e => ReadInside x.conn e) ⟨acceptRequest d, 0⟩ es := by
  intro hall
  have hfirst := tally_longReply (x := ⟨awaitingBoth, 0⟩) (g := 0) (by decide +kernel)
    (by decide +kernel)
  generalize Tally.mergedAfter _ _ = n at hfirst
  have hother : (readUpstream awaitingBoth 0 0 longReply.bytes).slot 1 0 =
      awaitingBoth.slot 1 0 :=
    (moves_readUpstream awaitingBoth (0, 0) longReply.bytes_ne_nil).only.slots (1, 0)
      (by decide)
  have hsecond := tally_longReply (x := ⟨readUpstream awaitingBoth 0 0 longReply.bytes, n⟩) (g := 1)
    (by rw [hother]; decide +kernel) (by rw [hother]; decide +kernel)
  have hreplies := Lts.run_cons.2 ⟨_, hfirst, Lts.run_cons.2 ⟨_, hsecond,
    (rfl : Lts.run (tally twoGroups) _ [] = some _)⟩⟩
  have hsteps := (hall twoGroups requestRead _ _
    (Lts.run_append.2 ⟨_, run_bothWritten, hreplies⟩)).after run_bothWritten
  have hwindow := ((hsteps.2 _ hfirst).1.1).2
  have hm : awaitingBoth.request.web.needMerge ≠ 0 := by decide +kernel
  have hlen : (readUpstream awaitingBoth 0 0 longReply.bytes).upstreamResponse.len =
      awaitingBoth.upstreamResponse.len + UInt32.ofNat longReply.resultBody.length := by
    rw [readUpstream_eq longReply.bytes_ne_nil hm, mergeRead_len]
  have hzero : awaitingBoth.upstreamResponse.len = 0 := by decide +kernel
  have hbody : longReply.resultBody.length = 65496 := List.length_replicate
  simp only [allocUpstreamResponseBuf] at hwindow
  rw [hlen, hzero, hbody] at hwindow
  revert hwindow
  decide

end UiServer
