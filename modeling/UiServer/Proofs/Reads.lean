import UiServer.Server.Loop

/-!
# Messages that arrive in pieces

A stream delivers the bytes of a message in as many reads as it likes. The
server takes the first read for the whole message on both of its sides: a
slot stops reading and is idle after any read, and a read of the client always
goes to the start of the request and is judged at once. So a message is taken
as it was sent exactly if it comes in one read.
-/

namespace UiServer

open CMem

/-! ## A reply

The pieces are handed to the slot through `step`, one after the other, for as long
as it is read. After the first one it is not, so of two pieces the second stays in
the socket, and nothing but a single piece can be the whole reply. -/

/-- The loop delivers a piece of a reply to slot `g`, `s`. -/
def readStep (conf : Conf) (g s : Nat) (c : ConnCtx) (seg : Bytes) : Option ConnCtx :=
  step conf c (.onGotUpstreamResponse g s (.data seg))

/-- The connection after the pieces that were taken, and the pieces that were
not. -/
def readPieces (conf : Conf) (g s : Nat) (c : ConnCtx) (segs : List Bytes) :
    ConnCtx × List Bytes :=
  Lts.feed (readStep conf g s) c segs

/-- What is wanted of a reply that comes in the pieces `segs`: it is merged as
if it came in one, no piece stays behind for the next request, the slot is idle
only after the last piece, and no body has a negative length. -/
structure ReadWhole (conf : Conf) (c : ConnCtx) (g s : Nat) (reply : Reply)
    (segs : List Bytes) : Prop where
  merged : (readPieces conf g s c segs).1.upstreamResponse =
    (readUpstream c g s reply.bytes).upstreamResponse
  nothingLeft : (readPieces conf g s c segs).2 = []
  idleLast : ∀ pre post, segs = pre ++ post → post ≠ [] →
    ((readPieces conf g s c pre).1.slot g s).status ≠ .idle
  bodyLen : ∀ pre seg post, segs = pre ++ seg :: post →
    0 ≤ bodyLen (readPieces conf g s c pre).1.upstreamResponse seg

theorem status_readUpstream {c : ConnCtx} {g s : Nat} {bs : Bytes} (h : bs ≠ []) :
    ((readUpstream c g s bs).slot g s).status = .idle := by
  have hslot : (((c.addResponseCount 1).modSlot g s .endRead).slot g s).status = .idle := by
    rw [ConnCtx.slot_modSlot_same]
    rfl
  by_cases hm : c.request.web.needMerge = 0
  · rw [readUpstream_unmerged h hm, ConnCtx.uvWriteClient]
    split
    · exact hslot
    · exact hslot
  · rw [readUpstream_eq h hm]
    exact hslot

theorem length_piece_le {segs : List Bytes} {seg : Bytes} (h : seg ∈ segs) :
    seg.length ≤ segs.flatten.length :=
  (List.sublist_flatten_of_mem h).length_le

theorem before_singleton {seg : Bytes} {pre post : List Bytes}
    (h : [seg] = pre ++ post) (hpost : post ≠ []) : pre = [] := by
  rcases List.append_eq_singleton_iff.1 h.symm with ⟨hpre, _⟩ | ⟨_, hnil⟩
  · exact hpre
  · exact absurd hnil hpost

theorem readStep_eq {conf : Conf} {c : ConnCtx} {g s : Nat} {seg : Bytes}
    (ho : (c.slot g s).tcp.handle.isOpen = true)
    (hr : (c.slot g s).tcp.reading = true) (hne : seg ≠ [])
    (hlen : seg.length ≤ responseHeadSize + responseBufSize) :
    readStep conf g s c seg = some (readUpstream c g s seg) := by
  have hfit : fitsWindow (allocUpstreamResponseBuf c).2 seg = true :=
    decide_eq_true ⟨List.length_pos_iff.2 hne, hlen⟩
  simp only [readStep, step, ho, hr, hfit, Bool.and_self, if_true]

/-- Exactly when a reply is merged as it was sent: when it comes in one
read. -/
theorem readWhole_iff {conf : Conf} {c : ConnCtx} {g s : Nat} {reply : Reply}
    {segs : List Bytes} (ho : (c.slot g s).tcp.handle.isOpen = true)
    (hr : (c.slot g s).tcp.reading = true) (hw : (c.slot g s).status ≠ .idle)
    (hne : ∀ seg ∈ segs, seg ≠ []) (hcat : segs.flatten = reply.bytes) :
    ReadWhole conf c g s reply segs ↔ segs.length = 1 := by
  have hstep : ∀ seg ∈ segs, readPieces conf g s c [seg] =
      (readUpstream c g s seg, []) := by
    intro seg hseg
    refine Lts.feed_singleton (readStep_eq ho hr (hne seg hseg) ?_)
    have hle := length_piece_le hseg
    rw [hcat, Reply.length_bytes] at hle
    exact hle.trans (Nat.add_le_add_left reply.fits _)
  constructor
  · intro h
    match segs, h, hne, hcat, hstep with
    | [], _, _, hcat, _ => exact absurd hcat.symm reply.bytes_ne_nil
    | [_], _, _, _, _ => rfl
    | a :: b :: rest, h, hne, _, hstep =>
        have hidle := h.idleLast [a] (b :: rest) rfl (List.cons_ne_nil b rest)
        rw [hstep a List.mem_cons_self] at hidle
        exact absurd (status_readUpstream (hne a List.mem_cons_self)) hidle
  · intro hone
    obtain ⟨seg, rfl⟩ := List.length_eq_one_iff.1 hone
    have hseg : seg = reply.bytes := by
      rw [← hcat, List.flatten_singleton]
    subst hseg
    have hall := hstep _ List.mem_cons_self
    refine ⟨?_, ?_, ?_, ?_⟩
    · rw [hall]
    · rw [hall]
    · intro pre post hsplit hpost
      rw [before_singleton hsplit hpost]
      exact hw
    · intro pre seg post hsplit
      have hmem : seg ∈ [reply.bytes] := by
        rw [hsplit]
        exact List.mem_append_right pre List.mem_cons_self
      rw [List.mem_singleton.1 hmem]
      rw [UiServer.bodyLen]
      split
      · exact Int.le_refl 0
      · rw [Reply.length_bytes]
        omega

def awaitingFirst : ConnCtx :=
  (step twoGroups twoGroupsServed (.distributeUpstreamCb 0 0 0)).getD .zeroed

def shortReply : Reply where
  head := { UpstreamResponseHead.zero with returnNum := 1 }
  body := [97]
  fits := by decide

theorem readWhole_iff_shortReply :
    ReadWhole twoGroups awaitingFirst 0 0 shortReply [shortReply.bytes] :=
  (readWhole_iff (by decide +kernel) (by decide +kernel) (by decide +kernel)
    (by decide) (List.flatten_singleton ..)).2 rfl

/-- The head is read and the body stays behind. -/
theorem readWhole_fails :
    ¬ ∀ (conf : Conf) (c : ConnCtx) (g s : Nat) (reply : Reply) (segs : List Bytes),
        (c.slot g s).tcp.handle.isOpen = true → (c.slot g s).tcp.reading = true →
        (c.slot g s).status = .work → (∀ seg ∈ segs, seg ≠ []) →
        segs.flatten = reply.bytes → ReadWhole conf c g s reply segs := by
  intro hall
  have h := (hall twoGroups awaitingFirst 0 0 shortReply
    [shortReply.head.bytes, [97]] (by decide +kernel) (by decide +kernel)
    (by decide +kernel) (by decide) rfl).nothingLeft
  revert h
  decide +kernel

/-! ## A request

On the side of the client the second piece is read, but over the first one: every
read goes to the start of the record and is looked at as if it were all of it. So
a piece that has the magic number is taken for a request, and one that has not
closes the connection. -/

def requestStep (conf : Conf) (c : ConnCtx) (seg : Bytes) : Option ConnCtx :=
  step conf c (.onRequest (.data seg))

def requestPieces (conf : Conf) (c : ConnCtx) (segs : List Bytes) :
    ConnCtx × List Bytes :=
  Lts.feed (requestStep conf) c segs

/-- What is wanted of a request `w` that comes in the pieces `segs`: once all
of them were taken, one request was set up from the bytes of the client and
the idle handle was started once to distribute it; before that nothing was set
up, and the connection stays open throughout. -/
structure TakenWhole (conf : Conf) (c : ConnCtx) (w : WebRequest)
    (segs : List Bytes) : Prop where
  nothingLeft : (requestPieces conf c segs).2 = []
  once : (requestPieces conf c segs).1.idler.starts = c.idler.starts + 1
  setUp : (requestPieces conf c segs).1.request.up =
    setupUpstreamRequest (requestPieces conf c segs).1.request.web c.request.up
  web : ∀ i < requestBufSize, i ≠ 148 → i ≠ 149 →
    (requestPieces conf c segs).1.request.web.mem i = w.mem i
  open_ : (requestPieces conf c segs).1.client.handle.isOpen = true
  incomplete : ∀ pre post, segs = pre ++ post → post ≠ [] →
    (requestPieces conf c pre).1.idler.starts = c.idler.starts ∧
      (requestPieces conf c pre).1.request.up = c.request.up ∧
      (requestPieces conf c pre).1.client.handle.isOpen = true

theorem requestStep_eq {conf : Conf} {c : ConnCtx} {seg : Bytes}
    (ho : c.client.handle.isOpen = true) (hr : c.client.reading = true)
    (hne : seg ≠ []) (hlen : seg.length ≤ requestBufSize) :
    requestStep conf c seg =
      some (if (receiveRequest c seg).request.web.MagicOk then
        acceptRequest (receiveRequest c seg)
      else contextClose conf (receiveRequest c seg)) := by
  have hfit : fitsWindow allocRequestBuf.2 seg = true :=
    decide_eq_true ⟨List.length_pos_iff.2 hne, Nat.le_succ_of_le hlen⟩
  rw [← readClient_eq hne]
  simp only [requestStep, step, ho, hr, hfit, Bool.and_self, if_true]

theorem mem_receiveRequest {c : ConnCtx} {w : WebRequest} {i : Nat}
    (hi : i < requestBufSize) :
    (receiveRequest c w.bytes).request.web.mem i = w.mem i := by
  have hlen : w.bytes.length = requestBufSize := length_read _ _ _
  show store c.request.web.mem 0 (w.bytes.take requestBufSize) i = w.mem i
  rw [List.take_of_length_le (Nat.le_of_eq hlen)]
  have hib : i < w.bytes.length := by rw [hlen]; exact hi
  have hat : store c.request.web.mem 0 w.bytes (0 + i) = w.bytes[i] := store_at hib
  rw [Nat.zero_add] at hat
  have hget : w.bytes[i] = w.mem (0 + i) := getElem_read hib
  rw [hat, hget, Nat.zero_add]

theorem magicOk_receiveRequest (c : ConnCtx) (w : WebRequest) :
    (receiveRequest c w.bytes).request.web.MagicOk ↔ w.MagicOk := by
  have hread : read (receiveRequest c w.bytes).request.web.mem 0 4 = read w.mem 0 4 :=
    read_congr fun i hi => mem_receiveRequest (by unfold requestBufSize; omega)
  simp only [WebRequest.MagicOk, WebRequest.magic, u32]
  rw [hread]

/-- Setting the request up changes the two flags of the client's record. -/
theorem mem_acceptRequest {c : ConnCtx} {i : Nat} (h : i ≠ 148) (h' : i ≠ 149) :
    (acceptRequest c).request.web.mem i = c.request.web.mem i := by
  have hflag : ∀ (m : Mem) (p : Nat), i ≠ p → store m p [1] i = m i := by
    intro m p hp
    rcases Nat.lt_or_ge i p with hlt | hge
    · exact store_lt hlt
    · exact store_ge (by rw [List.length_singleton]; omega)
  show store (store c.request.web.mem 148 [1]) 149 [1] i = c.request.web.mem i
  rw [hflag _ _ h', hflag _ _ h]

def listening : ConnCtx := onNewConnection twoGroups .zeroed (fun _ _ => 0) 0

def plainWeb : WebRequest := ⟨store (fun _ => 0) 0 plainRequest⟩

end UiServer
