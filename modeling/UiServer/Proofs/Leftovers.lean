import UiServer.Proofs.SamePage
import UiServer.Proofs.Window

/-!
# What is left over in a context

Nothing clears the context of a connection, neither `alloc_conn_context` nor a
new request. `Service` is what the current request is served from, and an event
changes it in a way that only depends on the service itself: two connections that
are given the same events go on with equal services once they have them
(`Callback.service_eq`). They do not have them when a request is taken in with
different bytes in the fields `setup_upstream_request` leaves alone, and the count
that queues the worker, which is never reset, is compared as it was left over.
-/

namespace UiServer

open CMem

/-! ## What a request is served from

Of the whole context a request is only served from its record, the record for the
upstreams, the merged reply up to its length, and the response. Two connections
are compared in that and in nothing else; their slots, counters and handles may be
what they are. -/

/-- The client's record, the record for the upstreams, what counts of the merged
reply, and the response. -/
structure Service where
  web : Bytes
  up : UpstreamRequest
  len : UInt32
  head : UpstreamResponseHead
  body : Bytes
  text : Bytes

def ConnCtx.service (c : ConnCtx) : Service where
  web := c.request.web.bytes
  up := c.request.up
  len := c.upstreamResponse.len
  head := c.upstreamResponse.head
  body := c.upstreamResponse.body
  text := responseText c

section

variable {conf : Conf} {c d t : ConnCtx} {bs : Bytes}

theorem Untouched.service {n : Int} (h : Untouched n c t) : t.service = c.service := by
  simp only [ConnCtx.service, responseText, h.request, h.merged, h.response, h.responseLen]

theorem service_same (h : d.service = c.service) :
    c.upstreamResponse.Same d.upstreamResponse :=
  ⟨congrArg Service.len h, congrArg Service.head h, congrArg Service.body h⟩

/-! ## The client's record

The record is kept as memory, and memory beyond its 152 bytes is no part of it.
Records with the same bytes answer every question alike, and a whole record that
is read makes two connections agree whatever they held before. -/

theorem WebRequest.mem_eq {w w' : WebRequest} (h : w'.bytes = w.bytes) {i : Nat}
    (hi : i < requestBufSize) : w'.mem i = w.mem i := by
  have hat := read_inj h i hi
  rwa [Nat.zero_add] at hat

theorem WebRequest.read_eq {w w' : WebRequest} (h : w'.bytes = w.bytes) {p n : Nat}
    (hn : p + n ≤ requestBufSize) : read w'.mem p n = read w.mem p n :=
  read_congr fun i hi => WebRequest.mem_eq h (by omega)

theorem WebRequest.magicOk_congr {w w' : WebRequest} (h : w'.bytes = w.bytes) :
    w'.MagicOk ↔ w.MagicOk := by
  have hread : read w'.mem 0 4 = read w.mem 0 4 := WebRequest.read_eq h (by decide)
  rw [WebRequest.MagicOk, WebRequest.MagicOk, WebRequest.magic, WebRequest.magic, u32, u32,
    hread]

/-- A whole record takes the place of the one before; a shorter read leaves its
end. -/
theorem bytes_receiveRequest
    (h : requestBufSize ≤ bs.length ∨ d.request.web.bytes = c.request.web.bytes) :
    (receiveRequest d bs).request.web.bytes = (receiveRequest c bs).request.web.bytes := by
  show read (store d.request.web.mem 0 (bs.take requestBufSize)) 0 requestBufSize =
    read (store c.request.web.mem 0 (bs.take requestBufSize)) 0 requestBufSize
  rcases h with hlen | hbytes
  · have htake : (bs.take requestBufSize).length = requestBufSize := by
      rw [List.length_take, Nat.min_eq_left hlen]
    have hread : ∀ m, read (store m 0 (bs.take requestBufSize)) 0 requestBufSize =
        bs.take requestBufSize := by
      intro m
      have hstored := read_store m 0 (bs.take requestBufSize)
      rwa [htake] at hstored
    rw [hread, hread]
  · exact read_store_congr hbytes

/-! ## Taking a request in

`setup_upstream_request` sets the fields that come from the client and leaves
`page_no`, `rn`, `sort`, `other` and `tn`. What these hold must agree already;
everything else of the service is set when the request is accepted. -/

/-- The fields that `setup_upstream_request` does not set hold the same. -/
structure UpstreamRequest.SameUnset (up up' : UpstreamRequest) : Prop where
  pageNo : up'.pageNo = up.pageNo
  rn : up'.rn = up.rn
  sort : up'.sort = up.sort
  other : up'.other = up.other
  tn : up'.tn = up.tn

theorem UpstreamRequest.sameUnset_of_eq {up up' : UpstreamRequest} (h : up' = up) :
    up.SameUnset up' := by
  subst h
  exact ⟨rfl, rfl, rfl, rfl, rfl⟩

theorem setupUpstreamRequest_same {web web' : WebRequest} {up up' : UpstreamRequest}
    (hweb : web'.bytes = web.bytes) (hup : up.SameUnset up') :
    setupUpstreamRequest web' up' = setupUpstreamRequest web up := by
  have hquery : web'.query = web.query := WebRequest.read_eq hweb (by decide)
  have hslot : web'.slotId = web.slotId := by
    rw [WebRequest.slotId, WebRequest.slotId, u64, u64,
      WebRequest.read_eq hweb (by decide)]
  have hmerge : web'.needMerge = web.needMerge := WebRequest.mem_eq hweb (by decide)
  have hpb : web'.needPb = web.needPb := WebRequest.mem_eq hweb (by decide)
  simp only [setupUpstreamRequest, hquery, hslot, hmerge, hpb, hup.pageNo, hup.rn, hup.sort,
    hup.other, hup.tn]

theorem responseText_receiveRequest (c : ConnCtx) (bs : Bytes) :
    responseText (receiveRequest c bs) = [] := rfl

theorem service_acceptRequest (hweb : d.request.web.bytes = c.request.web.bytes)
    (hup : c.request.up.SameUnset d.request.up) (htext : responseText d = responseText c) :
    (acceptRequest d).service = (acceptRequest c).service := by
  have hset : ((d.request.web.setNeedMerge 1).setNeedPb 1).bytes =
      ((c.request.web.setNeedMerge 1).setNeedPb 1).bytes :=
    read_store_congr (read_store_congr hweb)
  have htext' : responseText (acceptRequest d) = responseText (acceptRequest c) := htext
  simp only [ConnCtx.service, htext', UpstreamResponse.body]
  simp only [acceptRequest, hset, setupUpstreamRequest_same hset hup]
  rfl

theorem service_taken
    (hweb : requestBufSize ≤ bs.length ∨ d.request.web.bytes = c.request.web.bytes)
    (hup : c.request.up.SameUnset d.request.up) :
    (acceptRequest (receiveRequest d bs)).service =
      (acceptRequest (receiveRequest c bs)).service :=
  service_acceptRequest (bytes_receiveRequest hweb)
    ⟨hup.pageNo, hup.rn, hup.sort, hup.other, hup.tn⟩ rfl

theorem service_receiveRequest (h : d.service = c.service) :
    (receiveRequest d bs).service = (receiveRequest c bs).service := by
  have hweb : (receiveRequest d bs).request.web.bytes =
      (receiveRequest c bs).request.web.bytes :=
    bytes_receiveRequest (.inr (congrArg Service.web h))
  have hup : (receiveRequest d bs).request.up = (receiveRequest c bs).request.up := by
    simp only [receiveRequest, storeRequest]
    rw [show d.request.up = c.request.up from congrArg Service.up h]
  have hold := service_same h
  have hsame : (receiveRequest c bs).upstreamResponse.Same
      (receiveRequest d bs).upstreamResponse := ⟨hold.len, hold.head, hold.body⟩
  simp only [ConnCtx.service, hweb, hup, hsame.len, hsame.head, hsame.body,
    responseText_receiveRequest]

/-! ## Merging a reply

A read only puts its bytes behind the merged body, so what the two buffers hold
further on could show in one way only: in the head of a reply that is shorter than
a head. With 40 bytes or more the head is told by the read. -/

theorem readHead_store_whole (m m' : Mem) (p : Nat) (h : responseHeadSize ≤ bs.length) :
    readHead (store m' p bs) p = readHead (store m p bs) p := by
  have hword : ∀ k, k + 4 ≤ responseHeadSize →
      u32 (store m' p bs) (p + k) = u32 (store m p bs) (p + k) := by
    intro k hk
    rw [u32_store_part (Nat.le_trans hk h), u32_store_part (Nat.le_trans hk h)]
  have hstatus : u32 (store m' p bs) p = u32 (store m p bs) p := hword 0 (by decide)
  simp only [readHead, hstatus, hword 4 (by decide), hword 8 (by decide),
    hword 12 (by decide), hword 16 (by decide), hword 20 (by decide), hword 24 (by decide),
    hword 28 (by decide), hword 32 (by decide), hword 36 (by decide)]

theorem UpstreamResponse.Same.agree {r r' : UpstreamResponse} (h : r.Same r') :
    ∀ i < r.len.toNat, r'.buf i = r.buf i := by
  intro i hi
  have hbody := h.body
  rw [UpstreamResponse.body, UpstreamResponse.body, h.len] at hbody
  have hat := read_inj hbody i hi
  rwa [Nat.zero_add] at hat

theorem UpstreamResponse.Same.store {r r' : UpstreamResponse} (h : r.Same r') (bs : Bytes) :
    UpstreamResponse.Same { r with buf := store r.buf r.len.toNat bs }
      { r' with buf := CMem.store r'.buf r'.len.toNat bs } := by
  refine ⟨h.len, h.head, ?_⟩
  have hbody := h.body
  simp only [UpstreamResponse.body] at hbody ⊢
  rwa [read_store_before (Nat.le_of_eq (Nat.zero_add _)),
    read_store_before (Nat.le_of_eq (Nat.zero_add _))]

/-- A reply with a whole head is merged in the same way whatever the buffer holds
behind the body. -/
theorem UpstreamResponse.Same.mergeRead {r r' : UpstreamResponse} (h : r.Same r')
    (hbs : responseHeadSize ≤ bs.length) :
    (mergeRead r bs).Same (UiServer.mergeRead r' bs) := by
  have hhead := readHead_store_whole r.buf r'.buf r.len.toNat hbs
  have hstored := h.store bs
  simp only [UiServer.mergeRead, mergeReply, h.len, h.head, hhead]
  split
  · have htail : read (CMem.store r'.buf r.len.toNat bs) (r.len.toNat + responseHeadSize)
        ((bs.length : Int) - responseHeadSize).toNat =
        read (CMem.store r.buf r.len.toNat bs) (r.len.toNat + responseHeadSize)
          ((bs.length : Int) - responseHeadSize).toNat := by
      rw [read_store_part (by omega), read_store_part (by omega)]
    have hnat : (bs.length : Int) - responseHeadSize =
        ((bs.length - responseHeadSize : Nat) : Int) := by omega
    refine ⟨rfl, rfl, ?_⟩
    simp only [UpstreamResponse.body, htail]
    refine read_congr fun i hi => store_agree (fun j hj => ?_) _ ?_
    · rw [store_lt hj, store_lt hj, h.agree j hj]
    · -- the length of the body may wrap around, but it never exceeds the sum
      rw [hnat, u32_ofInt_natCast, UInt32.toNat_add, UInt32.toNat_ofNat'] at hi
      rw [length_read, hnat, Int.toNat_natCast]
      omega
  · have hbody := hstored.body
    simp only [UpstreamResponse.body, h.len] at hbody
    exact ⟨rfl, rfl, hbody⟩

/-- A read of a reply only touches the merged reply, the worker, the slot and the
counts. -/
structure ReplyOnly (c t : ConnCtx) : Prop where
  request : t.request = c.request
  text : responseText t = responseText c
  pending : t.pending = c.pending + -1
  calls : t.worker.calls = if c.request.web.needMerge ≠ 0 ∧ c.pending ≤ 1 then
    c.worker.calls + 1 else c.worker.calls

theorem replyOnly_readUpstream (c : ConnCtx) (g s : Nat) (hbs : bs ≠ []) :
    ReplyOnly c (readUpstream c g s bs) := by
  have hpending : c.gs.distributeCount - (c.gs.responseCount + 1) = c.pending + -1 := by
    rw [ConnCtx.pending]
    omega
  by_cases hm : c.request.web.needMerge = 0
  · have hcalls : (if c.request.web.needMerge ≠ 0 ∧ c.pending ≤ 1 then c.worker.calls + 1
        else c.worker.calls) = c.worker.calls := if_neg fun h => h.1 hm
    rw [readUpstream_unmerged hbs hm, ConnCtx.uvWriteClient]
    split
    · exact ⟨rfl, rfl, hpending, hcalls.symm⟩
    · exact ⟨rfl, rfl, hpending, hcalls.symm⟩
  · rw [readUpstream_eq hbs hm]
    refine ⟨rfl, rfl, hpending, ?_⟩
    have htest : c.gs.distributeCount ≤ c.gs.responseCount + 1 ↔ c.pending ≤ 1 := by
      rw [ConnCtx.pending]
      omega
    simp only [htest, ne_eq, hm, not_false_eq_true, true_and]
    split
    · rfl
    · rfl

/-- The merged replies of two connections after a read of the same bytes. -/
theorem same_readUpstream (h : d.service = c.service) {g s : Nat} (hbs : bs ≠ [])
    (hhead : d.upstreamResponse = c.upstreamResponse ∨ responseHeadSize ≤ bs.length) :
    (readUpstream c g s bs).upstreamResponse.Same (readUpstream d g s bs).upstreamResponse := by
  have hsame := service_same h
  have hneed : d.request.web.needMerge = c.request.web.needMerge :=
    WebRequest.mem_eq (congrArg Service.web h) (by decide)
  rw [upstreamResponse_readUpstream c g s hbs, upstreamResponse_readUpstream d g s hbs]
  simp only [ConnCtx.nextResponse, hneed]
  rcases hhead with heq | hwhole
  · rw [heq]
    exact ⟨rfl, rfl, rfl⟩
  · split
    · exact hsame.store bs
    · exact hsame.mergeRead hwhole

theorem service_readUpstream (h : d.service = c.service) {g s : Nat} (hbs : bs ≠ [])
    (hhead : d.upstreamResponse = c.upstreamResponse ∨ responseHeadSize ≤ bs.length) :
    (readUpstream d g s bs).service = (readUpstream c g s bs).service := by
  have hsame := same_readUpstream h (g := g) (s := s) hbs hhead
  have hc := replyOnly_readUpstream c g s hbs
  have hd := replyOnly_readUpstream d g s hbs
  have hweb : d.request.web.bytes = c.request.web.bytes := congrArg Service.web h
  have hup : d.request.up = c.request.up := congrArg Service.up h
  have htext : responseText d = responseText c := congrArg Service.text h
  simp only [ConnCtx.service, hsame.len, hsame.head, hsame.body, hc.request, hd.request,
    hc.text, hd.text, hweb, hup, htext]

/-! ## Making the response

The worker writes a page over whatever the response buffer held. That this does
not show is the work of `tempMakePage_same`: a page is the same text over any two
memories. So the response and the record for the upstreams come out equal from
equal services. -/

/-- The context as it is when the template is looked up. -/
def ConnCtx.named (c : ConnCtx) : ConnCtx :=
  let c := emptyResponseBuf c
  let tn := printInto c.request.up.tn (decimal c.upstreamResponse.head.data.tpl.toNat)
  { c with request := { c.request with up := { c.request.up with tn } } }

/-- The context with a page as its response. -/
def ConnCtx.paged (conf : Conf) (c : ConnCtx) (index : Nat) (iserr : Int) : ConnCtx :=
  { c.withPage (makeResponse conf c index iserr) with
    responseLen := (makeResponse conf c index iserr).ret.toNat }

theorem workerHandler_pb (h : c.request.web.needPb ≠ 0) :
    workerHandler conf c =
      match tempGetTemplateIndex conf.templates (cstr c.named.request.up.tn) with
      | none => emptyResponse c.named
      | some index =>
          if (makeResponse conf c.named index 0).ret < 0 then
            (c.named.withPage (makeResponse conf c.named index 0)).paged conf index 1
          else c.named.paged conf index 0 := by
  rw [workerHandler]
  simp only []
  rw [if_pos (show (emptyResponseBuf c).request.web.needPb ≠ 0 from h)]
  rfl

theorem workerHandler_raw (h : c.request.web.needPb = 0) :
    workerHandler conf c = { emptyResponseBuf c with
      response := store (emptyResponseBuf c).response 0 c.upstreamResponse.body
      responseLen := c.upstreamResponse.len.toNat } := by
  rw [workerHandler]
  simp only []
  rw [if_neg (show ¬ (emptyResponseBuf c).request.web.needPb ≠ 0 from fun hn => hn h)]
  rfl

/-- The worker changes the response and the record for the upstreams only. -/
theorem service_ext (h : d.service = c.service) {c' d' : ConnCtx}
    (hc : c'.request.web = c.request.web ∧ c'.upstreamResponse = c.upstreamResponse)
    (hd : d'.request.web = d.request.web ∧ d'.upstreamResponse = d.upstreamResponse)
    (hup : d'.request.up = c'.request.up) (htext : responseText d' = responseText c') :
    d'.service = c'.service := by
  have hsame := service_same h
  have hweb : d.request.web.bytes = c.request.web.bytes := congrArg Service.web h
  simp only [ConnCtx.service, hc.1, hc.2, hd.1, hd.2, hweb, hup, htext, hsame.len,
    hsame.head, hsame.body]

theorem service_named (h : d.service = c.service) : d.named.service = c.named.service := by
  refine service_ext h ⟨rfl, rfl⟩ ⟨rfl, rfl⟩ ?_ rfl
  have hup : d.request.up = c.request.up := congrArg Service.up h
  simp only [ConnCtx.named, emptyResponseBuf, hup, (service_same h).head]

theorem service_emptyResponse (h : d.service = c.service) :
    (emptyResponse d).service = (emptyResponse c).service := by
  refine service_ext h ⟨rfl, rfl⟩ ⟨rfl, rfl⟩ (congrArg Service.up h) ?_
  have hread : ∀ m : Mem, read (store m 0 [123, 125, 0]) 0 2 = [123, 125] :=
    fun m => read_store_part (k := 0) (by decide)
  show read (store d.response 0 [123, 125, 0]) 0 2 = read (store c.response 0 [123, 125, 0]) 0 2
  rw [hread, hread]

section

variable {set : TemplateSet} {libc : Libc} {stray : Nat → Stray}

theorem makeResponse_same (hconf : conf.makeRes = resultsOf set libc stray)
    (h : d.service = c.service) (index : Nat) (iserr : Int) :
    (makeResponse conf d index iserr).ret = (makeResponse conf c index iserr).ret ∧
      (makeResponse conf d index iserr).text = (makeResponse conf c index iserr).text ∧
      (makeResponse conf d index iserr).up = (makeResponse conf c index iserr).up := by
  have hup : d.request.up = c.request.up := congrArg Service.up h
  simp only [makeResponse, hconf, hup]
  exact tempMakePage_same (service_same h)

theorem service_paged (hconf : conf.makeRes = resultsOf set libc stray)
    (h : d.service = c.service) (index : Nat) (iserr : Int) :
    (d.paged conf index iserr).service = (c.paged conf index iserr).service := by
  obtain ⟨_, htext, hup⟩ := makeResponse_same hconf h index iserr
  exact service_ext h ⟨rfl, rfl⟩ ⟨rfl, rfl⟩ hup htext

/-- The response the worker makes, and what it makes it from, are the same for
equal services. -/
theorem service_workerHandler (hconf : conf.makeRes = resultsOf set libc stray)
    (h : d.service = c.service) :
    (workerHandler conf d).service = (workerHandler conf c).service := by
  have hpb : d.request.web.needPb = c.request.web.needPb :=
    WebRequest.mem_eq (congrArg Service.web h) (by decide)
  by_cases hz : c.request.web.needPb = 0
  · rw [workerHandler_raw hz, workerHandler_raw (hpb.trans hz)]
    have hsame := service_same h
    have htext : ∀ (m : Mem) (r : UpstreamResponse),
        read (store m 0 r.body) 0 r.len.toNat = r.body := by
      intro m r
      have hstored := read_store m 0 r.body
      rwa [show r.body.length = r.len.toNat from length_read _ _ _] at hstored
    refine service_ext h ⟨rfl, rfl⟩ ⟨rfl, rfl⟩ (congrArg Service.up h) ?_
    exact (htext _ _).trans (hsame.body.trans (htext _ _).symm)
  · have hnamed := service_named h
    have htn : d.named.request.up.tn = c.named.request.up.tn :=
      congrArg (·.up.tn) hnamed
    rw [workerHandler_pb hz, workerHandler_pb (hpb ▸ hz), htn]
    cases tempGetTemplateIndex conf.templates (cstr c.named.request.up.tn) with
    | none => exact service_emptyResponse hnamed
    | some index =>
        obtain ⟨hret, _, hup⟩ := makeResponse_same hconf hnamed index 0
        simp only [hret]
        split
        · have hmade : (d.named.withPage (makeResponse conf d.named index 0)).service =
              (c.named.withPage (makeResponse conf c.named index 0)).service :=
            service_ext hnamed ⟨rfl, rfl⟩ ⟨rfl, rfl⟩ hup rfl
          exact service_paged hconf hmade index 1
        · exact service_paged hconf hnamed index 0

/-! ## One event in two connections

Each event changes the service by a function of the service and of its own bytes.
When the worker is queued is no part of the service: it hangs on the two counts,
and so on how far apart these were when the request was taken in. -/

variable {e : Event} {t' : ConnCtx}

/-- A read of a reply that is merged tells its head by itself, unless the two
buffers held the same. -/
def HeadTold (c d : ConnCtx) : Event → Prop
  | .onGotUpstreamResponse _ _ (.data bs) =>
      d.upstreamResponse = c.upstreamResponse ∨ responseHeadSize ≤ bs.length
  | _ => True

/-- Equal services stay equal. -/
theorem Callback.service_eq (hconf : conf.makeRes = resultsOf set libc stray)
    (hc : Callback conf c e t) (hd : Callback conf d e t') (h : d.service = c.service)
    (hhead : HeadTold c d e) : t'.service = t.service := by
  have hrest : e.serves = false → t'.service = t.service := fun he =>
    (hd.untouched he).service.trans (h.trans (hc.untouched he).service.symm)
  have hweb : d.request.web.bytes = c.request.web.bytes := congrArg Service.web h
  cases hc with
  | @taken bs _ _ hok =>
      cases hd with
      | taken =>
          exact service_taken (.inr hweb)
            (UpstreamRequest.sameUnset_of_eq (congrArg Service.up h))
      | refused _ hbad =>
          exact absurd ((WebRequest.magicOk_congr (bytes_receiveRequest (.inr hweb))).2 hok) hbad
  | @refused bs _ hbad =>
      cases hd with
      | taken _ _ hok =>
          exact absurd ((WebRequest.magicOk_congr (bytes_receiveRequest (.inr hweb))).1 hok) hbad
      | refused =>
          rw [(untouched_contextClose conf _).service, (untouched_contextClose conf _).service]
          exact service_receiveRequest h
  | reply _ _ hbs =>
      cases hd with
      | reply => exact service_readUpstream h hbs hhead
  | handled =>
      cases hd with
      | handled => exact service_workerHandler hconf h
  | _ => exact hrest rfl

theorem Callback.pending (h : Callback conf c e t) : t.pending = c.pending + e.pending := by
  have hrest := h.untouched
  cases h with
  | taken => exact (Int.add_zero _).symm
  | refused => exact (untouched_contextClose conf _).pending
  | reply _ _ hbs => exact (replyOnly_readUpstream c _ _ hbs).pending
  | handled =>
      obtain ⟨up, response, len, heq⟩ := workerHandler_eq conf c
      rw [handleRequest, heq]
      exact (Int.add_zero _).symm
  | _ => exact (hrest rfl).pending

def Event.isReply : Event → Bool
  | .onGotUpstreamResponse _ _ (.data _) => true
  | _ => false

/-- The worker is queued by the reply that finds the count to be complete. -/
theorem Callback.queues_iff (h : Callback conf c e t) :
    c.worker.calls < t.worker.calls ↔
      e.isReply = true ∧ c.request.web.needMerge ≠ 0 ∧ c.pending ≤ 1 := by
  have hsame : e.isReply = false → t.worker.calls = c.worker.calls →
      (c.worker.calls < t.worker.calls ↔
        e.isReply = true ∧ c.request.web.needMerge ≠ 0 ∧ c.pending ≤ 1) := by
    intro he heq
    rw [heq, he]
    exact ⟨fun hlt => absurd hlt (Nat.lt_irrefl _), fun hr => nomatch hr.1⟩
  have hrest : e.serves = false → e.isReply = false → _ := fun hs he =>
    hsame he (h.untouched hs).calls
  cases h with
  | taken => exact hsame rfl rfl
  | refused => exact hsame rfl (untouched_contextClose conf _).calls
  | reply _ _ hbs =>
      rw [(replyOnly_readUpstream c _ _ hbs).calls]
      split
      · next htest => exact ⟨fun _ => ⟨rfl, htest⟩, fun _ => Nat.lt_succ_self _⟩
      · next htest => exact ⟨fun hlt => absurd hlt (Nat.lt_irrefl _), fun hr => absurd hr.2 htest⟩
  | handled =>
      obtain ⟨up, response, len, heq⟩ := workerHandler_eq conf c
      refine hsame rfl ?_
      rw [handleRequest, heq]
      rfl
  | _ => exact hrest rfl rfl

/-- Equal merged replies stay equal. -/
theorem Callback.merged_eq (hc : Callback conf c e t) (hd : Callback conf d e t')
    (h : d.service = c.service) (hm : d.upstreamResponse = c.upstreamResponse) :
    t'.upstreamResponse = t.upstreamResponse := by
  have hweb : d.request.web.bytes = c.request.web.bytes := congrArg Service.web h
  have hneed : d.request.web.needMerge = c.request.web.needMerge :=
    WebRequest.mem_eq hweb (by decide)
  have htakes : takes d e = takes c e := by
    cases e with
    | onRequest r =>
        cases r with
        | data bs =>
            simp only [takes, WebRequest.magicOk_congr (bytes_receiveRequest (.inr hweb))]
        | _ => rfl
    | _ => rfl
  rw [hc.upstreamResponse, hd.upstreamResponse]
  cases e with
  | onRequest r =>
      cases r with
      | data bs => simp only [ConnCtx.nextResponse, htakes, hm]
      | _ => exact hm
  | onGotUpstreamResponse g s r =>
      cases r with
      | data bs => simp only [ConnCtx.nextResponse, hneed, hm]
      | _ => exact hm
  | _ => exact hm

end

end

/-! ## The same request in two connections

The difference of the counts at a reply is what was left over and what the events
since the request have added, the same in both connections. So it is enough that
both differences are on the same side of the test at each reply, and that is a
condition on the two numbers that were left over and on the events
(`pendingAtReplies`). -/

/-- The sums of what the events in front of each reply add to `pending`. -/
def pendingAtReplies : List Event → List Int
  | [] => []
  | e :: es =>
      (if e.isReply then [0] else []) ++ (pendingAtReplies es).map (e.pending + ·)

def WholeHeads (es : List Event) : Prop :=
  ∀ g s bs, .onGotUpstreamResponse g s (.data bs) ∈ es → responseHeadSize ≤ bs.length

/-- The gaps in the record for the upstreams hold the same. -/
def SameGaps (block block' : Mem) : Prop :=
  read block' 132 4 = read block 132 4 ∧ read block' 186 6 = read block 186 6

/-- What a context may not differ in when `bs` is read and `es` follow: the part of
the client's record that the read leaves, the fields `setup_upstream_request` leaves
and the gaps beside them, the bytes that a short reply is completed with, and the
side of the count test on which it is at each reply. -/
structure LeftAlike (block block' : Mem) (c d : ConnCtx) (bs : Bytes) (es : List Event) :
    Prop where
  web : requestBufSize ≤ bs.length ∨ d.request.web.bytes = c.request.web.bytes
  unset : c.request.up.SameUnset d.request.up
  gaps : SameGaps block block'
  heads : d.upstreamResponse.buf = c.upstreamResponse.buf ∨ WholeHeads es
  counts : ∀ n ∈ pendingAtReplies es, (c.pending + n ≤ 1 ↔ d.pending + n ≤ 1)

/-- What a step shows of two connections that serve the same request: the bytes that
are being written to an upstream in either of them, whether the worker is queued,
and the response. -/
structure ServedAlike (block block' : Mem) (x y : ConnCtx × ConnCtx) : Prop where
  written : ∀ p, Writing y.1 p ∨ Writing y.2 p →
    y.2.request.up.bytes block' = y.1.request.up.bytes block
  queued : x.1.worker.calls < y.1.worker.calls ↔ x.2.worker.calls < y.2.worker.calls
  response : responseText y.2 = responseText y.1

/-- The invariant of the two runs. -/
structure Twins (x : ConnCtx × ConnCtx) (es : List Event) : Prop where
  service : x.2.service = x.1.service
  heads : x.2.upstreamResponse = x.1.upstreamResponse ∨ WholeHeads es
  counts : ∀ n ∈ pendingAtReplies es, (x.1.pending + n ≤ 1 ↔ x.2.pending + n ≤ 1)

section

variable {conf : Conf} {set : TemplateSet} {libc : Libc} {stray : Nat → Stray}
variable {block block' : Mem} {x y : ConnCtx × ConnCtx} {e : Event} {es : List Event}

theorem upBytes_eq (hgaps : SameGaps block block') {up up' : UpstreamRequest}
    (h : up' = up) : up'.bytes block' = up.bytes block := by
  rw [h, UpstreamRequest.bytes, UpstreamRequest.bytes, hgaps.1, hgaps.2]

theorem mem_pendingAtReplies {n : Int} (h : n ∈ pendingAtReplies es) :
    e.pending + n ∈ pendingAtReplies (e :: es) :=
  List.mem_append_right _ (List.mem_map_of_mem h)

theorem zero_mem_pendingAtReplies (h : e.isReply = true) :
    0 ∈ pendingAtReplies (e :: es) := by
  rw [pendingAtReplies, if_pos h]
  exact List.mem_append_left _ List.mem_cons_self

theorem WholeHeads.tail (h : WholeHeads (e :: es)) : WholeHeads es :=
  fun g s bs hin => h g s bs (List.mem_cons_of_mem e hin)

theorem Twins.headTold (h : Twins x (e :: es)) : HeadTold x.1 x.2 e := by
  cases e with
  | onGotUpstreamResponse g s r =>
      cases r with
      | data bs => exact h.heads.imp id fun hw => hw g s bs List.mem_cons_self
      | _ => trivial
  | _ => trivial

theorem Twins.queued (h : Twins x (e :: es)) {t t' : ConnCtx}
    (hc : Callback conf x.1 e t) (hd : Callback conf x.2 e t') :
    x.1.worker.calls < t.worker.calls ↔ x.2.worker.calls < t'.worker.calls := by
  have hneed : x.2.request.web.needMerge = x.1.request.web.needMerge :=
    WebRequest.mem_eq (congrArg Service.web h.service) (by decide)
  rw [hc.queues_iff, hd.queues_iff, hneed]
  refine and_congr_right fun hreply => and_congr_right fun _ => ?_
  have hcount := h.counts 0 (zero_mem_pendingAtReplies hreply)
  rwa [Int.add_zero, Int.add_zero] at hcount

theorem Twins.step (hconf : conf.makeRes = resultsOf set libc stray)
    (hgaps : SameGaps block block') (h : Twins x (e :: es))
    (hs : Lts.pair (step conf) x e = some y) :
    Twins y es ∧ ServedAlike block block' x y := by
  obtain ⟨hfirst, hsecond⟩ := Lts.pair_eq_some.1 hs
  have hc := callback_of_step hfirst
  have hd := callback_of_step hsecond
  have hservice := Callback.service_eq hconf hc hd h.service h.headTold
  refine ⟨⟨hservice, ?_, fun n hn => ?_⟩, ⟨fun _ _ => ?_, h.queued hc hd, ?_⟩⟩
  · exact h.heads.imp (hc.merged_eq hd h.service) WholeHeads.tail
  · have hcount := h.counts _ (mem_pendingAtReplies (e := e) hn)
    rwa [← Int.add_assoc, ← Int.add_assoc, ← hc.pending, ← hd.pending] at hcount
  · exact upBytes_eq hgaps (congrArg Service.up hservice)
  · exact congrArg Service.text hservice

theorem eq_of_taken {c t : ConnCtx} {bs : Bytes}
    (h : step conf c (.onRequest (.data bs)) = some t)
    (hok : (receiveRequest c bs).request.web.MagicOk) :
    t = acceptRequest (receiveRequest c bs) := by
  cases callback_of_step h with
  | taken => rfl
  | refused _ hbad => exact absurd hok hbad

/-- From the request on the two are served from the same. -/
theorem LeftAlike.taken {c d : ConnCtx} {bs : Bytes} (h : LeftAlike block block' c d bs es)
    (htakes : takes c (.onRequest (.data bs)) = true)
    (hs : Lts.pair (step conf) (c, d) (.onRequest (.data bs)) = some y) :
    Twins y es ∧ ServedAlike block block' (c, d) y := by
  obtain ⟨hfirst, hsecond⟩ := Lts.pair_eq_some.1 hs
  have hok : (receiveRequest c bs).request.web.MagicOk := of_decide_eq_true htakes
  have hok' : (receiveRequest d bs).request.web.MagicOk :=
    (WebRequest.magicOk_congr (bytes_receiveRequest h.web)).2 hok
  have hc : y.1 = acceptRequest (receiveRequest c bs) := eq_of_taken hfirst hok
  have hd : y.2 = acceptRequest (receiveRequest d bs) := eq_of_taken hsecond hok'
  have hservice : y.2.service = y.1.service := by
    rw [hc, hd]
    exact service_taken h.web h.unset
  refine ⟨⟨hservice, h.heads.imp (fun hbuf => ?_) id, ?_⟩, fun _ _ => ?_, ?_, ?_⟩
  · rw [hc, hd]
    show UpstreamResponse.mk 0 .zero d.upstreamResponse.buf = ⟨0, .zero, _⟩
    rw [hbuf]
    rfl
  · rw [hc, hd]
    exact h.counts
  · exact upBytes_eq h.gaps (congrArg Service.up hservice)
  · rw [hc, hd]
    exact ⟨fun hlt => absurd hlt (Nat.lt_irrefl _), fun hlt => absurd hlt (Nat.lt_irrefl _)⟩
  · exact congrArg Service.text hservice

/-- Two connections that are given the same request and the same events after it
serve it alike, as long as what they were left with agrees where it is used. -/
theorem servedAlike_of_leftAlike (hconf : conf.makeRes = resultsOf set libc stray)
    {c d : ConnCtx} {bs : Bytes} (htakes : takes c (.onRequest (.data bs)) = true)
    (hleft : LeftAlike block block' c d bs es) :
    Lts.Steps (Lts.pair (step conf))
      (fun x e => ∀ y, Lts.pair (step conf) x e = some y → ServedAlike block block' x y)
      (c, d) (.onRequest (.data bs) :: es) := by
  refine ⟨fun y hs => (hleft.taken htakes hs).2, fun y hs => ?_⟩
  refine Lts.steps_of_inv (I := Twins) (fun h y hs => (h.step hconf hleft.gaps hs).2)
    (fun h hs => (h.step hconf hleft.gaps hs).1) (hleft.taken htakes hs).1

end

/-- Two groups of one server each, and pages with one result text. -/
def idConf : Conf :=
  { twoGroups with
    templates := idSet.handle, makeRes := resultsOf idSet epochLibc fun _ => .zero }

/-- A connection on memory `m` with both servers connected. -/
def connectedOn (m : ConnCtx) : ConnCtx :=
  ((Lts.run (step idConf) (onNewConnection idConf m (fun _ _ => 0) 0)
    [.upstreamConnectCb 0 0 0, .upstreamConnectCb 1 0 0])).getD m

/-- Memory that an earlier connection used: two requests were served, and the last
query and response are still there. -/
def usedMemory : ConnCtx :=
  { ConnCtx.zeroed with
    response := fun _ => 97
    gs := { ConnCtx.zeroed.gs with distributeCount := 4, responseCount := 4 }
    upstreamResponse := { len := 40, head := .zero, buf := fun _ => 98 }
    request :=
      { ConnCtx.zeroed.request with
        up := { ConnCtx.zeroed.request.up with query := [99, 0], slotId := 5 } } }

def servedEvents : List Event :=
  [.doDistribute fun _ => 0, .distributeUpstreamCb 0 0 0, .distributeUpstreamCb 1 0 0,
    .onGotUpstreamResponse 0 0 (.data (plainReply 0)),
    .onGotUpstreamResponse 1 0 (.data (plainReply 0)), .handleRequest]

theorem servedAlike_of_leftAlike_used :
    Lts.Steps (Lts.pair (step idConf))
        (fun x e => ∀ y, Lts.pair (step idConf) x e = some y →
          ServedAlike (fun _ => 0) (fun _ => 0) x y)
        (connectedOn .zeroed, connectedOn usedMemory)
        (.onRequest (.data plainRequest) :: servedEvents) ∧
      (Lts.run (Lts.pair (step idConf)) (connectedOn .zeroed, connectedOn usedMemory)
        (.onRequest (.data plainRequest) :: servedEvents)).isSome := by
  have hpending : (connectedOn .zeroed).pending = (connectedOn usedMemory).pending := by
    decide +kernel
  have hwhole : WholeHeads servedEvents := by
    intro g s bs hin
    simp only [servedEvents, List.mem_cons, List.not_mem_nil, or_false, reduceCtorEq,
      false_or, Event.onGotUpstreamResponse.injEq, Read.data.injEq] at hin
    rcases hin with ⟨_, _, rfl⟩ | ⟨_, _, rfl⟩ <;> decide
  refine ⟨servedAlike_of_leftAlike rfl (by decide +kernel) ?_, by decide +kernel⟩
  refine ⟨.inl (by decide +kernel), ?_, ⟨rfl, rfl⟩, .inr hwhole, fun n _ => by rw [hpending]⟩
  exact ⟨by decide +kernel, by decide +kernel, by decide +kernel, by decide +kernel,
    by decide +kernel⟩

/-- `page_no` is what `malloc` found in its place, and it goes to the upstreams. -/
theorem servedAlike_fails :
    ¬ ∀ (conf : Conf) (m m' : ConnCtx) (rvs : Nat → Nat → Int) (before : List Event)
        (c d : ConnCtx) (bs : Bytes) (es : List Event) (block : Mem),
        Lts.run (step conf) (onNewConnection conf m rvs 0) before = some c →
        Lts.run (step conf) (onNewConnection conf m' rvs 0) before = some d →
        takes c (.onRequest (.data bs)) = true → requestBufSize ≤ bs.length →
        Lts.Steps (Lts.pair (step conf))
          (fun x e => ∀ y, Lts.pair (step conf) x e = some y → ServedAlike block block x y)
          (c, d) (.onRequest (.data bs) :: es) := by
  intro hall
  let dirty : ConnCtx :=
    { ConnCtx.zeroed with
      request :=
        { ConnCtx.zeroed.request with
          up := { ConnCtx.zeroed.request.up with pageNo := 7 } } }
  let request : Event := .onRequest (.data plainRequest)
  let before : List Event := [.upstreamConnectCb 0 0 0, .upstreamConnectCb 1 0 0]
  have hconnected : ∀ m : ConnCtx, (Lts.run (step idConf)
      (onNewConnection idConf m (fun _ _ => 0) 0) before).isSome →
      Lts.run (step idConf) (onNewConnection idConf m (fun _ _ => 0) 0) before =
        some (connectedOn m) := by
    intro m hsome
    obtain ⟨c, hc⟩ := Option.isSome_iff_exists.1 hsome
    rw [connectedOn, hc]
    rfl
  have hsteps := hall idConf .zeroed dirty (fun _ _ => 0) before _ _ plainRequest
    [.doDistribute fun _ => 0] (fun _ => 0) (hconnected _ (by decide +kernel))
    (hconnected _ (by decide +kernel)) (by decide +kernel) (by decide +kernel)
  have hrun : ((Lts.run (Lts.pair (step idConf)) (connectedOn .zeroed, connectedOn dirty)
      [request, .doDistribute fun _ => 0]).map fun y =>
        (decide (Writing y.1 (0, 0)), decide (y.2.request.up.bytes (fun _ => 0) =
          y.1.request.up.bytes fun _ => 0))) = some (true, false) := by
    decide +kernel
  obtain ⟨y, hy, hstate⟩ := Option.map_eq_some_iff.1 hrun
  simp only [Prod.mk.injEq, decide_eq_true_eq, decide_eq_false_iff_not] at hstate
  obtain ⟨x, hx, hlast⟩ := Lts.run_cons.1 hy
  obtain ⟨y', hy', hnil⟩ := Lts.run_cons.1 hlast
  cases hnil
  exact hstate.2 (((hsteps.2 x hx).1 y hy').written (0, 0) (.inl hstate.1))

end UiServer
