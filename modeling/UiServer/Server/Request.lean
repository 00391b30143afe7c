import UiServer.Core.Worker
import UiServer.Server.Upstream

/-!
# Serving a request

From the bytes of the client to the response: `on_request` takes the request
in and arms the idle handle, `do_distribute` hands it to one server of each
group once no connect is pending, each reply is merged as it is read, and the
read that completes the count queues the worker.
-/

namespace UiServer

open CMem

namespace ConnCtx

def addDistributeCount (c : ConnCtx) (d : Int) : ConnCtx :=
  { c with gs := { c.gs with distributeCount := c.gs.distributeCount + d } }

def addResponseCount (c : ConnCtx) (d : Int) : ConnCtx :=
  { c with gs := { c.gs with responseCount := c.gs.responseCount + d } }

@[simp] theorem slot_addDistributeCount (c : ConnCtx) (d : Int) :
    (c.addDistributeCount d).slot = c.slot := rfl

/-- `uv_write` of the request to an upstream: refused when the handle is not
open, otherwise it returns `rv`, and the write is in flight if that is 0. -/
def uvWriteUpstream (c : ConnCtx) (g s : Nat) (rv : Int) : ConnCtx × Int :=
  let rv := if (c.slot g s).tcp.handle.isOpen then rv else -1
  if rv = 0 then (c.modSlot g s fun up => { up with write := true }, 0) else (c, rv)

/-- `uv_write` to the client; nobody looks at what it returns. -/
def uvWriteClient (c : ConnCtx) : ConnCtx :=
  if c.client.handle.isOpen then { c with write := c.write + 1 } else c

end ConnCtx

/-! ## Replies

The window of a read begins where the bodies merged so far end. The head of the
reply is added to the one that is kept, and its body is moved over it to the
beginning of the window. -/

/-- `alloc_upstream_response_buf`: where in `buf` the window starts, and its
size. It is given the context that owns the slot, which is the one the code
computes for the slots of `Owner.reachOwners_iff`. -/
def allocUpstreamResponseBuf (c : ConnCtx) : Nat × Nat :=
  (c.upstreamResponse.len.toNat, responseHeadSize + responseBufSize)

/-- What `on_got_upstream_response` merges of a reply of `nread` bytes at
`base`. The two ranges of the body's `memcpy` may overlap; the bytes taken are
those that were received. A negative length, which no `memcpy` survives, moves
no bytes here but still counts in `len`. -/
def mergeReply (r : UpstreamResponse) (nread : Int) (base : Nat) : UpstreamResponse :=
  let phead := readHead r.buf base
  let head :=
    { r.head with
      returnNum := r.head.returnNum + phead.returnNum
      resNum := r.head.resNum + phead.resNum
      totalNum := r.head.totalNum + phead.totalNum
      data := phead.data }
  if phead.returnNum ≠ 0 then
    let bodyLen : Int := nread - responseHeadSize
    { len := r.len + UInt32.ofInt bodyLen
      head := head
      buf := store r.buf r.len.toNat
        (read r.buf (base + responseHeadSize) bodyLen.toNat) }
  else { r with head := head }

def onGotUpstreamResponse (c : ConnCtx) (g s : Nat) (nread : Int) (base : Nat) :
    ConnCtx :=
  if nread = 0 then c
  else
    let c := c.addResponseCount 1
    if nread < 0 then upstreamServerErr c g s
    else
      let c := c.modSlot g s fun up => { up with tcp := up.tcp.readStop }
      let c := c.setStatus g s .idle
      if c.request.web.needMerge = 0 then c.uvWriteClient
      else
        let c := { c with upstreamResponse := mergeReply c.upstreamResponse nread base }
        if c.gs.distributeCount ≤ c.gs.responseCount then
          { c with worker := c.worker.queue }
        else c

/-- A read of an upstream: the window is asked for and filled, then the
callback runs. -/
def readUpstream (c : ConnCtx) (g s : Nat) (bs : Bytes) : ConnCtx :=
  let base := (allocUpstreamResponseBuf c).1
  let r := c.upstreamResponse
  let c := { c with upstreamResponse := { r with buf := store r.buf base bs } }
  onGotUpstreamResponse c g s bs.length base

/-! ## Distributing the request

In each group an idle upstream is looked for behind the one that was asked last,
and the request is written to it. A write is counted when its callback says that
it went out. -/

def distributeUpstreamCb (c : ConnCtx) (g s : Nat) (status : Int) : ConnCtx :=
  if status ≠ 0 then upstreamServerErr c g s
  else
    (c.addDistributeCount 1).modSlot g s fun up => { up with tcp := up.tcp.readStart }

def distributeRequestUpstream (c : ConnCtx) (g s : Nat) (rv : Int) : ConnCtx × Int :=
  let c := c.setStatus g s .work
  let (c, rv) := c.uvWriteUpstream g s rv
  if rv ≠ 0 then (upstreamServerErr (c.setStatus g s .connectFail) g s, rv)
  else (c, rv)

/-- The `while (try_time > 0)` loop of `distribute_request_group`: the first
idle slot behind `i`. -/
def findIdle (group : GroupServerSock) : Nat → Nat → Option Nat
  | 0, _ => none
  | tryTime + 1, i =>
      let i := (i + 1) % group.realNum.toNat
      if (group.upstream i).status = .idle then some i
      else findIdle group tryTime i

/-- The slot `distribute_request_group` picks. -/
def pickUpstream (group : GroupServerSock) : Option Nat :=
  findIdle group group.sockNum.toNat group.lru

def distributeRequestGroup (c : ConnCtx) (g : Nat) (rv : Int) : ConnCtx × Int :=
  match pickUpstream (c.group g) with
  | some i =>
      distributeRequestUpstream (c.setLru g i) g i rv
  | none => (c, -1)

/-- The loop of `distribute_request` over the first `n` groups: the context
and the number of groups served. -/
def distributeRequestGroups (c : ConnCtx) (rvs : Nat → Int) : Nat → ConnCtx × Nat
  | 0 => (c, 0)
  | n + 1 =>
      let (c, succ) := distributeRequestGroups c rvs n
      let (c, rv) := distributeRequestGroup c n (rvs n)
      (c, if rv = 0 then succ + 1 else succ)

def distributeRequest (conf : Conf) (c : ConnCtx) (rvs : Nat → Int) : ConnCtx × Nat :=
  distributeRequestGroups c rvs conf.sgNum

def needWaitUpstream (conf : Conf) (c : ConnCtx) : Bool :=
  (List.range conf.sgNum).any fun g => decide (0 < (c.group g).connecting)

def doDistribute (conf : Conf) (c : ConnCtx) (rvs : Nat → Int) : ConnCtx :=
  let c := { c with idler := c.idler.stop }
  if needWaitUpstream conf c then { c with idler := c.idler.start }
  else
    let (c, rv) := distributeRequest conf c rvs
    if rv < 1 then contextClose conf c else c

/-! ## The client's bytes

A read of the client goes over the last request from its beginning, and only the
magic number is looked at before it is taken in. -/

/-- `alloc_request_buf`: where in `request` the window starts, and its size.
It is one byte longer than the client's record. -/
def allocRequestBuf : Nat × Nat := (0, requestBufSize + 1)

/-- The low byte of a word replaced: what a byte behind the client's record
does to the record that follows it. -/
def setLowByte (w : UInt32) (b : UInt8) : UInt32 :=
  UInt32.ofNat (w.toNat / 256 * 256 + b.toNat)

def storeRequest (c : ConnCtx) (bs : Bytes) : ConnCtx :=
  let web : WebRequest :=
    ⟨store c.request.web.mem allocRequestBuf.1 (bs.take requestBufSize)⟩
  let up := c.request.up
  let magic := match bs[requestBufSize]? with
    | some b => setLowByte up.magic b
    | none => up.magic
  { c with request := { web := web, up := { up with magic := magic } } }

def WebRequest.MagicOk (w : WebRequest) : Prop := w.magic = UInt32.ofNat requestBufSize

instance (w : WebRequest) : Decidable w.MagicOk := inferInstanceAs (Decidable (_ = _))

/-- What `on_request` does once the magic number is right: the request is set
up, the merged reply is reset and the idle handle is armed. The magic command
it may also run does not touch the context. -/
def acceptRequest (c : ConnCtx) : ConnCtx :=
  let web := (c.request.web.setNeedMerge 1).setNeedPb 1
  { c with
    request := { web := web, up := setupUpstreamRequest web c.request.up }
    upstreamResponse := { c.upstreamResponse with head := .zero, len := 0 }
    idler := c.idler.start }

def onRequest (conf : Conf) (c : ConnCtx) (nread : Int) : ConnCtx :=
  if nread = 0 then c
  else if nread < 0 then contextClose conf c
  else
    let requestLen := c.requestLen + nread
    let requestLen :=
      if (requestBufSize : Int) < requestLen then (requestBufSize : Int) else requestLen
    let c := { c with requestLen := requestLen, responseLen := 0 }
    if ¬ c.request.web.MagicOk then contextClose conf c else acceptRequest c

def readClient (conf : Conf) (c : ConnCtx) (bs : Bytes) : ConnCtx :=
  onRequest conf (storeRequest c bs) bs.length

/-- `handle_request`, on the worker's thread. -/
def handleRequest (conf : Conf) (c : ConnCtx) : ConnCtx := workerHandler conf c

def sendResponse (c : ConnCtx) (status : Int) : ConnCtx :=
  if status < 0 then c else c.uvWriteClient

theorem uvWriteClient_eq (c : ConnCtx) : c.uvWriteClient = c ∨
    c.client.handle.isOpen = true ∧ c.uvWriteClient = { c with write := c.write + 1 } := by
  rw [ConnCtx.uvWriteClient]
  split
  · next hopen => exact .inr ⟨hopen, rfl⟩
  · exact .inl rfl

theorem sendResponse_eq (c : ConnCtx) (status : Int) : sendResponse c status = c ∨
    c.client.handle.isOpen = true ∧
      sendResponse c status = { c with write := c.write + 1 } := by
  rw [sendResponse]
  split
  · exact .inl rfl
  · exact uvWriteClient_eq c

/-! ## What a read of the client changes

What becomes of the context when there are bytes, when there is nothing, and when
the read fails. -/

def receiveRequest (c : ConnCtx) (bs : Bytes) : ConnCtx :=
  let requestLen := c.requestLen + bs.length
  { storeRequest c bs with
    requestLen :=
      if (requestBufSize : Int) < requestLen then (requestBufSize : Int) else requestLen
    responseLen := 0 }

theorem readClient_eq {conf : Conf} {c : ConnCtx} {bs : Bytes} (h : bs ≠ []) :
    readClient conf c bs =
      if (receiveRequest c bs).request.web.MagicOk then
        acceptRequest (receiveRequest c bs)
      else contextClose conf (receiveRequest c bs) := by
  have hlen : 0 < bs.length := List.length_pos_iff.2 h
  rw [readClient, onRequest, if_neg (by omega), if_neg (by omega)]
  simp only [ite_not]
  rfl

theorem onRequest_again (conf : Conf) (c : ConnCtx) : onRequest conf c 0 = c :=
  if_pos rfl

theorem onRequest_error (conf : Conf) (c : ConnCtx) :
    onRequest conf c (-1) = contextClose conf c := by
  rw [onRequest, if_neg (by decide), if_pos (by decide)]

/-! ## What a read of an upstream changes

What becomes of the context when there is nothing, when the read fails, and when a
reply is merged or forwarded as it is. Each of these is one update of the context.
-/

def UpstreamConnect.endRead (up : UpstreamConnect) : UpstreamConnect :=
  { up with tcp := up.tcp.readStop, status := .idle }

/-- The merged reply after a read of `bs`. -/
def mergeRead (r : UpstreamResponse) (bs : Bytes) : UpstreamResponse :=
  mergeReply { r with buf := store r.buf r.len.toNat bs } bs.length r.len.toNat

/-- The `body_len` that a read of `bs` is merged with. -/
def bodyLen (r : UpstreamResponse) (bs : Bytes) : Int :=
  if (readHead (store r.buf r.len.toNat bs) r.len.toNat).returnNum = 0 then 0
  else bs.length - responseHeadSize

/-- `size` bytes from `start` lie in `buf` and the `padding` behind it. -/
def InsideBuf (start : Nat) (size : Int) : Prop :=
  0 ≤ size ∧ start + size ≤ 2 * (responseBufSize : Int)

instance (start : Nat) (size : Int) : Decidable (InsideBuf start size) :=
  inferInstanceAs (Decidable (_ ∧ _))

theorem onGotUpstreamResponse_again (c : ConnCtx) (g s base : Nat) :
    onGotUpstreamResponse c g s 0 base = c := if_pos rfl

theorem onGotUpstreamResponse_error {c : ConnCtx} {g s base : Nat} {nread : Int}
    (h : nread < 0) :
    onGotUpstreamResponse c g s nread base =
      upstreamServerErr (c.addResponseCount 1) g s := by
  rw [onGotUpstreamResponse, if_neg (by omega), if_pos h]

/-- The merged reply and the worker are all that a good read changes beside
the slot and the count. -/
theorem readUpstream_eq {c : ConnCtx} {g s : Nat} {bs : Bytes} (hbs : bs ≠ [])
    (hm : c.request.web.needMerge ≠ 0) :
    readUpstream c g s bs =
      { (c.addResponseCount 1).modSlot g s .endRead with
        upstreamResponse := mergeRead c.upstreamResponse bs
        worker := if c.gs.distributeCount ≤ c.gs.responseCount + 1 then c.worker.queue
          else c.worker } := by
  have hlen : 0 < bs.length := List.length_pos_iff.2 hbs
  simp only [readUpstream, onGotUpstreamResponse, ConnCtx.setStatus]
  simp only [ConnCtx.modSlot_modSlot]
  rw [if_neg (by omega), if_neg (by omega)]
  split
  · next h => exact absurd h hm
  · split
    · next h =>
        have h' : c.gs.distributeCount ≤ c.gs.responseCount + 1 := h
        rw [if_pos h']
        rfl
    · next h =>
        have h' : ¬ c.gs.distributeCount ≤ c.gs.responseCount + 1 := h
        rw [if_neg h']
        rfl

/-- A reply that is not to be merged is answered at once. -/
theorem readUpstream_unmerged {c : ConnCtx} {g s : Nat} {bs : Bytes} (hbs : bs ≠ [])
    (hm : c.request.web.needMerge = 0) :
    readUpstream c g s bs =
      ({ (c.addResponseCount 1).modSlot g s .endRead with
        upstreamResponse :=
          { c.upstreamResponse with
            buf := store c.upstreamResponse.buf c.upstreamResponse.len.toNat bs } } :
        ConnCtx).uvWriteClient := by
  have hlen : 0 < bs.length := List.length_pos_iff.2 hbs
  simp only [readUpstream, onGotUpstreamResponse, ConnCtx.setStatus]
  simp only [ConnCtx.modSlot_modSlot]
  rw [if_neg (by omega), if_neg (by omega)]
  split
  · rfl
  · next h => exact absurd hm h

/-! ## What distributing changes

A write that goes out changes its slot, and one that fails closes it. The search
for an upstream finds an idle one of the group. -/

theorem distributeUpstreamCb_ok (c : ConnCtx) (g s : Nat) :
    distributeUpstreamCb c g s 0 = (c.addDistributeCount 1).modSlot g s
      fun up => { up with tcp := up.tcp.readStart } :=
  if_neg fun h => h rfl

theorem distributeUpstreamCb_err {c : ConnCtx} {g s : Nat} {status : Int}
    (h : status ≠ 0) : distributeUpstreamCb c g s status = upstreamServerErr c g s :=
  if_pos h

def UpstreamConnect.sendRequest (up : UpstreamConnect) : UpstreamConnect :=
  { up with status := .work, write := true }

theorem distributeRequestUpstream_ok {c : ConnCtx} {g s : Nat}
    (ho : (c.slot g s).tcp.handle.isOpen = true) :
    distributeRequestUpstream c g s 0 = (c.modSlot g s .sendRequest, 0) := by
  have hw : (c.setStatus g s .work).uvWriteUpstream g s 0 =
      (c.modSlot g s .sendRequest, 0) := by
    rw [ConnCtx.uvWriteUpstream, ConnCtx.setStatus]
    simp only [ConnCtx.slot_modSlot_same, ho, if_true, ConnCtx.modSlot_modSlot]
    rfl
  simp only [distributeRequestUpstream, hw]
  rfl

theorem distributeRequestUpstream_err {c : ConnCtx} {g s : Nat} {rv : Int}
    (ho : (c.slot g s).tcp.handle.isOpen = true) (hrv : rv ≠ 0) :
    distributeRequestUpstream c g s rv =
      (upstreamServerErr (c.setStatus g s .connectFail) g s, rv) := by
  have hw : (c.setStatus g s .work).uvWriteUpstream g s rv =
      (c.setStatus g s .work, rv) := by
    rw [ConnCtx.uvWriteUpstream, ConnCtx.setStatus]
    simp only [ConnCtx.slot_modSlot_same, ho, if_true, hrv, if_false]
  simp only [distributeRequestUpstream, hw, if_pos hrv]
  simp only [ConnCtx.setStatus]
  rw [ConnCtx.modSlot_modSlot]

theorem findIdle_status {group : GroupServerSock} : ∀ {tryTime i k : Nat},
    findIdle group tryTime i = some k → (group.upstream k).status = .idle := by
  intro tryTime
  induction tryTime with
  | zero => intro i k h; cases h
  | succ n ih =>
      intro i k h
      simp only [findIdle] at h
      split at h
      · next hidle => cases h; exact hidle
      · exact ih h

theorem findIdle_lt {group : GroupServerSock} (hpos : 0 < group.realNum) :
    ∀ {tryTime i k : Nat}, findIdle group tryTime i = some k →
      k < group.realNum.toNat := by
  intro tryTime
  induction tryTime with
  | zero => intro i k h; cases h
  | succ n ih =>
      intro i k h
      simp only [findIdle] at h
      split at h
      · cases h
        exact Nat.mod_lt _ (by omega)
      · exact ih h

end UiServer
