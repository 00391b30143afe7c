import UiServer.Lib.CMem

/-!
# The records on the wire

The client sends a `web_request_t` and the upstreams answer with an
`upstream_response_head_t` followed by a body; the server writes an
`upstream_request_t` to them. The client's record is kept as the memory the
socket is read into, because a read may fill only a part of it, and its
fields are read out at the offsets a 64-bit Linux compiler gives them. The
head of a reply is read out of the receive window the same way. The server's
own request is only ever written field by field, so it is a structure.
-/

namespace UiServer

open CMem

def maxQueryWordLen : Nat := 128

def maxTemplateNameLen : Nat := 32

/-- `sizeof(web_request_t)`, also `REQUEST_BUF_SIZE`. -/
def requestBufSize : Nat := 152

def responseBufSize : Nat := 65535

def upstreamRequestSize : Nat := 192

def responseHeadSize : Nat := 40

/-- `web_request_t`, as memory. -/
structure WebRequest where
  mem : Mem

namespace WebRequest

def magic (w : WebRequest) : UInt32 := u32 w.mem 0

def query (w : WebRequest) : Bytes := read w.mem 4 maxQueryWordLen

def slotId (w : WebRequest) : UInt64 := u64 w.mem 136

def needMerge (w : WebRequest) : UInt8 := w.mem 148

def needPb (w : WebRequest) : UInt8 := w.mem 149

def setNeedMerge (w : WebRequest) (b : UInt8) : WebRequest := ⟨store w.mem 148 [b]⟩

def setNeedPb (w : WebRequest) (b : UInt8) : WebRequest := ⟨store w.mem 149 [b]⟩

def bytes (w : WebRequest) : Bytes := read w.mem 0 requestBufSize

end WebRequest

structure UpstreamRequest where
  magic : UInt32
  query : Bytes
  slotId : UInt64
  pageNo : UInt16
  rn : UInt16
  sort : UInt16
  other : UInt16
  tn : Bytes
  needMerge : UInt8
  needPb : UInt8
deriving DecidableEq, Repr

/-- What an array of `n` characters holds; what is not there is zero. -/
def charArray (n : Nat) (bs : Bytes) : Bytes := (bs ++ List.replicate n 0).take n

/-- The request as it lies in memory. Behind `query` and at its end are gaps,
which keep what `block` held there. -/
def UpstreamRequest.bytes (block : Mem) (up : UpstreamRequest) : Bytes :=
  wordBytes up.magic ++ charArray maxQueryWordLen up.query ++ read block 132 4 ++
    leBytes 8 up.slotId.toNat ++ leBytes 2 up.pageNo.toNat ++ leBytes 2 up.rn.toNat ++
    leBytes 2 up.sort.toNat ++ leBytes 2 up.other.toNat ++
    charArray maxTemplateNameLen up.tn ++ [up.needMerge, up.needPb] ++ read block 186 6

structure UpstreamResponseHeadData where
  type : UInt32
  width : UInt32
  height : UInt32
  capacity : UInt32
  tpl : UInt32
deriving DecidableEq, Repr

structure UpstreamResponseHead where
  status : UInt32
  returnNum : UInt32
  resNum : UInt32
  totalNum : UInt32
  len : UInt32
  data : UpstreamResponseHeadData
deriving DecidableEq, Repr

/-- All fields zero, as `memset` leaves it. -/
def UpstreamResponseHead.zero : UpstreamResponseHead :=
  ⟨0, 0, 0, 0, 0, ⟨0, 0, 0, 0, 0⟩⟩

def readHead (m : Mem) (p : Nat) : UpstreamResponseHead where
  status := u32 m p
  returnNum := u32 m (p + 4)
  resNum := u32 m (p + 8)
  totalNum := u32 m (p + 12)
  len := u32 m (p + 16)
  data :=
    { type := u32 m (p + 20)
      width := u32 m (p + 24)
      height := u32 m (p + 28)
      capacity := u32 m (p + 32)
      tpl := u32 m (p + 36) }

/-- The words of a head in the order they lie in memory. -/
def UpstreamResponseHead.words (h : UpstreamResponseHead) : List UInt32 :=
  [h.status, h.returnNum, h.resNum, h.totalNum, h.len, h.data.type, h.data.width,
    h.data.height, h.data.capacity, h.data.tpl]

/-- A head as an upstream sends it. -/
def UpstreamResponseHead.bytes (h : UpstreamResponseHead) : Bytes :=
  h.words.flatMap wordBytes

/-- A reply as an upstream sends it: a head and the body that follows it, of a
size the receive window has room for. -/
structure Reply where
  head : UpstreamResponseHead
  body : Bytes
  fits : body.length ≤ responseBufSize

def Reply.bytes (a : Reply) : Bytes := a.head.bytes ++ a.body

/-- `upstream_response_t`: the merged head, and `buf` with the `padding` that
follows it as one region. The region has no end here. In the code it is 131070
bytes long and the client's request lies behind it, so what is said of a run in
which more is stored is about another memory; `ReplyInside` is where it is not. -/
structure UpstreamResponse where
  len : UInt32
  head : UpstreamResponseHead
  buf : Mem

def UpstreamResponse.body (r : UpstreamResponse) : Bytes := read r.buf 0 r.len.toNat

theorem length_flatMap_wordBytes (ws : List UInt32) :
    (ws.flatMap wordBytes).length = 4 * ws.length := by
  induction ws with
  | nil => rfl
  | cons w ws ih =>
      rw [List.flatMap_cons, List.length_append, length_wordBytes, ih,
        List.length_cons]
      omega

@[simp] theorem UpstreamResponseHead.length_bytes (h : UpstreamResponseHead) :
    h.bytes.length = responseHeadSize := length_flatMap_wordBytes h.words

@[simp] theorem Reply.length_bytes (a : Reply) :
    a.bytes.length = responseHeadSize + a.body.length := by
  rw [Reply.bytes, List.length_append, UpstreamResponseHead.length_bytes]

theorem Reply.bytes_ne_nil (a : Reply) : a.bytes ≠ [] := by
  intro h
  have hlen := a.length_bytes
  rw [h, List.length_nil] at hlen
  rw [responseHeadSize] at hlen
  omega

theorem u32_store_words {m : Mem} {p k : Nat} {ws : List UInt32} {tail : Bytes}
    (hk : k < ws.length) :
    u32 (store m p (ws.flatMap wordBytes ++ tail)) (p + 4 * k) = ws[k] := by
  have hlen := length_flatMap_wordBytes ws
  apply u32_of_read
  rw [read_store_part (by rw [List.length_append]; omega)]
  have hdrop : (ws.flatMap wordBytes ++ tail).drop (4 * k) =
      (ws.drop k).flatMap wordBytes ++ tail := by
    have hsplit : ws.flatMap wordBytes =
        (ws.take k).flatMap wordBytes ++ (ws.drop k).flatMap wordBytes := by
      rw [← List.flatMap_append, List.take_append_drop]
    have htake : ((ws.take k).flatMap wordBytes).length = 4 * k := by
      rw [length_flatMap_wordBytes, List.length_take]
      omega
    rw [hsplit, List.append_assoc, List.drop_left' htake]
  rw [hdrop, List.drop_eq_getElem_cons hk, List.flatMap_cons, List.append_assoc,
    List.take_left' (length_wordBytes _)]

theorem UpstreamResponseHead.length_words (h : UpstreamResponseHead) :
    h.words.length = 10 := rfl

/-- A head that was stored, whatever comes after it, is read back. -/
theorem readHead_store (m : Mem) (p : Nat) (h : UpstreamResponseHead)
    (tail : Bytes) : readHead (store m p (h.bytes ++ tail)) p = h := by
  have hw : ∀ k (hk : k < 10),
      u32 (store m p (h.bytes ++ tail)) (p + 4 * k) =
        h.words.get ⟨k, by rw [h.length_words]; exact hk⟩ :=
    fun k hk => u32_store_words (by rw [h.length_words]; exact hk)
  have hdata : (readHead (store m p (h.bytes ++ tail)) p).data = h.data := by
    show UpstreamResponseHeadData.mk _ _ _ _ _ = h.data
    rw [hw 5 (by decide), hw 6 (by decide), hw 7 (by decide), hw 8 (by decide),
      hw 9 (by decide)]
    rfl
  have hstatus : u32 (store m p (h.bytes ++ tail)) p = h.status := hw 0 (by decide)
  show UpstreamResponseHead.mk _ _ _ _ _ _ = h
  rw [hstatus, hw 1 (by decide), hw 2 (by decide), hw 3 (by decide),
    hw 4 (by decide)]
  show UpstreamResponseHead.mk _ _ _ _ _ (readHead _ p).data = h
  rw [hdata]
  rfl

end UiServer
