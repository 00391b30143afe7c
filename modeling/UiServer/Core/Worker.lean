import UiServer.Server.Context

/-!
# The work of a request

`setup_upstream_request` fills in what goes to the upstreams, and
`worker_handler` turns the merged reply into the response. The release build
is modelled: the assertions and the `DEBUG` branches are not in it.
-/

namespace UiServer

open CMem

/-- What `snprintf` leaves in an array that holds `arr`. -/
def printInto (arr text : Bytes) : Bytes := text ++ [0] ++ arr.drop (text.length + 1)

/-- `setup_upstream_request`; `page_no`, `rn`, `sort`, `other` and `tn` stay
as they are. -/
def setupUpstreamRequest (web : WebRequest) (up : UpstreamRequest) : UpstreamRequest :=
  { up with
    query := web.query
    magic := UInt32.ofNat upstreamRequestSize
    slotId := web.slotId
    needMerge := web.needMerge
    needPb := web.needPb }

def emptyResponse (c : ConnCtx) : ConnCtx :=
  { c with response := store c.response 0 [123, 125, 0], responseLen := 2 }

def emptyResponseBuf (c : ConnCtx) : ConnCtx :=
  { c with response := store c.response 0 [0], responseLen := 0 }

/-- One call of `temp_make_page` on the response buffer. -/
def makeResponse (conf : Conf) (c : ConnCtx) (index : Nat) (iserr : Int) : MadePage :=
  tempMakePage conf.templates conf.makeRes index c.response responseBufSize
    c.request.web c.request.up c.upstreamResponse iserr

def ConnCtx.withPage (c : ConnCtx) (made : MadePage) : ConnCtx :=
  { c with response := made.page, request := { c.request with up := made.up } }

def workerHandler (conf : Conf) (c : ConnCtx) : ConnCtx :=
  let c := emptyResponseBuf c
  if c.request.web.needPb ≠ 0 then
    let tn := printInto c.request.up.tn (decimal c.upstreamResponse.head.data.tpl.toNat)
    let c := { c with request := { c.request with up := { c.request.up with tn } } }
    match tempGetTemplateIndex conf.templates (cstr tn) with
    | none => emptyResponse c
    | some index =>
        let made := makeResponse conf c index 0
        let c := c.withPage made
        if made.ret < 0 then
          let made := makeResponse conf c index 1
          let c := c.withPage made
          { c with responseLen := made.ret.toNat }
        else { c with responseLen := made.ret.toNat }
  else
    { c with
      response := store c.response 0 c.upstreamResponse.body
      responseLen := c.upstreamResponse.len.toNat }

theorem workerHandler_eq (conf : Conf) (c : ConnCtx) :
    ∃ (up : UpstreamRequest) (response : Mem) (len : Nat), workerHandler conf c =
      { c with request := { c.request with up := up }, response := response,
               responseLen := len } := by
  rw [workerHandler]
  simp only []
  split
  · split
    · exact ⟨_, _, _, rfl⟩
    · split
      · exact ⟨_, _, _, rfl⟩
      · exact ⟨_, _, _, rfl⟩
  · exact ⟨c.request.up, _, _, rfl⟩

end UiServer
