import UiServer.Lib.Lts
import UiServer.Server.Request

/-!
# A connection under the event loop

A connection starts with `on_new_connection` and from then on only moves when
the event loop runs one of its callbacks. `step` says which callbacks can run
in a state and what they do; an event carries what the environment decides:
the bytes that were read, the status handed to the callback, and what the
calls of the loop made inside it return.

The rules of the loop are in the guards. Only an open stream whose reading was
started is read. A request in flight on a handle that is being closed is
answered with an error status, and only when it has been answered does the
close callback of the handle run, once. The idle handle calls back as long as
it is active.

A context that was freed is still there in the model: a callback that runs on
it is what the program would do with memory it no longer owns.

Three things are taken for granted. A callback is given its slot and its
context, where the code computes them from a handle; which slots that is right
for is said in `Owner.reachOwners_iff`. The merged reply is a region without an
end, where in the code the request lies behind `padding`; `RunInside` are the
runs in which no read goes so far. And `handle_request` is one event, where it
runs on a thread of the pool; `WorkerAlone` says of a callback that it leaves
alone what the worker is using.
-/

namespace UiServer

open CMem

inductive Read where
  /-- an error or the end of the stream: `nread < 0` -/
  | error
  /-- nothing to read after all: `nread == 0` -/
  | again
  | data (bs : Bytes)
deriving DecidableEq, Repr

/-- The callbacks of a connection, with what the environment decides. -/
inductive Event where
  | onRequest (r : Read)
  | doDistribute (rvs : Nat → Int)
  | upstreamConnectCb (g s : Nat) (status : Int)
  | distributeUpstreamCb (g s : Nat) (status : Int)
  | onGotUpstreamResponse (g s : Nat) (r : Read)
  | upstreamTcpClosed (g s : Nat) (rv : Int)
  | upstreamTimerClosed (g s : Nat)
  | clientClosed
  | handleRequest
  | sendResponse (status : Int)
  | responseSendCb (status : Int)

/-- A block fresh from `malloc`: the loop knows none of the objects in it. -/
def ConnCtx.unregistered (m : ConnCtx) : ConnCtx :=
  { m with
    worker := {}
    write := 0
    client := {}
    idler := {}
    gs :=
      { m.gs with group := fun g =>
        { m.gs.group g with upstream := fun s =>
          { (m.gs.group g).upstream s with
            connect := false, tcp := {}, write := false, timer := {} } } }
    frees := 0 }

/-- `alloc_conn_context`, from memory `m`. -/
def allocConnContext (m : ConnCtx) : ConnCtx :=
  { m.unregistered with requestLen := 0, needClose := 0 }

/-- `on_new_connection`, from memory `m`; `accept` is what `uv_accept`
returns. -/
def onNewConnection (conf : Conf) (m : ConnCtx) (rvs : Nat → Nat → Int)
    (accept : Int) : ConnCtx :=
  let c := allocConnContext m
  let c := { c with idler := {}, client := .init }
  let c := c.addNeedClose 1
  let c := upstreamConnectAll conf c rvs
  if accept = 0 then { c with client := c.client.readStart } else contextClose conf c

/-- A request in flight on `h` may be answered with `status`. -/
def mayAnswer (h : Uv.Handle CloseCb) (status : Int) : Bool :=
  h.isOpen || decide (status ≠ 0)

/-- The bytes a read may deliver into a window of `size` bytes. -/
def fitsWindow (size : Nat) (bs : Bytes) : Bool :=
  decide (0 < bs.length ∧ bs.length ≤ size)

/-- The callback of an event, where it can run. It works on the context that owns
its slot, and `handleRequest` is the whole run of the worker. -/
def step (conf : Conf) (c : ConnCtx) : Event → Option ConnCtx
  | .onRequest r =>
      if c.client.handle.isOpen && c.client.reading then
        match r with
        | .error => some (onRequest conf c (-1))
        | .again => some (onRequest conf c 0)
        | .data bs =>
            if fitsWindow allocRequestBuf.2 bs then some (readClient conf c bs) else none
      else none
  | .doDistribute rvs => if c.idler.active then some (doDistribute conf c rvs) else none
  | .upstreamConnectCb g s status =>
      let up := c.slot g s
      if up.connect && mayAnswer up.tcp.handle status then
        some (upstreamConnectCb
          (c.modSlot g s fun up => { up with connect := false }) g s status)
      else none
  | .distributeUpstreamCb g s status =>
      let up := c.slot g s
      if up.write && mayAnswer up.tcp.handle status then
        some (distributeUpstreamCb
          (c.modSlot g s fun up => { up with write := false }) g s status)
      else none
  | .onGotUpstreamResponse g s r =>
      let up := c.slot g s
      if up.tcp.handle.isOpen && up.tcp.reading then
        match r with
        | .error => some (onGotUpstreamResponse c g s (-1) 0)
        | .again => some (onGotUpstreamResponse c g s 0 0)
        | .data bs =>
            if fitsWindow (allocUpstreamResponseBuf c).2 bs then
              some (readUpstream c g s bs)
            else none
      else none
  | .upstreamTcpClosed g s rv =>
      let up := c.slot g s
      match up.tcp.handle.phase with
      | .closing cb =>
          if up.connect || up.write then none
          else
            some (runCloseCb (c.modSlot g s fun up =>
              { up with tcp := up.tcp.finish }) g s rv cb)
      | _ => none
  | .upstreamTimerClosed g s =>
      match (c.slot g s).timer.phase with
      | .closing cb =>
          some (runCloseCb (c.modSlot g s fun up =>
            { up with timer := up.timer.finish }) g s 0 cb)
      | _ => none
  | .clientClosed =>
      match c.client.handle.phase with
      | .closing _ =>
          if c.write = 0 then
            some (contextCleanCb { c with client := c.client.finish })
          else none
      | _ => none
  | .handleRequest =>
      if 0 < c.worker.queued then
        let c := handleRequest conf c
        some { c with worker := c.worker.run }
      else none
  | .sendResponse status =>
      if 0 < c.worker.ran then
        some (sendResponse { c with worker := c.worker.report } status)
      else none
  | .responseSendCb _ => if 0 < c.write then some { c with write := c.write - 1 } else none

/-! ## What a step takes for granted

Behind `padding` lie the length of the request and the request itself, so a
read that goes past it gives the connection another request, `need_merge`
included. What `step` says then is not what the code does, and a statement
about runs that looks at the request, at the merged reply or at what is sent
is one about the runs in which every read stays inside. -/

/-- The bytes that are read from an upstream lie in `buf` and `padding`, and so
does the body that is appended. -/
def ReplyInside (c : ConnCtx) : Event → Prop
  | .onGotUpstreamResponse _ _ (.data bs) =>
      InsideBuf c.upstreamResponse.len.toNat bs.length ∧
        (c.request.web.needMerge ≠ 0 →
          InsideBuf c.upstreamResponse.len.toNat (bodyLen c.upstreamResponse bs))
  | _ => True

instance decidableReplyInside (c : ConnCtx) : (e : Event) → Decidable (ReplyInside c e)
  | .onGotUpstreamResponse _ _ (.data _) => inferInstanceAs (Decidable (_ ∧ (_ → _)))
  | .onGotUpstreamResponse _ _ .error | .onGotUpstreamResponse _ _ .again
  | .onRequest _ | .doDistribute _ | .upstreamConnectCb _ _ _ | .distributeUpstreamCb _ _ _
  | .upstreamTcpClosed _ _ _ | .upstreamTimerClosed _ _ | .clientClosed | .handleRequest
  | .sendResponse _ | .responseSendCb _ => .isTrue trivial

/-- A run all of whose reads of upstreams stay inside. -/
structure RunInside (conf : Conf) (c : ConnCtx) (es : List Event) (t : ConnCtx) : Prop where
  run : Lts.run (step conf) c es = some t
  inside : Lts.Steps (step conf) ReplyInside c es

/-- The last step of a run that stays inside. -/
theorem RunInside.last {conf : Conf} {s c t : ConnCtx} {es : List Event} {e : Event}
    (h : RunInside conf s (es ++ [e]) t) (hc : Lts.run (step conf) s es = some c) :
    step conf c e = some t := by
  obtain ⟨d, hd, hlast⟩ := Lts.run_append.1 h.run
  obtain ⟨u, hu, hend⟩ := Lts.run_cons.1 hlast
  cases hend
  rwa [Option.some.inj (hc.symm.trans hd)]

theorem runInside_of_passes {conf : Conf} {c t : ConnCtx} {es : List Event}
    (hrun : Lts.run (step conf) c es = some t)
    (h : Lts.passes (step conf) (fun c e => decide (ReplyInside c e)) c es = true) :
    RunInside conf c es t :=
  ⟨hrun, Lts.steps_of_passes of_decide_eq_true h⟩

/-- No bytes are read from the client or an upstream while the worker is queued,
running or still to be reported. -/
def WorkerAlone (c : ConnCtx) : Event → Prop
  | .onRequest (.data _) | .onGotUpstreamResponse _ _ (.data _) => c.worker.Done
  | _ => True

instance decidableWorkerAlone (c : ConnCtx) : (e : Event) → Decidable (WorkerAlone c e)
  | .onRequest (.data _) | .onGotUpstreamResponse _ _ (.data _) =>
      inferInstanceAs (Decidable c.worker.Done)
  | .onRequest .error | .onRequest .again | .onGotUpstreamResponse _ _ .error
  | .onGotUpstreamResponse _ _ .again | .doDistribute _ | .upstreamConnectCb _ _ _
  | .distributeUpstreamCb _ _ _ | .upstreamTcpClosed _ _ _ | .upstreamTimerClosed _ _
  | .clientClosed | .handleRequest | .sendResponse _ | .responseSendCb _ => .isTrue trivial

/-! ## A small server

A server on which the runs of the examples take place: a few groups, templates
with nothing in them, a request and a reply. -/

theorem one_le_maxGroupNum : 1 ≤ maxGroupNum := by decide

/-- A configuration of `n` groups of `k` servers each, with empty templates. -/
def evenConf (n k : Nat) (hn : n ≤ maxGroupNum) (hk : k ≤ groupMaxServerNum) : Conf where
  sgNum := n
  srvNum := fun _ => k
  templates := { tn := [], tpl := fun _ => ⟨.empty, .empty, .empty⟩ }
  makeRes := fun _ _ _ _ w => (w.mem, 0)
  sgNum_le := hn
  srvNum_le := fun _ => Int.ofNat_le.2 hk

def ConnCtx.zeroed : ConnCtx where
  worker := {}
  write := 0
  client := {}
  idler := {}
  responseLen := 0
  needClose := 0
  gs :=
    { group := fun _ =>
        { upstream := fun _ =>
            { connect := false, tcp := {}, write := false, timer := {},
              status := .connectInit, groupIdx := 0, serverIdx := 0 }
          realNum := 0
          sockNum := 0
          connecting := 0
          lru := 0 }
      distributeCount := 0
      responseCount := 0 }
  upstreamResponse := { len := 0, head := .zero, buf := fun _ => 0 }
  requestLen := 0
  request :=
    { web := ⟨fun _ => 0⟩
      up :=
        { magic := 0, query := [], slotId := 0, pageNo := 0, rn := 0, sort := 0,
          other := 0, tn := [], needMerge := 0, needPb := 0 } }
  response := fun _ => 0
  frees := 0

def plainRequest : Bytes := 152 :: List.replicate 151 0

/-- A reply without a body: `n` results, of `n` that there are. -/
def plainReply (n : UInt32) : Bytes :=
  ({ UpstreamResponseHead.zero with returnNum := n, resNum := n, totalNum := n } :
    UpstreamResponseHead).bytes

def twoGroups : Conf := evenConf 2 1 (by decide) (by decide)

/-- Both servers connect, a request comes in and is distributed. -/
def twoGroupsEvents : List Event :=
  [.upstreamConnectCb 0 0 0, .upstreamConnectCb 1 0 0,
    .onRequest (.data plainRequest), .doDistribute fun _ => 0]

def twoGroupsServed : ConnCtx :=
  (Lts.run (step twoGroups) (onNewConnection twoGroups .zeroed (fun _ _ => 0) 0)
    twoGroupsEvents).getD .zeroed

end UiServer
