import Mathlib.Logic.Function.Basic
import UiServer.Lib.Uv
import UiServer.Template.Page

/-!
# The context of a connection

`conn_ctx_t` and the records inside it. The event loop's objects stand where
the source has them, in the context and in each upstream slot, and hold what
the loop knows about them: a request object is a flag that says whether the
request is in flight. The arrays `group` and `upstream` are functions, and
`slot` reads `gs.group[g].upstream[s]`.

Two fields are the loop's view of the context and not the source's: `write`
counts the writes to the client that are in flight, and `frees` how often the
context was freed.
-/

namespace UiServer

open CMem

def maxGroupNum : Nat := 16

def groupMaxServerNum : Nat := 10

inductive UpstreamConnectStatus where
  | connectInit | connecting | idle | work | close | connectFail | waitReconnect
deriving DecidableEq, Repr

/-- The close callbacks the server hands to `uv_close`. -/
inductive CloseCb where
  | upstreamTcpClean | upstreamTimerClean | upstreamReconnectTcp | contextClean
deriving DecidableEq, Repr

structure UpstreamConnect where
  connect : Bool
  tcp : Uv.Stream CloseCb
  write : Bool
  timer : Uv.Handle CloseCb
  status : UpstreamConnectStatus
  groupIdx : Nat
  serverIdx : Nat
deriving DecidableEq, Repr

structure GroupServerSock where
  upstream : Nat → UpstreamConnect
  realNum : Int
  sockNum : Int
  connecting : Int
  lru : Nat

structure GroupSock where
  group : Nat → GroupServerSock
  distributeCount : Int
  responseCount : Int

/-- The two requests of `conn_ctx_t`. -/
structure Request where
  web : WebRequest
  up : UpstreamRequest

/-- `conn_ctx_t`. `response` is `_response.buf`, which `response_buf` always
points to; `responseLen` is `response_buf.len`. -/
structure ConnCtx where
  worker : Uv.Work
  write : Nat
  client : Uv.Stream CloseCb
  idler : Uv.Idle
  responseLen : Nat
  needClose : Int
  gs : GroupSock
  upstreamResponse : UpstreamResponse
  requestLen : Int
  request : Request
  response : Mem
  frees : Nat

/-- The configuration the server runs with: `g_sg_num` and the `srv_num` of
each group, capped as `server_conf_load` caps them, and the templates. -/
structure Conf where
  sgNum : Nat
  srvNum : Nat → Int
  templates : TemplateHandle
  makeRes : MakeRes
  sgNum_le : sgNum ≤ maxGroupNum
  srvNum_le : ∀ g, srvNum g ≤ groupMaxServerNum

def Conf.servers (conf : Conf) (g : Nat) : Nat := (conf.srvNum g).toNat

namespace ConnCtx

def group (c : ConnCtx) (g : Nat) : GroupServerSock := c.gs.group g

/-- `gs.group[g].upstream[s]`. -/
def slot (c : ConnCtx) (g s : Nat) : UpstreamConnect := (c.group g).upstream s

def modGroup (c : ConnCtx) (g : Nat) (f : GroupServerSock → GroupServerSock) :
    ConnCtx :=
  { c with gs :=
    { c.gs with group := Function.update c.gs.group g (f (c.gs.group g)) } }

def modSlot (c : ConnCtx) (g s : Nat) (f : UpstreamConnect → UpstreamConnect) :
    ConnCtx :=
  c.modGroup g fun group =>
    { group with upstream := Function.update group.upstream s (f (group.upstream s)) }

def setStatus (c : ConnCtx) (g s : Nat) (status : UpstreamConnectStatus) : ConnCtx :=
  c.modSlot g s fun up => { up with status := status }

def addSockNum (c : ConnCtx) (g : Nat) (d : Int) : ConnCtx :=
  c.modGroup g fun group => { group with sockNum := group.sockNum + d }

def addConnecting (c : ConnCtx) (g : Nat) (d : Int) : ConnCtx :=
  c.modGroup g fun group => { group with connecting := group.connecting + d }

def setLru (c : ConnCtx) (g i : Nat) : ConnCtx :=
  c.modGroup g fun group => { group with lru := i }

def addNeedClose (c : ConnCtx) (d : Int) : ConnCtx :=
  { c with needClose := c.needClose + d }

/-! ## What an update changes

An update of a slot or a group is seen in that slot or group and nowhere else.
These are the lemmas the functions of the server are simplified with. -/

theorem slot_modSlot (c : ConnCtx) (g s g' s' : Nat)
    (f : UpstreamConnect → UpstreamConnect) :
    (c.modSlot g s f).slot g' s' =
      if g' = g ∧ s' = s then f (c.slot g s) else c.slot g' s' := by
  simp only [slot, group, modSlot, modGroup]
  by_cases hg : g' = g
  · subst hg
    by_cases hs : s' = s
    · subst hs
      simp
    · simp [hs]
  · simp [hg]

@[simp] theorem slot_modSlot_same (c : ConnCtx) (g s : Nat)
    (f : UpstreamConnect → UpstreamConnect) :
    (c.modSlot g s f).slot g s = f (c.slot g s) := by
  rw [slot_modSlot, if_pos ⟨rfl, rfl⟩]

theorem slot_modSlot_ne {c : ConnCtx} {g s g' s' : Nat}
    {f : UpstreamConnect → UpstreamConnect} (h : ¬ (g' = g ∧ s' = s)) :
    (c.modSlot g s f).slot g' s' = c.slot g' s' := by
  rw [slot_modSlot, if_neg h]

@[simp] theorem modSlot_modSlot (c : ConnCtx) (g s : Nat)
    (f f' : UpstreamConnect → UpstreamConnect) :
    (c.modSlot g s f).modSlot g s f' = c.modSlot g s fun up => f' (f up) := by
  simp [modSlot, modGroup]

theorem group_modGroup (c : ConnCtx) (g g' : Nat)
    (f : GroupServerSock → GroupServerSock) :
    (c.modGroup g f).group g' = if g' = g then f (c.group g) else c.group g' := by
  simp only [group, modGroup]
  by_cases hg : g' = g
  · subst hg
    simp
  · simp [hg]

theorem group_modGroup_ne {c : ConnCtx} {g g' : Nat}
    {f : GroupServerSock → GroupServerSock} (h : g' ≠ g) :
    (c.modGroup g f).group g' = c.group g' := by
  rw [group_modGroup, if_neg h]

/-- What an update of a group leaves alone in the group it leaves alone in
the context. -/
theorem modGroup_frame {α : Type} (field : GroupServerSock → α) {c : ConnCtx}
    {g g' : Nat} {f : GroupServerSock → GroupServerSock}
    (hf : field (f (c.group g)) = field (c.group g)) :
    field ((c.modGroup g f).group g') = field (c.group g') := by
  rw [group_modGroup]
  split
  · next hg => rw [hg, hf]
  · rfl

theorem modGroup_add (field : GroupServerSock → Int) {c : ConnCtx} {g g' : Nat}
    {f : GroupServerSock → GroupServerSock} {d : Int}
    (hf : field (f (c.group g)) = field (c.group g) + d) :
    field ((c.modGroup g f).group g') =
      field (c.group g') + if g' = g then d else 0 := by
  rw [group_modGroup]
  split
  · next hg => rw [hg, hf]
  · rw [Int.add_zero]

@[simp] theorem slot_addSockNum (c : ConnCtx) (g : Nat) (d : Int) :
    (c.addSockNum g d).slot = c.slot :=
  funext fun _ => modGroup_frame (·.upstream) rfl

@[simp] theorem slot_addConnecting (c : ConnCtx) (g : Nat) (d : Int) :
    (c.addConnecting g d).slot = c.slot :=
  funext fun _ => modGroup_frame (·.upstream) rfl

@[simp] theorem slot_setLru (c : ConnCtx) (g i : Nat) : (c.setLru g i).slot = c.slot :=
  funext fun _ => modGroup_frame (·.upstream) rfl

@[simp] theorem slot_addNeedClose (c : ConnCtx) (d : Int) :
    (c.addNeedClose d).slot = c.slot := rfl

@[simp] theorem realNum_modSlot (c : ConnCtx) (g s g' : Nat)
    (f : UpstreamConnect → UpstreamConnect) :
    ((c.modSlot g s f).group g').realNum = (c.group g').realNum :=
  modGroup_frame (·.realNum) rfl

@[simp] theorem sockNum_modSlot (c : ConnCtx) (g s g' : Nat)
    (f : UpstreamConnect → UpstreamConnect) :
    ((c.modSlot g s f).group g').sockNum = (c.group g').sockNum :=
  modGroup_frame (·.sockNum) rfl

@[simp] theorem connecting_modSlot (c : ConnCtx) (g s g' : Nat)
    (f : UpstreamConnect → UpstreamConnect) :
    ((c.modSlot g s f).group g').connecting = (c.group g').connecting :=
  modGroup_frame (·.connecting) rfl

@[simp] theorem realNum_addSockNum (c : ConnCtx) (g g' : Nat) (d : Int) :
    ((c.addSockNum g d).group g').realNum = (c.group g').realNum :=
  modGroup_frame (·.realNum) rfl

@[simp] theorem connecting_addSockNum (c : ConnCtx) (g g' : Nat) (d : Int) :
    ((c.addSockNum g d).group g').connecting = (c.group g').connecting :=
  modGroup_frame (·.connecting) rfl

theorem sockNum_addSockNum (c : ConnCtx) (g g' : Nat) (d : Int) :
    ((c.addSockNum g d).group g').sockNum =
      (c.group g').sockNum + if g' = g then d else 0 :=
  modGroup_add (·.sockNum) rfl

@[simp] theorem realNum_addConnecting (c : ConnCtx) (g g' : Nat) (d : Int) :
    ((c.addConnecting g d).group g').realNum = (c.group g').realNum :=
  modGroup_frame (·.realNum) rfl

@[simp] theorem sockNum_addConnecting (c : ConnCtx) (g g' : Nat) (d : Int) :
    ((c.addConnecting g d).group g').sockNum = (c.group g').sockNum :=
  modGroup_frame (·.sockNum) rfl

theorem connecting_addConnecting (c : ConnCtx) (g g' : Nat) (d : Int) :
    ((c.addConnecting g d).group g').connecting =
      (c.group g').connecting + if g' = g then d else 0 :=
  modGroup_add (·.connecting) rfl

@[simp] theorem realNum_setLru (c : ConnCtx) (g i g' : Nat) :
    ((c.setLru g i).group g').realNum = (c.group g').realNum :=
  modGroup_frame (·.realNum) rfl

@[simp] theorem sockNum_setLru (c : ConnCtx) (g i g' : Nat) :
    ((c.setLru g i).group g').sockNum = (c.group g').sockNum :=
  modGroup_frame (·.sockNum) rfl

@[simp] theorem connecting_setLru (c : ConnCtx) (g i g' : Nat) :
    ((c.setLru g i).group g').connecting = (c.group g').connecting :=
  modGroup_frame (·.connecting) rfl

@[simp] theorem group_addNeedClose (c : ConnCtx) (d : Int) :
    (c.addNeedClose d).group = c.group := rfl

end ConnCtx

end UiServer
