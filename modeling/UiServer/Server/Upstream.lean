import UiServer.Server.Context

/-!
# Connecting to the upstreams and letting go of them

The functions of the server that open, lose and close the connections to the
upstreams, and the close callbacks that count `need_close` down to the free
of the context. What a call of the event loop returns is an argument (`rv`).

A callback is given the slot it is about. That it finds the context of that
slot is a matter of pointer arithmetic, which `Owner.ReachOwners` is about.
-/

namespace UiServer

namespace ConnCtx

/-- `uv_tcp_connect`: when it succeeds the connect request is in flight. -/
def uvTcpConnect (c : ConnCtx) (g s : Nat) (rv : Int) : ConnCtx :=
  if rv = 0 then c.modSlot g s fun up => { up with connect := true } else c

end ConnCtx

/-- `upstream_connect_cb`; `req->data` is the group of the slot. -/
def upstreamConnectCb (c : ConnCtx) (g s : Nat) (status : Int) : ConnCtx :=
  let c := c.addConnecting g (-1)
  if status ≠ 0 then
    (c.setStatus g s .connectFail).setStatus g s .waitReconnect
  else
    (c.setStatus g s .idle).addSockNum g 1

/-- `upstream_connect_group_server`; no caller looks at what it returns. -/
def upstreamConnectGroupServer (c : ConnCtx) (g s : Nat) (rv : Int) : ConnCtx :=
  let c := c.modSlot g s fun up =>
    { up with status := .connectInit, groupIdx := g, serverIdx := s }
  let c := (c.modSlot g s fun up => { up with timer := .init }).addNeedClose 1
  let c := (c.modSlot g s fun up => { up with tcp := .init }).addNeedClose 1
  let c := c.uvTcpConnect g s rv
  let c := (c.setStatus g s .connecting).addConnecting g 1
  if rv ≠ 0 then
    ((c.setStatus g s .connectFail).addConnecting g (-1)).setStatus g s .waitReconnect
  else c

def upstreamConnectServers (c : ConnCtx) (g : Nat) (rvs : Nat → Int) : Nat → ConnCtx
  | 0 => c
  | n + 1 => upstreamConnectGroupServer (upstreamConnectServers c g rvs n) g n (rvs n)

def upstreamConnectGroup (conf : Conf) (c : ConnCtx) (g : Nat) (rvs : Nat → Int) :
    ConnCtx :=
  let c := c.modGroup g fun group =>
    { group with realNum := conf.srvNum g, sockNum := 0, connecting := 0, lru := 0 }
  upstreamConnectServers c g rvs (c.group g).realNum.toNat

def upstreamConnectGroups (conf : Conf) (c : ConnCtx) (rvs : Nat → Nat → Int) :
    Nat → ConnCtx
  | 0 => c
  | n + 1 => upstreamConnectGroup conf (upstreamConnectGroups conf c rvs n) n (rvs n)

def upstreamConnectAll (conf : Conf) (c : ConnCtx) (rvs : Nat → Nat → Int) : ConnCtx :=
  upstreamConnectGroups conf c rvs conf.sgNum

/-- The two `uv_close` calls of `upstream_clean` on a slot. -/
def UpstreamConnect.clean (up : UpstreamConnect) : UpstreamConnect :=
  { up with
    timer := up.timer.close .upstreamTimerClean
    tcp := up.tcp.close .upstreamTcpClean }

/-- The inner loop of `upstream_clean`, over the first `n` servers. -/
def upstreamCleanServers (c : ConnCtx) (g : Nat) : Nat → ConnCtx
  | 0 => c
  | n + 1 => (upstreamCleanServers c g n).modSlot g n .clean

/-- The outer loop of `upstream_clean`, over the first `n` groups. -/
def upstreamCleanGroups (c : ConnCtx) : Nat → ConnCtx
  | 0 => c
  | n + 1 =>
      let c := upstreamCleanGroups c n
      upstreamCleanServers c n (c.group n).realNum.toNat

def upstreamClean (conf : Conf) (c : ConnCtx) : ConnCtx :=
  upstreamCleanGroups c conf.sgNum

def contextClose (conf : Conf) (c : ConnCtx) : ConnCtx :=
  let c := upstreamClean conf c
  { c with client := c.client.close .contextClean }

def upstreamServerErr (c : ConnCtx) (g s : Nat) : ConnCtx :=
  let c := c.setStatus g s .close
  let c := c.addSockNum (c.slot g s).groupIdx (-1)
  let c := c.addNeedClose (-1)
  c.modSlot g s fun up => { up with tcp := up.tcp.close .upstreamReconnectTcp }

theorem upstreamCleanServers_frame {α : Type} (field : ConnCtx → α)
    (hf : ∀ c g s f, field (c.modSlot g s f) = field c) (c : ConnCtx) (g n : Nat) :
    field (upstreamCleanServers c g n) = field c := by
  induction n with
  | zero => rfl
  | succ n ih => rw [upstreamCleanServers, hf, ih]

theorem upstreamClean_frame {α : Type} (field : ConnCtx → α)
    (hf : ∀ c g s f, field (c.modSlot g s f) = field c) (conf : Conf) (c : ConnCtx) :
    field (upstreamClean conf c) = field c := by
  rw [upstreamClean]
  induction conf.sgNum with
  | zero => rfl
  | succ n ih => rw [upstreamCleanGroups, upstreamCleanServers_frame field hf, ih]

@[simp] theorem idler_contextClose (conf : Conf) (c : ConnCtx) :
    (contextClose conf c).idler = c.idler :=
  upstreamClean_frame (·.idler) (fun _ _ _ _ => rfl) conf c

@[simp] theorem client_contextClose (conf : Conf) (c : ConnCtx) :
    (contextClose conf c).client = c.client.close .contextClean := by
  have hclient : (upstreamClean conf c).client = c.client :=
    upstreamClean_frame (·.client) (fun _ _ _ _ => rfl) conf c
  show (upstreamClean conf c).client.close .contextClean = _
  rw [hclient]

/-! ## The close callbacks

All four take one off `need_close`. Three of them free the context when nothing is
left, and the fourth connects the slot anew. -/

def upstreamReconnectTcpCb (c : ConnCtx) (g s : Nat) (rv : Int) : ConnCtx :=
  let c := c.addNeedClose (-1)
  upstreamConnectGroupServer c (c.slot g s).groupIdx (c.slot g s).serverIdx rv

/-- What the three clean callbacks do: the last one frees the context. -/
def countDown (c : ConnCtx) : ConnCtx :=
  let c := c.addNeedClose (-1)
  if c.needClose < 1 then { c with frees := c.frees + 1 } else c

def upstreamTcpCleanCb (c : ConnCtx) : ConnCtx := countDown c

def upstreamTimerCleanCb (c : ConnCtx) : ConnCtx := countDown c

/-- `context_clean_cb`; `server_ctx_clean` finds no data to free, since
nothing ever connects to the data store. -/
def contextCleanCb (c : ConnCtx) : ConnCtx := countDown c

/-- The callback a handle was closed with, for a handle of slot `g`, `s`. -/
def runCloseCb (c : ConnCtx) (g s : Nat) (rv : Int) : CloseCb → ConnCtx
  | .upstreamTcpClean => upstreamTcpCleanCb c
  | .upstreamTimerClean => upstreamTimerCleanCb c
  | .upstreamReconnectTcp => upstreamReconnectTcpCb c g s rv
  | .contextClean => contextCleanCb c

/-! ## What the error path changes

A slot that fails is closed, to be connected anew, and is no longer counted in its
group. The other slots are as they were. -/

def UpstreamConnect.fail (up : UpstreamConnect) : UpstreamConnect :=
  { up with status := .close, tcp := up.tcp.close .upstreamReconnectTcp }

theorem slot_upstreamServerErr (c : ConnCtx) (g s g' s' : Nat) :
    (upstreamServerErr c g s).slot g' s' =
      if g' = g ∧ s' = s then (c.slot g s).fail else c.slot g' s' := by
  rw [upstreamServerErr, ConnCtx.setStatus, ConnCtx.slot_modSlot]
  split
  · simp [UpstreamConnect.fail]
  · next h => simp [ConnCtx.slot_modSlot, h]

@[simp] theorem slot_upstreamServerErr_same (c : ConnCtx) (g s : Nat) :
    (upstreamServerErr c g s).slot g s = (c.slot g s).fail := by
  rw [slot_upstreamServerErr, if_pos ⟨rfl, rfl⟩]

theorem slot_upstreamServerErr_ne {c : ConnCtx} {g s g' s' : Nat}
    (h : ¬ (g' = g ∧ s' = s)) :
    (upstreamServerErr c g s).slot g' s' = c.slot g' s' := by
  rw [slot_upstreamServerErr, if_neg h]

theorem group_upstreamServerErr_ne {c : ConnCtx} {g s g' : Nat}
    (hidx : (c.slot g s).groupIdx = g) (h : g' ≠ g) :
    (upstreamServerErr c g s).group g' = c.group g' := by
  have hidx' : ((c.setStatus g s .close).slot g s).groupIdx = g := by
    rw [ConnCtx.setStatus, ConnCtx.slot_modSlot_same]
    exact hidx
  rw [upstreamServerErr]
  simp only [hidx']
  have hsock : ((c.setStatus g s .close).addSockNum g (-1)).group g' = c.group g' :=
    (ConnCtx.group_modGroup_ne h).trans (ConnCtx.group_modGroup_ne h)
  exact (ConnCtx.group_modGroup_ne h).trans hsock

@[simp] theorem distributeCount_upstreamServerErr (c : ConnCtx) (g s : Nat) :
    (upstreamServerErr c g s).gs.distributeCount = c.gs.distributeCount := rfl

@[simp] theorem responseCount_upstreamServerErr (c : ConnCtx) (g s : Nat) :
    (upstreamServerErr c g s).gs.responseCount = c.gs.responseCount := rfl

end UiServer
