import UiServer.Lib.Family
import UiServer.Server.Loop

/-!
# The connections of the server

The loop of the server runs the callbacks of all its connections, in whatever
order they come up, and `on_new_connection` may come between any two of them.
Each connection has the block that `alloc_conn_context` got for it. `malloc`
gives out any memory that no block in use takes up, so a block that was freed
may be given out again, wholly or in part.

`blockSize` is the size of a `conn_ctx_t`, which the compiler chose. What the
loop does with blocks that were freed is kept in the model: they stay in the
list, and a callback that one of them still got would run.
-/

namespace UiServer

structure Block where
  addr : Nat
  ctx : ConnCtx

/-- What the environment decides when a client connects: the address `malloc`
gives out and what the memory there held, what the connects to the upstreams
return, and what `uv_accept` returns. -/
structure NewClient where
  addr : Nat
  memory : ConnCtx
  rvs : Nat → Nat → Int
  accept : Int

/-- The two blocks have memory in common. -/
def Block.overlaps (blockSize : Nat) (b : Block) (addr : Nat) : Bool :=
  decide (b.addr < addr + blockSize ∧ addr < b.addr + blockSize)

def Block.inUse (b : Block) : Bool := decide (b.ctx.frees = 0)

def mayAlloc (blockSize : Nat) (bs : List Block) (addr : Nat) : Bool :=
  bs.all fun b => !(b.inUse && b.overlaps blockSize addr)

def newBlock (conf : Conf) (blockSize : Nat) (bs : List Block) (a : NewClient) :
    Option Block :=
  if mayAlloc blockSize bs a.addr then
    some ⟨a.addr, onNewConnection conf a.memory a.rvs a.accept⟩
  else none

def Block.step (conf : Conf) (b : Block) (e : Event) : Option Block :=
  (UiServer.step conf b.ctx e).map fun c => { b with ctx := c }

/-- One turn of the server: a client connects, or a connection gets one of its
callbacks. -/
def serve (conf : Conf) (blockSize : Nat) :
    List Block → Lts.FamilyEvent NewClient Event → Option (List Block) :=
  Lts.family (newBlock conf blockSize) (Block.step conf)

end UiServer
