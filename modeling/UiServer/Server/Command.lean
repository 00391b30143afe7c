import Mathlib.Data.List.Infix
import UiServer.Conf.Settings
import UiServer.Server.Loop

/-!
# The magic command

A request whose query is the token of the configuration makes the server run a command
of the configuration, by `system`, before it is distributed. `on_request` compares the
query as a string in memory, so the comparison ends where the token does or at the first
byte that differs.

What a callback runs is listed beside the run (`commandsOf`); it does not touch the
context.
-/

namespace UiServer

open CMem

/-- `strcmp(m + p, s) == 0`. -/
def strcmpEqAt (m : Mem) (p : Nat) : Bytes → Bool
  | [] => m p == 0
  | b :: s => m p == b && strcmpEqAt m (p + 1) s

/-- `run_magic_command`: what is handed to `system`, if anything. -/
def runMagicCommand (ui : UiConf) : Option Bytes :=
  if ui.magicCommandToken.headD 0 = 0 ∨ ui.magicCommand.headD 0 = 0 then none
  else if ascii "sudo" <:+: ui.magicCommand then none
  else if ascii "rm " <:+: ui.magicCommand then none
  else some ui.magicCommand

/-- The part of `on_request` between the magic number and `setup_upstream_request`. -/
def onRequestCommand (ui : UiConf) (web : WebRequest) : Option Bytes :=
  if web.mem 4 ≠ 0 ∧ ui.magicCommandToken.headD 0 ≠ 0 ∧
      strcmpEqAt web.mem 4 ui.magicCommandToken = true then runMagicCommand ui
  else none

/-- What a callback runs. -/
def commandOf (ui : UiConf) (c : ConnCtx) : Event → Option Bytes
  | .onRequest (.data bs) =>
      let web := (receiveRequest c bs).request.web
      if web.MagicOk then onRequestCommand ui ((web.setNeedMerge 1).setNeedPb 1) else none
  | _ => none

/-- What the callbacks of a run have run, in order. -/
def commandsOf (conf : Conf) (ui : UiConf) : ConnCtx → List Event → List Bytes
  | _, [] => []
  | c, e :: es =>
      (commandOf ui c e).toList ++ ((step conf c e).map fun t => commandsOf conf ui t es).getD []

end UiServer
