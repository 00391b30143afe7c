import UiServer.Lib.Settled
import UiServer.Proofs.Session
import UiServer.Server.Command

/-!
# What a client can make the server run

A connection's request is a block of memory that each read of the client writes over from
the front, so what a read completes is the bytes of all reads and, behind them, what the
block from `malloc` held. `commands_of_run` says from these bytes alone which commands a
run has had the server run: the one of the configuration, once for every read that
leaves the magic number and the token in place, and never one with `sudo` or `rm ` in it.
The token of a loaded configuration is shorter than the query, so the comparison does not
leave the query.
-/

namespace UiServer

open CMem

/-! ## What should run

Told from the bytes of the client and the memory of the block: the record that
stands behind each read, and for each of them the command, if the record asks for
one. -/

/-- The bytes a client's read brings. -/
def Event.read? : Event → Option Bytes
  | .onRequest (.data bs) => some bs
  | _ => none

def readsOf (es : List Event) : List Bytes := es.filterMap Event.read?

/-- The client's record behind each of its reads, when the block held `m`. -/
def requestsHeld (m : Mem) : List Bytes → List WebRequest
  | [] => []
  | bs :: bss =>
      ⟨store m 0 (bs.take requestBufSize)⟩ ::
        requestsHeld (store m 0 (bs.take requestBufSize)) bss

/-- The record is a request whose query is the token, and the token is not empty. -/
def AsksCommand (ui : UiConf) (web : WebRequest) : Prop :=
  web.MagicOk ∧ ui.magicCommandToken.headD 0 ≠ 0 ∧
    web.query.take (ui.magicCommandToken.length + 1) = ui.magicCommandToken ++ [0]

/-- A command that may be run. -/
def MayRun (command : Bytes) : Prop :=
  command.headD 0 ≠ 0 ∧ ¬ ascii "sudo" <:+: command ∧ ¬ ascii "rm " <:+: command

instance (ui : UiConf) (web : WebRequest) : Decidable (AsksCommand ui web) :=
  inferInstanceAs (Decidable (_ ∧ _ ∧ _))

instance (command : Bytes) : Decidable (MayRun command) :=
  inferInstanceAs (Decidable (_ ∧ _ ∧ _))

def commandFor (ui : UiConf) (web : WebRequest) : Option Bytes :=
  if AsksCommand ui web ∧ MayRun ui.magicCommand then some ui.magicCommand else none

/-! ## The token

`load_conf` cuts the token to its array, and each line that sets it does so again.
So it has at most 31 bytes, whatever the file holds, and `strcmp` ends inside the
query. -/

theorem assignStages_keeps {I : UiConf → Prop} {stages : List ConfStage}
    (hkeys : ∀ stage ∈ stages, ∀ key ∈ stage.keys, ∀ conf value, I conf →
      I (key.assign conf value))
    (hfix : ∀ stage ∈ stages, ∀ conf, I conf → I (stage.fix conf)) :
    ∀ {conf : UiConf} {line : ConfigLine}, I conf → I (assignStages stages conf line) := by
  induction stages with
  | nil => exact fun hI => hI
  | cons stage stages ih =>
      intro conf line hI
      rw [List.forall_mem_cons] at hkeys hfix
      rw [assignStages]
      cases hkey : tryKeys stage.keys conf line with
      | some t =>
          obtain ⟨key, hfind, rfl⟩ := Option.map_eq_some_iff.1 hkey
          exact hkeys.1 key (List.mem_of_find?_eq_some hfind) conf line.value hI
      | none => exact ih hkeys.2 hfix.2 (hfix.1 conf hI)

/-- The token fits its array. -/
theorem assignConfItem_token {conf : UiConf} {line : ConfigLine}
    (h : conf.magicCommandToken.length ≤ 31) :
    (assignConfItem conf line).magicCommandToken.length ≤ 31 := by
  refine assignStages_keeps (I := fun conf => conf.magicCommandToken.length ≤ 31) ?_ ?_ h
  · simp only [confStages, List.forall_mem_cons, confKeysMerge, confKeysTitle,
      confKeysHighLight, confKeysSort, confKeysLast, confInt, confStr, List.not_mem_nil,
      false_imp_iff, implies_true, and_true]
    simp [List.length_take]
  · simp only [confStages, List.forall_mem_cons, List.not_mem_nil, false_imp_iff,
      implies_true, and_true]
    refine ⟨?_, ?_, ?_, ?_, fun _ h => h⟩ <;> intro conf h
    · rw [UiConf.fixMerge]
      split <;> exact h
    · rw [UiConf.fixTitle]
      split <;> exact h
    · rw [UiConf.fixHighLight]
      split <;> exact h
    · simp only [UiConf.fixSort]
      split <;> split <;> exact h

theorem loadConf_token {stray : Nat → Bytes} {file : Option Bytes} {start ui : UiConf}
    (h : loadConf stray file start = some ui) : ui.magicCommandToken.length ≤ 31 := by
  rw [loadConf, asyncLoadConf_eq] at h
  obtain ⟨s, -, rfl⟩ := Option.map_eq_some_iff.1 h
  exact Settled.foldl_inv (I := fun conf : UiConf => conf.magicCommandToken.length ≤ 31)
    (P := fun _ => True) (fun hI _ => assignConfItem_token hI) (Nat.zero_le 31)
    fun _ _ => trivial

/-! ## The comparison

`strcmp` of the query with the token, as a statement about bytes: the query begins
with the token and its terminator. The two words a command may not have in it are
looked for in the command, and not in what the client sends. -/

theorem strcmpEqAt_iff {m : Mem} : ∀ {s : Bytes} {p : Nat},
    strcmpEqAt m p s = true ↔ read m p (s.length + 1) = s ++ [0] := by
  intro s
  induction s with
  | nil =>
      intro p
      rw [strcmpEqAt, beq_iff_eq]
      show m p = 0 ↔ [m (p + 0)] = [0]
      rw [List.singleton_inj, Nat.add_zero]
  | cons b s ih =>
      intro p
      have hsplit : read m p ((b :: s).length + 1) = m p :: read m (p + 1) (s.length + 1) := by
        rw [List.length_cons, Nat.add_comm (s.length + 1), read_append]
        rfl
      rw [strcmpEqAt, Bool.and_eq_true, beq_iff_eq, ih, hsplit, List.cons_append,
        List.cons.injEq]

/-- A token that is shorter than the query is compared with the query. -/
theorem query_take {web : WebRequest} {n : Nat} (h : n ≤ maxQueryWordLen) :
    web.query.take n = read web.mem 4 n := by
  have hsplit : web.query = read web.mem 4 n ++ read web.mem (4 + n) (maxQueryWordLen - n) := by
    rw [← read_append, Nat.add_sub_cancel' h]
    rfl
  rw [hsplit, List.take_left' (length_read _ _ _)]

theorem runMagicCommand_eq {ui : UiConf} (h : ui.magicCommandToken.headD 0 ≠ 0) :
    runMagicCommand ui = if MayRun ui.magicCommand then some ui.magicCommand else none := by
  rw [runMagicCommand]
  by_cases hempty : ui.magicCommand.headD 0 = 0
  · rw [if_pos (.inr hempty), if_neg fun hmay => hmay.1 hempty]
  rw [if_neg fun hno => hno.elim h hempty]
  by_cases hsudo : ascii "sudo" <:+: ui.magicCommand
  · rw [if_pos hsudo, if_neg fun hmay => hmay.2.1 hsudo]
  by_cases hrm : ascii "rm " <:+: ui.magicCommand
  · rw [if_neg hsudo, if_pos hrm, if_neg fun hmay => hmay.2.2 hrm]
  · rw [if_neg hsudo, if_neg hrm, if_pos ⟨hempty, hsudo, hrm⟩]

theorem onRequestCommand_eq {ui : UiConf} {web : WebRequest}
    (hui : ui.magicCommandToken.length ≤ 31) (hok : web.MagicOk) :
    onRequestCommand ui web = commandFor ui web := by
  have hlen : ui.magicCommandToken.length + 1 ≤ maxQueryWordLen :=
    Nat.le_trans (Nat.succ_le_succ hui) (Nat.le_of_ble_eq_true rfl)
  have hcmp : strcmpEqAt web.mem 4 ui.magicCommandToken = true ↔
      web.query.take (ui.magicCommandToken.length + 1) = ui.magicCommandToken ++ [0] := by
    rw [strcmpEqAt_iff, query_take hlen]
  -- the first byte of a query that is the token is that of the token
  have hfirst : ui.magicCommandToken.headD 0 ≠ 0 →
      strcmpEqAt web.mem 4 ui.magicCommandToken = true → web.mem 4 ≠ 0 := by
    cases ui.magicCommandToken with
    | nil => exact fun h => absurd rfl h
    | cons b s =>
        intro hb heq
        rw [strcmpEqAt, Bool.and_eq_true, beq_iff_eq] at heq
        exact heq.1 ▸ hb
  rw [onRequestCommand, commandFor]
  by_cases hasks : AsksCommand ui web
  · have hequal := hcmp.2 hasks.2.2
    rw [if_pos ⟨hfirst hasks.2.1 hequal, hasks.2.1, hequal⟩, runMagicCommand_eq hasks.2.1]
    exact if_congr (and_iff_right hasks).symm rfl rfl
  · rw [if_neg fun h => hasks ⟨hok, h.2.1, hcmp.1 h.2.2⟩, if_neg fun h => hasks h.1]

/-! ## A run

Accepting a request sets two flags behind the query, and no other callback writes
to the record. So the record of the connection and the one that is told from the
bytes agree in what the comparison looks at, through all of the run. -/

/-- The records agree in the magic number and the query. -/
def SameQuery (w w' : WebRequest) : Prop := ∀ p < 148, w.mem p = w'.mem p

theorem SameQuery.magicOk {w w' : WebRequest} (h : SameQuery w w') :
    w.MagicOk ↔ w'.MagicOk := by
  have hmagic : w.magic = w'.magic := by
    rw [WebRequest.magic, WebRequest.magic, u32, u32,
      read_congr fun i hi => h (0 + i) (by omega)]
  rw [WebRequest.MagicOk, WebRequest.MagicOk, hmagic]

theorem SameQuery.commandFor {w w' : WebRequest} (h : SameQuery w w') (ui : UiConf) :
    commandFor ui w = commandFor ui w' := by
  have hquery : w.query = w'.query :=
    read_congr fun i hi => h (4 + i) (by rw [maxQueryWordLen] at hi; omega)
  have hasks : AsksCommand ui w ↔ AsksCommand ui w' := by
    unfold AsksCommand
    rw [h.magicOk, hquery]
  exact if_congr (and_congr_left' hasks) rfl rfl

theorem sameQuery_flags (w : WebRequest) :
    SameQuery ((w.setNeedMerge 1).setNeedPb 1) w := fun p hp => by
  have hlt : p < 149 := Nat.lt_succ_of_lt hp
  exact (store_lt hlt).trans (store_lt hp)

theorem SameQuery.store {w w' : WebRequest} (h : SameQuery w w') (bs : Bytes) :
    SameQuery ⟨CMem.store w.mem 0 bs⟩ ⟨CMem.store w'.mem 0 bs⟩ := by
  intro p hp
  show CMem.store w.mem 0 bs p = CMem.store w'.mem 0 bs p
  rw [CMem.store, CMem.store, h p hp]

section

variable {conf : Conf} {c t : ConnCtx} {e : Event} {ui : UiConf}

theorem Callback.web (h : Callback conf c e t) (he : e.read? = none) :
    t.request.web = c.request.web := by
  have hrest := h.untouched
  cases h with
  | taken | refused => cases he
  | reply _ _ hbs => rw [(replyOnly_readUpstream c _ _ hbs).request]
  | handled =>
      obtain ⟨up, response, len, heq⟩ := workerHandler_eq conf c
      rw [handleRequest, heq]
  | _ => rw [(hrest rfl).request]

theorem Callback.web_read {bs : Bytes} (h : Callback conf c (.onRequest (.data bs)) t) :
    SameQuery t.request.web ⟨store c.request.web.mem 0 (bs.take requestBufSize)⟩ := by
  cases h with
  | taken => exact sameQuery_flags _
  | refused =>
      rw [(untouched_contextClose conf _).request]
      exact fun _ _ => rfl

theorem read?_some {bs : Bytes} (he : e.read? = some bs) : e = .onRequest (.data bs) := by
  cases e with
  | onRequest r =>
      cases r with
      | data bs =>
          cases he
          rfl
      | error | again => cases he
  | _ => cases he

theorem commandOf_none (he : e.read? = none) : commandOf ui c e = none := by
  cases e with
  | onRequest r =>
      cases r with
      | data bs => cases he
      | error | again => rfl
  | _ => rfl

theorem commandOf_read (hui : ui.magicCommandToken.length ≤ 31) (bs : Bytes) :
    commandOf ui c (.onRequest (.data bs)) =
      commandFor ui ⟨store c.request.web.mem 0 (bs.take requestBufSize)⟩ := by
  have hsame := sameQuery_flags (receiveRequest c bs).request.web
  simp only [commandOf]
  split
  · next hok =>
      rw [onRequestCommand_eq hui (hsame.magicOk.2 hok), hsame.commandFor]
      rfl
  · next hbad => exact (if_neg fun h => hbad h.1.1).symm

/-- What has run is told by the bytes the client sent and by the block. -/
theorem commandsOf_run (hui : ui.magicCommandToken.length ≤ 31) {es : List Event} :
    ∀ {c : ConnCtx} {m : Mem}, SameQuery c.request.web ⟨m⟩ →
      Lts.run (step conf) c es = some t →
        commandsOf conf ui c es = (requestsHeld m (readsOf es)).filterMap (commandFor ui) := by
  induction es with
  | nil => exact fun _ _ => rfl
  | cons e es ih =>
      intro c m hsame hrun
      obtain ⟨d, hd, hrest⟩ := Lts.run_cons.1 hrun
      have hcb := callback_of_step hd
      rw [commandsOf, hd, Option.map_some, Option.getD_some]
      cases hread : e.read? with
      | none =>
          rw [commandOf_none hread, readsOf, List.filterMap_cons_none hread]
          exact ih (by rw [hcb.web hread]; exact hsame) hrest
      | some bs =>
          obtain rfl := read?_some hread
          have hstore := hsame.store (bs.take requestBufSize)
          have hafter : SameQuery d.request.web ⟨store m 0 (bs.take requestBufSize)⟩ :=
            fun p hp => (hcb.web_read p hp).trans (hstore p hp)
          rw [commandOf_read hui, hstore.commandFor, readsOf, List.filterMap_cons_some hread,
            requestsHeld, List.filterMap_cons, ih hafter hrest]
          cases commandFor ui ⟨store m 0 (bs.take requestBufSize)⟩ <;> rfl

theorem request_onNewConnection (conf : Conf) (m : ConnCtx) (rvs : Nat → Nat → Int)
    (accept : Int) : (onNewConnection conf m rvs accept).request = m.request := by
  obtain ⟨gs, n, hall⟩ := groupsOnly_upstreamConnectAll conf
    ({ allocConnContext m with idler := {}, client := .init }.addNeedClose 1) rvs
  simp only [onNewConnection, hall]
  split
  · rfl
  · exact (untouched_contextClose conf _).request

/-- A token of one letter, and a command. -/
def commandFile : Bytes := ascii "Magic_command_token: t\nMagic_command: uptime\n"

def tokenRequest : Bytes := 152 :: 0 :: 0 :: 0 :: 116 :: List.replicate 147 0

end

end UiServer
