import UiServer.Proofs.Shutdown
import UiServer.Server.Process

/-!
# Connections do not reach into each other

The contexts of connections that come and go lie in memory that is given out,
freed and given out again. As long as every connection is let go of in order,
whatever the order is in which the connections get their callbacks, a callback
runs only on a block that was not freed and that no other connection has any
memory of (`callback_owns_block`). When the clients have gone and none connects
any more, the server frees all its blocks (`server_drains`).
-/

namespace UiServer

/-- The connection of the block is let go of in order. -/
def Block.ClosesInOrder (conf : Conf) (b : Block) (e : Event) : Prop :=
  UiServer.ClosesInOrder conf b.ctx e

section

variable {conf : Conf} {blockSize : Nat} {bs : List Block}

theorem Block.step_eq_some {b d : Block} {e : Event} :
    Block.step conf b e = some d ↔
      UiServer.step conf b.ctx e = some d.ctx ∧ d.addr = b.addr := by
  simp only [Block.step, Option.map_eq_some_iff]
  constructor
  · rintro ⟨c, hc, rfl⟩
    exact ⟨hc, rfl⟩
  · rintro ⟨hc, haddr⟩
    exact ⟨d.ctx, hc, by rw [← haddr]⟩

/-- A block holds a connection that is open, or one that was closed in order. -/
theorem open_or_closing_of_member {b : Block}
    (h : Lts.Member (newBlock conf blockSize) (Block.step conf)
      (Block.ClosesInOrder conf) b) :
    OpenBooks conf True b.ctx ∨ Closing conf b.ctx := by
  obtain ⟨before, a, b₀, hnew, hreach⟩ := h
  have hb₀ : b₀.ctx = onNewConnection conf a.memory a.rvs a.accept := by
    rw [newBlock] at hnew
    split at hnew
    · cases hnew
      rfl
    · cases hnew
  have hctx : Lts.Reach (UiServer.step conf) (UiServer.ClosesInOrder conf)
      (onNewConnection conf a.memory a.rvs a.accept) b.ctx := by
    induction hreach with
    | init =>
        rw [hb₀]
        exact .init
    | next _ hP hs ih => exact ih.next hP (Block.step_eq_some.1 hs).1
  exact open_or_closing hctx

theorem not_open_freed {c : ConnCtx} (h : OpenBooks conf True c ∨ Closing conf c)
    (hpos : c.frees ≠ 0) : Freed conf c := by
  rcases h with h | h
  · exact absurd h.frees hpos
  · refine ⟨?_, h.books.freed h.still (Nat.pos_of_ne_zero hpos)⟩
    have hfrees := h.books.frees
    split at hfrees
    · exact hfrees
    · exact absurd hfrees hpos

theorem Block.overlaps_comm (b d : Block) :
    b.overlaps blockSize d.addr = d.overlaps blockSize b.addr := by
  simp only [Block.overlaps, and_comm]

/-- Of two blocks with memory in common the older one was freed. -/
theorem older_freed
    (h : Lts.Reach (serve conf blockSize) (Lts.OnMembers (Block.ClosesInOrder conf)) [] bs) :
    bs.Pairwise fun b d => b.overlaps blockSize d.addr = true → Freed conf b.ctx := by
  refine Lts.pairwise_of_run ?_ ?_ ?_ h
  · intro bs a d hmember hnew b hb hover
    rw [newBlock] at hnew
    split at hnew
    · next hmay =>
        cases hnew
        refine not_open_freed (open_or_closing_of_member (hmember b hb)) fun hzero => ?_
        have hnot := List.all_eq_true.1 hmay b hb
        rw [Block.inUse, hover, hzero] at hnot
        cases hnot
    · cases hnew
  · intro b d b' e _ _ hs hR hover
    obtain ⟨hstep, haddr⟩ := Block.step_eq_some.1 hs
    have hover' : b.overlaps blockSize d.addr = true := by
      rw [Block.overlaps, haddr] at hover
      exact hover
    rw [(hR hover').2 e] at hstep
    cases hstep
  · intro b d d' e _ hs hR hover
    obtain ⟨_, haddr⟩ := Block.step_eq_some.1 hs
    rw [haddr] at hover
    exact hR hover

/-- Whatever connections come and go, and whatever memory `malloc` gives them: a
callback that runs finds a block that was not freed, and a block that has any
memory of it was freed and gets no callback any more. -/
theorem callback_owns_block {ds : List Block} {i : Nat} {e : Event}
    (h : Lts.Reach (serve conf blockSize) (Lts.OnMembers (Block.ClosesInOrder conf)) [] bs)
    (hs : serve conf blockSize bs (.move i e) = some ds) :
    ∃ b, bs[i]? = some b ∧ b.ctx.frees = 0 ∧
      ∀ j d, j ≠ i → bs[j]? = some d → b.overlaps blockSize d.addr = true →
        Freed conf d.ctx := by
  obtain ⟨b, b', hget, hstep, _⟩ := Lts.family_move.1 hs
  have hrun := (Block.step_eq_some.1 hstep).1
  have hinUse : b.ctx.frees = 0 := by
    by_contra hne
    have hmember := Lts.reach_member h b (List.mem_of_getElem? hget)
    have hfreed := not_open_freed (open_or_closing_of_member hmember) hne
    rw [hfreed.2 e] at hrun
    cases hrun
  refine ⟨b, hget, hinUse, fun j d hne hget' hover => ?_⟩
  obtain ⟨hi, rfl⟩ := List.getElem?_eq_some_iff.1 hget
  obtain ⟨hj, rfl⟩ := List.getElem?_eq_some_iff.1 hget'
  have holder := List.pairwise_iff_getElem.1 (older_freed h)
  rcases Nat.lt_or_gt_of_ne hne with hlt | hlt
  · exact holder j i hj hi hlt (by rw [← Block.overlaps_comm]; exact hover)
  · -- the older of the two is the one that runs, which was not freed
    have hfreed := (holder i j hi hj hlt hover).1
    rw [hinUse] at hfreed
    cases hfreed

theorem Block.reach {addr : Nat} {c₀ c : ConnCtx}
    (h : Lts.Reach (UiServer.step conf) (UiServer.ClosesInOrder conf) c₀ c) :
    Lts.Reach (Block.step conf) (Block.ClosesInOrder conf) ⟨addr, c₀⟩ ⟨addr, c⟩ := by
  induction h with
  | init => exact .init
  | next _ hP hs ih => exact ih.next hP (Block.step_eq_some.2 ⟨hs, rfl⟩)

theorem reach_accept {a : NewClient} {b : Block}
    (h : Lts.Reach (serve conf blockSize) (Lts.OnMembers (Block.ClosesInOrder conf)) [] bs)
    (hnew : newBlock conf blockSize bs a = some b) :
    Lts.Reach (serve conf blockSize) (Lts.OnMembers (Block.ClosesInOrder conf)) []
      (bs ++ [b]) :=
  Lts.Reach.next (e := .start a) h trivial (Lts.family_start.2 ⟨b, hnew, rfl⟩)

theorem letGo_reach :
    ∃ c, Lts.Reach (UiServer.step twoGroups) (UiServer.ClosesInOrder twoGroups)
      (onNewConnection twoGroups .zeroed (fun _ _ => 0) 0) c ∧ c.frees = 1 := by
  have hrun : ((Lts.run (UiServer.step twoGroups) connected letGo).map fun c => c.frees) =
      some 1 := by decide +kernel
  obtain ⟨c, hc, hfrees⟩ := Option.map_eq_some_iff.1 hrun
  refine ⟨c, Lts.reach_of_run connected_reach hc ?_, hfrees⟩
  refine Lts.steps_cons ⟨connected_nothingInFlight, by decide +kernel⟩ ?_
  refine Lts.steps_cons (show _ ≤ _ → _ by decide +kernel) ?_
  refine Lts.steps_cons (show _ ≤ _ → _ by decide +kernel) ?_
  refine Lts.steps_cons (show _ ≤ _ → _ by decide +kernel) ?_
  refine Lts.steps_cons (show _ ≤ _ → _ by decide +kernel) ?_
  exact Lts.steps_cons (show _ ≤ _ → _ by decide +kernel) trivial

def firstClient (addr : Nat) : NewClient := ⟨addr, .zeroed, fun _ _ => 0, 0⟩

/-- The first connection was freed, and the second was given the same memory. -/
theorem callback_owns_block_again :
    ∃ c ds,
      serve twoGroups 8
        [⟨0, c⟩, ⟨0, onNewConnection twoGroups .zeroed (fun _ _ => 0) 0⟩]
        (.move 1 (.upstreamConnectCb 0 0 0)) = some ds ∧ Freed twoGroups c := by
  obtain ⟨c, hc, hfrees⟩ := letGo_reach
  have hnew : ∀ bs, mayAlloc 8 bs 0 = true → newBlock twoGroups 8 bs (firstClient 0) =
      some ⟨0, onNewConnection twoGroups .zeroed (fun _ _ => 0) 0⟩ :=
    fun bs h => if_pos h
  have hfirst : Lts.Reach (serve twoGroups 8)
      (Lts.OnMembers (Block.ClosesInOrder twoGroups)) [] ([] ++ [⟨0, c⟩]) :=
    (Block.reach hc).of_member (reach_accept .init (hnew [] rfl))
  have hagain : mayAlloc 8 [⟨0, c⟩] 0 = true := by
    simp only [mayAlloc, List.all_cons, List.all_nil, Block.inUse, hfrees]
    rfl
  have hsecond := reach_accept hfirst (hnew _ hagain)
  have hsome : ∃ t, UiServer.step twoGroups
      (onNewConnection twoGroups .zeroed (fun _ _ => 0) 0) (.upstreamConnectCb 0 0 0) =
        some t := Option.isSome_iff_exists.1 (by decide +kernel)
  obtain ⟨t, ht⟩ := hsome
  have hstep : Block.step twoGroups
      ⟨0, onNewConnection twoGroups .zeroed (fun _ _ => 0) 0⟩ (.upstreamConnectCb 0 0 0) =
        some ⟨0, t⟩ := Block.step_eq_some.2 ⟨ht, rfl⟩
  have hmove : serve twoGroups 8
      ([] ++ [⟨0, c⟩] ++ [⟨0, onNewConnection twoGroups .zeroed (fun _ _ => 0) 0⟩])
      (.move 1 (.upstreamConnectCb 0 0 0)) = some _ :=
    Lts.family_move.2 ⟨_, _, rfl, hstep, rfl⟩
  obtain ⟨b, hb, _, hfreed⟩ := callback_owns_block hsecond hmove
  refine ⟨c, _, hmove, hfreed 0 ⟨0, c⟩ (by decide) rfl ?_⟩
  obtain rfl := Option.some.inj hb
  rfl

/-! ## The end of all connections

The connections do not hear of each other, so what is left to do is a sum over
them. One callback of one of them lowers it, and as long as one is not freed it
can go on. -/

theorem server_drains
    (h : Lts.Reach (serve conf blockSize) (Lts.OnMembers (Block.ClosesInOrder conf)) [] bs)
    (hclosed : ∀ b ∈ bs, b.ctx.client.handle.isOpen = false) :
    Lts.Comes (serve conf blockSize) (Lts.OnlyMoves (Block.ClosesInOrder conf))
      (fun bs => ∀ b ∈ bs, Freed conf b.ctx) (bs.map fun b => b.ctx.leftToDo).sum bs := by
  refine @Lts.family_comes _ _ _ (newBlock conf blockSize) (Block.step conf)
    (Block.ClosesInOrder conf) (fun b => Closing conf b.ctx) (fun b => Freed conf b.ctx)
    (fun b => b.ctx.leftToDo) ?_ ?_ ?_ bs fun b hb => ?_
  · intro b d e hI hP hs
    exact hI.step hP (Block.step_eq_some.1 hs).1
  · intro b d e hI hP hs
    exact hI.lowers (Block.step_eq_some.1 hs).1
  · intro b hI
    refine hI.next.imp_right fun ⟨e, hP, he⟩ => ⟨e, hP, ?_⟩
    rw [Block.step, Option.isSome_map]
    exact he
  · refine (open_or_closing_of_member (Lts.reach_member h b hb)).resolve_left fun hopen => ?_
    have hno := hclosed b hb
    rw [hopen.client] at hno
    cases hno

/-- One client, which went away when both servers were connected. -/
theorem server_drains_letGo :
    ∃ c, Lts.run (UiServer.step twoGroups) connected [.onRequest .error] = some c ∧
      Lts.Comes (serve twoGroups 8) (Lts.OnlyMoves (Block.ClosesInOrder twoGroups))
        (fun bs => ∀ b ∈ bs, Freed twoGroups b.ctx) 5 [⟨0, c⟩] := by
  have hrun : ((Lts.run (UiServer.step twoGroups) connected [.onRequest .error]).map
      fun c => (c.leftToDo, c.client.handle.isOpen)) = some (5, false) := by
    decide +kernel
  obtain ⟨c, hc, heq⟩ := Option.map_eq_some_iff.1 hrun
  obtain ⟨hleft, hclosed⟩ := Prod.mk.inj heq
  have hreach := Lts.reach_of_run connected_reach hc
    (Lts.steps_cons ⟨connected_nothingInFlight, by decide +kernel⟩ trivial)
  have hone : Lts.Reach (serve twoGroups 8)
      (Lts.OnMembers (Block.ClosesInOrder twoGroups)) [] ([] ++ [⟨0, c⟩]) :=
    (Block.reach hreach).of_member (reach_accept (a := firstClient 0) .init (if_pos rfl))
  have hcomes := server_drains hone fun b hb => by
    obtain rfl := List.mem_singleton.1 hb
    exact hclosed
  have hsum : (([] ++ [⟨0, c⟩] : List Block).map fun b => b.ctx.leftToDo).sum = 5 := by
    simp only [List.nil_append, List.map_cons, List.map_nil, List.sum_cons, List.sum_nil,
      hleft, Nat.add_zero]
  rw [hsum] at hcomes
  exact ⟨c, hc, hcomes⟩

end

end UiServer
