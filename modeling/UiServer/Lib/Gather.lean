import Mathlib.Logic.Function.Basic
import UiServer.Lib.Refine

/-!
# Gathering answers

The protocol of a coordinator that serves requests by asking servers. A request is put
to the servers that are free; each of them is told the question, owes an answer, and gives
it or is lost. The answers are merged, and the answer after which no server is at work for
the coordinator any more asks for one job: a response made out of what was gathered, then
reported and sent.

The point of it is that there is one response to a request: what is under way for the
requests that came, from the asking to the last byte, never weighs more than these requests
(`Step.weigh`).
-/

namespace Gather

universe u v w

variable {σ : Type u} {α : Type v} {ρ : Type w}

/-- What a server is to the coordinator. -/
inductive Peer where
  | away | free | told | owing
deriving DecidableEq, Repr

/-- The server is at work for the coordinator. -/
def Peer.busy : Peer → Bool
  | .told | .owing => true
  | .away | .free => false

/-- What a server may be after a request was put to the servers. -/
def Peer.Asked (p k : Peer) : Prop := k = p ∨ p = .free ∧ (k = .told ∨ k = .away)

theorem Peer.Asked.trans {p k l : Peer} (h : p.Asked k) (h' : k.Asked l) : p.Asked l := by
  obtain rfl | ⟨rfl, rfl | rfl⟩ := h
  · exact h'
  · obtain rfl | ⟨hfree, -⟩ := h'
    · exact .inr ⟨rfl, .inl rfl⟩
    · cases hfree
  · obtain rfl | ⟨hfree, -⟩ := h'
    · exact .inr ⟨rfl, .inr rfl⟩
    · cases hfree

/-- A coordinator: whether a request is to be put to the servers, what was gathered, and
the jobs that are asked for, done, and being sent. -/
structure Gatherer (σ : Type u) (α : Type v) where
  wanted : Bool
  peer : σ → Peer
  gathered : α
  jobs : Nat
  made : Nat
  sending : Nat

/-- What can be seen of a coordinator. -/
inductive Act (σ : Type u) (ρ : Type w) where
  | request
  | answer (p : σ) (r : ρ)
  | work
  | report
  | sent
deriving DecidableEq, Repr

def Act.isRequest : Act σ ρ → Bool
  | .request => true
  | _ => false

def Act.isSent : Act σ ρ → Bool
  | .sent => true
  | _ => false

/-- Nothing was asked yet. -/
def start (x : α) : Gatherer σ α where
  wanted := false
  peer _ := .away
  gathered := x
  jobs := 0
  made := 0
  sending := 0

/-- Some server is at work. -/
def Gatherer.Waits (a : Gatherer σ α) : Prop := ∃ p, (a.peer p).busy = true

/-- No server but `p` is at work. -/
def Gatherer.Last (a : Gatherer σ α) (p : σ) : Prop := ∀ q, q ≠ p → (a.peer q).busy = false

open Classical in
noncomputable def Gatherer.waiting (a : Gatherer σ α) : Nat := if a.Waits then 1 else 0

/-- What is under way: a request that is wanted, or is being worked at, or whose response
is made or sent. -/
noncomputable def Gatherer.underWay (a : Gatherer σ α) : Nat :=
  a.wanted.toNat + a.waiting + a.jobs + a.made + a.sending

section

variable {a b : Gatherer σ α}

theorem Gatherer.waiting_le_one (a : Gatherer σ α) : a.waiting ≤ 1 := by
  rw [Gatherer.waiting]
  split
  · exact Nat.le_refl 1
  · exact Nat.zero_le 1

theorem Gatherer.waiting_le (h : b.Waits → a.Waits) : b.waiting ≤ a.waiting := by
  rw [Gatherer.waiting, Gatherer.waiting]
  split
  · next hb => exact Nat.le_of_eq (if_pos (h hb)).symm
  · exact Nat.zero_le _

theorem Gatherer.waiting_of_waits (h : a.Waits) : a.waiting = 1 := if_pos h

theorem Gatherer.waiting_of_not (h : ¬ a.Waits) : a.waiting = 0 := if_neg h

end

variable [DecidableEq σ]

def Gatherer.set (a : Gatherer σ α) (p : σ) (k : Peer) : Gatherer σ α :=
  { a with peer := Function.update a.peer p k }

theorem Gatherer.set_same {a : Gatherer σ α} {p : σ} {k : Peer} (h : a.peer p = k) :
    a.set p k = a := by rw [Gatherer.set, ← h, Function.update_eq_self]

/-- The steps: `merge` takes in an answer, and `reset` forgets what was gathered. -/
inductive Step (merge : α → ρ → α) (reset : α → α) :
    Gatherer σ α → Option (Act σ ρ) → Gatherer σ α → Prop where
  | request (a) : Step merge reset a (some .request)
      { a with wanted := true, gathered := reset a.gathered }
  | ask (a) (peer : σ → Peer) : a.wanted = true → (∀ p, (a.peer p).Asked (peer p)) →
      Step merge reset a none { a with wanted := false, peer := peer }
  | back (a) (p) : a.peer p = .away → Step merge reset a none (a.set p .free)
  | told (a) (p) : a.peer p = .told → Step merge reset a none (a.set p .owing)
  | lost (a) (p) : (a.peer p).busy = true → Step merge reset a none (a.set p .away)
  | answer (a) (p) (r) : a.peer p = .owing → ¬ a.Last p → Step merge reset a
      (some (.answer p r)) { a.set p .free with gathered := merge a.gathered r }
  | lastAnswer (a) (p) (r) : a.peer p = .owing → a.Last p → Step merge reset a
      (some (.answer p r))
      { a.set p .free with gathered := merge a.gathered r, jobs := a.jobs + 1 }
  | work (a) : 0 < a.jobs → Step merge reset a (some .work)
      { a with jobs := a.jobs - 1, made := a.made + 1 }
  | report (a) (n) : 0 < a.made → n ≤ 1 → Step merge reset a (some .report)
      { a with made := a.made - 1, sending := a.sending + n }
  | sent (a) : 0 < a.sending → Step merge reset a (some .sent)
      { a with sending := a.sending - 1 }

section

variable {a b : Gatherer σ α} {p : σ} {k : Peer}

theorem Gatherer.Waits.of_set (hb : b.peer = Function.update a.peer p k)
    (hk : k.busy = true → (a.peer p).busy = true) (h : b.Waits) : a.Waits := by
  obtain ⟨q, hq⟩ := h
  rw [hb] at hq
  by_cases hqp : q = p
  · subst hqp
    rw [Function.update_self] at hq
    exact ⟨q, hk hq⟩
  · rw [Function.update_of_ne hqp] at hq
    exact ⟨q, hq⟩

theorem Gatherer.Last.not_waits (h : a.Last p) (hb : b.peer = Function.update a.peer p .free) :
    ¬ b.Waits := by
  rintro ⟨q, hq⟩
  rw [hb] at hq
  by_cases hqp : q = p
  · subst hqp
    rw [Function.update_self] at hq
    cases hq
  · rw [Function.update_of_ne hqp, h q hqp] at hq
    cases hq

variable {merge : α → ρ → α} {reset : α → α} {l : Option (Act σ ρ)}

/-- A server that is not put to work adds nothing. -/
theorem Gatherer.underWay_set_le (hk : k.busy = true → (a.peer p).busy = true) :
    (a.set p k).underWay ≤ a.underWay := by
  have hwait : (a.set p k).waiting ≤ a.waiting := Gatherer.waiting_le fun h => h.of_set rfl hk
  simp only [Gatherer.underWay, Gatherer.set] at hwait ⊢
  omega

/-- Only a request adds to what is under way; what was sent is under way no more. -/
theorem Step.weigh (h : Step merge reset a l b) :
    b.underWay + l.toList.countP Act.isSent ≤ a.underWay + l.toList.countP Act.isRequest := by
  cases h with
  | request =>
      have hone := Bool.toNat_le a.wanted
      show 1 + a.waiting + a.jobs + a.made + a.sending + 0 ≤
        a.wanted.toNat + a.waiting + a.jobs + a.made + a.sending + 1
      omega
  | ask peer hwanted _ =>
      have hone := Gatherer.waiting_le_one { a with wanted := false, peer := peer }
      simp only [Gatherer.underWay, hwanted, Bool.toNat_true, Bool.toNat_false,
        Option.toList_none, List.countP_nil]
      omega
  | back p => exact Gatherer.underWay_set_le fun h => by cases h
  | told p htold => exact Gatherer.underWay_set_le fun _ => by rw [htold]; rfl
  | lost p hbusy => exact Gatherer.underWay_set_le fun _ => hbusy
  | answer p r =>
      -- an answer changes nothing else that is counted
      exact Gatherer.underWay_set_le (a := a) (p := p) (k := .free) fun h => by cases h
  | lastAnswer p r howing hlast =>
      have hbefore : a.waiting = 1 := Gatherer.waiting_of_waits ⟨p, by rw [howing]; rfl⟩
      have hafter : (a.set p .free).waiting = 0 := Gatherer.waiting_of_not (hlast.not_waits rfl)
      show a.wanted.toNat + (a.set p .free).waiting + (a.jobs + 1) + a.made + a.sending + 0 ≤
        a.wanted.toNat + a.waiting + a.jobs + a.made + a.sending + 0
      omega
  | work hjobs =>
      show a.wanted.toNat + a.waiting + (a.jobs - 1) + (a.made + 1) + a.sending + 0 ≤
        a.wanted.toNat + a.waiting + a.jobs + a.made + a.sending + 0
      omega
  | report n hmade hn =>
      show a.wanted.toNat + a.waiting + a.jobs + (a.made - 1) + (a.sending + n) + 0 ≤
        a.wanted.toNat + a.waiting + a.jobs + a.made + a.sending + 0
      omega
  | sent hsending =>
      show a.wanted.toNat + a.waiting + a.jobs + a.made + (a.sending - 1) + 1 ≤
        a.wanted.toNat + a.waiting + a.jobs + a.made + a.sending + 0
      omega

omit [DecidableEq σ] in
theorem underWay_start (x : α) : Gatherer.underWay (start x : Gatherer σ α) = 0 := by
  have hwait : Gatherer.waiting (start x : Gatherer σ α) = 0 :=
    Gatherer.waiting_of_not fun ⟨p, hp⟩ => by cases hp
  rw [Gatherer.underWay, hwait]
  rfl

/-- No more is under way or was sent than was asked for. -/
theorem underWay_le {ls : List (Act σ ρ)} {x : α}
    (h : Lts.Trace (Step merge reset) (start x) ls b) :
    b.underWay + ls.countP Act.isSent ≤ ls.countP Act.isRequest := by
  have hweigh := h.weigh Step.weigh
  rwa [underWay_start, Nat.zero_add] at hweigh

end

end Gather
