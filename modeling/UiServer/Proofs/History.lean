import UiServer.Proofs.Callbacks
import UiServer.Proofs.Serving

/-!
# Which request a reply is for

A connection keeps one copy of everything about a request, so nothing in it
says which request a reply or a page belongs to. `Tracked` says it: beside the
connection it keeps the number of the request that was taken in last, the
request each slot was last asked for, the request the worker was last queued
for, the one the page in the response buffer was made for, and the replies and
responses so far. What the bytes of a reply answer is not for the connection to
say, since a reply may come in pieces and the rest of it be read for the next
request: the server that sent them knows it, and it comes with the event
(`Observed`). `track` only watches (`run_track`): it never has a part in what
the connection does.
-/

namespace UiServer

open CMem

/-- A response as it is handed to `uv_write`, and the request its page was
made for. -/
structure Sent where
  request : Nat
  text : Bytes

/-- A callback, and the number of the request that the bytes it reads from an
upstream are an answer to; for the other callbacks the number means nothing. -/
structure Observed where
  event : Event
  answers : Nat

/-- A reply that was read, or a piece of one: the request it answers, and the one
that was taken in last then, into whose merged reply it went. -/
structure Got where
  request : Nat
  current : Nat
  bytes : Bytes
deriving DecidableEq

/-- A connection and its history. Requests are numbered from one, in the order
`on_request` takes them in. -/
structure Tracked where
  conn : ConnCtx
  current : Nat
  webs : Nat → WebRequest
  asked : Slot → Nat
  replies : List Got
  work : Nat
  page : Nat
  /-- the responses, the latest first -/
  sent : List Sent

def Tracked.start (c : ConnCtx) : Tracked where
  conn := c
  current := 0
  webs := fun _ => c.request.web
  asked := fun _ => 0
  replies := []
  work := 0
  page := 0
  sent := []

def takes (c : ConnCtx) : Event → Bool
  | .onRequest (.data bs) => decide (receiveRequest c bs).request.web.MagicOk
  | _ => false

def Tracked.replyOf (x : Tracked) (k : Nat) : Event → List Got
  | .onGotUpstreamResponse _ _ (.data bs) => [⟨k, x.current, bs⟩]
  | _ => []

def responseText (c : ConnCtx) : Bytes := read c.response 0 c.responseLen

def Tracked.currentAfter (x : Tracked) (e : Event) : Nat :=
  if takes x.conn e then x.current + 1 else x.current

/-- The request a slot is asked for is the current one when the write to it
starts. `k` is what a reply answers. -/
def Tracked.next (x : Tracked) (k : Nat) (e : Event) (t : ConnCtx) : Tracked where
  conn := t
  current := x.currentAfter e
  webs :=
    if takes x.conn e then Function.update x.webs (x.currentAfter e) t.request.web
    else x.webs
  asked := fun p =>
    if (t.slot p.1 p.2).write && !(x.conn.slot p.1 p.2).write then x.currentAfter e
    else x.asked p
  replies := x.replies ++ x.replyOf k e
  work := if x.conn.worker.calls < t.worker.calls then x.currentAfter e else x.work
  page := match e with
    | .handleRequest => x.currentAfter e
    | _ => x.page
  sent :=
    if x.conn.write < t.write then ⟨x.page, responseText t⟩ :: x.sent else x.sent

/-- The callback runs, and what it was about is written down. What a read was the
answer to is not for the program to know and comes with the event. -/
def track (conf : Conf) (x : Tracked) (o : Observed) : Option Tracked :=
  (step conf x.conn o.event).map (x.next o.answers o.event)

theorem track_eq_some {conf : Conf} {x y : Tracked} {o : Observed} :
    track conf x o = some y ↔
      ∃ t, step conf x.conn o.event = some t ∧ x.next o.answers o.event t = y :=
  Option.map_eq_some_iff

/-- A tracked run is a run. -/
theorem run_track (conf : Conf) {os : List Observed} : ∀ x : Tracked,
    (Lts.run (track conf) x os).map Tracked.conn =
      Lts.run (step conf) x.conn (os.map Observed.event) := by
  induction os with
  | nil => intro x; rfl
  | cons o os ih =>
      intro x
      rw [List.map_cons]
      simp only [Lts.run, track]
      cases step conf x.conn o.event with
      | none => rfl
      | some t => exact ih (x.next o.answers o.event t)

/-! ## What a page is made from

`MergedFrom` says of a merged reply which replies it is made of, `MadeFor` says of
a text that it is the page for a request and for replies to that request which had
been read. The replies only grow, so what was made for a request stays made for
it. -/

def repliesTo (log : List Got) (k : Nat) : List Bytes :=
  (log.filter fun a => decide (a.request = k)).map Got.bytes

/-- The merged reply is what `on_request` leaves, with these replies merged
into it. -/
def MergedFrom (r : UpstreamResponse) (bss : List Bytes) : Prop :=
  ∃ buf : Mem, r = bss.foldl mergeRead { len := 0, head := .zero, buf := buf }

/-- `text` is the page the worker makes for request `k` from the replies to it
that had been read at some time. -/
def MadeFor (conf : Conf) (x : Tracked) (k : Nat) (text : Bytes) : Prop :=
  ∃ (log : List Got) (d : ConnCtx), log <+: x.replies ∧
    d.request.web = x.webs k ∧ MergedFrom d.upstreamResponse (repliesTo log k) ∧
    text = responseText (workerHandler conf d)

theorem MergedFrom.read {r : UpstreamResponse} {bss : List Bytes} (h : MergedFrom r bss)
    (bs : Bytes) : MergedFrom (mergeRead r bs) (bss ++ [bs]) := by
  obtain ⟨buf, rfl⟩ := h
  exact ⟨buf, by rw [List.foldl_append]; rfl⟩

theorem repliesTo_append_self (log : List Got) (k n : Nat) (bs : Bytes) :
    repliesTo (log ++ [⟨k, n, bs⟩]) k = repliesTo log k ++ [bs] := by
  simp [repliesTo]

theorem repliesTo_eq_nil {log : List Got} {k : Nat}
    (h : ∀ a ∈ log, a.request ≠ k) : repliesTo log k = [] := by
  rw [repliesTo, List.filter_eq_nil_iff.2 fun a ha => by simpa using h a ha]
  rfl

theorem MadeFor.mono {conf : Conf} {x y : Tracked} {k : Nat} {text : Bytes}
    (h : MadeFor conf x k text) (hlog : x.replies <+: y.replies)
    (hweb : y.webs k = x.webs k) : MadeFor conf y k text := by
  obtain ⟨log, d, hpre, hd, hm, htext⟩ := h
  exact ⟨log, d, hpre.trans hlog, hd.trans hweb.symm, hm, htext⟩

section

variable {conf : Conf} {x : Tracked} {t : ConnCtx} {k : Nat} {e : Event}

/-! ## What the history is after a step

Most steps take in no request, start no write and read no reply, and what they
leave of the history is left as it was. -/

theorem Tracked.next_current (h : takes x.conn e = false) :
    (x.next k e t).current = x.current := by
  show (if takes x.conn e then x.current + 1 else x.current) = _
  rw [h]
  rfl

theorem Tracked.next_webs (h : takes x.conn e = false) : (x.next k e t).webs = x.webs := by
  simp only [Tracked.next]
  simp only [h]
  rfl

theorem Tracked.next_sent (h : t.write ≤ x.conn.write) : (x.next k e t).sent = x.sent :=
  if_neg (Nat.not_lt.2 h)

theorem Tracked.next_work (h : t.worker.calls = x.conn.worker.calls) :
    (x.next k e t).work = x.work := by
  show (if x.conn.worker.calls < t.worker.calls then _ else _) = _
  rw [h, if_neg (Nat.lt_irrefl _)]

theorem Tracked.replies_prefix : x.replies <+: (x.next k e t).replies :=
  List.prefix_append _ _

theorem MadeFor.next {n : Nat} {text : Bytes} (h : MadeFor conf x n text)
    (hn : takes x.conn e = false ∨ n ≤ x.current) : MadeFor conf (x.next k e t) n text := by
  refine h.mono Tracked.replies_prefix ?_
  rcases hn with ht | hn
  · rw [Tracked.next_webs ht]
  · show (if takes x.conn e then Function.update x.webs (x.currentAfter e) _ else x.webs) n
      = x.webs n
    split
    · next ht =>
        have hnew : x.currentAfter e = x.current + 1 := if_pos ht
        rw [Function.update_of_ne (by omega)]
    · rfl

end

end UiServer
