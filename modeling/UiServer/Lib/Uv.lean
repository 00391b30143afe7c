import Mathlib.Tactic.TypeStar

/-!
# Handles of an event loop

What a callback program can rely on about the handles it gives to its event
loop: a handle is initialised, it may be closed once, and the loop runs the
close callback some time later. `closes` counts the calls of the closing
function since the handle was last initialised, which is what a program has
to keep at one: the loop does not allow a handle to be closed twice. After a
second call the handle stays closing, with the callback of the last call.

An idle handle calls back as long as it is active. A piece of work is queued,
runs once on another thread, and is then reported back to the loop once; all
three are counted, so that a program that queues it again too early is not
lost sight of.

Nothing here says which callbacks a program registers: `Cb` names them.
-/

namespace Uv

inductive Phase (Cb : Type*) where
  /-- plain memory: the handle was never initialised -/
  | unset
  | opened
  /-- closed by the program; the loop has still to run the callback -/
  | closing (cb : Cb)
  | closed
deriving DecidableEq, Repr

/-- A handle as the loop sees it. -/
structure Handle (Cb : Type*) where
  phase : Phase Cb := .unset
  closes : Nat := 0
deriving DecidableEq, Repr

variable {Cb : Type*}

/-- Initialising: also a handle that is open is started afresh. -/
def Handle.init : Handle Cb := { phase := .opened, closes := 0 }

def Handle.close (h : Handle Cb) (cb : Cb) : Handle Cb :=
  { phase := .closing cb, closes := h.closes + 1 }

/-- The loop is done with the handle and runs its close callback. -/
def Handle.finish (h : Handle Cb) : Handle Cb := { h with phase := .closed }

/-- Initialised, and its close callback has not run. -/
def Handle.live (h : Handle Cb) : Bool :=
  match h.phase with
  | .opened | .closing _ => true
  | .unset | .closed => false

def Handle.isOpen (h : Handle Cb) : Bool :=
  match h.phase with
  | .opened => true
  | _ => false

@[simp] theorem Handle.isOpen_close (h : Handle Cb) (cb : Cb) :
    (h.close cb).isOpen = false := rfl

@[simp] theorem Handle.live_finish (h : Handle Cb) : h.finish.live = false := rfl

structure Stream (Cb : Type*) where
  handle : Handle Cb := {}
  reading : Bool := false
deriving DecidableEq, Repr

def Stream.init : Stream Cb := { handle := .init, reading := false }

/-- Reading starts on an open stream only. -/
def Stream.readStart (st : Stream Cb) : Stream Cb :=
  if st.handle.isOpen then { st with reading := true } else st

def Stream.readStop (st : Stream Cb) : Stream Cb := { st with reading := false }

def Stream.close (st : Stream Cb) (cb : Cb) : Stream Cb :=
  { handle := st.handle.close cb, reading := false }

def Stream.finish (st : Stream Cb) : Stream Cb :=
  { st with handle := st.handle.finish }

/-- An idle handle; `starts` counts the calls that start it. -/
structure Idle where
  active : Bool := false
  starts : Nat := 0
deriving DecidableEq, Repr

/-- Starting an active handle changes nothing but the count. -/
def Idle.start (i : Idle) : Idle := { active := true, starts := i.starts + 1 }

def Idle.stop (i : Idle) : Idle := { i with active := false }

/-- A work request: how often it waits for its run, how often a run waits to
be reported, and how often it was queued at all. -/
structure Work where
  queued : Nat := 0
  ran : Nat := 0
  calls : Nat := 0
deriving DecidableEq, Repr

def Work.queue (w : Work) : Work :=
  { w with queued := w.queued + 1, calls := w.calls + 1 }

def Work.run (w : Work) : Work := { w with queued := w.queued - 1, ran := w.ran + 1 }

def Work.report (w : Work) : Work := { w with ran := w.ran - 1 }

def Work.Done (w : Work) : Prop := w.queued = 0 ∧ w.ran = 0

instance (w : Work) : Decidable w.Done := inferInstanceAs (Decidable (_ ∧ _))

@[simp] theorem Stream.handle_readStart (st : Stream Cb) :
    st.readStart.handle = st.handle := by
  rw [Stream.readStart]
  split <;> rfl

theorem Stream.reading_readStart {st : Stream Cb} (h : st.handle.isOpen = true) :
    st.readStart.reading = true := by
  rw [Stream.readStart, if_pos h]

@[simp] theorem Stream.handle_close (st : Stream Cb) (cb : Cb) :
    (st.close cb).handle = st.handle.close cb := rfl

@[simp] theorem Stream.handle_finish (st : Stream Cb) :
    st.finish.handle = st.handle.finish := rfl

end Uv
