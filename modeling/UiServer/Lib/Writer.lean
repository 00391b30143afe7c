import UiServer.Lib.CMem

/-!
# Writing text into a bounded buffer

C code that builds a text in a buffer keeps a write position and the room
left, and refuses to go on when a piece does not fit. Three primitives are
enough for it: a plain copy, a formatted print, which puts a terminator and so
loses the last byte of a piece that fits exactly, and taking back the last
byte. `Writer` models them; `expand` is the text they are meant to build.

The two agree on all but the last byte of the buffer (`Agrees`), and that is
enough: the lost byte of an exact fit is the last one of the buffer, so either
the text ends there, as long as the buffer, or the byte is taken back.
-/

namespace CMem

/-! ## The text to build

An expansion only appends and takes back the last byte. It may be too long on the
way and fit in the end, so what is asked is whether it ever overflows. -/

/-- A step of a text's left to right expansion. -/
inductive Piece where
  | text (bs : Bytes)
  /-- the last byte is taken back, if there is one -/
  | backspace
deriving DecidableEq, Repr

def Piece.apply (out : Bytes) : Piece → Bytes
  | .text bs => out ++ bs
  | .backspace => out.dropLast

/-- The text the pieces leave behind when they are expanded after `out`. -/
def expandFrom (out : Bytes) (ps : List Piece) : Bytes := ps.foldl Piece.apply out

def expand (ps : List Piece) : Bytes := expandFrom [] ps

/-- Some expansion on the way from `out`, first and last included, is longer
than `size`. -/
def OverflowsFrom (size : Nat) : Bytes → List Piece → Prop
  | out, [] => size < out.length
  | out, p :: ps => size < out.length ∨ OverflowsFrom size (p.apply out) ps

def Overflows (size : Nat) (ps : List Piece) : Prop := OverflowsFrom size [] ps

@[simp] theorem expandFrom_nil (out : Bytes) : expandFrom out [] = out := rfl

@[simp] theorem expandFrom_cons (out : Bytes) (p : Piece) (ps : List Piece) :
    expandFrom out (p :: ps) = expandFrom (p.apply out) ps := rfl

theorem expandFrom_append (out : Bytes) (ps qs : List Piece) :
    expandFrom out (ps ++ qs) = expandFrom (expandFrom out ps) qs := by
  simp [expandFrom]

theorem overflowsFrom_of_lt {size : Nat} {out : Bytes} (h : size < out.length)
    (ps : List Piece) : OverflowsFrom size out ps := by
  cases ps with
  | nil => exact h
  | cons p ps => exact Or.inl h

theorem overflowsFrom_append {size : Nat} {ps qs : List Piece} : ∀ {out : Bytes},
    OverflowsFrom size out (ps ++ qs) ↔
      OverflowsFrom size out ps ∨ OverflowsFrom size (expandFrom out ps) qs := by
  induction ps with
  | nil =>
      intro out
      exact ⟨Or.inr, fun h => h.elim (fun h => overflowsFrom_of_lt h qs) id⟩
  | cons p ps ih =>
      intro out
      rw [List.cons_append, OverflowsFrom, ih, OverflowsFrom, or_assoc]
      rfl

/-! ## The writer

Each primitive keeps the writer and the text together. The bytes agree up to the
last of the buffer, and the position is the length of the text. -/

/-- The buffer, the write position in it and the room left. -/
structure Writer where
  mem : Mem
  pbuf : Nat
  nleft : Nat

def Writer.put (w : Writer) (bs : Bytes) : Except Mem Writer :=
  if w.nleft < bs.length then .error w.mem
  else .ok ⟨store w.mem w.pbuf bs, w.pbuf + bs.length, w.nleft - bs.length⟩

theorem Writer.put_ok {w : Writer} {bs : Bytes} (h : bs.length ≤ w.nleft) :
    w.put bs = .ok ⟨store w.mem w.pbuf bs, w.pbuf + bs.length, w.nleft - bs.length⟩ := by
  rw [Writer.put, if_neg (Nat.not_lt.2 h)]

/-- Print `bs` with a terminator; the check comes after the print. -/
def Writer.print (w : Writer) (bs : Bytes) : Except Mem Writer :=
  if w.nleft < bs.length then .error (snprintf w.mem w.pbuf w.nleft bs)
  else .ok ⟨snprintf w.mem w.pbuf w.nleft bs, w.pbuf + bs.length,
    w.nleft - bs.length⟩

theorem Writer.print_ok {w : Writer} {bs : Bytes} (h : bs.length ≤ w.nleft) :
    w.print bs = .ok ⟨snprintf w.mem w.pbuf w.nleft bs, w.pbuf + bs.length,
      w.nleft - bs.length⟩ := by
  rw [Writer.print, if_neg (Nat.not_lt.2 h)]

/-- Take the last byte back, unless all `size` bytes are still free. -/
def Writer.back (size : Nat) (w : Writer) : Writer :=
  if w.nleft < size then
    ⟨store w.mem (w.pbuf - 1) [0], w.pbuf - 1, w.nleft + 1⟩
  else w

/-- The writer holds `out` in a buffer of `size` bytes; the last byte of a
full buffer is not promised. -/
structure Agrees (size : Nat) (w : Writer) (out : Bytes) : Prop where
  pbuf : w.pbuf = out.length
  room : w.pbuf + w.nleft = size
  bytes : ∀ i (h : i < out.length), i + 1 < size → w.mem i = out[i]

theorem Agrees.length_le {size : Nat} {w : Writer} {out : Bytes}
    (h : Agrees size w out) : out.length ≤ size := by
  have := h.pbuf
  have := h.room
  omega

theorem agrees_start (mem : Mem) (size : Nat) : Agrees size ⟨mem, 0, size⟩ [] :=
  ⟨rfl, Nat.zero_add _, fun _ h => absurd h (Nat.not_lt_zero _)⟩

/-- The bytes a copy or a print has to leave behind for the text to grow by
`bs`: all but the last byte of the buffer. -/
theorem Agrees.grow {size : Nat} {w : Writer} {out bs : Bytes} {mem : Mem}
    (h : Agrees size w out) (hfit : bs.length ≤ w.nleft)
    (hold : ∀ i < w.pbuf, mem i = w.mem i)
    (hnew : ∀ i (hi : i < bs.length), w.pbuf + i + 1 < size →
      mem (w.pbuf + i) = bs[i]) :
    Agrees size ⟨mem, w.pbuf + bs.length, w.nleft - bs.length⟩ (out ++ bs) := by
  have hp := h.pbuf
  have hr := h.room
  refine ⟨by simp [hp], ?_, ?_⟩
  · show w.pbuf + bs.length + (w.nleft - bs.length) = size
    omega
  · intro i hi hsize
    show mem i = _
    rcases Nat.lt_or_ge i out.length with hlt | hge
    · rw [hold i (by omega), h.bytes i hlt hsize, List.getElem_append_left hlt]
    · rw [List.getElem_append_right hge]
      have hib : i - out.length < bs.length := by
        rw [List.length_append] at hi
        omega
      have := hnew (i - out.length) hib (by omega)
      rwa [hp, Nat.add_sub_cancel' hge] at this

/-- The terminator goes behind the text, so it is the text that is read back
in front of it. -/
theorem Agrees.read_terminated {size : Nat} {w : Writer} {out : Bytes}
    (h : Agrees size w out) (hlt : out.length < size) :
    read (store w.mem w.pbuf [0]) 0 out.length = out ∧
      store w.mem w.pbuf [0] out.length = 0 := by
  have hp := h.pbuf
  constructor
  · apply List.ext_getElem (length_read _ _ _)
    intro i hi hi'
    rw [getElem_read, Nat.zero_add, store_lt (by omega), h.bytes i hi' (by omega)]
  · have hat : store w.mem w.pbuf [0] (w.pbuf + 0) = 0 := store_at Nat.zero_lt_one
    rw [Nat.add_zero, hp] at hat
    rw [hp]
    exact hat

theorem snprintf_before {m : Mem} {p size i : Nat} {text : Bytes} (h : i < p) :
    snprintf m p size text i = m i := by
  cases size with
  | zero => rfl
  | succ n => exact store_lt h

theorem snprintf_at {m : Mem} {p size i : Nat} {text : Bytes}
    (hi : i < text.length) (hs : i + 1 < size) :
    snprintf m p size text (p + i) = text[i] := by
  obtain ⟨n, rfl⟩ : ∃ n, size = n + 1 := ⟨size - 1, by omega⟩
  have hlen : i < (text.take n).length := by
    rw [List.length_take]
    omega
  rw [snprintf, store_at (by rw [List.length_append]; omega),
    List.getElem_append_left hlen, List.getElem_take]

/-! ## A computation that follows an expansion

A computation ends with the whole expansion or gives up where it overflows. Put
behind one another, two of them follow the two expansions in a row. -/

/-- What a computation that starts at `out` has done for the pieces `ps`: it
ended with a writer that holds their expansion, or it gave up because some
expansion on the way did not fit. -/
def Follows (size : Nat) (r : Except Mem Writer) (out : Bytes) (ps : List Piece) :
    Prop :=
  match r with
  | .ok w => Agrees size w (expandFrom out ps) ∧ ¬ OverflowsFrom size out ps
  | .error _ => OverflowsFrom size out ps

theorem follows_nil {size : Nat} {w : Writer} {out : Bytes} (h : Agrees size w out) :
    Follows size (.ok w) out [] :=
  ⟨h, Nat.not_lt.2 h.length_le⟩

theorem Follows.bind {size : Nat} {r : Except Mem Writer} {out : Bytes}
    {ps qs : List Piece} {f : Writer → Except Mem Writer}
    (h : Follows size r out ps)
    (hf : ∀ w, Agrees size w (expandFrom out ps) →
      Follows size (f w) (expandFrom out ps) qs) :
    Follows size (r >>= f) out (ps ++ qs) := by
  cases r with
  | error m => exact overflowsFrom_append.2 (Or.inl h)
  | ok w =>
      obtain ⟨ha, hfit⟩ := h
      have hw := hf w ha
      show Follows size (f w) out (ps ++ qs)
      cases hr : f w with
      | error m =>
          rw [hr] at hw
          exact overflowsFrom_append.2 (Or.inr hw)
      | ok w' =>
          rw [hr] at hw
          refine ⟨?_, fun ho => ?_⟩
          · rw [expandFrom_append]
            exact hw.1
          · rcases overflowsFrom_append.1 ho with ho | ho
            · exact hfit ho
            · exact hw.2 ho

/-- A text piece that fits exactly when `bs` is no longer than the room. -/
theorem overflowsFrom_text {size : Nat} {w : Writer} {out bs : Bytes}
    (h : Agrees size w out) :
    OverflowsFrom size out [.text bs] ↔ w.nleft < bs.length := by
  have hp := h.pbuf
  have hr := h.room
  simp only [OverflowsFrom, Piece.apply, List.length_append]
  omega

theorem follows_put {size : Nat} {w : Writer} {out : Bytes} (bs : Bytes)
    (h : Agrees size w out) : Follows size (w.put bs) out [.text bs] := by
  rw [Writer.put]
  split
  · next hlt => exact (overflowsFrom_text h).2 hlt
  · next hfit =>
      exact ⟨h.grow (by omega) (fun i hi => store_lt hi) (fun i hi _ => store_at hi),
        fun ho => hfit ((overflowsFrom_text h).1 ho)⟩

theorem follows_print {size : Nat} {w : Writer} {out : Bytes} (bs : Bytes)
    (h : Agrees size w out) : Follows size (w.print bs) out [.text bs] := by
  have hr := h.room
  rw [Writer.print]
  split
  · next hlt => exact (overflowsFrom_text h).2 hlt
  · next hfit =>
      exact ⟨h.grow (by omega) (fun i hi => snprintf_before hi)
          (fun i hi hsize => snprintf_at hi (by omega)),
        fun ho => hfit ((overflowsFrom_text h).1 ho)⟩

theorem follows_printAll {size : Nat} : ∀ (ts : List Bytes) {w : Writer}
    {out : Bytes}, Agrees size w out →
    Follows size (ts.foldlM Writer.print w) out [.text ts.flatten] := by
  intro ts
  induction ts with
  | nil =>
      intro w out h
      have hnil : expandFrom out [.text []] = out := by simp [Piece.apply]
      have hfit := (follows_nil h).2
      refine ⟨?_, ?_⟩
      · rw [List.flatten_nil, hnil]
        exact h
      · rintro (ho | ho)
        · exact hfit ho
        · rw [List.flatten_nil, Piece.apply, List.append_nil] at ho
          exact hfit ho
  | cons t ts ih =>
      intro w out h
      have hsame : expandFrom (Piece.apply out (.text t)) [.text ts.flatten] =
          expandFrom out [.text (t :: ts).flatten] := by
        simp [Piece.apply, List.append_assoc]
      have hboth := (follows_print t h).bind fun w' hw' => ih hw'
      rw [List.foldlM_cons]
      cases hr : w.print t >>= fun w' => ts.foldlM Writer.print w' with
      | error m =>
          rw [hr] at hboth
          rcases hboth with ho | ho | ho
          · exact Or.inl ho
          · refine Or.inr (Nat.lt_of_lt_of_le ho ?_)
            simp only [Piece.apply, List.length_append, List.flatten_cons]
            omega
          · have hlen := congrArg List.length hsame
            simp only [expandFrom_cons, expandFrom_nil] at hlen
            refine Or.inr ?_
            show size < (Piece.apply out (.text (t :: ts).flatten)).length
            rw [← hlen]
            exact ho
      | ok w' =>
          rw [hr] at hboth
          obtain ⟨ha, hfit⟩ := hboth
          have ha' : Agrees size w' (expandFrom out [.text (t :: ts).flatten]) := by
            rw [← hsame]
            exact ha
          refine ⟨ha', ?_⟩
          rintro (ho | ho)
          · exact hfit (Or.inl ho)
          · exact Nat.not_lt.2 ha'.length_le ho

theorem follows_back {size : Nat} {w : Writer} {out : Bytes}
    (h : Agrees size w out) : Follows size (.ok (w.back size)) out [.backspace] := by
  have hp := h.pbuf
  have hr := h.room
  have hle := h.length_le
  refine ⟨?_, ?_⟩
  · rw [Writer.back]
    split
    · next hlt =>
        refine ⟨?_, ?_, ?_⟩
        · show w.pbuf - 1 = out.dropLast.length
          rw [List.length_dropLast]
          omega
        · show w.pbuf - 1 + (w.nleft + 1) = size
          omega
        · intro i hi hsize
          simp only [expandFrom_cons, expandFrom_nil, Piece.apply,
            List.length_dropLast] at hi
          show store w.mem (w.pbuf - 1) [0] i = _
          rw [store_lt (by omega), h.bytes i (by omega) hsize]
          simp [Piece.apply]
    · next hge =>
        have hnil : out = [] := List.length_eq_zero_iff.1 (by omega)
        subst hnil
        exact h
  · simp only [OverflowsFrom, Piece.apply, List.length_dropLast]
    omega

end CMem
