import UiServer.Template.Load

/-!
# A line of a configuration

`parse_config_line` moves a pointer through a line. It looks at the byte in front of
it once, and then goes back over colons for as long as it finds any, in front of the
line as well. So the pointer is a cursor between what lies before it, nearest byte
first, and the rest of the line up to its terminator; `pos` counts from the beginning
of the line. What lies in front of the line is not the parser's, and is a parameter
(`stray`).

The results are made by cutting the line in place: `key` is a pointer into it, so the
string there goes on behind the key up to where the value was cut.
-/

namespace UiServer

open CMem

structure Cursor where
  pos : Int
  before : Bytes
  rest : Bytes
deriving DecidableEq, Repr

/-- `*p`. -/
def Cursor.get (p : Cursor) : UInt8 := p.rest.headD 0

/-- `*(p-1)`. -/
def Cursor.prev (p : Cursor) : UInt8 := p.before.headD 0

/-- `p++`. -/
def Cursor.next (p : Cursor) : Cursor := ⟨p.pos + 1, p.get :: p.before, p.rest.tail⟩

/-- `p--`. In front of all that is known there is a zero. -/
def Cursor.back (p : Cursor) : Cursor := ⟨p.pos - 1, p.before.tail, p.prev :: p.rest⟩

def goIf (c : UInt8) : Int → Bytes → Bytes → Cursor
  | pos, before, [] => ⟨pos, before, []⟩
  | pos, before, b :: rest =>
      if b = c then goIf c (pos + 1) (b :: before) rest else ⟨pos, before, b :: rest⟩

def goUntil (c : UInt8) : Int → Bytes → Bytes → Cursor
  | pos, before, [] => ⟨pos, before, []⟩
  | pos, before, b :: rest =>
      if b = c then ⟨pos, before, b :: rest⟩ else goUntil c (pos + 1) (b :: before) rest

def backIf (c : UInt8) : Int → Bytes → Bytes → Cursor
  | pos, before, rest =>
      if rest.headD 0 = c then
        match before with
        | [] => ⟨pos - 1, [], 0 :: rest⟩
        | b :: before => backIf c (pos - 1) before (b :: rest)
      else ⟨pos, before, rest⟩

/-- `GO_IF`: `while (*p && *p == c) p++`. -/
def Cursor.goIf (p : Cursor) (c : UInt8) : Cursor := UiServer.goIf c p.pos p.before p.rest

/-- `GO_UNTIL`: `while (*p && *p != c) p++`. -/
def Cursor.goUntil (p : Cursor) (c : UInt8) : Cursor :=
  UiServer.goUntil c p.pos p.before p.rest

/-- `BACK_IF`: `while (*p && *p == c) p--`. -/
def Cursor.backIf (p : Cursor) (c : UInt8) : Cursor := UiServer.backIf c p.pos p.before p.rest

/-- The string at the cursor, when the line is cut at a position. -/
def Cursor.string (p : Cursor) (stop : Int) : Bytes := p.rest.take (stop - p.pos).toNat

def space : UInt8 := 32

def colon : UInt8 := 58

def newline : UInt8 := 10

/-- `trim`: where the value begins, and where the line is cut behind it. -/
def trim (p : Cursor) : Cursor × Int :=
  let str := p.goIf space
  let p := str.goUntil newline
  if p.get = newline then (str, if p.prev = 13 then p.pos - 1 else p.pos) else (str, p.pos)

/-- What the callback is given: the string at `key`, `key_len` and the string at
`value`. -/
structure ConfigLine where
  key : Bytes
  keyLen : Int
  value : Bytes
deriving DecidableEq, Repr

/-- The end of the key: the end of a word, or the colons it ends with. -/
def keyEnd (p : Cursor) : Cursor :=
  if p.prev = colon then (p.back.backIf colon).next else p

/-- What the callback is given when the key lies between two cursors and `trim` is
called at a third. -/
def configLine (key keyEnd p : Cursor) : ConfigLine :=
  let (value, stop) := trim p
  ⟨key.string stop, keyEnd.pos - key.pos, value.string stop⟩

/-- `parse_config_line`, or nothing where it returns `-1`. -/
def parseConfigLine (stray line : Bytes) : Option ConfigLine :=
  let key := (Cursor.mk 0 stray line).goIf space
  let p := keyEnd (key.goUntil space)
  if p.get = colon then some (configLine key p (p.goUntil space))
  else
    let q := p.goIf space
    if q.get = colon then some (configLine key p q.next) else none

def isSpace (c : UInt8) : Bool := c == 32 || (9 ≤ c && c ≤ 13)

def digits (s : Bytes) : Nat :=
  (s.takeWhile fun c => 48 ≤ c && c ≤ 57).foldl (fun n c => 10 * n + (c.toNat - 48)) 0

/-- `strtol(s, NULL, 10)`: white space, a sign and digits, held in 64 bits. -/
def strtol (s : Bytes) : Int :=
  let s := s.dropWhile isSpace
  if s.headD 0 = 45 then max (-(digits s.tail)) (-(2 ^ 63))
  else min (digits (if s.headD 0 = 43 then s.tail else s)) (2 ^ 63 - 1)

/-- `atoi` of any text: 32 bits of `strtol`. -/
def atoiText (s : Bytes) : Int := Int.bmod (strtol s) (2 ^ 32)

/-- The `while (fgets(...))` loop of `async_load_conf`. A line is what stands in the
buffer up to the first zero; `stray` is what lies in front of the buffer, in each
round. -/
def confLoop {σ : Type} (fn : σ → ConfigLine → σ) (stray : Nat → Bytes) :
    Nat → Nat → Bytes → σ → σ
  | 0, _, _, data => data
  | _ + 1, _, [], data => data
  | fuel + 1, n, s, data =>
      let (buf, rest) := fgets 1023 s
      let data :=
        match parseConfigLine (stray n) (cstr buf) with
        | none => data
        | some line => if line.key.headD 0 = 35 then data else fn data line
      confLoop fn stray fuel (n + 1) rest data

/-- `async_load_conf`, or nothing where the file cannot be opened. -/
def asyncLoadConf {σ : Type} (fn : σ → ConfigLine → σ) (stray : Nat → Bytes)
    (file : Option Bytes) (data : σ) : Option σ :=
  file.map fun s => confLoop fn stray s.length 0 s data

/-! ## The lines of a file

The loop parses a line and calls back with it at once. As the parser does not look
at what the callback has done, the lines can be had first and the callback folded
over them. -/

/-- The lines that a callback is called with. -/
def confLines (stray : Nat → Bytes) : Nat → Nat → Bytes → List ConfigLine
  | 0, _, _ => []
  | _ + 1, _, [] => []
  | fuel + 1, n, s =>
      let (buf, rest) := fgets 1023 s
      let lines := confLines stray fuel (n + 1) rest
      match parseConfigLine (stray n) (cstr buf) with
      | none => lines
      | some line => if line.key.headD 0 = 35 then lines else line :: lines

/-- The lines of `file` that count. -/
def settings (stray : Nat → Bytes) (file : Bytes) : List ConfigLine :=
  confLines stray file.length 0 file

theorem confLoop_eq {σ : Type} (fn : σ → ConfigLine → σ) (stray : Nat → Bytes) :
    ∀ (fuel n : Nat) (s : Bytes) (data : σ),
      confLoop fn stray fuel n s data = (confLines stray fuel n s).foldl fn data := by
  intro fuel
  induction fuel with
  | zero => intro n s data; rfl
  | succ fuel ih =>
      intro n s data
      cases s with
      | nil => rfl
      | cons c s =>
          simp only [confLoop, confLines, ih]
          cases hparse : parseConfigLine (stray n) (cstr (fgets 1023 (c :: s)).1) with
          | none => rfl
          | some line =>
              simp only
              split <;> rfl

theorem asyncLoadConf_eq {σ : Type} (fn : σ → ConfigLine → σ) (stray : Nat → Bytes)
    (file : Option Bytes) (data : σ) :
    asyncLoadConf fn stray file data = file.map fun s => (settings stray s).foldl fn data := by
  cases file with
  | none => rfl
  | some s => exact congrArg some (confLoop_eq fn stray _ _ _ _)

section

variable {c : UInt8} {pos : Int} {before w rest : Bytes}

/-- The cursor goes over the bytes that are as wanted and stops at the first that is
not. -/
theorem goIf_append (hw : ∀ b ∈ w, b = c) (hrest : rest.head? ≠ some c) :
    goIf c pos before (w ++ rest) = ⟨pos + w.length, w.reverse ++ before, rest⟩ := by
  induction w generalizing pos before with
  | nil =>
      cases rest with
      | nil => simp [goIf]
      | cons b rest =>
          rw [List.nil_append, goIf, if_neg fun h => hrest (congrArg some h)]
          simp
  | cons b w ih =>
      have hpos : pos + 1 + (w.length : Int) = pos + (b :: w).length := by
        rw [List.length_cons]
        omega
      rw [List.cons_append, goIf, if_pos (hw b (List.mem_cons_self ..)),
        ih fun d hd => hw d (List.mem_cons_of_mem b hd), hpos, List.reverse_cons,
        List.append_assoc]
      rfl

theorem goUntil_append (hw : c ∉ w) (hrest : rest = [] ∨ rest.head? = some c) :
    goUntil c pos before (w ++ rest) = ⟨pos + w.length, w.reverse ++ before, rest⟩ := by
  induction w generalizing pos before with
  | nil =>
      cases rest with
      | nil => simp [goUntil]
      | cons b rest =>
          have hb : b = c := by simpa using hrest
          rw [List.nil_append, goUntil, if_pos hb]
          simp
  | cons b w ih =>
      have hb : ¬ b = c := fun h => hw (h ▸ List.mem_cons_self ..)
      have hpos : pos + 1 + (w.length : Int) = pos + (b :: w).length := by
        rw [List.length_cons]
        omega
      rw [List.cons_append, goUntil, if_neg hb, ih fun h => hw (List.mem_cons_of_mem b h),
        hpos, List.reverse_cons, List.append_assoc]
      rfl

end

end UiServer
