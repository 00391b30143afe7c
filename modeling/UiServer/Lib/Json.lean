import UiServer.Lib.CMem
import UiServer.Lib.Codes

/-!
# The inside of a JSON string

Between the quotes of a JSON string stand characters of three kinds: one that
stands for itself, a backslash with a letter, and a backslash with `u` and four
hex digits. A text here is bytes, so a byte from 0x80 on stands for itself and
what an escape names is written in UTF-8.

`IsBody` is the grammar and `unescape` the value. Surrogates are refused: pairs
of them are not put together.
-/

namespace Json

open CMem

def quote : UInt8 := 34

def backslash : UInt8 := 92

/-- The letters behind a backslash, with what they stand for. -/
def shortEscapes : List (UInt8 × UInt8) :=
  [(34, 34), (92, 92), (47, 47), (98, 8), (102, 12), (110, 10), (114, 13), (116, 9)]

def hexDigit (c : UInt8) : Option Nat :=
  if 48 ≤ c ∧ c ≤ 57 then some (c.toNat - 48)
  else if 97 ≤ c ∧ c ≤ 102 then some (c.toNat - 87)
  else if 65 ≤ c ∧ c ≤ 70 then some (c.toNat - 55)
  else none

/-! ## The grammar

Characters are told by what they begin with, and a string is characters one after
the other. -/

/-- One character of a string. -/
inductive IsChar : Bytes → Prop
  | plain {c : UInt8} (hc : 32 ≤ c) (hq : c ≠ quote) (hb : c ≠ backslash) : IsChar [c]
  | short {e c : UInt8} (h : (e, c) ∈ shortEscapes) : IsChar [backslash, e]
  | hex {a b c d : UInt8} (ha : (hexDigit a).isSome) (hb : (hexDigit b).isSome)
      (hc : (hexDigit c).isSome) (hd : (hexDigit d).isSome) :
      IsChar [backslash, 117, a, b, c, d]

def IsBody (bs : Bytes) : Prop :=
  ∃ chars : List Bytes, (∀ c ∈ chars, IsChar c) ∧ chars.flatten = bs

theorem isBody_flatMap {α : Type} {code : α → Bytes} (h : ∀ a, IsChar (code a))
    (s : List α) : IsBody (s.flatMap code) := by
  refine ⟨s.map code, fun c hc => ?_, (List.flatMap_def).symm⟩
  obtain ⟨a, _, rfl⟩ := List.mem_map.1 hc
  exact h a

/-! ## The value

A character is read off the front with the bytes it stands for. What an escape
names is a code point, and what is built are the bytes of its UTF-8. -/

/-- UTF-8 of a code point below 0x10000. -/
def utf8 (u : Nat) : Bytes :=
  if u < 128 then [UInt8.ofNat u]
  else if u < 2048 then [UInt8.ofNat (192 + u / 64), UInt8.ofNat (128 + u % 64)]
  else [UInt8.ofNat (224 + u / 4096), UInt8.ofNat (128 + u / 64 % 64),
    UInt8.ofNat (128 + u % 64)]

/-- What four hex digits name. -/
def readHex : Bytes → Option (Bytes × Bytes)
  | a :: b :: c :: d :: rest => do
      let a ← hexDigit a
      let b ← hexDigit b
      let c ← hexDigit c
      let d ← hexDigit d
      let u := ((a * 16 + b) * 16 + c) * 16 + d
      if 0xd800 ≤ u ∧ u < 0xe000 then none else return (utf8 u, rest)
  | _ => none

/-- What stands behind a backslash. -/
def readEscape : Bytes → Option (Bytes × Bytes)
  | [] => none
  | e :: rest =>
      if e = 117 then readHex rest
      else (shortEscapes.lookup e).map fun c => ([c], rest)

/-- The first character and what is behind it. -/
def readChar : Bytes → Option (Bytes × Bytes)
  | [] => none
  | c :: rest =>
      if c = backslash then readEscape rest
      else if c < 32 ∨ c = quote then none
      else some ([c], rest)

def unescape (bs : Bytes) : Option Bytes :=
  (Codes.decode readChar bs.length bs).map List.flatten

theorem readChar_plain {c : UInt8} (hc : 32 ≤ c) (hq : c ≠ quote) (hb : c ≠ backslash)
    (rest : Bytes) : readChar ([c] ++ rest) = some ([c], rest) := by
  have hlow : ¬ (c < 32 ∨ c = quote) := by
    rintro (h | h)
    · exact absurd hc (UInt8.not_le.2 h)
    · exact hq h
  rw [List.singleton_append, readChar, if_neg hb, if_neg hlow]

theorem shortEscapes_lookup : ∀ p ∈ shortEscapes,
    shortEscapes.lookup p.1 = some p.2 ∧ p.1 ≠ 117 := by
  have hall : (shortEscapes.all fun p =>
      decide (shortEscapes.lookup p.1 = some p.2 ∧ p.1 ≠ 117)) = true := rfl
  simpa only [List.all_eq_true, decide_eq_true_eq] using hall

theorem readChar_short {e c : UInt8} (h : (e, c) ∈ shortEscapes) (rest : Bytes) :
    readChar ([backslash, e] ++ rest) = some ([c], rest) := by
  obtain ⟨hlookup, hne⟩ := shortEscapes_lookup _ h
  show readEscape (e :: rest) = _
  rw [readEscape, if_neg hne, hlookup]
  rfl

/-- Four digits below 0x80 name a byte. -/
theorem readChar_hex {a b : UInt8} {x y : Nat} (ha : hexDigit a = some x)
    (hb : hexDigit b = some y) (h : x * 16 + y < 128) (rest : Bytes) :
    readChar ([backslash, 117, 48, 48, a, b] ++ rest) =
      some ([UInt8.ofNat (x * 16 + y)], rest) := by
  have hzero : hexDigit 48 = some 0 := by decide
  show readHex (48 :: 48 :: a :: b :: rest) = _
  simp only [readHex, hzero, ha, hb, Option.bind_eq_bind, Option.bind_some, Nat.zero_mul,
    Nat.zero_add]
  rw [if_neg (by omega), utf8, if_pos h]
  rfl

/-- A text written by codes that are read as single bytes is unescaped to what it
was written from. -/
theorem unescape_flatMap {code : UInt8 → Bytes}
    (hread : Codes.Reads readChar code fun c => [c]) (hne : ∀ c, code c ≠ [])
    (s : Bytes) : unescape (s.flatMap code) = some s := by
  rw [unescape, Codes.decode_flatMap hread hne (Codes.length_le_flatMap hne s),
    Option.map_some, ← List.flatMap_def, List.flatMap_singleton']

end Json
