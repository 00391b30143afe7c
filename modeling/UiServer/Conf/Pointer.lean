import UiServer.Conf.Line
import UiServer.Lib.Region

/-!
# The pointer that goes through a line

`parse_config_line` and `trim` once more, this time on the line itself: its bytes and its
terminator, with a pointer that is refused where it leaves them. Each read and each write
of the source is one here. What lies in front of the line plays no part, because a byte
there cannot be read.
-/

namespace UiServer

open CMem Region

/-- What is left in the line and in the variables of the caller; `value` is nothing where
`parse_config_line` returns `-1`. -/
structure ParsedLine where
  mem : Bytes
  key : Int
  keyLen : Int
  value : Option Int
deriving DecidableEq, Repr

/-- `GO_IF`, also the first loop of `trim`. -/
def goIfAt (m : Bytes) (c : UInt8) (p : Int) : Except Int Int :=
  walk m 1 (· == c) m.length p

/-- `GO_UNTIL`, also the second loop of `trim`. -/
def goUntilAt (m : Bytes) (c : UInt8) (p : Int) : Except Int Int :=
  walk m 1 (· != c) m.length p

/-- `BACK_IF`. -/
def backIfAt (m : Bytes) (c : UInt8) (p : Int) : Except Int Int :=
  walk m (-1) (· == c) m.length p

/-- `*p = '\0'; p--;` where `*p` is the byte that is asked for. -/
def cutAtByte (m : Bytes) (c : UInt8) (p : Int) : Except Int (Bytes × Int) := do
  let b ← load m p
  if b = c then do
    let m ← put m p 0
    pure (m, p - 1)
  else pure (m, p)

/-- `trim`: the line behind the cuts, and where the value begins. -/
def trimAt (m : Bytes) (str : Int) : Except Int (Bytes × Int) := do
  let str ← goIfAt m space str
  let p ← goUntilAt m newline str
  let (m, p) ← cutAtByte m newline p
  let (m, _) ← cutAtByte m 13 p
  pure (m, str)

/-- The end of the key: `*(p-1)` is read whether or not there is a byte. -/
def keyEndAt (m : Bytes) (p : Int) : Except Int Int := do
  let b ← load m (p - 1)
  if b = colon then do
    let p ← backIfAt m colon (p - 1)
    pure (p + 1)
  else pure p

/-- `parse_config_line` of a line without its terminator. -/
def parseConfigLineAt (line : Bytes) : Except Int ParsedLine := do
  let m := line ++ [0]
  let key ← goIfAt m space 0
  let p ← goUntilAt m space key
  let p ← keyEndAt m p
  let keyLen := p - key
  let b ← load m p
  if b = colon then do
    let p ← goUntilAt m space p
    let (m, value) ← trimAt m p
    pure ⟨m, key, keyLen, some value⟩
  else do
    let p ← goIfAt m space p
    let b ← load m p
    if b ≠ colon then pure ⟨m, key, keyLen, none⟩
    else do
      let (m, value) ← trimAt m (p + 1)
      pure ⟨m, key, keyLen, some value⟩

/-- What the callback is given: the strings at the two pointers. -/
def ParsedLine.configLine (r : ParsedLine) : Option ConfigLine :=
  r.value.map fun value =>
    ⟨cstr (r.mem.drop r.key.toNat), r.keyLen, cstr (r.mem.drop value.toNat)⟩

end UiServer
