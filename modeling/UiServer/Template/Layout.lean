import Mathlib.Algebra.GroupWithZero.Nat
import UiServer.Template.Res

/-!
# A template in memory

`temp_load_res_file` is given two places in the middle of a `Template_t`, one for
the text and one for the variables. Here it works on the memory of the whole
structure, at the offsets a 64-bit Linux compiler gives its fields; all their
sizes are multiples of four, so there are no gaps.
-/

namespace UiServer

open CMem

/-- The fields of `Template_t`. -/
inductive TemplateField where
  | charset | enableDigest | escapeBackslash
  | actionStr | strftimeFmt | highlightStartTag | highlightEndTag
  | pagebuf | npv | pageVars
  | resbuf | nrv | resVars
  | nonebuf | nnv | noneVars
  | errbuf | nev | errVars
deriving DecidableEq, Repr

namespace TemplateField

/-- The fields in order. -/
def all : List TemplateField :=
  [.charset, .enableDigest, .escapeBackslash,
    .actionStr, .strftimeFmt, .highlightStartTag, .highlightEndTag,
    .pagebuf, .npv, .pageVars,
    .resbuf, .nrv, .resVars,
    .nonebuf, .nnv, .noneVars,
    .errbuf, .nev, .errVars]

end TemplateField

def maxResVarsNum : Nat := 32

/-- `sizeof(Var_attr_t)`. -/
def varAttrSize : Nat := 124

namespace TemplateField

def size : TemplateField → Nat
  | .charset | .enableDigest | .escapeBackslash => 4
  | .actionStr | .strftimeFmt | .highlightStartTag | .highlightEndTag => 32
  | .pagebuf | .nonebuf | .errbuf => maxPagetextLen
  | .npv | .nrv | .nnv | .nev => 4
  | .pageVars | .noneVars | .errVars => maxVarsNum * varAttrSize
  | .resbuf => maxResTemplSize
  | .resVars => maxResVarsNum * varAttrSize

def offset (f : TemplateField) : Nat := ((all.takeWhile (· != f)).map size).sum

def stop (f : TemplateField) : Nat := f.offset + f.size

/-- What the field holds. -/
def bytes (f : TemplateField) (mem : Mem) : Bytes := read mem f.offset f.size

end TemplateField

/-! ## Loading a result text

The text is read into its array line by line, as long as it fits, and the
variables are recorded as the scan finds them, whether or not their array has room
for so many. -/

/-- What the parser sets of a `Var_attr_t`, as it lies in memory. -/
def VarAttr.record (v : VarAttr) : Bytes :=
  leBytes 4 v.pos ++ leBytes 4 v.len ++ leBytes 4 v.id ++ v.name ++ [0]

/-- The variables from the `num`-th on. -/
def storeVars (mem : Mem) : Nat → List VarAttr → Mem
  | _, [] => mem
  | num, v :: vs =>
      storeVars (store mem (TemplateField.resVars.offset + num * varAttrSize) v.record)
        (num + 1) vs

/-- The `while (fgets(...))` loop, `len` bytes into `resbuf`. -/
def readResText : Nat → Bytes → Nat → Mem → Except Mem Mem
  | 0, _, _, mem => .ok mem
  | _ + 1, [], _, mem => .ok mem
  | fuel + 1, s, len, mem =>
      let (buf, rest) := fgets 1023 s
      let i := (cstr buf).length
      if maxResTemplSize ≤ len + i then .error mem
      else
        readResText fuel rest (len + i)
          (store mem (TemplateField.resbuf.offset + len) (cstr buf ++ [0]))

/-- `temp_load_res_file` as `template_load` calls it, and what it returns. -/
def loadResFile (file : Option Bytes) (mem : Mem) : Mem × Int :=
  match file with
  | none => (mem, -1)
  | some s =>
      match readResText s.length s 0 mem with
      | .error mem => (mem, -1)
      | .ok mem =>
          match tempLoadResFile (some s) with
          | none => (mem, -1)
          | some r => (storeVars mem 0 r.vars, r.vars.length)

example : TemplateField.nonebuf.offset = TemplateField.resVars.stop := by decide

end UiServer
