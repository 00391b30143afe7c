import UiServer.Template.Result

/-!
# Cutting a text down

`temp_cutdown` copies the beginning of a string into `osize` bytes and
`temp_cutdown_with_more` puts three dots behind it when the string is longer than its
limit. Lengths are `size_t` and limits `int`, and both functions go from one to the
other. The build leaves the assertions out. `tempCutdown` is what the renderer uses of
them (`tempCutdownInto_title`).
-/

namespace UiServer

open CMem

/-- A `size_t` put into an `int`. -/
def intOfSize (n : Int) : Int := Int.bmod n (2 ^ 32)

/-- `temp_cutdown_with_more`: what it stores, and the length it answers with. -/
def tempCutdownWithMore (s : Bytes) (size : Nat) (len : Int) : Converted :=
  if size < 2 then .failed
  else
    let size : Int := size - 1
    let slen := intOfSize s.length
    let len := if size < len ∨ len ≤ 0 then intOfSize size else len
    let needWithMore := decide (len < slen)
    let len := if needWithMore ∧ (size < len + 3 ∨ len ≤ 0) then intOfSize (size - 3) else len
    let text := cutdownLoop len.toNat s 0 ++ if needWithMore then ascii "..." else []
    ⟨text ++ [0], text.length⟩

/-- `temp_cutdown` into `osize` bytes. -/
def tempCutdownInto (s : Bytes) (osize : Nat) (len : Int) : Converted :=
  if osize < 2 then .failed
  else
    let osize : Int := osize - 1
    let len := if osize < len ∨ len ≤ 0 then intOfSize osize else len
    let text := cutdownLoop len.toNat s 0
    ⟨text ++ [0], text.length⟩

/-- The call for a title that is cut: `conv_tmp` has 1024 bytes, and 15 are asked for. -/
theorem tempCutdownInto_title (s : Bytes) :
    tempCutdownInto s 1024 15 = ⟨tempCutdown s 15 ++ [0], (tempCutdown s 15).length⟩ := rfl

end UiServer
