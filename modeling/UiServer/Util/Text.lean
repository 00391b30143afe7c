import UiServer.Template.Page

/-!
# Comparing and searching

The comparisons with a length, and the search for a word in a text in GBK.
A string is the list of its bytes, so a comparison that goes on to the terminator
of one string finds the other one longer.
-/

namespace UiServer

open CMem

/-- An `int` where a `size_t` is asked for: one that is negative is larger than any
string. -/
def sizeOfInt (n : Int) : Nat := if n < 0 then 2 ^ 64 - 1 else n.toNat

/-- `strncmp(a, b, n) == 0`. -/
def strncmpEq (a b : Bytes) (n : Nat) : Bool := a.take n == b.take n

/-- `strncasecmp(a, b, n) == 0`. -/
def strncasecmpEq (a b : Bytes) (n : Nat) : Bool :=
  (a.take n).map toLower == (b.take n).map toLower

/-- The loop of `strcasestrGBK`, with `ptemp` as the offset it has reached. -/
def strcasestrGBKLoop (dest : Bytes) : Bytes → Nat → Option Nat
  | [], _ => none
  | c :: src, ptemp =>
      if c = dest.headD 0 ∧ strncasecmpEq (c :: src) dest dest.length then some ptemp
      else if 128 ≤ c then
        match src with
        | [] => none
        | _ :: src => strcasestrGBKLoop dest src (ptemp + 2)
      else strcasestrGBKLoop dest src (ptemp + 1)

/-- `strcasestrGBK`: where in `src` the answer points, or nothing for `NULL`. -/
def strcasestrGBK (src dest : Bytes) : Option Nat := strcasestrGBKLoop dest src 0

theorem strncasecmpEq_iff {a b : Bytes} {n : Nat} :
    strncasecmpEq a b n = true ↔ (a.take n).map toLower = (b.take n).map toLower :=
  beq_iff_eq

end UiServer
