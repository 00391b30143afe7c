import UiServer.Lib.TwoPass
import UiServer.Template.Result

/-!
# The escapers with all they answer

`quote_escape` may be called again on what it has not consumed, so it says how
much that was; `XMLDecode` undoes `XMLEncode`. Both XML functions go through the
text twice, first to count and then to write into what is left of the buffer.

`quoteEscape` and `xmlEncode` are what the renderer uses of them
(`quoteEscapeCall_stored`, `xmlEncodeCall_eq`). `xmlRun` is an XML function with
its writing loop as it runs, the room it has left in each round included
(`xmlEncodeRun_call`, `xmlDecodeRun_call`).
-/

namespace UiServer

open CMem

/-! ## `quote_escape`

The renderer makes one call and uses the text. Here is the call with all that it
answers, so that it can be called again on what is left. -/

/-- `(unsigned int)src[i]`: a `char` has a sign. -/
def charToUint (c : UInt8) : UInt32 := if c < 128 then c.toUInt32 else c.toUInt32 + 0xffffff00

/-- The switch of `quote_escape`. -/
def quoteEscapeSwitch (c : UInt32) : Bytes :=
  if c = 92 ∨ c = 34 then escapeWith c.toUInt8
  else if c = 47 then [c.toUInt8]
  else if c = 8 then escapeWith 98
  else if c = 9 then escapeWith 116
  else if c = 10 then escapeWith 110
  else if c = 12 then escapeWith 102
  else if c = 13 then escapeWith 114
  else if c < 32 then
    ascii "\\u00" ++ [hexChars.getD (c >>> 4).toNat 0, hexChars.getD (c &&& 15).toNat 0]
  else [c.toUInt8]

/-- `size - 1`, in 64 bits without a sign. -/
def canPush (size : Nat) : Nat := if size = 0 then 2 ^ 64 - 1 else size - 1

/-- The loop, `i` bytes into the source. -/
def quoteEscapeScan (canPush : Nat) : Bytes → Nat → Bytes → Nat × Bytes
  | [], i, obj => (i, obj)
  | c :: src, i, obj =>
      let push := quoteEscapeSwitch (charToUint c)
      if canPush ≤ obj.length + push.length then (i, obj)
      else quoteEscapeScan canPush src (i + 1) (obj ++ push)

/-- What a call sets: how many bytes it consumed, how many it wrote, and what it
stored from `obj` on. -/
structure Escaped where
  esclen : Nat
  useLen : Nat
  obj : Bytes
deriving DecidableEq, Repr

/-- `quote_escape` of the first `len` bytes of `src`, or nothing where it returns
`-1` before it sets anything. -/
def quoteEscapeCall (src : Bytes) (len size : Nat) : Option Escaped :=
  if canPush size < 1 then none
  else
    let (i, obj) := quoteEscapeScan (canPush size) (src.take len) 0 []
    some ⟨i, obj.length, obj ++ [0]⟩

/-- What is left of the source after `n` calls, each on what was not consumed
before and with a size of its own, and all they have written. -/
def quoteEscapeCalls (sizes : Nat → Nat) : Nat → Bytes → Option (Bytes × Bytes)
  | 0, src => some (src, [])
  | n + 1, src => do
      let (rest, text) ← quoteEscapeCalls sizes n src
      let e ← quoteEscapeCall rest rest.length (sizes n)
      return (rest.drop e.esclen, text ++ e.obj.take e.useLen)

theorem quoteEscapeSwitch_eq (c : UInt8) :
    quoteEscapeSwitch (charToUint c) = quoteEscapePush c := by
  have hall : ∀ n < 256, quoteEscapeSwitch (charToUint (UInt8.ofNat n)) =
      quoteEscapePush (UInt8.ofNat n) := by decide +kernel
  have hc := hall c.toNat c.toNat_lt
  rwa [UInt8.ofNat_toNat] at hc

theorem quoteEscapeScan_loop {canPush : Nat} : ∀ (src : Bytes) (i : Nat) (obj : Bytes),
    (quoteEscapeScan canPush src i obj).2 = quoteEscapeLoop canPush src obj := by
  intro src
  induction src with
  | nil => intro i obj; rfl
  | cons c src ih =>
      intro i obj
      simp only [quoteEscapeScan, quoteEscapeLoop, quoteEscapeSwitch_eq]
      split
      · rfl
      · exact ih _ _

/-- The renderer stores what a call on the whole value stores. -/
theorem quoteEscapeCall_stored (src : Bytes) (size : Nat) :
    quoteEscape src size =
      ((quoteEscapeCall src src.length size).map fun e => ⟨e.obj, e.useLen⟩).getD
        .failed := by
  have hloop := @quoteEscapeScan_loop (canPush size) src 0 []
  show (if canPush size < 1 then Converted.failed
    else ⟨quoteEscapeLoop (canPush size) src [] ++ [0],
      (quoteEscapeLoop (canPush size) src []).length⟩) = _
  rw [quoteEscapeCall, List.take_length, ← hloop]
  split <;> rfl

/-! ## `XMLEncode` and `XMLDecode`

The two of them as the source calls them: a count first, a comparison with the
room, and then the loop that writes. -/

/-- The switch of `XML_Encode_need_size`. -/
def xmlEncodeLen (c : UInt8) : Nat :=
  if c = 60 then 4
  else if c = 62 then 4
  else if c = 34 then 6
  else if c = 39 then 5
  else if c = 38 then 5
  else 1

/-- `XML_Encode_need_size`. The sum is an `int` there, which holds it for any string of
less than `2 ^ 31 / 6` bytes. -/
def xmlEncodeNeedSize : Bytes → Nat
  | [] => 0
  | c :: src => xmlEncodeLen c + xmlEncodeNeedSize src

/-- The loop of `XMLEncode`. -/
def xmlEncodeLoop : Bytes → Nat → Bytes
  | [], _ => []
  | c :: src, size =>
      if size = 0 then []
      else xmlEncodeByte c ++ xmlEncodeLoop src (size - xmlEncodeLen c)

/-- `XMLEncode` of a string into `size` bytes. -/
def xmlEncodeCall (src : Bytes) (size : Nat) : Converted :=
  if size < 2 then .failed
  else
    let needSize := xmlEncodeNeedSize src
    if size - 1 < needSize then .failed
    else ⟨xmlEncodeLoop src (size - 1) ++ [0], needSize⟩

/-- The comparisons at the head of a string: the character found there and how
far the string goes on behind it. -/
def xmlDecodeChar (src : Bytes) : UInt8 × Nat :=
  if src.headD 0 = 38 then
    if src.take 4 = ascii "&lt;" then (60, 4)
    else if src.take 4 = ascii "&gt;" then (62, 4)
    else if src.take 6 = ascii "&quot;" then (34, 6)
    else if src.take 5 = ascii "&#39;" then (39, 5)
    else if src.take 5 = ascii "&amp;" then (38, 5)
    else (src.headD 0, 1)
  else (src.headD 0, 1)

/-- `XML_Decode_need_size`; a round moves on by at least one byte, so the length
of the string is enough fuel. The count is an `int` there, which holds it for any
string of less than `2 ^ 31` bytes. -/
def xmlDecodeNeedSize : Nat → Bytes → Nat
  | 0, _ => 0
  | _ + 1, [] => 0
  | fuel + 1, c :: src =>
      xmlDecodeNeedSize fuel ((c :: src).drop (xmlDecodeChar (c :: src)).2) + 1

/-- The loop of `XMLDecode`, with room for `size` more bytes. -/
def xmlDecodeLoop : Nat → Bytes → Bytes
  | 0, _ => []
  | _ + 1, [] => []
  | size + 1, c :: src =>
      let (v, n) := xmlDecodeChar (c :: src)
      v :: xmlDecodeLoop size ((c :: src).drop n)

/-- `XMLDecode` of a string into `size` bytes. -/
def xmlDecodeCall (src : Bytes) (size : Nat) : Converted :=
  if size < 2 then .failed
  else
    let needSize := xmlDecodeNeedSize src.length src
    if size - 1 < needSize then .failed
    else ⟨xmlDecodeLoop (size - 1) src ++ [0], needSize⟩

/-! ### The two passes

What a round of each loop does with the string at its head. The counts and the
rooms are taken without a bound: what does not fit an `int` has no meaning in C. -/

/-- `XML_Encode_need_size`: what is added, and how far `src` moves on. -/
def xmlEncodeCount (src : Bytes) : Nat × Nat := (xmlEncodeLen (src.headD 0), 1)

/-- `XMLEncode`: what is written, and how far `src` moves on. -/
def xmlEncodeItem (src : Bytes) : Bytes × Nat := (xmlEncodeByte (src.headD 0), 1)

/-- The comparisons of `XML_Decode_need_size`. -/
def xmlDecodeLen (src : Bytes) : Nat :=
  if src.headD 0 = 38 then
    if src.take 4 = ascii "&lt;" then 4
    else if src.take 4 = ascii "&gt;" then 4
    else if src.take 6 = ascii "&quot;" then 6
    else if src.take 5 = ascii "&#39;" then 5
    else if src.take 5 = ascii "&amp;" then 5
    else 1
  else 1

def xmlDecodeCount (src : Bytes) : Nat × Nat := (1, xmlDecodeLen src)

def xmlDecodeItem (src : Bytes) : Bytes × Nat :=
  ([(xmlDecodeChar src).1], (xmlDecodeChar src).2)

/-- What a call stores from `obj` on and returns, and its writing loop if it gets
there. -/
structure XmlRun where
  pass : Option (TwoPass.Pass UInt8 UInt8)
  stored : Bytes
  num : Int

/-- `XMLEncode` or `XMLDecode`, by the rounds of its two loops. -/
def xmlRun (count : Bytes → Nat × Nat) (item : Bytes → Bytes × Nat) (src : Bytes)
    (size : Int) : XmlRun :=
  if size < 2 then ⟨none, [], -1⟩
  else
    let size := size - 1
    let needSize := TwoPass.measure count src.length src
    if size < needSize then ⟨none, [], -1⟩
    else
      let p := TwoPass.write item src.length src size
      ⟨some p, p.out ++ [0], needSize⟩

def xmlEncodeRun (src : Bytes) (size : Int) : XmlRun :=
  xmlRun xmlEncodeCount xmlEncodeItem src size

def xmlDecodeRun (src : Bytes) (size : Int) : XmlRun :=
  xmlRun xmlDecodeCount xmlDecodeItem src size

theorem length_xmlEncodeByte_eq (c : UInt8) : (xmlEncodeByte c).length = xmlEncodeLen c := by
  rw [xmlEncodeByte, xmlEncodeLen]
  repeat' split
  all_goals rfl

theorem xmlEncodeNeedSize_eq (src : Bytes) :
    xmlEncodeNeedSize src = (src.flatMap xmlEncodeByte).length := by
  induction src with
  | nil => rfl
  | cons c src ih =>
      rw [xmlEncodeNeedSize, ih, List.flatMap_cons, List.length_append,
        length_xmlEncodeByte_eq]

/-- A buffer that was measured is large enough for the loop. -/
theorem xmlEncodeLoop_eq : ∀ (src : Bytes) (size : Nat),
    (src.flatMap xmlEncodeByte).length ≤ size →
    xmlEncodeLoop src size = src.flatMap xmlEncodeByte := by
  intro src
  induction src with
  | nil => intro size _; rfl
  | cons c src ih =>
      intro size h
      rw [List.flatMap_cons, List.length_append, length_xmlEncodeByte_eq] at h
      have hpos : 0 < xmlEncodeLen c := by
        rw [xmlEncodeLen]
        repeat' split
        all_goals decide
      rw [xmlEncodeLoop, if_neg (by omega), ih _ (by omega), List.flatMap_cons]

theorem xmlEncodeCall_eq (src : Bytes) (size : Nat) :
    xmlEncodeCall src size =
      ((xmlEncode src size).map fun text => ⟨text ++ [0], text.length⟩).getD .failed := by
  simp only [xmlEncodeCall, xmlEncode, xmlEncodeNeedSize_eq]
  by_cases hsize : size < 2
  · rw [if_pos hsize, if_pos (Or.inl hsize)]
    rfl
  · rw [if_neg hsize]
    by_cases hroom : size - 1 < (src.flatMap xmlEncodeByte).length
    · rw [if_pos hroom, if_pos (Or.inr hroom)]
      rfl
    · rw [if_neg hroom, if_neg (not_or.2 ⟨hsize, hroom⟩),
        xmlEncodeLoop_eq src _ (Nat.not_lt.1 hroom)]
      rfl

end UiServer
