import UiServer.Template.Table

/-!
# Rendering a result

`as_temp_make_res` copies the text of a result into what is left of the page.
Two switches decide about a variable: one finds its value, by `from_id`, the
other turns the value into text, by `trans_method_id`. Both have a default that
gives the result up.

A conversion is modelled by the bytes it stores from its start on and by the
length it answers with; some of them store nothing, one stores more than its
room. Values that the source reads from where nothing was put are parameters
(`Stray`), and so is what the C library prints for a time and for a fraction.
-/

namespace UiServer

open CMem

/-- An array of `n` characters that holds a terminated string. -/
structure CString (n : Nat) where
  str : Bytes
  nulFree : NulFree str
  fits : str.length < n

/-- `result_node_t`, with its strings terminated. -/
structure ResultNode where
  key1 : UInt32
  key2 : UInt32
  isDel : UInt32
  sortWeight : UInt32
  abstract : CString 32
  shortStr : Fin 4 → CString 32
  longStr : Fin 4 → CString 64

/-- What the C library prints: `%2.3f` of a number of milliseconds in seconds,
`strftime` of a time with a format, and what `strftime` leaves in a room that
is too small. -/
structure Libc where
  timeUsed : UInt32 → Bytes
  strftime : Bytes → UInt32 → Bytes
  scratch : Bytes → UInt32 → Bytes

/-- What is found where nothing was put: an unsigned number that was not
assigned, and a string outside its array. -/
structure Stray where
  uint : ResVar → UInt32
  str : ResVar → Bytes

/-- What a call works with; `node` is the pointer it is given. -/
structure ResArgs where
  node : Option ResultNode
  head : UpstreamResponseHead
  conf : TemplateConf
  libc : Libc
  stray : Stray

/-! ## Conversions

Each of them is given a value and the room behind the last one, and answers with a
length. An answer that is negative, or more than the room, makes the caller give
up. -/

/-- The bytes a conversion stores and the length it answers with. -/
structure Converted where
  stored : Bytes
  num : Int
deriving DecidableEq, Repr

/-- Nothing stored, and `-1`. Also the end of a process that follows a null
pointer: it stores nothing and answers nothing more. -/
def Converted.failed : Converted := ⟨[], -1⟩

def Converted.print (size : Nat) (text : Bytes) : Converted :=
  ⟨printed size text, text.length⟩

/-- The text `%d` prints for an `int`. -/
def decimalInt (n : Int) : Bytes :=
  if 0 ≤ n then decimal n.toNat else 45 :: decimal (-n).toNat

/-- The loop of `temp_itoa`, with the digits so far in the order they are read
after the reversal. A group is three digits and a comma. -/
def itoaLoop (size : Nat) : Nat → Int → Bytes → Bytes × Int
  | 0, n, s => (s, n)
  | fuel + 1, n, s =>
      let s := UInt8.ofInt (n.tmod 10 + 48) :: s
      let n := n.tdiv 10
      let s := if 0 < n ∧ s.length < size ∧ (s.length + 1) % 4 = 0 then 44 :: s else s
      if 0 < n ∧ s.length < size then itoaLoop size fuel n s else (s, n)

/-- `temp_itoa` with `k = 3`. Ten digits are the most there can be. The negation
wraps around; of the smallest `int` it is not defined in C, and another text may
come out there. When the digits fill the buffer, what is left of the number
is printed over them. -/
def tempItoa (n : Int) (size : Nat) : Converted :=
  if size < 1 then ⟨[], 0⟩
  else
    let (s, m) := itoaLoop size 10 (if n < 0 then Int.bmod (-n) (2 ^ 32) else n) []
    let s := if s.length < size ∧ n < 0 then 45 :: s else s
    if s.length < size then ⟨s ++ [0], s.length⟩
    else
      let text := printed size (decimalInt m)
      ⟨text ++ s.reverse.drop text.length, (decimalInt m).length⟩

/-- `temp_intdate_to_str`: `strftime` answers `0` when the text and its
terminator do not fit. -/
def tempIntdateToStr (libc : Libc) (value : UInt32) (size : Nat) (fmt : Bytes) :
    Converted :=
  let text := libc.strftime fmt value
  if text.length < size then ⟨text ++ [0], text.length⟩
  else ⟨(libc.scratch fmt value).take size, 0⟩

def codeName : List Bytes := ["ENG", "GB", "BIG5", "UTF8", "JPKR"].map ascii

def getCodeName (value : UInt32) : Bytes := codeName.getD value.toNat (ascii "NONE")

/-- `as_uint_value_to_other_process`. -/
def asUintValueToOtherProcess (libc : Libc) (conf : TemplateConf) (value : UInt32)
    (method : VarTransMethod) (size : Nat) : Converted :=
  match method with
  | .uintToUint => .print size (decimal value.toNat)
  | .uintToTimeUsed => .print size (libc.timeUsed value)
  | .uintToTotalNumberStr => tempItoa (Int.bmod value.toNat (2 ^ 32)) size
  | .uintToTimeStr => tempIntdateToStr libc value size conf.strftimeFmt
  | .uintToJavascriptTime => tempIntdateToStr libc value size (ascii "%F %T")
  | .uintToLanguageStr => .print size (getCodeName value)
  | .uintToPidstr => ⟨[], 0⟩
  | .uintToFlag => ⟨[], 0⟩
  | _ => .failed

def hexChars : Bytes := ascii "0123456789abcdef"

def escapeWith (c : UInt8) : Bytes := [92, c]

/-- What `quote_escape` pushes for a byte. -/
def quoteEscapePush (c : UInt8) : Bytes :=
  if c = 92 ∨ c = 34 then escapeWith c
  else if c = 8 then escapeWith 98
  else if c = 9 then escapeWith 116
  else if c = 10 then escapeWith 110
  else if c = 12 then escapeWith 102
  else if c = 13 then escapeWith 114
  else if c < 32 then
    ascii "\\u00" ++ [hexChars.getD (c.toNat / 16) 0, hexChars.getD (c.toNat % 16) 0]
  else [c]

/-- The loop of `quote_escape`, which stops in front of a push that reaches
`canPush`. -/
def quoteEscapeLoop (canPush : Nat) : Bytes → Bytes → Bytes
  | [], out => out
  | c :: src, out =>
      if canPush ≤ out.length + (quoteEscapePush c).length then out
      else quoteEscapeLoop canPush src (out ++ quoteEscapePush c)

/-- `quote_escape` and the use of its answer; `size - 1` is computed in 64
bits without a sign. -/
def quoteEscape (src : Bytes) (size : Nat) : Converted :=
  let canPush := if size = 0 then 2 ^ 64 - 1 else size - 1
  if canPush < 1 then .failed
  else
    let out := quoteEscapeLoop canPush src []
    ⟨out ++ [0], out.length⟩

def xmlEncodeByte (c : UInt8) : Bytes :=
  if c = 60 then ascii "&lt;"
  else if c = 62 then ascii "&gt;"
  else if c = 34 then ascii "&quot;"
  else if c = 39 then ascii "&#39;"
  else if c = 38 then ascii "&amp;"
  else [c]

/-- `XMLEncode` into `size` bytes. -/
def xmlEncode (src : Bytes) (size : Nat) : Option Bytes :=
  let text := src.flatMap xmlEncodeByte
  if size < 2 ∨ size - 1 < text.length then none else some text

/-- The loop of `temp_cutdown`, `i` bytes into the result: a byte above 127
takes the next one with it. -/
def cutdownLoop (len : Nat) : Bytes → Nat → Bytes
  | [], _ => []
  | c :: s, i =>
      if len ≤ i then []
      else if 128 ≤ c then
        match s with
        | [] => []
        | d :: s => c :: d :: cutdownLoop len s (i + 2)
      else c :: cutdownLoop len s (i + 1)

/-- `temp_cutdown`, where the result has room for `len` bytes and one more. -/
def tempCutdown (s : Bytes) (len : Nat) : Bytes := cutdownLoop len s 0

/-- The conversions of `as_char_value_to_other_process` up to its last check.
A value is nothing when it is a pointer into a null result, which two of them
do not follow. -/
def charConversion (conf : TemplateConf) (value : Option Bytes)
    (method : VarTransMethod) (size : Nat) : Converted :=
  let follow (f : Bytes → Converted) := (value.map f).getD .failed
  match method with
  | .strToConv => follow (.print size)
  | .strToConvQuoteEscape =>
      follow fun value =>
        if conf.escapeBackslash ≠ 0 then quoteEscape value size else .print size value
  | .strUriEncodeUtf8 | .strUriEncode => .print size []
  | .strXmlEncode =>
      follow fun value => .print size ((xmlEncode value 1024).getD value)
  | .strToStr => follow (.print size)
  | .strFullHighLight => follow (.print size)
  | .strTitleTypeBasic => follow (.print size)
  | .strHighLightBasic => follow (.print size)
  | .strAbstractTypeBasic => follow (.print size)
  | .strTitleTypeCut => follow fun value => .print size (tempCutdown value 15)
  | .strToEscapeBackslash =>
      follow fun value =>
        if conf.escapeBackslash ≠ 0 then quoteEscape value size else .print size value
  | .strToPidName => ⟨[], 0⟩
  | _ => .failed

/-- `as_char_value_to_other_process`. -/
def asCharValueToOtherProcess (conf : TemplateConf) (value : Option Bytes)
    (method : VarTransMethod) (size : Nat) : Converted :=
  let c := charConversion conf value method size
  if c.num < 0 ∨ size < c.num then ⟨c.stored, -1⟩ else c

/-! ## Values

A variable says what kind its value is and where it is found. What is found is the
field of a result, or whatever lies there when nothing was put. -/

/-- What the switch on `from_id` comes to: a value, what was found in place of
one, a field of a null result, or the default. -/
inductive Fetched (α : Type) where
  | value (a : α)
  | stray (a : α)
  | fault
  | refused
deriving DecidableEq, Repr

def Fetched.ofNode {α : Type} (node : Option ResultNode) (f : ResultNode → α) :
    Fetched α :=
  match node with
  | none => .fault
  | some node => .value (f node)

/-- An element of an array of four strings, which nothing checks the index of. -/
def fetchStr {n : Nat} (a : ResArgs) (v : ResVar)
    (f : ResultNode → Fin 4 → CString n) : Fetched Bytes :=
  match a.node with
  | none => .fault
  | some node =>
      if h : 0 ≤ v.fromIdIdx ∧ v.fromIdIdx < 4 then
        .value (f node ⟨v.fromIdIdx.toNat, by omega⟩).str
      else .stray (cstr (a.stray.str v))

/-- The switch of an unsigned variable. The last case is written
`result_node_0`, which belongs to the other enumeration. -/
def fetchUint (a : ResArgs) (v : ResVar) : Fetched UInt32 :=
  match v.fromId with
  | .resultNodeKey1 => .ofNode a.node ResultNode.key1
  | .resultNodeKey2 => .ofNode a.node ResultNode.key2
  | .resultNodeAttrDiscrete => .stray (a.stray.uint v)
  | .resultNodeAttrInt => .stray (a.stray.uint v)
  | .resultHeadTotalNum => .value a.head.totalNum
  | .resultNodeIsDel => .ofNode a.node ResultNode.isDel
  | .resultNodeSortWeight => .ofNode a.node ResultNode.sortWeight
  | .asRequestSortField => .value 0
  | _ => .refused

example : VarAttrFrom.asRequestSortField.ctorIdx =
    VarAttrFromType.resultNode0.ctorIdx := rfl

/-- The switch of a character variable. -/
def fetchChar (a : ResArgs) (v : ResVar) : Fetched Bytes :=
  match v.fromId with
  | .resultNodeAbstract => .ofNode a.node fun node => node.abstract.str
  | .resultNodeShortAttr => fetchStr a v ResultNode.shortStr
  | .resultNodeLongAttr => fetchStr a v ResultNode.longStr
  | _ => .refused

def convertUint (a : ResArgs) (v : ResVar) (size : Nat) : Converted :=
  match fetchUint a v with
  | .value w | .stray w =>
      asUintValueToOtherProcess a.libc a.conf w v.transMethodId size
  | .fault | .refused => .failed

def convertChar (a : ResArgs) (v : ResVar) (size : Nat) : Converted :=
  match fetchChar a v with
  | .value s | .stray s => asCharValueToOtherProcess a.conf (some s) v.transMethodId size
  | .fault => asCharValueToOtherProcess a.conf none v.transMethodId size
  | .refused => .failed

/-- The switch on `from_field_type`. -/
def convertVar (a : ResArgs) (v : ResVar) (size : Nat) : Converted :=
  match v.fromFieldType with
  | .fieldTypeUint => convertUint a v size
  | .fieldTypeChar => convertChar a v size
  | _ => .failed

/-! ## The result

The text up to a variable is copied, then the value is put there, and so on to the
end. The writer refuses what does not fit, and then there is no result. -/

/-- A conversion at the writer's place, and the check of its length. -/
def makeResVar (a : ResArgs) (v : ResVar) (w : Writer) : Except Mem Writer :=
  let c := convertVar a v w.nleft
  let mem := store w.mem w.pbuf c.stored
  if c.num < 0 ∨ w.nleft < c.num then .error mem
  else .ok ⟨mem, w.pbuf + c.num.toNat, w.nleft - c.num.toNat⟩

/-- The loop over the variables and the copy of the rest of the text. -/
def makeResVars (a : ResArgs) (text : Bytes) :
    List ResVar → Nat → Writer → Except Mem Writer
  | [], p, w => w.put (cstr (text.drop p))
  | v :: vs, p, w => do
      let n := v.pos - p
      let w ← w.put (strncpyBytes (text.drop p) n)
      let w ← makeResVar a v w
      makeResVars a text vs (p + n + v.len) w

/-- `as_temp_make_res` on what is left of the page. -/
def asTempMakeRes (a : ResArgs) (text : Bytes) (vars : List ResVar) (w : Writer) :
    Mem × Int :=
  match makeResVars a text vars 0 w with
  | .error mem => (mem, -1)
  | .ok w' => (store w'.mem w'.pbuf [0], (w'.pbuf : Int) - w.pbuf)

/-- What `temp_make_page` calls for the `k`-th result: `as_temp_make_res` with
the result text of the template and a null result. -/
def resultsOf (set : TemplateSet) (libc : Libc) (stray : Nat → Stray) : MakeRes :=
  fun index head _ k w =>
    let t := set.res index
    asTempMakeRes ⟨none, head, t.conf, libc, stray k⟩ t.text t.vars w

end UiServer
