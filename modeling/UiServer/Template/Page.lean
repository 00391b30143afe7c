import UiServer.Lib.Writer
import UiServer.Template.Load
import UiServer.Wire

/-!
# Rendering a page

`temp_make_page` copies the chosen text into the page, with what each variable
stands for in its place. `$uiResults$` is rendered once for each result by
`as_temp_make_res`, which is a parameter here (`MakeRes`): what is said about
pages without that variable holds whatever it does, and the page says what it
makes of the answer.
-/

namespace UiServer

open CMem

def maxSearchResNum : Nat := 750

/-- The texts of a `Template_t` that make up its pages. -/
structure Template where
  page : Content
  none : Content
  err : Content

/-- `Template_handle_t`: the names of the loaded templates, `tn_num` of them,
and the templates. -/
structure TemplateHandle where
  tn : List Bytes
  tpl : Nat → Template

/-- `as_temp_make_res` for the `k`-th result of a template: the page as it
leaves it and the length it answers with. -/
abbrev MakeRes :=
  (index : Nat) → UpstreamResponseHead → WebRequest → (k : Nat) → Writer → Mem × Int

def toLower (c : UInt8) : UInt8 := if 65 ≤ c ∧ c ≤ 90 then c + 32 else c

def strcasecmpEq (a b : Bytes) : Bool := a.map toLower == b.map toLower

def tempGetTemplateIndex (h : TemplateHandle) (tn : Bytes) : Option Nat :=
  h.tn.findIdx? fun name => strcasecmpEq name tn

def maxPageNo (rn totalNum : Nat) : Nat :=
  if rn = 0 then 0
  else
    let totalNum := if maxSearchResNum < totalNum then maxSearchResNum else totalNum
    let num := totalNum / rn
    if totalNum % rn ≠ 0 then num + 1 else num

/-- The clamp at the head of `temp_make_page`. -/
def clampPageNo (pageNo : UInt16) (pageCount : Nat) : UInt16 :=
  if pageCount < pageNo.toNat then
    if 1 < pageCount then UInt16.ofNat (pageCount - 1) else 0
  else pageNo

def pageNums (pageNo pageCount : Nat) : List Nat :=
  let j := if 6 < pageNo then pageNo - 6 else 0
  List.range' j (min (pageNo + 6) pageCount - j)

def pageNumText (pageNo j : Nat) : Bytes :=
  if j = pageNo then
    ascii "<span class=\"current\">" ++ decimal (j + 1) ++ ascii "</span>"
  else ascii "<a href='#'>" ++ decimal (j + 1) ++ ascii "</a>"

/-- What `temp_make_page` works with once the text is chosen: the page's size,
the template's index, the clamped request and the merged response. -/
structure PageArgs where
  size : Nat
  index : Nat
  web : WebRequest
  up : UpstreamRequest
  resp : UpstreamResponse
  pageCount : Nat
  makeRes : MakeRes

def makeResults (a : PageArgs) (w : Writer) : Except Mem Writer :=
  (List.range a.resp.head.returnNum.toNat).foldlM
    (fun w k =>
      let (mem, n1) := a.makeRes a.index a.resp.head a.web k w
      if n1 < 0 ∨ w.nleft < n1 then .error mem
      else .ok ⟨mem, w.pbuf + n1.toNat, w.nleft - n1.toNat⟩) w

def makeVar (a : PageArgs) (v : VarAttr) (w : Writer) : Except Mem Writer :=
  match CommonPageVar.ofId v.id with
  | some .uiResStr =>
      if 2 ^ 31 ≤ a.resp.len.toNat then .error w.mem
      else w.put (strncpyBytes a.resp.body a.resp.len.toNat)
  | some .uiTemplateName => w.print (cstr a.up.tn)
  | some .uiType => w.print (fmtD a.resp.head.data.type)
  | some .uiWidth => w.print (fmtD a.resp.head.data.width)
  | some .uiHeight => w.print (fmtD a.resp.head.data.height)
  | some .uiPageNumInt => w.print (decimal a.up.pageNo.toNat)
  | some .uiPageNum =>
      ((pageNums a.up.pageNo.toNat a.pageCount).map
        (pageNumText a.up.pageNo.toNat)).foldlM Writer.print w
  | some .uiResults => makeResults a w
  | some .uiBackspace => .ok (w.back a.size)
  | _ => .ok w

/-- The loop over the variables, `p` being `ppageptr`, and the copy of the
rest of the text behind the last of them. -/
def makeVars (a : PageArgs) (text : Bytes) :
    List VarAttr → Nat → Writer → Except Mem Writer
  | [], p, w => w.put (cstr (text.drop p))
  | v :: vs, p, w => do
      let n := v.pos - p
      let w ← w.put (strncpyBytes (text.drop p) n)
      let w ← makeVar a v w
      makeVars a text vs (p + n + v.len) w

/-- What a call of `temp_make_page` leaves behind and returns. -/
structure MadePage where
  page : Mem
  up : UpstreamRequest
  ret : Int

/-- The page of a chosen text, with its terminator. -/
def makePage (a : PageArgs) (c : Content) (page : Mem) : MadePage :=
  match makeVars a c.text c.vars 0 ⟨page, 0, a.size⟩ with
  | .error mem => ⟨mem, a.up, -1⟩
  | .ok w => ⟨store w.mem w.pbuf [0], a.up, w.pbuf⟩

def chooseContent (t : Template) (iserr : Int) (returnNum : UInt32) : Content :=
  if 0 < iserr then t.err else if returnNum = 0 then t.none else t.page

/-- The template and the error flag it goes on with: an index that names no
template selects the error page of the first one. -/
def chooseIndex (h : TemplateHandle) (index iserr : Int) : Nat × Int :=
  if index < 0 ∨ (h.tn.length : Int) ≤ index then (0, 1) else (index.toNat, iserr)

/-- The page count and the request with its page number clamped. -/
def clampRequest (up : UpstreamRequest) (totalNum : UInt32) : Nat × UpstreamRequest :=
  let pageCount := maxPageNo up.rn.toNat totalNum.toNat
  (pageCount, { up with pageNo := clampPageNo up.pageNo pageCount })

def tempMakePage (h : TemplateHandle) (makeRes : MakeRes) (index : Int) (page : Mem)
    (size : Nat) (web : WebRequest) (up : UpstreamRequest) (resp : UpstreamResponse)
    (iserr : Int) : MadePage :=
  let (index, iserr) := chooseIndex h index iserr
  let (pageCount, up) := clampRequest up resp.head.totalNum
  makePage ⟨size, index, web, up, resp, pageCount, makeRes⟩
    (chooseContent (h.tpl index) iserr resp.head.returnNum) page

end UiServer
