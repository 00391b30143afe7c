import UiServer.Lib.Blind
import UiServer.Proofs.Room

/-!
# A page is made from the request and the replies alone

Every piece of a page is written before the place moves behind it, so the text
does not show what the buffer held before. Of the merged reply the page takes the
head, the length and the body, and of the request only what goes to the upstreams.
-/

namespace UiServer

open CMem

/-! ## What a conversion moves over

A conversion answers with a length, and the page goes on behind so many bytes.
Nothing of what lay under them shows as long as the conversion has stored that
many, and each of them has: also those that print less than they say are refused
by their length. -/

/-- The conversion has stored what its length says, unless it is refused. -/
def Converted.Covers (size : Nat) (c : Converted) : Prop :=
  c.num ≤ size → c.num.toNat ≤ c.stored.length

theorem covers_failed (size : Nat) : Converted.failed.Covers size := fun _ => Nat.le_refl 0

theorem covers_zero (size : Nat) (stored : Bytes) : Converted.Covers size ⟨stored, 0⟩ :=
  fun _ => Nat.zero_le _

theorem covers_print (size : Nat) (text : Bytes) :
    (Converted.print size text).Covers size :=
  fun h => le_length_printed (Int.ofNat_le.1 h)

theorem covers_text (size : Nat) (text tail : Bytes) :
    Converted.Covers size ⟨text ++ tail, text.length⟩ := by
  intro _
  show text.length ≤ (text ++ tail).length
  rw [List.length_append]
  exact Nat.le_add_right _ _

theorem covers_tempItoa (n : Int) (size : Nat) : (tempItoa n size).Covers size := by
  rw [tempItoa]
  split
  · exact covers_zero size []
  · generalize itoaLoop size 10 (if n < 0 then Int.bmod (-n) (2 ^ 32) else n) [] = r
    obtain ⟨s, m⟩ := r
    simp only []
    generalize (if s.length < size ∧ n < 0 then 45 :: s else s) = t
    split
    · exact covers_text size t [0]
    · intro h
      have hle := le_length_printed (Int.ofNat_le.1 h)
      show (decimalInt m).length ≤ (printed size (decimalInt m) ++ _).length
      rw [List.length_append]
      omega

theorem covers_tempIntdateToStr (libc : Libc) (value : UInt32) (size : Nat) (fmt : Bytes) :
    (tempIntdateToStr libc value size fmt).Covers size := by
  simp only [tempIntdateToStr]
  split
  · exact covers_text size _ [0]
  · exact covers_zero size _

theorem covers_asUint (libc : Libc) (conf : TemplateConf) (w : UInt32)
    (method : VarTransMethod) (size : Nat) :
    (asUintValueToOtherProcess libc conf w method size).Covers size := by
  cases method
  case uintToUint | uintToTimeUsed | uintToLanguageStr => exact covers_print _ _
  case uintToTotalNumberStr =>
    rw [asUintValueToOtherProcess]
    exact covers_tempItoa _ _
  case uintToTimeStr | uintToJavascriptTime => exact covers_tempIntdateToStr _ _ _ _
  case uintToPidstr | uintToFlag => exact covers_zero _ _
  all_goals exact covers_failed _

theorem covers_quoteEscape (src : Bytes) (size : Nat) : (quoteEscape src size).Covers size := by
  simp only [quoteEscape]
  generalize (if size = 0 then 2 ^ 64 - 1 else size - 1) = canPush
  split
  · exact covers_failed size
  · exact covers_text size _ [0]

theorem covers_charConversion (conf : TemplateConf) (value : Option Bytes)
    (method : VarTransMethod) (size : Nat) :
    (charConversion conf value method size).Covers size := by
  have hfollow : ∀ f : Bytes → Converted, (∀ s, (f s).Covers size) →
      ((value.map f).getD .failed).Covers size := by
    intro f hf
    cases value with
    | none => exact covers_failed size
    | some s => exact hf s
  have hescape : ∀ s : Bytes, (if conf.escapeBackslash ≠ 0 then quoteEscape s size
      else Converted.print size s).Covers size := by
    intro s
    split
    · exact covers_quoteEscape s size
    · exact covers_print size s
  cases method
  case strToConvQuoteEscape | strToEscapeBackslash => exact hfollow _ hescape
  case strUriEncodeUtf8 | strUriEncode => exact covers_print size []
  case strToPidName => exact covers_zero size []
  case strToConv | strToStr | strXmlEncode | strFullHighLight | strTitleTypeBasic
      | strHighLightBasic | strAbstractTypeBasic | strTitleTypeCut =>
    exact hfollow _ fun s => covers_print size _
  all_goals exact covers_failed size

theorem covers_asChar (conf : TemplateConf) (value : Option Bytes)
    (method : VarTransMethod) (size : Nat) :
    (asCharValueToOtherProcess conf value method size).Covers size := by
  rw [asCharValueToOtherProcess]
  split
  · exact fun _ => Nat.zero_le _
  · exact covers_charConversion conf value method size

theorem covers_convertVar (a : ResArgs) (v : ResVar) (size : Nat) :
    (convertVar a v size).Covers size := by
  rw [convertVar]
  cases v.fromFieldType
  case fieldTypeUint =>
    simp only [convertUint]
    split
    · exact covers_asUint _ _ _ _ _
    · exact covers_asUint _ _ _ _ _
    · exact covers_failed size
    · exact covers_failed size
  case fieldTypeChar =>
    simp only [convertChar]
    split
    · exact covers_asChar _ _ _ _
    · exact covers_asChar _ _ _ _
    · exact covers_asChar _ _ _ _
    · exact covers_failed size
  all_goals exact covers_failed size

/-! ## The memory under a page

A step of the renderer is blind to the memory if it gives the same from any two
buffers that agree in front of its place. Blind steps go together, and so the page
is blind. -/

theorem blind_makeResVar (a : ResArgs) (v : ResVar) : Blind (makeResVar a v) := by
  refine blind_step (fun room => (convertVar a v room).stored) (fun room =>
    if (convertVar a v room).num < 0 ∨ room < (convertVar a v room).num then none
    else some (convertVar a v room).num.toNat) ?_ ?_
  · intro room n h
    split at h
    · cases h
    · next hfit =>
        cases h
        exact covers_convertVar a v room (by omega)
  · intro w
    by_cases hbad : (convertVar a v w.nleft).num < 0 ∨ w.nleft < (convertVar a v w.nleft).num
    · simp only [makeResVar, hbad, if_true]
      exact ⟨_, rfl⟩
    · simp only [makeResVar, hbad, if_false]

theorem blind_makeResVars (a : ResArgs) (text : Bytes) : ∀ (vs : List ResVar) (p : Nat),
    Blind (makeResVars a text vs p) := by
  intro vs
  induction vs with
  | nil => intro p; exact blind_put _
  | cons v vs ih => intro p; exact (blind_put _).bind ((blind_makeResVar a v).bind (ih _))

section

variable {set : TemplateSet} {libc : Libc} {stray : Nat → Stray} {a : PageArgs}

theorem blind_makeResults (ha : a.makeRes = resultsOf set libc stray) :
    Blind (makeResults a) := by
  refine blind_foldlM (f := makeResult a) (fun k => ?_) _
  exact ((blind_makeResVars _ _ _ 0).bind blind_close).congr (makeResult_eq ha k)

theorem blind_makeVar (ha : a.makeRes = resultsOf set libc stray) (v : VarAttr) :
    Blind (makeVar a v) := by
  have hcase : makeVar a v = fun w => makeVar a v w := rfl
  rw [hcase]
  simp only [makeVar]
  cases CommonPageVar.ofId v.id with
  | none => exact blind_ok
  | some id =>
      cases id
      case uiResStr =>
        by_cases hlen : 2 ^ 31 ≤ a.resp.len.toNat
        · simp only [hlen, if_true]
          exact blind_refuse
        · simp only [hlen, if_false]
          exact blind_put _
      case uiTemplateName | uiType | uiWidth | uiHeight | uiPageNumInt => exact blind_print _
      case uiPageNum => exact blind_foldlM blind_print _
      case uiResults => exact blind_makeResults ha
      case uiBackspace => exact blind_back _
      all_goals exact blind_ok

theorem blind_makeVars (ha : a.makeRes = resultsOf set libc stray) (text : Bytes) :
    ∀ (vs : List VarAttr) (p : Nat), Blind (makeVars a text vs p) := by
  intro vs
  induction vs with
  | nil => intro p; exact blind_put _
  | cons v vs ih => intro p; exact (blind_put _).bind ((blind_makeVar ha v).bind (ih _))

/-- The text of a page: what is sent of it. -/
def MadePage.text (made : MadePage) : Bytes := read made.page 0 made.ret.toNat

theorem makePage_blind (ha : a.makeRes = resultsOf set libc stray) (c : Content)
    (page page' : Mem) :
    (makePage a c page').ret = (makePage a c page).ret ∧
      (makePage a c page').text = (makePage a c page).text ∧
      (makePage a c page').up = (makePage a c page).up := by
  have hend := blind_makeVars ha c.text c.vars 0 _ _ (Writer.alike_start page page' a.size)
  simp only [makePage, MadePage.text]
  cases hw : makeVars a c.text c.vars 0 ⟨page, 0, a.size⟩ with
  | error m =>
      cases hw' : makeVars a c.text c.vars 0 ⟨page', 0, a.size⟩ with
      | error m' => exact ⟨rfl, rfl, rfl⟩
      | ok w' => rw [hw, hw'] at hend; exact hend.elim
  | ok w =>
      cases hw' : makeVars a c.text c.vars 0 ⟨page', 0, a.size⟩ with
      | error m' => rw [hw, hw'] at hend; exact hend.elim
      | ok w' =>
          rw [hw, hw'] at hend
          have hpbuf := hend.pbuf
          refine ⟨congrArg Int.ofNat hpbuf, ?_, rfl⟩
          simp only [Int.toNat_natCast, hpbuf]
          rw [read_store_before (Nat.le_of_eq (Nat.zero_add _)),
            read_store_before (Nat.le_of_eq (Nat.zero_add _))]
          exact hend.read_eq

end

/-! ## What a page is made from

Of the rest of its arguments a page takes the head and the body of the merged
reply, and nothing of the client's own record. -/

/-- The parts of a merged reply that count. -/
structure UpstreamResponse.Same (r r' : UpstreamResponse) : Prop where
  len : r'.len = r.len
  head : r'.head = r.head
  body : r'.body = r.body

/-- Nothing in a page is made from the client's own record. -/
theorem makeVars_same {set : TemplateSet} {libc : Libc} {stray : Nat → Stray}
    {a : PageArgs} {web : WebRequest} {resp : UpstreamResponse}
    (ha : a.makeRes = resultsOf set libc stray) (hr : a.resp.Same resp) (text : Bytes) :
    ∀ (vs : List VarAttr) (p : Nat) (w : Writer),
      makeVars { a with web := web, resp := resp } text vs p w = makeVars a text vs p w := by
  have hvar : ∀ (v : VarAttr) (w : Writer),
      makeVar { a with web := web, resp := resp } v w = makeVar a v w := by
    intro v w
    simp only [makeVar, makeResults, hr.len, hr.head, hr.body, ha]
    rfl
  intro vs
  induction vs with
  | nil => intro p w; rfl
  | cons v vs ih =>
      intro p w
      simp only [makeVars, hvar, ih]

/-- Two pages of one template, for the same request and the same reply: they
have the same text, whatever their buffers held. -/
theorem tempMakePage_same {h : TemplateHandle} {set : TemplateSet} {libc : Libc}
    {stray : Nat → Stray} {index iserr : Int} {page page' : Mem} {size : Nat}
    {web web' : WebRequest} {up : UpstreamRequest} {resp resp' : UpstreamResponse}
    (hr : resp.Same resp') :
    let made := tempMakePage h (resultsOf set libc stray) index page size web up resp iserr
    let made' := tempMakePage h (resultsOf set libc stray) index page' size web' up resp'
      iserr
    made'.ret = made.ret ∧ made'.text = made.text ∧ made'.up = made.up := by
  simp only [tempMakePage, hr.head]
  generalize chooseIndex h index iserr = chosen
  generalize clampRequest up resp.head.totalNum = clamped
  obtain ⟨index, iserr⟩ := chosen
  obtain ⟨pageCount, up⟩ := clamped
  simp only []
  generalize chooseContent (h.tpl index) iserr resp.head.returnNum = c
  let a : PageArgs := ⟨size, index, web, up, resp, pageCount, resultsOf set libc stray⟩
  have hsame : makePage { a with web := web', resp := resp' } c page' = makePage a c page' := by
    simp only [makePage]
    rw [makeVars_same (a := a) rfl hr]
  have hblind := makePage_blind (a := a) rfl c page page'
  rw [← hsame] at hblind
  exact hblind

end UiServer
