import UiServer.Lib.Spare
import UiServer.Proofs.PageText
import UiServer.Proofs.Room
import UiServer.Template.Layout

/-!
# A page that shows its results

`$uiResults$` stands for the texts of the results, one behind the other. A result is
written into the page itself, and its conversions need two bytes more than their text;
so the page is the expansion of its template, results and all, as long as no expansion
on the way comes closer than two bytes to the end (`tempMakePage_shows`).
-/

namespace UiServer

open CMem

/-! ## What a conversion stores

Where it has room for its text and two bytes more, a conversion has the text in
front of what it stores. That the answer is the text's length is known from the
conversions themselves; here the bytes are added. -/

theorem print_prefix {size : Nat} {text : Bytes} (h : text.length < size) :
    text <+: (Converted.print size text).stored := by
  show text <+: printed size text
  rw [printed_of_lt h]
  exact List.prefix_append text [0]

theorem asUint_prefix {libc : Libc} {conf : TemplateConf} {w : UInt32}
    {method : VarTransMethod} {text : Bytes} {size : Nat}
    (h : uintText libc conf w method = some text) (hroom : text.length + 2 ≤ size) :
    text <+: (asUintValueToOtherProcess libc conf w method size).stored := by
  cases method <;> simp only [uintText, Option.some.injEq, reduceCtorEq] at h <;> subst h
  case uintToTotalNumberStr =>
    rw [asUintValueToOtherProcess, tempItoa_eq (by omega)]
    exact List.prefix_append _ [0]
  case uintToTimeStr | uintToJavascriptTime =>
    simp only [asUintValueToOtherProcess, tempIntdateToStr]
    rw [if_pos (by omega)]
    exact List.prefix_append _ [0]
  case uintToPidstr | uintToFlag => exact List.nil_prefix
  all_goals exact print_prefix (by omega)

theorem quoteEscape_prefix {src : Bytes} {size : Nat}
    (h : (src.flatMap quoteEscapePush).length + 2 ≤ size) :
    src.flatMap quoteEscapePush <+: (quoteEscape src size).stored := by
  have hsize : size ≠ 0 := by omega
  have hpush : ¬ size - 1 < 1 := by omega
  have hloop := @quoteEscapeLoop_eq (size - 1) src []
    (by rw [List.nil_append]; omega)
  simp only [quoteEscape, if_neg hsize, if_neg hpush, hloop, List.nil_append]
  exact List.prefix_append _ [0]

theorem charConversion_prefix {conf : TemplateConf} {s : Bytes} {method : VarTransMethod}
    {text : Bytes} {size : Nat} (hs : s.length < 64)
    (h : charText conf s method = some text) (hroom : text.length + 2 ≤ size) :
    text <+: (charConversion conf (some s) method size).stored := by
  cases method <;> simp only [charText, Option.some.injEq, reduceCtorEq] at h <;> subst h
  case strToConvQuoteEscape | strToEscapeBackslash =>
    simp only [charConversion, Option.map_some, Option.getD_some]
    by_cases he : conf.escapeBackslash ≠ 0
    · rw [if_pos he] at hroom
      rw [if_pos he, if_pos he]
      exact quoteEscape_prefix hroom
    · rw [if_neg he] at hroom
      rw [if_neg he, if_neg he]
      exact print_prefix (by omega)
  case strXmlEncode =>
    simp only [charConversion, Option.map_some, Option.getD_some, xmlEncode_eq hs]
    exact print_prefix (by omega)
  case strToPidName | strUriEncodeUtf8 | strUriEncode => exact List.nil_prefix
  all_goals exact print_prefix (by omega)

theorem asChar_prefix {conf : TemplateConf} {s : Bytes} {method : VarTransMethod}
    {text : Bytes} {size : Nat} (hs : s.length < 64)
    (h : charText conf s method = some text) (hroom : text.length + 2 ≤ size) :
    text <+: (asCharValueToOtherProcess conf (some s) method size).stored := by
  have hnum := charConversion_num hs h hroom
  rw [asCharValueToOtherProcess]
  simp only [hnum]
  rw [if_neg (by omega)]
  exact charConversion_prefix hs h hroom

theorem convertVar_prefix {a : ResArgs} {v : ResVar} {text : Bytes} {size : Nat}
    (h : valueText a v = some text) (hroom : text.length + 2 ≤ size) :
    text <+: (convertVar a v size).stored := by
  rw [valueText] at h
  rw [convertVar]
  cases htype : v.fromFieldType
  case fieldTypeUint =>
    simp only [htype] at h
    simp only [convertUint]
    split at h
    · next w hw =>
        rw [hw]
        exact asUint_prefix h hroom
    · cases h
  case fieldTypeChar =>
    simp only [htype] at h
    simp only [convertChar]
    split at h
    · next s hs =>
        rw [hs]
        exact asChar_prefix (fetchChar_length hs) h hroom
    · cases h
  all_goals
    rw [htype] at h
    cases h

/-! ## A result

A result is written into the page behind what is there, variable by variable, and
does just what the texts of its variables say, or leaves too little room on the
way. -/

section

variable {n size : Nat} (hn : n + 2 ≤ size)

include hn

theorem builds_makeResVar {a : ResArgs} {v : ResVar} {text : Bytes}
    (h : valueText a v = some text) : Builds n size (makeResVar a v) [.text text] := by
  refine builds_text (by omega) text fun w hroom => ?_
  have hroom : text.length + 2 ≤ w.nleft := by omega
  have hnum := convertVar_renders h hroom
  obtain ⟨tail, htail⟩ := convertVar_prefix h hroom
  refine ⟨tail, ?_⟩
  simp only [makeResVar, hnum, ← htail]
  rw [if_neg (by omega), Int.toNat_natCast]

theorem builds_put (bs : Bytes) : Builds n size (fun w => w.put bs) [.text bs] :=
  builds_of_follows (by omega) fun ha => follows_put bs ha

theorem builds_makeResVars {a : ResArgs} {text : Bytes} (hnul : NulFree text) :
    ∀ (vs : List ResVar) {p : Nat} {t : Bytes}, InOrder text.length p (vs.map ResVar.toVarAttr) →
      resText a text vs p = some t → Builds n size (makeResVars a text vs p) [.text t] := by
  intro vs
  induction vs with
  | nil =>
      intro p t _ h
      cases h
      refine (builds_put hn (text.drop p)).congr fun w => ?_
      rw [makeResVars, cstr_of_nulFree (hnul.sublist (List.drop_sublist p text))]
  | cons v vs ih =>
      intro p t hord h
      simp only [resText, Option.bind_eq_bind, Option.bind_eq_some_iff] at h
      obtain ⟨value, hvalue, rest, hrest, h⟩ := h
      cases h
      have hle := hord.2.le
      have hpos : p + (v.pos - p) = v.pos := Nat.add_sub_cancel' hord.1
      have hthree := (builds_put hn ((text.take v.pos).drop p)).bind
        ((builds_makeResVar hn hvalue).bind (ih hord.2 hrest))
      have hflat := Builds.flatten (l := [(text.take v.pos).drop p, value, rest]) hthree
      rw [List.append_assoc]
      simp only [List.flatten_cons, List.flatten_nil, List.append_nil] at hflat
      refine hflat.congr fun w => ?_
      rw [makeResVars, strncpyBytes_drop hnul (by omega), hpos]

/-- The text of the `k`-th result: the results are rendered without a node. -/
def shownText (set : TemplateSet) (libc : Libc) (stray : Nat → Stray) (a : PageArgs) (k : Nat) :
    Option Bytes :=
  resText (callArgs set libc stray a k) (set.res a.index).text (set.res a.index).vars 0

theorem builds_makeResults {set : TemplateSet} {libc : Libc} {stray : Nat → Stray} {a : PageArgs}
    (ha : a.makeRes = resultsOf set libc stray) (ht : (set.res a.index).Loaded)
    {texts : Nat → Bytes}
    (htexts : ∀ k < a.resp.head.returnNum.toNat, shownText set libc stray a k = some (texts k)) :
    Builds n size (makeResults a)
      ((List.range a.resp.head.returnNum.toNat).map fun k => .text (texts k)) := by
  refine builds_foldlM (F := makeResult a) fun k hk => ?_
  have hone := (builds_makeResVars hn ht.nulFree _ ht.inOrder
    (htexts k (List.mem_range.1 hk))).bind builds_terminated
  exact hone.congr fun w => makeResult_eq ha k w

end

/-! ## The page

The reference is that of a page without results, with the texts of the results in
the place of `$uiResults$`. Whether it fits is asked of all its beginnings, since
a backspace takes away again what had to fit before. -/

/-- What a variable stands for when the results have these texts. -/
def shownPieces (results : List Bytes) (up : UpstreamRequest) (resp : UpstreamResponse)
    (pageCount : Nat) (v : VarAttr) : List Piece :=
  if CommonPageVar.ofId v.id = some .uiResults then results.map .text
  else varPieces up resp pageCount v

section

variable {n size : Nat} (hn : n + 2 ≤ size) {set : TemplateSet} {libc : Libc}
  {stray : Nat → Stray} {a : PageArgs} (ha : a.makeRes = resultsOf set libc stray)
  (hsize : a.size = size) (ht : (set.res a.index).Loaded) {texts : Nat → Bytes}
  (htexts : ∀ k < a.resp.head.returnNum.toNat, shownText set libc stray a k = some (texts k))
  (hbody : a.resp.len.toNat < 2 ^ 31)

include hn ha hsize ht htexts hbody

theorem builds_makeVar (v : VarAttr) : Builds n size (makeVar a v)
    (shownPieces ((List.range a.resp.head.returnNum.toNat).map texts) a.up a.resp a.pageCount
      v) := by
  rw [shownPieces]
  split
  · next hres =>
      rw [List.map_map]
      refine (builds_makeResults hn ha ht htexts).congr fun w => ?_
      rw [makeVar, hres]
  · next hres =>
      refine builds_of_follows (by omega) fun hagree => ?_
      rw [← hsize] at hagree ⊢
      exact makeVar_follows hbody hres hagree

theorem builds_makeVars {text : Bytes} (hnul : NulFree text) : ∀ (vs : List VarAttr) {p : Nat},
    InOrder text.length p vs → Builds n size (makeVars a text vs p)
      (contentPieces (shownPieces ((List.range a.resp.head.returnNum.toNat).map texts) a.up a.resp
        a.pageCount) text vs p) := by
  intro vs
  induction vs with
  | nil =>
      intro p _
      refine (builds_put hn (text.drop p)).congr fun w => ?_
      rw [makeVars, cstr_of_nulFree (hnul.sublist (List.drop_sublist p text))]
  | cons v vs ih =>
      intro p hord
      have hle := hord.2.le
      have hpos : p + (v.pos - p) = v.pos := Nat.add_sub_cancel' hord.1
      have hthree := (builds_put hn ((text.take v.pos).drop p)).bind
        ((builds_makeVar hn ha hsize ht htexts hbody v).bind (ih hord.2))
      refine hthree.congr fun w => ?_
      rw [makeVars, strncpyBytes_drop hnul (by omega), hpos]

end

/-- The expansion of the chosen text, with the texts of the results. -/
def shownPage (h : TemplateHandle) (results : List Bytes) (index : Int) (up : UpstreamRequest)
    (resp : UpstreamResponse) (iserr : Int) : List Piece :=
  let (index, iserr) := chooseIndex h index iserr
  let (pageCount, up) := clampRequest up resp.head.totalNum
  let c := chooseContent (h.tpl index) iserr resp.head.returnNum
  contentPieces (shownPieces results up resp pageCount) c.text c.vars 0

/-- The variable does not make `temp_itoa` negate the smallest `int`, for which C has no
answer. Without a node `total_num` is the only number that may be as large. -/
def ResVar.ItoaFits (v : ResVar) (totalNum : UInt32) : Prop :=
  v.fromId = .resultHeadTotalNum → v.transMethodId = .uintToTotalNumberStr →
    totalNum ≠ 2147483648

instance (v : ResVar) (totalNum : UInt32) : Decidable (v.ItoaFits totalNum) :=
  inferInstanceAs (Decidable (_ → _ → _))

/-- The results of a merged reply have these texts in the template. -/
structure ResultTexts (set : TemplateSet) (libc : Libc) (stray : Nat → Stray) (index : Nat)
    (head : UpstreamResponseHead) (results : List Bytes) : Prop where
  texts : List.Forall₂ (fun k text => resText ⟨none, head, (set.res index).conf, libc, stray k⟩
    (set.res index).text (set.res index).vars 0 = some text)
    (List.range head.returnNum.toNat) results
  itoa : ∀ v ∈ (set.res index).vars, v.ItoaFits head.totalNum

theorem ResultTexts.eq_map {set : TemplateSet} {libc : Libc} {stray : Nat → Stray} {index : Nat}
    {head : UpstreamResponseHead} {results : List Bytes}
    (h : ResultTexts set libc stray index head results) :
    results = (List.range head.returnNum.toNat).map (fun k => results.getD k []) ∧
      ∀ k < head.returnNum.toNat, resText ⟨none, head, (set.res index).conf, libc, stray k⟩
        (set.res index).text (set.res index).vars 0 = some (results.getD k []) := by
  have hlen : head.returnNum.toNat = results.length := by
    have h := h.texts.length_eq
    rwa [List.length_range] at h
  refine ⟨?_, fun k hk => ?_⟩
  · refine List.ext_getElem (by rw [List.length_map, List.length_range, hlen]) fun k hk _ => ?_
    rw [List.getElem_map, List.getElem_range, List.getD_eq_getElem _ _ hk]
  · have hget := (List.forall₂_iff_get.1 h.texts).2 k (by rwa [List.length_range])
      (by rwa [← hlen])
    simp only [List.get_eq_getElem, List.getElem_range] at hget
    rw [List.getD_eq_getElem _ _ (hlen ▸ hk), ← hget]

theorem makePage_shows {set : TemplateSet} {libc : Libc} {stray : Nat → Stray} {a : PageArgs}
    (room : Nat) (page : Mem) (hsize : a.size = room + 2)
    (ha : a.makeRes = resultsOf set libc stray)
    (ht : (set.res a.index).Loaded) (hbody : a.resp.len.toNat < 2 ^ 31) {results : List Bytes}
    (hres : ResultTexts set libc stray a.index a.resp.head results) {c : Content}
    (hfit : ¬ Overflows room
      (contentPieces (shownPieces results a.up a.resp a.pageCount) c.text c.vars 0)) :
    let made := makePage a c page
    let text := expand (contentPieces (shownPieces results a.up a.resp a.pageCount) c.text
      c.vars 0)
    made.ret = text.length ∧ read made.page 0 text.length = text ∧ made.page text.length = 0 := by
  intro made text
  obtain ⟨hmap, htexts⟩ := hres.eq_map
  have hbuilds := builds_makeVars (Nat.le_refl (room + 2)) ha hsize ht htexts hbody c.spec.1
    c.vars c.spec.2
  rw [← hmap] at hbuilds
  obtain ⟨w, hw, hagree⟩ := hbuilds ⟨page, 0, room + 2⟩ [] (agrees_start page _) hfit
  have hmade : made = ⟨store w.mem w.pbuf [0], a.up, w.pbuf⟩ := by
    show makePage a c page = _
    rw [makePage, hsize, hw]
  have hlen : text.length < room + 2 :=
    Nat.lt_of_le_of_lt (length_le_of_not_overflows hfit) (by omega)
  have hpbuf : w.pbuf = text.length := hagree.pbuf
  obtain ⟨hread, hend⟩ := hagree.read_terminated hlen
  rw [hmade]
  refine ⟨?_, hread, hend⟩
  rw [hpbuf]

/-- The templates are loaded, and no result text has more variables than its array
holds; those that follow would lie on the page for no results. -/
structure TemplateSet.LoadedFrom (set : TemplateSet) (n : Nat) (dir : TemplateDir) : Prop where
  load : templateLoad n dir = some set
  fits : ∀ i < set.handle.tn.length, (set.res i).vars.length ≤ maxResVarsNum

/-- With two bytes to spare the page is the expansion of its template, with the text of
each result where the results are shown. -/
theorem tempMakePage_shows {n : Nat} {dir : TemplateDir} {set : TemplateSet} {libc : Libc}
    {stray : Nat → Stray} (hload : set.LoadedFrom n dir) {index iserr : Int} {page : Mem}
    {room : Nat} {web : WebRequest} {up : UpstreamRequest} {resp : UpstreamResponse}
    (hbody : resp.len.toNat < 2 ^ 31) {results : List Bytes}
    (hres : ResultTexts set libc stray (chooseIndex set.handle index iserr).1 resp.head results)
    (hfit : ¬ Overflows room (shownPage set.handle results index up resp iserr)) :
    let made := tempMakePage set.handle (resultsOf set libc stray) index page (room + 2) web up
      resp iserr
    let text := expand (shownPage set.handle results index up resp iserr)
    made.ret = text.length ∧ read made.page 0 text.length = text ∧ made.page text.length = 0 :=
  makePage_shows room page rfl rfl (templateLoad_loaded hload.load _) hbody hres hfit

/-- A reply with two results of two. -/
def twoBare : UpstreamResponse :=
  ⟨0, { UpstreamResponseHead.zero with returnNum := 2, resNum := 2, totalNum := 2 }, fun _ => 0⟩

theorem resultTexts_two :
    ResultTexts idSet epochLibc (fun _ => .zero) 0 twoBare.head
      [ascii "<i>2</i>", ascii "<i>2</i>"] :=
  ⟨.cons (by decide +kernel) (.cons (by decide +kernel) .nil), by decide +kernel⟩

theorem shownPage_two :
    shownPage idSet.handle [ascii "<i>2</i>", ascii "<i>2</i>"] 0 emptyRequest twoBare 0 =
      [ascii "", ascii "<i>2</i>", ascii "<i>2</i>", ascii ""].map .text := by
  decide +kernel

/-- Both results are on the page. -/
theorem tempMakePage_shows_two :
    let made := tempMakePage idSet.handle (resultsOf idSet epochLibc fun _ => .zero) 0
      (fun _ => 60) (30 + 2) ⟨fun _ => 0⟩ emptyRequest twoBare 0
    made.ret = 16 ∧ read made.page 0 16 = ascii "<i>2</i><i>2</i>" ∧ made.page 16 = 0 := by
  have hload : idSet.LoadedFrom 8 idDir := ⟨(Option.some_get _).symm, by decide +kernel⟩
  have hfit : ¬ Overflows 30
      (shownPage idSet.handle [ascii "<i>2</i>", ascii "<i>2</i>"] 0 emptyRequest twoBare 0) := by
    rw [shownPage_two]
    refine fun ho => absurd (overflowsFrom_texts ho) ?_
    simp only [OverflowsFrom, Piece.apply]
    decide
  have h := @tempMakePage_shows 8 idDir idSet epochLibc (fun _ => .zero) hload 0 0 (fun _ => 60)
    30 ⟨fun _ => 0⟩ emptyRequest twoBare (by decide) _ resultTexts_two hfit
  rw [shownPage_two] at h
  exact h

end UiServer
