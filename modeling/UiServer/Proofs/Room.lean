import UiServer.Lib.Room
import UiServer.Proofs.Defined
import UiServer.Template.Itoa

/-!
# Which pages fill their buffer to the last byte

The pieces of a page are compared with the room left, but the terminators behind
a result and behind the page are not: where the text in front of one of them ends
with the buffer, it is written behind it. The same goes for a string that is
escaped into no room at all.

`pageJobs` and `resJobs` are what the templates, the request and the reply make
of the room; the induction over the variables shows that the code performs them.
-/

namespace UiServer

open CMem

/-! ## What a conversion stores

Bounded by the room it is given, for each conversion but the escape, which stores
its terminator into no room as well. -/

theorem tempItoa_stored (n : Int) (size : Nat) : (tempItoa n size).stored.length ≤ size := by
  rw [← tempItoaGroups_three]
  exact tempItoaGroups_stored n size 3

theorem tempIntdateToStr_stored (libc : Libc) (value : UInt32) (size : Nat) (fmt : Bytes) :
    (tempIntdateToStr libc value size fmt).stored.length ≤ size := by
  simp only [tempIntdateToStr]
  split
  · next hlt =>
      rw [List.length_append, List.length_singleton]
      exact hlt
  · rw [List.length_take]
    exact Nat.min_le_left _ _

theorem asUint_stored (libc : Libc) (conf : TemplateConf) (w : UInt32)
    (method : VarTransMethod) (size : Nat) :
    (asUintValueToOtherProcess libc conf w method size).stored.length ≤ size := by
  cases method
  case uintToUint | uintToTimeUsed | uintToLanguageStr => exact length_printed _ _
  case uintToTotalNumberStr =>
    rw [asUintValueToOtherProcess]
    exact tempItoa_stored _ _
  case uintToTimeStr | uintToJavascriptTime => exact tempIntdateToStr_stored _ _ _ _
  all_goals exact Nat.zero_le _

theorem quoteEscapeLoop_lt {canPush : Nat} : ∀ (src out : Bytes), out.length < canPush →
    (quoteEscapeLoop canPush src out).length < canPush := by
  intro src
  induction src with
  | nil => intro out h; exact h
  | cons c src ih =>
      intro out h
      rw [quoteEscapeLoop]
      split
      · exact h
      · next hfit =>
          refine ih _ ?_
          rw [List.length_append]
          omega

/-- Only with no room at all does the escape store more than its room. -/
theorem quoteEscape_stored (src : Bytes) (size : Nat) :
    size < (quoteEscape src size).stored.length ↔ size = 0 := by
  by_cases hsize : size = 0
  · simp [quoteEscape, hsize]
  · simp only [quoteEscape, hsize, if_false, iff_false, Nat.not_lt]
    split
    · exact Nat.zero_le _
    · next hpush =>
        have := @quoteEscapeLoop_lt (size - 1) src [] (Nat.not_lt.1 hpush)
        rw [List.length_append, List.length_singleton]
        omega

/-! ## The jobs of a result

A job is a length and what becomes of the room; whether it is refused or stores
too much is told from the room alone. The pieces of a result text are jobs, and
the terminator at its end is one that is never refused. -/

/-- The string of the variable is there and escaped. -/
def Escapes (a : ResArgs) (v : ResVar) : Prop :=
  v.fromFieldType = .fieldTypeChar ∧ a.node.isSome ∧
    (v.fromId = .resultNodeAbstract ∨ v.fromId ∈ strFields) ∧
    (v.transMethodId = .strToConvQuoteEscape ∨ v.transMethodId = .strToEscapeBackslash) ∧
    a.conf.escapeBackslash ≠ 0

theorem charConversion_stored (conf : TemplateConf) (value : Option Bytes)
    (method : VarTransMethod) (size : Nat) :
    size < (charConversion conf value method size).stored.length ↔
      size = 0 ∧ value.isSome ∧
        (method = .strToConvQuoteEscape ∨ method = .strToEscapeBackslash) ∧
        conf.escapeBackslash ≠ 0 := by
  have hprinted : ∀ text, ¬ size < (Converted.print size text).stored.length :=
    fun text => Nat.not_lt.2 (length_printed size text)
  have hfailed : ¬ size < Converted.failed.stored.length := Nat.not_lt_zero size
  cases value with
  | none => cases method <;> simp [charConversion, hfailed, hprinted]
  | some s =>
      cases method
      case strToConvQuoteEscape | strToEscapeBackslash =>
        by_cases he : conf.escapeBackslash = 0
        · simp [charConversion, he, hprinted]
        · simp [charConversion, he, quoteEscape_stored]
      all_goals simp [charConversion, hfailed, hprinted]

theorem asChar_stored (conf : TemplateConf) (value : Option Bytes)
    (method : VarTransMethod) (size : Nat) :
    (asCharValueToOtherProcess conf value method size).stored =
      (charConversion conf value method size).stored := by
  rw [asCharValueToOtherProcess]
  split <;> rfl

/-- There is a string to convert, the right one or another. -/
theorem fetchChar_there {a : ResArgs} {v : ResVar} :
    (∃ s, fetchChar a v = .value s ∨ fetchChar a v = .stray s) ↔
      a.node.isSome ∧ (v.fromId = .resultNodeAbstract ∨ v.fromId ∈ strFields) := by
  have hstr : ∀ {n : Nat} (f : ResultNode → Fin 4 → CString n),
      (∃ s, fetchStr a v f = .value s ∨ fetchStr a v f = .stray s) ↔ a.node.isSome := by
    intro n f
    rw [fetchStr]
    cases a.node with
    | none => simp
    | some node =>
        by_cases hidx : 0 ≤ v.fromIdIdx ∧ v.fromIdIdx < 4
        · simp only [dif_pos hidx]
          exact ⟨fun _ => rfl, fun _ => ⟨_, Or.inl rfl⟩⟩
        · simp only [dif_neg hidx]
          exact ⟨fun _ => rfl, fun _ => ⟨_, Or.inr rfl⟩⟩
  rw [fetchChar]
  cases v.fromId
  case resultNodeAbstract => cases a.node <;> simp [Fetched.ofNode]
  case resultNodeShortAttr | resultNodeLongAttr => simp [hstr, strFields]
  all_goals simp [strFields]

/-- A conversion stores more than its room exactly when it escapes a string into
none. -/
theorem convertVar_stored (a : ResArgs) (v : ResVar) (size : Nat) :
    size < (convertVar a v size).stored.length ↔ size = 0 ∧ Escapes a v := by
  have hfailed : ¬ size < Converted.failed.stored.length := Nat.not_lt_zero size
  rw [convertVar, Escapes]
  cases htype : v.fromFieldType
  case fieldTypeUint =>
    simp only [reduceCtorEq, false_and, and_false, iff_false, convertUint]
    split
    · exact Nat.not_lt.2 (asUint_stored _ _ _ _ _)
    · exact Nat.not_lt.2 (asUint_stored _ _ _ _ _)
    · exact hfailed
    · exact hfailed
  case fieldTypeChar =>
    have hthere := @fetchChar_there a v
    simp only [true_and, convertChar]
    cases hf : fetchChar a v
    case value s | stray s =>
      have hin := hthere.1 ⟨s, by simp [hf]⟩
      simp only [asChar_stored, charConversion_stored, Option.isSome_some, hin, true_and]
    case fault | refused =>
      have hout : ¬ (a.node.isSome ∧
          (v.fromId = .resultNodeAbstract ∨ v.fromId ∈ strFields)) := by
        rw [← hthere]
        simp [hf]
      have hright : ¬ (a.node.isSome ∧
          (v.fromId = .resultNodeAbstract ∨ v.fromId ∈ strFields) ∧
          (v.transMethodId = .strToConvQuoteEscape ∨
            v.transMethodId = .strToEscapeBackslash) ∧ a.conf.escapeBackslash ≠ 0) :=
        fun h => hout ⟨h.1, h.2.1⟩
      simp only [hright, and_false, iff_false]
      first
        | exact hfailed
        | simp [asChar_stored, charConversion_stored]
  all_goals simp [hfailed]

/-- The conversion of a variable, by the length it answers with. -/
def varJob (a : ResArgs) (v : ResVar) : Job where
  next := fun room =>
    let n1 := (convertVar a v room).num
    if n1 < 0 ∨ room < n1 then none else some (room - n1.toNat)
  spills := fun room => room = 0 ∧ Escapes a v

theorem varJob_next_le {a : ResArgs} {v : ResVar} {room left : Nat}
    (h : (varJob a v).next room = some left) : left ≤ room := by
  simp only [varJob] at h
  split at h
  · cases h
  · cases h
    exact Nat.sub_le _ _

/-- A result text up to its end. -/
def resJobs (a : ResArgs) (text : Bytes) : List ResVar → Nat → List Job
  | [], p => [.text (cstr (text.drop p)).length]
  | v :: vs, p =>
      .text (v.pos - p) :: varJob a v :: resJobs a text vs (p + (v.pos - p) + v.len)

theorem performs_makeResVar (size : Nat) (a : ResArgs) (v : ResVar) :
    Performs size (makeResVar a v) [varJob a v] := by
  refine performs_step size (fun room => (convertVar a v room).stored)
    (fun _ _ => varJob_next_le) ?_ ?_
  · exact fun room => (convertVar_stored a v room).symm
  · intro w
    simp only [varJob, makeResVar]
    split
    · rfl
    · next hfit =>
        have hle : (convertVar a v w.nleft).num.toNat ≤ w.nleft := by omega
        simp only [Nat.sub_sub_self hle]

theorem performs_makeResVars (size : Nat) (a : ResArgs) (text : Bytes) :
    ∀ (vs : List ResVar) (p : Nat),
      Performs size (makeResVars a text vs p) (resJobs a text vs p) := by
  intro vs
  induction vs with
  | nil => intro p; exact performs_put size _
  | cons v vs ih =>
      intro p
      have hlit := performs_put size (strncpyBytes (text.drop p) (v.pos - p))
      rw [length_strncpyBytes] at hlit
      exact hlit.bind ((performs_makeResVar size a v).bind (ih _))

theorem shrinks_resJobs (a : ResArgs) (text : Bytes) : ∀ (vs : List ResVar) (p : Nat),
    Shrinks (resJobs a text vs p) := by
  intro vs
  induction vs with
  | nil =>
      intro p j hj
      rw [List.mem_singleton.1 hj]
      exact fun _ _ => Job.text_next_le
  | cons v vs ih =>
      intro p j hj
      rcases List.mem_cons.1 hj with rfl | hj
      · exact fun _ _ => Job.text_next_le
      · rcases List.mem_cons.1 hj with rfl | hj
        · exact fun _ _ => varJob_next_le
        · exact ih _ j hj

/-! ## The jobs of a page

The same one level higher: the pieces of the page text, with the jobs of a result
for each result that is shown. The room never grows from one job to the next, so
the jobs in front tell how much is left. -/

/-- A result on the page ends with a terminator of its own. -/
def resultJobs (set : TemplateSet) (libc : Libc) (stray : Nat → Stray) (a : PageArgs)
    (k : Nat) : List Job :=
  resJobs (callArgs set libc stray a k) (set.res a.index).text (set.res a.index).vars 0 ++
    [.close]

/-- A result takes as much of the page as its text is long. -/
theorem asTempMakeRes_error {a : ResArgs} {text : Bytes} {vars : List ResVar} {w : Writer}
    {mem : Mem} (h : makeResVars a text vars 0 w = .error mem) :
    asTempMakeRes a text vars w = (mem, -1) := by
  rw [asTempMakeRes, h]

theorem asTempMakeRes_ok {a : ResArgs} {text : Bytes} {vars : List ResVar} {w w' : Writer}
    (h : makeResVars a text vars 0 w = .ok w') :
    asTempMakeRes a text vars w =
      (store w'.mem w'.pbuf [0], (w'.pbuf : Int) - w.pbuf) := by
  rw [asTempMakeRes, h]

theorem makeResult_eq {set : TemplateSet} {libc : Libc} {stray : Nat → Stray}
    {a : PageArgs} (ha : a.makeRes = resultsOf set libc stray) (k : Nat) (w : Writer) :
    makeResult a w k =
      (makeResVars (callArgs set libc stray a k) (set.res a.index).text
        (set.res a.index).vars 0 w >>= Writer.close) := by
  let run := makeResVars (callArgs set libc stray a k) (set.res a.index).text
    (set.res a.index).vars 0
  have hmade : a.makeRes a.index a.resp.head a.web k w =
      asTempMakeRes (callArgs set libc stray a k) (set.res a.index).text
        (set.res a.index).vars w := by
    rw [ha]
    rfl
  obtain ⟨o, -, hend⟩ := performs_makeResVars (w.pbuf + w.nleft)
    (callArgs set libc stray a k) (set.res a.index).text (set.res a.index).vars 0
    w.pbuf w.nleft rfl
  rw [makeResult, hmade]
  show _ = (run w >>= Writer.close)
  cases hleft : after (resJobs (callArgs set libc stray a k) (set.res a.index).text
      (set.res a.index).vars 0) w.nleft with
  | none =>
      rw [hleft] at hend
      have hrun : run w = .error (o.on w.mem) := hend w.mem
      rw [asTempMakeRes_error hrun, hrun]
      rfl
  | some left =>
      rw [hleft] at hend
      obtain ⟨q, hq, hok⟩ := hend
      have hrun : run w = .ok ⟨o.on w.mem, q, left⟩ := hok w.mem
      have hle := (shrinks_resJobs _ _ _ _).after_le hleft
      have hn : ((q : Int) - w.pbuf).toNat = w.nleft - left := by omega
      rw [asTempMakeRes_ok hrun, hrun]
      simp only []
      rw [if_neg (by omega), hn]
      show Except.ok (⟨_, w.pbuf + (w.nleft - left), w.nleft - (w.nleft - left)⟩ : Writer) =
        .ok ⟨_, q, left⟩
      rw [Nat.sub_sub_self hle, show w.pbuf + (w.nleft - left) = q by omega]

theorem performs_makeResults {set : TemplateSet} {libc : Libc} {stray : Nat → Stray}
    {a : PageArgs} (ha : a.makeRes = resultsOf set libc stray) (size : Nat) :
    Performs size (makeResults a)
      ((List.range a.resp.head.returnNum.toNat).flatMap
        (resultJobs set libc stray a)) := by
  refine performs_foldlM (f := makeResult a) (fun k => ?_) _
  exact ((performs_makeResVars size _ _ _ 0).bind (performs_close size)).congr
    (makeResult_eq ha k)

/-- What a variable of the page makes of the room. -/
def varJobs (set : TemplateSet) (libc : Libc) (stray : Nat → Stray) (a : PageArgs)
    (v : VarAttr) : List Job :=
  match CommonPageVar.ofId v.id with
  | some .uiResStr =>
      if 2 ^ 31 ≤ a.resp.len.toNat then [.refuse] else [.text a.resp.len.toNat]
  | some .uiTemplateName => [.text (cstr a.up.tn).length]
  | some .uiType => [.text (fmtD a.resp.head.data.type).length]
  | some .uiWidth => [.text (fmtD a.resp.head.data.width).length]
  | some .uiHeight => [.text (fmtD a.resp.head.data.height).length]
  | some .uiPageNumInt => [.text (decimal a.up.pageNo.toNat).length]
  | some .uiPageNum =>
      ((pageNums a.up.pageNo.toNat a.pageCount).map
        (pageNumText a.up.pageNo.toNat)).flatMap fun bs => [.text bs.length]
  | some .uiResults =>
      (List.range a.resp.head.returnNum.toNat).flatMap (resultJobs set libc stray a)
  | some .uiBackspace => [.back a.size]
  | _ => []

/-- A page up to its last terminator. -/
def pageJobs (set : TemplateSet) (libc : Libc) (stray : Nat → Stray) (a : PageArgs)
    (text : Bytes) : List VarAttr → Nat → List Job
  | [], p => [.text (cstr (text.drop p)).length]
  | v :: vs, p =>
      .text (v.pos - p) :: (varJobs set libc stray a v ++
        pageJobs set libc stray a text vs (p + (v.pos - p) + v.len))

theorem performs_makeVar {set : TemplateSet} {libc : Libc} {stray : Nat → Stray}
    {a : PageArgs} (ha : a.makeRes = resultsOf set libc stray) (v : VarAttr) :
    Performs a.size (makeVar a v) (varJobs set libc stray a v) := by
  have hcase : makeVar a v = fun w => makeVar a v w := rfl
  rw [hcase]
  simp only [makeVar, varJobs]
  cases CommonPageVar.ofId v.id with
  | none => exact performs_nil _
  | some id =>
      cases id
      case uiResStr =>
        by_cases hlen : 2 ^ 31 ≤ a.resp.len.toNat
        · simp only [hlen, if_true]
          exact performs_refuse _
        · simp only [hlen, if_false]
          have hput := performs_put a.size (strncpyBytes a.resp.body a.resp.len.toNat)
          rwa [length_strncpyBytes] at hput
      case uiTemplateName | uiType | uiWidth | uiHeight | uiPageNumInt =>
        exact performs_print _ _
      case uiPageNum => exact performs_foldlM (performs_print _) _
      case uiResults => exact performs_makeResults ha _
      case uiBackspace => exact performs_back _
      all_goals exact performs_nil _

theorem performs_makeVars {set : TemplateSet} {libc : Libc} {stray : Nat → Stray}
    {a : PageArgs} (ha : a.makeRes = resultsOf set libc stray) (text : Bytes) :
    ∀ (vs : List VarAttr) (p : Nat),
      Performs a.size (makeVars a text vs p) (pageJobs set libc stray a text vs p) := by
  intro vs
  induction vs with
  | nil => intro p; exact performs_put _ _
  | cons v vs ih =>
      intro p
      have hlit := performs_put a.size (strncpyBytes (text.drop p) (v.pos - p))
      rw [length_strncpyBytes] at hlit
      exact hlit.bind ((performs_makeVar ha v).bind (ih _))

/-! ## Inside the page

A page is overrun at a terminator that is come to with no room left, and nowhere
else. That is said of the jobs and holds of the code because the code performs
them. -/

/-- `temp_make_page` changes nothing behind the page, and a page it answers with
is terminated in front of its end. -/
def PageInside (set : TemplateSet) (libc : Libc) (stray : Nat → Stray)
    (index iserr : Int) (size : Nat) (web : WebRequest) (up : UpstreamRequest)
    (resp : UpstreamResponse) : Prop :=
  ∀ page : Mem,
    let made := tempMakePage set.handle (resultsOf set libc stray) index page size web up
      resp iserr
    (∀ i, size ≤ i → made.page i = page i) ∧
      (0 ≤ made.ret → made.ret < size ∧ made.page made.ret.toNat = 0)

/-- The same of `as_temp_make_res` and a buffer of `nleft` bytes. -/
def ResInside (a : ResArgs) (text : Bytes) (vars : List ResVar) (nleft : Nat) : Prop :=
  ∀ page : Mem,
    let made := asTempMakeRes a text vars ⟨page, 0, nleft⟩
    (∀ i, nleft ≤ i → made.1 i = page i) ∧
      (0 ≤ made.2 → made.2 < nleft ∧ made.1 made.2.toNat = 0)

/-- On the way through the pieces of the page, one of its terminators is come to
when the text in front of it has left no room. -/
def FillsPage (set : TemplateSet) (libc : Libc) (stray : Nat → Stray)
    (index iserr : Int) (size : Nat) (web : WebRequest) (up : UpstreamRequest)
    (resp : UpstreamResponse) : Prop :=
  let a := pageArgs set libc stray index iserr size web up resp
  let c := pageContent set index iserr resp
  Spills (pageJobs set libc stray a c.text c.vars 0 ++ [.close]) size

/-- The same for one result; a string that is escaped counts as a terminator. -/
def FillsBuffer (a : ResArgs) (text : Bytes) (vars : List ResVar) (nleft : Nat) : Prop :=
  Spills (resJobs a text vars 0 ++ [.close]) nleft

theorem makePage_error {a : PageArgs} {c : Content} {page mem : Mem}
    (h : makeVars a c.text c.vars 0 ⟨page, 0, a.size⟩ = .error mem) :
    makePage a c page = ⟨mem, a.up, -1⟩ := by
  rw [makePage, h]

theorem makePage_ok {a : PageArgs} {c : Content} {page : Mem} {w : Writer}
    (h : makeVars a c.text c.vars 0 ⟨page, 0, a.size⟩ = .ok w) :
    makePage a c page = ⟨store w.mem w.pbuf [0], a.up, w.pbuf⟩ := by
  rw [makePage, h]

theorem pageInside_iff_fills {set : TemplateSet} {libc : Libc} {stray : Nat → Stray}
    {index iserr : Int} {size : Nat} {web : WebRequest} {up : UpstreamRequest}
    {resp : UpstreamResponse} :
    PageInside set libc stray index iserr size web up resp ↔
      ¬ FillsPage set libc stray index iserr size web up resp := by
  let a := pageArgs set libc stray index iserr size web up resp
  let c := pageContent set index iserr resp
  have hperforms : Performs size (makeVars a c.text c.vars 0) _ :=
    performs_makeVars (a := a) rfl c.text c.vars 0
  rw [FillsPage, ← hperforms.inside_iff (p := 0) (Nat.zero_add size)]
  refine forall_congr' fun page => ?_
  show (∀ i, size ≤ i → (makePage a c page).page i = page i) ∧
    (0 ≤ (makePage a c page).ret → (makePage a c page).ret < size ∧
      (makePage a c page).page (makePage a c page).ret.toNat = 0) ↔ _
  cases hvars : makeVars a c.text c.vars 0 ⟨page, 0, size⟩ with
  | error mem =>
      rw [makePage_error hvars]
      show _ ∧ ((0 : Int) ≤ -1 → _) ↔ ∀ i, size ≤ i → mem i = page i
      exact and_iff_left fun h => absurd h (by decide)
  | ok w =>
      rw [makePage_ok hvars]
      show _ ∧ ((0 : Int) ≤ w.pbuf → _) ↔ _ ∧ w.pbuf < size ∧ _
      simp only [Int.natCast_nonneg, forall_const, Int.ofNat_lt, Int.toNat_natCast]

theorem resInside_iff_fills {a : ResArgs} {text : Bytes} {vars : List ResVar}
    {nleft : Nat} : ResInside a text vars nleft ↔ ¬ FillsBuffer a text vars nleft := by
  have hperforms := performs_makeResVars nleft a text vars 0
  rw [FillsBuffer, ← hperforms.inside_iff (p := 0) (Nat.zero_add nleft)]
  refine forall_congr' fun page => ?_
  rw [asTempMakeRes]
  cases makeResVars a text vars 0 ⟨page, 0, nleft⟩ with
  | error mem =>
      show _ ∧ ((0 : Int) ≤ -1 → _) ↔ ∀ i, nleft ≤ i → mem i = page i
      exact and_iff_left fun h => absurd h (by decide)
  | ok w =>
      show _ ∧ ((0 : Int) ≤ (w.pbuf : Int) - (0 : Nat) → _) ↔ _ ∧ w.pbuf < nleft ∧ _
      simp only [Int.natCast_zero, Int.sub_zero, Int.natCast_nonneg, forall_const,
        Int.ofNat_lt, Int.toNat_natCast]

/-- A page stays inside its buffer, and so does a result, exactly when no
terminator comes to a buffer that is full. -/
theorem pageInside_iff (set : TemplateSet) (libc : Libc) (stray : Nat → Stray) :
    (∀ (index iserr : Int) (size : Nat) (web : WebRequest) (up : UpstreamRequest)
      (resp : UpstreamResponse),
      PageInside set libc stray index iserr size web up resp ↔
        ¬ FillsPage set libc stray index iserr size web up resp) ∧
      ∀ (a : ResArgs) (text : Bytes) (vars : List ResVar) (nleft : Nat),
        ResInside a text vars nleft ↔ ¬ FillsBuffer a text vars nleft :=
  ⟨fun _ _ _ _ _ _ => pageInside_iff_fills, fun _ _ _ _ => resInside_iff_fills⟩

/-- `<i>0</i>` fills a page of eight bytes: the terminator goes to the ninth, and
the length of the page is its size. -/
theorem pageInside_fails :
    let made := tempMakePage idSet.handle (resultsOf idSet epochLibc fun _ => .zero) 0
      (fun _ => 1) 8 ⟨fun _ => 0⟩ ⟨192, [], 0, 0, 0, 0, 0, [], 1, 1⟩ oneBare 0
    templateLoad 8 idDir = some idSet ∧ made.ret = 8 ∧ made.page 8 = 0 ∧
      ¬ PageInside idSet epochLibc (fun _ => .zero) 0 0 8 ⟨fun _ => 0⟩
        ⟨192, [], 0, 0, 0, 0, 0, [], 1, 1⟩ oneBare := by
  intro made
  obtain ⟨hret, hend⟩ : made.ret = 8 ∧ made.page 8 = 0 := by decide +kernel
  refine ⟨(Option.some_get _).symm, hret, hend, fun hin => ?_⟩
  have hsame : made.page 8 = 1 := (hin fun _ => 1).1 8 (Nat.le_refl 8)
  rw [hend] at hsame
  cases hsame

end UiServer
