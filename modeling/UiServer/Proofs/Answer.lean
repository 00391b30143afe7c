import UiServer.Proofs.Itoa
import UiServer.Proofs.Session
import UiServer.Proofs.Shown

/-!
# What a client is answered

The worker makes the response out of the merged reply: the number in its head names a
template, and the response is that template's page with the results in it, its error
page when the page does not fit, or `{}` when no template has the number for its name
(`workerHandler_answer`). What the worker has made stays in the response buffer until it
runs again or the client sends something, so this is what `uv_write` is handed, in
whatever order the callbacks come (`answer_sent`). The worker is a thread of its own, so
that is said of the runs in which it has the request and the merged reply for itself.
-/

namespace UiServer

open CMem

/-! ## A page without results

The page is made once for the response, and a second time as the error page when
it does not fit, from a request whose page number the first call has clamped
already. -/

theorem makePage_expands {a : PageArgs} (hbody : a.resp.len.toNat < 2 ^ 31) {c : Content}
    (hres : ∀ v ∈ c.vars, CommonPageVar.ofId v.id ≠ some .uiResults) (page : Mem) :
    let made := makePage a c page
    let pieces := contentPieces (varPieces a.up a.resp a.pageCount) c.text c.vars 0
    (Overflows a.size pieces → made.ret = -1) ∧
      (¬ Overflows a.size pieces → made.ret = (expand pieces).length ∧
        ((expand pieces).length < a.size →
          read made.page 0 (expand pieces).length = expand pieces)) := by
  intro made pieces
  have hfol : Follows a.size (makeVars a c.text c.vars 0 ⟨page, 0, a.size⟩) [] pieces :=
    makeVars_follows hbody c.spec.1 c.vars c.spec.2 hres (agrees_start page a.size)
  cases hrun : makeVars a c.text c.vars 0 ⟨page, 0, a.size⟩ with
  | error mem =>
      rw [hrun] at hfol
      have hmade : made = ⟨mem, a.up, -1⟩ := makePage_error hrun
      rw [hmade]
      exact ⟨fun _ => rfl, fun hfit => absurd hfol hfit⟩
  | ok w =>
      rw [hrun] at hfol
      obtain ⟨hagree, hfit⟩ := hfol
      have hmade : made = ⟨store w.mem w.pbuf [0], a.up, w.pbuf⟩ := makePage_ok hrun
      have hpbuf : w.pbuf = (expand pieces).length := hagree.pbuf
      rw [hmade]
      refine ⟨fun ho => absurd ho hfit, fun _ => ⟨?_, fun hlen => ?_⟩⟩
      · rw [hpbuf]
      · exact (hagree.read_terminated hlen).1

theorem clampPageNo_idem (pageNo : UInt16) {pageCount : Nat} (h : pageCount < 2 ^ 16) :
    clampPageNo (clampPageNo pageNo pageCount) pageCount = clampPageNo pageNo pageCount := by
  have hnat : (UInt16.ofNat (pageCount - 1)).toNat = pageCount - 1 := by
    rw [UInt16.toNat_ofNat']
    exact Nat.mod_eq_of_lt (by omega)
  have hzero : ¬ pageCount < (0 : UInt16).toNat := Nat.not_lt_zero _
  by_cases hlt : pageCount < pageNo.toNat
  · by_cases hone : 1 < pageCount
    · have hin : ¬ pageCount < (UInt16.ofNat (pageCount - 1)).toNat := by
        rw [hnat]
        omega
      simp only [clampPageNo, if_pos hlt, if_pos hone, if_neg hin]
    · simp only [clampPageNo, if_pos hlt, if_neg hone, if_neg hzero]
  · simp only [clampPageNo, if_neg hlt]

theorem maxPageNo_lt (rn totalNum : Nat) : maxPageNo rn totalNum < 2 ^ 16 := by
  have hpages : ∀ t ≤ maxSearchResNum, (if t % rn ≠ 0 then t / rn + 1 else t / rn) < 2 ^ 16 := by
    intro t ht
    have hle := Nat.div_le_self t rn
    have hmax : maxSearchResNum = 750 := rfl
    split <;> omega
  rw [maxPageNo]
  split
  · exact Nat.two_pow_pos 16
  · refine hpages _ ?_
    split
    · exact Nat.le_refl _
    · next hle => exact Nat.not_lt.1 hle

/-- The page number that one call has clamped is left alone by the next. -/
theorem clampRequest_idem (up : UpstreamRequest) (totalNum : UInt32) :
    clampRequest (clampRequest up totalNum).2 totalNum = clampRequest up totalNum := by
  simp only [clampRequest, clampPageNo_idem up.pageNo (maxPageNo_lt _ _)]

/-! ## The worker

`worker_handler` prints the number of the template into `tn`, looks for it among
the names and makes the page, an error page, or the empty response. Each of its
ends has its part in `Answer`, and what a part says is what the statements about
pages say of the call. -/

section

variable {conf : Conf} {c d t : ConnCtx} {e : Event}

theorem nulFree_decimal (n : Nat) : NulFree (decimal n) := by
  intro b hb
  have hdigit := (decimal_digit hb).1
  rintro rfl
  exact absurd hdigit (by decide)

/-- The name the template is looked up by is the number in the head of the reply. -/
theorem cstr_named (c : ConnCtx) :
    cstr c.named.request.up.tn = decimal c.upstreamResponse.head.data.tpl.toNat := by
  show cstr (printInto c.request.up.tn (decimal c.upstreamResponse.head.data.tpl.toNat)) = _
  rw [printInto, List.append_assoc]
  exact cstr_terminated (nulFree_decimal _) _

theorem responseText_emptyResponse (c : ConnCtx) :
    responseText (emptyResponse c) = ascii "{}" := by
  show read (store c.response 0 [123, 125, 0]) 0 2 = [123, 125]
  exact read_store_part (k := 0) (by decide)

/-- The response when the worker has made it with a connection in state `c`. -/
structure Answer (set : TemplateSet) (libc : Libc) (stray : Nat → Stray) (c : ConnCtx)
    (text : Bytes) : Prop where
  /-- the reply as it is -/
  raw : c.request.web.needPb = 0 → text = c.upstreamResponse.body
  noTemplate : c.request.web.needPb ≠ 0 → tempGetTemplateIndex set.handle
    (decimal c.upstreamResponse.head.data.tpl.toNat) = none → text = ascii "{}"
  page : c.request.web.needPb ≠ 0 → ∀ index, tempGetTemplateIndex set.handle
    (decimal c.upstreamResponse.head.data.tpl.toNat) = some index →
      ∀ results pieces, ResultTexts set libc stray index c.upstreamResponse.head results →
        pieces = shownPage set.handle results index c.named.request.up c.upstreamResponse 0 →
          ¬ Overflows (responseBufSize - 2) pieces → text = expand pieces
  errorPage : c.request.web.needPb ≠ 0 → ∀ index, tempGetTemplateIndex set.handle
    (decimal c.upstreamResponse.head.data.tpl.toNat) = some index →
      ∀ pieces, (∀ iserr, NoResults set.handle index c.upstreamResponse iserr) →
        Overflows responseBufSize
          (pagePieces set.handle index c.named.request.up c.upstreamResponse 0) →
        pieces = pagePieces set.handle index c.named.request.up c.upstreamResponse 1 →
          (Overflows responseBufSize pieces → text = []) ∧
            (¬ Overflows responseBufSize pieces → (expand pieces).length < responseBufSize →
              text = expand pieces)

theorem tempGetTemplateIndex_lt {h : TemplateHandle} {tn : Bytes} {index : Nat}
    (hindex : tempGetTemplateIndex h tn = some index) : index < h.tn.length :=
  (List.findIdx?_eq_some_iff_getElem.1 hindex).1

/-- The index of a template chooses that template. -/
theorem chooseIndex_found {h : TemplateHandle} {tn : Bytes} {index : Nat}
    (hindex : tempGetTemplateIndex h tn = some index) (iserr : Int) :
    chooseIndex h index iserr = (index, iserr) := by
  have hlt := tempGetTemplateIndex_lt hindex
  rw [chooseIndex, if_neg (by omega), Int.toNat_natCast]

variable {n : Nat} {dir : TemplateDir} {set : TemplateSet} {libc : Libc} {stray : Nat → Stray}

theorem responseText_paged (conf : Conf) (c : ConnCtx) (index : Nat) (iserr : Int) :
    responseText (c.paged conf index iserr) = (makeResponse conf c index iserr).text := rfl

theorem makePage_up (a : PageArgs) (c : Content) (page : Mem) : (makePage a c page).up = a.up := by
  rw [makePage]
  split <;> rfl

theorem MadePage.text_of_ret {made : MadePage} {text : Bytes} (h : made.ret = text.length)
    (hread : read made.page 0 text.length = text) : made.text = text := by
  rw [MadePage.text, h, Int.toNat_natCast, hread]

/-- The response when the template of the number is found. -/
theorem responseText_found (hpb : c.request.web.needPb ≠ 0) {index : Nat}
    (hindex : tempGetTemplateIndex conf.templates
      (decimal c.upstreamResponse.head.data.tpl.toNat) = some index) :
    responseText (workerHandler conf c) =
      if (makeResponse conf c.named index 0).ret < 0 then
        (makeResponse conf (c.named.withPage (makeResponse conf c.named index 0)) index 1).text
      else (makeResponse conf c.named index 0).text := by
  rw [workerHandler_pb hpb, cstr_named, hindex]
  simp only []
  split
  · exact responseText_paged ..
  · exact responseText_paged ..

/-- What a page of the response is made with. -/
def answerArgs (conf : Conf) (c : ConnCtx) (index : Nat) : PageArgs :=
  let (pageCount, up) := clampRequest c.request.up c.upstreamResponse.head.totalNum
  ⟨responseBufSize, index, c.request.web, up, c.upstreamResponse, pageCount, conf.makeRes⟩

section

variable {h : TemplateHandle} {tn : Bytes} {index : Nat}
  (hindex : tempGetTemplateIndex h tn = some index)

include hindex

theorem makeResponse_found (htemplates : conf.templates = h) (c : ConnCtx) (iserr : Int) :
    makeResponse conf c index iserr = makePage (answerArgs conf c index)
      (chooseContent (h.tpl index) iserr c.upstreamResponse.head.returnNum) c.response := by
  rw [makeResponse, tempMakePage, htemplates, chooseIndex_found hindex]
  rfl

theorem shownPage_found (conf : Conf) (results : List Bytes) (c : ConnCtx) (iserr : Int) :
    shownPage h results index c.request.up c.upstreamResponse iserr =
      contentPieces (shownPieces results (answerArgs conf c index).up c.upstreamResponse
        (answerArgs conf c index).pageCount)
        (chooseContent (h.tpl index) iserr c.upstreamResponse.head.returnNum).text
        (chooseContent (h.tpl index) iserr c.upstreamResponse.head.returnNum).vars 0 := by
  rw [shownPage, chooseIndex_found hindex]
  rfl

theorem pagePieces_found (conf : Conf) (c : ConnCtx) (iserr : Int) :
    pagePieces h index c.request.up c.upstreamResponse iserr =
      contentPieces (varPieces (answerArgs conf c index).up c.upstreamResponse
        (answerArgs conf c index).pageCount)
        (chooseContent (h.tpl index) iserr c.upstreamResponse.head.returnNum).text
        (chooseContent (h.tpl index) iserr c.upstreamResponse.head.returnNum).vars 0 := by
  rw [pagePieces, chooseIndex_found hindex]
  rfl

theorem noResults_found {resp : UpstreamResponse} {iserr : Int}
    (hno : NoResults h index resp iserr) :
    ∀ v ∈ (chooseContent (h.tpl index) iserr resp.head.returnNum).vars,
      CommonPageVar.ofId v.id ≠ some .uiResults := by
  rw [NoResults, chooseIndex_found hindex] at hno
  exact hno

/-- A page of the response with the results in it. -/
theorem makeResponse_shows (hload : templateLoad n dir = some set)
    (htemplates : conf.templates = h) (hconf : conf.makeRes = resultsOf set libc stray)
    (hbody : c.upstreamResponse.len.toNat < 2 ^ 31) {results : List Bytes}
    (hres : ResultTexts set libc stray index c.upstreamResponse.head results) {iserr : Int}
    (hfit : ¬ Overflows (responseBufSize - 2)
      (shownPage h results index c.request.up c.upstreamResponse iserr)) :
    let text := expand (shownPage h results index c.request.up c.upstreamResponse iserr)
    (makeResponse conf c index iserr).ret = text.length ∧
      (makeResponse conf c index iserr).text = text := by
  rw [shownPage_found hindex conf] at hfit ⊢
  rw [makeResponse_found hindex htemplates]
  have hshows := makePage_shows (a := answerArgs conf c index) (responseBufSize - 2) c.response
    rfl hconf (templateLoad_loaded hload _) hbody hres hfit
  exact ⟨hshows.1, MadePage.text_of_ret hshows.1 hshows.2.1⟩

/-- A page of the response without results. -/
theorem makeResponse_expands (htemplates : conf.templates = h)
    (hbody : c.upstreamResponse.len.toNat < 2 ^ 31) {iserr : Int}
    (hno : NoResults h index c.upstreamResponse iserr) :
    let pieces := pagePieces h index c.request.up c.upstreamResponse iserr
    (Overflows responseBufSize pieces → (makeResponse conf c index iserr).ret = -1) ∧
      (¬ Overflows responseBufSize pieces →
        (makeResponse conf c index iserr).ret = (expand pieces).length ∧
          ((expand pieces).length < responseBufSize →
            (makeResponse conf c index iserr).text = expand pieces)) := by
  rw [pagePieces_found hindex conf, makeResponse_found hindex htemplates]
  obtain ⟨hover, hfits⟩ := makePage_expands (a := answerArgs conf c index) hbody
    (noResults_found hindex hno) c.response
  refine ⟨hover, fun hfit => ?_⟩
  obtain ⟨hret, hread⟩ := hfits hfit
  exact ⟨hret, fun hlt => MadePage.text_of_ret hret (hread hlt)⟩

end

theorem workerHandler_answer (hload : templateLoad n dir = some set)
    (htemplates : conf.templates = set.handle) (hconf : conf.makeRes = resultsOf set libc stray)
    (hbody : c.upstreamResponse.len.toNat < 2 ^ 31) :
    Answer set libc stray c (responseText (workerHandler conf c)) where
  raw hraw := by
    rw [workerHandler_raw hraw]
    show read (store _ 0 c.upstreamResponse.body) 0 c.upstreamResponse.len.toNat = _
    have hstored := read_store (emptyResponseBuf c).response 0 c.upstreamResponse.body
    rwa [show c.upstreamResponse.body.length = c.upstreamResponse.len.toNat from
      length_read _ _ _] at hstored
  noTemplate hpb hnone := by
    rw [← htemplates] at hnone
    rw [workerHandler_pb hpb, cstr_named, hnone]
    exact responseText_emptyResponse _
  page hpb index hindex results pieces hres hpieces hfit := by
    have hfit : ¬ Overflows (responseBufSize - 2)
        (shownPage set.handle results index c.named.request.up c.upstreamResponse 0) :=
      hpieces ▸ hfit
    obtain ⟨hret, htext⟩ := makeResponse_shows (c := c.named) hindex hload htemplates hconf
      hbody hres hfit
    rw [← htemplates] at hindex
    rw [responseText_found hpb hindex, if_neg (by omega), htext, hpieces]
    rfl
  errorPage hpb index hindex pieces hno ho hpieces := by
    have hfails := (makeResponse_expands (c := c.named) hindex htemplates hbody (hno 0)).1 ho
    have hup : (makeResponse conf c.named index 0).up =
        (clampRequest c.named.request.up c.upstreamResponse.head.totalNum).2 := by
      rw [makeResponse_found hindex htemplates, makePage_up]
      rfl
    -- the second call finds the page number that the first has clamped
    have hsame : pieces = pagePieces set.handle index
        (c.named.withPage (makeResponse conf c.named index 0)).request.up c.upstreamResponse 1 := by
      show pieces = pagePieces set.handle index (makeResponse conf c.named index 0).up _ 1
      rw [hpieces, hup, pagePieces, pagePieces, clampRequest_idem]
    obtain ⟨hover, hfits⟩ := makeResponse_expands
      (c := c.named.withPage (makeResponse conf c.named index 0)) hindex htemplates hbody (hno 1)
    rw [← htemplates] at hindex
    rw [responseText_found hpb hindex, if_pos (by omega), hsame]
    refine ⟨fun ho => ?_, fun hfit hlt => (hfits hfit).2 hlt⟩
    rw [MadePage.text, hover ho]
    rfl

/-! ## The response that is sent

Between the worker's run and its report nothing may write over the response: that
is what `WorkerAlone` gives, for data of the client and for replies alike. So when
there is a run to report, the last event that made a response was that run. -/

/-- The events after which there is another response. -/
def Event.answers : Event → Bool
  | .onRequest (.data _) => true
  | .handleRequest => true
  | _ => false

theorem Callback.text (h : Callback conf c e t) (he : e.answers = false) :
    responseText t = responseText c := by
  by_cases hserves : e.serves = false
  · have hrest := h.untouched hserves
    rw [responseText, hrest.response, hrest.responseLen, responseText]
  · cases h with
    | reply _ _ hbs => exact (replyOnly_readUpstream c _ _ hbs).text
    | taken | refused | handled => cases he
    | _ => exact absurd rfl hserves

/-- Only a run of the worker makes something to report. -/
theorem Callback.ran (h : Callback conf c e t) (he : e.answers = false) :
    t.worker.ran ≤ c.worker.ran := by
  have hsame : e.works = false → t.worker.ran ≤ c.worker.ran := fun hw => by
    rw [(h.sameWork hw).worker]
  cases h with
  | reply _ _ hbs =>
      rcases worker_readUpstream c _ _ hbs with heq | heq
      · rw [heq]
      · rw [heq]
        exact Nat.le_refl _
  | handled => cases he
  | responded =>
      rcases sendResponse_eq { c with worker := c.worker.report } _ with heq | ⟨_, heq⟩
      · rw [heq]
        exact Nat.sub_le _ 1
      · rw [heq]
        exact Nat.sub_le _ 1
  | responseSent => exact Nat.le_refl _
  | _ => exact hsame rfl

/-- Whenever there is a response to send, the last event that made one was a run of the
worker, and the response answers what it found then, as long as every reply stays inside
and nothing is read while the worker is at work. -/
theorem answer_sent (hload : set.LoadedFrom n dir)
    (htemplates : conf.templates = set.handle) (hconf : conf.makeRes = resultsOf set libc stray)
    {m : ConnCtx} {rvs : Nat → Nat → Int} {accept : Int} {es : List Event}
    (hinside : RunInside conf (onNewConnection conf m rvs accept) es t)
    (halone : Lts.Steps (step conf) WorkerAlone (onNewConnection conf m rvs accept) es)
    (hopen : t.client.handle.isOpen = true) (hran : 0 < t.worker.ran) :
    ∃ pre post c, es = pre ++ .handleRequest :: post ∧
      Lts.run (step conf) (onNewConnection conf m rvs accept) pre = some c ∧
      (∀ f ∈ post, f.answers = false) ∧ Answer set libc stray c (responseText t) := by
  have hnothing : ∀ {d : ConnCtx} {fs : List Event}, d.worker.ran = 0 →
      (∀ f ∈ fs, f.answers = false) → ¬ Lts.run (step conf) d fs = some t := by
    intro d fs hd hfs hrun
    have hkeep := Lts.run_keeps (Q := fun t => t.worker.ran = 0) (p := Event.answers)
      (fun hQ he ht => Nat.le_zero.1 (hQ ▸ (callback_of_step ht).ran he)) hd hfs hrun
    omega
  rcases Lts.run_last Event.answers hinside.run with
    hno | ⟨pre, e, post, c, d, rfl, he, hpost, hc, hd, hu⟩
  · have hstart : (onNewConnection conf m rvs accept).worker.ran = 0 := by
      rw [(onNewConnection_rest conf m rvs accept).1]
    exact absurd hinside.run (hnothing hstart hno)
  have htext := Lts.run_keeps (Q := fun t => responseText t = responseText d)
    (p := Event.answers) (fun hQ he ht => ((callback_of_step ht).text he).trans hQ) rfl hpost hu
  cases e with
  | onRequest r =>
      cases r with
      | data bs =>
          -- the worker was done when the client sent this, and has not run since
          have hdone : c.worker.Done := (halone.after hc).1
          have hnone : d.worker.ran = 0 := by
            rw [((callback_of_step hd).sameWork rfl).worker, hdone.2]
          exact absurd hu (hnothing hnone hpost)
      | error | again => cases he
  | handleRequest =>
      have hcopen : c.client.handle.isOpen = true :=
        isOpen_of_run (Lts.run_cons.2 ⟨d, hd, hu⟩) hopen
      have hanswer := fun hbody => workerHandler_answer hload.load htemplates hconf
        (c := c) hbody
      refine ⟨pre, post, c, rfl, hc, hpost, ?_⟩
      rw [htext]
      cases callback_of_step hd with
      | handled hqueued =>
          have hroom := hasRoom_of_run ⟨hc, hinside.inside.before⟩ hcopen (.inr hqueued)
          exact hanswer hroom.body_lt
  | _ => cases he

/-- Both servers answer, and the worker runs. -/
def firstMade : List Event :=
  firstReplied ++ [.onGotUpstreamResponse 1 0 (.data (plainReply 1)), .handleRequest]

theorem answer_sent_first :
    ∃ t pre post c, firstMade = pre ++ .handleRequest :: post ∧
      Lts.run (UiServer.step idConf) (onNewConnection idConf .zeroed (fun _ _ => 0) 0) pre =
        some c ∧
      (∀ f ∈ post, f.answers = false) ∧
      Answer idSet epochLibc (fun _ => .zero) c (responseText t) := by
  have hload : idSet.LoadedFrom 8 idDir := ⟨(Option.some_get _).symm, by decide +kernel⟩
  have hrun : ((Lts.run (UiServer.step idConf)
      (onNewConnection idConf .zeroed (fun _ _ => 0) 0) firstMade).map fun c =>
        (c.client.handle.isOpen, c.worker.ran)) = some (true, 1) := by
    decide +kernel
  obtain ⟨t, ht, heq⟩ := Option.map_eq_some_iff.1 hrun
  obtain ⟨hopen, hran⟩ := Prod.mk.inj heq
  have halone : Lts.Steps (UiServer.step idConf) WorkerAlone
      (onNewConnection idConf .zeroed (fun _ _ => 0) 0) firstMade :=
    Lts.steps_of_passes (p := fun c e => decide (WorkerAlone c e)) of_decide_eq_true
      (by decide +kernel)
  exact ⟨t, answer_sent hload rfl rfl (runInside_of_passes ht (by decide +kernel)) halone hopen
    (hran ▸ Nat.one_pos)⟩

end

end UiServer
