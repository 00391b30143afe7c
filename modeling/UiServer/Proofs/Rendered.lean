import UiServer.Proofs.Replaced
import UiServer.Proofs.Served

/-!
# From the files and the answers to what the client is sent

The merged answer names a template by a number, and the template of a number is the
directory with that name. So what a client is sent, once nothing is due any more, can be
told from the files of that directory and the answers of the servers: the page with its
variables replaced, or `{}` where there is no such template (`request_rendered`).
-/

namespace UiServer

open CMem

/-! ## The template of a number

The names are compared without regard to case, and a number has none. So a
template is found exactly when a directory is called like the number. -/

theorem toLower_digit {c : UInt8} (h : toLower c ≤ 57) : toLower c = c := by
  rw [toLower] at h ⊢
  split
  · next hupper =>
      rw [if_pos hupper, UInt8.le_iff_toNat_le, UInt8.toNat_add] at h
      have hlow := UInt8.le_iff_toNat_le.1 hupper.1
      have hhigh := UInt8.le_iff_toNat_le.1 hupper.2
      have h65 : (65 : UInt8).toNat = 65 := rfl
      have h90 : (90 : UInt8).toNat = 90 := rfl
      have h32 : (32 : UInt8).toNat = 32 := rfl
      have h57 : (57 : UInt8).toNat = 57 := rfl
      omega
  · rfl

/-- Digits have no case. -/
theorem strcasecmpEq_decimal {name : Bytes} {n : Nat} :
    strcasecmpEq name (decimal n) = true ↔ name = decimal n := by
  have hsame : (decimal n).map toLower = decimal n := by
    refine (List.map_congr_left (g := id) fun c hc => ?_).trans (List.map_id _)
    have hdigit := (decimal_digit hc).2
    exact if_neg fun hupper => absurd (UInt8.le_trans hupper.1 hdigit) (by decide)
  rw [strcasecmpEq, beq_iff_eq, hsame]
  constructor
  · intro h
    have hname : name.map toLower = name := by
      refine (List.map_congr_left (g := id) fun c hc => toLower_digit ?_).trans (List.map_id _)
      have hmem : toLower c ∈ decimal n := h ▸ List.mem_map_of_mem hc
      exact (decimal_digit hmem).2
    rw [← h, hname]
  · rintro rfl
    exact hsame

theorem tempGetTemplateIndex_decimal {h : TemplateHandle} {n index : Nat}
    (hindex : tempGetTemplateIndex h (decimal n) = some index) :
    h.tn[index]? = some (decimal n) := by
  obtain ⟨hlt, hname, -⟩ := List.findIdx?_eq_some_iff_getElem.1 hindex
  rw [List.getElem?_eq_getElem hlt, strcasecmpEq_decimal.1 hname]

theorem tempGetTemplateIndex_none {h : TemplateHandle} {n : Nat} :
    tempGetTemplateIndex h (decimal n) = none ↔ decimal n ∉ h.tn := by
  rw [tempGetTemplateIndex, List.findIdx?_eq_none_iff]
  constructor
  · intro hall hmem
    have hno := hall _ hmem
    rw [strcasecmpEq_decimal.2 rfl] at hno
    cases hno
  · intro hno name hname
    refine Bool.eq_false_iff.2 fun heq => hno ?_
    rwa [← strcasecmpEq_decimal.1 heq]

/-! ## What is sent

The response of the worker is put together with what its template's files say it
is, and with the run that ends in nothing being due. The request that the page is
made for stays as the client sent it, since nothing comes from the client
meanwhile. -/

/-- The response to an answer, told from the files: `up` is the request it is made for. -/
structure Rendered (dir : TemplateDir) (set : TemplateSet) (libc : Libc) (stray : Nat → Stray)
    (resp : UpstreamResponse) (up : UpstreamRequest) (text : Bytes) : Prop where
  noTemplate : decimal resp.head.data.tpl.toNat ∉ set.handle.tn → text = ascii "{}"
  page : decimal resp.head.data.tpl.toNat ∈ set.handle.tn → ∀ table file res pieces,
    Renderable dir table (decimal resp.head.data.tpl.toNat) libc (stray 0) resp.head 0 file res →
      pieces = renderedPage (resultArgs dir (decimal resp.head.data.tpl.toNat) libc (stray 0)
        resp.head) table file res up resp →
        ¬ Overflows (responseBufSize - 2) pieces → text = expand pieces

section

variable {n : Nat} {dir : TemplateDir} {set : TemplateSet} {libc : Libc} {stray : Nat → Stray}
  {conf : Conf} {c t : ConnCtx} {k : Int}

theorem Answer.rendered {text : Bytes} (h : Answer set libc stray c text)
    (hload : templateLoad n dir = some set) (hpb : c.request.web.needPb ≠ 0) :
    Rendered dir set libc stray c.upstreamResponse c.named.request.up text where
  noTemplate hno := h.noTemplate hpb (tempGetTemplateIndex_none.2 hno)
  page hmem table file res pieces hfiles hpieces hfit := by
    cases hindex : tempGetTemplateIndex set.handle
        (decimal c.upstreamResponse.head.data.tpl.toNat) with
    | none => exact absurd hmem (tempGetTemplateIndex_none.1 hindex)
    | some index =>
        obtain ⟨htexts, hsame⟩ := hfiles.shown hload (tempGetTemplateIndex_decimal hindex)
          c.named.request.up rfl
        have hpage := h.page hpb index hindex _ _ htexts rfl fun ho =>
          hfit (hpieces ▸ (hsame.overflows _ []).1 ho)
        rw [hpage, hpieces, expand, hsame.expands]
        rfl

theorem GoesWell.takes {e : Event} (h : GoesWell c e) : takes c e = false := by
  cases e with
  | onRequest r => cases h.event
  | _ => rfl

/-- As long as all goes well, the request stays as the client sent it. -/
theorem InSession.web_run (h : InSession conf k c) {fs : List Event}
    (hrun : Lts.run (UiServer.step conf) c fs = some t)
    (hwell : Lts.Steps (UiServer.step conf) GoesWell c fs) :
    t.request.web = c.request.web := by
  refine (Lts.steps_inv (I := fun d => InSession conf k d ∧ d.request.web = c.request.web)
    (fun hI hP hs => ?_) ⟨h, rfl⟩ hrun hwell).2
  have hnext := hI.1.step hP hs
  exact ⟨hnext, ((callback_of_step hs).sameWeb hP.takes hnext.open).trans hI.2⟩

/-- Once a request was written to a server, and as long as all goes well, what the client
is sent in the end is the page of the template that the merged answer names, with the
variables of its files replaced. -/
theorem request_rendered (hload : set.LoadedFrom n dir)
    (htemplates : conf.templates = set.handle) (hconf : conf.makeRes = resultsOf set libc stray)
    {m : ConnCtx} (hm : m.pending = 0) {rvs : Nat → Nat → Int} {accept : Int} {es : List Event}
    (hinside : RunInside conf (onNewConnection conf m rvs accept) es c)
    (hopen : c.client.handle.isOpen = true) (hasked : 0 < c.asked) {fs : List Event}
    (hfs : Lts.run (step conf) c fs = some t) (hwell : Lts.Steps (step conf) GoesWell c fs)
    (hdone : NothingDue t) {resp : UpstreamResponse}
    (hresp : resp = (repliesOf fs).foldl mergeRead c.upstreamResponse) :
    (repliesOf fs).length = c.asked ∧ ∃ pre post d status,
      fs = pre ++ .handleRequest :: post ∧ Lts.run (step conf) c pre = some d ∧
      .responseSendCb status ∈ post ∧
      Rendered dir set libc stray resp d.named.request.up (responseText t) := by
  have h := inService_of_run hm hinside hopen hasked
  obtain ⟨hreplies, hmerged, pre, post, d, rfl, hd, hsame, -, htext, status, hsent⟩ :=
    h.session.served hasked hfs hwell hdone
  refine ⟨hreplies, pre, post, d, status, rfl, hd, hsent, ?_⟩
  have hresp' : resp = d.upstreamResponse := by rw [hresp, hsame, hmerged]
  have hpb : d.request.web.needPb ≠ 0 := by
    rw [h.session.web_run hd hwell.before]
    exact (h.session.asks (atWork_of_asked hasked)).page
  have hroom := (Lts.steps_inv (fun hI hP hs => InService.step hI hP hs) h hd hwell.before).room
  rw [hresp', htext]
  exact (workerHandler_answer hload.load htemplates hconf hroom.body_lt).rendered hload.load hpb

theorem InService.nothingDue (h : InService conf k c) (hleft : c.leftToServe = 0) :
    NothingDue c := by
  refine (h.session.next h.room).resolve_right ?_
  rintro ⟨e, he, hstep⟩
  obtain ⟨u, hu⟩ := Option.isSome_iff_exists.1 hstep
  have hless := (h.session.servesOn (callback_of_step hu) he.event).less
  omega

/-- Two servers and the templates of `typedDir`. -/
def typedConf : Conf :=
  { twoGroups with
    templates := typedSet.handle, makeRes := resultsOf typedSet epochLibc fun _ => .zero }

/-- Both servers answer with one result and ask for the template `1`. -/
def bothServed : List Event :=
  [.distributeUpstreamCb 0 0 0, .distributeUpstreamCb 1 0 0,
    .onGotUpstreamResponse 0 0 (.data (tplReply 1 1).bytes),
    .onGotUpstreamResponse 1 0 (.data (tplReply 1 1).bytes), .handleRequest, .sendResponse 0,
    .responseSendCb 0]

theorem request_rendered_both :
    ∃ c t d resp, Lts.run (step typedConf)
        (onNewConnection typedConf .zeroed (fun _ _ => 0) 0) twoGroupsEvents = some c ∧
      Lts.run (step typedConf) c bothServed = some t ∧
      resp = (repliesOf bothServed).foldl mergeRead c.upstreamResponse ∧
      resp.head.returnNum = 2 ∧ resp.head.data.tpl = 1 ∧
      Rendered typedDir typedSet epochLibc (fun _ => .zero) resp d (responseText t) := by
  have hload : typedSet.LoadedFrom 8 typedDir := ⟨(Option.some_get _).symm, by decide +kernel⟩
  have hrun : ((Lts.run (step typedConf)
      (onNewConnection typedConf .zeroed (fun _ _ => 0) 0) twoGroupsEvents).bind fun c =>
        (Lts.run (step typedConf) c bothServed).map fun t =>
          let resp := (repliesOf bothServed).foldl mergeRead c.upstreamResponse
          (c.asked, t.leftToServe, c.client.handle.isOpen,
            Lts.passes (step typedConf) (fun c e => decide (GoesWell c e)) c bothServed,
            resp.head.returnNum, resp.head.data.tpl)) = some (2, 0, true, true, 2, 1) := by
    decide +kernel
  obtain ⟨c, hc, hrest⟩ := Option.bind_eq_some_iff.1 hrun
  obtain ⟨t, ht, heq⟩ := Option.map_eq_some_iff.1 hrest
  simp only [Prod.mk.injEq] at heq
  obtain ⟨hasked, hleft, hopen, hpasses, hnum, htpl⟩ := heq
  have hwell : Lts.Steps (step typedConf) GoesWell c bothServed :=
    Lts.steps_of_passes of_decide_eq_true hpasses
  have hinside := runInside_of_passes hc (by decide +kernel)
  have h := inService_of_run rfl hinside hopen (hasked ▸ Nat.two_pos)
  have hdone : NothingDue t :=
    (Lts.steps_inv (fun hI hP hs => InService.step hI hP hs) h ht hwell).nothingDue hleft
  obtain ⟨-, pre, post, d, status, -, -, -, hrendered⟩ := request_rendered hload rfl rfl rfl
    hinside hopen (hasked ▸ Nat.two_pos) ht hwell hdone rfl
  exact ⟨c, t, d.named.request.up, _, hc, ht, rfl, hnum, htpl, hrendered⟩

end

end UiServer
