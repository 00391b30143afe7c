import UiServer.Proofs.Results

/-!
# Which values a page takes from nowhere

`temp_make_page` hands `as_temp_make_res` a null result. A variable of a result
text is then harmless only if it is one of the two numbers that are there
without a result, or if rendering gives up before its value is looked at.

What a run looks at is written down beside it: `pageCalls` lists the calls of
`as_temp_make_res`, `resReached` the variables a call comes to, `resConversions`
these with the room left for each. That these are all there are is
`makeVars_calls` and `makeResVars_conversions`: nothing else matters to the run
(`tempMakePage_stray`).
-/

namespace UiServer

open CMem

/-! ## What a run comes to

The runs are written a second time, as lists of what they look at: in the order
they look, and cut where the run gives up. A statement about what a run looks at
is then one about the members of a list. -/

/-- The conversions `as_temp_make_res` comes to, with the room left for each. -/
def resConversions (a : ResArgs) (text : Bytes) :
    List ResVar → Nat → Writer → List (ResVar × Nat)
  | [], _, _ => []
  | v :: vs, p, w =>
      match w.put (strncpyBytes (text.drop p) (v.pos - p)) with
      | .error _ => []
      | .ok w =>
          (v, w.nleft) :: match makeResVar a v w with
            | .error _ => []
            | .ok w => resConversions a text vs (p + (v.pos - p) + v.len) w

/-- The variables whose value `as_temp_make_res` looks for. -/
def resReached (a : ResArgs) (text : Bytes) : List ResVar → Nat → Writer → List ResVar
  | [], _, _ => []
  | v :: vs, p, w =>
      match w.put (strncpyBytes (text.drop p) (v.pos - p)) with
      | .error _ => []
      | .ok w =>
          v :: match makeResVar a v w with
            | .error _ => []
            | .ok w => resReached a text vs (p + (v.pos - p) + v.len) w

/-- One round of `makeResults`. -/
def makeResult (a : PageArgs) (w : Writer) (k : Nat) : Except Mem Writer :=
  let (mem, n1) := a.makeRes a.index a.resp.head a.web k w
  if n1 < 0 ∨ w.nleft < n1 then .error mem
  else .ok ⟨mem, w.pbuf + n1.toNat, w.nleft - n1.toNat⟩

/-- The rounds that are made for the results `ks`, and the writer of each. -/
def resultCalls (a : PageArgs) : List Nat → Writer → List (Nat × Writer)
  | [], _ => []
  | k :: ks, w =>
      (k, w) :: match makeResult a w k with
        | .error _ => []
        | .ok w => resultCalls a ks w

/-- The calls of `as_temp_make_res` in a run of `makeVars`. -/
def pageCalls (a : PageArgs) (text : Bytes) :
    List VarAttr → Nat → Writer → List (Nat × Writer)
  | [], _, _ => []
  | v :: vs, p, w =>
      match w.put (strncpyBytes (text.drop p) (v.pos - p)) with
      | .error _ => []
      | .ok w =>
          (if CommonPageVar.ofId v.id = some .uiResults then
            resultCalls a (List.range a.resp.head.returnNum.toNat) w
          else []) ++
            match makeVar a v w with
            | .error _ => []
            | .ok w => pageCalls a text vs (p + (v.pos - p) + v.len) w

/-- The value was there, or none was taken. -/
def Fetched.Defined {α : Type} : Fetched α → Prop
  | .value _ | .refused => True
  | .stray _ | .fault => False

def ValueDefined (a : ResArgs) (v : ResVar) : Prop :=
  match v.fromFieldType with
  | .fieldTypeUint => (fetchUint a v).Defined
  | .fieldTypeChar => (fetchChar a v).Defined
  | _ => True

/-! ## Nothing else matters to a run

Two runs that agree on these lists agree. So the lists leave nothing out, which
could not be seen from their definitions. -/

/-- Nothing but these conversions matters to the run. -/
theorem makeResVars_conversions {a b : ResArgs} {text : Bytes} : ∀ (vs : List ResVar)
    (p : Nat) (w : Writer),
    (∀ c ∈ resConversions a text vs p w, convertVar a c.1 c.2 = convertVar b c.1 c.2) →
    makeResVars a text vs p w = makeResVars b text vs p w := by
  intro vs
  induction vs with
  | nil => intro p w _; rfl
  | cons v vs ih =>
      intro p w h
      rw [resConversions] at h
      rw [makeResVars, makeResVars]
      cases hput : w.put (strncpyBytes (text.drop p) (v.pos - p)) with
      | error mem => rfl
      | ok w' =>
          rw [hput] at h
          simp only [List.forall_mem_cons] at h
          have hvar : makeResVar a v w' = makeResVar b v w' := by
            rw [makeResVar, makeResVar, h.1]
          show (makeResVar a v w' >>= _) = (makeResVar b v w' >>= _)
          rw [← hvar]
          cases hr : makeResVar a v w' with
          | error mem => rfl
          | ok w'' =>
              rw [hr] at h
              exact ih _ w'' h.2

theorem resReached_eq {a : ResArgs} {text : Bytes} : ∀ (vs : List ResVar) (p : Nat)
    (w : Writer), resReached a text vs p w = (resConversions a text vs p w).map Prod.fst := by
  intro vs
  induction vs with
  | nil => intro p w; rfl
  | cons v vs ih =>
      intro p w
      rw [resReached, resConversions]
      cases w.put (strncpyBytes (text.drop p) (v.pos - p)) with
      | error mem => rfl
      | ok w' =>
          simp only [List.map_cons]
          cases makeResVar a v w' with
          | error mem => rfl
          | ok w'' => simp only [ih]

theorem makeResVars_reached {a b : ResArgs} {text : Bytes} (vs : List ResVar) (p : Nat)
    (w : Writer)
    (h : ∀ v ∈ resReached a text vs p w, ∀ size, convertVar a v size = convertVar b v size) :
    makeResVars a text vs p w = makeResVars b text vs p w := by
  refine makeResVars_conversions vs p w fun c hc => h c.1 ?_ c.2
  rw [resReached_eq]
  exact List.mem_map_of_mem hc

theorem resultCalls_makeResults {a b : PageArgs} : ∀ (ks : List Nat) (w : Writer),
    (∀ c ∈ resultCalls a ks w, makeResult a c.2 c.1 = makeResult b c.2 c.1) →
    ks.foldlM (makeResult a) w = ks.foldlM (makeResult b) w := by
  intro ks
  induction ks with
  | nil => intro w _; rfl
  | cons k ks ih =>
      intro w h
      rw [resultCalls] at h
      simp only [List.forall_mem_cons] at h
      rw [List.foldlM_cons, List.foldlM_cons, ← h.1]
      cases hr : makeResult a w k with
      | error mem => rfl
      | ok w' =>
          rw [hr] at h
          exact ih w' h.2

theorem makeVar_calls {a : PageArgs} {m : MakeRes} {v : VarAttr} {w : Writer}
    (h : CommonPageVar.ofId v.id = some .uiResults →
      ∀ c ∈ resultCalls a (List.range a.resp.head.returnNum.toNat) w,
        makeResult a c.2 c.1 = makeResult { a with makeRes := m } c.2 c.1) :
    makeVar a v w = makeVar { a with makeRes := m } v w := by
  rw [makeVar, makeVar]
  cases hid : CommonPageVar.ofId v.id with
  | none => rfl
  | some id =>
      cases id
      case uiResults => exact resultCalls_makeResults _ w (h hid)
      all_goals rfl

theorem makeVars_calls {a : PageArgs} {m : MakeRes} {text : Bytes} :
    ∀ (vs : List VarAttr) (p : Nat) (w : Writer),
      (∀ c ∈ pageCalls a text vs p w,
        makeResult a c.2 c.1 = makeResult { a with makeRes := m } c.2 c.1) →
      makeVars a text vs p w = makeVars { a with makeRes := m } text vs p w := by
  intro vs
  induction vs with
  | nil => intro p w _; rfl
  | cons v vs ih =>
      intro p w h
      rw [pageCalls] at h
      rw [makeVars, makeVars]
      cases hput : w.put (strncpyBytes (text.drop p) (v.pos - p)) with
      | error mem => rfl
      | ok w' =>
          rw [hput] at h
          simp only [List.forall_mem_append] at h
          have hvar : makeVar a v w' = makeVar { a with makeRes := m } v w' := by
            refine makeVar_calls fun hid => ?_
            have hcalls := h.1
            rwa [if_pos hid] at hcalls
          show (makeVar a v w' >>= _) = (makeVar { a with makeRes := m } v w' >>= _)
          rw [← hvar]
          cases hr : makeVar a v w' with
          | error mem => rfl
          | ok w'' =>
              rw [hr] at h
              exact ih _ w'' h.2

/-! ## The values of a page

A value that is there comes from the head or from the node of a result; what is
found where nothing was put is the parameter `stray`. A value that was there is
the same under any other `stray`, and so is a page whose values all were. -/

/-- What a page of a template set is made with. -/
def pageArgs (set : TemplateSet) (libc : Libc) (stray : Nat → Stray) (index iserr : Int)
    (size : Nat) (web : WebRequest) (up : UpstreamRequest) (resp : UpstreamResponse) :
    PageArgs :=
  let r := clampRequest up resp.head.totalNum
  ⟨size, (chooseIndex set.handle index iserr).1, web, r.2, resp, r.1,
    resultsOf set libc stray⟩

/-- The text a page with results is made from. -/
def pageContent (set : TemplateSet) (index iserr : Int) (resp : UpstreamResponse) :
    Content :=
  let i := chooseIndex set.handle index iserr
  chooseContent (set.handle.tpl i.1) i.2 resp.head.returnNum

/-- What a call for the `k`-th result works with. -/
def callArgs (set : TemplateSet) (libc : Libc) (stray : Nat → Stray) (a : PageArgs)
    (k : Nat) : ResArgs :=
  ⟨none, a.resp.head, (set.res a.index).conf, libc, stray k⟩

/-- All values a run of `makeVars` looks at were there. -/
def RunDefined (set : TemplateSet) (libc : Libc) (stray : Nat → Stray) (a : PageArgs)
    (c : Content) (page : Mem) : Prop :=
  ∀ call ∈ pageCalls a c.text c.vars 0 ⟨page, 0, a.size⟩,
    ∀ v ∈ resReached (callArgs set libc stray a call.1) (set.res a.index).text
        (set.res a.index).vars 0 call.2,
      ValueDefined (callArgs set libc stray a call.1) v

theorem fetchUint_stray {a : ResArgs} {s : Stray} {v : ResVar}
    (h : (fetchUint a v).Defined) : fetchUint a v = fetchUint { a with stray := s } v := by
  revert h
  rw [fetchUint, fetchUint]
  cases v.fromId <;> first | exact fun _ => rfl | exact False.elim

theorem fetchStr_stray {a : ResArgs} {s : Stray} {v : ResVar} {n : Nat}
    {f : ResultNode → Fin 4 → CString n} (h : (fetchStr a v f).Defined) :
    fetchStr a v f = fetchStr { a with stray := s } v f := by
  rw [fetchStr] at h
  rw [fetchStr, fetchStr]
  split at h
  · next hnode => simp only [hnode]
  · next node hnode =>
      simp only [hnode]
      split at h
      · next hidx => rw [dif_pos hidx, dif_pos hidx]
      · exact False.elim h

theorem fetchChar_stray {a : ResArgs} {s : Stray} {v : ResVar}
    (h : (fetchChar a v).Defined) : fetchChar a v = fetchChar { a with stray := s } v := by
  revert h
  rw [fetchChar, fetchChar]
  cases v.fromId
  case resultNodeShortAttr | resultNodeLongAttr => exact fetchStr_stray
  all_goals exact fun _ => rfl

theorem convertVar_stray {a : ResArgs} {s : Stray} {v : ResVar} (h : ValueDefined a v)
    (size : Nat) : convertVar a v size = convertVar { a with stray := s } v size := by
  rw [ValueDefined] at h
  rw [convertVar, convertVar]
  cases htype : v.fromFieldType
  case fieldTypeUint =>
    rw [htype] at h
    simp only [convertUint, ← fetchUint_stray h]
  case fieldTypeChar =>
    rw [htype] at h
    simp only [convertChar, ← fetchChar_stray h]
  all_goals rfl

/-- A page whose values were all there does not depend on what was found where
nothing was put. -/
theorem tempMakePage_stray {set : TemplateSet} {libc : Libc} {stray : Nat → Stray}
    {index iserr : Int} {page : Mem} {size : Nat} {web : WebRequest}
    {up : UpstreamRequest} {resp : UpstreamResponse}
    (h : RunDefined set libc stray (pageArgs set libc stray index iserr size web up resp)
      (pageContent set index iserr resp) page) (stray' : Nat → Stray) :
    tempMakePage set.handle (resultsOf set libc stray) index page size web up resp iserr =
      tempMakePage set.handle (resultsOf set libc stray') index page size web up resp
        iserr := by
  let a := pageArgs set libc stray index iserr size web up resp
  let c := pageContent set index iserr resp
  have hrun : makeVars a c.text c.vars 0 ⟨page, 0, a.size⟩ =
      makeVars { a with makeRes := resultsOf set libc stray' } c.text c.vars 0
        ⟨page, 0, a.size⟩ := by
    refine makeVars_calls _ 0 _ fun call hcall => ?_
    have hres : makeResVars (callArgs set libc stray a call.1) (set.res a.index).text
          (set.res a.index).vars 0 call.2 =
        makeResVars (callArgs set libc stray' a call.1) (set.res a.index).text
          (set.res a.index).vars 0 call.2 :=
      makeResVars_reached _ 0 _ fun v hv size => convertVar_stray (h call hcall v hv) size
    have hmade : a.makeRes a.index a.resp.head a.web call.1 call.2 =
        resultsOf set libc stray' a.index a.resp.head a.web call.1 call.2 := by
      show asTempMakeRes (callArgs set libc stray a call.1) _ _ _ =
        asTempMakeRes (callArgs set libc stray' a call.1) _ _ _
      rw [asTempMakeRes, asTempMakeRes, hres]
    simp only [makeResult, hmade]
  show makePage a c page = makePage { a with makeRes := resultsOf set libc stray' } c page
  rw [makePage, makePage, hrun]

/-! ## Which variables take a value from nowhere

With a null result only two numbers can be had. The fields of the node and those
that no branch sets are taken from nowhere; at any other variable the renderer
gives up before it looks. So of each result text the first variable that is not
plain decides. -/

/-- A number that is there without a result, with a conversion for it. -/
def VarSource.Plain (s : VarSource) : Prop :=
  s.fromId ∈ plainFields ∧ s.transMethodId ∈ uintMethods

/-- A field of the null result, or one that is never put. -/
def VarSource.Unbacked (s : VarSource) : Prop :=
  s.fromId ∈ nodeFields ∨ s.fromId = .resultNodeAttrInt ∨
    s.fromId = .resultNodeAbstract ∨ s.fromId ∈ strFields

/-- Rendering the variables of a null result comes to an unbacked one. -/
def ComesToUnbacked : List ResVar → Prop
  | [] => False
  | v :: vs => v.Unbacked ∨ v.Plain ∧ ComesToUnbacked vs

instance (s : VarSource) : Decidable s.Plain := inferInstanceAs (Decidable (_ ∧ _))

instance (s : VarSource) : Decidable s.Unbacked := inferInstanceAs (Decidable (_ ∨ _))

instance decidableComesToUnbacked : DecidablePred ComesToUnbacked
  | [] => inferInstanceAs (Decidable False)
  | v :: vs =>
      have := decidableComesToUnbacked vs
      inferInstanceAs (Decidable (v.Unbacked ∨ v.Plain ∧ ComesToUnbacked vs))

theorem fetchUint_null {a : ResArgs} {v : ResVar} (hnode : a.node = none) :
    (fetchUint a v).Defined ↔ v.fromId ∉ nodeFields ∧ v.fromId ≠ .resultNodeAttrInt ∧
      v.fromId ≠ .resultNodeAttrDiscrete := by
  rw [fetchUint, hnode]
  cases v.fromId <;> simp [Fetched.ofNode, Fetched.Defined, nodeFields]

theorem fetchChar_null {a : ResArgs} {v : ResVar} (hnode : a.node = none) :
    (fetchChar a v).Defined ↔
      v.fromId ≠ .resultNodeAbstract ∧ v.fromId ∉ strFields := by
  rw [fetchChar]
  simp only [fetchStr, hnode]
  cases v.fromId <;> simp [Fetched.ofNode, Fetched.Defined, strFields]

/-- The null result makes exactly the unbacked variables undefined. -/
theorem valueDefined_iff {a : ResArgs} {v : ResVar} (hv : v.Accepted)
    (hnode : a.node = none) : ValueDefined a v ↔ ¬ v.Unbacked := by
  rw [ValueDefined, VarSource.Unbacked]
  constructor
  · rintro hd (hf | hf | hf | hf)
    · rw [hv.uint (Or.inr (Or.inl hf))] at hd
      exact ((fetchUint_null hnode).1 hd).1 hf
    · rw [hv.uint (Or.inr (Or.inr hf))] at hd
      exact ((fetchUint_null hnode).1 hd).2.1 hf
    · rw [hv.char (Or.inl hf)] at hd
      exact ((fetchChar_null hnode).1 hd).1 hf
    · rw [hv.char (Or.inr hf)] at hd
      exact ((fetchChar_null hnode).1 hd).2 hf
  · intro hf
    simp only [not_or] at hf
    split
    · next htype =>
        refine (fetchUint_null hnode).2 ⟨hf.1, hf.2.1, fun hd => ?_⟩
        exact nomatch htype.symm.trans (hv.attrDiscrete hd)
    · exact (fetchChar_null hnode).2 hf.2.2
    · exact trivial

theorem makeResVar_ok {a : ResArgs} {v : ResVar} {w w' : Writer}
    (h : makeResVar a v w = .ok w') : 0 ≤ (convertVar a v w.nleft).num := by
  simp only [makeResVar] at h
  split at h
  · cases h
  · omega

/-- A call that comes to no unbacked variable looks at nothing that is not there:
behind a variable that is neither plain nor unbacked it has given up. -/
theorem resReached_defined {a : ResArgs} {text : Bytes} (hnode : a.node = none) :
    ∀ (vs : List ResVar) (p : Nat) (w : Writer), (∀ v ∈ vs, v.Accepted) →
      ¬ ComesToUnbacked vs → ∀ v ∈ resReached a text vs p w, ValueDefined a v := by
  intro vs
  induction vs with
  | nil =>
      intro p w _ _ v hv
      cases hv
  | cons u vs ih =>
      intro p w hacc h v hv
      have hu := hacc u List.mem_cons_self
      rw [ComesToUnbacked, not_or] at h
      rw [resReached] at hv
      split at hv
      · cases hv
      · next w' _ =>
          rcases List.mem_cons.1 hv with rfl | hv
          · exact (valueDefined_iff hu hnode).2 h.1
          · split at hv
            · cases hv
            · next w'' hvar =>
                have hplain : u.Plain := by
                  by_contra hplain
                  have hbranch : ¬ u.HasBranch := by
                    have hun := h.1
                    simp only [VarSource.Unbacked, not_or] at hun
                    rintro (⟨hf | hf | hf, hm⟩ | ⟨hf | hf, hm⟩)
                    · exact hplain ⟨hf, hm⟩
                    · exact hun.1 hf
                    · exact hun.2.1 hf
                    · exact hun.2.2.1 hf
                    · exact hun.2.2.2 hf
                  have hnum := makeResVar_ok hvar
                  rw [convertVar_num hu hbranch] at hnum
                  omega
                exact ih _ w'' (fun x hx => hacc x (List.mem_cons_of_mem u hx))
                  (fun hvs => h.2 ⟨hplain, hvs⟩) v hv

theorem valueText_plain {a : ResArgs} {v : ResVar} (hv : v.Accepted) (h : v.Plain) :
    ∃ t, valueText a v = some t := by
  obtain ⟨w, hw⟩ := (fetchUint_value (a := a)).2 (Or.inl h.1)
  simp only [valueText, hv.uint (Or.inl h.1), hw]
  exact uintText_isSome.2 h.2

/-- With enough room a call gets to its first unbacked variable. -/
theorem resReached_unbacked {a : ResArgs} {text : Bytes} (hnode : a.node = none) :
    ∀ (vs : List ResVar) (p : Nat), (∀ v ∈ vs, v.Accepted) → ComesToUnbacked vs →
      ∃ room, ∀ w : Writer, room ≤ w.nleft →
        ∃ v ∈ resReached a text vs p w, ¬ ValueDefined a v := by
  intro vs
  induction vs with
  | nil => intro p _ h; exact h.elim
  | cons u vs ih =>
      intro p hacc h
      have hu := hacc u List.mem_cons_self
      let lit := strncpyBytes (text.drop p) (u.pos - p)
      rcases h with h | ⟨h, hvs⟩
      · refine ⟨lit.length, fun w hroom => ⟨u, ?_, fun hd => ?_⟩⟩
        · rw [resReached, Writer.put_ok hroom]
          exact List.mem_cons_self
        · exact (valueDefined_iff hu hnode).1 hd h
      · obtain ⟨t, ht⟩ := valueText_plain (a := a) hu h
        obtain ⟨room, hrest⟩ := ih (p + (u.pos - p) + u.len)
          (fun x hx => hacc x (List.mem_cons_of_mem u hx)) hvs
        refine ⟨lit.length + t.length + 2 + room, fun w hroom => ?_⟩
        obtain ⟨mem, hvar⟩ := makeResVar_renders (w := ⟨_, _, _⟩) ht
          (show t.length + 2 ≤ w.nleft - lit.length by omega)
        obtain ⟨v, hv, hd⟩ := hrest ⟨mem, _, w.nleft - lit.length - t.length⟩ (by
          show room ≤ w.nleft - lit.length - t.length
          omega)
        refine ⟨v, ?_, hd⟩
        rw [resReached, Writer.put_ok (show lit.length ≤ w.nleft by omega)]
        refine List.mem_cons_of_mem u ?_
        rw [hvar]
        exact hv

/-- A variable that is no list of results needs a bounded room, whatever the
size of the page, when there is no text to copy and no page to name. -/
theorem makeVar_room {a : PageArgs} {v : VarAttr} (hlen : a.resp.len = 0)
    (hcount : a.pageCount = 0) (hid : CommonPageVar.ofId v.id ≠ some .uiResults) :
    ∃ room, ∀ (size : Nat) (w : Writer), room ≤ w.nleft →
      ∃ w', makeVar { a with size } v w = .ok w' ∧ w.nleft ≤ w'.nleft + room := by
  have hprint : ∀ bs : Bytes, ∃ room, ∀ w : Writer, room ≤ w.nleft →
      ∃ w', w.print bs = .ok w' ∧ w.nleft ≤ w'.nleft + room := by
    refine fun bs => ⟨bs.length, fun w hroom => ⟨_, Writer.print_ok hroom, ?_⟩⟩
    show w.nleft ≤ w.nleft - bs.length + bs.length
    omega
  simp only [makeVar]
  split
  · refine ⟨0, fun size w _ => ⟨w, ?_, Nat.le_refl _⟩⟩
    rw [hlen]
    simp [strncpyBytes, cstr, Writer.put, store_nil]
  · obtain ⟨room, h⟩ := hprint (cstr a.up.tn)
    exact ⟨room, fun _ => h⟩
  · obtain ⟨room, h⟩ := hprint (fmtD a.resp.head.data.type)
    exact ⟨room, fun _ => h⟩
  · obtain ⟨room, h⟩ := hprint (fmtD a.resp.head.data.width)
    exact ⟨room, fun _ => h⟩
  · obtain ⟨room, h⟩ := hprint (fmtD a.resp.head.data.height)
    exact ⟨room, fun _ => h⟩
  · obtain ⟨room, h⟩ := hprint (decimal a.up.pageNo.toNat)
    exact ⟨room, fun _ => h⟩
  · refine ⟨0, fun size w _ => ⟨w, ?_, Nat.le_refl _⟩⟩
    simp only [pageNums, hcount, Nat.min_zero, Nat.zero_sub, List.range'_zero, List.map_nil]
    rfl
  · next h => exact absurd h hid
  · refine ⟨0, fun size w _ => ⟨w.back size, rfl, ?_⟩⟩
    rw [Writer.back]
    split
    · show w.nleft ≤ w.nleft + 1 + 0
      omega
    · exact Nat.le_refl _
  · exact ⟨0, fun size w _ => ⟨w, rfl, Nat.le_refl _⟩⟩

/-- With enough room a page gets to its first list of results, and as much as is
asked for is left there. -/
theorem pageCalls_room {a : PageArgs} {text : Bytes} (hlen : a.resp.len = 0)
    (hcount : a.pageCount = 0) (hnum : a.resp.head.returnNum ≠ 0) (need : Nat) :
    ∀ (vs : List VarAttr) (p : Nat),
      (∃ v ∈ vs, CommonPageVar.ofId v.id = some .uiResults) →
      ∃ room, ∀ (size : Nat) (w : Writer), room ≤ w.nleft →
        ∃ w', (0, w') ∈ pageCalls { a with size } text vs p w ∧ need ≤ w'.nleft := by
  intro vs
  induction vs with
  | nil => rintro p ⟨v, hv, -⟩; cases hv
  | cons u vs ih =>
      intro p hex
      let lit := strncpyBytes (text.drop p) (u.pos - p)
      by_cases hid : CommonPageVar.ofId u.id = some .uiResults
      · refine ⟨lit.length + need, fun size w hroom =>
          ⟨⟨store w.mem w.pbuf lit, w.pbuf + lit.length, w.nleft - lit.length⟩, ?_, ?_⟩⟩
        · have hpos : 0 < a.resp.head.returnNum.toNat := by
            rw [Nat.pos_iff_ne_zero]
            exact fun h => hnum (UInt32.toNat_inj.1 h)
          obtain ⟨n, hn⟩ : ∃ n, a.resp.head.returnNum.toNat = n + 1 :=
            ⟨_, (Nat.succ_pred_eq_of_pos hpos).symm⟩
          rw [pageCalls, Writer.put_ok (show lit.length ≤ w.nleft by omega)]
          simp only [hid, if_true, hn, List.range_succ_eq_map, resultCalls]
          exact List.mem_append_left _ List.mem_cons_self
        · show need ≤ w.nleft - lit.length
          omega
      · obtain ⟨c, hvar⟩ := makeVar_room (a := a) hlen hcount hid
        obtain ⟨room, hrest⟩ := ih (p + (u.pos - p) + u.len) (by
          obtain ⟨v, hv, hvid⟩ := hex
          rcases List.mem_cons.1 hv with rfl | hv
          · exact absurd hvid hid
          · exact ⟨v, hv, hvid⟩)
        refine ⟨lit.length + c + room, fun size w hroom => ?_⟩
        let w₁ : Writer := ⟨store w.mem w.pbuf lit, w.pbuf + lit.length, w.nleft - lit.length⟩
        have h₁ : w₁.nleft = w.nleft - lit.length := rfl
        obtain ⟨w₂, hw₂, hleft⟩ := hvar size w₁ (by omega)
        obtain ⟨w', hw', hneed⟩ := hrest size w₂ (by omega)
        refine ⟨w', ?_, hneed⟩
        rw [pageCalls, Writer.put_ok (show lit.length ≤ w.nleft by omega)]
        refine List.mem_append_right _ ?_
        rw [hw₂]
        exact hw'

/-! ## Every value of every page

One direction is a matter of each page, the other of one page that is large
enough: there the run gets to the list of results, and in it to the unbacked
variable. -/

/-- Whatever the page, its size, the request and a reply with results, all values
the page takes were there. -/
def ValuesDefined (set : TemplateSet) (libc : Libc) (stray : Nat → Stray)
    (index iserr : Int) : Prop :=
  ∀ (page : Mem) (size : Nat) (web : WebRequest) (up : UpstreamRequest)
    (resp : UpstreamResponse), resp.head.returnNum ≠ 0 →
    RunDefined set libc stray (pageArgs set libc stray index iserr size web up resp)
      (pageContent set index iserr resp) page

/-- The text of a page with results has a list of results in it. -/
def ShowsResults (set : TemplateSet) (index iserr : Int) : Prop :=
  let i := chooseIndex set.handle index iserr
  ∃ v ∈ (chooseContent (set.handle.tpl i.1) i.2 1).vars,
    CommonPageVar.ofId v.id = some .uiResults

instance (set : TemplateSet) (index iserr : Int) :
    Decidable (ShowsResults set index iserr) :=
  List.decidableBEx _ _

theorem chooseContent_results {t : Template} {iserr : Int} {n : UInt32} (h : n ≠ 0) :
    chooseContent t iserr n = chooseContent t iserr 1 := by
  rw [chooseContent, chooseContent, if_neg h]
  rfl

theorem pageCalls_results {a : PageArgs} {text : Bytes} {call : Nat × Writer} :
    ∀ (vs : List VarAttr) (p : Nat) (w : Writer), call ∈ pageCalls a text vs p w →
      ∃ v ∈ vs, CommonPageVar.ofId v.id = some .uiResults := by
  intro vs
  induction vs with
  | nil => intro p w h; cases h
  | cons u vs ih =>
      intro p w h
      rw [pageCalls] at h
      split at h
      · cases h
      · rcases List.mem_append.1 h with h | h
        · split at h
          · next hid => exact ⟨u, List.mem_cons_self, hid⟩
          · cases h
        · split at h
          · cases h
          · obtain ⟨v, hv, hid⟩ := ih _ _ h
            exact ⟨v, List.mem_cons_of_mem u hv, hid⟩

/-- A reply with one result and an empty text. -/
def oneBare : UpstreamResponse :=
  ⟨0, { UpstreamResponseHead.zero with returnNum := 1 }, fun _ => 0⟩

/-- A list of results whose text comes to an unbacked variable takes a value from
nowhere on a page that is large enough. -/
theorem not_valuesDefined {n : Nat} {dir : TemplateDir} {set : TemplateSet}
    (h : templateLoad n dir = some set) (libc : Libc) (stray : Nat → Stray)
    {index iserr : Int} (hshow : ShowsResults set index iserr)
    (hcomes : ComesToUnbacked (set.res (chooseIndex set.handle index iserr).1).vars) :
    ¬ ValuesDefined set libc stray index iserr := by
  intro hdef
  have ht := templateLoad_loaded h (chooseIndex set.handle index iserr).1
  have hone : oneBare.head.returnNum ≠ 0 := by decide
  let up : UpstreamRequest := ⟨0, [], 0, 0, 0, 0, 0, [], 0, 0⟩
  let a := pageArgs set libc stray index iserr 0 ⟨fun _ => 0⟩ up oneBare
  obtain ⟨need, hres⟩ := @resReached_unbacked (callArgs set libc stray a 0)
    (set.res a.index).text rfl _ 0 ht.accepted hcomes
  obtain ⟨room, hcalls⟩ := @pageCalls_room a (pageContent set index iserr oneBare).text
    rfl rfl hone need _ 0 hshow
  obtain ⟨w, hw, hneed⟩ := hcalls room ⟨fun _ => 0, 0, room⟩ (Nat.le_refl _)
  obtain ⟨v, hv, hnot⟩ := hres w hneed
  exact hnot (hdef (fun _ => 0) room ⟨fun _ => 0⟩ up oneBare hone (0, w) hw v hv)

/-- A page of an accepted set never takes a value from nowhere exactly when its
text lists no results, or the result text comes to no unbacked variable. -/
theorem valuesDefined_iff {n : Nat} {dir : TemplateDir} {set : TemplateSet}
    (h : templateLoad n dir = some set) (libc : Libc) (stray : Nat → Stray)
    (index iserr : Int) :
    ValuesDefined set libc stray index iserr ↔
      ¬ (ShowsResults set index iserr ∧
        ComesToUnbacked (set.res (chooseIndex set.handle index iserr).1).vars) := by
  have ht := templateLoad_loaded h (chooseIndex set.handle index iserr).1
  constructor
  · rintro hdef ⟨hshow, hcomes⟩
    exact not_valuesDefined h libc stray hshow hcomes hdef
  · intro hnot page size web up resp hnum call hcall
    refine resReached_defined rfl _ 0 _ ht.accepted fun hcomes => hnot ⟨?_, hcomes⟩
    have hshow := pageCalls_results _ 0 _ hcall
    rwa [pageContent, chooseContent_results hnum] at hshow

def idDir : TemplateDir :=
  oneTemplate "resID=result_head_total_num=0=uint_to_uint" "<i>$resID$</i>"

def idSet : TemplateSet := (templateLoad 8 idDir).get (by decide +kernel)

theorem valuesDefined_iff_id :
    ValuesDefined idSet epochLibc (fun _ => .zero) 0 0 ∧ ShowsResults idSet 0 0 := by
  have h : templateLoad 8 idDir = some idSet := (Option.some_get _).symm
  have hid : ¬ ComesToUnbacked (idSet.res 0).vars ∧ ShowsResults idSet 0 0 := by
    decide +kernel
  refine ⟨(valuesDefined_iff h epochLibc (fun _ => .zero) 0 0).2 fun hboth => ?_, hid.2⟩
  exact hid.1 hboth.2

def topicDir : TemplateDir :=
  oneTemplate ("resID=result_head_total_num=0=uint_to_uint\n" ++
    "resTopicID=result_node_key2=0=uint_to_uint") "$resID$<i>$resTopicID$</i>"

def topicSet : TemplateSet := (templateLoad 8 topicDir).get (by decide +kernel)

/-- The second key of a result is read through the null pointer. -/
theorem valuesDefined_fails :
    templateLoad 8 topicDir = some topicSet ∧
      ¬ ValuesDefined topicSet epochLibc (fun _ => .zero) 0 0 := by
  have h : templateLoad 8 topicDir = some topicSet := (Option.some_get _).symm
  have htopic : ShowsResults topicSet 0 0 ∧ ComesToUnbacked (topicSet.res 0).vars := by
    decide +kernel
  exact ⟨h, not_valuesDefined h _ _ htopic.1 htopic.2⟩

end UiServer
