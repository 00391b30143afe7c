import UiServer.Template.Result

/-!
# Which results can be rendered

A row of the table is accepted when its field and its conversion have names.
Rendering needs more: a field `as_temp_make_res` takes a value from, and a
conversion with a branch for that type of value. `resText` is the text a result
expands to when every variable has both; it knows nothing of room.

The conversions are compared with their texts one by one (`asUint_renders`,
`asChar_renders`), and an induction over the variables carries this to the
result.
-/

namespace UiServer

open CMem

/-! ## The text of a value

What is meant, with no buffer in it: the text of a number, of a string, of a
variable, and of a result, which is `none` as soon as one of its variables has
none. -/

/-- The digits of `temp_itoa` where room is no matter. -/
def itoaText : Nat → Int → Bytes → Bytes
  | 0, _, s => s
  | fuel + 1, n, s =>
      let s := UInt8.ofInt (n.tmod 10 + 48) :: s
      let n := n.tdiv 10
      if 0 < n then itoaText fuel n (if (s.length + 1) % 4 = 0 then 44 :: s else s)
      else s

/-- The number in groups of three (`groupedText_eq`). -/
def groupedText (n : Int) : Bytes :=
  let s := itoaText 10 (if n < 0 then Int.bmod (-n) (2 ^ 32) else n) []
  if n < 0 then 45 :: s else s

def uintText (libc : Libc) (conf : TemplateConf) (w : UInt32) :
    VarTransMethod → Option Bytes
  | .uintToUint => some (decimal w.toNat)
  | .uintToTimeUsed => some (libc.timeUsed w)
  | .uintToTotalNumberStr => some (groupedText (Int.bmod w.toNat (2 ^ 32)))
  | .uintToTimeStr => some (libc.strftime conf.strftimeFmt w)
  | .uintToJavascriptTime => some (libc.strftime (ascii "%F %T") w)
  | .uintToLanguageStr => some (getCodeName w)
  | .uintToPidstr | .uintToFlag => some []
  | _ => none

def charText (conf : TemplateConf) (s : Bytes) : VarTransMethod → Option Bytes
  | .strToConv | .strToStr | .strFullHighLight | .strTitleTypeBasic
  | .strHighLightBasic | .strAbstractTypeBasic => some s
  | .strToConvQuoteEscape | .strToEscapeBackslash =>
      some (if conf.escapeBackslash ≠ 0 then s.flatMap quoteEscapePush else s)
  | .strUriEncodeUtf8 | .strUriEncode | .strToPidName => some []
  | .strXmlEncode => some (s.flatMap xmlEncodeByte)
  | .strTitleTypeCut => some (tempCutdown s 15)
  | _ => none

/-- What a variable stands for, where its value is there and can be converted. -/
def valueText (a : ResArgs) (v : ResVar) : Option Bytes :=
  match v.fromFieldType with
  | .fieldTypeUint =>
      match fetchUint a v with
      | .value w => uintText a.libc a.conf w v.transMethodId
      | _ => none
  | .fieldTypeChar =>
      match fetchChar a v with
      | .value s => charText a.conf s v.transMethodId
      | _ => none
  | _ => none

/-- The full expansion of a result text. -/
def resText (a : ResArgs) (text : Bytes) : List ResVar → Nat → Option Bytes
  | [], p => some (text.drop p)
  | v :: vs, p => do
      let value ← valueText a v
      let rest ← resText a text vs (v.pos + v.len)
      return (text.take v.pos).drop p ++ value ++ rest

/-! ## A conversion with room for its text

Each conversion is compared with its text once: with two bytes to spare it answers
with the text's length and leaves the text. The two bytes are the terminator and
the byte that the escape keeps back. The induction over the variables then only
adds lengths. -/

theorem length_le_itoaText : ∀ (fuel : Nat) (n : Int) (s : Bytes),
    s.length ≤ (itoaText fuel n s).length := by
  intro fuel
  induction fuel with
  | zero => intro n s; exact Nat.le_refl _
  | succ fuel ih =>
      intro n s
      simp only [itoaText]
      split
      · refine Nat.le_trans ?_ (ih _ _)
        split <;> simp only [List.length_cons] <;> omega
      · simp

/-- Digits that do not fill the buffer are not stopped by it. -/
theorem itoaLoop_eq : ∀ (fuel : Nat) {size : Nat} {n : Int} {s : Bytes},
    (itoaText fuel n s).length < size → (itoaLoop size fuel n s).1 = itoaText fuel n s := by
  intro fuel
  induction fuel with
  | zero => intro size n s _; rfl
  | succ fuel ih =>
      intro size n s h
      simp only [itoaText] at h ⊢
      simp only [itoaLoop]
      generalize UInt8.ofInt (n.tmod 10 + 48) :: s = t at h ⊢
      generalize n.tdiv 10 = m at h ⊢
      by_cases hm : 0 < m
      · rw [if_pos hm] at h
        have hge := length_le_itoaText fuel m (if (t.length + 1) % 4 = 0 then 44 :: t else t)
        have hgroup : t.length ≤ (if (t.length + 1) % 4 = 0 then 44 :: t else t).length := by
          split <;> simp
        have ht : t.length < size := by omega
        simp only [hm, ht, true_and, if_true]
        rw [if_pos (by omega)]
        exact ih h
      · simp only [hm, false_and, if_false]

theorem tempItoa_eq {n : Int} {size : Nat} (h : (groupedText n).length < size) :
    tempItoa n size = ⟨groupedText n ++ [0], (groupedText n).length⟩ := by
  have hsize : ¬ size < 1 := by omega
  rw [groupedText] at h ⊢
  simp only [tempItoa, if_neg hsize]
  generalize (if n < 0 then Int.bmod (-n) (2 ^ 32) else n) = m at h ⊢
  have hle : (itoaText 10 m []).length < size := by
    refine Nat.lt_of_le_of_lt ?_ h
    split
    · exact Nat.le_succ _
    · exact Nat.le_refl _
  simp only [itoaLoop_eq 10 hle, hle, true_and]
  rw [if_pos h]

theorem tempItoa_num {n : Int} {size : Nat} (h : (groupedText n).length < size) :
    (tempItoa n size).num = (groupedText n).length := by
  rw [tempItoa_eq h]

theorem tempIntdateToStr_num {libc : Libc} {value : UInt32} {size : Nat} {fmt : Bytes}
    (h : (libc.strftime fmt value).length < size) :
    (tempIntdateToStr libc value size fmt).num = (libc.strftime fmt value).length := by
  simp only [tempIntdateToStr, if_pos h]

theorem quoteEscapeLoop_eq {canPush : Nat} : ∀ {src out : Bytes},
    (out ++ src.flatMap quoteEscapePush).length < canPush →
    quoteEscapeLoop canPush src out = out ++ src.flatMap quoteEscapePush := by
  intro src
  induction src with
  | nil => intro out _; simp [quoteEscapeLoop]
  | cons c src ih =>
      intro out h
      rw [List.flatMap_cons, ← List.append_assoc] at h ⊢
      have hfit : ¬ canPush ≤ out.length + (quoteEscapePush c).length := by
        simp only [List.length_append] at h
        omega
      rw [quoteEscapeLoop, if_neg hfit]
      exact ih h

theorem quoteEscape_num {src : Bytes} {size : Nat}
    (h : (src.flatMap quoteEscapePush).length + 2 ≤ size) :
    (quoteEscape src size).num = (src.flatMap quoteEscapePush).length := by
  have hsize : size ≠ 0 := by omega
  have hpush : ¬ size - 1 < 1 := by omega
  have hloop := @quoteEscapeLoop_eq (size - 1) src []
    (by rw [List.nil_append]; omega)
  simp only [quoteEscape, if_neg hsize, if_neg hpush, hloop, List.nil_append]

theorem length_xmlEncodeByte (c : UInt8) : (xmlEncodeByte c).length ≤ 6 := by
  rw [xmlEncodeByte]
  repeat' split
  all_goals first | decide | simp

theorem length_flatMap_xmlEncodeByte (s : Bytes) :
    (s.flatMap xmlEncodeByte).length ≤ 6 * s.length := by
  induction s with
  | nil => exact Nat.le_refl 0
  | cons c s ih =>
      have := length_xmlEncodeByte c
      rw [List.flatMap_cons, List.length_append, List.length_cons]
      omega

/-- A string of a result is short enough to be encoded. -/
theorem xmlEncode_eq {s : Bytes} (h : s.length < 64) :
    xmlEncode s 1024 = some (s.flatMap xmlEncodeByte) := by
  have := length_flatMap_xmlEncodeByte s
  simp only [xmlEncode]
  rw [if_neg (by omega)]

theorem asUint_renders {libc : Libc} {conf : TemplateConf} {w : UInt32}
    {method : VarTransMethod} {text : Bytes} {size : Nat}
    (h : uintText libc conf w method = some text) (hroom : text.length + 2 ≤ size) :
    (asUintValueToOtherProcess libc conf w method size).num = text.length := by
  cases method <;> simp only [uintText, Option.some.injEq, reduceCtorEq] at h <;> subst h
  case uintToTotalNumberStr =>
    rw [asUintValueToOtherProcess]
    exact tempItoa_num (Nat.lt_of_lt_of_le (Nat.lt_add_of_pos_right Nat.two_pos) hroom)
  case uintToTimeStr | uintToJavascriptTime => exact tempIntdateToStr_num (by omega)
  all_goals rfl

theorem charConversion_num {conf : TemplateConf} {s : Bytes} {method : VarTransMethod}
    {text : Bytes} {size : Nat} (hs : s.length < 64)
    (h : charText conf s method = some text) (hroom : text.length + 2 ≤ size) :
    (charConversion conf (some s) method size).num = text.length := by
  cases method <;> simp only [charText, Option.some.injEq, reduceCtorEq] at h <;> subst h
  case strToConvQuoteEscape | strToEscapeBackslash =>
    simp only [charConversion, Option.map_some, Option.getD_some]
    by_cases he : conf.escapeBackslash ≠ 0
    · rw [if_pos he] at hroom
      rw [if_pos he, if_pos he]
      exact quoteEscape_num hroom
    · rw [if_neg he, if_neg he]
      rfl
  case strXmlEncode =>
    simp only [charConversion, Option.map_some, Option.getD_some, xmlEncode_eq hs]
    rfl
  all_goals rfl

theorem asChar_renders {conf : TemplateConf} {s : Bytes} {method : VarTransMethod}
    {text : Bytes} {size : Nat} (hs : s.length < 64)
    (h : charText conf s method = some text) (hroom : text.length + 2 ≤ size) :
    (asCharValueToOtherProcess conf (some s) method size).num = text.length := by
  have hnum := charConversion_num hs h hroom
  rw [asCharValueToOtherProcess]
  simp only [hnum]
  rw [if_neg (by omega)]
  exact hnum

/-- The strings of a result are shorter than the longest of its arrays. -/
theorem fetchChar_length {a : ResArgs} {v : ResVar} {s : Bytes}
    (h : fetchChar a v = .value s) : s.length < 64 := by
  rw [fetchChar] at h
  split at h
  · simp only [Fetched.ofNode] at h
    split at h
    · cases h
    · next node _ =>
        cases h
        have := node.abstract.fits
        omega
  · rw [fetchStr] at h
    split at h
    · cases h
    · next node _ =>
        split at h
        · next hidx =>
            cases h
            have := (node.shortStr ⟨v.fromIdIdx.toNat, by omega⟩).fits
            omega
        · cases h
  · rw [fetchStr] at h
    split at h
    · cases h
    · next node _ =>
        split at h
        · next hidx =>
            cases h
            exact (node.longStr ⟨v.fromIdIdx.toNat, by omega⟩).fits
        · cases h
  · cases h

theorem convertVar_renders {a : ResArgs} {v : ResVar} {text : Bytes} {size : Nat}
    (h : valueText a v = some text) (hroom : text.length + 2 ≤ size) :
    (convertVar a v size).num = text.length := by
  rw [valueText] at h
  rw [convertVar]
  cases htype : v.fromFieldType
  case fieldTypeUint =>
    simp only [htype] at h
    simp only [convertUint]
    split at h
    · next w hw =>
        rw [hw]
        exact asUint_renders h hroom
    · cases h
  case fieldTypeChar =>
    simp only [htype] at h
    simp only [convertChar]
    split at h
    · next s hs =>
        rw [hs]
        exact asChar_renders (fetchChar_length hs) h hroom
    · cases h
  all_goals
    rw [htype] at h
    cases h

theorem makeResVar_renders {a : ResArgs} {v : ResVar} {text : Bytes} {w : Writer}
    (h : valueText a v = some text) (hroom : text.length + 2 ≤ w.nleft) :
    ∃ mem, makeResVar a v w =
      .ok ⟨mem, w.pbuf + text.length, w.nleft - text.length⟩ := by
  have hnum := convertVar_renders h hroom
  simp only [makeResVar, hnum]
  rw [if_neg (by omega)]
  exact ⟨_, rfl⟩

/-- With two bytes to spare the loop comes to the end of the text. -/
theorem makeResVars_renders {a : ResArgs} {text : Bytes} (hnul : NulFree text) :
    ∀ (vs : List ResVar) {p : Nat} {t : Bytes} {w : Writer},
      InOrder text.length p (vs.map ResVar.toVarAttr) →
      resText a text vs p = some t → t.length + 2 ≤ w.nleft →
      ∃ mem, makeResVars a text vs p w =
        .ok ⟨mem, w.pbuf + t.length, w.nleft - t.length⟩ := by
  intro vs
  induction vs with
  | nil =>
      intro p t w _ h hroom
      cases h
      rw [makeResVars, cstr_of_nulFree (hnul.sublist (List.drop_sublist p text)),
        Writer.put_ok (by omega)]
      exact ⟨_, rfl⟩
  | cons v vs ih =>
      intro p t w hord h hroom
      simp only [resText, Option.bind_eq_bind, Option.bind_eq_some_iff] at h
      obtain ⟨value, hvalue, rest, hrest, h⟩ := h
      cases h
      simp only [List.length_append] at hroom
      have hle := hord.2.le
      have hpos : p + (v.pos - p) = v.pos := Nat.add_sub_cancel' hord.1
      rw [makeResVars, strncpyBytes_drop hnul (by omega), Writer.put_ok (by omega), hpos]
      obtain ⟨mem, hvar⟩ := makeResVar_renders (w := ⟨_, _, _⟩) hvalue
        (show value.length + 2 ≤ w.nleft - ((text.take v.pos).drop p).length by omega)
      obtain ⟨mem', hvars⟩ := ih (w := ⟨_, _, _⟩) hord.2 hrest
        (show rest.length + 2 ≤
          w.nleft - ((text.take v.pos).drop p).length - value.length by omega)
      refine ⟨mem', ?_⟩
      show (makeResVar a v _ >>= fun w => makeResVars a text vs (v.pos + v.len) w) = _
      rw [hvar]
      refine hvars.trans ?_
      simp only [List.length_append, Nat.add_assoc, Nat.sub_sub]

/-! ## Which variables can be rendered

The switches of the renderer know fewer fields and conversions than the tables of
names do. A name that is accepted fixes its type, so whether a variable has a text
is a question about its two words, and all of them are gone through once. -/

/-- The fields that are there without a result. -/
def plainFields : List VarAttrFrom := [.resultHeadTotalNum, .asRequestSortField]

/-- The numbers of a result. -/
def nodeFields : List VarAttrFrom :=
  [.resultNodeKey1, .resultNodeKey2, .resultNodeIsDel, .resultNodeSortWeight]

/-- The string arrays of a result. -/
def strFields : List VarAttrFrom := [.resultNodeShortAttr, .resultNodeLongAttr]

def uintMethods : List VarTransMethod :=
  [.uintToUint, .uintToTimeUsed, .uintToTotalNumberStr, .uintToTimeStr,
    .uintToJavascriptTime, .uintToLanguageStr, .uintToPidstr, .uintToFlag]

def charMethods : List VarTransMethod :=
  [.strToConv, .strToConvQuoteEscape, .strUriEncode, .strUriEncodeUtf8, .strXmlEncode,
    .strToStr, .strFullHighLight, .strTitleTypeBasic, .strHighLightBasic,
    .strAbstractTypeBasic, .strTitleTypeCut, .strToEscapeBackslash, .strToPidName]

/-- A number that is there with a conversion for numbers, or a string that is
there with a conversion for strings. -/
def VarSource.Renderable (s : VarSource) : Prop :=
  (s.fromId ∈ plainFields ∨ s.fromId ∈ nodeFields) ∧ s.transMethodId ∈ uintMethods ∨
    (s.fromId = .resultNodeAbstract ∨
      s.fromId ∈ strFields ∧ 0 ≤ s.fromIdIdx ∧ s.fromIdIdx < 4) ∧
      s.transMethodId ∈ charMethods

/-- Both switches have a case. -/
def VarSource.HasBranch (s : VarSource) : Prop :=
  (s.fromId ∈ plainFields ∨ s.fromId ∈ nodeFields ∨ s.fromId = .resultNodeAttrInt) ∧
      s.transMethodId ∈ uintMethods ∨
    (s.fromId = .resultNodeAbstract ∨ s.fromId ∈ strFields) ∧
      s.transMethodId ∈ charMethods

instance (s : VarSource) : Decidable s.Renderable := inferInstanceAs (Decidable (_ ∨ _))

theorem fieldNames_uint : ∀ field ∈ fieldNames,
    (field.2.1 ∈ plainFields ∨ field.2.1 ∈ nodeFields ∨ field.2.1 = .resultNodeAttrInt) →
      field.2.2 = .fieldTypeUint := by
  decide

theorem fieldNames_char : ∀ field ∈ fieldNames,
    (field.2.1 = .resultNodeAbstract ∨ field.2.1 ∈ strFields) →
      field.2.2 = .fieldTypeChar := by
  decide

/-- The name of a field fixes the type that goes with it. -/
theorem VarSource.Accepted.uint {s : VarSource} (h : s.Accepted)
    (hf : s.fromId ∈ plainFields ∨ s.fromId ∈ nodeFields ∨ s.fromId = .resultNodeAttrInt) :
    s.fromFieldType = .fieldTypeUint := by
  obtain ⟨field, hmem, hfield⟩ := h.listed
  have := fieldNames_uint field hmem
  rw [hfield] at this
  exact this hf

theorem VarSource.Accepted.char {s : VarSource} (h : s.Accepted)
    (hf : s.fromId = .resultNodeAbstract ∨ s.fromId ∈ strFields) :
    s.fromFieldType = .fieldTypeChar := by
  obtain ⟨field, hmem, hfield⟩ := h.listed
  have := fieldNames_char field hmem
  rw [hfield] at this
  exact this hf

theorem uintText_isSome {libc : Libc} {conf : TemplateConf} {w : UInt32}
    {method : VarTransMethod} :
    (∃ t, uintText libc conf w method = some t) ↔ method ∈ uintMethods := by
  cases method <;> simp [uintText, uintMethods]

theorem charText_isSome {conf : TemplateConf} {s : Bytes} {method : VarTransMethod} :
    (∃ t, charText conf s method = some t) ↔ method ∈ charMethods := by
  cases method <;> simp [charText, charMethods]

theorem fetchUint_value {a : ResArgs} {v : ResVar} :
    (∃ w, fetchUint a v = .value w) ↔
      v.fromId ∈ plainFields ∨ v.fromId ∈ nodeFields ∧ a.node.isSome := by
  rw [fetchUint]
  cases v.fromId <;> cases a.node <;>
    simp [Fetched.ofNode, plainFields, nodeFields]

theorem fetchStr_value {n : Nat} {a : ResArgs} {v : ResVar}
    {f : ResultNode → Fin 4 → CString n} :
    (∃ s, fetchStr a v f = .value s) ↔
      a.node.isSome ∧ 0 ≤ v.fromIdIdx ∧ v.fromIdIdx < 4 := by
  rw [fetchStr]
  cases a.node with
  | none => simp
  | some node =>
      by_cases h : 0 ≤ v.fromIdIdx ∧ v.fromIdIdx < 4
      · simp [h]
      · simp only [h, dite_false, reduceCtorEq, exists_false, and_false]

theorem fetchChar_value {a : ResArgs} {v : ResVar} :
    (∃ s, fetchChar a v = .value s) ↔ a.node.isSome ∧
      (v.fromId = .resultNodeAbstract ∨
        v.fromId ∈ strFields ∧ 0 ≤ v.fromIdIdx ∧ v.fromIdIdx < 4) := by
  rw [fetchChar]
  cases v.fromId
  case resultNodeAbstract => cases a.node <;> simp [Fetched.ofNode, strFields]
  case resultNodeShortAttr | resultNodeLongAttr => simp [fetchStr_value, strFields]
  all_goals simp [strFields]

/-- Where there is a result, a variable of the table has a text exactly when it
can be rendered. -/
theorem valueText_isSome {a : ResArgs} {v : ResVar} (hv : v.Accepted)
    (hnode : a.node.isSome) : (∃ t, valueText a v = some t) ↔ v.Renderable := by
  rw [valueText, VarSource.Renderable]
  constructor
  · rintro ⟨t, h⟩
    split at h
    · split at h
      · next w hw =>
          have hf := fetchUint_value.1 ⟨w, hw⟩
          exact Or.inl ⟨hf.imp_right And.left, uintText_isSome.1 ⟨t, h⟩⟩
      · cases h
    · split at h
      · next s hs =>
          exact Or.inr ⟨(fetchChar_value.1 ⟨s, hs⟩).2, charText_isSome.1 ⟨t, h⟩⟩
      · cases h
    · cases h
  · rintro (⟨hf, hm⟩ | ⟨hf, hm⟩)
    · rw [hv.uint (hf.imp_right Or.inl)]
      obtain ⟨w, hw⟩ := fetchUint_value.2 (hf.imp_right fun h => ⟨h, hnode⟩)
      simp only [hw]
      exact uintText_isSome.2 hm
    · rw [hv.char (hf.imp_right And.left)]
      obtain ⟨s, hs⟩ := fetchChar_value.2 ⟨hnode, hf⟩
      simp only [hs]
      exact charText_isSome.2 hm

theorem resText_isSome {a : ResArgs} {text : Bytes} (hnode : a.node.isSome) :
    ∀ (vs : List ResVar) {p : Nat}, (∀ v ∈ vs, v.Accepted) →
      ((∃ t, resText a text vs p = some t) ↔ ∀ v ∈ vs, v.Renderable) := by
  intro vs
  induction vs with
  | nil => intro p _; simp [resText]
  | cons v vs ih =>
      intro p hacc
      have hv := valueText_isSome (hacc v List.mem_cons_self) hnode
      have hvs := @ih (v.pos + v.len) fun u hu => hacc u (List.mem_cons_of_mem v hu)
      rw [List.forall_mem_cons, ← hv, ← hvs]
      simp only [resText, Option.bind_eq_bind, Option.bind_eq_some_iff]
      constructor
      · rintro ⟨t, value, hvalue, rest, hrest, -⟩
        exact ⟨⟨value, hvalue⟩, rest, hrest⟩
      · rintro ⟨⟨value, hvalue⟩, rest, hrest⟩
        exact ⟨_, value, hvalue, rest, hrest, rfl⟩

/-! ## A variable without a branch

A variable that no switch has a case for answers `-1`, whatever its value and
however much room there is, and takes its result with it. This is the other
direction of the claim. -/

theorem asUint_failed {libc : Libc} {conf : TemplateConf} {w : UInt32}
    {method : VarTransMethod} {size : Nat} (h : method ∉ uintMethods) :
    asUintValueToOtherProcess libc conf w method size = .failed := by
  cases method <;> first | rfl | exact absurd (by decide) h

theorem asChar_failed {conf : TemplateConf} {value : Option Bytes}
    {method : VarTransMethod} {size : Nat} (h : method ∉ charMethods) :
    asCharValueToOtherProcess conf value method size = .failed := by
  cases method <;> first | rfl | exact absurd (by decide) h

theorem fieldNames_attrDiscrete : ∀ field ∈ fieldNames,
    field.2.1 = .resultNodeAttrDiscrete → field.2.2 = .fieldTypeUnknow := by
  decide

theorem VarSource.Accepted.attrDiscrete {s : VarSource} (h : s.Accepted)
    (hf : s.fromId = .resultNodeAttrDiscrete) : s.fromFieldType = .fieldTypeUnknow := by
  obtain ⟨field, hmem, hfield⟩ := h.listed
  have := fieldNames_attrDiscrete field hmem
  rw [hfield] at this
  exact this hf

/-- The fields with a case in the switch of an unsigned variable. -/
theorem fetchUint_refused {a : ResArgs} {v : ResVar} :
    fetchUint a v = .refused ↔ ¬ (v.fromId ∈ plainFields ∨ v.fromId ∈ nodeFields ∨
      v.fromId = .resultNodeAttrInt ∨ v.fromId = .resultNodeAttrDiscrete) := by
  rw [fetchUint]
  cases v.fromId <;> cases a.node <;> simp [Fetched.ofNode, plainFields, nodeFields]

theorem fetchStr_ne_refused {n : Nat} {a : ResArgs} {v : ResVar}
    {f : ResultNode → Fin 4 → CString n} : fetchStr a v f ≠ .refused := by
  rw [fetchStr]
  split
  · nofun
  · split <;> nofun

theorem fetchChar_refused {a : ResArgs} {v : ResVar} :
    fetchChar a v = .refused ↔
      ¬ (v.fromId = .resultNodeAbstract ∨ v.fromId ∈ strFields) := by
  rw [fetchChar]
  cases v.fromId
  case resultNodeAbstract => cases a.node <;> simp [Fetched.ofNode]
  all_goals simp [strFields, fetchStr_ne_refused]

theorem convertVar_num {a : ResArgs} {v : ResVar} {size : Nat} (hv : v.Accepted)
    (h : ¬ v.HasBranch) : (convertVar a v size).num = -1 := by
  rw [convertVar]
  split
  · next htype =>
      by_cases hm : v.transMethodId ∈ uintMethods
      · have hrefused : fetchUint a v = .refused := by
          rw [fetchUint_refused]
          rintro (hf | hf | hf | hf)
          · exact h (Or.inl ⟨Or.inl hf, hm⟩)
          · exact h (Or.inl ⟨Or.inr (Or.inl hf), hm⟩)
          · exact h (Or.inl ⟨Or.inr (Or.inr hf), hm⟩)
          · exact nomatch htype.symm.trans (hv.attrDiscrete hf)
        rw [convertUint, hrefused]
        rfl
      · rw [convertUint]
        split
        · rw [asUint_failed hm]
          rfl
        · rw [asUint_failed hm]
          rfl
        · rfl
        · rfl
  · next htype =>
      by_cases hm : v.transMethodId ∈ charMethods
      · have hrefused : fetchChar a v = .refused := by
          rw [fetchChar_refused]
          exact fun hf => h (Or.inr ⟨hf, hm⟩)
        rw [convertChar, hrefused]
        rfl
      · rw [convertChar]
        split
        · rw [asChar_failed hm]
          rfl
        · rw [asChar_failed hm]
          rfl
        · rw [asChar_failed hm]
          rfl
        · rfl
  · rfl

/-- One variable that is always given up takes the whole result with it. -/
theorem makeResVars_fails {a : ResArgs} {text : Bytes} {v : ResVar}
    (hv : ∀ size, (convertVar a v size).num = -1) : ∀ (vs : List ResVar) (p : Nat)
    (w : Writer), v ∈ vs → ∃ mem, makeResVars a text vs p w = .error mem := by
  intro vs
  induction vs with
  | nil => intro p w hmem; cases hmem
  | cons u vs ih =>
      intro p w hmem
      rw [makeResVars]
      cases hput : w.put (strncpyBytes (text.drop p) (u.pos - p)) with
      | error mem => exact ⟨mem, rfl⟩
      | ok w' =>
          show ∃ mem, (makeResVar a u w' >>=
            fun w => makeResVars a text vs (p + (u.pos - p) + u.len) w) = .error mem
          rcases List.mem_cons.1 hmem with rfl | hmem
          · have hvar : ∃ mem, makeResVar a v w' = .error mem := by
              simp only [makeResVar, hv w'.nleft]
              exact ⟨_, rfl⟩
            obtain ⟨mem, hvar⟩ := hvar
            exact ⟨mem, by rw [hvar]; rfl⟩
          · cases hvar : makeResVar a u w' with
            | error mem => exact ⟨mem, rfl⟩
            | ok w'' => exact ih _ w'' hmem

/-! ## The validator and the renderer

The set of templates is one that `template_load` has accepted. What its validator
asks of a row and what the renderer needs of it are put side by side. -/

/-- Every result expands to a text, and with two bytes to spare behind it that
text is what `as_temp_make_res` answers the length of. -/
def RendersInFull (libc : Libc) (t : ResTemplate) : Prop :=
  ∀ (node : ResultNode) (head : UpstreamResponseHead) (stray : Stray),
    let a : ResArgs := ⟨some node, head, t.conf, libc, stray⟩
    ∃ text, resText a t.text t.vars 0 = some text ∧
      ∀ w : Writer, text.length + 2 ≤ w.nleft →
        (asTempMakeRes a t.text t.vars w).2 = text.length

def CString.empty (n : Nat) : CString (n + 1) := ⟨[], fun _ hb => (nomatch hb), n.succ_pos⟩

def ResultNode.zero : ResultNode :=
  ⟨0, 0, 0, 0, .empty 31, fun _ => .empty 31, fun _ => .empty 63⟩

def Stray.zero : Stray := ⟨fun _ => 0, fun _ => []⟩

theorem asTempMakeRes_renders {a : ResArgs} {t : ResTemplate} {text : Bytes} {w : Writer}
    (ht : t.Loaded) (h : resText a t.text t.vars 0 = some text)
    (hroom : text.length + 2 ≤ w.nleft) :
    (asTempMakeRes a t.text t.vars w).2 = text.length := by
  obtain ⟨mem, hrun⟩ := makeResVars_renders ht.nulFree t.vars ht.inOrder h hroom
  simp only [asTempMakeRes, hrun]
  omega

/-- The results of an accepted set of templates are rendered in full exactly
when every variable of the result text has a row with a field and a conversion
that can be rendered; one without a branch makes every call fail. -/
theorem rendersInFull_iff {n : Nat} {dir : TemplateDir} {set : TemplateSet}
    (h : templateLoad n dir = some set) (libc : Libc) (i : Nat) :
    (RendersInFull libc (set.res i) ↔ ∀ v ∈ (set.res i).vars, v.Renderable) ∧
      ∀ v ∈ (set.res i).vars, ¬ v.HasBranch → ∀ (a : ResArgs) (w : Writer),
        (asTempMakeRes a (set.res i).text (set.res i).vars w).2 = -1 := by
  have ht := templateLoad_loaded h i
  refine ⟨⟨fun hfull => ?_, fun hvars node head stray => ?_⟩, ?_⟩
  · let a : ResArgs :=
      ⟨some .zero, .zero, (set.res i).conf, libc, .zero⟩
    obtain ⟨text, htext, -⟩ := hfull .zero .zero .zero
    exact (resText_isSome (a := a) rfl _ ht.accepted).1 ⟨text, htext⟩
  · let a : ResArgs := ⟨some node, head, (set.res i).conf, libc, stray⟩
    obtain ⟨text, htext⟩ := (resText_isSome (a := a) rfl _ ht.accepted).2 hvars
    exact ⟨text, htext, fun w hroom => asTempMakeRes_renders ht htext hroom⟩
  · intro v hv hbranch a w
    have hfails : ∃ mem,
        makeResVars a (set.res i).text (set.res i).vars 0 w = .error mem :=
      makeResVars_fails (fun _ => convertVar_num (ht.accepted v hv) hbranch) _ 0 w hv
    obtain ⟨mem, hrun⟩ := hfails
    simp only [asTempMakeRes, hrun]

/-- A directory with one template, whose page shows its results. -/
def oneTemplate (table res : String) : TemplateDir where
  table := some (ascii table)
  names := some (ascii "1")
  page := fun _ => some (ascii "$uiResults$")
  none := fun _ => some []
  err := fun _ => some []
  res := fun _ => some (ascii res)
  conf := fun _ => ⟨0, ascii "%F %R"⟩

/-- The library at the epoch. -/
def epochLibc : Libc where
  timeUsed := fun _ => ascii "0.000"
  strftime := fun fmt _ =>
    ascii (if fmt = ascii "%F %T" then "1970-01-01 00:00:00" else "1970-01-01 00:00")
  scratch := fun _ _ => []

/-- The `i`-th result text with a result of zeros. -/
def TemplateSet.zeroArgs (set : TemplateSet) (i : Nat) : ResArgs :=
  ⟨some .zero, .zero, (set.res i).conf, epochLibc, .zero⟩

def titleDir : TemplateDir :=
  oneTemplate ("resTitle=result_node_long_attr=0=str_title_type_basic\n" ++
    "resTopicID=result_node_key2=0=uint_to_uint") "<a>$resTopicID$</a>$resTitle$"

def titleSet : TemplateSet := (templateLoad 8 titleDir).get (by decide +kernel)

theorem rendersInFull_iff_title :
    RendersInFull epochLibc (titleSet.res 0) ∧ (titleSet.res 0).vars.length = 2 := by
  have h : templateLoad 8 titleDir = some titleSet := (Option.some_get _).symm
  have hvars : (∀ v ∈ (titleSet.res 0).vars, v.Renderable) ∧
      (titleSet.res 0).vars.length = 2 := by decide +kernel
  exact ⟨(rendersInFull_iff h epochLibc 0).1.2 hvars.1, hvars.2⟩

def urlDir : TemplateDir :=
  oneTemplate "resUrl=field_type_url=0=not_need_field" "<a href=\"$resUrl$\">"

def urlSet : TemplateSet := (templateLoad 8 urlDir).get (by decide +kernel)

/-- The row of `$resUrl$` is accepted, and a result that shows the url is given
up however much room there is. -/
theorem rendersInFull_fails :
    templateLoad 8 urlDir = some urlSet ∧
      (asTempMakeRes (urlSet.zeroArgs 0) (urlSet.res 0).text (urlSet.res 0).vars
        ⟨fun _ => 0, 0, responseBufSize⟩).2 = -1 ∧
      ¬ RendersInFull epochLibc (urlSet.res 0) := by
  have hurl : (asTempMakeRes (urlSet.zeroArgs 0) (urlSet.res 0).text (urlSet.res 0).vars
        ⟨fun _ => 0, 0, responseBufSize⟩).2 = -1 ∧
      (resText (urlSet.zeroArgs 0) (urlSet.res 0).text
        (urlSet.res 0).vars 0).isNone := by decide +kernel
  refine ⟨(Option.some_get _).symm, hurl.1, fun hfull => ?_⟩
  obtain ⟨text, htext, -⟩ := hfull .zero .zero .zero
  have hnone := hurl.2
  rw [TemplateSet.zeroArgs, htext] at hnone
  cases hnone

end UiServer
