import Mathlib.Data.List.DropRight
import Mathlib.Data.List.Forall2
import UiServer.Template.Page
import UiServer.Template.Res

/-!
# The table of variables

`template_table.conf` says for each variable which field it stands for and how
the value is turned into text. The table is loaded before the templates; a row
is accepted when its field and its conversion are known by name, each by
itself. Every variable of a result text must then have a row, whose words are
copied into it.

The names are compared without regard to case, and the first match counts.
-/

namespace UiServer

open CMem

/-- `var_attr_from_t`, in its order. -/
inductive VarAttrFrom where
  | errorField | noneExistField | notNeedField
  | resultHeadStatus | resultHeadTotalNum | resultHeadReturnNum | resultHeadQueryTerm
  | resultNodeKey1 | resultNodeKey2 | resultNodeAttrInt | resultNodeAttrDiscrete
  | resultNodeShortAttr | resultNodeLongAttr | resultNodeSortWeight | resultNodeIsDel
  | resultNodeAbstract
  | asRequestQuery | asRequestFieldType | asRequestAttrInt | asRequestAttrDiscrete
  | asRequestReturnNum | asRequestSortField | asRequestSortType | asRequestNeedDel
  | asRequestMustAnd | asRequestNeedSynonym | asRequestPidStr
  | sessionTServerTimeused | currnetTimestamp
  | asApacheRn | asApacheLanguage | asApachePn | asApacheQt | asApacheSn | asApacheHt
  | asPageCount | asApacheSort
deriving DecidableEq, Repr

/-- `var_attr_from_type_t`, in its order. -/
inductive VarAttrFromType where
  | fieldTypeUnknow | fieldTypeUint | fieldTypeChar
  | fieldTypePageNum | fieldTypePagePre | fieldTypePageNext
  | fieldTypeRelation | fieldTypeRelative | fieldTypeRelativeJson
  | fieldTypeRelativePids | fieldTypeRelativePidsJson
  | fieldTypeSort | fieldTypeSortMenu | fieldTypeTimeMenu | fieldTypeCss
  | fieldTypeResults | fieldTypeIndexTop | fieldTypeErrMsg | fieldTypeUrl
  | fieldTypePlate | fieldTypeUistatus
  | resultNode0
  | fieldTypeDeleteLastSpace | fieldTypePidurl | fieldTypeQiye | fieldTypeRelativeTopics
deriving DecidableEq, Repr

/-- `var_trans_method_t`, in its order. -/
inductive VarTransMethod where
  | unknowTransMethod | notTrans | transMethodNotneed
  | strToConv | strToConvQuoteEscape | strUriEncode | strUriEncodeUtf8 | strXmlEncode
  | uintToUint | strToStr | strFullHighLight | uintToTimeUsed | uintToLanguageStr
  | uintToTotalNumberStr
  | strTitleTypeBasic | strAbstractTypeBasic | strAbstractTypeWendabasic
  | strTitleTypeCut | uintToTimeStr | uintToJavascriptTime
  | strToEscapeBackslash | strToPidName | uintToPidstr | uintToFlag
  | strToJsonTerm | strHighLightBasic | strToWendaTopicId | strToWendaLableIds
deriving DecidableEq, Repr

/-! ## The names

The kinds of fields and of conversions, each with the word of the table that names
it. -/

/-- The comparisons of `as_get_attr_from_id_by_field_name` in their order, each
with the field it answers with and the type it reports. -/
def fieldNames : List (Bytes × VarAttrFrom × VarAttrFromType) :=
  [("result_head_status", .resultHeadStatus, .fieldTypeUint),
    ("result_head_total_num", .resultHeadTotalNum, .fieldTypeUint),
    ("result_head_return_num", .resultHeadReturnNum, .fieldTypeUint),
    ("result_head_query_term", .resultHeadQueryTerm, .fieldTypeChar),
    ("result_node_key1", .resultNodeKey1, .fieldTypeUint),
    ("result_node_key2", .resultNodeKey2, .fieldTypeUint),
    ("result_node_attr_int", .resultNodeAttrInt, .fieldTypeUint),
    ("result_node_attr_discrete", .resultNodeAttrDiscrete, .fieldTypeUnknow),
    ("result_node_short_attr", .resultNodeShortAttr, .fieldTypeChar),
    ("result_node_long_attr", .resultNodeLongAttr, .fieldTypeChar),
    ("result_node_sort_weight", .resultNodeSortWeight, .fieldTypeUint),
    ("result_node_is_del", .resultNodeIsDel, .fieldTypeUint),
    ("result_node_abstract", .resultNodeAbstract, .fieldTypeChar),
    ("as_request_query", .asRequestQuery, .fieldTypeChar),
    ("as_request_field_type", .asRequestFieldType, .fieldTypeUint),
    ("as_request_attr_int", .asRequestAttrInt, .fieldTypeUint),
    ("as_request_attr_discrete", .asRequestAttrDiscrete, .fieldTypeUnknow),
    ("as_request_return_num", .asRequestReturnNum, .fieldTypeUint),
    ("as_request_sort_field", .asRequestSortField, .fieldTypeUint),
    ("as_request_sort_type", .asRequestSortType, .fieldTypeUint),
    ("as_request_need_del", .asRequestNeedDel, .fieldTypeUint),
    ("as_request_must_and", .asRequestMustAnd, .fieldTypeUint),
    ("as_request_need_synonym", .asRequestNeedSynonym, .fieldTypeUint),
    ("as_request_pid_str", .asRequestPidStr, .fieldTypeChar),
    ("session_t_server_timeused", .sessionTServerTimeused, .fieldTypeUint),
    ("currnet_timestamp", .currnetTimestamp, .fieldTypeUint),
    ("field_type_relative", .notNeedField, .fieldTypeRelative),
    ("field_type_relative_json", .notNeedField, .fieldTypeRelativeJson),
    ("field_type_relative_pids", .notNeedField, .fieldTypeRelativePids),
    ("field_type_relative_pids_json", .notNeedField, .fieldTypeRelativePidsJson),
    ("field_type_relative_topics", .notNeedField, .fieldTypeRelativeTopics),
    ("field_type_time_menu", .notNeedField, .fieldTypeTimeMenu),
    ("field_type_sort", .notNeedField, .fieldTypeSort),
    ("field_type_qiye", .notNeedField, .fieldTypeQiye),
    ("field_type_sort_menu", .notNeedField, .fieldTypeSortMenu),
    ("field_type_results", .notNeedField, .fieldTypeResults),
    ("field_type_page_pre", .notNeedField, .fieldTypePagePre),
    ("field_type_page_next", .notNeedField, .fieldTypePageNext),
    ("field_type_page_num", .notNeedField, .fieldTypePageNum),
    ("field_type_index_top", .notNeedField, .fieldTypeIndexTop),
    ("field_type_relation", .notNeedField, .fieldTypeRelation),
    ("field_type_err_msg", .notNeedField, .fieldTypeErrMsg),
    ("field_type_url", .notNeedField, .fieldTypeUrl),
    ("field_type_plate", .notNeedField, .fieldTypePlate),
    ("field_type_pidurl", .notNeedField, .fieldTypePidurl),
    ("field_type_uistatus", .notNeedField, .fieldTypeUistatus),
    ("as_apache_qt", .asApacheQt, .fieldTypeUint),
    ("as_apache_sn", .asApacheSn, .fieldTypeUint),
    ("as_apache_sort", .asApacheSort, .fieldTypeUint),
    ("as_apache_rn", .asApacheRn, .fieldTypeUint),
    ("as_apache_pn", .asApachePn, .fieldTypeUint),
    ("as_apache_ht", .asApacheHt, .fieldTypeUint),
    ("as_apache_language", .asApacheLanguage, .fieldTypeUint),
    ("as_page_count", .asPageCount, .fieldTypeUint),
    ("result_node_0", .notNeedField, .resultNode0),
    ("field_type_delete_last_space", .notNeedField, .fieldTypeDeleteLastSpace)].map
    fun (name, field) => (ascii name, field)

/-- The field and the type of its value; the type is unknown beforehand. -/
def asGetAttrFromIdByFieldName (name : Bytes) : VarAttrFrom × VarAttrFromType :=
  match fieldNames.find? fun field => strcasecmpEq name field.1 with
  | some field => field.2
  | none => (.noneExistField, .fieldTypeUnknow)

def transMethods : List (Bytes × VarTransMethod) :=
  [("uint_to_uint", .uintToUint),
    ("trans_method_notneed", .transMethodNotneed),
    ("str_to_conv", .strToConv),
    ("str_to_conv_quote_escape", .strToConvQuoteEscape),
    ("str_uri_encode", .strUriEncode),
    ("str_uri_encode_utf8", .strUriEncodeUtf8),
    ("str_xml_encode", .strXmlEncode),
    ("str_full_high_light", .strFullHighLight),
    ("str_to_str", .strToStr),
    ("uint_to_time_used", .uintToTimeUsed),
    ("uint_to_language_str", .uintToLanguageStr),
    ("uint_to_total_number_str", .uintToTotalNumberStr),
    ("str_title_type_basic", .strTitleTypeBasic),
    ("str_high_light_basic", .strHighLightBasic),
    ("str_abstract_type_basic", .strAbstractTypeBasic),
    ("uint_to_time_str", .uintToTimeStr),
    ("uint_to_javascript_time", .uintToJavascriptTime),
    ("str_to_pid_name", .strToPidName),
    ("str_to_escape_backslash", .strToEscapeBackslash),
    ("uint_to_pidstr", .uintToPidstr),
    ("uint_to_language_str", .uintToLanguageStr),
    ("uint_to_flag", .uintToFlag),
    ("str_to_json_term", .strToJsonTerm),
    ("str_to_wenda_topic_id", .strToWendaTopicId),
    ("str_to_wenda_lable_ids", .strToWendaLableIds),
    ("not_need_field", .notTrans)].map fun (name, method) => (ascii name, method)

def asGetTransMethodByTransMethodName (name : Bytes) : VarTransMethod :=
  match transMethods.find? fun method => strcasecmpEq name method.1 with
  | some method => method.2
  | none => .unknowTransMethod

/-! ## The table

A row is taken when the words for its field and for its conversion are known,
whether or not the two go together. A row of other words makes the load fail. -/

/-- What a row of the table says of a variable, and a variable of its row. -/
structure VarSource where
  fieldname : Bytes
  fromId : VarAttrFrom
  fromFieldType : VarAttrFromType
  fromIdIdx : Int
  transMethodName : Bytes
  transMethodId : VarTransMethod
deriving DecidableEq, Repr

/-- `as_template_table_t`. Nothing sets its `id`. -/
structure TemplateTable extends VarSource where
  id : Nat
  name : Bytes
deriving DecidableEq, Repr

/-- `as_template_var_valid`: the row with its field and its conversion looked
up, or nothing when one of them is not known. -/
def asTemplateVarValid (row : TemplateTable) : Option TemplateTable :=
  let field := asGetAttrFromIdByFieldName row.fieldname
  if field.1 = .errorField ∨ field.1 = .noneExistField then none
  else
    let transMethodId := asGetTransMethodByTransMethodName row.transMethodName
    if transMethodId = .unknowTransMethod then none
    else some { row with fromId := field.1, fromFieldType := field.2, transMethodId }

/-- `trimNR`: the string without the line ends behind it. -/
def trimNR (s : Bytes) : Bytes := (cstr s).rdropWhile fun c => c == 10 || c == 13

/-- What `snprintf` keeps of a text in an array of `MAX_VAR_NAME_LEN`. -/
def varText (s : Bytes) : Bytes := s.take (maxVarNameLen - 1)

def isDigit (c : UInt8) : Bool := 48 ≤ c && c ≤ 57

/-- `atoi` of a text that starts with a digit: the number is held in 64 bits,
where it stops at the largest one, and 32 of them are kept. -/
def atoi (s : Bytes) : Int :=
  let n := (s.takeWhile isDigit).foldl (fun n c => 10 * n + (c.toNat - 48)) 0
  Int.bmod (min n (2 ^ 63 - 1) : Nat) (2 ^ 32)

def equals : UInt8 := 61

/-- What stands before the next `=`, trimmed, and what stands behind it. -/
def splitItem (s : Bytes) : Option (Bytes × Bytes) :=
  (strchr equals s 0).map fun p => (trimNR (s.take p), s.drop (p + 1))

/-- What a line of the file amounts to. -/
inductive TableLine where
  | skip
  | fail
  | row (r : TemplateTable)
deriving DecidableEq, Repr

/-- A line that is no comment: four items with `=` between them. -/
def tableRow (line : Bytes) : TableLine :=
  match splitItem line with
  | none => .fail
  | some (name, rest) =>
      match splitItem rest with
      | none => .fail
      | some (fieldname, rest) =>
          match splitItem rest with
          | none => .fail
          | some (idx, rest) =>
              if isDigit (idx.headD 0) then
                match asTemplateVarValid
                    { id := 0
                      name := varText name
                      fieldname := varText fieldname
                      fromId := .errorField
                      fromFieldType := .fieldTypeUnknow
                      fromIdIdx := atoi idx
                      transMethodName := varText (trimNR rest)
                      transMethodId := .unknowTransMethod } with
                | none => .fail
                | some row => .row row
              else .skip

def tableLine (buf : Bytes) : TableLine :=
  if buf.head? = some 35 then .skip else tableRow (trimNR buf)

/-- The `while (fgets(...))` loop, `num` rows into the table. -/
def loadTable : Nat → Bytes → Nat → Option (List TemplateTable)
  | 0, _, _ => some []
  | _ + 1, [], _ => some []
  | fuel + 1, s, num =>
      let (buf, rest) := fgets 1023 s
      match tableLine buf with
      | .fail => none
      | .skip => loadTable fuel rest num
      | .row row =>
          if num + 1 = maxVarsNum then none
          else (loadTable fuel rest (num + 1)).map (row :: ·)

/-- `as_load_template_var_table`. -/
def asLoadTemplateVarTable (file : Option Bytes) : Option (List TemplateTable) :=
  match file with
  | none => none
  | some s => loadTable s.length s 0

/-- `Var_attr_t` with the words of its row. -/
structure ResVar extends VarAttr, VarSource
deriving DecidableEq, Repr

/-- The name of a variable without a `$` at either end. -/
def bareName (name : Bytes) : Bytes :=
  let varname := if name.head? = some dollar then name.tail else name
  if varname.getLast? = some dollar then varname.dropLast else varname

def asSetMethodForVar (table : List TemplateTable) (v : VarAttr) : Option ResVar :=
  (table.find? fun row => strcasecmpEq (bareName v.name) row.name).map fun row =>
    { v with
      id := row.id
      toVarSource := row.toVarSource }

/-- `as_set_method_for_vars`. -/
def asSetMethodForVars (table : List TemplateTable) (vars : List VarAttr) :
    Option (List ResVar) :=
  vars.mapM (asSetMethodForVar table)

/-! ## Loading the templates

The names of the templates are the lines of a file. Each template has its texts in
a directory of its own, and the load fails when one of them cannot be loaded or a
variable has no row. -/

/-- What `temp_load_config_file` sets that a rendering looks at. -/
structure TemplateConf where
  escapeBackslash : Int
  strftimeFmt : Bytes
deriving DecidableEq, Repr

/-- A result text with its variables and the configuration it is rendered with. -/
structure ResTemplate where
  text : Bytes
  vars : List ResVar
  conf : TemplateConf

/-- The files `template_load` opens: two in the directory it is given, and for
each template name five in the template's own. The configuration is what
`temp_load_config_file` makes of the fifth. -/
structure TemplateDir where
  table : Option Bytes
  names : Option Bytes
  page : Bytes → Option Bytes
  none : Bytes → Option Bytes
  err : Bytes → Option Bytes
  res : Bytes → Option Bytes
  conf : Bytes → TemplateConf

/-- `readlines_2_array`, with room for `room` more items. -/
def readlines2Array (maxItemLen : Nat) : Nat → Nat → Bytes → List Bytes
  | 0, _, _ => []
  | _, 0, _ => []
  | _, _ + 1, [] => []
  | fuel + 1, room + 1, s =>
      let (line, rest) := fgets (maxItemLen - 1) s
      if line.head? = some 35 then readlines2Array maxItemLen fuel (room + 1) rest
      else trimNR line :: readlines2Array maxItemLen fuel room rest

def Content.load (file : Option Bytes) : Option Content :=
  match h : tempLoadContentFile file with
  | none => none
  | some (text, vars) => some ⟨text, vars, file, h⟩

/-- The texts of one template; its result text needs a row for each variable. -/
def loadTemplate (dir : TemplateDir) (table : List TemplateTable) (tn : Bytes) :
    Option (Template × ResTemplate) := do
  let pagebuf ← Content.load (dir.page tn)
  let nonebuf ← Content.load (dir.none tn)
  let errbuf ← Content.load (dir.err tn)
  let res ← tempLoadResFile (dir.res tn)
  let vars ← asSetMethodForVars table res.vars
  return (⟨pagebuf, nonebuf, errbuf⟩, ⟨res.text, vars, dir.conf tn⟩)

/-- The templates in memory: the handle, and beside it the result text of each. -/
structure TemplateSet where
  handle : TemplateHandle
  res : Nat → ResTemplate

/-- `template_load`, with `MAX_TEMPLATE_NUM` as a parameter. The memory of a
template that is not loaded is zero. -/
def templateLoad (maxTemplateNum : Nat) (dir : TemplateDir) : Option TemplateSet := do
  let table ← asLoadTemplateVarTable dir.table
  let names ← dir.names
  let tn := readlines2Array maxTemplateNameLen names.length maxTemplateNum names
  let tpls ← tn.mapM (loadTemplate dir table)
  return ⟨⟨tn, fun i => (tpls[i]?.map (·.1)).getD ⟨.empty, .empty, .empty⟩⟩,
    fun i => (tpls[i]?.map (·.2)).getD ⟨[], [], ⟨0, []⟩⟩⟩

/-! ## What is loaded

What the renderer may rely on: the words of a variable are those of a row that was
taken. -/

/-- The field and the conversion are what their names stand for. -/
structure VarSource.Accepted (s : VarSource) : Prop where
  field : asGetAttrFromIdByFieldName s.fieldname = (s.fromId, s.fromFieldType)
  known : s.fromId ≠ .errorField ∧ s.fromId ≠ .noneExistField
  method : asGetTransMethodByTransMethodName s.transMethodName = s.transMethodId
  methodKnown : s.transMethodId ≠ .unknowTransMethod

theorem VarSource.Accepted.listed {s : VarSource} (h : s.Accepted) :
    ∃ field ∈ fieldNames, field.2 = (s.fromId, s.fromFieldType) := by
  have hf := h.field
  rw [asGetAttrFromIdByFieldName] at hf
  split at hf
  · next field hfind => exact ⟨field, List.mem_of_find?_eq_some hfind, hf⟩
  · exact absurd (Prod.mk.inj hf).1.symm h.known.2

theorem asTemplateVarValid_accepted {row row' : TemplateTable}
    (h : asTemplateVarValid row = some row') : row'.Accepted := by
  simp only [asTemplateVarValid] at h
  split at h
  · cases h
  · next hknown =>
      split at h
      · cases h
      · next hmethod =>
          cases h
          exact ⟨rfl, not_or.1 hknown, rfl, hmethod⟩

theorem tableRow_accepted {line : Bytes} {row : TemplateTable}
    (h : tableRow line = .row row) : row.Accepted := by
  rw [tableRow] at h
  split at h
  · cases h
  · split at h
    · cases h
    · split at h
      · cases h
      · split at h
        · split at h
          · cases h
          · next hvalid =>
              cases h
              exact asTemplateVarValid_accepted hvalid
        · cases h

/-- What a line makes of every row it yields holds of the rows of a table. -/
theorem loadTable_forall {P : TemplateTable → Prop}
    (hline : ∀ line row, tableRow line = .row row → P row) :
    ∀ (fuel : Nat) (s : Bytes) (num : Nat) (rows : List TemplateTable),
      loadTable fuel s num = some rows → ∀ row ∈ rows, P row := by
  intro fuel
  induction fuel with
  | zero =>
      intro s num rows h
      cases h
      exact fun _ hr => nomatch hr
  | succ fuel ih =>
      intro s num rows h
      cases s with
      | nil =>
          cases h
          exact fun _ hr => nomatch hr
      | cons c s =>
          simp only [loadTable] at h
          split at h
          · cases h
          · exact ih _ _ _ h
          · next row hrow =>
              split at h
              · cases h
              · obtain ⟨rows, hrest, rfl⟩ := Option.map_eq_some_iff.1 h
                intro r hr
                rcases List.mem_cons.1 hr with rfl | hr
                · rw [tableLine] at hrow
                  split at hrow
                  · cases hrow
                  · exact hline _ _ hrow
                · exact ih _ _ _ hrest r hr

theorem asLoadTemplateVarTable_forall {P : TemplateTable → Prop}
    (hline : ∀ line row, tableRow line = .row row → P row) {file : Option Bytes}
    {rows : List TemplateTable} (h : asLoadTemplateVarTable file = some rows) :
    ∀ row ∈ rows, P row := by
  cases file with
  | none => cases h
  | some s => exact loadTable_forall hline _ _ _ _ h

theorem asLoadTemplateVarTable_accepted {file : Option Bytes}
    {rows : List TemplateTable} (h : asLoadTemplateVarTable file = some rows) :
    ∀ row ∈ rows, row.Accepted :=
  asLoadTemplateVarTable_forall (fun _ _ => tableRow_accepted) h

/-- A variable gets the words of a row and stays where it is. -/
theorem asSetMethodForVar_some {table : List TemplateTable} {v : VarAttr} {r : ResVar}
    (h : asSetMethodForVar table v = some r) :
    (∃ row ∈ table, r.toVarSource = row.toVarSource) ∧ r.pos = v.pos ∧ r.len = v.len := by
  obtain ⟨row, hfind, rfl⟩ := Option.map_eq_some_iff.1 h
  exact ⟨⟨row, List.mem_of_find?_eq_some hfind, rfl⟩, rfl, rfl⟩

/-- A result text as `template_load` leaves it. -/
structure ResTemplate.Loaded (t : ResTemplate) : Prop where
  nulFree : NulFree t.text
  inOrder : InOrder t.text.length 0 (t.vars.map ResVar.toVarAttr)
  accepted : ∀ v ∈ t.vars, v.Accepted

theorem asSetMethodForVars_loaded {table : List TemplateTable} {n : Nat}
    (htable : ∀ row ∈ table, row.Accepted) : ∀ {vars : List VarAttr} {rs : List ResVar}
    {p : Nat}, asSetMethodForVars table vars = some rs → InOrder n p vars →
    InOrder n p (rs.map ResVar.toVarAttr) ∧ ∀ r ∈ rs, r.Accepted := by
  intro vars
  induction vars with
  | nil =>
      intro rs p h ho
      rw [asSetMethodForVars, List.mapM_nil] at h
      cases h
      exact ⟨ho, fun _ hr => nomatch hr⟩
  | cons v vs ih =>
      intro rs p h ho
      rw [asSetMethodForVars, List.mapM_cons] at h
      obtain ⟨r, hr, h⟩ := Option.bind_eq_some_iff.1 h
      obtain ⟨rs', hrs, h⟩ := Option.bind_eq_some_iff.1 h
      cases h
      obtain ⟨⟨row, hrow, hsource⟩, hpos, hlen⟩ := asSetMethodForVar_some hr
      obtain ⟨hin, hacc⟩ := ih hrs ho.2
      refine ⟨⟨?_, ?_⟩, ?_⟩
      · rw [hpos]
        exact ho.1
      · rw [hpos, hlen]
        exact hin
      · intro u hu
        rcases List.mem_cons.1 hu with rfl | hu
        · rw [hsource]
          exact htable row hrow
        · exact hacc u hu

theorem loadTemplate_loaded {dir : TemplateDir} {table : List TemplateTable} {tn : Bytes}
    {t : Template × ResTemplate} (htable : ∀ row ∈ table, row.Accepted)
    (h : loadTemplate dir table tn = some t) : t.2.Loaded := by
  simp only [loadTemplate, Option.bind_eq_bind, Option.bind_eq_some_iff] at h
  obtain ⟨_, -, _, -, _, -, res, hres, vars, hvars, h⟩ := h
  cases h
  obtain ⟨hnul, ho⟩ := tempLoadResFile_spec hres
  obtain ⟨hin, hacc⟩ := asSetMethodForVars_loaded htable hvars ho
  exact ⟨hnul, hin, hacc⟩

theorem forall₂_of_mapM {α β : Type} {f : α → Option β} : ∀ {xs : List α} {ys : List β},
    xs.mapM f = some ys → List.Forall₂ (fun x y => f x = some y) xs ys := by
  intro xs
  induction xs with
  | nil =>
      intro ys h
      cases h
      exact .nil
  | cons x xs ih =>
      intro ys h
      rw [List.mapM_cons] at h
      obtain ⟨y, hy, h⟩ := Option.bind_eq_some_iff.1 h
      obtain ⟨ys, hys, h⟩ := Option.bind_eq_some_iff.1 h
      cases h
      exact .cons hy (ih hys)

theorem exists_of_mem_mapM {α β : Type} {f : α → Option β} {xs : List α} {ys : List β}
    {y : β} (h : xs.mapM f = some ys) (hy : y ∈ ys) : ∃ x ∈ xs, f x = some y := by
  obtain ⟨i, hi, rfl⟩ := List.getElem_of_mem hy
  have hall := forall₂_of_mapM h
  have hix : i < xs.length := by
    rw [hall.length_eq]
    exact hi
  exact ⟨xs[i], List.getElem_mem hix, hall.get hix hi⟩

theorem isSome_mapM {α β : Type} {f : α → Option β} {xs : List α} :
    (xs.mapM f).isSome ↔ ∀ x ∈ xs, (f x).isSome := by
  induction xs with
  | nil => simp
  | cons x xs ih =>
      rw [List.mapM_cons, List.forall_mem_cons, ← ih]
      cases f x with
      | none => simp
      | some y => cases xs.mapM f <;> simp

/-- Every result text of a loaded set is as it should be, also the empty one of
a template that is not loaded. -/
theorem templateLoad_loaded {n : Nat} {dir : TemplateDir} {set : TemplateSet}
    (h : templateLoad n dir = some set) (i : Nat) : (set.res i).Loaded := by
  simp only [templateLoad, Option.bind_eq_bind, Option.bind_eq_some_iff] at h
  obtain ⟨table, htable, names, -, tpls, htpls, h⟩ := h
  cases h
  cases hi : tpls[i]? with
  | none =>
      simp only [hi, Option.map_none, Option.getD_none]
      exact ⟨fun _ hb => (nomatch hb), Nat.le_refl 0, fun _ hv => (nomatch hv)⟩
  | some t =>
      simp only [hi, Option.map_some, Option.getD_some]
      obtain ⟨tn, -, ht⟩ := exists_of_mem_mapM htpls (List.mem_of_getElem? hi)
      exact loadTemplate_loaded (asLoadTemplateVarTable_accepted htable) ht

end UiServer
