import UiServer.Template.Table

/-!
# The rows that result variables get

`as_set_method_for_vars` joins the variables of a result text with the rows of the
table by name. It succeeds exactly when every name has a row, and the words come
from the first one. With them comes the row's `id`, which the loader of the table
never sets: behind it every variable passes for the first of `resvar`
(`methods_right_iff`).
-/

namespace UiServer

open CMem

/-! ## Where the ids come from

The parser of a result text records each variable with the place of its name in
`resvar`. The loader of the table parses a row without looking its name up, and
leaves its id zero. -/

theorem tableRow_id {line : Bytes} {row : TemplateTable} (h : tableRow line = .row row) :
    row.id = 0 := by
  rw [tableRow] at h
  split at h
  · cases h
  · split at h
    · cases h
    · split at h
      · cases h
      · split at h
        · split at h
          · cases h
          · next hvalid =>
              cases h
              simp only [asTemplateVarValid] at hvalid
              split at hvalid
              · cases hvalid
              · split at hvalid
                · cases hvalid
                · cases hvalid
                  rfl
        · cases h

/-- The parser records each variable under its own name. -/
theorem parseRes_named : ∀ (fuel : Nat) (text : Bytes) (pstart num : Nat),
    ∀ v ∈ (parseRes fuel text pstart num).vars, v.name = resVarName v.id := by
  intro fuel
  induction fuel with
  | zero => intro text pstart num v hv; cases hv
  | succ fuel ih =>
      intro text pstart num v hv
      rw [parseRes] at hv
      split at hv
      · cases hv
      · split at hv
        · cases hv
        · split at hv
          · cases hv
          · simp only [ResScan.looked] at hv
            split at hv
            · exact ih _ _ _ v hv
            · rcases List.mem_cons.1 hv with rfl | hv
              · rfl
              · exact ih _ _ _ v hv

theorem tempLoadResFile_named {file : Option Bytes} {r : ResScan}
    (h : tempLoadResFile file = some r) : ∀ v ∈ r.vars, v.name = resVarName v.id := by
  cases file with
  | none => cases h
  | some s =>
      simp only [tempLoadResFile] at h
      split at h
      · cases h
      · cases h
        exact parseRes_named _ _ _ _

/-! ## The variables with their rows

The words are right whenever there is a row. The id is copied over with them, so
it is right only for the variable whose place is zero. -/

/-- The variable's name is the row's, without its `$` and in any case. -/
def Names (row : TemplateTable) (v : VarAttr) : Prop :=
  strcasecmpEq (bareName v.name) row.name = true

instance (row : TemplateTable) (v : VarAttr) : Decidable (Names row v) :=
  inferInstanceAs (Decidable (_ = _))

/-- The first row of the table with the variable's name. -/
def FirstRow (table : List TemplateTable) (v : VarAttr) (row : TemplateTable) : Prop :=
  ∃ before after, table = before ++ row :: after ∧ Names row v ∧
    ∀ r ∈ before, ¬ Names r v

/-- Each variable has the words of its first row, and what the parser recorded of
it, with its id still the place of its name in `resvar`. -/
def MethodsRight (table : List TemplateTable) (vars : List VarAttr) : Prop :=
  ((asSetMethodForVars table vars).isSome ↔ ∀ v ∈ vars, ∃ row ∈ table, Names row v) ∧
    ∀ rs, asSetMethodForVars table vars = some rs →
      List.Forall₂ (fun v r => (∃ row, FirstRow table v row ∧
          r.toVarSource = row.toVarSource) ∧ r.toVarAttr = v ∧ r.name = resVarName r.id)
        vars rs

theorem isSome_asSetMethodForVars {table : List TemplateTable} {vars : List VarAttr} :
    (asSetMethodForVars table vars).isSome ↔ ∀ v ∈ vars, ∃ row ∈ table, Names row v := by
  rw [asSetMethodForVars, isSome_mapM]
  refine forall₂_congr fun v _ => ?_
  rw [asSetMethodForVar, Option.isSome_map, List.find?_isSome]
  rfl

/-- The words and the id are those of the first row. -/
theorem asSetMethodForVar_first {table : List TemplateTable} {v : VarAttr} {r : ResVar}
    (h : asSetMethodForVar table v = some r) :
    ∃ row, FirstRow table v row ∧ row ∈ table ∧ r.toVarSource = row.toVarSource ∧
      r.toVarAttr = { v with id := row.id } := by
  obtain ⟨row, hfind, rfl⟩ := Option.map_eq_some_iff.1 h
  obtain ⟨hnames, before, after, htable, hbefore⟩ := List.find?_eq_some_iff_append.1 hfind
  refine ⟨row, ⟨before, after, htable, hnames, fun r hr => ?_⟩,
    List.mem_of_find?_eq_some hfind, rfl, rfl⟩
  have hnot := hbefore r hr
  simpa [Names] using hnot

/-- A loaded table leaves the variables of a loaded result text as they are
exactly when one of them has no row, or all of them are `resTitle`. -/
theorem methods_right_iff {tableFile resFile : Option Bytes} {table : List TemplateTable}
    {r : ResScan} (htable : asLoadTemplateVarTable tableFile = some table)
    (hres : tempLoadResFile resFile = some r) :
    MethodsRight table r.vars ↔
      (∃ v ∈ r.vars, ∀ row ∈ table, ¬ Names row v) ∨ ∀ v ∈ r.vars, v.id = 0 := by
  have hid := asLoadTemplateVarTable_forall (fun _ _ => tableRow_id) htable
  have hname := tempLoadResFile_named hres
  constructor
  · rintro ⟨hsome, hright⟩
    by_cases hall : ∀ v ∈ r.vars, ∃ row ∈ table, Names row v
    · obtain ⟨rs, hrs⟩ := Option.isSome_iff_exists.1 (hsome.2 hall)
      have hzero : List.Forall₂ (fun v _ => v.id = 0 ∧ True) r.vars rs := by
        refine List.Forall₂.mp ?_ (forall₂_of_mapM hrs) (hright rs hrs)
        rintro v u hset ⟨_, hsame, _⟩
        obtain ⟨row, _, hrow, _, hattr⟩ := asSetMethodForVar_first hset
        have hv : v.id = row.id := congrArg VarAttr.id (hsame.symm.trans hattr)
        exact ⟨hv.trans (hid row hrow), trivial⟩
      exact Or.inr ((List.forall₂_and_left _ _).1 hzero).1
    · simp only [not_forall, not_exists, not_and] at hall
      obtain ⟨v, hv, hnone⟩ := hall
      exact Or.inl ⟨v, hv, hnone⟩
  · intro h
    refine ⟨isSome_asSetMethodForVars, fun rs hrs => ?_⟩
    have hzero : ∀ v ∈ r.vars, v.id = 0 ∧ v.name = resVarName v.id := by
      rcases h with ⟨v, hv, hnone⟩ | h
      · obtain ⟨row, hrow, hnames⟩ :=
          isSome_asSetMethodForVars.1 (Option.isSome_iff_exists.2 ⟨rs, hrs⟩) v hv
        exact absurd hnames (hnone row hrow)
      · exact fun v hv => ⟨h v hv, hname v hv⟩
    refine ((List.forall₂_and_left _ _).2 ⟨hzero, forall₂_of_mapM hrs⟩).imp ?_
    rintro v u ⟨⟨hv, hnamed⟩, hset⟩
    obtain ⟨row, hfirst, hrow, hsource, hattr⟩ := asSetMethodForVar_first hset
    have hsame : u.toVarAttr = v := by
      rw [hattr, hid row hrow, ← hv]
    refine ⟨⟨row, hfirst, hsource⟩, hsame, ?_⟩
    show u.toVarAttr.name = resVarName u.toVarAttr.id
    rw [hsame]
    exact hnamed

def titleRows : List TemplateTable :=
  (asLoadTemplateVarTable (some (ascii ("resTitle=result_node_long_attr=0=str_to_str\n" ++
    "resUrl=result_node_long_attr=1=str_to_str")))).get (by decide +kernel)

def scanOf (text : String) (h : (tempLoadResFile (some (ascii text))).isSome) : ResScan :=
  (tempLoadResFile (some (ascii text))).get h

theorem methods_right_iff_title :
    MethodsRight titleRows (scanOf "<i>$resTitle$</i>" (by decide +kernel)).vars :=
  (methods_right_iff (Option.some_get _).symm (Option.some_get _).symm).2
    (Or.inr (by decide +kernel))

/-- `$resUrl$` is the second of `resvar`; its row gives it the `id` of the first. -/
theorem methods_right_fails :
    ((scanOf "$resUrl$" (by decide +kernel)).vars.map VarAttr.id = [1] ∧
      (asSetMethodForVars titleRows (scanOf "$resUrl$" (by decide +kernel)).vars).map
          (List.map fun r => (r.id, r.name)) = some [(0, ascii "$resUrl$")]) ∧
      ¬ ∀ (tableFile resFile : Option Bytes) (table : List TemplateTable) (r : ResScan),
        asLoadTemplateVarTable tableFile = some table →
        tempLoadResFile resFile = some r → MethodsRight table r.vars := by
  refine ⟨by decide +kernel, fun hall => ?_⟩
  let vars := (scanOf "$resUrl$" (by decide +kernel)).vars
  have hright : MethodsRight titleRows vars :=
    hall _ _ _ _ (Option.some_get _).symm (Option.some_get _).symm
  let rs := (asSetMethodForVars titleRows vars).get (by decide +kernel)
  have hsame : List.Forall₂ (· = ·) vars (rs.map ResVar.toVarAttr) :=
    List.forall₂_map_right_iff.2
      ((hright.2 rs (Option.some_get _).symm).imp fun v r h => h.2.1.symm)
  rw [List.forall₂_eq_eq_eq] at hsame
  exact absurd hsame (by decide +kernel)

end UiServer
