import UiServer.Lib.Replace
import UiServer.Proofs.Scan
import UiServer.Proofs.Shown

/-!
# From the template files to the page

A template is loaded by looking for its variables, and a page is rendered by copying
what stands between them. Put together, the page is the text of the file with its
variables replaced, from left to right and as many as there is room for: nothing of the
positions on the way is left in the statement (`tempMakePage_replaces`). The results in
it are the text of the result file in turn, each variable replaced by the value that the
table gives for its name.
-/

namespace UiServer

open CMem

/-! ## The pieces of a text

A text is cut at its tokens by positions when it is loaded, and by the scan when
its tokens are replaced. The two cut it into other stretches, but what is built of
them is the same, which is what `Same` says of pieces. -/

theorem drop_take_split {text : Bytes} {q p n : Nat} (hqp : q ≤ p) (hpn : p ≤ n)
    (hn : n ≤ text.length) :
    (text.take n).drop q = (text.take p).drop q ++ (text.take n).drop p := by
  have hlen : ((text.take n).take p).length = p := by
    rw [List.length_take, List.length_take]
    omega
  have hsplit := congrArg (List.drop q) (List.take_append_drop p (text.take n))
  rw [List.drop_append_of_le_length (by omega), List.take_take, Nat.min_eq_left hpn] at hsplit
  exact hsplit.symm

/-- What stands in front of the variables may be cut anywhere. -/
theorem same_contentPieces {pieces : VarAttr → List Piece} {text : Bytes} {vs : List VarAttr}
    {q p : Nat} (hqp : q ≤ p) (hp : p ≤ text.length)
    (hvs : ∀ v ∈ vs, p ≤ v.pos ∧ v.pos ≤ text.length) :
    Same (contentPieces pieces text vs q)
      (.text ((text.take p).drop q) :: contentPieces pieces text vs p) := by
  cases vs with
  | nil =>
      have hsplit := drop_take_split hqp hp (Nat.le_refl _)
      rw [List.take_length] at hsplit
      rw [contentPieces, contentPieces, hsplit]
      exact same_split _ _
  | cons v vs =>
      obtain ⟨hpv, hv⟩ := hvs v List.mem_cons_self
      rw [contentPieces, contentPieces, drop_take_split hqp hpv hv]
      exact same_split _ _

section

variable {tok : Bytes → Option (Nat × Nat)} {attr : Tokens.Token Nat → VarAttr}
  (hp : Tokens.Proper tok)
  (hattr : ∀ t, (attr t).pos = t.pos ∧ (attr t).len = t.len ∧ (attr t).id = t.val)

include hp

theorem scan_le {s : Bytes} {p : Nat} {t : Tokens.Token Nat} (ht : t ∈ Tokens.scan tok 0 p s) :
    p ≤ t.pos ∧ t.pos ≤ p + s.length := by
  have hge := Tokens.scan_ge ht
  obtain ⟨hpos, hle⟩ := hp (Tokens.sound ht)
  rw [List.length_drop] at hle
  omega

include hattr

/-- The pieces that the tokens cut a text into come to the text with its tokens
replaced. -/
theorem contentPieces_replace (value : Nat → List Piece) (text : Bytes) : ∀ {k p : Nat}
    {s : Bytes} (room : Nat), s.length ≤ k → p + s.length = text.length → text.drop p = s →
    Same (contentPieces (fun v => value v.id) text
        (((Tokens.scan tok 0 p s).take room).map attr) p)
      (Tokens.replace tok value (fun b => .text [b]) room 0 s) := by
  intro k
  induction k with
  | zero =>
      intro p s room hk _ hs
      obtain rfl := List.eq_nil_of_length_eq_zero (Nat.le_zero.1 hk)
      rw [Tokens.scan, List.take_nil, List.map_nil, contentPieces, hs]
      cases room <;> exact same_nil
  | succ k ih =>
      intro p s room hk hlen hs
      cases room with
      | zero =>
          rw [List.take_zero, List.map_nil, contentPieces, hs, Tokens.replace_full]
          exact same_bytes s
      | succ room =>
          cases s with
          | nil => exact ih (room + 1) (Nat.zero_le k) hlen hs
          | cons a s =>
              rw [List.length_cons] at hk hlen
              have hnext : text.drop (p + 1) = s := by
                rw [← List.drop_drop, hs, List.drop_succ_cons, List.drop_zero]
              cases htok : tok (a :: s) with
              | none =>
                  have hscan : Tokens.scan tok 0 p (a :: s) = Tokens.scan tok 0 (p + 1) s := by
                    simp only [Tokens.scan, htok]
                  have hhead : (text.take (p + 1)).drop p = [a] := by
                    rw [List.drop_take, hs, Nat.add_sub_cancel_left]
                    rfl
                  rw [hscan, Tokens.replace_none htok]
                  refine (same_contentPieces (Nat.le_succ p) (by omega) ?_).trans ?_
                  · intro v hv
                    obtain ⟨t, ht, rfl⟩ := List.mem_map.1 hv
                    have hle := scan_le hp (List.mem_of_mem_take ht)
                    have hpos := (hattr t).1
                    omega
                  · rw [hhead]
                    exact (ih (room + 1) (by omega) (by omega) hnext).cons _
              | some found =>
                  obtain ⟨n, i⟩ := found
                  obtain ⟨hpos, hle⟩ := hp htok
                  obtain ⟨hp', hl', hi'⟩ := hattr ⟨p, n, i⟩
                  have hrest : text.drop (p + n) = (a :: s).drop n := by
                    rw [← List.drop_drop, hs]
                  have hempty : (text.take p).drop p = [] := by
                    rw [List.drop_take, Nat.sub_self, List.take_zero]
                  rw [Tokens.scan_some htok hp, List.take_succ_cons, List.map_cons, contentPieces,
                    Tokens.replace_some hp htok, hp', hl', hi', hempty]
                  refine same_nil.trans ((Same.refl _).append (ih room ?_ ?_ hrest))
                  · rw [List.length_drop, List.length_cons]
                    omega
                  · rw [List.length_cons] at hle
                    rw [List.length_drop, List.length_cons]
                    omega

end

/-- Texts in place of the tokens leave a text. -/
theorem expandFrom_replace {tok : Bytes → Option (Nat × Nat)} {text : Nat → Bytes} :
    ∀ {s : Bytes} {room skip : Nat} {out : Bytes},
      expandFrom out (Tokens.replace tok (fun i => [.text (text i)]) (fun b => .text [b]) room
        skip s) = out ++ Tokens.replace tok text (fun b => b) room skip s := by
  intro s
  induction s with
  | nil =>
      intro room skip out
      cases room <;> cases skip <;> exact (List.append_nil out).symm
  | cons a s ih =>
      intro room skip out
      cases skip with
      | succ skip => cases room <;> exact ih
      | zero =>
          cases room with
          | zero =>
              rw [Tokens.replace, Tokens.replace, expandFrom_cons, ih, Piece.apply,
                List.append_assoc, List.singleton_append]
          | succ room =>
              rw [Tokens.replace, Tokens.replace]
              cases tok (a :: s) with
              | none =>
                  simp only [expandFrom_cons, ih, Piece.apply, List.append_assoc,
                    List.singleton_append]
              | some found =>
                  simp only [List.singleton_append, expandFrom_cons, ih, Piece.apply,
                    List.append_assoc]

/-! ## What is loaded of a file

A file that was loaded was shorter than its buffer, so it is there as it is, and
its variables are the first tokens of it. -/

theorem readContent_lt {maxLen : Nat} : ∀ {fuel : Nat} {s text t : Bytes}, NulFree s →
    s.length ≤ fuel → text.length < maxLen → readContent maxLen fuel s text = some t →
    text.length + s.length < maxLen := by
  intro fuel
  induction fuel with
  | zero =>
      intro s text t _ hfuel hlt _
      omega
  | succ fuel ih =>
      intro s text t hnul hfuel hlt h
      cases s with
      | nil => exact hlt
      | cons c s =>
          have hsplit := fgets_append (n := 1023) (s := c :: s)
          have hpos : 0 < (fgets 1023 (c :: s)).1.length := fgets_length (List.cons_ne_nil c s)
          have hall := congrArg List.length hsplit
          rw [List.length_append] at hall
          have hline : NulFree (fgets 1023 (c :: s)).1 := fun b hb =>
            hnul b (hsplit ▸ List.mem_append_left _ hb)
          have hrest : NulFree (fgets 1023 (c :: s)).2 := fun b hb =>
            hnul b (hsplit ▸ List.mem_append_right _ hb)
          simp only [readContent, cstr_of_nulFree hline] at h
          split at h
          · cases h
          · next hroom =>
              have hlen := ih hrest (by omega) (by omega) h
              rw [List.length_append] at hlen
              omega

/-- A file that was loaded is in memory as it is. -/
theorem readContent_whole {maxLen : Nat} (hmax : 0 < maxLen) {file t : Bytes}
    (hnul : NulFree file) (h : readContent maxLen file.length file [] = some t) : t = file := by
  have hlt := readContent_lt hnul (Nat.le_refl _) (by exact hmax) h
  have heq := @readContent_eq maxLen _ file [] hnul (Nat.le_refl _) hlt
  rw [heq] at h
  exact (Option.some.inj h).symm

theorem content_load {file : Bytes} {c : Content} (hnul : NulFree file)
    (h : Content.load (some file) = some c) :
    c.text = file ∧
      c.vars = ((tokensFrom (ascii "$ui") uivar file 0).take maxVarsNum).map uiAttr := by
  have hload : tempLoadContentFile (some file) = some (c.text, c.vars) := by
    rw [Content.load] at h
    split at h
    · cases h
    · next text vars hload =>
        cases h
        exact hload
  simp only [tempLoadContentFile] at hload
  split at hload
  · cases hload
  · next text htext =>
      have hwhole := readContent_whole (by decide) hnul htext
      rw [hwhole, parseContent_eq hnul (by omega) (Nat.zero_le _)] at hload
      obtain ⟨hfile, hvars⟩ := Prod.mk.inj (Option.some.inj hload)
      exact ⟨hfile.symm, hvars.symm⟩

theorem resFile_load {file : Bytes} {r : ResScan} (hnul : NulFree file) (hmis : NotMisled file)
    (h : tempLoadResFile (some file) = some r) :
    r.text = file ∧ r.vars = ((resTokensFrom file 0).take maxVarsNum).map resAttr := by
  simp only [tempLoadResFile] at h
  split at h
  · cases h
  · next text htext =>
      have hwhole := readContent_whole (by decide) hnul htext
      rw [hwhole] at h
      cases h
      have hmisled : NotMisledFrom file 0 0 := by
        intro q e _ hd he hclose hroom
        rw [Nat.zero_add] at hroom
        exact hmis q e hd he hclose hroom
      have hg := (@parseRes_iff file (file.length + 1) 0 0 hnul (by omega)
        (Nat.zero_le _)).2 hmisled
      exact ⟨hg.restored, hg.vars⟩

/-! ## The values of the result variables

A variable is joined with the row of its name, and its value is found by the row's
words alone. So the value belongs to the name, and the text of a result is the
file with a value in the place of each name. -/

/-- What the table makes of the variable with this number. -/
def rowText (a : ResArgs) (table : List TemplateTable) (i : Nat) : Option Bytes :=
  (asSetMethodForVar table (resAttr ⟨0, 0, i⟩)).bind (valueText a)

/-- Two fetches of one string agree, or both read past the node. -/
theorem fetchStr_source {a b : ResArgs} {v w : ResVar} {n : Nat}
    (f : ResultNode → Fin 4 → CString n) (hidx : v.fromIdIdx = w.fromIdIdx)
    (hnode : a.node = b.node) : fetchStr a v f = fetchStr b w f ∨
      ∃ s t, fetchStr a v f = .stray s ∧ fetchStr b w f = .stray t := by
  simp only [fetchStr, hnode, hidx]
  cases b.node with
  | none => exact Or.inl rfl
  | some node =>
      by_cases hin : 0 ≤ w.fromIdIdx ∧ w.fromIdIdx < 4
      · simp [hin]
      · simp [hin]

/-- A value is found by the words of the row alone. -/
theorem valueText_source {a b : ResArgs} {v w : ResVar} (hsource : v.toVarSource = w.toVarSource)
    (hnode : a.node = b.node) (hhead : a.head = b.head) (hconf : a.conf = b.conf)
    (hlibc : a.libc = b.libc) : valueText a v = valueText b w := by
  have htype : v.fromFieldType = w.fromFieldType := congrArg VarSource.fromFieldType hsource
  have hid : v.fromId = w.fromId := congrArg VarSource.fromId hsource
  have hidx : v.fromIdIdx = w.fromIdIdx := congrArg VarSource.fromIdIdx hsource
  have hmethod : v.transMethodId = w.transMethodId := congrArg VarSource.transMethodId hsource
  rw [valueText, valueText, htype]
  cases w.fromFieldType with
  | fieldTypeUint =>
      simp only [fetchUint, hid, hnode, hhead, hconf, hlibc, hmethod]
      cases w.fromId <;> rfl
  | fieldTypeChar =>
      simp only [fetchChar, hid, hnode, hconf, hmethod]
      cases w.fromId with
      | resultNodeShortAttr =>
          obtain heq | ⟨s, t, hs, ht⟩ := fetchStr_source ResultNode.shortStr hidx hnode
          · simp only [heq]
          · simp only [hs, ht]
      | resultNodeLongAttr =>
          obtain heq | ⟨s, t, hs, ht⟩ := fetchStr_source ResultNode.longStr hidx hnode
          · simp only [heq]
          · simp only [hs, ht]
      | _ => rfl
  | _ => rfl

theorem valueText_rowText {a b : ResArgs} {table : List TemplateTable} {t : Tokens.Token Nat}
    {v : ResVar} (h : asSetMethodForVar table (resAttr t) = some v) (hnode : a.node = b.node)
    (hhead : a.head = b.head) (hconf : a.conf = b.conf) (hlibc : a.libc = b.libc) :
    valueText a v = rowText b table t.val := by
  rw [asSetMethodForVar, Option.map_eq_some_iff] at h
  obtain ⟨row, hrow, rfl⟩ := h
  rw [rowText, asSetMethodForVar]
  have hname : (resAttr ⟨0, 0, t.val⟩).name = (resAttr t).name := rfl
  rw [hname, hrow]
  exact valueText_source rfl hnode hhead hconf hlibc

/-- The text of a result is its file with the variables replaced. -/
def replacedResult (a : ResArgs) (table : List TemplateTable) (file : Bytes) : Bytes :=
  Tokens.replace (varToken (ascii "$res") resvar) (fun i => (rowText a table i).getD [])
    (fun b => b) maxVarsNum 0 file

theorem resText_pieces (text : Bytes) {a b : ResArgs} {table : List TemplateTable}
    (hnode : a.node = b.node) (hhead : a.head = b.head) (hconf : a.conf = b.conf)
    (hlibc : a.libc = b.libc) : ∀ {toks : List (Tokens.Token Nat)} {vs : List ResVar} {p : Nat},
    asSetMethodForVars table (toks.map resAttr) = some vs →
    (∀ t ∈ toks, (rowText b table t.val).isSome) →
    ∃ r, resText a text vs p = some r ∧ ∀ out, expandFrom out
      (contentPieces (fun v => [.text ((rowText b table v.id).getD [])]) text
        (toks.map resAttr) p) = out ++ r := by
  intro toks
  induction toks with
  | nil =>
      intro vs p h _
      cases h
      exact ⟨text.drop p, rfl, fun out => rfl⟩
  | cons t toks ih =>
      intro vs p h hsome
      rw [asSetMethodForVars, List.map_cons, List.mapM_cons] at h
      obtain ⟨v, hv, h⟩ := Option.bind_eq_some_iff.1 h
      obtain ⟨vs', hvs, h⟩ := Option.bind_eq_some_iff.1 h
      cases h
      obtain ⟨hhere, hthere⟩ := List.forall_mem_cons.1 hsome
      obtain ⟨value, hvalue⟩ := Option.isSome_iff_exists.1 hhere
      obtain ⟨-, hpos, hlen⟩ := asSetMethodForVar_some hv
      obtain ⟨r, hr, hpieces⟩ := ih (p := v.pos + v.len) hvs hthere
      refine ⟨(text.take v.pos).drop p ++ value ++ r, ?_, fun out => ?_⟩
      · rw [resText, valueText_rowText hv hnode hhead hconf hlibc, hvalue, hr]
        rfl
      · have hid : (resAttr t).id = t.val := rfl
        rw [hpos, hlen] at hpieces
        rw [List.map_cons, contentPieces, hid, hvalue, expandFrom_cons, List.singleton_append,
          expandFrom_cons, hpieces, hpos]
        simp only [Piece.apply, Option.getD_some, List.append_assoc]

theorem resText_replaced {a b : ResArgs} {table : List TemplateTable} {file : Bytes}
    (hnode : a.node = b.node) (hhead : a.head = b.head) (hconf : a.conf = b.conf)
    (hlibc : a.libc = b.libc) {vs : List ResVar}
    (h : asSetMethodForVars table (((resTokensFrom file 0).take maxVarsNum).map resAttr) =
      some vs)
    (hsome : ∀ t ∈ (resTokensFrom file 0).take maxVarsNum, (rowText b table t.val).isSome) :
    resText a file vs 0 = some (replacedResult b table file) := by
  obtain ⟨r, hr, hpieces⟩ := resText_pieces file (p := 0) hnode hhead hconf hlibc h hsome
  have hattr : ∀ t, (resAttr t).pos = t.pos ∧ (resAttr t).len = t.len ∧ (resAttr t).id = t.val :=
    fun t => ⟨rfl, rfl, rfl⟩
  have hsame := contentPieces_replace (varToken_proper (ascii "$res") resvar) hattr
    (fun i => [.text ((rowText b table i).getD [])]) file (p := 0) maxVarsNum (Nat.le_refl _)
    (Nat.zero_add _) rfl
  have hout := hsame.expands []
  rw [expandFrom_replace, List.nil_append] at hout
  rw [hr, ← List.nil_append r, ← hpieces []]
  exact congrArg some hout

/-! ## The page

Put together: the file that was chosen, the tokens of it, what each of them stands
for, and the results out of their own file. The positions that the loader has
recorded do not come into the statement. -/

/-- What the variable with this number stands for. -/
def pageValue (results : List Bytes) (up : UpstreamRequest) (resp : UpstreamResponse)
    (pageCount : Nat) (i : Nat) : List Piece :=
  shownPieces results up resp pageCount ⟨0, 0, i, []⟩

/-- A page is its file with the variables replaced. -/
def replacedPage (results : List Bytes) (up : UpstreamRequest) (resp : UpstreamResponse)
    (file : Bytes) : List Piece :=
  let (pageCount, up) := clampRequest up resp.head.totalNum
  Tokens.replace (varToken (ascii "$ui") uivar) (pageValue results up resp pageCount)
    (fun b => .text [b]) maxVarsNum 0 file

/-- The file that the page is made of. -/
def chosenFile (dir : TemplateDir) (tn : Bytes) (iserr : Int) (returnNum : UInt32) :
    Option Bytes :=
  if 0 < iserr then dir.err tn else if returnNum = 0 then dir.none tn else dir.page tn

theorem templateLoad_get {n : Nat} {dir : TemplateDir} {set : TemplateSet}
    (h : templateLoad n dir = some set) {index : Nat} {tn : Bytes}
    (hindex : set.handle.tn[index]? = some tn) :
    ∃ table, asLoadTemplateVarTable dir.table = some table ∧
      loadTemplate dir table tn = some (set.handle.tpl index, set.res index) := by
  simp only [templateLoad, Option.bind_eq_bind, Option.bind_eq_some_iff] at h
  obtain ⟨table, htable, names, -, tpls, htpls, h⟩ := h
  cases h
  refine ⟨table, htable, ?_⟩
  obtain ⟨hlt, hget⟩ := List.getElem?_eq_some_iff.1 hindex
  have hall := forall₂_of_mapM htpls
  have hlt' : index < tpls.length := by
    rw [← hall.length_eq]
    exact hlt
  have hload := hall.get hlt hlt'
  rw [List.get_eq_getElem, List.get_eq_getElem, hget] at hload
  simp only [List.getElem?_eq_getElem hlt', Option.map_some, Option.getD_some, hload]

theorem loadTemplate_parts {dir : TemplateDir} {table : List TemplateTable} {tn : Bytes}
    {t : Template} {r : ResTemplate} (h : loadTemplate dir table tn = some (t, r)) :
    Content.load (dir.page tn) = some t.page ∧ Content.load (dir.none tn) = some t.none ∧
      Content.load (dir.err tn) = some t.err ∧ r.conf = dir.conf tn ∧
      ∃ scan, tempLoadResFile (dir.res tn) = some scan ∧ r.text = scan.text ∧
        asSetMethodForVars table scan.vars = some r.vars := by
  simp only [loadTemplate, Option.bind_eq_bind, Option.bind_eq_some_iff] at h
  obtain ⟨page, hpage, none, hnone, err, herr, scan, hscan, vars, hvars, h⟩ := h
  cases h
  exact ⟨hpage, hnone, herr, rfl, scan, hscan, rfl, hvars⟩

theorem chooseContent_load {dir : TemplateDir} {tn : Bytes} {t : Template}
    (hpage : Content.load (dir.page tn) = some t.page)
    (hnone : Content.load (dir.none tn) = some t.none)
    (herr : Content.load (dir.err tn) = some t.err) (iserr : Int) (returnNum : UInt32) :
    Content.load (chosenFile dir tn iserr returnNum) =
      some (chooseContent t iserr returnNum) := by
  rw [chosenFile, chooseContent]
  split
  · exact herr
  · split
    · exact hnone
    · exact hpage

/-- What the results of a page are rendered with: there is no result behind the pointer. -/
def resultArgs (dir : TemplateDir) (tn : Bytes) (libc : Libc) (stray : Stray)
    (head : UpstreamResponseHead) : ResArgs :=
  ⟨none, head, dir.conf tn, libc, stray⟩

def replacedResults (a : ResArgs) (table : List TemplateTable) (file : Bytes) : List Bytes :=
  List.replicate a.head.returnNum.toNat (replacedResult a table file)

theorem resultTexts_replaced {dir : TemplateDir} {tn : Bytes} {libc : Libc}
    {stray : Nat → Stray} {set : TemplateSet} {index : Nat} {head : UpstreamResponseHead}
    {table : List TemplateTable} {file : Bytes} (hconf : (set.res index).conf = dir.conf tn)
    (htext : (set.res index).text = file)
    (hvars : asSetMethodForVars table (((resTokensFrom file 0).take maxVarsNum).map resAttr) =
      some (set.res index).vars)
    (hvalues : ∀ t ∈ (resTokensFrom file 0).take maxVarsNum,
      (rowText (resultArgs dir tn libc (stray 0) head) table t.val).isSome)
    (hitoa : ∀ t ∈ (resTokensFrom file 0).take maxVarsNum, ∀ v,
      asSetMethodForVar table (resAttr t) = some v → v.ItoaFits head.totalNum) :
    ResultTexts set libc stray index head
      (replacedResults (resultArgs dir tn libc (stray 0) head) table file) := by
  have hone := fun k => resText_replaced
    (a := ⟨none, head, (set.res index).conf, libc, stray k⟩)
    (b := resultArgs dir tn libc (stray 0) head) rfl rfl hconf rfl hvars hvalues
  refine ⟨List.forall₂_iff_get.2 ⟨?_, fun k hk hk' => ?_⟩, fun v hv => ?_⟩
  · rw [List.length_range, replacedResults, List.length_replicate]
    rfl
  · rw [htext, hone]
    simp only [replacedResults, List.get_eq_getElem, List.getElem_replicate]
  · obtain ⟨attr, hattr, hset⟩ := exists_of_mem_mapM hvars hv
    obtain ⟨t, ht, rfl⟩ := List.mem_map.1 hattr
    exact hitoa t ht v hset

theorem same_replacedPage {results : List Bytes} {up : UpstreamRequest} {resp : UpstreamResponse}
    {file : Bytes} {c : Content} (htext : c.text = file)
    (hvars : c.vars = ((tokensFrom (ascii "$ui") uivar file 0).take maxVarsNum).map uiAttr) :
    Same (contentPieces (shownPieces results (clampRequest up resp.head.totalNum).2 resp
        (clampRequest up resp.head.totalNum).1) c.text c.vars 0)
      (replacedPage results up resp file) := by
  rw [htext, hvars]
  exact contentPieces_replace (varToken_proper (ascii "$ui") uivar) (fun t => ⟨rfl, rfl, rfl⟩)
    (pageValue results (clampRequest up resp.head.totalNum).2 resp
      (clampRequest up resp.head.totalNum).1) file maxVarsNum (Nat.le_refl _)
    (Nat.zero_add _) rfl

/-- The files that a page is made of: no stray `$` of the result file misleads the scan,
and each variable of it has a value that C can convert. -/
structure Renderable (dir : TemplateDir) (table : List TemplateTable) (tn : Bytes) (libc : Libc)
    (stray : Stray) (head : UpstreamResponseHead) (iserr : Int) (file res : Bytes) : Prop where
  tableFile : asLoadTemplateVarTable dir.table = some table
  pageFile : chosenFile dir tn iserr head.returnNum = some file
  pageNul : NulFree file
  resFile : dir.res tn = some res
  resNul : NulFree res
  notMisled : NotMisled res
  values : ∀ t ∈ (resTokensFrom res 0).take maxVarsNum,
    (rowText (resultArgs dir tn libc stray head) table t.val).isSome
  itoa : ∀ t ∈ (resTokensFrom res 0).take maxVarsNum, ∀ v,
    asSetMethodForVar table (resAttr t) = some v → v.ItoaFits head.totalNum

/-- The file with its variables replaced, where the results are the result file with its
own replaced. -/
def renderedPage (a : ResArgs) (table : List TemplateTable) (file res : Bytes)
    (up : UpstreamRequest) (resp : UpstreamResponse) : List Piece :=
  replacedPage (replacedResults a table res) up resp file

section

variable {n : Nat} {dir : TemplateDir} {set : TemplateSet} {libc : Libc} {stray : Nat → Stray}
  {table : List TemplateTable} {index : Nat} {tn : Bytes} {iserr : Int} {up : UpstreamRequest}
  {resp : UpstreamResponse} {file res : Bytes}

theorem Renderable.shown
    (h : Renderable dir table tn libc (stray 0) resp.head iserr file res)
    (hload : templateLoad n dir = some set) (htn : set.handle.tn[index]? = some tn)
    (up : UpstreamRequest) {results : List Bytes}
    (hresults : results =
      replacedResults (resultArgs dir tn libc (stray 0) resp.head) table res) :
    ResultTexts set libc stray index resp.head results ∧
      Same (shownPage set.handle results index up resp iserr) (replacedPage results up resp file) := by
  obtain ⟨table', htable, htemplate⟩ := templateLoad_get hload htn
  rw [h.tableFile] at htable
  cases htable
  obtain ⟨hpage, hnone, herr, hconf, scan, hscan, htext, hvars⟩ := loadTemplate_parts htemplate
  have hcontent := chooseContent_load hpage hnone herr iserr resp.head.returnNum
  rw [h.pageFile] at hcontent
  obtain ⟨hctext, hcvars⟩ := content_load h.pageNul hcontent
  rw [h.resFile] at hscan
  obtain ⟨hstext, hsvars⟩ := resFile_load h.resNul h.notMisled hscan
  rw [hsvars] at hvars
  have hlt : index < set.handle.tn.length := (List.getElem?_eq_some_iff.1 htn).1
  have hindex : chooseIndex set.handle index iserr = (index, iserr) := by
    rw [chooseIndex, if_neg (by omega), Int.toNat_natCast]
  refine ⟨?_, ?_⟩
  · rw [hresults]
    exact resultTexts_replaced hconf (htext.trans hstext) hvars h.values h.itoa
  · rw [shownPage, hindex]
    exact same_replacedPage hctext hcvars

/-- With two bytes to spare, the page is its file with the variables replaced, and the
results in it are the result file with its own replaced. -/
theorem tempMakePage_replaces (hload : set.LoadedFrom n dir)
    (htn : set.handle.tn[index]? = some tn)
    (h : Renderable dir table tn libc (stray 0) resp.head iserr file res)
    (hbody : resp.len.toNat < 2 ^ 31) {room : Nat}
    (hfit : ¬ Overflows room
      (renderedPage (resultArgs dir tn libc (stray 0) resp.head) table file res up resp))
    (page : Mem) (web : WebRequest) :
    let made := tempMakePage set.handle (resultsOf set libc stray) index page (room + 2) web up
      resp iserr
    let text := expand
      (renderedPage (resultArgs dir tn libc (stray 0) resp.head) table file res up resp)
    made.ret = text.length ∧ read made.page 0 text.length = text ∧ made.page text.length = 0 := by
  obtain ⟨htexts, hsame⟩ := h.shown hload.load htn up rfl
  have hlt : index < set.handle.tn.length := (List.getElem?_eq_some_iff.1 htn).1
  have hindex : chooseIndex set.handle index iserr = (index, iserr) := by
    rw [chooseIndex, if_neg (by omega), Int.toNat_natCast]
  rw [shownPage, hindex] at hsame
  have hshows := makePage_shows
    (a := ⟨room + 2, index, web, (clampRequest up resp.head.totalNum).2, resp,
      (clampRequest up resp.head.totalNum).1, resultsOf set libc stray⟩)
    room page rfl rfl (templateLoad_loaded hload.load index) hbody htexts
    (c := chooseContent (set.handle.tpl index) iserr resp.head.returnNum)
    (fun ho => hfit ((hsame.overflows room []).1 ho))
  have hexpand := hsame.expands []
  simp only [expand, hexpand] at hshows
  simp only [tempMakePage, hindex]
  exact hshows

end

/-- A page with a variable of its own in front of the results. -/
def typedDir : TemplateDir :=
  { oneTemplate "resID=result_head_total_num=0=uint_to_uint" "<i>$resID$</i>" with
    page := fun _ => some (ascii "$uiType$: $uiResults$.") }

def typedSet : TemplateSet := (templateLoad 8 typedDir).get (by decide +kernel)

def typedTable : List TemplateTable :=
  (asLoadTemplateVarTable typedDir.table).get (by decide +kernel)

theorem notMisled_typed : NotMisled (ascii "<i>$resID$</i>") := by
  have hnul : NulFree (ascii "<i>$resID$</i>") := by decide +kernel
  have hgreedy : ResGreedyFrom (ascii "<i>$resID$</i>") 0 0
      (parseRes 15 (ascii "<i>$resID$</i>") 0 0) :=
    ⟨by decide +kernel, by decide +kernel, by decide +kernel⟩
  have hfrom := (@parseRes_iff _ 15 0 0 hnul (by decide) (Nat.zero_le _)).1 hgreedy
  intro q e hd he hclose hroom
  exact hfrom q e (Nat.zero_le q) hd he hclose (by omega)

def typedArgs : ResArgs := resultArgs typedDir (ascii "1") epochLibc .zero twoBare.head

theorem renderable_typed : Renderable typedDir typedTable (ascii "1") epochLibc .zero
    twoBare.head 0 (ascii "$uiType$: $uiResults$.") (ascii "<i>$resID$</i>") where
  tableFile := (Option.some_get _).symm
  pageFile := rfl
  pageNul := by decide +kernel
  resFile := rfl
  resNul := by decide +kernel
  notMisled := notMisled_typed
  values := by decide +kernel
  itoa := fun _ _ _ _ _ _ => by decide

theorem renderedPage_typed :
    renderedPage typedArgs typedTable (ascii "$uiType$: $uiResults$.") (ascii "<i>$resID$</i>")
        emptyRequest twoBare =
      (["0", ":", " ", "<i>2</i>", "<i>2</i>", "."].map ascii).map .text := by
  decide +kernel

/-- The type of the answer and its two results are on the page. -/
theorem tempMakePage_replaces_typed :
    let made := tempMakePage typedSet.handle (resultsOf typedSet epochLibc fun _ => .zero) 0
      (fun _ => 60) (30 + 2) ⟨fun _ => 0⟩ emptyRequest twoBare 0
    made.ret = 20 ∧ read made.page 0 20 = ascii "0: <i>2</i><i>2</i>." ∧ made.page 20 = 0 := by
  have hload : typedSet.LoadedFrom 8 typedDir := ⟨(Option.some_get _).symm, by decide +kernel⟩
  have hfit : ¬ Overflows 30 (renderedPage typedArgs typedTable (ascii "$uiType$: $uiResults$.")
      (ascii "<i>$resID$</i>") emptyRequest twoBare) := by
    rw [renderedPage_typed]
    refine fun ho => absurd (overflowsFrom_texts ho) ?_
    simp only [OverflowsFrom, Piece.apply]
    decide +kernel
  have h := @tempMakePage_replaces 8 typedDir typedSet epochLibc (fun _ => .zero) typedTable 0
    (ascii "1") 0 emptyRequest twoBare _ _ hload (by decide +kernel) renderable_typed (by decide)
    30 hfit (fun _ => 60) ⟨fun _ => 0⟩
  have hargs : resultArgs typedDir (ascii "1") epochLibc .zero twoBare.head = typedArgs := rfl
  rw [hargs, renderedPage_typed] at h
  exact h

end UiServer
