import UiServer.Template.Page

/-!
# The page is the expansion of its template

The reference is `pagePieces`: the literal stretches of the chosen text, read
off the positions of its variables, with the text of each variable between
them and a backspace where one is asked for. It knows nothing of cursors or of
room.

The proof has one lemma for each level of the code. A case of the switch
follows the pieces of its variable; the loop follows the pieces of all of
them, by induction on the variables, where the cursor of the code is the
position the reference reads from because the variables stand in order; and
the copy of the rest of the text adds the terminator. Room is never mentioned
again: `Follows` carries it.
-/

namespace UiServer

open CMem

/-- What a variable stands for. Bytes of the body behind a zero count as
zeros; a variable the switch does not handle stands for nothing. -/
def varPieces (up : UpstreamRequest) (resp : UpstreamResponse) (pageCount : Nat)
    (v : VarAttr) : List Piece :=
  match CommonPageVar.ofId v.id with
  | some .uiResStr =>
      [.text (cstr resp.body ++
        List.replicate (resp.len.toNat - (cstr resp.body).length) 0)]
  | some .uiTemplateName => [.text (cstr up.tn)]
  | some .uiType => [.text (fmtD resp.head.data.type)]
  | some .uiWidth => [.text (fmtD resp.head.data.width)]
  | some .uiHeight => [.text (fmtD resp.head.data.height)]
  | some .uiPageNumInt => [.text (decimal up.pageNo.toNat)]
  | some .uiPageNum =>
      [.text ((pageNums up.pageNo.toNat pageCount).flatMap
        (pageNumText up.pageNo.toNat))]
  | some .uiBackspace => [.backspace]
  | _ => []

def contentPieces (pieces : VarAttr → List Piece) (text : Bytes) :
    List VarAttr → Nat → List Piece
  | [], p => [.text (text.drop p)]
  | v :: vs, p =>
      .text ((text.take v.pos).drop p) ::
        (pieces v ++ contentPieces pieces text vs (v.pos + v.len))

def pagePieces (h : TemplateHandle) (index : Int) (up : UpstreamRequest)
    (resp : UpstreamResponse) (iserr : Int) : List Piece :=
  let (index, iserr) := chooseIndex h index iserr
  let (pageCount, up) := clampRequest up resp.head.totalNum
  let c := chooseContent (h.tpl index) iserr resp.head.returnNum
  contentPieces (varPieces up resp pageCount) c.text c.vars 0

/-- The text `temp_make_page` chooses has no `$uiResults$` in it. -/
def NoResults (h : TemplateHandle) (index : Int) (resp : UpstreamResponse)
    (iserr : Int) : Prop :=
  let (index, iserr) := chooseIndex h index iserr
  ∀ v ∈ (chooseContent (h.tpl index) iserr resp.head.returnNum).vars,
    CommonPageVar.ofId v.id ≠ some .uiResults

theorem strncpyBytes_body (resp : UpstreamResponse) :
    strncpyBytes resp.body resp.len.toNat = cstr resp.body ++
      List.replicate (resp.len.toNat - (cstr resp.body).length) 0 := by
  have hlen : resp.body.length = resp.len.toNat := length_read _ _ _
  rw [strncpyBytes, List.take_of_length_le (Nat.le_of_eq hlen)]

theorem makeVar_follows {a : PageArgs} {v : VarAttr} {w : Writer} {out : Bytes}
    (hbody : a.resp.len.toNat < 2 ^ 31)
    (hres : CommonPageVar.ofId v.id ≠ some .uiResults)
    (h : Agrees a.size w out) :
    Follows a.size (makeVar a v w) out (varPieces a.up a.resp a.pageCount v) := by
  rw [makeVar, varPieces]
  cases hid : CommonPageVar.ofId v.id with
  | none => exact follows_nil h
  | some var =>
      cases var
      case uiResults => exact absurd hid hres
      case uiResStr =>
        simp only [if_neg (Nat.not_le.2 hbody), strncpyBytes_body]
        exact follows_put _ h
      case uiTemplateName | uiType | uiWidth | uiHeight | uiPageNumInt =>
        exact follows_print _ h
      case uiPageNum =>
        simp only [List.flatMap_def]
        exact follows_printAll _ h
      case uiBackspace => exact follows_back h
      all_goals exact follows_nil h

/-- The loop follows the pieces of the text from its cursor on. -/
theorem makeVars_follows {a : PageArgs} {text : Bytes}
    (hbody : a.resp.len.toNat < 2 ^ 31) (hnul : NulFree text) :
    ∀ (vs : List VarAttr) {p : Nat} {w : Writer} {out : Bytes},
      InOrder text.length p vs →
      (∀ v ∈ vs, CommonPageVar.ofId v.id ≠ some .uiResults) →
      Agrees a.size w out →
      Follows a.size (makeVars a text vs p w) out
        (contentPieces (varPieces a.up a.resp a.pageCount) text vs p) := by
  intro vs
  induction vs with
  | nil =>
      intro p w out _ _ h
      rw [makeVars, contentPieces,
        cstr_of_nulFree (hnul.sublist (List.drop_sublist p text))]
      exact follows_put _ h
  | cons v vs ih =>
      intro p w out hord hres h
      have hlit : strncpyBytes (text.drop p) (v.pos - p) =
          (text.take v.pos).drop p := by
        have := hord.2.le
        exact strncpyBytes_drop hnul (by omega)
      have hpos : p + (v.pos - p) = v.pos := Nat.add_sub_cancel' hord.1
      rw [makeVars, hlit, hpos, contentPieces]
      refine (follows_put _ h).bind fun w₁ h₁ => ?_
      refine (makeVar_follows hbody (hres v List.mem_cons_self) h₁).bind
        fun w₂ h₂ => ?_
      exact ih hord.2 (fun u hu => hres u (List.mem_cons_of_mem v hu)) h₂

def backspaceContent : Content where
  text := ascii "a$uiType$b$uiBackspace$"
  vars := [⟨1, 8, 34, ascii "$uiType$"⟩, ⟨10, 13, 36, ascii "$uiBackspace$"⟩]
  loaded := ⟨some (ascii "a$uiType$b$uiBackspace$"), by decide⟩

def backspaceTemplate : TemplateHandle :=
  ⟨[ascii "1"], fun _ => ⟨backspaceContent, .empty, .empty⟩⟩

def oneResult : UpstreamResponse :=
  ⟨0, ⟨0, 1, 1, 1, 0, ⟨7, 0, 0, 0, 1⟩⟩, fun _ => 0⟩

def emptyRequest : UpstreamRequest := ⟨192, [], 0, 0, 0, 0, 0, [], 1, 1⟩

end UiServer
