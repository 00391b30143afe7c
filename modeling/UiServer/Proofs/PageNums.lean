import UiServer.Template.Page

/-!
# The row of page numbers

`max_page_no` counts the pages, the clamp brings the page asked for in front of
the last one, and `$uiPageNum$` prints the numbers around it. Pages are numbered
from 0 and printed from 1. The clamp lets the page number be as large as the
count, one behind the last page: then no number is marked (`pageNums_right_iff`).
-/

namespace UiServer

open CMem

/-- The number of pages: the results that can be shown over the results of a
page, rounded up. -/
def pagesOf (rn totalNum : Nat) : Nat := (min totalNum maxSearchResNum + (rn - 1)) / rn

theorem maxPageNo_eq (rn totalNum : Nat) : maxPageNo rn totalNum = pagesOf rn totalNum := by
  rw [maxPageNo, pagesOf]
  split
  · next hrn => rw [hrn, Nat.div_zero]
  · next hrn =>
      have hshown : (if maxSearchResNum < totalNum then maxSearchResNum else totalNum) =
          min totalNum maxSearchResNum := by
        split <;> omega
      simp only [hshown]
      generalize min totalNum maxSearchResNum = n
      have hmod := Nat.mod_lt n (Nat.pos_of_ne_zero hrn)
      have hsplit : n + (rn - 1) = n % rn + (rn - 1) + rn * (n / rn) := by
        have := Nat.mod_add_div n rn
        omega
      have hround : (n % rn + (rn - 1)) / rn = if n % rn ≠ 0 then 1 else 0 := by
        split
        · exact Nat.div_eq_of_lt_le (by omega) (by omega)
        · exact Nat.div_eq_of_lt (by omega)
      rw [hsplit, Nat.add_mul_div_left _ _ (Nat.pos_of_ne_zero hrn), hround]
      split <;> omega

theorem pagesOf_le (rn totalNum : Nat) : pagesOf rn totalNum ≤ maxSearchResNum := by
  rw [pagesOf]
  cases rn with
  | zero =>
      rw [Nat.div_zero]
      exact Nat.zero_le _
  | succ rn =>
      have hpos : 0 < rn + 1 := by omega
      have hmin := Nat.min_le_right totalNum maxSearchResNum
      have hmul : maxSearchResNum ≤ maxSearchResNum * (rn + 1) :=
        Nat.le_mul_of_pos_right _ hpos
      refine Nat.le_of_lt_succ ((Nat.div_lt_iff_lt_mul hpos).2 ?_)
      rw [Nat.succ_mul]
      omega

/-- The clamped page is one of the pages, unless it was one behind the last. -/
theorem clampPageNo_lt {pageNo : UInt16} {pageCount : Nat} (hpos : 0 < pageCount)
    (hle : pageCount ≤ maxSearchResNum) :
    (clampPageNo pageNo pageCount).toNat < pageCount ↔ pageNo.toNat ≠ pageCount := by
  rw [maxSearchResNum] at hle
  rw [clampPageNo]
  split
  · next hlt =>
      refine iff_of_true ?_ (by omega)
      split
      · rw [UInt16.toNat_ofNat']
        omega
      · exact hpos
  · omega

/-! ## The numbers

The loop prints from six pages in front of the current one to six behind, as far
as there are pages. As a row it has a first number and a length, and what should
hold of the row is arithmetic on these two. -/

/-- What `$uiPageNum$` prints, one text after the other. -/
def pageNumTexts (pageNo pageCount : Nat) : List Bytes :=
  (pageNums pageNo pageCount).map (pageNumText pageNo)

theorem makeVar_uiPageNum {a : PageArgs} {v : VarAttr} (w : Writer)
    (h : CommonPageVar.ofId v.id = some .uiPageNum) :
    makeVar a v w =
      (pageNumTexts a.up.pageNo.toNat a.pageCount).foldlM Writer.print w := by
  rw [makeVar, h]
  rfl

def currentText (num : Nat) : Bytes :=
  ascii "<span class=\"current\">" ++ decimal num ++ ascii "</span>"

def linkText (num : Nat) : Bytes := ascii "<a href='#'>" ++ decimal num ++ ascii "</a>"

/-- The texts of the numbers from `first` on, `n` of them, `current` marked. -/
def numberRow (first n current : Nat) : List Bytes :=
  (List.range' first n).map fun num =>
    if num = current then currentText num else linkText num

/-- At most twelve numbers in a row, all of them pages, with the current one marked
among them. -/
def RowRight (texts : List Bytes) (pageNo pageCount : Nat) : Prop :=
  ∃ first n, texts = numberRow first n (pageNo + 1) ∧ n ≤ 12 ∧
    1 ≤ first ∧ first + n ≤ pageCount + 1 ∧ first ≤ pageNo + 1 ∧ pageNo + 1 < first + n

theorem pageNumTexts_eq (pageNo pageCount : Nat) :
    pageNumTexts pageNo pageCount =
      numberRow (pageNo - 6 + 1) (min (pageNo + 6) pageCount - (pageNo - 6)) (pageNo + 1) := by
  have hfirst : (if 6 < pageNo then pageNo - 6 else 0) = pageNo - 6 := by
    split <;> omega
  rw [pageNumTexts, pageNums, numberRow]
  simp only [hfirst]
  rw [List.range'_succ_left, List.map_map]
  refine List.map_congr_left fun j _ => ?_
  simp only [pageNumText, Function.comp, Nat.add_right_cancel_iff]
  rfl

theorem rowRight_of_lt {pageNo pageCount : Nat} (h : pageNo < pageCount) :
    RowRight (pageNumTexts pageNo pageCount) pageNo pageCount :=
  ⟨_, _, pageNumTexts_eq pageNo pageCount, by omega, by omega, by omega, by omega, by omega⟩

theorem pageNumTexts_zero (pageNo : Nat) : pageNumTexts pageNo 0 = [] := by
  rw [pageNumTexts_eq, numberRow, Nat.min_zero, Nat.zero_sub]
  rfl

/-! ## After the clamp

`temp_make_page` clamps the page number before anything is printed, by a
comparison that lets one number too many through. Every other number is in front
of the last page. -/

/-- What `temp_make_page` goes on with behind the clamp at its head
(`tempMakePage_clamped`). -/
def clampedArgs (size index : Nat) (web : WebRequest) (up : UpstreamRequest)
    (resp : UpstreamResponse) (makeRes : MakeRes) : PageArgs :=
  let (pageCount, up) := clampRequest up resp.head.totalNum
  ⟨size, index, web, up, resp, pageCount, makeRes⟩

theorem tempMakePage_clamped (h : TemplateHandle) (makeRes : MakeRes) (index : Int)
    (page : Mem) (size : Nat) (web : WebRequest) (up : UpstreamRequest)
    (resp : UpstreamResponse) (iserr : Int) :
    tempMakePage h makeRes index page size web up resp iserr =
      let (index, iserr) := chooseIndex h index iserr
      makePage (clampedArgs size index web up resp makeRes)
        (chooseContent (h.tpl index) iserr resp.head.returnNum) page := rfl

/-- The count is `pages`; with pages, the page number is one of them and the row is
right; without any, there is no row. -/
def PageNumsRight (a : PageArgs) (pages : Nat) : Prop :=
  a.pageCount = pages ∧ ∃ texts : List Bytes,
    (∀ (v : VarAttr) (w : Writer), CommonPageVar.ofId v.id = some .uiPageNum →
      makeVar a v w = texts.foldlM Writer.print w) ∧
    (a.pageCount = 0 → texts = []) ∧
    (0 < a.pageCount → a.up.pageNo.toNat < a.pageCount ∧
      RowRight texts a.up.pageNo.toNat a.pageCount)

/-- A page asked for that is one behind the last is not clamped; every other
number gives a right row. -/
theorem pageNums_right_iff (size index : Nat) (web : WebRequest) (up : UpstreamRequest)
    (resp : UpstreamResponse) (makeRes : MakeRes) :
    let pages := pagesOf up.rn.toNat resp.head.totalNum.toNat
    PageNumsRight (clampedArgs size index web up resp makeRes) pages ↔
      ¬ (0 < pages ∧ up.pageNo.toNat = pages) := by
  intro pages
  let a := clampedArgs size index web up resp makeRes
  have hcount : a.pageCount = pages := maxPageNo_eq _ _
  have hpage : a.up.pageNo = clampPageNo up.pageNo pages := by
    rw [← hcount]
    rfl
  constructor
  · rintro ⟨_, texts, _, _, hrow⟩ ⟨hpos, heq⟩
    have hlt := (hrow (by rw [hcount]; exact hpos)).1
    rw [hcount, hpage, clampPageNo_lt hpos (pagesOf_le _ _)] at hlt
    exact hlt heq
  · intro hnot
    refine ⟨hcount, _, fun v w => makeVar_uiPageNum w, fun hzero => ?_, fun hpos => ?_⟩
    · rw [hzero]
      exact pageNumTexts_zero _
    · have hlt : a.up.pageNo.toNat < a.pageCount := by
        rw [hcount] at hpos ⊢
        rw [hpage, clampPageNo_lt hpos (pagesOf_le _ _)]
        exact fun heq => hnot ⟨hpos, heq⟩
      exact ⟨hlt, rowRight_of_lt hlt⟩

/-- Twenty results, ten a page, and the third page asked for: pages 1 and 2 are
printed as links. -/
theorem pageNums_right_fails :
    pageNumTexts (clampPageNo 2 2).toNat 2 = [linkText 1, linkText 2] ∧
      ¬ ∀ (size index : Nat) (web : WebRequest) (up : UpstreamRequest)
        (resp : UpstreamResponse) (makeRes : MakeRes),
        PageNumsRight (clampedArgs size index web up resp makeRes)
          (pagesOf up.rn.toNat resp.head.totalNum.toNat) := by
  refine ⟨by decide +kernel, fun hall => ?_⟩
  let up : UpstreamRequest := ⟨192, [], 0, 2, 10, 0, 0, [], 1, 1⟩
  let head : UpstreamResponseHead := ⟨0, 10, 10, 20, 0, ⟨0, 0, 0, 0, 0⟩⟩
  obtain ⟨_, _, _, _, hrow⟩ := hall 0 0 ⟨fun _ => 0⟩ up ⟨0, head, fun _ => 0⟩
    fun _ _ _ _ w => (w.mem, -1)
  have hlt := (hrow (by decide)).1
  exact absurd hlt (by decide)

end UiServer
