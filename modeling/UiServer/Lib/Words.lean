import Mathlib.Data.List.TakeWhile

/-!
# Words

The words of a list are its longest parts without a separator, those that are
empty left out. A word is closed if a separator stands behind it, which only the
last one can be without.

A reader that takes a word off the front, then the separators, goes by
`words_append` and `words_dropWhile`.
-/

namespace Words

universe u

variable {α : Type u} [DecidableEq α] {sep : α} {w s : List α}

def words (sep : α) (s : List α) : List (List α) := (s.splitOn sep).filter (· ≠ [])

/-- The words with a separator behind them. -/
def closed (sep : α) (s : List α) : List (List α) :=
  (s.splitOn sep).dropLast.filter (· ≠ [])

@[simp] theorem words_nil : words sep [] = [] := by
  simp [words]

@[simp] theorem closed_nil : closed sep [] = [] := by
  simp [closed]

theorem words_cons_sep : words sep (sep :: s) = words sep s := by
  have h := List.splitOn_append_cons_self_of_not_mem (List.not_mem_nil (a := sep)) s
  rw [List.nil_append] at h
  rw [words, h, List.filter_cons_of_neg (by simp)]
  rfl

theorem closed_cons_sep : closed sep (sep :: s) = closed sep s := by
  have h := List.splitOn_append_cons_self_of_not_mem (List.not_mem_nil (a := sep)) s
  rw [List.nil_append] at h
  rw [closed, h, List.dropLast_cons_of_ne_nil (List.splitOn_ne_nil sep s),
    List.filter_cons_of_neg (by simp)]
  rfl

theorem words_append (hne : w ≠ []) (hw : sep ∉ w) :
    words sep (w ++ sep :: s) = w :: words sep s := by
  rw [words, List.splitOn_append_cons_self_of_not_mem hw,
    List.filter_cons_of_pos (by simpa using hne)]
  rfl

theorem closed_append (hne : w ≠ []) (hw : sep ∉ w) :
    closed sep (w ++ sep :: s) = w :: closed sep s := by
  rw [closed, List.splitOn_append_cons_self_of_not_mem hw,
    List.dropLast_cons_of_ne_nil (List.splitOn_ne_nil sep s),
    List.filter_cons_of_pos (by simpa using hne)]
  rfl

theorem words_last (hne : w ≠ []) (hw : sep ∉ w) : words sep w = [w] := by
  rw [words, List.splitOn_eq_singleton hw, List.filter_cons_of_pos (by simpa using hne)]
  rfl

theorem closed_last (hw : sep ∉ w) : closed sep w = [] := by
  rw [closed, List.splitOn_eq_singleton hw]
  rfl

theorem words_dropWhile (s : List α) : words sep (s.dropWhile (· == sep)) = words sep s := by
  induction s with
  | nil => rfl
  | cons a s ih =>
      rw [List.dropWhile_cons]
      split
      · next h => rw [ih, eq_of_beq h, words_cons_sep]
      · rfl

theorem closed_dropWhile (s : List α) :
    closed sep (s.dropWhile (· == sep)) = closed sep s := by
  induction s with
  | nil => rfl
  | cons a s ih =>
      rw [List.dropWhile_cons]
      split
      · next h => rw [ih, eq_of_beq h, closed_cons_sep]
      · rfl

/-- A list that is not empty is a word and what follows it. -/
theorem takeWhile_spec (s : List α) :
    sep ∉ s.takeWhile (· != sep) ∧
      (s.dropWhile (· != sep) = [] ∨ ∃ t, s.dropWhile (· != sep) = sep :: t) := by
  refine ⟨fun h => ?_, ?_⟩
  · have := List.mem_takeWhile_imp h
    simp at this
  · cases hrest : s.dropWhile (· != sep) with
    | nil => exact Or.inl rfl
    | cons a t =>
        have hne : s.dropWhile (· != sep) ≠ [] := by rw [hrest]; exact List.cons_ne_nil a t
        have ha := List.head_dropWhile_not (· != sep) hne
        have hhead : a = sep := by simpa [hrest] using ha
        exact Or.inr ⟨t, by rw [hhead]⟩

/-- A word is a part of the list. -/
theorem sublist_of_mem_words (h : w ∈ words sep s) : w.Sublist s := by
  have hall : ∀ ls : List (List α), w ∈ ls → w.Sublist ([sep].intercalate ls) := by
    intro ls
    induction ls with
    | nil => exact nofun
    | cons l ls ih =>
        intro hmem
        by_cases hls : ls = []
        · rw [hls] at hmem ⊢
          rw [List.intercalate_singleton]
          exact List.mem_singleton.1 hmem ▸ List.Sublist.refl w
        · rw [List.intercalate_cons_of_ne_nil hls]
          rcases List.mem_cons.1 hmem with rfl | hmem
          · exact (List.sublist_append_left _ _).trans (List.sublist_append_left _ _)
          · exact (ih hmem).trans (List.sublist_append_right _ _)
  have hmem := hall (s.splitOn sep) (List.mem_filter.1 h).1
  rwa [List.intercalate_splitOn] at hmem

end Words
