import UiServer.Lib.Words
import UiServer.Template.HighLight

/-!
# What becomes of a query

`as_temp_split_query_terms` finds the words of the query, the first 32 of them, in
order. Two things go wrong. When the table is full it returns where it has just cut
the string, so the string ends behind the word that filled the table; and a word of
64 bytes or more does not fit its record. The string is as it was if and only if
fewer than 32 words have a space behind them, and the words are in their records if
and only if none of them is too long.
-/

namespace UiServer

open CMem

/-! ## The table

A word goes into the next record, and a record is not touched again when words go
behind it. So the words added are in their records, if each of them fits its own.
-/

def AsQuery.addAll (q : AsQuery) (texts : List Bytes) : AsQuery := texts.foldl AsQuery.add q

theorem AsQuery.addAll_nil (q : AsQuery) : q.addAll [] = q := rfl

theorem AsQuery.addAll_cons (q : AsQuery) (text : Bytes) (texts : List Bytes) :
    q.addAll (text :: texts) = (q.add text).addAll texts := rfl

@[simp] theorem AsQuery.add_num (q : AsQuery) (text : Bytes) :
    (q.add text).num = q.num + 1 := rfl

theorem AsQuery.addAll_num (texts : List Bytes) : ∀ q : AsQuery,
    (q.addAll texts).num = q.num + texts.length := by
  induction texts with
  | nil => intro q; rfl
  | cons text texts ih =>
      intro q
      rw [addAll_cons, ih, add_num, List.length_cons]
      omega

/-- A record that is not the next one or behind it is left alone. -/
theorem AsQuery.add_before (q : AsQuery) (text : Bytes) {p n : Nat} (h : p + n ≤ termAt q.num) :
    read (q.add text).queryTerm p n = read q.queryTerm p n := by
  rw [add, read_store_before (by omega), read_store_before h]

theorem termAt_succ (i : Nat) : termAt (i + 1) = termAt i + asQueryTermSize := by
  rw [termAt, termAt, Nat.mul_succ]

theorem termAt_le {i j : Nat} (h : i ≤ j) : termAt i ≤ termAt j :=
  Nat.mul_le_mul_left _ h

theorem AsQuery.addAll_before (texts : List Bytes) : ∀ (q : AsQuery) {p n : Nat},
    p + n ≤ termAt q.num →
    read (q.addAll texts).queryTerm p n = read q.queryTerm p n := by
  induction texts with
  | nil => intro q p n _; rfl
  | cons text texts ih =>
      intro q p n h
      have hnext : termAt q.num ≤ termAt (q.add text).num := termAt_le (by simp)
      rw [addAll_cons, ih _ (Nat.le_trans h hnext), add_before q text h]

/-- A word in its record: a terminated copy, and its length. -/
structure InRecord (q : AsQuery) (i : Nat) (text : Bytes) : Prop where
  term : ∃ rest, q.term i = text ++ 0 :: rest
  len : q.len i = text.length

theorem InRecord.length_lt {q : AsQuery} {i : Nat} {text : Bytes} (h : InRecord q i text) :
    text.length < maxQueryTermLen := by
  obtain ⟨rest, hrest⟩ := h.term
  have hlen := congrArg List.length hrest
  rw [AsQuery.term, length_read, List.length_append, List.length_cons] at hlen
  omega

theorem AsQuery.add_inRecord (q : AsQuery) {text : Bytes} (h : text.length < maxQueryTermLen) :
    InRecord (q.add text) q.num text := by
  have hfits : text.length < 64 := h
  have hlen : (leBytes 4 text.length).length = 4 := length_leBytes 4 _
  constructor
  · refine ⟨read (q.add text).queryTerm (termAt q.num + (text.length + 1))
      (maxQueryTermLen - (text.length + 1)), ?_⟩
    have hlen : (text ++ [0]).length = text.length + 1 := List.length_append
    have hsum : text.length + 1 + (maxQueryTermLen - (text.length + 1)) = maxQueryTermLen := by
      omega
    have hhead : read (q.add text).queryTerm (termAt q.num) (text.length + 1) =
        text ++ [0] := by
      rw [add, read_store_before (by omega), ← hlen, read_store]
    have hall := read_append (q.add text).queryTerm (termAt q.num) (text.length + 1)
      (maxQueryTermLen - (text.length + 1))
    rw [hsum, hhead, List.append_assoc] at hall
    exact hall
  · have hread : read (q.add text).queryTerm (termAt q.num + maxQueryTermLen) 4 =
        leBytes 4 text.length := by
      have hstored := read_store (store q.queryTerm (termAt q.num) (text ++ [0]))
        (termAt q.num + maxQueryTermLen) (leBytes 4 text.length)
      rwa [hlen] at hstored
    rw [len, hread, leNat_leBytes (by omega)]

/-- Records stay as they are when words are added behind them. -/
theorem InRecord.addAll {q : AsQuery} {i : Nat} {text : Bytes} (h : InRecord q i text)
    (hi : i < q.num) (texts : List Bytes) : InRecord (q.addAll texts) i text := by
  have hend : termAt i + asQueryTermSize ≤ termAt q.num := by
    rw [← termAt_succ]
    exact termAt_le hi
  have hterm : termAt i + maxQueryTermLen ≤ termAt q.num := by
    rw [asQueryTermSize] at hend
    omega
  have hlen : termAt i + maxQueryTermLen + 4 ≤ termAt q.num := by
    rw [asQueryTermSize] at hend
    omega
  constructor
  · rw [AsQuery.term, AsQuery.addAll_before texts q hterm]
    exact h.term
  · rw [AsQuery.len, AsQuery.addAll_before texts q hlen]
    exact h.len

theorem AsQuery.addAll_inRecord : ∀ (texts : List Bytes) (q : AsQuery),
    (∀ text ∈ texts, text.length < maxQueryTermLen) → ∀ i text, texts[i]? = some text →
    InRecord (q.addAll texts) (q.num + i) text := by
  intro texts
  induction texts with
  | nil => exact fun q _ i text h => nomatch h
  | cons t texts ih =>
      intro q hlen i text hi
      rw [addAll_cons]
      cases i with
      | zero =>
          cases hi
          exact (q.add_inRecord (hlen t (List.mem_cons_self ..))).addAll (by simp) texts
      | succ i =>
          have h := ih (q.add t) (fun u hu => hlen u (List.mem_cons_of_mem t hu)) i text hi
          rw [add_num] at h
          rwa [Nat.add_right_comm, Nat.add_assoc] at h

/-! ## The scan

The loop stands at a space, which it skips, or at a word, which it adds and cuts
off with a zero in the place of the space. It puts the space back only if it goes
on, so the string is as it was unless the word filled the table. -/

theorem drop_at (done rest : Bytes) : (done ++ rest).drop done.length = rest :=
  List.drop_left

theorem getD_at (done rest : Bytes) (n : Nat) :
    (done ++ rest).getD (done.length + n) 0 = rest.getD n 0 := by
  rw [List.getD_append_right _ _ _ _ (by omega), Nat.add_sub_cancel_left]

/-- The part of the string that `untilSpace` goes over. -/
theorem untilSpace_at {done rest : Bytes} (h : NulFree rest) :
    untilSpace (done ++ rest) done.length =
      done.length + (rest.takeWhile (· != 32)).length := by
  have htake : rest.takeWhile (fun c => c != 0 && c != 32) = rest.takeWhile (· != 32) := by
    induction rest with
    | nil => rfl
    | cons c rest ih =>
        have hc : (c != 0) = true := by simpa using h c (List.mem_cons_self ..)
        rw [List.takeWhile_cons, List.takeWhile_cons, hc, Bool.true_and,
          ih fun b hb => h b (List.mem_cons_of_mem c hb)]
  rw [untilSpace, drop_at, htake]

theorem skipSpaces_at (done rest : Bytes) :
    skipSpaces (done ++ rest) done.length =
      (done ++ rest.takeWhile (· == 32)).length := by
  rw [skipSpaces, drop_at, List.length_append]

theorem set_at (done rest : Bytes) (c d : UInt8) :
    (done ++ c :: rest).set done.length d = done ++ d :: rest := by
  rw [List.set_append_right _ _ (Nat.le_refl _), Nat.sub_self, List.set_cons_zero]

/-- What the function makes of the end of its loop. -/
def splitEnd (r : SplitState × Bool) : Bytes × AsQuery :=
  if r.2 then (r.1.str, r.1.query)
  else if r.1.pf < r.1.p then (r.1.str, r.1.query.add (cstr (r.1.str.drop r.1.pf)))
  else (r.1.str, r.1.query)

/-- What comes of a loop that stands in front of `rest` with room for a word: the
words of `rest` as far as there is room, and the string as it was if not so many of
them have a space behind them that the table is filled. -/
structure SplitRest (r : SplitState × Bool) (str rest : Bytes) (q : AsQuery) : Prop where
  query : (splitEnd r).2 = q.addAll ((Words.words 32 rest).take (maxQueryTermsNum - q.num))
  str : (splitEnd r).1 = str ↔ q.num + (Words.closed 32 rest).length < maxQueryTermsNum

/-- The loop has nothing left. -/
theorem splitLoop_nil (fuel : Nat) (done : Bytes) {q : AsQuery} (hq : q.num < maxQueryTermsNum) :
    SplitRest (splitLoop (fuel + 1) ⟨done ++ [], done.length, done.length, q⟩) (done ++ [])
      [] q := by
  have hend : (done ++ []).getD done.length 0 = 0 := getD_at done [] 0
  have hloop : splitLoop (fuel + 1) ⟨done ++ [], done.length, done.length, q⟩ =
      (⟨done ++ [], done.length, done.length, q⟩, false) := by
    rw [splitLoop]
    exact if_pos hend
  have hpair : splitEnd (splitLoop (fuel + 1) ⟨done ++ [], done.length, done.length, q⟩) =
      (done ++ [], q) := by
    rw [hloop]
    exact if_neg (Nat.lt_irrefl _)
  refine ⟨by rw [hpair, Words.words_nil, List.take_nil, AsQuery.addAll_nil], ?_⟩
  rw [hpair, Words.closed_nil]
  exact ⟨fun _ => hq, fun _ => rfl⟩

/-- A word at the end of the string. -/
theorem splitLoop_last (fuel : Nat) (done : Bytes) {w : Bytes} {q : AsQuery}
    (hq : q.num < maxQueryTermsNum) (hnul : NulFree w) (hne : w ≠ []) (hw : 32 ∉ w) :
    SplitRest (splitLoop (fuel + 1) ⟨done ++ w, done.length, done.length, q⟩) (done ++ w)
      w q := by
  have hpos := List.length_pos_iff.2 hne
  have htake : w.takeWhile (· != 32) = w := by
    rw [List.takeWhile_eq_self_iff]
    intro c hc
    simpa using fun h : c = 32 => hw (h ▸ hc)
  have hp : untilSpace (done ++ w) done.length = done.length + w.length := by
    rw [untilSpace_at hnul, htake]
  have hstart : (done ++ w).getD done.length 0 ≠ 0 := by
    obtain ⟨c, t, rfl⟩ := List.exists_cons_of_ne_nil hne
    have hget := getD_at done (c :: t) 0
    rw [Nat.add_zero] at hget
    rw [hget]
    exact hnul c (List.mem_cons_self ..)
  have hend : (done ++ w).getD (done.length + w.length) 0 = 0 := by
    rw [getD_at]
    simp
  have hloop : splitLoop (fuel + 1) ⟨done ++ w, done.length, done.length, q⟩ =
      (⟨done ++ w, done.length + w.length, done.length, q⟩, false) := by
    rw [splitLoop, if_neg hstart]
    simp only [hp]
    exact if_pos hend
  have hpair : splitEnd (splitLoop (fuel + 1) ⟨done ++ w, done.length, done.length, q⟩) =
      (done ++ w, q.add w) := by
    have hlt : done.length < done.length + w.length := by omega
    rw [hloop, splitEnd, if_neg (by simp), if_pos hlt]
    simp only [drop_at, cstr_of_nulFree hnul]
  refine ⟨?_, ?_⟩
  · rw [hpair, Words.words_last hne hw, List.take_of_length_le]
    · rfl
    · rw [List.length_singleton]
      omega
  · rw [hpair, Words.closed_last hw]
    exact ⟨fun _ => hq, fun _ => rfl⟩

/-- A round that stands at a space. -/
theorem splitLoop_space (fuel : Nat) (done t : Bytes) (q : AsQuery) :
    splitLoop (fuel + 1) ⟨done ++ 32 :: t, done.length, done.length, q⟩ =
      splitLoop fuel ⟨done ++ 32 :: t, skipSpaces (done ++ 32 :: t) done.length,
        skipSpaces (done ++ 32 :: t) done.length, q⟩ := by
  have hat : (done ++ 32 :: t).getD done.length 0 = 32 := by
    have hget := getD_at done (32 :: t) 0
    rwa [Nat.add_zero] at hget
  have hp : untilSpace (done ++ 32 :: t) done.length = done.length := by
    rw [untilSpace, drop_at, List.takeWhile_cons_of_neg (by simp), List.length_nil,
      Nat.add_zero]
  rw [splitLoop]
  simp only [hp, hat]
  rw [if_neg (by decide), if_neg (by decide), if_neg (Nat.lt_irrefl _)]

/-- A round that stands at a word with a space behind it. -/
theorem splitLoop_word (fuel : Nat) (done t : Bytes) {w : Bytes} (q : AsQuery)
    (hnul : NulFree (w ++ 32 :: t)) (hne : w ≠ []) (hw : 32 ∉ w) :
    splitLoop (fuel + 1) ⟨done ++ (w ++ 32 :: t), done.length, done.length, q⟩ =
      if q.num + 1 = maxQueryTermsNum then
        (⟨done ++ (w ++ 0 :: t), (done ++ w).length, done.length, q.add w⟩, true)
      else
        splitLoop fuel ⟨(done ++ w ++ [32]) ++ t,
          skipSpaces ((done ++ w ++ [32]) ++ t) (done ++ w ++ [32]).length,
          skipSpaces ((done ++ w ++ [32]) ++ t) (done ++ w ++ [32]).length, q.add w⟩ := by
  have hpos := List.length_pos_iff.2 hne
  have hnulw : NulFree w := hnul.sublist (List.sublist_append_left w _)
  have htake : (w ++ 32 :: t).takeWhile (· != 32) = w := by
    rw [List.takeWhile_append_of_pos fun c hc => by
      simpa using fun h : c = 32 => hw (h ▸ hc)]
    simp
  have hp : untilSpace (done ++ (w ++ 32 :: t)) done.length = (done ++ w).length := by
    rw [untilSpace_at hnul, htake, List.length_append]
  have hstart : (done ++ (w ++ 32 :: t)).getD done.length 0 ≠ 0 := by
    obtain ⟨c, u, rfl⟩ := List.exists_cons_of_ne_nil hne
    have hget := getD_at done (c :: u ++ 32 :: t) 0
    rw [Nat.add_zero] at hget
    rw [hget]
    exact hnulw c (List.mem_cons_self ..)
  have hassoc : ∀ c : UInt8, done ++ (w ++ c :: t) = (done ++ w) ++ c :: t := fun c =>
    (List.append_assoc done w _).symm
  have hat : (done ++ (w ++ 32 :: t)).getD (done ++ w).length 0 = 32 := by
    have hget := getD_at (done ++ w) (32 :: t) 0
    rw [Nat.add_zero, ← hassoc] at hget
    exact hget
  have hcut : (done ++ (w ++ 32 :: t)).set (done ++ w).length 0 = done ++ (w ++ 0 :: t) := by
    rw [hassoc, hassoc, set_at]
  have hback : (done ++ (w ++ 0 :: t)).set (done ++ w).length 32 =
      (done ++ w ++ [32]) ++ t := by
    rw [hassoc, set_at]
    simp
  have htext : cstr ((done ++ (w ++ 0 :: t)).drop done.length) = w := by
    rw [drop_at, cstr_terminated hnulw]
  have hlt : done.length < (done ++ w).length := by
    rw [List.length_append]
    omega
  have hnext : (done ++ w).length + 1 = (done ++ w ++ [32]).length := by
    simp only [List.length_append, List.length_singleton]
  rw [splitLoop, if_neg hstart]
  simp only [hp, hat]
  rw [if_neg (by decide), if_pos hlt, hcut, htext, AsQuery.add_num, hback, hnext,
    if_neg (Nat.pos_iff_ne_zero.1 hpos)]

/-- Behind the spaces the loop starts again. -/
theorem splitRest_skip {fuel : Nat} {done rest : Bytes} {q : AsQuery}
    (h : SplitRest
      (splitLoop fuel ⟨(done ++ rest.takeWhile (· == 32)) ++ rest.dropWhile (· == 32),
        (done ++ rest.takeWhile (· == 32)).length,
        (done ++ rest.takeWhile (· == 32)).length, q⟩)
      ((done ++ rest.takeWhile (· == 32)) ++ rest.dropWhile (· == 32))
      (rest.dropWhile (· == 32)) q) :
    SplitRest (splitLoop fuel ⟨done ++ rest, skipSpaces (done ++ rest) done.length,
      skipSpaces (done ++ rest) done.length, q⟩) (done ++ rest) rest q := by
  have hall : (done ++ rest.takeWhile (· == 32)) ++ rest.dropWhile (· == 32) = done ++ rest := by
    rw [List.append_assoc, List.takeWhile_append_dropWhile]
  rw [hall] at h
  rw [skipSpaces_at]
  obtain ⟨hquery, hstr⟩ := h
  rw [Words.words_dropWhile] at hquery
  rw [Words.closed_dropWhile] at hstr
  exact ⟨hquery, hstr⟩

/-- The word that fills the table: the string stays cut. -/
theorem splitRest_full {done t w : Bytes} {q : AsQuery} {p : Nat} (hne : w ≠ [])
    (hw : 32 ∉ w) (hfull : q.num + 1 = maxQueryTermsNum) :
    SplitRest (⟨done ++ (w ++ 0 :: t), p, done.length, q.add w⟩, true)
      (done ++ (w ++ 32 :: t)) (w ++ 32 :: t) q := by
  constructor
  · have hroom : maxQueryTermsNum - q.num = 1 := by omega
    rw [hroom, Words.words_append hne hw]
    rfl
  · rw [Words.closed_append hne hw, List.length_cons]
    refine ⟨fun h => ?_, fun h => by omega⟩
    have h' : done ++ (w ++ 0 :: t) = done ++ (w ++ 32 :: t) := h
    simp at h'

/-- A word that leaves room in the table. -/
theorem SplitRest.word {r : SplitState × Bool} {done t w : Bytes} {q : AsQuery}
    (h : SplitRest r ((done ++ w ++ [32]) ++ t) t (q.add w)) (hne : w ≠ []) (hw : 32 ∉ w)
    (hq : q.num + 1 ≤ maxQueryTermsNum) :
    SplitRest r (done ++ (w ++ 32 :: t)) (w ++ 32 :: t) q := by
  have hstr : (done ++ w ++ [32]) ++ t = done ++ (w ++ 32 :: t) := by simp
  obtain ⟨hquery, hsame⟩ := h
  rw [hstr, AsQuery.add_num] at hsame
  rw [AsQuery.add_num] at hquery
  constructor
  · have hroom : maxQueryTermsNum - q.num = maxQueryTermsNum - (q.num + 1) + 1 := by omega
    rw [hquery, Words.words_append hne hw, hroom, List.take_succ_cons, AsQuery.addAll_cons]
  · rw [hsame, Words.closed_append hne hw, List.length_cons]
    omega

theorem splitLoop_spec : ∀ (fuel : Nat) (done rest : Bytes) (q : AsQuery), NulFree rest →
    rest.length < fuel → q.num < maxQueryTermsNum →
    SplitRest (splitLoop fuel ⟨done ++ rest, done.length, done.length, q⟩) (done ++ rest)
      rest q := by
  intro fuel
  induction fuel with
  | zero => exact fun _ rest _ _ h => absurd h (Nat.not_lt_zero rest.length)
  | succ fuel ih =>
      intro done rest q hnul hfuel hq
      have hskip : ∀ (front s : Bytes) (q' : AsQuery), s.Sublist rest →
          (s.dropWhile (· == 32)).length < fuel → q'.num < maxQueryTermsNum →
          SplitRest (splitLoop fuel ⟨front ++ s, skipSpaces (front ++ s) front.length,
            skipSpaces (front ++ s) front.length, q'⟩) (front ++ s) s q' :=
        fun front s q' hs hlen hq' => splitRest_skip
          (ih _ _ q' (hnul.sublist ((List.dropWhile_sublist _).trans hs)) hlen hq')
      obtain ⟨hw, htail⟩ := @Words.takeWhile_spec _ _ 32 rest
      have hrest := List.takeWhile_append_dropWhile (p := (· != (32 : UInt8))) (l := rest)
      cases hword : rest.takeWhile (· != 32) with
      | nil =>
          rw [hword, List.nil_append] at hrest
          rcases htail with hnil | ⟨t, ht⟩
          · have hempty : rest = [] := hrest.symm.trans hnil
            subst hempty
            exact splitLoop_nil fuel done hq
          · have hsp : rest = 32 :: t := hrest.symm.trans ht
            subst hsp
            rw [splitLoop_space]
            refine hskip done (32 :: t) q (List.Sublist.refl _) ?_ hq
            have hle := (List.dropWhile_sublist (· == (32 : UInt8)) (l := t)).length_le
            rw [List.dropWhile_cons_of_pos (by simp)]
            rw [List.length_cons] at hfuel
            omega
      | cons c w =>
          have hne : c :: w ≠ [] := List.cons_ne_nil c w
          rw [hword] at hw hrest
          rcases htail with hnil | ⟨t, ht⟩
          · rw [hnil, List.append_nil] at hrest
            subst hrest
            exact splitLoop_last fuel done hq hnul hne hw
          · rw [ht] at hrest
            subst hrest
            rw [splitLoop_word fuel done t q hnul hne hw]
            by_cases hfull : q.num + 1 = maxQueryTermsNum
            · rw [if_pos hfull]
              exact splitRest_full hne hw hfull
            · rw [if_neg hfull]
              have hlt : (q.add (c :: w)).num < maxQueryTermsNum := by
                rw [AsQuery.add_num]
                omega
              have hlen : (t.dropWhile (· == 32)).length < fuel := by
                have hle := (List.dropWhile_sublist (· == (32 : UInt8)) (l := t)).length_le
                rw [List.length_append, List.length_cons, List.length_cons] at hfuel
                omega
              have hsub : t.Sublist (c :: w ++ 32 :: t) :=
                (List.sublist_cons_self 32 t).trans (List.sublist_append_right _ _)
              exact (hskip _ t _ hsub hlen hlt).word hne hw (by omega)

/-! ## The function

From the front of the string the scan adds its words as far as the table takes
them. What goes wrong is read off the string: the word that fills the table, and
the words too long. -/

theorem asTempSplitQueryTerms_spec {str : Bytes} (hnul : NulFree str) (q : AsQuery) :
    (asTempSplitQueryTerms str q).2 =
        ({ q with num := 0 } : AsQuery).addAll ((Words.words 32 str).take maxQueryTermsNum) ∧
      ((asTempSplitQueryTerms str q).1 = str ↔
        (Words.closed 32 str).length < maxQueryTermsNum) := by
  have hpos : 0 < maxQueryTermsNum := by decide
  have hloop := splitLoop_spec (str.length + 1) [] str { q with num := 0 } hnul (by omega) hpos
  have hfun : asTempSplitQueryTerms str q = splitEnd (splitLoop (str.length + 1)
      ⟨str, 0, 0, { q with num := 0 }⟩) := by
    rw [asTempSplitQueryTerms]
    split
    · next h =>
        rw [List.length_eq_zero_iff] at h
        subst h
        rfl
    · rfl
  obtain ⟨hquery, hstr⟩ := hloop
  rw [hfun]
  exact ⟨hquery, by simpa using hstr⟩

/-- What the function should leave: as many words as there are, but no more than
32, each in its record, and the string as it was. -/
structure QuerySplit (str : Bytes) (r : Bytes × AsQuery) : Prop where
  num : r.2.num = min maxQueryTermsNum (Words.words 32 str).length
  terms : ∀ i text, ((Words.words 32 str).take maxQueryTermsNum)[i]? = some text →
    InRecord r.2 i text
  str : r.1 = str

/-- For every query string and every table. -/
theorem asTempSplitQueryTerms_right_iff (str : Bytes) (q : AsQuery) (hnul : NulFree str) :
    QuerySplit str (asTempSplitQueryTerms str q) ↔
      (Words.closed 32 str).length < maxQueryTermsNum ∧
        ∀ text ∈ (Words.words 32 str).take maxQueryTermsNum,
          text.length < maxQueryTermLen := by
  obtain ⟨hquery, hstr⟩ := asTempSplitQueryTerms_spec hnul q
  constructor
  · intro h
    refine ⟨hstr.1 h.str, fun text hmem => ?_⟩
    obtain ⟨i, hi⟩ := List.mem_iff_getElem?.1 hmem
    exact (h.terms i text hi).length_lt
  · intro ⟨hclosed, hlen⟩
    refine ⟨?_, fun i text hi => ?_, hstr.2 hclosed⟩
    · rw [hquery, AsQuery.addAll_num, List.length_take, Nat.zero_add]
    · have hrecord := AsQuery.addAll_inRecord _ { q with num := 0 } hlen i text hi
      rw [hquery]
      rwa [Nat.zero_add] at hrecord

theorem asTempSplitQueryTerms_right_iff_two :
    QuerySplit (ascii "ui demo ") (asTempSplitQueryTerms (ascii "ui demo ") ⟨7, fun _ => 1⟩) :=
  (asTempSplitQueryTerms_right_iff (ascii "ui demo ") ⟨7, fun _ => 1⟩ (by decide)).2
    ⟨by decide, by decide⟩

/-- Behind 32 words with a space behind each the string is cut; and a word of 64
bytes takes the place of its length. -/
theorem asTempSplitQueryTerms_right_fails :
    ¬ QuerySplit (List.replicate 32 [97, 32]).flatten
        (asTempSplitQueryTerms (List.replicate 32 [97, 32]).flatten ⟨0, fun _ => 0⟩) ∧
      ¬ QuerySplit (List.replicate 64 97)
        (asTempSplitQueryTerms (List.replicate 64 97) ⟨0, fun _ => 0⟩) := by
  constructor
  · intro h
    have hclosed := (asTempSplitQueryTerms_spec (by decide) ⟨0, fun _ => 0⟩).2.1 h.str
    exact absurd hclosed (by decide)
  · intro h
    have hlt := (h.terms 0 (List.replicate 64 97) (by decide)).length_lt
    exact absurd hlt (by decide)

/-! ## The words that are looked for

The highlighting takes its words from the table, and what it takes are the words
of the query. -/

/-- The table holds these words. -/
structure AsQuery.Holds (q : AsQuery) (terms : List QueryTerm) : Prop where
  num : q.num = terms.length
  terms : ∀ i (t : QueryTerm), terms[i]? = some t → InRecord q i t.str

/-- A query that is split as it should be is a list of words to look for. -/
theorem QuerySplit.holds {str : Bytes} {r : Bytes × AsQuery} (h : QuerySplit str r)
    (hnul : NulFree str) :
    ∃ terms : List QueryTerm, r.2.Holds terms ∧
      terms.map CString.str = (Words.words 32 str).take maxQueryTermsNum := by
  have hword : ∀ text ∈ (Words.words 32 str).take maxQueryTermsNum,
      NulFree text ∧ text.length < maxQueryTermLen := by
    intro text hmem
    obtain ⟨i, hi⟩ := List.mem_iff_getElem?.1 hmem
    exact ⟨hnul.sublist (Words.sublist_of_mem_words (List.mem_of_mem_take hmem)),
      (h.terms i text hi).length_lt⟩
  have hmap : (((Words.words 32 str).take maxQueryTermsNum).pmap
      (fun text ht => (⟨text, ht.1, ht.2⟩ : QueryTerm)) hword).map CString.str =
        (Words.words 32 str).take maxQueryTermsNum := by
    rw [List.map_pmap, List.pmap_eq_map, List.map_id']
  refine ⟨_, ⟨?_, fun i t hi => h.terms i t.str ?_⟩, hmap⟩
  · rw [h.num, List.length_pmap, List.length_take]
  · rw [← hmap, List.getElem?_map, hi, Option.map_some]

end UiServer
