import UiServer.Lib.Marking
import UiServer.Proofs.HighLightText
import UiServer.Template.TitleMarks

/-!
# The marked title

The terms are sorted without losing one, whatever they are, and in a page that has room
for the title and for a pair of tags around each term the text without its tags is the
title cut down (`titleLoop_spec`).

Not every term is marked. The index waits at a term until the copy is where it begins, and
for one that begins inside the stretch before it that never comes: no term behind it is
marked. And of the terms that begin at one place only the first is, also when there is
nothing in it. These are the terms that are lost (`tempMakeHighLight_right_iff`).
-/

namespace UiServer

open CMem Intervals

/-! ## The order of the terms

The sort exchanges terms and loses none. Of those that begin at one place the
index takes the first and goes over the others, which is what `firsts` keeps of a
sorted list. -/

theorem tempSortHighLight_perm (terms : List TitleResultTerm) :
    (tempSortHighLight terms).Perm terms := Selection.sort_perm _ _ terms

/-- The stretches of the terms. -/
def spans (terms : List TitleResultTerm) : List Span := terms.map TitleResultTerm.span

theorem spans_sorted (terms : List TitleResultTerm) : Sorted (spans (tempSortHighLight terms)) :=
  List.pairwise_map.2 (Selection.sort_sorted _ _ terms)

theorem skipSame_congr {a b : TitleResultTerm} (h : a.offset = b.offset)
    (terms : List TitleResultTerm) : skipSame a terms = skipSame b terms := by
  cases terms with
  | nil => rfl
  | cons t terms => rw [skipSame, skipSame, h]

theorem span_offset_ne {a b : TitleResultTerm} :
    a.span.offset ≠ b.span.offset ↔ ¬ b.offset = a.offset :=
  not_congr (UInt16.toNat_inj.trans eq_comm)

/-- The index goes on to the next of those that are the first of their place. -/
theorem firsts_skipSame (h : TitleResultTerm) (terms : List TitleResultTerm) :
    firsts (spans (h :: terms)) = h.span :: firsts (spans (skipSame h terms)) := by
  rw [firsts, spans, List.map_cons, List.destutter_cons']
  induction terms with
  | nil => rfl
  | cons t terms ih =>
      rw [List.map_cons, List.destutter'_cons, skipSame]
      by_cases hsame : t.offset = h.offset
      · rw [if_neg (not_not.2 hsame ∘ span_offset_ne.1), if_pos hsame, ih, skipSame_congr hsame]
      · rw [if_pos (span_offset_ne.2 hsame), if_neg hsame]
        rfl

theorem length_skipSame_le (h : TitleResultTerm) (terms : List TitleResultTerm) :
    (skipSame h terms).length ≤ terms.length := by
  induction terms generalizing h with
  | nil => exact Nat.le_refl 0
  | cons t terms ih =>
      rw [skipSame]
      split
      · exact Nat.le_succ_of_le (ih t)
      · exact Nat.le_refl _

/-! ## Writing

Each step of the copy writes behind what was written, and as long as there is room
for all that may come it is never refused. -/

/-- The page of `s'` is that of `s` with a text behind it. -/
structure Wrote (s s' : TitleCopy) (text : Bytes) : Prop where
  held : Held s.buf.page s'.buf.page s.buf.pbuf text
  pbuf : s'.buf.pbuf = s.buf.pbuf + text.length
  nleft : s'.buf.nleft = s.buf.nleft - text.length

theorem Wrote.refl (s : TitleCopy) : Wrote s s [] :=
  ⟨held_nil _ _, rfl, by rw [List.length_nil]; omega⟩

theorem Wrote.trans {s s' s'' : TitleCopy} {a b : Bytes} (ha : Wrote s s' a)
    (hb : Wrote s' s'' b) : Wrote s s'' (a ++ b) := by
  have hheld := hb.held
  rw [ha.pbuf] at hheld
  refine ⟨ha.held.append hheld, ?_, ?_⟩
  · rw [hb.pbuf, ha.pbuf, List.length_append, Nat.add_assoc]
  · rw [hb.nleft, ha.nleft, List.length_append]
    omega

theorem put_wrote (s : TitleCopy) (c : UInt8) (psrc : Bytes) : Wrote s (s.put c psrc) [c] :=
  ⟨held_store _ _ _, rfl, rfl⟩

/-- The stretch that is copied ends with the title. -/
theorem copyTerm_spec {k : Nat} : ∀ {s : TitleCopy}, (s.psrc.length : Int) ≤ s.buf.nleft →
    Wrote s (s.copyTerm k) (s.psrc.take k) ∧ (s.copyTerm k).psrc = s.psrc.drop k ∧
      (s.copyTerm k).n = s.n + min k s.psrc.length ∧ (s.copyTerm k).logged = s.logged := by
  induction k with
  | zero =>
      intro s _
      exact ⟨Wrote.refl s, rfl, by rw [Nat.zero_min]; rfl, rfl⟩
  | succ k ih =>
      intro s hroom
      rw [TitleCopy.copyTerm]
      split
      · next hend =>
          rw [hend]
          exact ⟨Wrote.refl s, rfl, rfl, rfl⟩
      · next c psrc hbyte =>
          rw [hbyte, List.length_cons] at hroom
          have hnext := @ih (s.put c psrc) (by
            show (psrc.length : Int) ≤ s.buf.nleft - 1
            omega)
          obtain ⟨hwrote, hpsrc, hn, hlogged⟩ := hnext
          rw [if_pos (by omega), hbyte]
          refine ⟨(put_wrote s c psrc).trans hwrote, hpsrc, ?_, hlogged⟩
          rw [hn, List.length_cons]
          show s.n + 1 + min k psrc.length = _
          omega

theorem print_wrote {s : TitleCopy} {tag : Bytes} (h : (tag.length : Int) < s.buf.nleft) :
    ∃ s', s.print tag = .ok s' ∧ Wrote s s' tag ∧ s'.psrc = s.psrc ∧ s'.n = s.n ∧
      s'.logged = s.logged := by
  refine ⟨_, if_neg (not_lt.2 h.le), ⟨(printed_snprintf _ _ h).held.left, rfl, rfl⟩, rfl, rfl, rfl⟩

/-- The room that a title and the tags around its terms may need. -/
def TitleCopy.need (startTag endTag : Bytes) (s : TitleCopy) : Nat :=
  s.psrc.length + s.terms.length * (startTag.length + endTag.length)

/-- One stretch: its tags and what is left of the title for it. -/
theorem mark_spec {startTag endTag : Bytes} {h : TitleResultTerm} {terms : List TitleResultTerm}
    {s : TitleCopy} (hterms : s.terms = h :: terms)
    (hroom : (s.need startTag endTag : Int) < s.buf.nleft) :
    ∃ s', s.mark startTag endTag h terms = .ok s' ∧
      Wrote s s' (startTag ++ s.psrc.take h.len.toNat ++ endTag) ∧
      s'.psrc = s.psrc.drop h.len.toNat ∧ s'.n = s.n + min h.len.toNat s.psrc.length ∧
      s'.terms = skipSame h terms ∧ s'.logged = s.logged ++ [h] := by
  have hone : startTag.length + endTag.length ≤
      s.terms.length * (startTag.length + endTag.length) := by
    rw [hterms, List.length_cons]
    exact Nat.le_mul_of_pos_left _ (Nat.succ_pos _)
  rw [TitleCopy.need] at hroom
  obtain ⟨s1, hok, hstart, hpsrc, hn, hlogged⟩ := @print_wrote s startTag (by omega)
  obtain ⟨t, ht⟩ : ∃ t : TitleCopy, t = { s1 with logged := s1.logged ++ [h] } := ⟨_, rfl⟩
  have hstart' : Wrote s t startTag := by
    rw [ht]
    exact ⟨hstart.held, hstart.pbuf, hstart.nleft⟩
  have htpsrc : t.psrc = s.psrc := by rw [ht, hpsrc]
  have htn : t.n = s.n := by rw [ht, hn]
  have htlogged : t.logged = s.logged ++ [h] := by rw [ht, hlogged]
  have hleft := hstart'.nleft
  obtain ⟨hcopy, hpsrc', hn', hlogged'⟩ := copyTerm_spec (k := h.len.toNat) (s := t) (by
    rw [htpsrc]
    omega)
  rw [htpsrc] at hcopy hpsrc' hn'
  have hleft' := hcopy.nleft
  have htake : (s.psrc.take h.len.toNat).length ≤ s.psrc.length :=
    (List.take_sublist _ _).length_le
  obtain ⟨s2, hok', hend, hpsrc2, hn2, hlogged2⟩ := @print_wrote (t.copyTerm h.len.toNat)
    endTag (by omega)
  refine ⟨{ s2 with terms := skipSame h terms }, ?_, ?_, hpsrc2.trans hpsrc', ?_, rfl, ?_⟩
  · rw [ht] at hok'
    rw [TitleCopy.mark, hok]
    show ((TitleCopy.copyTerm _ _).print endTag >>= _) = _
    rw [hok']
    rfl
  · have hall := (hstart'.trans hcopy).trans hend
    exact ⟨hall.held, hall.pbuf, hall.nleft⟩
  · exact hn2.trans (by rw [hn', htn])
  · exact hlogged2.trans (hlogged'.trans htlogged)

/-! ## The loop

What is still to be written depends on where the copy is and on the term at the
index. At a byte that no term begins at the loop copies the byte, at the beginning
of a term it marks the term, and each time what is left is the text behind it. -/

/-- The stretches that are still to be marked. -/
def TitleCopy.marks (v : Bytes) (s : TitleCopy) : List Span :=
  begun v.length s.n (firsts (spans s.terms))

/-- The text that is still to be written. -/
def TitleCopy.text (v startTag endTag : Bytes) (s : TitleCopy) : Bytes :=
  flat (parts v startTag endTag (s.marks v) s.n)

/-- The copy is inside the title, and there is room for what is left. -/
structure Copying (v startTag endTag : Bytes) (s : TitleCopy) : Prop where
  psrc : s.psrc = v.drop s.n
  inside : s.n ≤ v.length
  room : (s.need startTag endTag : Int) < s.buf.nleft

/-- From one state to another `text` is written and the stretches `hs` are marked. -/
structure Marking (s s' : TitleCopy) (text : Bytes) (hs : List Span) : Prop where
  wrote : Wrote s s' text
  logged : spans s'.logged = spans s.logged ++ hs

theorem Marking.trans {s s' s'' : TitleCopy} {a b : Bytes} {hs hs' : List Span}
    (ha : Marking s s' a hs) (hb : Marking s' s'' b hs') :
    Marking s s'' (a ++ b) (hs ++ hs') :=
  ⟨ha.wrote.trans hb.wrote, by rw [hb.logged, ha.logged, List.append_assoc]⟩

/-- Behind the title nothing is left. -/
theorem text_end {v : Bytes} (startTag endTag : Bytes) {s : TitleCopy} (h : v.length ≤ s.n) :
    s.marks v = [] ∧ s.text v startTag endTag = [] := by
  have hnone : s.marks v = [] := begun_end h _
  refine ⟨hnone, ?_⟩
  rw [TitleCopy.text, hnone]
  show v.drop s.n ++ [] = []
  rw [List.drop_eq_nil_of_le h, List.append_nil]

/-- There is a byte to copy. -/
theorem Copying.lt {v startTag endTag : Bytes} {s : TitleCopy} {c : UInt8} {psrc : Bytes}
    (hc : Copying v startTag endTag s) (hbyte : s.psrc = c :: psrc) : s.n < v.length := by
  have hlen := congrArg List.length (hbyte.symm.trans hc.psrc)
  rw [List.length_cons, List.length_drop] at hlen
  omega

/-- A byte that no term begins at is copied. -/
theorem text_put {v startTag endTag : Bytes} {s : TitleCopy} {c : UInt8} {psrc : Bytes}
    (hc : Copying v startTag endTag s) (hbyte : s.psrc = c :: psrc)
    (hterm : ∀ h terms, s.terms = h :: terms → s.n ≠ h.offset.toNat) :
    s.marks v = (s.put c psrc).marks v ∧
      s.text v startTag endTag = c :: (s.put c psrc).text v startTag endTag := by
  have hlt := hc.lt hbyte
  have hmarks : s.marks v = (s.put c psrc).marks v := by
    show begun v.length s.n (firsts (spans s.terms)) =
      begun v.length (s.n + 1) (firsts (spans s.terms))
    cases hts : s.terms with
    | nil => rfl
    | cons h terms =>
        have hne : s.n ≠ h.span.offset := hterm h terms hts
        have hiff : (s.n ≤ h.span.offset ∧ h.span.offset < v.length) ↔
            (s.n + 1 ≤ h.span.offset ∧ h.span.offset < v.length) := by omega
        rw [firsts_skipSame, begun, begun]
        simp only [hiff]
  have hfrom : From (s.n + 1) ((s.put c psrc).marks v) := (begun_inOrder _).1
  have hget : v[s.n] = c := by
    have hdrop := hbyte.symm.trans hc.psrc
    rw [List.drop_eq_getElem_cons hlt] at hdrop
    exact (List.cons.inj hdrop).1.symm
  refine ⟨hmarks, ?_⟩
  rw [TitleCopy.text, hmarks, flat_parts_next startTag endTag hlt hfrom, hget]
  rfl

/-- What is left behind a stretch, whether or not it ends with the title. -/
theorem text_stop {v startTag endTag : Bytes} {s : TitleCopy} {stop : Nat}
    (h : s.n = min stop v.length) :
    s.marks v = begun v.length stop (firsts (spans s.terms)) ∧
      s.text v startTag endTag =
        flat (parts v startTag endTag (begun v.length stop (firsts (spans s.terms))) stop) := by
  by_cases hle : stop ≤ v.length
  · rw [Nat.min_eq_left hle] at h
    rw [TitleCopy.text, TitleCopy.marks, h]
    exact ⟨rfl, rfl⟩
  · obtain ⟨hmarks, htext⟩ := text_end startTag endTag (v := v) (s := s) (by omega)
    have hnone := begun_end (Nat.le_of_not_le hle) (firsts (spans s.terms))
    rw [hmarks, htext, hnone]
    refine ⟨rfl, ?_⟩
    show [] = v.drop stop ++ []
    rw [List.drop_eq_nil_of_le (Nat.le_of_not_le hle), List.append_nil]

/-- Where a term begins it is marked, and what is left is the text behind it. -/
theorem text_mark {v startTag endTag : Bytes} {s s' : TitleCopy} {h : TitleResultTerm}
    {terms : List TitleResultTerm} (hc : Copying v startTag endTag s)
    (hlt : s.n < v.length) (hterms : s.terms = h :: terms) (hat : s.n = h.offset.toNat)
    (hn : s'.n = s.n + min h.len.toNat s.psrc.length) (hterms' : s'.terms = skipSame h terms) :
    s.marks v = h.span :: s'.marks v ∧
      s.text v startTag endTag =
        startTag ++ s.psrc.take h.len.toNat ++ endTag ++ s'.text v startTag endTag := by
  have hoffset : h.span.offset = s.n := hat.symm
  have hstop : s'.n = min h.span.stop v.length := by
    rw [hn, hc.psrc, List.length_drop, Span.stop, hoffset]
    show s.n + min h.span.len (v.length - s.n) = _
    omega
  obtain ⟨hmarks', htext'⟩ := @text_stop v startTag endTag s' _ hstop
  rw [hterms'] at hmarks' htext'
  have hmarks : s.marks v = h.span :: s'.marks v := by
    rw [TitleCopy.marks, hterms, firsts_skipSame, begun, if_pos ⟨hoffset.ge, by omega⟩, hmarks']
  have hslice : slice v h.span.offset h.span.stop = s.psrc.take h.len.toNat := by
    have hlen : h.span.stop - h.span.offset = h.len.toNat := Nat.add_sub_cancel_left ..
    rw [slice, List.drop_take, hlen, hc.psrc, hoffset]
  have hnone : slice v s.n h.span.offset = [] := by
    rw [slice, hoffset, List.drop_eq_nil_of_le (List.length_take_le ..)]
  refine ⟨hmarks, ?_⟩
  rw [TitleCopy.text, hmarks, hmarks', htext', parts, hslice, hnone, flat]
  simp [Chunk.bytes, flat]

theorem Copying.put {v startTag endTag : Bytes} {s : TitleCopy} {c : UInt8} {psrc : Bytes}
    (hc : Copying v startTag endTag s) (hbyte : s.psrc = c :: psrc) :
    Copying v startTag endTag (s.put c psrc) := by
  have hdrop := hbyte.symm.trans hc.psrc
  have hlt := hc.lt hbyte
  refine ⟨?_, hlt, ?_⟩
  · rw [List.drop_eq_getElem_cons hlt] at hdrop
    exact (List.cons.inj hdrop).2
  · have hroom := hc.room
    rw [TitleCopy.need, hbyte, List.length_cons] at hroom
    show ((psrc.length + s.terms.length * (startTag.length + endTag.length) : Nat) : Int) <
      s.buf.nleft - 1
    omega

theorem Copying.mark {v startTag endTag : Bytes} {s s' : TitleCopy} {h : TitleResultTerm}
    {terms : List TitleResultTerm} (hc : Copying v startTag endTag s)
    (hterms : s.terms = h :: terms)
    (hwrote : Wrote s s' (startTag ++ s.psrc.take h.len.toNat ++ endTag))
    (hpsrc : s'.psrc = s.psrc.drop h.len.toNat)
    (hn : s'.n = s.n + min h.len.toNat s.psrc.length) (hterms' : s'.terms = skipSame h terms) :
    Copying v startTag endTag s' := by
  have hlen := congrArg List.length hc.psrc
  rw [List.length_drop] at hlen
  have hinside := hc.inside
  refine ⟨?_, by omega, ?_⟩
  · rw [hpsrc, hn, hc.psrc, List.drop_drop, List.length_drop]
    rcases Nat.le_total h.len.toNat (v.length - s.n) with hle | hle
    · rw [Nat.min_eq_left hle]
    · rw [Nat.min_eq_right hle, List.drop_eq_nil_of_le (by omega),
        List.drop_eq_nil_of_le (by omega)]
  · have hroom := hc.room
    have hleft := hwrote.nleft
    have hfewer : (skipSame h terms).length * (startTag.length + endTag.length) ≤
        terms.length * (startTag.length + endTag.length) :=
      Nat.mul_le_mul_right _ (length_skipSame_le h terms)
    rw [TitleCopy.need, hterms, List.length_cons, Nat.succ_mul] at hroom
    rw [TitleCopy.need, hterms', hpsrc, List.length_drop, hleft]
    simp only [List.length_append, List.length_take]
    omega

/-- At the end of the title nothing is done. -/
theorem marking_end {v startTag endTag : Bytes} {s : TitleCopy}
    (hc : Copying v startTag endTag s) (hend : s.psrc = []) :
    Marking s s (s.text v startTag endTag) (s.marks v) := by
  have hlen := congrArg List.length (hend.symm.trans hc.psrc)
  rw [List.length_nil, List.length_drop] at hlen
  obtain ⟨hmarks, htext⟩ := text_end startTag endTag (v := v) (s := s) (by omega)
  rw [hmarks, htext]
  exact ⟨Wrote.refl s, (List.append_nil _).symm⟩

theorem marking_put {v startTag endTag : Bytes} {s s' : TitleCopy} {c : UInt8} {psrc : Bytes}
    (hc : Copying v startTag endTag s) (hbyte : s.psrc = c :: psrc)
    (hterm : ∀ h terms, s.terms = h :: terms → s.n ≠ h.offset.toNat)
    (hnext : Marking (s.put c psrc) s' ((s.put c psrc).text v startTag endTag)
      ((s.put c psrc).marks v)) :
    Marking s s' (s.text v startTag endTag) (s.marks v) := by
  obtain ⟨hmarks, htext⟩ := text_put hc hbyte hterm
  have hput : Marking s (s.put c psrc) [c] [] := ⟨put_wrote s c psrc, (List.append_nil _).symm⟩
  rw [hmarks, htext]
  exact hput.trans hnext

/-- From any place of the title the loop writes the text that is left. -/
theorem titleLoop_spec {v startTag endTag : Bytes} {fuel : Nat} : ∀ {s : TitleCopy},
    Copying v startTag endTag s → s.psrc.length + s.terms.length ≤ fuel →
    ∃ s', titleLoop startTag endTag fuel s = .ok s' ∧
      Marking s s' (s.text v startTag endTag) (s.marks v) := by
  induction fuel with
  | zero =>
      intro s hc hfuel
      exact ⟨s, rfl, marking_end hc (List.eq_nil_of_length_eq_zero (by omega))⟩
  | succ fuel ih =>
      intro s hc hfuel
      rw [titleLoop]
      split
      · next hend => exact ⟨s, rfl, marking_end hc hend⟩
      · next c psrc hbyte =>
          have hroom := hc.room
          rw [TitleCopy.need, hbyte, List.length_cons] at hroom
          rw [hbyte, List.length_cons] at hfuel
          obtain ⟨t, ht, hput⟩ := @ih (s.put c psrc) (hc.put hbyte) (by
            show psrc.length + s.terms.length ≤ fuel
            omega)
          rw [if_pos (by omega)]
          -- a byte is copied, unless the next term begins here
          split
          · next hnone =>
              exact ⟨t, ht, marking_put hc hbyte (fun h terms heq => by simp [hnone] at heq) hput⟩
          · next h terms hterms =>
              split
              · next hat =>
                  obtain ⟨s1, hok, hwrote, hpsrc, hn, hterms', hlogged⟩ :=
                    @mark_spec startTag endTag h terms s hterms hc.room
                  have hfewer := length_skipSame_le h terms
                  have hless : (s.psrc.drop h.len.toNat).length ≤ s.psrc.length :=
                    (List.drop_sublist _ _).length_le
                  rw [hbyte] at hless
                  rw [hterms, List.length_cons] at hfuel
                  obtain ⟨s2, hok2, hrest⟩ := @ih s1 (hc.mark hterms hwrote hpsrc hn hterms') (by
                    rw [hpsrc, hterms', hbyte]
                    rw [List.length_cons] at hless
                    omega)
                  obtain ⟨hmarks, htext⟩ := text_mark hc (hc.lt hbyte) hterms hat hn hterms'
                  have hmark : Marking s s1 (startTag ++ s.psrc.take h.len.toNat ++ endTag)
                      [h.span] := ⟨hwrote, by rw [hlogged, spans, List.map_append]; rfl⟩
                  rw [hok, hmarks, htext]
                  exact ⟨s2, hok2, hmark.trans hrest⟩
              · next hat =>
                  refine ⟨t, ht, marking_put hc hbyte (fun h' terms' heq => ?_) hput⟩
                  rw [hterms] at heq
                  obtain ⟨rfl, -⟩ := List.cons.inj heq
                  exact hat

/-! ## The call

From the front of the title the loop writes all of it, with tags around the terms
it has come to. Those it has not come to are what the condition is about. -/

/-- The parts of the text that marks the stretches that were logged. -/
def MadeTitle.parts (made : MadeTitle) (v startTag endTag : Bytes) : List (Chunk UInt8) :=
  Intervals.parts v startTag endTag (spans made.logged) 0

/-- The terms are in order and none is lost or doubled, and the text that is returned is
the title `v` when its tags are removed. -/
structure MadeTitle.Sound (made : MadeTitle) (v startTag endTag : Bytes)
    (terms : List TitleResultTerm) : Prop where
  perm : made.terms.Perm terms
  sorted : Sorted (spans made.terms)
  ret : made.ret = (flat (made.parts v startTag endTag)).length
  page : read made.page 0 made.ret.toNat = flat (made.parts v startTag endTag)
  unmarked : unmarked (made.parts v startTag endTag) = v

/-- And each term that lies in the title is marked or begins inside a marked stretch. -/
structure MadeTitle.Right (made : MadeTitle) (v startTag endTag : Bytes)
    (terms : List TitleResultTerm) : Prop where
  sound : made.Sound v startTag endTag terms
  marked : ∀ t ∈ terms, InText v.length t.span → Marked (spans made.logged) t.span

/-- The stretches that are marked in a title `v`. -/
def titleMarks (v : Bytes) (terms : List TitleResultTerm) : List Span :=
  begun v.length 0 (firsts (spans (tempSortHighLight terms)))

theorem titleMarks_inOrder (v : Bytes) (terms : List TitleResultTerm) :
    Intervals.InOrder (titleMarks v terms) ∧ From 0 (titleMarks v terms) :=
  ⟨(begun_inOrder 0).2, (begun_inOrder 0).1⟩

theorem sound_of_page {made : MadeTitle} {v startTag endTag text : Bytes}
    {terms : List TitleResultTerm} (hperm : made.terms.Perm terms)
    (hsorted : Sorted (spans made.terms)) (hmarks : spans made.logged = titleMarks v terms)
    (htext : flat (Intervals.parts v startTag endTag (titleMarks v terms) 0) = text)
    (hret : made.ret = text.length) (hpage : read made.page 0 text.length = text) :
    made.Sound v startTag endTag terms := by
  obtain ⟨horder, hfrom⟩ := titleMarks_inOrder v terms
  refine ⟨hperm, hsorted, ?_, ?_, ?_⟩
  · rw [MadeTitle.parts, hmarks, htext, hret]
  · rw [MadeTitle.parts, hmarks, htext, hret]
    exact hpage
  · rw [MadeTitle.parts, hmarks, unmarked_parts v startTag endTag horder hfrom, List.drop_zero]

/-- For every title, all terms and every page with room for the title and the tags. -/
theorem tempMakeHighLight_sound (titleLength : Int) (page : Mem) (nleft : Int)
    (pres : TitleResult) (hilightStartTag hilightEndTag v : Bytes)
    (hcut : v = cutTitle titleLength pres.title.str)
    (hroom : (v.length + pres.highlightTerm.length *
      ((cstr hilightStartTag).length + (cstr hilightEndTag).length) : Int) < nleft) :
    (tempMakeHighLight titleLength page nleft pres hilightStartTag hilightEndTag).Sound v
        (cstr hilightStartTag) (cstr hilightEndTag) pres.highlightTerm ∧
      spans (tempMakeHighLight titleLength page nleft pres hilightStartTag
        hilightEndTag).logged = titleMarks v pres.highlightTerm := by
  have hperm := tempSortHighLight_perm pres.highlightTerm
  rw [tempMakeHighLight, ← hcut]
  simp only
  split
  · next hnone =>
      have hterms := List.length_eq_zero_iff.1 hnone
      have hfits : (v.length : Int) < nleft := by
        rw [hnone] at hroom
        simpa using hroom
      have hmarks : titleMarks v pres.highlightTerm = [] := by rw [hterms]; rfl
      refine ⟨sound_of_page (List.Perm.refl _) ?_ hmarks.symm ?_ rfl
        (printed_snprintf page 0 hfits).held.left.text, hmarks.symm⟩
      · rw [hterms]
        exact List.Pairwise.nil
      · rw [hmarks]
        exact List.append_nil v
  · obtain ⟨s, hok, hmarking⟩ := @titleLoop_spec v (cstr hilightStartTag) (cstr hilightEndTag) _
      ⟨v, 0, tempSortHighLight pres.highlightTerm, [], ⟨page, 0, nleft⟩⟩
      ⟨rfl, Nat.zero_le _, by
        rw [TitleCopy.need]
        simp only
        rw [hperm.length_eq]
        push_cast
        exact hroom⟩ (Nat.le_refl _)
    have hlen := hmarking.wrote.pbuf
    rw [Nat.zero_add] at hlen
    rw [hok]
    exact ⟨sound_of_page hperm (spans_sorted _) hmarking.logged rfl (congrArg Nat.cast hlen)
      hmarking.wrote.held.text, hmarking.logged⟩

/-- The terms are sorted and the title is written whole, for all terms; and each term of
the title is marked or begins inside a marked stretch if and only if none is lost. -/
theorem tempMakeHighLight_right_iff (titleLength : Int) (page : Mem) (nleft : Int)
    (pres : TitleResult) (hilightStartTag hilightEndTag v : Bytes)
    (hcut : v = cutTitle titleLength pres.title.str)
    (hroom : (v.length + pres.highlightTerm.length *
      ((cstr hilightStartTag).length + (cstr hilightEndTag).length) : Int) < nleft) :
    (tempMakeHighLight titleLength page nleft pres hilightStartTag hilightEndTag).Right v
        (cstr hilightStartTag) (cstr hilightEndTag) pres.highlightTerm ↔
      NoneLost v.length (spans (tempSortHighLight pres.highlightTerm)) := by
  obtain ⟨hsound, hmarks⟩ :=
    tempMakeHighLight_sound titleLength page nleft pres hilightStartTag hilightEndTag v hcut hroom
  have hperm := tempSortHighLight_perm pres.highlightTerm
  rw [← begun_marks_iff (spans_sorted pres.highlightTerm)]
  constructor
  · intro h t ht htext
    obtain ⟨u, hu, rfl⟩ := List.mem_map.1 ht
    have hm := h.marked u (hperm.mem_iff.1 hu) htext
    rwa [hmarks] at hm
  · intro h
    refine ⟨hsound, fun t ht htext => ?_⟩
    rw [hmarks]
    exact h t.span (List.mem_map_of_mem (hperm.mem_iff.2 ht)) htext

def titleTerm (offset len : UInt16) : TitleResultTerm := ⟨0, 0, offset, len, 0, 0⟩

/-- The title `abcdef`. -/
def abcdef (terms : List TitleResultTerm) (h : terms.length ≤ maxHightlightNum) : TitleResult :=
  ⟨⟨ascii "abcdef", by decide, by decide⟩, terms, h⟩

theorem tempMakeHighLight_right_iff_two :
    (tempMakeHighLight 0 (fun _ => 0) 100 (abcdef [titleTerm 3 2, titleTerm 0 2] (by decide))
        (ascii "<b>") (ascii "</b>")).Right (ascii "abcdef") (cstr (ascii "<b>"))
        (cstr (ascii "</b>")) [titleTerm 3 2, titleTerm 0 2] ↔
      NoneLost (ascii "abcdef").length
        (spans (tempSortHighLight [titleTerm 3 2, titleTerm 0 2])) :=
  tempMakeHighLight_right_iff 0 (fun _ => 0) 100 (abcdef [titleTerm 3 2, titleTerm 0 2] (by decide))
    (ascii "<b>") (ascii "</b>") (ascii "abcdef") (by decide +kernel) (by decide)

/-- Behind a term that begins inside `abc`, the term at `f` is not marked; and where an
empty term comes first, `abc` is not. -/
theorem tempMakeHighLight_right_fails :
    ¬ (tempMakeHighLight 0 (fun _ => 0) 100
        (abcdef [titleTerm 0 3, titleTerm 1 1, titleTerm 5 1] (by decide)) (ascii "<")
        (ascii ">")).Right (cutTitle 0 (ascii "abcdef")) (ascii "<") (ascii ">")
        [titleTerm 0 3, titleTerm 1 1, titleTerm 5 1] ∧
      ¬ (tempMakeHighLight 0 (fun _ => 0) 100
        (abcdef [titleTerm 0 0, titleTerm 0 3] (by decide)) (ascii "<") (ascii ">")).Right
        (cutTitle 0 (ascii "abcdef")) (ascii "<") (ascii ">")
        [titleTerm 0 0, titleTerm 0 3] := by
  constructor
  · intro h
    have htext : InText (cutTitle 0 (ascii "abcdef")).length (titleTerm 5 1).span := by
      decide +kernel
    exact absurd (h.marked _ (by decide) htext) (by decide +kernel)
  · intro h
    have htext : InText (cutTitle 0 (ascii "abcdef")).length (titleTerm 0 3).span := by
      decide +kernel
    exact absurd (h.marked _ (by decide) htext) (by decide +kernel)

end UiServer
