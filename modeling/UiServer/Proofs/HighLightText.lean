import UiServer.Proofs.Cutdown
import UiServer.Proofs.HighLight

/-!
# The marked text in its page

The text is the value cut down with the tags around the places of its words. Each
piece of it is printed for itself, and the room is asked for after it has been taken
off: a piece is refused unless as much room as it takes is left behind it (`Roomy`).

A page of more than twice the size of the text has that room
(`asTempMakeHighLight_marked`). A page the text would fit in need not have it, and an
empty text is taken to fit where there is no room for its terminator; apart from
that the answer is right (`asTempMakeHighLight_right_iff`).
-/

namespace UiServer

open CMem Intervals

/-! ## Printing piece by piece

A piece is printed and the room behind it is counted, then the same number is
asked for once more. So each piece has to leave as much room as it has taken, and
where one does not the text is refused. -/

def printAll (ps : List Bytes) (b : HighLightBuf) : Except Mem HighLightBuf :=
  ps.foldlM HighLightBuf.print b

/-- Behind each piece there is as much room left as it takes. -/
def Roomy (nleft : Int) (ps : List Bytes) : Prop :=
  ∀ pre piece post, ps = pre ++ piece :: post →
    (pre.flatten.length + 2 * piece.length : Int) ≤ nleft

theorem roomy_nil (nleft : Int) : Roomy nleft [] := by
  intro pre piece post h
  simp at h

theorem roomy_cons {nleft : Int} {p : Bytes} {ps : List Bytes} :
    Roomy nleft (p :: ps) ↔ 2 * (p.length : Int) ≤ nleft ∧ Roomy (nleft - p.length) ps := by
  constructor
  · intro h
    refine ⟨?_, fun pre piece post heq => ?_⟩
    · have hfirst := h [] p ps rfl
      simpa using hfirst
    · have hnext := h (p :: pre) piece post (by rw [heq]; rfl)
      rw [List.flatten_cons, List.length_append] at hnext
      omega
  · intro ⟨hfirst, hrest⟩ pre piece post heq
    cases pre with
    | nil =>
        obtain ⟨rfl, -⟩ := List.cons.inj heq
        simpa using hfirst
    | cons q pre =>
        obtain ⟨rfl, htail⟩ := List.cons.inj heq
        have hnext := hrest pre piece post htail
        rw [List.flatten_cons, List.length_append]
        omega

/-- A page of twice the size of the text is roomy. -/
theorem roomy_of_double {nleft : Int} {ps : List Bytes}
    (h : 2 * (ps.flatten.length : Int) ≤ nleft) : Roomy nleft ps := by
  intro pre piece post heq
  rw [heq] at h
  simp only [List.flatten_append, List.flatten_cons, List.length_append] at h
  omega

/-- A roomy page is larger than the text, unless both are empty. -/
theorem Roomy.le {nleft : Int} {ps : List Bytes} (h : Roomy nleft ps) (hne : ps ≠ []) :
    (ps.flatten.length : Int) ≤ nleft ∧
      ((ps.flatten.length : Int) = nleft → ps.flatten.length = 0) := by
  induction ps generalizing nleft with
  | nil => exact absurd rfl hne
  | cons p ps ih =>
      obtain ⟨hfirst, hrest⟩ := roomy_cons.1 h
      rw [List.flatten_cons, List.length_append]
      cases ps with
      | nil =>
          rw [List.flatten_nil, List.length_nil]
          omega
      | cons q ps =>
          obtain ⟨hle, heq⟩ := ih hrest (List.cons_ne_nil _ _)
          omega

theorem print_ok {b : HighLightBuf} {text : Bytes} (h : 2 * (text.length : Int) ≤ b.nleft) :
    b.print text = .ok ⟨snprintf b.page b.pbuf (sizeOfInt b.nleft) text, b.pbuf + text.length,
      b.nleft - text.length⟩ := by
  have hroom : ¬ b.nleft - text.length < text.length := by omega
  rw [HighLightBuf.print]
  exact if_neg hroom

theorem print_error {b : HighLightBuf} {text : Bytes} (h : ¬ 2 * (text.length : Int) ≤ b.nleft) :
    b.print text = .error (snprintf b.page b.pbuf (sizeOfInt b.nleft) text) := by
  have hroom : b.nleft - text.length < text.length := by omega
  rw [HighLightBuf.print]
  exact if_pos hroom

theorem printAll_cons_ok {b : HighLightBuf} {p : Bytes} {ps : List Bytes}
    (h : 2 * (p.length : Int) ≤ b.nleft) :
    printAll (p :: ps) b = printAll ps ⟨snprintf b.page b.pbuf (sizeOfInt b.nleft) p,
      b.pbuf + p.length, b.nleft - p.length⟩ := by
  rw [printAll, List.foldlM_cons, print_ok h]
  rfl

theorem printAll_error {ps : List Bytes} : ∀ {b : HighLightBuf}, ¬ Roomy b.nleft ps →
    ∃ page, printAll ps b = .error page := by
  induction ps with
  | nil => exact fun h => absurd (roomy_nil _) h
  | cons p ps ih =>
      intro b h
      by_cases hfirst : 2 * (p.length : Int) ≤ b.nleft
      · rw [printAll_cons_ok hfirst]
        exact ih fun hrest => h (roomy_cons.2 ⟨hfirst, hrest⟩)
      · rw [printAll, List.foldlM_cons, print_error hfirst]
        exact ⟨_, rfl⟩

theorem printAll_ok {ps : List Bytes} : ∀ {b : HighLightBuf}, Roomy b.nleft ps →
    ∃ page, printAll ps b =
      .ok ⟨page, b.pbuf + ps.flatten.length, b.nleft - ps.flatten.length⟩ := by
  induction ps with
  | nil =>
      intro b _
      refine ⟨b.page, congrArg Except.ok ?_⟩
      simp
  | cons p ps ih =>
      intro b h
      obtain ⟨hfirst, hrest⟩ := roomy_cons.1 h
      obtain ⟨page, hpage⟩ := @ih ⟨snprintf b.page b.pbuf (sizeOfInt b.nleft) p,
        b.pbuf + p.length, b.nleft - p.length⟩ hrest
      refine ⟨page, ?_⟩
      have hlen : ((p ++ ps.flatten).length : Int) = p.length + ps.flatten.length := by
        rw [List.length_append]
        omega
      rw [printAll_cons_ok hfirst, hpage, List.flatten_cons, hlen, List.length_append]
      simp only [Nat.add_assoc, Int.sub_sub]

/-- What a page holds behind `pbuf` when the text has been printed there. -/
structure Printed (before page : Mem) (pbuf : Nat) (text : Bytes) : Prop where
  kept : ∀ i < pbuf, page i = before i
  text : read page pbuf (text.length + 1) = text ++ [0]

theorem printed_snprintf (page : Mem) (pbuf : Nat) {nleft : Int} {text : Bytes}
    (h : (text.length : Int) < nleft) :
    Printed page (snprintf page pbuf (sizeOfInt nleft) text) pbuf text := by
  have hsize : text.length < sizeOfInt nleft := by
    rw [sizeOfInt, if_neg (by omega)]
    omega
  have hlen : text.length + 1 = (text ++ [0]).length := by rw [List.length_append]; rfl
  rw [snprintf_eq, printed_of_lt hsize]
  exact ⟨fun i hi => store_lt hi, by rw [hlen, read_store]⟩

theorem Printed.held {before page : Mem} {pbuf : Nat} {text : Bytes}
    (h : Printed before page pbuf text) : Held before page pbuf (text ++ [0]) := by
  refine ⟨h.kept, ?_⟩
  rw [List.length_append, List.length_singleton, h.text]

/-- The terminator of a text is where the next one goes. -/
theorem Printed.append {before page page' : Mem} {pbuf : Nat} {a b : Bytes}
    (ha : Printed before page pbuf a) (hb : Printed page page' (pbuf + a.length) b) :
    Printed before page' pbuf (a ++ b) := by
  have hall := ha.held.left.append hb.held
  rw [← List.append_assoc] at hall
  have htext := hall.text
  rw [List.length_append, List.length_singleton] at htext
  exact ⟨hall.kept, htext⟩

theorem printAll_printed {ps : List Bytes} (hne : ps ≠ []) : ∀ {b b' : HighLightBuf},
    Roomy b.nleft ps → (ps.flatten.length : Int) < b.nleft → printAll ps b = .ok b' →
    Printed b.page b'.page b.pbuf ps.flatten := by
  induction ps with
  | nil => exact absurd rfl hne
  | cons p ps ih =>
      intro b b' hroomy hlt hok
      obtain ⟨hfirst, hrest⟩ := roomy_cons.1 hroomy
      rw [List.flatten_cons, List.length_append] at hlt
      have hhead : Printed b.page (snprintf b.page b.pbuf (sizeOfInt b.nleft) p) b.pbuf p :=
        printed_snprintf b.page b.pbuf (by omega)
      rw [printAll_cons_ok hfirst] at hok
      cases ps with
      | nil =>
          cases hok
          rw [List.flatten_cons, List.flatten_nil, List.append_nil]
          exact hhead
      | cons q ps =>
          have htail := ih (List.cons_ne_nil _ _) hrest (by
            show _ < b.nleft - p.length
            omega) hok
          rw [List.flatten_cons]
          exact hhead.append htail

/-! ## The pieces of the text

The copy takes the stretch up to a place, the tag, the place and the tag behind
it. The pieces in a row are the text with the tags around the places. -/

theorem cutAt_eq {v : Bytes} (hv : NulFree v) {pf p : Nat} (hpf : pf ≤ p) (hp : p ≤ v.length) :
    cutAt v pf p = slice v pf p := by
  have hslice : NulFree (slice v pf p) :=
    hv.sublist ((List.drop_sublist _ _).trans (List.take_sublist _ _))
  rcases Nat.lt_or_eq_of_le hp with hlt | rfl
  · have htake : pf ≤ (v.take p).length := by
      rw [List.length_take]
      omega
    rw [cutAt, List.set_eq_take_append_cons_drop, if_pos hlt, List.drop_append_of_le_length htake]
    exact cstr_terminated hslice _
  · rw [cutAt, List.set_eq_of_length_le (Nat.le_refl _)]
    rw [slice, List.take_length] at hslice ⊢
    exact cstr_of_nulFree hslice

def markedPieces (v startTag endTag : Bytes) (hl : List HighLight) (pf : Nat) : List Bytes :=
  (parts v startTag endTag hl pf).map Chunk.bytes

theorem markedPieces_ne_nil (v startTag endTag : Bytes) (hl : List HighLight) (pf : Nat) :
    markedPieces v startTag endTag hl pf ≠ [] := by
  cases hl with
  | nil => exact List.cons_ne_nil _ _
  | cons h hl => exact List.cons_ne_nil _ _

theorem copyLoop_eq {v : Bytes} (hv : NulFree v) (startTag endTag : Bytes)
    {hl : List HighLight} : ∀ {pf : Nat} {b : HighLightBuf}, Apart hl → From pf hl →
    Within v.length hl →
    copyLoop v startTag endTag hl pf b = printAll (markedPieces v startTag endTag hl pf) b := by
  induction hl with
  | nil =>
      intro pf b _ _ _
      rw [copyLoop, markedPieces, parts, List.map_singleton, printAll, List.foldlM_cons]
      simp [Chunk.bytes]
  | cons h hl ih =>
      intro pf b ha hfrom hwithin
      obtain ⟨hstop, hwithin⟩ := within_cons.1 hwithin
      have hpf : pf ≤ h.offset := hfrom h (List.mem_cons_self ..)
      have hle : h.offset ≤ h.stop := Nat.le_add_right _ _
      have htail := fun b => @ih h.stop b (apart_cons.1 ha).2.2 ha.from_stop hwithin
      have hplain := cutAt_eq hv hpf (Nat.le_trans hle hstop)
      have hmarked := cutAt_eq hv hle hstop
      rw [Span.stop] at hmarked htail
      rw [copyLoop, hplain, hmarked]
      simp only [htail]
      rfl

/-! ## The call

The text is printed in pieces for which there is room or not, and the places in it
are the merged list of those found. The two questions have nothing to do with each
other. -/

theorem nulFree_cutValue (highLightLength leftLen : Int) (value : Bytes) :
    NulFree (cutValue highLightLength leftLen value) := by
  rw [cutValue]
  split
  · exact nulFree_cstr _
  · exact nulFree_cstr _

/-- The parts of the text that marks the places found of the words. -/
def markedParts (v startTag endTag : Bytes) (terms : List QueryTerm) : List (Chunk UInt8) :=
  parts v (cstr startTag) (cstr endTag) (coalesce (found v terms)) 0

/-- Without words there is one piece. -/
theorem asTempMakeHighLight_eq (highLightLength : Int) (page : Mem) (nleft : Int)
    (value startTag endTag : Bytes) (terms : List QueryTerm) (leftLen : Int) :
    asTempMakeHighLight highLightLength page nleft value startTag endTag terms leftLen =
      madeHighLight (printAll ((markedParts (cutValue highLightLength leftLen value) startTag
        endTag terms).map Chunk.bytes) ⟨page, 0, nleft⟩) := by
  have hfull := found_full (cutValue highLightLength leftLen value) terms
  have hcopy := copyLoop_eq (b := ⟨page, 0, nleft⟩) (nulFree_cutValue highLightLength leftLen value)
    (cstr startTag) (cstr endTag) (coalesce_apart hfull) (fun h _ => Nat.zero_le h.offset)
    (coalesce_within hfull (found_within _ terms))
  rw [asTempMakeHighLight]
  split
  · next hnone =>
      rw [List.length_eq_zero_iff.1 hnone, markedParts]
      show _ = madeHighLight (printAll [(cutValue highLightLength leftLen value).drop 0] _)
      rw [List.drop_zero, printAll, List.foldlM_cons]
      simp
  · rw [highLights_eq]
    exact congrArg madeHighLight hcopy

/-- The places that are marked: in order, with a gap between any two, inside the text,
and together those that were found. -/
structure Marks (v : Bytes) (terms : List QueryTerm) (hl : List HighLight) : Prop where
  apart : Apart hl
  within : Within v.length hl
  covers : ∀ i, Covers hl i ↔ Covers (found v terms) i

theorem marks_coalesce (v : Bytes) (terms : List QueryTerm) :
    Marks v terms (coalesce (found v terms)) where
  apart := coalesce_apart (found_full v terms)
  within := coalesce_within (found_full v terms) (found_within v terms)
  covers := coalesce_covers (found v terms)

theorem unmarked_markedParts (v startTag endTag : Bytes) (terms : List QueryTerm) :
    unmarked (markedParts v startTag endTag terms) = v := by
  rw [markedParts, unmarked_parts v _ _ (marks_coalesce v terms).apart.inOrder
    fun h _ => Nat.zero_le _, List.drop_zero]

/-- The text and its terminator stand in the page, and its length is returned. -/
def MadeHighLight.Complete (made : MadeHighLight) (text : Bytes) : Prop :=
  made.ret = text.length ∧ read made.page 0 (text.length + 1) = text ++ [0]

theorem madeHighLight_complete {ps : List Bytes} (hne : ps ≠ []) {page : Mem} {nleft : Int}
    (hroomy : Roomy nleft ps) (hlt : (ps.flatten.length : Int) < nleft) :
    (madeHighLight (printAll ps ⟨page, 0, nleft⟩)).Complete ps.flatten := by
  obtain ⟨page', hok⟩ := @printAll_ok ps ⟨page, 0, nleft⟩ hroomy
  have hprinted := printAll_printed hne hroomy hlt hok
  rw [hok]
  refine ⟨?_, hprinted.text⟩
  show ((0 + ps.flatten.length : Nat) : Int) = _
  rw [Nat.zero_add]

theorem markedParts_ne_nil (v startTag endTag : Bytes) (terms : List QueryTerm) :
    (markedParts v startTag endTag terms).map Chunk.bytes ≠ [] :=
  markedPieces_ne_nil _ _ _ _ _

/-- For every value, every list of words and every page; `v` is the value cut down. -/
theorem asTempMakeHighLight_marked (highLightLength : Int) (page : Mem) (nleft : Int)
    (value startTag endTag : Bytes) (terms : List QueryTerm) (leftLen : Int) (v : Bytes)
    (hcut : v = cutValue highLightLength leftLen value)
    (hvalue : (cstr value).length < 1020)
    (hroom : 2 * ((flat (markedParts v startTag endTag terms)).length : Int) < nleft) :
    Marks v terms (coalesce (found v terms)) ∧ v.length < 1024 ∧
      unmarked (markedParts v startTag endTag terms) = v ∧
      (asTempMakeHighLight highLightLength page nleft value startTag endTag terms
        leftLen).Complete (flat (markedParts v startTag endTag terms)) := by
  subst hcut
  refine ⟨marks_coalesce _ terms, length_cutValue _ _ hvalue, unmarked_markedParts .., ?_⟩
  rw [asTempMakeHighLight_eq]
  rw [flat] at hroom ⊢
  exact madeHighLight_complete (markedParts_ne_nil _ _ _ _) (roomy_of_double (by omega)) (by omega)

/-- Two words that overlap in `abc`. -/
def overlapping : List QueryTerm :=
  [⟨ascii "ab", by decide, by decide⟩, ⟨ascii "bc", by decide, by decide⟩]

theorem asTempMakeHighLight_marked_two :
    Marks (ascii "xabcab") overlapping (coalesce (found (ascii "xabcab") overlapping)) ∧
      (ascii "xabcab").length < 1024 ∧
      unmarked (markedParts (ascii "xabcab") (ascii "<b>") (ascii "</b>") overlapping) =
        ascii "xabcab" ∧
      (asTempMakeHighLight 100 (fun _ => 0) 200 (ascii "xabcab") (ascii "<b>") (ascii "</b>")
        overlapping 5).Complete
          (flat (markedParts (ascii "xabcab") (ascii "<b>") (ascii "</b>") overlapping)) :=
  asTempMakeHighLight_marked 100 (fun _ => 0) 200 (ascii "xabcab") (ascii "<b>") (ascii "</b>")
    overlapping 5 (ascii "xabcab") (by decide +kernel) (by decide) (by decide +kernel)

example : flat (markedParts (ascii "xabcab") (ascii "<") (ascii ">") overlapping) =
    ascii "x<abcab>" := by
  decide +kernel

/-- The answer to a text and a page of `nleft` bytes. -/
structure MadeHighLight.Right (made : MadeHighLight) (text : Bytes) (nleft : Int) : Prop where
  refused : made.ret = -1 ↔ nleft ≤ text.length
  complete : (text.length : Int) < nleft → made.Complete text

/-- Each piece leaves as much room as it takes, if the text fits at all, and an empty text
has some room. -/
structure RoomyText (nleft : Int) (ps : List Bytes) : Prop where
  roomy : (ps.flatten.length : Int) < nleft → Roomy nleft ps
  terminator : ¬ (ps.flatten.length = 0 ∧ nleft = 0)

theorem madeHighLight_right_iff {ps : List Bytes} (hne : ps ≠ []) (page : Mem) (nleft : Int) :
    (madeHighLight (printAll ps ⟨page, 0, nleft⟩)).Right ps.flatten nleft ↔
      RoomyText nleft ps := by
  by_cases hroomy : Roomy nleft ps
  · -- accepted: right unless the text is empty and there is no room
    obtain ⟨hle, hempty⟩ := hroomy.le hne
    obtain ⟨page', hok⟩ := @printAll_ok ps ⟨page, 0, nleft⟩ hroomy
    have hret : (madeHighLight (printAll ps ⟨page, 0, nleft⟩)).ret ≠ -1 := by
      rw [hok]
      show ((0 + ps.flatten.length : Nat) : Int) ≠ -1
      omega
    constructor
    · intro h
      refine ⟨fun _ => hroomy, fun ⟨hlen, hnone⟩ => hret (h.refused.2 ?_)⟩
      omega
    · intro h
      have hlt : (ps.flatten.length : Int) < nleft := by
        refine lt_of_le_of_ne hle fun heq => h.terminator ⟨hempty heq, ?_⟩
        have hlen := hempty heq
        omega
      exact ⟨⟨fun h => absurd h hret, fun h => absurd h (by omega)⟩,
        fun _ => madeHighLight_complete hne hroomy hlt⟩
  · -- refused: right if the text does not fit
    obtain ⟨page', herror⟩ := @printAll_error ps ⟨page, 0, nleft⟩ hroomy
    have hret : (madeHighLight (printAll ps ⟨page, 0, nleft⟩)).ret = -1 := by rw [herror]; rfl
    constructor
    · intro h
      have hge := h.refused.1 hret
      refine ⟨fun hlt => absurd hlt (by omega), fun ⟨hlen, hnone⟩ => hroomy ?_⟩
      exact roomy_of_double (by omega)
    · intro h
      have hge : nleft ≤ ps.flatten.length := by
        by_contra hlt
        exact hroomy (h.roomy (by omega))
      exact ⟨⟨fun _ => hge, fun _ => hret⟩, fun hlt => absurd hlt (by omega)⟩

/-- For every value, every list of words, every pair of tags and every room; `v` is the
value cut down. -/
theorem asTempMakeHighLight_right_iff (highLightLength : Int) (page : Mem) (nleft : Int)
    (value startTag endTag : Bytes) (terms : List QueryTerm) (leftLen : Int) :
    (asTempMakeHighLight highLightLength page nleft value startTag endTag terms leftLen).Right
        (flat (markedParts (cutValue highLightLength leftLen value) startTag endTag terms))
        nleft ↔
      RoomyText nleft ((markedParts (cutValue highLightLength leftLen value) startTag endTag
        terms).map Chunk.bytes) := by
  rw [asTempMakeHighLight_eq]
  exact madeHighLight_right_iff (markedParts_ne_nil _ _ _ _) page nleft

/-- `ab` and its terminator fit three bytes and are refused; and no room at all is enough
for the terminator of an empty text. -/
theorem asTempMakeHighLight_right_fails :
    ¬ (asTempMakeHighLight 0 (fun _ => 0) 3 (ascii "ab") [] [] [] 0).Right
        (flat (markedParts (cutValue 0 0 (ascii "ab")) [] [] [])) 3 ∧
      ¬ (asTempMakeHighLight 0 (fun _ => 0) 0 [] [] [] [] 0).Right
        (flat (markedParts (cutValue 0 0 []) [] [] [])) 0 := by
  constructor
  · intro h
    have hret : (asTempMakeHighLight 0 (fun _ => 0) 3 (ascii "ab") [] [] [] 0).ret = -1 := by
      decide
    exact absurd (h.refused.1 hret) (by decide)
  · intro h
    have hret : (asTempMakeHighLight 0 (fun _ => 0) 0 [] [] [] [] 0).ret = 0 := by decide
    exact absurd (hret.symm.trans (h.refused.2 (by decide))) (by decide)

end UiServer
