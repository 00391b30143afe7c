import UiServer.Lib.Codes
import UiServer.Util.Escape

/-!
# `XMLDecode` undoes `XMLEncode`

The decoder compares with one entity after the other at each `&`. In what the
encoder writes every `&` opens an entity, and none of the five begins another, so
the comparison that succeeds is the one with the entity that was written, whatever
stands behind it (`xmlEncodeByte_reads`). The rest is the general reader of
`Codes`.
-/

namespace UiServer

open CMem

/-- The characters that are not written as they are, with their entities. -/
def xmlEntities : List (UInt8 × Bytes) :=
  [(60, "&lt;"), (62, "&gt;"), (34, "&quot;"), (39, "&#39;"), (38, "&amp;")].map
    fun (c, entity) => (c, ascii entity)

/-! ## A character

Five characters have entities and the others are written as they are. A round of
the decoder is a reader of one character, and on what was written for a character
it reads that character, whatever follows. -/

theorem xmlEncodeByte_cases (c : UInt8) :
    (c, xmlEncodeByte c) ∈ xmlEntities ∨
      (xmlEncodeByte c = [c] ∧ c ∉ xmlEntities.map Prod.fst) := by
  rw [xmlEncodeByte]
  split
  · next h => exact Or.inl (by rw [h]; decide)
  · next hlt =>
      split
      · next h => exact Or.inl (by rw [h]; decide)
      · next hgt =>
          split
          · next h => exact Or.inl (by rw [h]; decide)
          · next hquot =>
              split
              · next h => exact Or.inl (by rw [h]; decide)
              · next hdyh =>
                  split
                  · next h => exact Or.inl (by rw [h]; decide)
                  · next hand =>
                      refine Or.inr ⟨rfl, ?_⟩
                      simp only [xmlEntities, List.map_cons, List.map_nil, List.mem_cons,
                        List.not_mem_nil, or_false, not_or]
                      exact ⟨hlt, hgt, hquot, hdyh, hand⟩

theorem xmlEncodeByte_ne_nil (c : UInt8) : xmlEncodeByte c ≠ [] := by
  rw [xmlEncodeByte]
  repeat' split
  all_goals exact List.cons_ne_nil _ _

/-- A round of the decoder as a reader. -/
def xmlRead (src : Bytes) : Option (UInt8 × Bytes) :=
  some ((xmlDecodeChar src).1, src.drop (xmlDecodeChar src).2)

theorem xmlRead_entity : ∀ p ∈ xmlEntities, ∀ rest, xmlRead (p.2 ++ rest) = some (p.1, rest) := by
  simp only [xmlEntities, List.map_cons, List.map_nil, List.forall_mem_cons]
  exact ⟨fun _ => rfl, fun _ => rfl, fun _ => rfl, fun _ => rfl, fun _ => rfl, nofun⟩

theorem xmlEncodeByte_reads : Codes.Reads xmlRead xmlEncodeByte id := by
  intro c rest
  rcases xmlEncodeByte_cases c with h | ⟨h, hc⟩
  · exact xmlRead_entity _ h rest
  · have hand : c ≠ 38 := fun hand => hc (by rw [hand]; decide)
    have hchar : xmlDecodeChar (c :: rest) = (c, 1) := if_neg hand
    rw [h, List.singleton_append, xmlRead, hchar]
    rfl

/-! ## The encoded text

What the entities are made of is looked at once, and holds then of all that is
written: there is no markup in it and no zero, and an `&` only in front of an
entity. -/

/-- The characters that have no business in the text of an element or an
attribute. -/
def xmlMarkup : Bytes := ascii "<>\"'"

theorem xmlEntities_plain : ∀ p ∈ xmlEntities, ∀ b ∈ p.2, b ∉ xmlMarkup ∧ b ≠ 0 := by
  decide +kernel

theorem xmlEntities_and : ∀ p ∈ xmlEntities, ∀ b ∈ p.2.tail, b ≠ 38 := by
  decide +kernel

theorem xmlMarkup_escaped : ∀ b ∈ xmlMarkup, b ∈ xmlEntities.map Prod.fst := by
  decide +kernel

theorem xmlEncode_plain (s : Bytes) : ∀ b ∈ s.flatMap xmlEncodeByte, b ∉ xmlMarkup := by
  intro b hb
  obtain ⟨c, _, hb⟩ := List.mem_flatMap.1 hb
  rcases xmlEncodeByte_cases c with h | ⟨h, hc⟩
  · exact (xmlEntities_plain _ h b hb).1
  · rw [h, List.mem_singleton] at hb
    rw [hb]
    exact fun hmem => hc (xmlMarkup_escaped c hmem)

theorem xmlEncode_nulFree {s : Bytes} (hs : NulFree s) :
    NulFree (s.flatMap xmlEncodeByte) := by
  intro b hb
  obtain ⟨c, hc, hb⟩ := List.mem_flatMap.1 hb
  rcases xmlEncodeByte_cases c with h | ⟨h, _⟩
  · exact (xmlEntities_plain _ h b hb).2
  · rw [h, List.mem_singleton] at hb
    rw [hb]
    exact hs c hc

/-- Every `&` is the first byte of an entity. -/
theorem xmlEncode_and : ∀ (s : Bytes) (i : Nat),
    (s.flatMap xmlEncodeByte)[i]? = some 38 →
    ∃ p ∈ xmlEntities, p.2 <+: (s.flatMap xmlEncodeByte).drop i := by
  intro s
  induction s with
  | nil => intro i h; cases h
  | cons c s ih =>
      intro i h
      rw [List.flatMap_cons] at h ⊢
      by_cases hi : i < (xmlEncodeByte c).length
      · rw [List.getElem?_append_left hi] at h
        rcases xmlEncodeByte_cases c with hent | ⟨hself, hc⟩
        · cases i with
          | zero => exact ⟨_, hent, List.prefix_append _ _⟩
          | succ i =>
              rw [← List.getElem?_tail] at h
              exact absurd rfl (xmlEntities_and _ hent 38 (List.mem_of_getElem? h))
        · have hmem := List.mem_of_getElem? h
          rw [hself, List.mem_singleton] at hmem
          exact absurd (by rw [← hmem]; decide) hc
      · have hge : (xmlEncodeByte c).length ≤ i := Nat.not_lt.1 hi
        rw [List.getElem?_append_right hge] at h
        rw [List.drop_append, List.drop_eq_nil_of_le hge, List.nil_append]
        exact ih _ h

/-! ## The way back

Both passes of the decoder are the reader over and over, so both go through what
was encoded character by character and come out where it ends. -/

/-- Both passes of the decoder go through the string as the reader does. -/
theorem xmlDecode_of_decode : ∀ {fuel : Nat} {src out : Bytes},
    Codes.decode xmlRead fuel src = some out →
    xmlDecodeNeedSize fuel src = out.length ∧
      ∀ size, out.length ≤ size → xmlDecodeLoop size src = out := by
  intro fuel
  induction fuel with
  | zero =>
      intro src out h
      cases src with
      | nil =>
          cases h
          exact ⟨rfl, fun size _ => by cases size <;> rfl⟩
      | cons c src => cases h
  | succ fuel ih =>
      intro src out h
      cases src with
      | nil =>
          cases h
          exact ⟨rfl, fun size _ => by cases size <;> rfl⟩
      | cons c src =>
          rw [Codes.decode, xmlRead] at h
          obtain ⟨out', hrest, rfl⟩ := Option.map_eq_some_iff.1 h
          obtain ⟨hneed, hloop⟩ := ih hrest
          refine ⟨?_, fun size hsize => ?_⟩
          · rw [xmlDecodeNeedSize, hneed, List.length_cons]
          · obtain ⟨size, rfl⟩ : ∃ k, size = k + 1 := ⟨size - 1, by
              rw [List.length_cons] at hsize
              omega⟩
            show (xmlDecodeChar (c :: src)).1 ::
              xmlDecodeLoop size ((c :: src).drop (xmlDecodeChar (c :: src)).2) = _
            rw [hloop size (by simpa using hsize)]

/-- A string without zero bytes is encoded into any buffer that holds the result,
which has no markup in it and no `&` that opens no entity, and any buffer that
holds the string gets it back. -/
theorem xmlDecode_xmlEncode (s : Bytes) (hs : NulFree s) :
    ∃ out : Bytes,
      (∀ size, max 2 (out.length + 1) ≤ size →
        xmlEncodeCall s size = ⟨out ++ [0], out.length⟩) ∧
      (∀ b ∈ out, b ∉ xmlMarkup) ∧
      (∀ i, out[i]? = some 38 → ∃ p ∈ xmlEntities, p.2 <+: out.drop i) ∧
      ∀ size, max 2 (s.length + 1) ≤ size →
        xmlDecodeCall (cstr (out ++ [0])) size = ⟨s ++ [0], s.length⟩ := by
  refine ⟨s.flatMap xmlEncodeByte, fun size hsize => ?_, xmlEncode_plain s,
    xmlEncode_and s, fun size hsize => ?_⟩
  · rw [xmlEncodeCall_eq, xmlEncode, if_neg (by omega)]
    rfl
  · have hstr := cstr_terminated (xmlEncode_nulFree hs) []
    have hdecode := Codes.decode_flatMap xmlEncodeByte_reads xmlEncodeByte_ne_nil
      (Codes.length_le_flatMap xmlEncodeByte_ne_nil s)
    rw [List.map_id] at hdecode
    obtain ⟨hneed, hloop⟩ := xmlDecode_of_decode hdecode
    rw [hstr, xmlDecodeCall, if_neg (by omega)]
    simp only [hneed]
    rw [if_neg (by omega), hloop _ (by omega)]

/-- `&lt;` itself goes there and back. -/
theorem xmlDecode_xmlEncode_lt :
    ∃ out : Bytes,
      (∀ size, max 2 (out.length + 1) ≤ size →
        xmlEncodeCall (ascii "&lt;") size = ⟨out ++ [0], out.length⟩) ∧
      (∀ b ∈ out, b ∉ xmlMarkup) ∧
      (∀ i, out[i]? = some 38 → ∃ p ∈ xmlEntities, p.2 <+: out.drop i) ∧
      ∀ size, max 2 ((ascii "&lt;").length + 1) ≤ size →
        xmlDecodeCall (cstr (out ++ [0])) size =
          ⟨ascii "&lt;" ++ [0], (ascii "&lt;").length⟩ :=
  xmlDecode_xmlEncode (ascii "&lt;") (by decide)

end UiServer
