import UiServer.Proofs.Xml

/-!
# The room of the XML functions

Each of `XMLEncode` and `XMLDecode` counts with one loop and writes with another,
which stops when the room is used up. The two loops take the same decision at
every place of every string, half entities included (`xmlEncode_agree`,
`xmlDecode_agree`), so the count is what the second loop needs: it reads the whole
string and writes as many bytes as were counted.
-/

namespace UiServer

open CMem

theorem xmlEncodeLen_pos (c : UInt8) : 0 < xmlEncodeLen c := by
  rw [← length_xmlEncodeByte_eq]
  exact List.length_pos_iff.2 (xmlEncodeByte_ne_nil c)

theorem xmlDecodeLen_eq (src : Bytes) : xmlDecodeLen src = (xmlDecodeChar src).2 := by
  rw [xmlDecodeLen, xmlDecodeChar]
  repeat' split
  all_goals rfl

theorem xmlDecodeLen_pos (src : Bytes) : 0 < xmlDecodeLen src := by
  rw [xmlDecodeLen]
  repeat' split
  all_goals decide

theorem xmlEncode_agree : TwoPass.Agree xmlEncodeCount xmlEncodeItem where
  moves := fun _ _ => rfl
  moves_pos := fun _ _ => Nat.zero_lt_one
  size := fun a _ => length_xmlEncodeByte_eq a
  size_pos := fun a _ => xmlEncodeLen_pos a

theorem xmlDecode_agree : TwoPass.Agree xmlDecodeCount xmlDecodeItem where
  moves := fun a s => (xmlDecodeLen_eq (a :: s)).symm
  moves_pos := fun a s => xmlDecodeLen_pos (a :: s)
  size := fun _ _ => rfl
  size_pos := fun _ _ => Nat.zero_lt_one

/-! ## The calls

The counting loop and the writing loop are the two passes of the library, and what
it says of two passes that agree is said here of the calls: with their refusals,
the room as the `int` it is, and the terminator. -/

theorem measure_xmlEncodeCount (src : Bytes) :
    TwoPass.measure xmlEncodeCount src.length src = xmlEncodeNeedSize src := by
  induction src with
  | nil => rfl
  | cons c src ih =>
      rw [List.length_cons, TwoPass.measure, xmlEncodeNeedSize, Nat.add_comm]
      exact congrArg (xmlEncodeLen c + ·) ih

theorem measure_xmlDecodeCount : ∀ (fuel : Nat) (src : Bytes),
    TwoPass.measure xmlDecodeCount fuel src = xmlDecodeNeedSize fuel src := by
  intro fuel
  induction fuel with
  | zero => intro src; rfl
  | succ fuel ih =>
      intro src
      cases src with
      | nil => rfl
      | cons c src =>
          rw [TwoPass.measure, xmlDecodeNeedSize, ih, xmlDecodeCount, xmlDecodeLen_eq]

/-- Where the loop counts its room in `Nat`, it writes the same. -/
theorem write_xmlEncodeItem : ∀ (src : Bytes) (room : Nat),
    xmlEncodeNeedSize src ≤ room →
    (TwoPass.write xmlEncodeItem src.length src room).out = xmlEncodeLoop src room := by
  intro src
  induction src with
  | nil => intro room _; rfl
  | cons c src ih =>
      intro room h
      have hpos := xmlEncodeLen_pos c
      have hlen := length_xmlEncodeByte_eq c
      rw [xmlEncodeNeedSize] at h
      have hsub : (room : Int) - (xmlEncodeByte c).length =
          ((room - xmlEncodeLen c : Nat) : Int) := by omega
      have hrest := ih (room - xmlEncodeLen c) (by omega)
      rw [List.length_cons, TwoPass.write, if_neg (by omega), xmlEncodeLoop,
        if_neg (by omega), ← hrest, ← hsub]
      rfl

theorem write_xmlDecodeItem : ∀ (fuel : Nat) (src : Bytes) (room : Nat),
    src.length ≤ fuel →
    (TwoPass.write xmlDecodeItem fuel src room).out = xmlDecodeLoop room src := by
  intro fuel
  induction fuel with
  | zero =>
      intro src room h
      have hs : src = [] := List.length_eq_zero_iff.1 (Nat.le_zero.1 h)
      subst hs
      cases room <;> rfl
  | succ fuel ih =>
      intro src room h
      cases src with
      | nil => cases room <;> rfl
      | cons c src =>
          cases room with
          | zero => rfl
          | succ room =>
              have hpos := xmlDecodeLen_pos (c :: src)
              rw [xmlDecodeLen_eq] at hpos
              have hlen : ((c :: src).drop (xmlDecodeChar (c :: src)).2).length ≤ fuel := by
                rw [List.length_drop, List.length_cons]
                rw [List.length_cons] at h
                omega
              have hsub : ((room + 1 : Nat) : Int) - 1 = room := by omega
              have hrest := ih _ room hlen
              rw [TwoPass.write, if_neg (by omega), xmlDecodeLoop]
              rw [← hsub] at hrest
              exact congrArg ((xmlDecodeChar (c :: src)).1 :: ·) hrest

/-- What the calls store and answer is what they are said to elsewhere. -/
theorem xmlEncodeRun_call (src : Bytes) (size : Nat) :
    (⟨(xmlEncodeRun src size).stored, (xmlEncodeRun src size).num⟩ : Converted) =
      xmlEncodeCall src size := by
  rw [xmlEncodeRun, xmlRun, xmlEncodeCall, measure_xmlEncodeCount]
  by_cases hsize : size < 2
  · rw [if_pos (by omega), if_pos hsize]
    rfl
  · rw [if_neg (by omega), if_neg hsize]
    by_cases hneed : size - 1 < xmlEncodeNeedSize src
    · rw [if_pos (by omega), if_pos hneed]
      rfl
    · have hsub : (size : Int) - 1 = ((size - 1 : Nat) : Int) := by omega
      have hwrite := write_xmlEncodeItem src (size - 1) (by omega)
      rw [if_neg (by omega), if_neg hneed, ← hwrite, hsub]

theorem xmlDecodeRun_call (src : Bytes) (size : Nat) :
    (⟨(xmlDecodeRun src size).stored, (xmlDecodeRun src size).num⟩ : Converted) =
      xmlDecodeCall src size := by
  rw [xmlDecodeRun, xmlRun, xmlDecodeCall, measure_xmlDecodeCount]
  by_cases hsize : size < 2
  · rw [if_pos (by omega), if_pos hsize]
    rfl
  · rw [if_neg (by omega), if_neg hsize]
    by_cases hneed : size - 1 < xmlDecodeNeedSize src.length src
    · rw [if_pos (by omega), if_pos hneed]
      rfl
    · have hsub : (size : Int) - 1 = ((size - 1 : Nat) : Int) := by omega
      have hwrite := write_xmlDecodeItem src.length src (size - 1) (Nat.le_refl _)
      rw [if_neg (by omega), if_neg hneed, ← hwrite, hsub]

/-- A call with `size` bytes of room and a count of `needSize`: it is refused with
nothing stored, exactly when the bytes and the terminator do not fit or there are
fewer than two; otherwise its loop is whole and a terminator stands behind what it
has written, inside the room. -/
structure Measured (run : XmlRun) (needSize : Nat) (size : Int) : Prop where
  refused : (run.num = -1 ∧ run.stored = []) ↔ (size < 2 ∨ size - 1 < needSize)
  written : ¬ (size < 2 ∨ size - 1 < needSize) → ∃ pass : TwoPass.Pass UInt8 UInt8,
    run.pass = some pass ∧ pass.Whole needSize ∧ run.stored = pass.out ++ [0] ∧
      (run.stored.length : Int) ≤ size ∧ run.num = needSize

theorem xmlRun_measured {count : Bytes → Nat × Nat} {item : Bytes → Bytes × Nat}
    (h : TwoPass.Agree count item) (src : Bytes) (size : Int) :
    Measured (xmlRun count item src size) (TwoPass.measure count src.length src) size := by
  rw [xmlRun]
  by_cases hsize : size < 2
  · rw [if_pos hsize]
    exact ⟨⟨fun _ => Or.inl hsize, fun _ => ⟨rfl, rfl⟩⟩, fun hin => absurd (Or.inl hsize) hin⟩
  · rw [if_neg hsize]
    by_cases hneed : size - 1 < TwoPass.measure count src.length src
    · rw [if_pos hneed]
      exact ⟨⟨fun _ => Or.inr hneed, fun _ => ⟨rfl, rfl⟩⟩,
        fun hin => absurd (Or.inr hneed) hin⟩
    · have hwhole := TwoPass.write_measured h src.length src (size - 1) (Nat.le_refl _)
        (by omega)
      have hlen := hwhole.length_out
      rw [if_neg hneed]
      refine ⟨⟨fun hnum => ?_, fun hout => ?_⟩, fun _ => ⟨_, rfl, hwhole, rfl, ?_, rfl⟩⟩
      · have hlt : (TwoPass.measure count src.length src : Int) = -1 := hnum.1
        omega
      · exact absurd hout (not_or.2 ⟨hsize, hneed⟩)
      · show ((_ ++ [(0 : UInt8)]).length : Int) ≤ size
        rw [List.length_append, hlen, List.length_singleton]
        omega

/-- Each XML function refuses a call exactly when its count says so, and otherwise
its writing loop reads everything and writes what was counted. -/
theorem xml_measured (src : Bytes) (size : Int) :
    Measured (xmlEncodeRun src size) (xmlEncodeNeedSize src) size ∧
      Measured (xmlDecodeRun src size) (xmlDecodeNeedSize src.length src) size := by
  rw [← measure_xmlEncodeCount, ← measure_xmlDecodeCount]
  exact ⟨xmlRun_measured xmlEncode_agree src size, xmlRun_measured xmlDecode_agree src size⟩

end UiServer
