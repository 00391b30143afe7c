import UiServer.Lib.Room
import UiServer.Proofs.Methods
import UiServer.Proofs.Scan
import UiServer.Template.Layout

/-!
# How many variables a result text may hold

The scan of a result text stops at the limit of the page texts, while the array it
fills is a quarter of that size. The variables behind its end are written over the
text of the none page (`loadResFile_frame_iff`), which has been loaded before.

What the scan takes for a variable depends on the text alone (`resToken`), and no
two ways of finding them one behind the other give more than the scan does.
-/

namespace UiServer

open CMem

/-! ## What counts as a variable

Here a variable is what the scan takes for one, misled or not, so that the number
of them is right for every text. Two of them share a `$` at most, and so no row of
them is longer than the one that the scan finds. -/

/-- The variable the scan finds at the start of `s`: a `$` and what stands up to
the next one, if the bytes from the fifth on are a name. Where the next `$` is
closer, the bytes are those behind it. -/
def resToken (s : Bytes) : Option (Nat × Nat) :=
  if s.head? = some dollar then
    (strchr dollar s 1).bind fun e =>
      (tempSearchResvar (cstr ((s.set e 0).drop 4))).map fun i => (e + 1, i)
  else none

theorem resToken_of_ne {a : UInt8} {s : Bytes} (ha : a ≠ dollar) : resToken (a :: s) = none :=
  if_neg fun h => ha (Option.some.inj h)

theorem strchr_drop (c : UInt8) (text : Bytes) (q k : Nat) :
    strchr c (text.drop q) k = (strchr c text (q + k)).map (· - q) := by
  rw [strchr, strchr, List.drop_drop, Option.map_map]
  congr 1
  funext n
  simp only [Function.comp]
  omega

section

variable {text s : Bytes} {n i p q e : Nat}

/-- A token is a `$` up to the next one. -/
theorem resToken_some (h : resToken s = some (n, i)) :
    s.head? = some dollar ∧ ∃ e, strchr dollar s 1 = some e ∧ n = e + 1 := by
  rw [resToken] at h
  split at h
  · next hhead =>
      obtain ⟨e, he, h⟩ := Option.bind_eq_some_iff.1 h
      obtain ⟨k, _, h⟩ := Option.map_eq_some_iff.1 h
      cases h
      exact ⟨hhead, e, he, rfl⟩
  · cases h

theorem resToken_proper : Tokens.Proper resToken := by
  intro s n i h
  obtain ⟨_, e, he, rfl⟩ := resToken_some h
  obtain ⟨_, hlt, _⟩ := strchr_some he
  exact ⟨Nat.succ_pos e, hlt⟩

/-- Two tokens overlap in one `$` at most. -/
theorem resToken_staggered : Tokens.Staggered resToken := by
  intro s n m j b c h hj hin
  obtain ⟨_, e, he, rfl⟩ := resToken_some h
  obtain ⟨hhead, e', he', rfl⟩ := resToken_some hin
  rw [List.head?_drop] at hhead
  cases j with
  | zero =>
      rw [List.drop_zero, he] at he'
      cases he'
      omega
  | succ j =>
      have hmin := strchr_min he (Nat.succ_pos j) hhead
      omega

/-- The token at a `$` is what a round of the scan looks up. -/
theorem resToken_drop (hq : strchr dollar text p = some q)
    (he : strchr dollar text (q + 1) = some e) :
    resToken (text.drop q) =
      (tempSearchResvar (cstr ((text.set e 0).drop (q + 4)))).map fun i =>
        (e - q + 1, i) := by
  obtain ⟨_, _, _, _, _, hdrop⟩ := strchr_split hq
  have hqe := (strchr_some he).1
  have hset : (text.drop q).set (e - q) 0 = (text.set e 0).drop q := by
    rw [List.drop_set, if_neg (by omega)]
  rw [resToken, if_pos (by rw [hdrop]; rfl), strchr_drop, he]
  show (tempSearchResvar (cstr (((text.drop q).set (e - q) 0).drop 4))).map _ = _
  rw [hset, List.drop_drop]

theorem resToken_last (he : strchr dollar text (q + 1) = none) :
    resToken (text.drop q) = none := by
  rw [resToken, strchr_drop, he]
  exact ite_self none

/-- The loop records the tokens from `p` on, as many as there is still room for. -/
theorem parseRes_tokens : ∀ {fuel p num : Nat}, text.length < p + fuel → p ≤ text.length →
    (parseRes fuel text p num).vars =
      ((Tokens.scan resToken 0 p (text.drop p)).take (maxVarsNum - num)).map resAttr := by
  intro fuel
  induction fuel with
  | zero => intro p num h hp; omega
  | succ fuel ih =>
      intro p num h hp
      rw [parseRes]
      split
      · next hfull =>
          rw [Nat.sub_eq_zero_of_le hfull]
          rfl
      · next hroom =>
          split
          · next hnone =>
              rw [scan_clean resToken_of_ne (strchr_none hnone)]
              simp
          · next q hq =>
              obtain ⟨_, rest, _, _, _, hdrop⟩ := strchr_split hq
              have hrest : text.drop (q + 1) = rest := by
                rw [← List.drop_drop, hdrop]
                rfl
              obtain ⟨hpq, hqlt, _⟩ := strchr_some hq
              rw [scan_next resToken_of_ne hq]
              split
              · next hnone =>
                  have hclean := scan_clean resToken_of_ne (strchr_none hnone)
                  have hlast := resToken_last hnone
                  rw [hrest] at hclean
                  rw [hdrop] at hlast
                  rw [hdrop, Tokens.scan]
                  simp only [hlast, hclean]
                  simp
              · next e he =>
                  obtain ⟨hqe, helt, hc⟩ := strchr_some he
                  have htok := resToken_drop hq he
                  simp only [set_restore helt hc, ResScan.looked]
                  split
                  · next hlook =>
                      rw [hlook, Option.map_none] at htok
                      have hnext := scan_next resToken_of_ne he
                      rw [hrest] at hnext
                      rw [hdrop] at htok
                      rw [ih (by omega) (Nat.le_of_lt helt), hdrop, Tokens.scan]
                      simp only [htok, hnext]
                  · next i hlook =>
                      rw [hlook, Option.map_some] at htok
                      obtain ⟨k, hk⟩ : ∃ k, maxVarsNum - num = k + 1 :=
                        ⟨maxVarsNum - (num + 1), by omega⟩
                      have hk' : maxVarsNum - (num + 1) = k := by omega
                      have hend : q + (e - q + 1) = e + 1 := by omega
                      rw [Tokens.scan_some htok resToken_proper, List.drop_drop, hend, hk,
                        List.take_succ_cons, List.map_cons]
                      simp only [ResScan.found, @ih (e + 1) (num + 1) (by omega) helt, hk']
                      rfl

end

/-! ## What is written

The template is the bytes of a `Template_t` with each field at its offset. The
file goes to `resbuf` line by line, and the variables to `res_vars` and, when they
do not end there, to what lies behind. -/

theorem length_record (v : VarAttr) : v.record.length = 13 + v.name.length := by
  simp only [VarAttr.record, List.length_append, length_leBytes, List.length_singleton]
  omega

/-- The array is written from its `num`-th element on, as far as there are
variables. -/
theorem storeVars_outside {i : Nat} : ∀ {vs : List VarAttr} {num : Nat} {mem : Mem},
    (∀ v ∈ vs, v.name.length < maxVarNameLen) →
    (i < TemplateField.resVars.offset + num * varAttrSize ∨
      TemplateField.resVars.offset + (num + vs.length) * varAttrSize ≤ i) →
    storeVars mem num vs i = mem i := by
  intro vs
  induction vs with
  | nil => intro num mem _ _; rfl
  | cons v vs ih =>
      intro num mem hname h
      have hrecord := length_record v
      have hv := hname v List.mem_cons_self
      rw [maxVarNameLen] at hv
      simp only [varAttrSize, List.length_cons] at h
      rw [storeVars, ih (fun u hu => hname u (List.mem_cons_of_mem v hu))]
      · rcases h with h | h
        · exact store_lt h
        · exact store_ge (by rw [varAttrSize]; omega)
      · simp only [varAttrSize]
        omega

/-- Each element begins with the place of its variable. -/
theorem storeVars_pos : ∀ {vs : List VarAttr} {num k : Nat} {mem : Mem}
    (hk : k < vs.length), (∀ v ∈ vs, v.name.length < maxVarNameLen) →
    storeVars mem num vs (TemplateField.resVars.offset + (num + k) * varAttrSize) =
      UInt8.ofNat vs[k].pos := by
  intro vs
  induction vs with
  | nil => intro num k mem hk; cases hk
  | cons v vs ih =>
      intro num k mem hk hname
      have hrest := fun u hu => hname u (List.mem_cons_of_mem v hu)
      rw [storeVars]
      cases k with
      | zero =>
          rw [storeVars_outside hrest (Or.inl (by rw [varAttrSize]; omega))]
          have hpos : 0 < v.record.length := by
            rw [length_record]
            omega
          exact store_at hpos
      | succ k =>
          rw [show num + (k + 1) = num + 1 + k by omega]
          exact ih (Nat.lt_of_succ_lt_succ hk) hrest

/-- A file that fits is read into `resbuf` and nowhere else. -/
theorem readResText_ok : ∀ {fuel : Nat} {s text text' : Bytes} {mem : Mem},
    readContent maxResTemplSize fuel s text = some text' →
    read mem TemplateField.resbuf.offset text.length = text →
    ∃ mem', readResText fuel s text.length mem = .ok mem' ∧
      read mem' TemplateField.resbuf.offset text'.length = text' ∧
      ∀ i, (i < TemplateField.resbuf.offset ∨ TemplateField.resbuf.stop ≤ i) →
        mem' i = mem i := by
  intro fuel
  induction fuel with
  | zero =>
      intro s text text' mem h hread
      cases h
      exact ⟨mem, rfl, hread, fun _ _ => rfl⟩
  | succ fuel ih =>
      intro s text text' mem h hread
      cases s with
      | nil =>
          cases h
          exact ⟨mem, rfl, hread, fun _ _ => rfl⟩
      | cons c s =>
          simp only [readContent, List.length_append] at h
          split at h
          · cases h
          · next hfit =>
              let line := cstr (fgets 1023 (c :: s)).1
              let p := TemplateField.resbuf.offset + text.length
              have hline : read (store mem p (line ++ [0])) TemplateField.resbuf.offset
                  (text ++ line).length = text ++ line := by
                have hpart := @read_store_part mem p 0 line.length (line ++ [0]) (by simp)
                rw [Nat.add_zero, List.drop_zero, List.take_left] at hpart
                rw [List.length_append, read_append, hpart,
                  read_store_before (Nat.le_refl _), hread]
              obtain ⟨mem', hok, hread', hout⟩ := ih h hline
              refine ⟨mem', ?_, hread', fun i hi => ?_⟩
              · rw [List.length_append] at hok
                simp only [readResText]
                rw [if_neg hfit]
                exact hok
              · rw [hout i hi]
                have hstop : TemplateField.resbuf.stop =
                    TemplateField.resbuf.offset + maxResTemplSize := rfl
                have hlen : ¬ maxResTemplSize ≤ text.length + line.length := hfit
                rcases hi with hi | hi
                · exact store_lt (by omega)
                · refine store_ge ?_
                  simp only [List.length_append, List.length_singleton]
                  omega

/-! ## What else is changed

The array ends where `nonebuf` begins. Up to 32 variables nothing else is touched;
the 33rd puts its place in the text over the first bytes of the none page, and for
some memory these are other bytes than before. -/

/-- More variables than `res_vars` has room for stand in the text, one behind the
other. -/
def ManyVars (text : Bytes) : Prop :=
  ∃ ts, Tokens.Row resToken 0 0 text ts ∧ maxResVarsNum < ts.length

theorem manyVars_iff {text : Bytes} :
    ManyVars text ↔ maxResVarsNum < (Tokens.scan resToken 0 0 text).length := by
  constructor
  · rintro ⟨ts, hrow, hlt⟩
    exact Nat.lt_of_lt_of_le hlt
      (Tokens.length_le_scan resToken_proper resToken_staggered hrow)
  · exact fun hlt => ⟨_, Tokens.row_scan resToken_proper, hlt⟩

/-- The variables that are stored for a text. -/
def resVarsOf (text : Bytes) : List VarAttr :=
  ((Tokens.scan resToken 0 0 text).take maxVarsNum).map resAttr

theorem length_resVarsOf (text : Bytes) :
    (resVarsOf text).length = min maxVarsNum (Tokens.scan resToken 0 0 text).length := by
  rw [resVarsOf, List.length_map, List.length_take]

theorem resVarsOf_name (text : Bytes) :
    ∀ v ∈ resVarsOf text, v.name.length < maxVarNameLen := by
  intro v hv
  obtain ⟨t, _, rfl⟩ := List.mem_map.1 hv
  have hlen := List.length_take_le (maxVarNameLen - 1)
    (ascii "$res" ++ resvar.getD t.val [] ++ ascii "$")
  show (resVarName t.val).length < 32
  rw [maxVarNameLen] at hlen
  rw [resVarName, maxVarNameLen]
  omega

/-- A file that fits goes to `resbuf`, and its variables to where `res_vars`
begins. -/
theorem loadResFile_eq {s text : Bytes} (mem : Mem)
    (h : readContent maxResTemplSize s.length s [] = some text) :
    ∃ mem', loadResFile (some s) mem =
        (storeVars mem' 0 (resVarsOf text), ((resVarsOf text).length : Int)) ∧
      read mem' TemplateField.resbuf.offset text.length = text ∧
      ∀ i, (i < TemplateField.resbuf.offset ∨ TemplateField.resbuf.stop ≤ i) →
        mem' i = mem i := by
  obtain ⟨mem', hok, hread, hout⟩ := @readResText_ok s.length s [] text mem h rfl
  have hvars := @parseRes_tokens text (text.length + 1) 0 0 (by omega) (Nat.zero_le _)
  refine ⟨mem', ?_, hread, hout⟩
  rw [List.length_nil] at hok
  simp only [loadResFile, hok, tempLoadResFile, h]
  rw [hvars]
  rfl

/-- What `template_load` relies on: as many variables as there is room for, and
nothing but the text and the variables changed, in the template or behind it. -/
structure LoadsInPlace (mem : Mem) (loaded : Mem × Int) : Prop where
  count : loaded.2 ≤ maxResVarsNum
  fields : ∀ f : TemplateField, f ≠ .resbuf → f ≠ .resVars → f.bytes loaded.1 = f.bytes mem
  behind : ∀ i, TemplateField.errVars.stop ≤ i → loaded.1 i = mem i

/-- The text and the number behind it are zero, as `template_init` leaves them: a
name that starts behind the text is read from there. -/
def Fresh (mem : Mem) : Prop :=
  ∀ i, TemplateField.resbuf.offset ≤ i → i < TemplateField.nrv.stop → mem i = 0

/-- No other field shares bytes with these two. -/
theorem TemplateField.apart : ∀ f ∈ TemplateField.all, f ≠ .resbuf → f ≠ .resVars →
    (f.stop ≤ TemplateField.resbuf.offset ∨ TemplateField.resbuf.stop ≤ f.offset) ∧
      (f.stop ≤ TemplateField.resVars.offset ∨ TemplateField.resVars.stop ≤ f.offset) := by
  decide +kernel

theorem TemplateField.mem_all (f : TemplateField) : f ∈ TemplateField.all := by
  cases f <;> decide

theorem loadsInPlace_of_few {s text : Bytes} (mem : Mem)
    (h : readContent maxResTemplSize s.length s [] = some text)
    (hfew : (resVarsOf text).length ≤ maxResVarsNum) :
    LoadsInPlace mem (loadResFile (some s) mem) := by
  obtain ⟨mem', hload, _, hout⟩ := loadResFile_eq mem h
  have hsame : ∀ i, (i < TemplateField.resbuf.offset ∨ TemplateField.resbuf.stop ≤ i) →
      (i < TemplateField.resVars.offset ∨ TemplateField.resVars.stop ≤ i) →
      storeVars mem' 0 (resVarsOf text) i = mem i := by
    intro i hbuf hvars
    have hstop : TemplateField.resVars.stop =
        TemplateField.resVars.offset + maxResVarsNum * varAttrSize := rfl
    have hroom := Nat.mul_le_mul_right varAttrSize hfew
    rw [storeVars_outside (resVarsOf_name text) (by rw [Nat.zero_add]; omega)]
    exact hout i hbuf
  rw [hload]
  refine ⟨by simpa using hfew, fun f hbuf hvars => ?_, fun i hi => ?_⟩
  · obtain ⟨hapart, hapart'⟩ := TemplateField.apart f f.mem_all hbuf hvars
    refine read_congr fun k hk => hsame _ ?_ ?_
    · rw [TemplateField.stop] at hapart
      omega
    · rw [TemplateField.stop] at hapart'
      omega
  · have hlast : TemplateField.resbuf.stop ≤ TemplateField.errVars.stop ∧
        TemplateField.resVars.stop ≤ TemplateField.errVars.stop := by decide +kernel
    exact hsame i (Or.inr (by omega)) (Or.inr (by omega))

/-- The variable behind the last element begins where the text of the none page
does. -/
theorem loadResFile_overrun {s text : Bytes}
    (h : readContent maxResTemplSize s.length s [] = some text)
    (hmany : maxResVarsNum < (resVarsOf text).length) :
    ∃ mem, Fresh mem ∧ TemplateField.nonebuf.bytes (loadResFile (some s) mem).1 ≠
      TemplateField.nonebuf.bytes mem := by
  let b := UInt8.ofNat ((resVarsOf text)[maxResVarsNum]).pos
  let mem : Mem := fun i => if i < TemplateField.nrv.stop then 0 else b + 1
  refine ⟨mem, fun i _ hi => if_pos hi, fun hsame => ?_⟩
  obtain ⟨mem', hload, _, _⟩ := loadResFile_eq mem h
  have hold : mem (TemplateField.nonebuf.offset + 0) = b + 1 := if_neg (by decide +kernel)
  rw [hload] at hsame
  have hbyte : storeVars mem' 0 (resVarsOf text) (TemplateField.nonebuf.offset + 0) =
      mem (TemplateField.nonebuf.offset + 0) := read_inj hsame 0 (by decide)
  have hat := @storeVars_pos (resVarsOf text) 0 maxResVarsNum mem' hmany (resVarsOf_name text)
  have hstart : TemplateField.nonebuf.offset + 0 =
      TemplateField.resVars.offset + (0 + maxResVarsNum) * varAttrSize := by decide +kernel
  rw [hold, hstart, hat] at hbyte
  exact absurd hbyte (by simp [b])

/-- A result text is loaded in its place exactly when no more variables stand in it
than there is room for; with more of them the none page is changed. -/
theorem loadResFile_frame_iff {s text : Bytes}
    (h : readContent maxResTemplSize s.length s [] = some text) :
    ((∀ mem, Fresh mem → LoadsInPlace mem (loadResFile (some s) mem)) ↔
        ¬ ManyVars text) ∧
      (ManyVars text → ∃ mem, Fresh mem ∧
        TemplateField.nonebuf.bytes (loadResFile (some s) mem).1 ≠
          TemplateField.nonebuf.bytes mem) := by
  have hmany : ManyVars text ↔ maxResVarsNum < (resVarsOf text).length := by
    rw [manyVars_iff, length_resVarsOf, maxResVarsNum, maxVarsNum]
    omega
  refine ⟨⟨fun hall hmore => ?_, fun hfew mem _ => ?_⟩,
    fun hmore => loadResFile_overrun h (hmany.1 hmore)⟩
  · obtain ⟨mem, hfresh, hne⟩ := loadResFile_overrun h (hmany.1 hmore)
    exact hne ((hall mem hfresh).fields .nonebuf (by decide) (by decide))
  · exact loadsInPlace_of_few mem h (Nat.not_lt.1 fun hlt => hfew (hmany.2 hlt))

theorem loadResFile_frame_iff_id :
    ((∀ mem, Fresh mem →
        LoadsInPlace mem (loadResFile (some (ascii "<i>$resID$</i>")) mem)) ↔
        ¬ ManyVars (ascii "<i>$resID$</i>")) ∧
      (ManyVars (ascii "<i>$resID$</i>") → ∃ mem, Fresh mem ∧
        TemplateField.nonebuf.bytes (loadResFile (some (ascii "<i>$resID$</i>")) mem).1 ≠
          TemplateField.nonebuf.bytes mem) :=
  loadResFile_frame_iff (by decide +kernel)

/-- `$resID$`, 33 times. -/
def manyIds : Bytes := (List.replicate 33 (ascii "$resID$")).flatten

/-- The last of them begins at byte 224 of the text, and the none page with it. -/
theorem loadResFile_frame_fails :
    (loadResFile (some manyIds) fun _ => 0).2 = 33 ∧
      (loadResFile (some manyIds) fun _ => 0).1 TemplateField.nonebuf.offset = 224 ∧
      ¬ ∀ s text : Bytes, readContent maxResTemplSize s.length s [] = some text →
        ∀ mem, Fresh mem → LoadsInPlace mem (loadResFile (some s) mem) := by
  have hcount : (loadResFile (some manyIds) fun _ => 0).2 = 33 := by decide +kernel
  refine ⟨hcount, by decide +kernel, fun hall => ?_⟩
  have hread : readContent maxResTemplSize manyIds.length manyIds [] = some manyIds := by
    decide +kernel
  have hfew := (hall manyIds manyIds hread (fun _ => 0) fun _ _ _ => rfl).count
  rw [hcount] at hfew
  exact absurd hfew (by decide)

end UiServer
