import UiServer.Lib.Tokens
import UiServer.Template.Res

/-!
# What the scans of the template texts find

The variables of a text are its greedy tokens: from left to right, a prefix, a
name of the table and a `$`. `temp_load_content_file` records exactly the first
of them, as many as there is room for (`tempLoadContentFile_greedy`). Its sibling
for the result texts does so only if no stray `$` misleads it, and
`resGreedy_iff` says which ones do.
-/

namespace UiServer

open CMem

/-! ## The tokens of a text

A token is told from the text alone: a `$`, a prefix, a name of the table, and a
`$`. Since the tables have no `$` in their names, the token at a `$` can only be
the stretch up to the next one, and that stretch is what the two loops look at. -/

/-- The variable at the start of `s`: its length and its number in the table. -/
def varToken (pre : Bytes) (names : List Bytes) (s : Bytes) : Option (Nat × Nat) :=
  (names.findIdx? fun name => (pre ++ name ++ [dollar]).isPrefixOf s).map fun i =>
    ((pre ++ names.getD i [] ++ [dollar]).length, i)

/-- A table whose variables start with a `$` and hold no other one before the one
at the end. -/
structure VarTable (pre : Bytes) (names : List Bytes) : Prop where
  opens : pre = dollar :: pre.tail
  tail : dollar ∉ pre.tail
  names : ∀ name ∈ names, dollar ∉ name

theorem uiTable : VarTable (ascii "$ui") uivar where
  opens := by decide
  tail := by decide
  names := by decide +kernel

theorem resTable : VarTable (ascii "$res") resvar where
  opens := by decide
  tail := by decide
  names := by decide +kernel

section

variable {pre : Bytes} {names : List Bytes} {s mid rest : Bytes} {n i p : Nat}

theorem varToken_proper (pre : Bytes) (names : List Bytes) :
    Tokens.Proper (varToken pre names) := by
  intro s n i h
  obtain ⟨k, hk, heq⟩ := Option.map_eq_some_iff.1 h
  cases heq
  obtain ⟨hlt, hpre, _⟩ := List.findIdx?_eq_some_iff_getElem.1 hk
  have hle := (List.isPrefixOf_iff_prefix.1 hpre).length_le
  rw [List.getD_eq_getElem _ _ hlt]
  refine ⟨?_, hle⟩
  rw [List.length_append, List.length_singleton]
  omega

/-- Two runs without a `$` before a `$` are the same. -/
theorem eq_of_append_dollar {as bs xs ys : Bytes} (ha : dollar ∉ as) (hb : dollar ∉ bs)
    (h : as ++ dollar :: xs = bs ++ dollar :: ys) : as = bs := by
  induction as generalizing bs with
  | nil =>
      cases bs with
      | nil => rfl
      | cons b bs =>
          rw [List.nil_append, List.cons_append] at h
          exact absurd List.mem_cons_self ((List.cons.inj h).1 ▸ hb)
  | cons a as ih =>
      cases bs with
      | nil =>
          rw [List.nil_append, List.cons_append] at h
          exact absurd List.mem_cons_self ((List.cons.inj h).1 ▸ ha)
      | cons b bs =>
          rw [List.cons_append, List.cons_append] at h
          obtain ⟨rfl, hrest⟩ := List.cons.inj h
          rw [ih (List.not_mem_of_not_mem_cons ha) (List.not_mem_of_not_mem_cons hb) hrest]

theorem findIdx?_congr {α : Type} {f g : α → Bool} {xs : List α}
    (h : ∀ x ∈ xs, f x = g x) : xs.findIdx? f = xs.findIdx? g := by
  induction xs with
  | nil => rfl
  | cons x xs ih =>
      rw [List.findIdx?_cons, List.findIdx?_cons, h x List.mem_cons_self,
        ih fun y hy => h y (List.mem_cons_of_mem x hy)]

/-- A name stands between a prefix and a `$` exactly when it fills the bytes up to
the next `$`. -/
theorem VarTable.isPrefix_iff (ht : VarTable pre names) (hmid : dollar ∉ mid)
    {name : Bytes} (hn : name ∈ names) :
    pre ++ name ++ [dollar] <+: dollar :: mid ++ dollar :: rest ↔
      pre ++ name = dollar :: mid := by
  have htail : dollar ∉ pre.tail ++ name := fun hmem =>
    (List.mem_append.1 hmem).elim ht.tail (ht.names name hn)
  rw [ht.opens]
  simp only [List.cons_append, List.cons_prefix_cons, true_and, List.cons.injEq]
  constructor
  · rintro ⟨zs, hzs⟩
    rw [List.append_assoc] at hzs
    exact eq_of_append_dollar htail hmid hzs
  · intro heq
    exact ⟨rest, by rw [heq, List.append_assoc]; rfl⟩

/-- At a `$` the only token there can be ends at the next one. -/
theorem varToken_dollar (ht : VarTable pre names) (hmid : dollar ∉ mid) :
    varToken pre names (dollar :: mid ++ dollar :: rest) =
      (names.findIdx? fun name => pre ++ name == dollar :: mid).map fun i =>
        (mid.length + 2, i) := by
  have hcongr : (names.findIdx? fun name => (pre ++ name ++ [dollar]).isPrefixOf
      (dollar :: mid ++ dollar :: rest)) =
      names.findIdx? fun name => pre ++ name == dollar :: mid := by
    refine findIdx?_congr fun name hname => ?_
    rw [Bool.eq_iff_iff, List.isPrefixOf_iff_prefix, ht.isPrefix_iff hmid hname,
      beq_iff_eq]
  rw [varToken, hcongr]
  refine Option.map_congr fun i hi => ?_
  obtain ⟨hlt, hname, _⟩ := List.findIdx?_eq_some_iff_getElem.1 hi
  rw [List.getD_eq_getElem _ _ hlt, eq_of_beq hname, List.length_append,
    List.length_cons, List.length_singleton]

theorem varToken_eq_none (h : ∀ name ∈ names, ¬ pre ++ name ++ [dollar] <+: s) :
    varToken pre names s = none := by
  rw [varToken, Option.map_eq_none_iff, List.findIdx?_eq_none_iff]
  intro name hname
  rw [← Bool.not_eq_true, List.isPrefixOf_iff_prefix]
  exact h name hname

theorem varToken_of_ne (ht : VarTable pre names) {a : UInt8} (ha : a ≠ dollar) :
    varToken pre names (a :: s) = none := by
  refine varToken_eq_none fun name _ hpre => ?_
  rw [ht.opens] at hpre
  simp only [List.cons_append, List.cons_prefix_cons] at hpre
  exact ha hpre.1.symm

/-- Without a second `$` there is no token. -/
theorem varToken_last (ht : VarTable pre names) (hmid : dollar ∉ mid) :
    varToken pre names (dollar :: mid) = none := by
  refine varToken_eq_none fun name _ hpre => hmid ?_
  rw [ht.opens] at hpre
  simp only [List.cons_append, List.cons_prefix_cons] at hpre
  exact hpre.2.subset (List.mem_append_right _ List.mem_cons_self)

end

/-! ## Where the next `$` is

`strchr` in terms of what it passes over: a stretch without a `$`, and behind it
one. -/

section

variable {text : Bytes} {p q : Nat}

/-- What `strchr` finds and passes over. -/
theorem strchr_split (h : strchr dollar text p = some q) :
    ∃ mid rest, text.drop p = mid ++ dollar :: rest ∧ dollar ∉ mid ∧
      q = p + mid.length ∧ text.drop q = dollar :: rest := by
  rw [strchr, Option.map_eq_some_iff] at h
  obtain ⟨k, hk, rfl⟩ := h
  obtain ⟨hlt, hc, hbefore⟩ := List.findIdx?_eq_some_iff_getElem.1 hk
  have hdrop : (text.drop p).drop k = dollar :: (text.drop p).drop (k + 1) := by
    rw [List.drop_eq_getElem_cons hlt, eq_of_beq hc]
  refine ⟨(text.drop p).take k, (text.drop p).drop (k + 1), ?_, fun hmem => ?_, ?_, ?_⟩
  · rw [← hdrop, List.take_append_drop]
  · obtain ⟨j, hj, heq⟩ := List.getElem_of_mem hmem
    rw [List.length_take] at hj
    rw [List.getElem_take] at heq
    exact hbefore j (by omega) (by rw [heq]; exact beq_self_eq_true dollar)
  · rw [List.length_take, Nat.min_eq_left (Nat.le_of_lt hlt)]
  · rw [← hdrop, List.drop_drop]

theorem strchr_none (h : strchr dollar text p = none) : dollar ∉ text.drop p := by
  rw [strchr, Option.map_eq_none_iff, List.findIdx?_eq_none_iff] at h
  intro hmem
  exact Bool.noConfusion ((h dollar hmem).symm.trans (beq_self_eq_true dollar))

end

/-! ## A round of a scan

Both scans look at two `$` that follow each other and at what stands between them.
A token starts and ends with a `$` and has none inside, so the tokens from a place
on are the one between these two, if there is one, and those from the second `$`
on, or behind it. -/

/-- A `$` at `q` and the next one at `e`, with `mid` between them. -/
structure Stretch (text : Bytes) (q e : Nat) (mid rest : Bytes) : Prop where
  split : text.drop q = dollar :: mid ++ dollar :: rest
  clean : dollar ∉ mid
  stop : e = q + (mid.length + 1)

def tokensFrom (pre : Bytes) (names : List Bytes) (text : Bytes) (p : Nat) :
    List (Tokens.Token Nat) :=
  Tokens.scan (varToken pre names) 0 p (text.drop p)

section

variable {pre : Bytes} {names : List Bytes} {text mid rest : Bytes} {p q e k : Nat}

theorem exists_stretch (hq : strchr dollar text p = some q)
    (he : strchr dollar text (q + 1) = some e) :
    ∃ mid rest, Stretch text q e mid rest := by
  obtain ⟨_, rest, _, _, _, hdrop⟩ := strchr_split hq
  obtain ⟨mid, rest', hsplit, hmid, hstop, _⟩ := strchr_split he
  refine ⟨mid, rest', ?_, hmid, by omega⟩
  have hrest : text.drop (q + 1) = rest := by
    rw [← List.drop_drop, hdrop]
    rfl
  rw [hdrop, ← hrest, hsplit]
  rfl

theorem Stretch.drop_stop (h : Stretch text q e mid rest) :
    text.drop e = dollar :: rest := by
  rw [h.stop, ← List.drop_drop, h.split]
  exact List.drop_left' (List.length_cons ..)

theorem Stretch.lt (h : Stretch text q e mid rest) : e < text.length := by
  by_contra hge
  have hdrop := h.drop_stop
  rw [List.drop_eq_nil_of_le (by omega)] at hdrop
  cases hdrop

theorem Stretch.getElem (h : Stretch text q e mid rest) (hlt : e < text.length) :
    text[e] = dollar := by
  have hdrop := h.drop_stop
  rw [List.drop_eq_getElem_cons h.lt] at hdrop
  exact (List.cons.inj hdrop).1

/-- What is read behind the opening `$` once the closing one is overwritten. -/
theorem Stretch.cut (h : Stretch text q e mid rest) (hk : k ≤ mid.length + 1) :
    (text.set e 0).drop (q + k) = (dollar :: mid).drop k ++ 0 :: rest := by
  have hset : (text.set e 0).drop q = dollar :: mid ++ 0 :: rest := by
    have hge := h.stop
    have hlen : (dollar :: mid).length = e - q := by
      rw [List.length_cons]
      omega
    rw [List.drop_set, if_neg (by omega), h.split,
      List.set_append_right _ _ (Nat.le_of_eq hlen), hlen, Nat.sub_self]
    rfl
  rw [← List.drop_drop, hset, List.drop_append_of_le_length hk]

theorem Stretch.name (h : Stretch text q e mid rest) (hnul : NulFree text)
    (hk : k ≤ mid.length + 1) :
    cstr ((text.set e 0).drop (q + k)) = (dollar :: mid).drop k := by
  have hsub : ((dollar :: mid).drop k).Sublist text := by
    have hmid : (dollar :: mid).Sublist (text.drop q) := by
      rw [h.split]
      exact List.sublist_append_left _ _
    exact ((List.drop_sublist k _).trans hmid).trans (List.drop_sublist q text)
  rw [h.cut hk, cstr, List.takeWhile_append_of_pos fun b hb => by
    simpa using hnul b (hsub.subset hb)]
  simp

/-- Where only a `$` starts a token, a scan goes on at the next one. -/
theorem scan_next {tok : Bytes → Option (Nat × Nat)}
    (hne : ∀ {a : UInt8} {s : Bytes}, a ≠ dollar → tok (a :: s) = none)
    (hq : strchr dollar text p = some q) :
    Tokens.scan tok 0 p (text.drop p) = Tokens.scan tok 0 q (text.drop q) := by
  obtain ⟨mid, rest, hsplit, hmid, hstop, hdrop⟩ := strchr_split hq
  rw [hdrop, hsplit, hstop]
  refine Tokens.scan_append fun j hj => ?_
  rw [List.drop_eq_getElem_cons hj, List.cons_append]
  exact hne fun heq => hmid (heq ▸ List.getElem_mem hj)

theorem scan_clean {tok : Bytes → Option (Nat × Nat)}
    (hne : ∀ {a : UInt8} {s : Bytes}, a ≠ dollar → tok (a :: s) = none)
    (h : dollar ∉ text.drop p) : Tokens.scan tok 0 p (text.drop p) = [] := by
  have hscan : Tokens.scan tok 0 p (text.drop p ++ []) =
      Tokens.scan tok 0 (p + (text.drop p).length) [] := by
    refine Tokens.scan_append fun j hj => ?_
    rw [List.append_nil, List.drop_eq_getElem_cons hj]
    exact hne fun heq => h (heq ▸ List.getElem_mem hj)
  rw [List.append_nil] at hscan
  exact hscan

theorem tokensFrom_next (ht : VarTable pre names) (hq : strchr dollar text p = some q) :
    tokensFrom pre names text p = tokensFrom pre names text q :=
  scan_next (varToken_of_ne ht) hq

theorem tokensFrom_clean (ht : VarTable pre names) (h : dollar ∉ text.drop p) :
    tokensFrom pre names text p = [] :=
  scan_clean (varToken_of_ne ht) h

theorem tokensFrom_last (ht : VarTable pre names) (hq : strchr dollar text p = some q)
    (he : strchr dollar text (q + 1) = none) : tokensFrom pre names text p = [] := by
  obtain ⟨_, rest, _, _, _, hdrop⟩ := strchr_split hq
  have hrest : text.drop (q + 1) = rest := by
    rw [← List.drop_drop, hdrop]
    rfl
  have hclean := strchr_none he
  rw [tokensFrom_next ht hq]
  have hnone : varToken pre names (dollar :: rest) = none :=
    varToken_last ht (hrest ▸ hclean)
  have htail := tokensFrom_clean ht hclean
  rw [tokensFrom, hrest] at htail
  rw [tokensFrom, hdrop, Tokens.scan]
  simp only [hnone]
  exact htail

/-- The variable whose bytes are `bs`. -/
def varIndex (pre : Bytes) (names : List Bytes) (bs : Bytes) : Option Nat :=
  names.findIdx? fun name => pre ++ name == bs

theorem Stretch.tokensFrom_some (h : Stretch text q e mid rest) (ht : VarTable pre names)
    {i : Nat} (hi : varIndex pre names (dollar :: mid) = some i) :
    tokensFrom pre names text q =
      ⟨q, e - q + 1, i⟩ :: tokensFrom pre names text (e + 1) := by
  have htok : varToken pre names (text.drop q) = some (mid.length + 2, i) := by
    rw [h.split, varToken_dollar ht h.clean]
    rw [varIndex] at hi
    rw [hi]
    rfl
  have hlen : mid.length + 2 = e - q + 1 := by
    have hstop := h.stop
    omega
  rw [tokensFrom, Tokens.scan_some htok (varToken_proper pre names), hlen, List.drop_drop]
  have hend : q + (e - q + 1) = e + 1 := by
    have hstop := h.stop
    omega
  rw [hend]
  rfl

theorem Stretch.tokensFrom_none (h : Stretch text q e mid rest) (ht : VarTable pre names)
    (hi : varIndex pre names (dollar :: mid) = none) :
    tokensFrom pre names text q = tokensFrom pre names text e := by
  have htok : varToken pre names (text.drop q) = none := by
    rw [h.split, varToken_dollar ht h.clean]
    rw [varIndex] at hi
    rw [hi]
    rfl
  have hpass : ∀ j < (dollar :: mid).length,
      varToken pre names ((dollar :: mid).drop j ++ dollar :: rest) = none := by
    intro j hj
    cases j with
    | zero =>
        rw [h.split] at htok
        exact htok
    | succ j =>
        have hj' : j < mid.length := Nat.lt_of_succ_lt_succ hj
        rw [List.drop_succ_cons, List.drop_eq_getElem_cons hj', List.cons_append]
        exact varToken_of_ne ht fun heq => h.clean (heq ▸ List.getElem_mem hj')
  rw [tokensFrom, tokensFrom, h.split, Tokens.scan_append hpass, h.drop_stop, h.stop]
  rfl

/-- A prefix test that looks at the text sees the same as one that looks at the
bytes up to the next `$`. -/
theorem Stretch.take_iff (h : Stretch text q e mid rest) (ht : VarTable pre names) :
    (text.drop q).take pre.length = pre ↔ pre <+: dollar :: mid := by
  rw [h.split, ← List.prefix_iff_eq_take.trans eq_comm]
  refine ⟨fun hpre => ?_, fun hpre => hpre.trans (List.prefix_append _ _)⟩
  by_cases hlen : pre.length ≤ (dollar :: mid).length
  · exact List.prefix_of_prefix_length_le hpre (List.prefix_append _ _) hlen
  · have hover : dollar :: mid ++ [dollar] <+: pre := by
      have hstart : dollar :: mid ++ [dollar] <+: dollar :: mid ++ dollar :: rest :=
        ⟨rest, by rw [List.append_assoc]; rfl⟩
      refine List.prefix_of_prefix_length_le hstart hpre ?_
      rw [List.length_append, List.length_singleton]
      omega
    rw [ht.opens, List.cons_append, List.prefix_cons_inj] at hover
    exact absurd (hover.subset (List.mem_append_right _ List.mem_cons_self)) ht.tail

theorem varIndex_of_starts {bs : Bytes} (h : pre <+: bs) :
    varIndex pre names bs = names.findIdx? (· == bs.drop pre.length) := by
  obtain ⟨zs, rfl⟩ := h
  rw [List.drop_left' rfl]
  refine findIdx?_congr fun name _ => ?_
  rw [Bool.eq_iff_iff, beq_iff_eq, beq_iff_eq, List.append_cancel_left_eq]

theorem varIndex_of_starts_not {bs : Bytes} (h : ¬ pre <+: bs) :
    varIndex pre names bs = none := by
  rw [varIndex, List.findIdx?_eq_none_iff]
  intro name _
  exact beq_eq_false_iff_ne.2 fun heq => h ⟨name, heq⟩

/-- A variable is no longer than its name allows. -/
theorem varIndex_of_long {bs : Bytes} {n : Nat}
    (hn : ∀ name ∈ names, (pre ++ name).length ≤ n) (h : n < bs.length) :
    varIndex pre names bs = none := by
  rw [varIndex, List.findIdx?_eq_none_iff]
  intro name hname
  refine beq_eq_false_iff_ne.2 fun heq => ?_
  have hle := hn name hname
  rw [heq] at hle
  omega

end

/-! ## The page texts

The loop over a page text compares the first bytes with `$ui` before it looks a
name up, and the name it looks up ends where the closing `$` was. So it records
the tokens of the text from left to right, and stops when there is no room for
more of them. -/

def uiAttr (t : Tokens.Token Nat) : VarAttr := ⟨t.pos, t.len, t.val, varName t.val⟩

theorem uivar_length : ∀ name ∈ uivar, (ascii "$ui" ++ name).length ≤ maxVarNameLen := by
  decide +kernel

section

variable {text mid rest : Bytes} {q e : Nat}

/-- What a round of the scan makes of the bytes between two `$`. -/
theorem Stretch.lookup (h : Stretch text q e mid rest) (hnul : NulFree text) :
    varIndex (ascii "$ui") uivar (dollar :: mid) =
      if (text.drop q).take 3 ≠ ascii "$ui" ∨ maxVarNameLen < e - q then none
      else tempSearchUivar (cstr ((text.set e 0).drop (q + 3))) := by
  have hstop := h.stop
  have hpre : (text.drop q).take 3 = ascii "$ui" ↔ ascii "$ui" <+: dollar :: mid :=
    h.take_iff uiTable
  have hlen : (dollar :: mid).length = e - q := by
    rw [List.length_cons]
    omega
  split
  · next hbad =>
      rcases hbad with hbad | hbad
      · exact varIndex_of_starts_not fun hp => hbad (hpre.2 hp)
      · exact varIndex_of_long uivar_length (by omega)
  · next hok =>
      obtain ⟨htake, _⟩ := not_or.1 hok
      have hp := hpre.1 (not_not.1 htake)
      have hle : 3 ≤ (dollar :: mid).length := hp.length_le
      rw [List.length_cons] at hle
      rw [varIndex_of_starts hp, h.name hnul hle]
      rfl

/-- The loop records the tokens from `p` on, as many as there is still room for. -/
theorem parseContent_eq : ∀ {fuel p num : Nat}, NulFree text →
    text.length < p + fuel → p ≤ text.length →
    parseContent fuel text p num = (text,
      ((tokensFrom (ascii "$ui") uivar text p).take (maxVarsNum - num)).map uiAttr) := by
  intro fuel
  induction fuel with
  | zero => intro p num _ hfuel hp; omega
  | succ fuel ih =>
      intro p num hnul hfuel hp
      rw [parseContent]
      split
      · next hfull => rw [Nat.sub_eq_zero_of_le hfull]; rfl
      · next hroom =>
          split
          · next hnone =>
              rw [tokensFrom_clean uiTable (strchr_none hnone), List.take_nil]
              rfl
          · next q hq =>
              split
              · next hnone =>
                  rw [tokensFrom_last uiTable hq hnone, List.take_nil]
                  rfl
              · next e he =>
                  obtain ⟨mid, rest, hst⟩ := exists_stretch hq he
                  obtain ⟨hpq, _⟩ := strchr_some hq
                  have hlt := hst.lt
                  have hstop := hst.stop
                  have hlook := hst.lookup hnul
                  rw [tokensFrom_next uiTable hq]
                  split
                  · next hbad =>
                      rw [if_pos hbad] at hlook
                      rw [hst.tokensFrom_none uiTable hlook, ← tokensFrom_next uiTable he]
                      exact ih hnul (by omega) (by omega)
                  · next hok =>
                      rw [if_neg hok] at hlook
                      simp only [set_restore hlt (hst.getElem hlt)]
                      split
                      · next hnone =>
                          rw [hnone] at hlook
                          rw [hst.tokensFrom_none uiTable hlook]
                          exact ih hnul (by omega) (by omega)
                      · next i hi =>
                          rw [hi] at hlook
                          have hroom' : maxVarsNum - num = maxVarsNum - (num + 1) + 1 := by
                            omega
                          rw [hst.tokensFrom_some uiTable hlook, hroom',
                            List.take_succ_cons, ih hnul (by omega) (by omega)]
                          rfl

end

theorem fgets_append : ∀ {n : Nat} {s : Bytes}, (fgets n s).1 ++ (fgets n s).2 = s := by
  intro n
  induction n with
  | zero => intro s; rfl
  | succ n ih =>
      intro s
      cases s with
      | nil => rfl
      | cons c s =>
          rw [fgets]
          split
          · rfl
          · exact congrArg (c :: ·) ih

theorem fgets_length {n : Nat} {s : Bytes} (hs : s ≠ []) :
    0 < (fgets (n + 1) s).1.length := by
  cases s with
  | nil => exact absurd rfl hs
  | cons c s =>
      rw [fgets]
      split
      · exact Nat.zero_lt_one
      · exact Nat.zero_lt_succ _

/-- A file without zero bytes that is shorter than the buffer is read whole. -/
theorem readContent_eq {maxLen : Nat} : ∀ {fuel : Nat} {s text : Bytes}, NulFree s →
    s.length ≤ fuel → text.length + s.length < maxLen →
    readContent maxLen fuel s text = some (text ++ s) := by
  intro fuel
  induction fuel with
  | zero =>
      intro s text _ hfuel _
      rw [List.eq_nil_of_length_eq_zero (Nat.le_zero.1 hfuel), List.append_nil]
      rfl
  | succ fuel ih =>
      intro s text hnul hfuel hlen
      cases s with
      | nil => rw [List.append_nil]; rfl
      | cons c s =>
          have hsplit := fgets_append (n := 1023) (s := c :: s)
          have hpos : 0 < (fgets 1023 (c :: s)).1.length :=
            fgets_length (List.cons_ne_nil c s)
          have hall := congrArg List.length hsplit
          rw [List.length_append] at hall
          have hline : NulFree (fgets 1023 (c :: s)).1 := fun b hb =>
            hnul b (hsplit ▸ List.mem_append_left _ hb)
          have hrest : NulFree (fgets 1023 (c :: s)).2 := fun b hb =>
            hnul b (hsplit ▸ List.mem_append_right _ hb)
          simp only [readContent, cstr_of_nulFree hline]
          rw [if_neg (by rw [List.length_append]; omega), ih hrest (by omega)
            (by rw [List.length_append]; omega), List.append_assoc, hsplit]

/-- The variables recorded for a text: each stands where it is said to, they
follow one another, and a variable of the text that is not among them overlaps
one before it, or comes after as many as there is room for. -/
structure Recorded (text : Bytes) (pre : Bytes) (names : List Bytes)
    (vars : List VarAttr) : Prop where
  inside : ∀ v ∈ vars, v.pos + v.len ≤ text.length
  spelled : ∀ v ∈ vars, v.id < names.length ∧
    (text.drop v.pos).take v.len = pre ++ names.getD v.id [] ++ [dollar]
  increasing : vars.Pairwise fun v w => v.pos + v.len ≤ w.pos ∧ v.pos < w.pos
  complete : ∀ i < names.length, ∀ p,
    (pre ++ names.getD i [] ++ [dollar]) <+: text.drop p →
    (∃ v ∈ vars, v.pos ≤ p ∧ p < v.pos + v.len) ∨
      vars.length = maxVarsNum ∧ ∀ v ∈ vars, v.pos + v.len ≤ p

section

variable {pre : Bytes} {names : List Bytes} {text : Bytes} {s : Bytes} {n i : Nat}

theorem varToken_spelled (h : varToken pre names s = some (n, i)) :
    i < names.length ∧ n ≤ s.length ∧
      s.take n = pre ++ names.getD i [] ++ [dollar] := by
  have hle := (varToken_proper pre names h).2
  obtain ⟨k, hk, heq⟩ := Option.map_eq_some_iff.1 h
  cases heq
  obtain ⟨hlt, hpre, _⟩ := List.findIdx?_eq_some_iff_getElem.1 hk
  rw [List.getD_eq_getElem _ _ hlt] at hle ⊢
  exact ⟨hlt, hle, (List.prefix_iff_eq_take.1 (List.isPrefixOf_iff_prefix.1 hpre)).symm⟩

theorem exists_varToken (hi : i < names.length)
    (h : pre ++ names.getD i [] ++ [dollar] <+: s) :
    ∃ n k, varToken pre names s = some (n, k) := by
  rw [List.getD_eq_getElem _ _ hi] at h
  have hsome := List.findIdx?_eq_some_of_exists
    (p := fun name => (pre ++ name ++ [dollar]).isPrefixOf s)
    ⟨names[i], List.getElem_mem hi, List.isPrefixOf_iff_prefix.2 h⟩
  rw [varToken, hsome]
  exact ⟨_, _, rfl⟩

/-- The first tokens of a text are what should be recorded of it. -/
theorem recorded_tokens {attr : Tokens.Token Nat → VarAttr}
    (hattr : ∀ t, (attr t).pos = t.pos ∧ (attr t).len = t.len ∧ (attr t).id = t.val) :
    Recorded text pre names
      (((tokensFrom pre names text 0).take maxVarsNum).map attr) := by
  have hproper := varToken_proper pre names
  have hpair : (tokensFrom pre names text 0).Pairwise fun t u => t.stop ≤ u.pos :=
    Tokens.pairwise hproper
  have htok : ∀ t ∈ tokensFrom pre names text 0,
      varToken pre names (text.drop t.pos) = some (t.len, t.val) := fun t ht =>
    Tokens.sound (p := 0) ht
  refine ⟨fun v hv => ?_, fun v hv => ?_, ?_, fun i hi p hp => ?_⟩
  · obtain ⟨t, ht, rfl⟩ := List.mem_map.1 hv
    obtain ⟨_, hle, _⟩ := varToken_spelled (htok t (List.mem_of_mem_take ht))
    have hpos := (hproper (htok t (List.mem_of_mem_take ht))).1
    obtain ⟨h₁, h₂, _⟩ := hattr t
    rw [List.length_drop] at hle
    omega
  · obtain ⟨t, ht, rfl⟩ := List.mem_map.1 hv
    obtain ⟨hlt, _, hspell⟩ := varToken_spelled (htok t (List.mem_of_mem_take ht))
    obtain ⟨h₁, h₂, h₃⟩ := hattr t
    rw [h₁, h₂, h₃]
    exact ⟨hlt, hspell⟩
  · rw [List.pairwise_map]
    refine (hpair.sublist (List.take_sublist _ _)).imp_of_mem fun {t u} ht _ hle => ?_
    obtain ⟨h₁, h₂, _⟩ := hattr t
    have hpos := (hproper (htok t (List.mem_of_mem_take ht))).1
    have h₄ := (hattr u).1
    rw [Tokens.Token.stop] at hle
    omega
  · obtain ⟨n, k, hnk⟩ := exists_varToken hi hp
    obtain ⟨t, ht, hlo, hhi⟩ := Tokens.complete hproper (p := 0) (Nat.zero_le p) hnk
    rw [Nat.zero_add] at hlo hhi
    have hsplit := List.take_append_drop maxVarsNum (tokensFrom pre names text 0)
    rw [← hsplit] at hpair
    have hcross := (List.pairwise_append.1 hpair).2.2
    have hmem : t ∈ tokensFrom pre names text 0 := ht
    rw [← hsplit] at hmem
    rcases List.mem_append.1 hmem with hfirst | hlater
    · obtain ⟨h₁, h₂, _⟩ := hattr t
      rw [Tokens.Token.stop] at hhi
      exact .inl ⟨attr t, List.mem_map_of_mem hfirst, by omega, by omega⟩
    · refine .inr ⟨?_, fun v hv => ?_⟩
      · have hlen := List.length_pos_of_mem hlater
        rw [List.length_drop] at hlen
        rw [List.length_map, List.length_take]
        omega
      · obtain ⟨u, hu, rfl⟩ := List.mem_map.1 hv
        obtain ⟨h₁, h₂, _⟩ := hattr u
        have hbefore := hcross u hu t hlater
        rw [Tokens.Token.stop] at hbefore
        omega

end

/-- `temp_load_content_file` ends, restores the text and records the first
variables of it. -/
theorem tempLoadContentFile_greedy {file : Bytes} (hnul : NulFree file)
    (hlen : file.length < maxPagetextLen) :
    let vars := ((tokensFrom (ascii "$ui") uivar file 0).take maxVarsNum).map uiAttr
    (∀ fuel, file.length ≤ fuel →
        readContent maxPagetextLen fuel file [] = some file) ∧
      (∀ fuel, file.length < fuel → parseContent fuel file 0 0 = (file, vars)) ∧
      tempLoadContentFile (some file) = some (file, vars) ∧
      Recorded file (ascii "$ui") uivar vars := by
  intro vars
  have hread : ∀ fuel, file.length ≤ fuel →
      readContent maxPagetextLen fuel file [] = some file := fun fuel hfuel =>
    readContent_eq hnul hfuel (by simpa using hlen)
  have hparse : ∀ fuel, file.length < fuel → parseContent fuel file 0 0 = (file, vars) :=
    fun fuel hfuel => parseContent_eq hnul (by omega) (Nat.zero_le _)
  refine ⟨hread, hparse, ?_, recorded_tokens fun t => ⟨rfl, rfl, rfl⟩⟩
  simp only [tempLoadContentFile, hread file.length (Nat.le_refl _),
    hparse (file.length + 1) (Nat.lt_succ_self _)]

theorem tempLoadContentFile_greedy_adjacent :
    tempLoadContentFile (some (ascii "$$uiSort$ui$uiPid$")) = some
      (ascii "$$uiSort$ui$uiPid$",
        [⟨1, 8, 15, ascii "$uiSort$"⟩, ⟨11, 7, 2, ascii "$uiPid$"⟩]) := by
  have hnul : NulFree (ascii "$$uiSort$ui$uiPid$") := by
    decide +kernel
  have hgreedy := tempLoadContentFile_greedy hnul (by decide)
  rw [hgreedy.2.2.1]
  decide +kernel

/-! ## The result texts

The loop over a result text skips four bytes without looking at them and looks a
name up in any case. That goes wrong in two ways: `$xyzTitle$` is recorded like
`$resTitle$`, and where the closing `$` is nearer than four bytes, the lookup
starts behind it. Either way the `$` is one that misleads the scan, and the text
has to be without such. -/

def resAttr (t : Tokens.Token Nat) : VarAttr :=
  ⟨t.pos, t.len, t.val, resVarName t.val⟩

abbrev resTokensFrom (text : Bytes) (p : Nat) : List (Tokens.Token Nat) :=
  tokensFrom (ascii "$res") resvar text p

/-- The scan of a result text records what the scan of a page text would: the
first variables, and nothing else. No name is looked up behind the closing `$`
that was overwritten for it. -/
structure ResGreedy (text : Bytes) (r : ResScan) : Prop where
  restored : r.text = text
  vars : r.vars = ((resTokensFrom text 0).take maxVarsNum).map resAttr
  lookups : ∀ l ∈ r.lookups, l.start ≤ l.pend

/-- A `$` at `q` with the next one at `e` does not mislead the scan: they stand
far enough apart, and no name of the table ends at `e` that is not a variable. -/
def Harmless (text : Bytes) (q e : Nat) : Prop :=
  q + 4 ≤ e ∧ ((text.drop (q + 4)).take (e - (q + 4)) ∈ resvar →
    (text.drop q).take 4 = ascii "$res")

/-- Every `$` from `p` on that opens or starts something, not the one that closes
a variable, is harmless, as long as there is room for variables. -/
def NotMisledFrom (text : Bytes) (p num : Nat) : Prop :=
  ∀ q e, p ≤ q → text[q]? = some dollar → strchr dollar text (q + 1) = some e →
    (∀ t ∈ resTokensFrom text p, t.stop ≠ q + 1) →
    num + ((resTokensFrom text p).filter fun t => decide (t.pos < q)).length < maxVarsNum →
    Harmless text q e

section

variable {text mid rest : Bytes} {p q e num : Nat}

theorem strchr_min (hq : strchr dollar text p = some q) {k : Nat} (hk : p ≤ k)
    (hd : text[k]? = some dollar) : q ≤ k := by
  obtain ⟨mid, rest, hsplit, hmid, hstop, _⟩ := strchr_split hq
  by_contra hlt
  have hget : (text.drop p)[k - p]? = some dollar := by
    rw [List.getElem?_drop, Nat.add_sub_cancel' hk, hd]
  rw [hsplit, List.getElem?_append_left (by omega)] at hget
  exact hmid (List.mem_of_getElem? hget)

theorem Stretch.dollars (hq : strchr dollar text p = some q)
    (he : strchr dollar text (q + 1) = some e) {k : Nat} (hk : p ≤ k)
    (hd : text[k]? = some dollar) : k = q ∨ e ≤ k := by
  have hqk := strchr_min hq hk hd
  by_cases heq : k = q
  · exact .inl heq
  · exact .inr (strchr_min he (by omega) hd)

theorem resTokensFrom_ge {t : Tokens.Token Nat} (h : t ∈ resTokensFrom text p) :
    p ≤ t.pos ∧ t.pos < t.stop := by
  have hge := Tokens.scan_ge h
  have htok := Tokens.sound h
  have hpos := (varToken_proper _ _ htok).1
  rw [Tokens.Token.stop]
  omega

theorem filter_before_eq_nil {ts : List (Tokens.Token Nat)} (h : ∀ t ∈ ts, e ≤ t.pos)
    (hq : q ≤ e) : ts.filter (fun t => decide (t.pos < q)) = [] := by
  refine List.filter_eq_nil_iff.2 fun t ht => ?_
  have hge := h t ht
  simp only [decide_eq_true_eq]
  omega

/-- A `$` that opens no variable has to be harmless. -/
theorem notMisledFrom_none (h : Stretch text q e mid rest)
    (hq : strchr dollar text p = some q) (he : strchr dollar text (q + 1) = some e)
    (hi : varIndex (ascii "$res") resvar (dollar :: mid) = none)
    (hnum : num < maxVarsNum) :
    NotMisledFrom text p num ↔ Harmless text q e ∧ NotMisledFrom text e num := by
  have hstop := h.stop
  have hpq := (strchr_some hq).1
  have htokens : resTokensFrom text p = resTokensFrom text e := by
    rw [resTokensFrom, tokensFrom_next resTable hq, h.tokensFrom_none resTable hi]
  have hge : ∀ t ∈ resTokensFrom text e, e ≤ t.pos := fun t ht =>
    (resTokensFrom_ge ht).1
  constructor
  · intro hall
    refine ⟨?_, fun k f hk hd hf hclose hroom => ?_⟩
    · have hopen : text[q]? = some dollar := by
        obtain ⟨_, hlt, hget⟩ := strchr_some hq
        rw [List.getElem?_eq_getElem hlt, hget]
      refine hall q e hpq hopen he (fun t ht heq => ?_) ?_
      · rw [htokens] at ht
        have hpos := resTokensFrom_ge ht
        omega
      · rw [htokens, filter_before_eq_nil hge (by omega)]
        exact hnum
    · refine hall k f (by omega) hd hf ?_ ?_
      · rw [htokens]
        exact hclose
      · rw [htokens]
        exact hroom
  · rintro ⟨hhere, hall⟩ k f hk hd hf hclose hroom
    rw [htokens] at hclose hroom
    rcases Stretch.dollars hq he hk hd with rfl | hek
    · rw [he] at hf
      cases hf
      exact hhere
    · exact hall k f hek hd hf hclose hroom

/-- The two `$` of a variable do not mislead the scan. -/
theorem notMisledFrom_some (h : Stretch text q e mid rest)
    (hq : strchr dollar text p = some q) (he : strchr dollar text (q + 1) = some e)
    {i : Nat} (hi : varIndex (ascii "$res") resvar (dollar :: mid) = some i)
    (hhere : Harmless text q e) :
    NotMisledFrom text p num ↔ NotMisledFrom text (e + 1) (num + 1) := by
  have hstop := h.stop
  have hpq := (strchr_some hq).1
  have htokens : resTokensFrom text p =
      ⟨q, e - q + 1, i⟩ :: resTokensFrom text (e + 1) := by
    rw [resTokensFrom, tokensFrom_next resTable hq, h.tokensFrom_some resTable hi]
  have hcount : ∀ k, e < k → ((resTokensFrom text p).filter fun t =>
      decide (t.pos < k)).length = ((resTokensFrom text (e + 1)).filter fun t =>
        decide (t.pos < k)).length + 1 := by
    intro k hk
    rw [htokens, List.filter_cons_of_pos (by simp only [decide_eq_true_eq]; omega)]
    rfl
  constructor
  · intro hall k f hk hd hf hclose hroom
    refine hall k f (by omega) hd hf (fun t ht => ?_) ?_
    · rw [htokens] at ht
      rcases List.mem_cons.1 ht with rfl | ht
      · rw [Tokens.Token.stop]
        show q + (e - q + 1) ≠ k + 1
        omega
      · exact hclose t ht
    · rw [hcount k (by omega)]
      omega
  · intro hall k f hk hd hf hclose hroom
    rcases Stretch.dollars hq he hk hd with rfl | hek
    · rw [he] at hf
      cases hf
      exact hhere
    · have hne : k ≠ e := by
        rintro rfl
        refine hclose ⟨q, k - q + 1, i⟩ (by rw [htokens]; exact List.mem_cons_self) ?_
        rw [Tokens.Token.stop]
        show q + (k - q + 1) = k + 1
        omega
      rw [hcount k (by omega)] at hroom
      refine hall k f (by omega) hd hf (fun t ht => ?_) (by omega)
      exact hclose t (by rw [htokens]; exact List.mem_cons_of_mem _ ht)

end

/-- `ResGreedy` in the middle of a scan. -/
structure ResGreedyFrom (text : Bytes) (p num : Nat) (r : ResScan) : Prop where
  restored : r.text = text
  vars : r.vars = ((resTokensFrom text p).take (maxVarsNum - num)).map resAttr
  lookups : ∀ l ∈ r.lookups, l.start ≤ l.pend

section

variable {text mid rest : Bytes} {p q e num : Nat}

/-- The lookup of a round finds the variable there is, if the `$` is harmless;
otherwise there is none, and the lookup finds one or reads too far. -/
theorem Stretch.resLookup (h : Stretch text q e mid rest) (hnul : NulFree text) :
    Harmless text q e ∧ varIndex (ascii "$res") resvar (dollar :: mid) =
        tempSearchResvar (cstr ((text.set e 0).drop (q + 4))) ∨
      ¬ Harmless text q e ∧ varIndex (ascii "$res") resvar (dollar :: mid) = none ∧
        (e < q + 4 ∨
          (tempSearchResvar (cstr ((text.set e 0).drop (q + 4)))).isSome = true) := by
  have hstop := h.stop
  have hpre : (text.drop q).take 4 = ascii "$res" ↔ ascii "$res" <+: dollar :: mid :=
    h.take_iff resTable
  by_cases hfar : q + 4 ≤ e
  · have hle : 4 ≤ mid.length + 1 := by omega
    have hname : (text.drop (q + 4)).take (e - (q + 4)) = (dollar :: mid).drop 4 := by
      rw [← List.drop_drop, h.split, List.drop_append_of_le_length hle]
      refine List.take_left' ?_
      rw [List.length_drop, List.length_cons]
      omega
    rw [h.name hnul hle]
    by_cases hp : ascii "$res" <+: dollar :: mid
    · exact .inl ⟨⟨hfar, fun _ => hpre.2 hp⟩, varIndex_of_starts hp⟩
    · cases hlook : tempSearchResvar ((dollar :: mid).drop 4) with
      | none =>
          refine .inl ⟨⟨hfar, fun hmem => ?_⟩, varIndex_of_starts_not hp⟩
          rw [hname] at hmem
          have hne := List.findIdx?_eq_none_iff.1 hlook _ hmem
          rw [beq_self_eq_true] at hne
          cases hne
      | some i =>
          refine .inr ⟨fun hh => hp (hpre.1 (hh.2 ?_)), varIndex_of_starts_not hp,
            .inr rfl⟩
          obtain ⟨hlt, heq, _⟩ := List.findIdx?_eq_some_iff_getElem.1 hlook
          rw [hname, ← eq_of_beq heq]
          exact List.getElem_mem hlt
  · refine .inr ⟨fun hh => hfar hh.1, varIndex_of_starts_not fun hp => ?_,
      .inl (Nat.lt_of_not_le hfar)⟩
    have hlen : 4 ≤ (dollar :: mid).length := hp.length_le
    rw [List.length_cons] at hlen
    omega

/-- What the scan goes on to find does not start before where it goes on. -/
theorem resAttr_pos_ge {n : Nat} {v : VarAttr}
    (hv : v ∈ ((resTokensFrom text p).take n).map resAttr) : p ≤ v.pos := by
  obtain ⟨t, ht, rfl⟩ := List.mem_map.1 hv
  exact (resTokensFrom_ge (List.mem_of_mem_take ht)).1

theorem resGreedyFrom_looked {r : ResScan} {l : Lookup} (hl : l.start ≤ l.pend) :
    ResGreedyFrom text p num (r.looked l) ↔ ResGreedyFrom text p num r := by
  refine ⟨fun h => ⟨h.restored, h.vars, fun l' hl' =>
    h.lookups l' (List.mem_cons_of_mem _ hl')⟩, fun h => ⟨h.restored, h.vars, ?_⟩⟩
  intro l' hl'
  rcases List.mem_cons.1 hl' with rfl | hl'
  · exact hl
  · exact h.lookups l' hl'

theorem resGreedyFrom_congr {r : ResScan}
    (h : resTokensFrom text p = resTokensFrom text e) :
    ResGreedyFrom text p num r ↔ ResGreedyFrom text e num r := by
  refine ⟨fun hg => ⟨hg.restored, ?_, hg.lookups⟩,
    fun hg => ⟨hg.restored, ?_, hg.lookups⟩⟩
  · rw [hg.vars, h]
  · rw [hg.vars, h]

theorem resGreedyFrom_found {r : ResScan} {t : Tokens.Token Nat}
    (h : resTokensFrom text p = t :: resTokensFrom text e) (hnum : num < maxVarsNum) :
    ResGreedyFrom text p num (r.found (resAttr t)) ↔
      ResGreedyFrom text e (num + 1) r := by
  have hroom : maxVarsNum - num = maxVarsNum - (num + 1) + 1 := by omega
  have htake : ((resTokensFrom text p).take (maxVarsNum - num)).map resAttr =
      resAttr t :: ((resTokensFrom text e).take (maxVarsNum - (num + 1))).map resAttr := by
    rw [h, hroom, List.take_succ_cons, List.map_cons]
  refine ⟨fun hg => ⟨hg.restored, ?_, hg.lookups⟩,
    fun hg => ⟨hg.restored, ?_, hg.lookups⟩⟩
  · have hvars := hg.vars
    rw [htake] at hvars
    exact (List.cons.inj hvars).2
  · rw [htake, ← hg.vars]
    rfl

/-- From `p` on the scan finds the variables, and nothing else, exactly when no
`$` misleads it. -/
theorem parseRes_iff : ∀ {fuel p num : Nat}, NulFree text → text.length < p + fuel →
    p ≤ text.length →
    (ResGreedyFrom text p num (parseRes fuel text p num) ↔ NotMisledFrom text p num) := by
  intro fuel
  induction fuel with
  | zero => intro p num _ hfuel hp; omega
  | succ fuel ih =>
      intro p num hnul hfuel hp
      rw [parseRes]
      split
      · next hfull =>
          refine ⟨fun _ k f _ _ _ _ hroom => by omega, fun _ => ⟨rfl, ?_, List.forall_mem_nil _⟩⟩
          rw [Nat.sub_eq_zero_of_le hfull]
          rfl
      · next hroom =>
          split
          · next hnone =>
              have hclean := strchr_none hnone
              refine ⟨fun _ k f hk hd _ _ _ => ?_, fun _ => ⟨rfl, ?_, List.forall_mem_nil _⟩⟩
              · refine absurd ?_ hclean
                refine List.mem_of_getElem? (i := k - p) ?_
                rw [List.getElem?_drop, Nat.add_sub_cancel' hk, hd]
              · rw [resTokensFrom, tokensFrom_clean resTable hclean, List.take_nil]
                rfl
          · next q hq =>
              split
              · next hnone =>
                  have hclean := strchr_none hnone
                  refine ⟨fun _ k f hk hd hf _ _ => ?_, fun _ => ⟨rfl, ?_, List.forall_mem_nil _⟩⟩
                  · have hqk := strchr_min hq hk hd
                    have hkq : k = q := by
                      by_contra hne
                      refine hclean (List.mem_of_getElem? (i := k - (q + 1)) ?_)
                      rw [List.getElem?_drop, Nat.add_sub_cancel' (by omega), hd]
                    rw [hkq, hnone] at hf
                    cases hf
                  · rw [resTokensFrom, tokensFrom_last resTable hq hnone, List.take_nil]
                    rfl
              · next e he =>
                  obtain ⟨mid, rest, hst⟩ := exists_stretch hq he
                  have hpq := (strchr_some hq).1
                  have hlt := hst.lt
                  have hstop := hst.stop
                  simp only [set_restore hlt (hst.getElem hlt)]
                  rcases hst.resLookup hnul with ⟨hharm, hvar⟩ | ⟨hbad, hvar, hwrong⟩
                  · rw [resGreedyFrom_looked hharm.1]
                    split
                    · next hlook =>
                        rw [hlook] at hvar
                        have htokens : resTokensFrom text p = resTokensFrom text e := by
                          rw [resTokensFrom, tokensFrom_next resTable hq,
                            hst.tokensFrom_none resTable hvar]
                        rw [resGreedyFrom_congr htokens,
                          ih hnul (by omega) (by omega),
                          notMisledFrom_none hst hq he hvar (by omega),
                          and_iff_right hharm]
                    · next i hlook =>
                        rw [hlook] at hvar
                        have htokens : resTokensFrom text p =
                            ⟨q, e - q + 1, i⟩ :: resTokensFrom text (e + 1) := by
                          rw [resTokensFrom, tokensFrom_next resTable hq,
                            hst.tokensFrom_some resTable hvar]
                        exact (resGreedyFrom_found htokens (by omega)).trans
                          ((ih hnul (by omega) (by omega)).trans
                            (notMisledFrom_some hst hq he hvar hharm).symm)
                  · rw [notMisledFrom_none hst hq he hvar (by omega)]
                    refine iff_of_false (fun hg => ?_) fun hall => hbad hall.1
                    rcases hwrong with hnear | hsome
                    · have hle := hg.lookups _ List.mem_cons_self
                      exact absurd hle (Nat.not_le_of_lt hnear)
                    · obtain ⟨i, hlook⟩ := Option.isSome_iff_exists.1 hsome
                      have htokens : resTokensFrom text p = resTokensFrom text e := by
                        rw [resTokensFrom, tokensFrom_next resTable hq,
                          hst.tokensFrom_none resTable hvar]
                      have hvars := hg.vars
                      rw [htokens, hlook] at hvars
                      have hmem : (⟨q, e - q + 1, i, resVarName i⟩ : VarAttr) ∈
                          ((resTokensFrom text e).take (maxVarsNum - num)).map
                            resAttr := by
                        rw [← hvars]
                        exact List.mem_cons_self
                      have hpos : e ≤ q := resAttr_pos_ge hmem
                      omega

end

/-- A stray `$` misleads the scan: it stands within three bytes of the next one,
or a name of the table stands four bytes behind it that is no variable. It counts
unless it closes a variable, and as long as there is room for variables. -/
def NotMisled (text : Bytes) : Prop :=
  ∀ q e, text[q]? = some dollar → strchr dollar text (q + 1) = some e →
    (∀ t ∈ resTokensFrom text 0, t.stop ≠ q + 1) →
    ((resTokensFrom text 0).filter fun t => decide (t.pos < q)).length < maxVarsNum →
    Harmless text q e

/-- `temp_load_res_file` records the first variables of the text and nothing else,
looking no name up too far, exactly when no stray `$` misleads it. -/
theorem resGreedy_iff {file : Bytes} (hnul : NulFree file)
    (hlen : file.length < maxResTemplSize) :
    (∃ r, tempLoadResFile (some file) = some r ∧ ResGreedy file r ∧
        Recorded file (ascii "$res") resvar r.vars) ↔ NotMisled file := by
  have hread : readContent maxResTemplSize file.length file [] = some file :=
    readContent_eq hnul (Nat.le_refl _) (by simpa using hlen)
  have hload : tempLoadResFile (some file) = some (parseRes (file.length + 1) file 0 0) := by
    simp only [tempLoadResFile, hread]
  have hparse := @parseRes_iff file (file.length + 1) 0 0 hnul (by omega) (Nat.zero_le _)
  have hmisled : NotMisledFrom file 0 0 ↔ NotMisled file := by
    simp only [NotMisledFrom, NotMisled, Nat.zero_le, Nat.zero_add, forall_const]
  rw [← hmisled, ← hparse]
  constructor
  · rintro ⟨r, hr, hg, _⟩
    rw [hload] at hr
    cases hr
    exact ⟨hg.restored, hg.vars, hg.lookups⟩
  · intro hg
    refine ⟨_, hload, ⟨hg.restored, hg.vars, hg.lookups⟩, ?_⟩
    rw [hg.vars, Nat.sub_zero]
    exact recorded_tokens fun t => ⟨rfl, rfl, rfl⟩

theorem resGreedy_iff_title :
    (∃ r, tempLoadResFile (some (ascii "a $resTitle$ b")) = some r ∧
        ResGreedy (ascii "a $resTitle$ b") r ∧
        Recorded (ascii "a $resTitle$ b") (ascii "$res") resvar r.vars) ↔
      NotMisled (ascii "a $resTitle$ b") := by
  have hnul : NulFree (ascii "a $resTitle$ b") := by
    decide +kernel
  exact resGreedy_iff hnul (by decide)

/-- The prefix of a variable is not looked at. -/
theorem resGreedy_fails :
    ¬ ∀ file : Bytes, NulFree file → file.length < maxResTemplSize →
      ∃ r, tempLoadResFile (some file) = some r ∧ ResGreedy file r ∧
        Recorded file (ascii "$res") resvar r.vars := by
  intro hall
  have hnul : NulFree (ascii "$abcTitle$") := by
    decide +kernel
  obtain ⟨r, hr, hg, _⟩ := hall (ascii "$abcTitle$") hnul (by decide)
  have hvars : (tempLoadResFile (some (ascii "$abcTitle$"))).map (·.vars.length) =
      some 1 := by decide +kernel
  have htokens : ((resTokensFrom (ascii "$abcTitle$") 0).take maxVarsNum).length = 0 := by
    decide +kernel
  rw [hr, Option.map_some, hg.vars, List.length_map, htokens] at hvars
  cases hvars

end UiServer
