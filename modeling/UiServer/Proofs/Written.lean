import UiServer.Lib.Settled
import UiServer.Proofs.ConfLine
import UiServer.Proofs.Itoa
import UiServer.Proofs.Lines

/-!
# A configuration that was written down

Settings written on a line each, with whatever spaces and line ends, are the settings
that `async_load_conf` calls back with, one for one and in their order
(`settings_written`). A number written in decimal is the number that `atoi` reads,
as long as 32 bits hold it (`atoiText_decimalInt`).
-/

namespace UiServer

open CMem

/-! ## Numbers

The decimal text of a number is read digit by digit up to a byte that is none.
What `strtol` gives then is cut to 32 bits, which changes nothing of a number that
has no more. -/

theorem not_isSpace_of_isDigit {c : UInt8} (h : isDigit c = true) : isSpace c = false := by
  have hall : ∀ n < 256, isDigit (UInt8.ofNat n) = true → isSpace (UInt8.ofNat n) = false := by
    decide +kernel
  have hc := hall c.toNat c.toNat_lt
  rw [UInt8.ofNat_toNat] at hc
  exact hc h

theorem decimal_eq (n : Nat) : decimal n =
    (if n / 10 = 0 then [] else decimal (n / 10)) ++ [UInt8.ofNat (n % 10 + 48)] := by
  have h := congrArg List.reverse (decimal_reverse n)
  rw [List.reverse_reverse, List.reverse_cons] at h
  rw [h]
  split
  · rfl
  · rw [List.reverse_reverse]

theorem foldl_decimal (n : Nat) :
    (decimal n).foldl (fun n c => 10 * n + (c.toNat - 48)) 0 = n := by
  induction n using Nat.strong_induction_on with
  | _ n ih =>
      have hdigit : ∀ d < 10, (UInt8.ofNat (d + 48)).toNat - 48 = d := by decide
      rw [decimal_eq, List.foldl_append, List.foldl_cons, List.foldl_nil,
        hdigit _ (Nat.mod_lt n (by omega))]
      split
      · next hzero => rw [List.foldl_nil]; omega
      · rw [ih (n / 10) (by omega)]
        omega

theorem isDigit_decimal {n : Nat} {c : UInt8} (h : c ∈ decimal n) : isDigit c = true := by
  obtain ⟨hlow, hhigh⟩ := decimal_digit h
  simp [isDigit, hlow, hhigh]

/-- The digits of a number that something else follows. -/
theorem digits_decimal {n : Nat} {rest : Bytes} (h : isDigit (rest.headD 0) = false) :
    digits (decimal n ++ rest) = n := by
  have htake : (decimal n ++ rest).takeWhile isDigit = decimal n := by
    have hrest : rest.takeWhile isDigit = [] := by
      cases rest with
      | nil => rfl
      | cons b rest => exact List.takeWhile_cons_of_neg (Bool.eq_false_iff.1 h)
    rw [List.takeWhile_append_of_pos fun c hc => isDigit_decimal hc, hrest, List.append_nil]
  show ((decimal n ++ rest).takeWhile isDigit).foldl _ 0 = n
  rw [htake, foldl_decimal]

theorem decimal_cons (n : Nat) : ∃ c s, decimal n = c :: s ∧ isDigit c = true := by
  cases hn : decimal n with
  | nil => exact absurd hn (decimal_ne_nil n)
  | cons c s => exact ⟨c, s, rfl, isDigit_decimal (hn ▸ List.mem_cons_self ..)⟩

theorem strtol_decimal {n : Nat} {rest : Bytes} (h : isDigit (rest.headD 0) = false)
    (hn : n < 2 ^ 63) : strtol (decimal n ++ rest) = n := by
  obtain ⟨c, s, hc, hdigit⟩ := decimal_cons n
  have hplain : ¬ isSpace c = true ∧ c ≠ 45 ∧ c ≠ 43 := by
    refine ⟨?_, ?_, ?_⟩
    · rw [not_isSpace_of_isDigit hdigit]
      exact Bool.false_ne_true
    · rintro rfl
      exact absurd hdigit (by decide)
    · rintro rfl
      exact absurd hdigit (by decide)
  have hdrop : (decimal n ++ rest).dropWhile isSpace = decimal n ++ rest := by
    rw [hc, List.cons_append, List.dropWhile_cons_of_neg hplain.1]
  rw [strtol, hdrop]
  have hhead : (decimal n ++ rest).headD 0 = c := by rw [hc]; rfl
  rw [hhead, if_neg hplain.2.1, if_neg hplain.2.2, digits_decimal h]
  omega

/-- `atoi` of a decimal number that something else follows. -/
theorem atoiText_decimal {n : Nat} {rest : Bytes} (h : isDigit (rest.headD 0) = false)
    (hn : n < 2 ^ 31) : atoiText (decimal n ++ rest) = n := by
  rw [atoiText, strtol_decimal h (by omega)]
  exact Int.bmod_eq_of_le (by omega) (by omega)

theorem strtol_negative {n : Nat} (hn : n < 2 ^ 63) : strtol (45 :: decimal n) = -n := by
  have hdigits : digits (decimal n) = n := by
    have h := @digits_decimal n [] rfl
    rwa [List.append_nil] at h
  have hspace : ¬ isSpace 45 = true := Bool.false_ne_true
  rw [strtol, List.dropWhile_cons_of_neg hspace]
  rw [List.headD_cons, if_pos rfl, List.tail_cons, hdigits]
  omega

/-- A word of 32 bits is read back from its decimal text. -/
theorem atoiText_decimalInt {n : Int} (hlow : -2 ^ 31 ≤ n) (hhigh : n < 2 ^ 31) :
    atoiText (decimalInt n) = n := by
  rw [decimalInt_eq]
  by_cases hneg : n < 0
  · rw [if_pos hneg, List.singleton_append, atoiText, strtol_negative (by omega)]
    rw [Int.bmod_eq_of_le (by omega) (by omega)]
    omega
  · rw [if_neg hneg, List.nil_append]
    have h := @atoiText_decimal n.natAbs [] rfl (by omega)
    rw [List.append_nil] at h
    rw [h]
    omega

/-! ## Lines

A line that was written ends with its only newline and is no longer than `fgets`
reads at a time, so it is taken off the file as it is and parsed to its setting.
-/

/-- A setting as it stands in a file. -/
structure Written where
  setting : Setting
  indent : Nat
  front : Nat
  behind : Nat
  crlf : Bool
  apart : 1 ≤ front + behind
  fits : (setting.line indent front behind crlf).length ≤ 1023
  noComment : setting.key.head? ≠ some 35

def Written.line (w : Written) : Bytes := w.setting.line w.indent w.front w.behind w.crlf

def written (ws : List Written) : Bytes := ws.flatMap Written.line

/-- All of a line but the byte that ends it. -/
theorem Written.line_eq (w : Written) :
    ∃ body, w.line = body ++ [newline] ∧ newline ∉ body ∧ NulFree w.line := by
  have hspaces : ∀ n, newline ∉ spaces n ∧ NulFree (spaces n) := fun n =>
    ⟨fun h => absurd (mem_spaces h) (by decide), fun b hb => by rw [mem_spaces hb]; decide⟩
  have hcolon : newline ∉ [colon] ∧ NulFree [colon] := ⟨by decide, by decide⟩
  have hend : ∃ cr, lineEnd w.crlf = cr ++ [newline] ∧ newline ∉ cr ∧ NulFree cr := by
    cases w.crlf with
    | false => exact ⟨[], rfl, by decide, by decide⟩
    | true => exact ⟨[13], rfl, by decide, by decide⟩
  obtain ⟨cr, hcr, hnocr, hnulcr⟩ := hend
  refine ⟨spaces w.indent ++ (w.setting.key ++ (spaces w.front ++ ([colon] ++
    (spaces w.behind ++ (w.setting.value ++ cr))))), ?_, ?_, ?_⟩
  · simp only [Written.line, Setting.line, Setting.valuePart, hcr, List.append_assoc,
      List.cons_append, List.nil_append]
  · simp only [List.mem_append, not_or]
    exact ⟨(hspaces _).1, w.setting.key_newline, (hspaces _).1, hcolon.1, (hspaces _).1,
      w.setting.value_newline, hnocr⟩
  · have hall : NulFree (spaces w.indent ++ (w.setting.key ++ (spaces w.front ++ ([colon] ++
        (spaces w.behind ++ (w.setting.value ++ (cr ++ [newline]))))))) :=
      (hspaces _).2.append (w.setting.key_nulFree.append ((hspaces _).2.append
        (hcolon.2.append ((hspaces _).2.append (w.setting.value_nulFree.append
          (hnulcr.append (by decide)))))))
    simpa only [Written.line, Setting.line, Setting.valuePart, hcr, List.singleton_append]
      using hall

/-- `fgets` takes the line off the file. -/
theorem Written.fgets_line (w : Written) (rest : Bytes) :
    fgets 1023 (w.line ++ rest) = (w.line, rest) := by
  obtain ⟨body, hbody, hno, _⟩ := w.line_eq
  have hlen := w.fits
  have hline : ∀ (n : Nat) (body : Bytes), newline ∉ body → body.length + 1 ≤ n →
      fgets n (body ++ [newline] ++ rest) = (body ++ [newline], rest) := by
    intro n body
    induction body generalizing n with
    | nil =>
        intro _ hn
        obtain ⟨n, rfl⟩ : ∃ k, n = k + 1 := ⟨n - 1, by omega⟩
        rfl
    | cons b body ih =>
        intro hno hn
        rw [List.length_cons] at hn
        obtain ⟨n, rfl⟩ : ∃ k, n = k + 1 := ⟨n - 1, by omega⟩
        have hb : ¬ b = 10 := fun h => hno (h ▸ List.mem_cons_self ..)
        simp only [List.cons_append, fgets, if_neg hb,
          ih n (fun h => hno (List.mem_cons_of_mem b h)) (by omega)]
  have hfits : w.line.length ≤ 1023 := w.fits
  rw [hbody, List.length_append, List.length_singleton] at hfits
  rw [hbody]
  exact hline 1023 body hno hfits

/-- What is read of a line. -/
structure Written.Read (w : Written) (line : ConfigLine) : Prop where
  back : ReadBack w.setting line
  noComment : line.key.headD 0 ≠ 35

theorem Written.parse (w : Written) (stray : Bytes) :
    ∃ line, parseConfigLine stray w.line = some line ∧ w.Read line := by
  obtain ⟨line, hparse, hback⟩ :=
    parseConfigLine_line stray w.setting w.indent w.front w.behind w.crlf w.apart
  refine ⟨line, hparse, hback, fun hhead => ?_⟩
  -- the key is not empty, so its first byte is that of the string
  have hkey := hback.key
  rw [hback.keyLen, Int.toNat_natCast] at hkey
  cases hk : w.setting.key with
  | nil => exact w.setting.key_nonempty hk
  | cons b k =>
      rw [hk, List.length_cons] at hkey
      cases hl : line.key with
      | nil => rw [hl] at hkey; cases hkey
      | cons d l =>
          rw [hl, List.take_succ_cons] at hkey
          rw [hl, List.headD_cons] at hhead
          refine w.noComment ?_
          rw [hk, ← (List.cons.inj hkey).1, hhead]
          rfl

theorem confLines_written {stray : Nat → Bytes} : ∀ {ws : List Written} {fuel n : Nat},
    (written ws).length ≤ fuel →
      List.Forall₂ Written.Read ws (confLines stray fuel n (written ws)) := by
  intro ws
  induction ws with
  | nil => intro fuel n _; cases fuel <;> exact .nil
  | cons w ws ih =>
      intro fuel n hfuel
      obtain ⟨body, hbody, _, hnul⟩ := w.line_eq
      have hlen : (written (w :: ws)).length = w.line.length + (written ws).length :=
        List.length_append
      have hpos : 1 ≤ w.line.length := by
        rw [hbody, List.length_append, List.length_singleton]
        omega
      obtain ⟨fuel, rfl⟩ : ∃ k, fuel = k + 1 := ⟨fuel - 1, by omega⟩
      obtain ⟨line, hparse, hread⟩ := w.parse (stray n)
      have hfgets : fgets 1023 (written (w :: ws)) = (w.line, written ws) :=
        w.fgets_line (written ws)
      have hlines : confLines stray (fuel + 1) n (written (w :: ws)) =
          line :: confLines stray fuel (n + 1) (written ws) := by
        have hne : written (w :: ws) ≠ [] := by
          intro h
          rw [h, List.length_nil] at hlen
          omega
        cases hs : written (w :: ws) with
        | nil => exact absurd hs hne
        | cons c s =>
            rw [hs] at hfgets
            simp only [confLines, hfgets, cstr_of_nulFree hnul, hparse,
              if_neg hread.noComment]
      rw [hlines]
      exact .cons hread (ih (by omega))

/-- The settings of a file are those that were written, in their order. -/
theorem settings_written (stray : Nat → Bytes) (ws : List Written) :
    List.Forall₂ Written.Read ws (settings stray (written ws)) :=
  confLines_written (Nat.le_refl _)

theorem mem_of_forall₂ {α β : Type} {R : α → β → Prop} {as : List α} {bs : List β}
    (h : List.Forall₂ R as bs) :
    (∀ a ∈ as, ∃ b ∈ bs, R a b) ∧ ∀ b ∈ bs, ∃ a ∈ as, R a b := by
  induction h with
  | nil => exact ⟨fun a ha => absurd ha List.not_mem_nil, fun b hb => absurd hb List.not_mem_nil⟩
  | @cons a b as bs hab _ ih =>
      refine ⟨List.forall_mem_cons.2 ⟨⟨b, List.mem_cons_self, hab⟩, fun a' ha' => ?_⟩,
        List.forall_mem_cons.2 ⟨⟨a, List.mem_cons_self, hab⟩, fun b' hb' => ?_⟩⟩
      · obtain ⟨b', hb', hR⟩ := ih.1 a' ha'
        exact ⟨b', List.mem_cons_of_mem b hb', hR⟩
      · obtain ⟨a', ha', hR⟩ := ih.2 b' hb'
        exact ⟨a', List.mem_cons_of_mem a ha', hR⟩

end UiServer
