import SuiteRunner.Proofs.Json.Numbers
import SuiteRunner.Proofs.Number.Shortest

/-! # Numerals of doubles

A finite double is written as a numeral. Unless the double is very large, the numeral is read as a
double again. -/
namespace SuiteRunner.Json

open Number (Candidate Decimal Layout placePoint)

/-- The numeral of a number below `10 ^ size`, without a sign. -/
structure Sized (whole fraction exponent : List Char) (size : Int) : Prop where
  digits : Digits whole
  noZeros : ∀ d ds, whole ≠ '0' :: d :: ds
  isFraction : IsFraction fraction
  isExponent : IsExponent exponent
  le : whole.length + (exponentOf exponent).getD 0 ≤ size

def IsSign (sign : List Char) : Prop := sign = [] ∨ sign = ['-']

variable {sign whole fraction exponent : List Char} {size : Int}

private theorem Sized.isNumeral (h : Sized whole fraction exponent size) (hsign : IsSign sign) :
    IsNumeral (sign ++ (whole ++ (fraction ++ exponent))) :=
  ⟨sign, whole, fraction, exponent, rfl, hsign, h.digits, h.noZeros, h.isFraction, h.isExponent⟩

/-! ## Reading -/

theorem IsExponent.head? (h : IsExponent exponent) :
    ∀ c ∈ exponent.head?, Text.isDigit c = false ∧ c ≠ '.' := by
  cases h with
  | absent => simp
  | digits he => rcases he with rfl | rfl <;> simp [Text.isDigit]

theorem IsFraction.head? (hf : IsFraction fraction) (he : IsExponent exponent) :
    ∀ c ∈ (fraction ++ exponent).head?, Text.isDigit c = false := by
  cases hf with
  | absent => exact fun c hc => (he.head? c hc).1
  | digits _ => simp [Text.isDigit]

private theorem ofChars_parts (h : Sized whole fraction exponent size) (hsign : IsSign sign) :
    (Literal.ofChars (sign ++ (whole ++ (fraction ++ exponent)))).whole = whole ∧
      (Literal.ofChars (sign ++ (whole ++ (fraction ++ exponent)))).exponent =
        exponentOf exponent := by
  obtain ⟨htake, hdrop⟩ := h.digits.span _ (h.isFraction.head? h.isExponent)
  unfold Literal.ofChars
  split
  next negative cs hsplit =>
    obtain rfl : whole ++ (fraction ++ exponent) = cs := by
      rcases hsign with rfl | rfl
      · split at hsplit
        · next heq => exact absurd heq (h.digits.append_ne rfl _ _)
        · exact (Prod.mk.inj hsplit).2
      · exact (Prod.mk.inj hsplit).2
    simp only [htake, hdrop, true_and]
    obtain ⟨-, -, hfraction, hexponent, -⟩ := h
    cases hfraction with
    | absent =>
      split
      · next heq => exact absurd rfl (hexponent.head? '.' (by rw [← List.nil_append exponent, heq]; rfl)).2
      · rfl
    | digits hd =>
      obtain ⟨-, hrest⟩ := hd.span exponent fun c hc => (hexponent.head? c hc).1
      exact congrArg exponentOf hrest

/-- Nothing below one grows too large. -/
theorem scaleByTen_isSome_of_neg (steps : Nat) (x : Binary64) {e : Int} (he : e < 0) :
    (scaleByTen steps x e).isSome = true := by
  induction steps generalizing x e with
  | zero => rfl
  | succ steps ih =>
    unfold scaleByTen
    rw [if_neg (by omega)]
    split
    · rfl
    · split
      · rfl
      · rw [if_neg (by omega)]
        exact ih _ (by omega)

private theorem atMost_powerOfTen {k : Nat} (hk : k ≤ 200) : (powerOfTen k).AtMost (4 * k + 4) := by
  apply Binary64.atMost_ofNat (by omega)
  rw [Nat.pow_mul]
  exact Nat.pow_le_pow_left (by decide) k

private theorem scaleByTen_isSome {steps : Nat} {x : Binary64} (hx : x.AtMost 68) {e : Int}
    (he : e ≤ 200) : (scaleByTen steps x e).isSome = true := by
  rcases Int.lt_or_le e 0 with hneg | hpos
  · exact scaleByTen_isSome_of_neg steps x hneg
  · cases steps with
    | zero => rfl
    | succ steps =>
      have hten := atMost_powerOfTen (show e.toNat ≤ 200 by omega)
      have hproduct := hx.mul (by omega) hten
      unfold scaleByTen
      simp [show 0 ≤ e ∧ e ≤ 308 by omega, hproduct.isInfinite]

private theorem length_gather_le (acc : Nat) (ds : List Char) :
    (gather acc ds).2.length ≤ ds.length := by
  induction ds generalizing acc with
  | nil => rfl
  | cons d ds ih =>
    rw [gather]
    split
    · exact Nat.le_succ_of_le (ih _)
    · exact Nat.le_refl _

private theorem value?_isSome {l : Literal} (h : l.whole.length + l.exponent.getD 0 ≤ 200) :
    l.value?.isSome = true := by
  have hlength := length_gather_le 0 l.whole
  have hlt := gather_lt (show 0 < 2 ^ 64 by decide) l.whole
  unfold Literal.value?
  generalize gather 0 l.whole = whole at hlength hlt
  obtain ⟨whole, dropped⟩ := whole
  dsimp only at hlength hlt ⊢
  split
  · rfl
  · have hlt' := gather_lt hlt (l.fraction.getD [])
    have hfits := Binary64.atMost_ofNat (k := 64) (by decide) hlt'.le
    rw [Option.isSome_map]
    apply scaleByTen_isSome hfits
    omega

private theorem Sized.isSome_ofChars? (h : Sized whole fraction exponent size) (hsign : IsSign sign)
    (hsize : size ≤ 200) :
    (Numeric.ofChars? (sign ++ (whole ++ (fraction ++ exponent)))).isSome = true := by
  obtain ⟨hwhole, hexponent⟩ := ofChars_parts h hsign
  apply value?_isSome
  rw [hwhole, hexponent]
  exact Int.le_trans h.le hsize

theorem exists_toDouble {literal : List Char} (h : (Numeric.ofChars? literal).isSome = true) :
    ∃ x, (Node.number literal).toDouble = .ok x := by
  obtain ⟨n, hn⟩ := Option.isSome_iff_exists.mp h
  rw [Node.toDouble, hn]
  cases n <;> exact ⟨_, rfl⟩

/-! ## Writing -/

theorem digits_digits (n : Nat) : Digits (Text.digits n) :=
  ⟨Text.digits_ne_nil n, Text.isDigit_of_mem_digits⟩

private theorem isDigit_of_mem_append {ds ds' : List Char} (h : ∀ c ∈ ds, Text.isDigit c = true)
    (h' : ∀ c ∈ ds', Text.isDigit c = true) : ∀ c ∈ ds ++ ds', Text.isDigit c = true := by
  intro c hc
  rcases List.mem_append.mp hc with hc | hc
  · exact h c hc
  · exact h' c hc

private theorem isDigit_of_mem_zeros {n : Nat} :
    ∀ c ∈ List.replicate n '0', Text.isDigit c = true := by
  intro c hc
  rw [List.eq_of_mem_replicate hc]
  rfl

theorem Digits.take {ds : List Char} (h : Digits ds) {n : Nat} (hn : 0 < n) :
    Digits (ds.take n) := by
  refine ⟨?_, fun c hc => h.2 c (List.mem_of_mem_take hc)⟩
  rw [Ne, List.take_eq_nil_iff]
  exact not_or.mpr ⟨by omega, h.1⟩

theorem Digits.drop {ds : List Char} (h : Digits ds) {n : Nat} (hn : n < ds.length) :
    Digits (ds.drop n) :=
  ⟨by simpa using hn, fun c hc => h.2 c (List.mem_of_mem_drop hc)⟩

theorem ne_zero_cons {whole : List Char} (h : whole.head? ≠ some '0') :
    ∀ d ds, whole ≠ '0' :: d :: ds := by
  rintro d ds rfl
  exact h rfl

private theorem sized_placePoint {n : Nat} (hn : 0 < n) (before : Int) (zeroDecimal : Bool) :
    ∃ whole fraction, placePoint (Text.digits n) before zeroDecimal = whole ++ (fraction ++ []) ∧
      Sized whole fraction [] (max 1 before) := by
  obtain ⟨hne, hall⟩ := digits_digits n
  have hhead := Text.head?_digits_ne_zero hn
  unfold placePoint
  split
  · -- Zeros come first.
    refine ⟨['0'], '.' :: (List.replicate (-before).toNat '0' ++ Text.digits n), by simp, ?_⟩
    exact {
      digits := by simp [Digits, Text.isDigit]
      noZeros := by simp
      isFraction := .digits ⟨by simp [hne], isDigit_of_mem_append isDigit_of_mem_zeros hall⟩
      isExponent := .absent
      le := by simp [exponentOf] }
  · split
    · -- Zeros come last.
      next hbefore hlength =>
      refine ⟨Text.digits n ++ List.replicate (before.toNat - (Text.digits n).length) '0',
        if zeroDecimal then ['.', '0'] else [], by simp, ?_⟩
      exact {
        digits := ⟨by simp [hne], isDigit_of_mem_append hall isDigit_of_mem_zeros⟩
        noZeros := by
          apply ne_zero_cons
          obtain ⟨c, cs, hcs⟩ := List.exists_cons_of_ne_nil hne
          rw [hcs] at hhead ⊢
          exact hhead
        isFraction := by
          split
          · exact .digits (by simp [Digits, Text.isDigit])
          · exact .absent
        isExponent := .absent
        le := by
          simp only [List.length_append, List.length_replicate, exponentOf, Option.getD_none]
          omega }
    · -- The point stands among the digits.
      next hbefore hlength =>
      refine ⟨(Text.digits n).take before.toNat, '.' :: (Text.digits n).drop before.toNat,
        by simp, ?_⟩
      exact {
        digits := (digits_digits n).take (by omega)
        noZeros := by
          apply ne_zero_cons
          rwa [List.head?_take, if_neg (by omega)]
        isFraction := .digits ((digits_digits n).drop (by omega))
        isExponent := .absent
        le := by
          simp only [List.length_take, exponentOf, Option.getD_none]
          omega }

private theorem exponentOf_write (lead : Int) :
    exponentOf ('e' :: (if lead < 0 then '-' else '+') :: Text.digits lead.natAbs) = some lead := by
  split
  · rw [exponentOf, Text.digitsValue_digits]
    congr 1
    omega
  · rw [exponentOf, Text.digitsValue_digits]
    congr 1
    omega

private theorem isExponent_write (lead : Int) :
    IsExponent ('e' :: (if lead < 0 then '-' else '+') :: Text.digits lead.natAbs) := by
  have hsign : [if lead < 0 then '-' else '+'] = [] ∨ [if lead < 0 then '-' else '+'] = ['+'] ∨
      [if lead < 0 then '-' else '+'] = ['-'] := by
    split <;> simp
  exact .digits (.inl rfl) hsign (digits_digits _)

private theorem exists_sized_place (l : Layout) {d : Decimal} (hd : 0 < d.digits) :
    ∃ whole fraction exponent, l.place d = whole ++ (fraction ++ exponent) ∧
      Sized whole fraction exponent (max 1 (d.exponent + (Text.digits d.digits).length)) := by
  have hdigits := digits_digits d.digits
  have hhead := Text.head?_digits_ne_zero hd
  unfold Layout.place
  dsimp only
  split
  · obtain ⟨whole, fraction, hplace, hsized⟩ := sized_placePoint hd
      (d.exponent + (Text.digits d.digits).length) l.zeroDecimal
    exact ⟨whole, fraction, [], hplace, hsized⟩
  · have hlength : 0 < (Text.digits d.digits).length := List.length_pos_iff.mpr hdigits.1
    have hwhole : ∃ fraction, IsFraction fraction ∧ (if (Text.digits d.digits).length = 1 then
        Text.digits d.digits
      else (Text.digits d.digits).take 1 ++ '.' :: (Text.digits d.digits).drop 1) =
        (Text.digits d.digits).take 1 ++ fraction := by
      split
      · next hone => exact ⟨[], .absent, by simp [List.take_of_length_le (Nat.le_of_eq hone)]⟩
      · exact ⟨_, .digits (hdigits.drop (by omega)), rfl⟩
    obtain ⟨fraction, hfraction, hwhole⟩ := hwhole
    rw [hwhole, List.append_assoc]
    refine ⟨_, fraction, _, rfl, ?_⟩
    exact {
      digits := hdigits.take Nat.one_pos
      noZeros := by
        apply ne_zero_cons
        rwa [List.head?_take, if_neg (by omega)]
      isFraction := hfraction
      isExponent := isExponent_write _
      le := by
        rw [exponentOf_write, List.length_take, Option.getD_some]
        omega }

private theorem exists_sized_write (l : Layout) {x : Binary64} {k : Nat} (h : x.AtMost k) :
    ∃ sign whole fraction exponent, l.write x = sign ++ (whole ++ (fraction ++ exponent)) ∧
      IsSign sign ∧ Sized whole fraction exponent (k + 2) := by
  obtain ⟨m, e, hmagnitude, hvalue⟩ := Number.exists_magnitude h
  have hsign : IsSign (if x.isNegative then ['-'] else []) := by
    unfold IsSign
    split <;> simp
  unfold Layout.write
  simp only [hmagnitude]
  split
  · refine ⟨_, ['0'], if l.zeroDecimal then ['.', '0'] else [], [], by simp, hsign, ?_⟩
    exact {
      digits := by simp [Digits, Text.isDigit]
      noZeros := by simp
      isFraction := by
        split
        · exact .digits (by simp [Digits, Text.isDigit])
        · exact .absent
      isExponent := .absent
      le := by
        simp only [List.length_singleton, exponentOf, Option.getD_none]
        omega }
  · next hm =>
    have hnear := Number.near_shortest (x := .ofMagnitude m e) (Nat.pos_of_ne_zero hm) l.tie
    have hle : ((Candidate.ofMagnitude m e).shortest l.tie).value ≤ 2 ^ (k + 1) := by
      refine le_trans hnear.le ?_
      rw [pow_succ, mul_comm]
      exact mul_le_mul_of_nonneg_right hvalue (by norm_num)
    have hbefore := Number.before_le hnear.pos hle
    obtain ⟨whole, fraction, exponent, hplace, hsized⟩ :=
      exists_sized_place l (Number.digits_pos hnear.pos)
    refine ⟨_, whole, fraction, exponent, by rw [hplace], hsign, ?_⟩
    exact { hsized with le := Int.le_trans hsized.le (by omega) }

/-- A double that is not very large is written as a numeral and can be read. -/
theorem readable_write (l : Layout) {x : Binary64} {k : Nat} (h : x.AtMost k) (hk : k ≤ 198) :
    IsNumeral (l.write x) ∧ (Numeric.ofChars? (l.write x)).isSome = true := by
  obtain ⟨sign, whole, fraction, exponent, hwrite, hsign, hsized⟩ := exists_sized_write l h
  rw [hwrite]
  exact ⟨hsized.isNumeral hsign, hsized.isSome_ofChars? hsign (by omega)⟩

end SuiteRunner.Json
