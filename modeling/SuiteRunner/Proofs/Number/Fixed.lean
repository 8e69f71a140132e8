import Mathlib.Algebra.Order.Ring.Abs
import SuiteRunner.Number.Fixed
import SuiteRunner.Proofs.Number.Shortest
import SuiteRunner.Proofs.Text.Blank

/-! # Seconds as they are printed

The text of a number of seconds is the canonical decimal of the nearest number of milliseconds, where
of two that are equally near the even one is taken. -/
namespace SuiteRunner

/-! ## Rounding -/

/-- Of all multiples of `step` the one by `k` is nearest to `q`, and if it is not alone `k` is even. -/
structure Nearest (step q : ℚ) (k : ℤ) : Prop where
  le : ∀ j : ℤ, |q - k * step| ≤ |q - j * step|
  even : ∀ j : ℤ, j ≠ k → |q - j * step| = |q - k * step| → Even k

/-- It is enough that the multiple is not farther away than half a step. -/
theorem nearest_of_error {step q : ℚ} {k : ℤ} (hstep : 0 < step) (herror : 2 * |q - k * step| ≤ step)
    (heven : 2 * |q - k * step| = step → Even k) : Nearest step q k := by
  have hapart {j : ℤ} (hj : j ≠ k) : step ≤ |q - j * step| + |q - k * step| := by
    have hint : (1 : ℚ) ≤ |(k : ℚ) - j| := by
      exact_mod_cast Int.one_le_abs (sub_ne_zero.mpr hj.symm)
    calc step ≤ |(k : ℚ) - j| * step := le_mul_of_one_le_left hstep.le hint
      _ = |k * step - j * step| := by rw [← sub_mul, abs_mul, abs_of_pos hstep]
      _ ≤ |k * step - q| + |q - j * step| := abs_sub_le _ _ _
      _ = |q - j * step| + |q - k * step| := by rw [abs_sub_comm (k * step) q, add_comm]
  constructor
  · intro j
    rcases eq_or_ne j k with rfl | hj
    · exact le_refl _
    · linarith [hapart hj]
  · intro j hj heq
    apply heven
    linarith [hapart hj]

theorem Nearest.neg {step q : ℚ} {k : ℤ} (h : Nearest step q k) : Nearest step (-q) (-k) := by
  have hflip (j : ℤ) : |-q - j * step| = |q - (-j : ℤ) * step| := by
    rw [← abs_neg]
    congr 1
    push_cast
    ring
  constructor
  · intro j
    rw [hflip, hflip, neg_neg]
    exact h.le (-j)
  · intro j hj heq
    rw [hflip, hflip, neg_neg] at heq
    exact (h.even (-j) (fun hk => hj (by rw [← hk, neg_neg])) heq).neg

/-- Twice the distance to the rounded quotient, in units of the denominator. -/
theorem roundHalfEven_error (n : Nat) {d : Nat} (hd : 0 < d) :
    2 * |(n : ℤ) - roundHalfEven n d * d| ≤ d ∧
      (2 * |(n : ℤ) - roundHalfEven n d * d| = d → Even (roundHalfEven n d)) := by
  have hsplit : (n : ℤ) = d * (n / d : Nat) + (n % d : Nat) := by
    exact_mod_cast (Nat.div_add_mod n d).symm
  have hlt : n % d < d := Nat.mod_lt n hd
  unfold roundHalfEven
  dsimp only
  generalize n / d = q at hsplit ⊢
  generalize n % d = r at hsplit hlt ⊢
  split
  · next hdown =>
    have hrest : (n : ℤ) - q * d = r := by linarith
    rw [hrest, Nat.abs_cast, Nat.even_iff]
    omega
  · next hup =>
    have hrest : (n : ℤ) - (q + 1 : Nat) * d = r - d := by
      push_cast
      linarith
    have habs : |(r : ℤ) - d| = d - r := by
      rw [abs_sub_comm]
      exact abs_of_nonneg (by omega)
    rw [hrest, habs, Nat.even_iff]
    omega

/-- A fraction is rounded to parts of `s` by rounding `s` times the fraction. -/
theorem nearest_roundHalfEven (n : Nat) {d s : Nat} (hd : 0 < d) (hs : 0 < s) :
    Nearest (1 / s) (n / d) (roundHalfEven (n * s) d) := by
  obtain ⟨herror, heven⟩ := roundHalfEven_error (n * s) hd
  generalize roundHalfEven (n * s) d = k at herror heven ⊢
  have hd' : (0 : ℚ) < d := by exact_mod_cast hd
  have hs' : (0 : ℚ) < s := by exact_mod_cast hs
  have hscaled : 2 * |(n : ℚ) / d - (k : ℤ) * (1 / s)| =
      (2 * |((n * s : Nat) : ℤ) - k * d| : ℤ) * (1 / (d * s)) := by
    have hcommon : (n : ℚ) / d - (k : ℤ) * (1 / s) = (n * s - k * d) * (1 / (d * s)) := by
      push_cast
      field_simp
    rw [hcommon, abs_mul, abs_of_pos (by positivity : (0 : ℚ) < 1 / (d * s))]
    push_cast
    ring
  have hstep : (1 : ℚ) / s = d * (1 / (d * s)) := by field_simp
  apply nearest_of_error (by positivity)
  · rw [hscaled, hstep]
    apply mul_le_mul_of_nonneg_right _ (by positivity)
    exact_mod_cast herror
  · intro htie
    rw [hscaled, hstep] at htie
    have heq := mul_right_cancel₀ (by positivity) htie
    exact_mod_cast heven (by exact_mod_cast heq)

/-! ## The exact value of a number -/

namespace Binary64

/-- Neither infinite nor undefined. -/
def IsFinite (x : Binary64) : Prop := x.exponentField ≠ 2047

/-- What a sign makes of an absolute value. -/
def signed (negative : Bool) (q : ℚ) : ℚ := if negative then -q else q

/-- The value of a finite number by its sign, exponent and fraction. -/
def value (x : Binary64) : ℚ :=
  signed x.isNegative
    (if x.exponentField = 0 then (x.fractionField : ℚ) * 2 ^ (-1074 : ℤ)
    else (2 ^ 52 + x.fractionField : ℚ) * 2 ^ ((x.exponentField : ℤ) - 1075))

theorem IsFinite.exists_magnitude {x : Binary64} (h : x.IsFinite) :
    ∃ (m : Nat) (e : Int), x.magnitude = .finite m e ∧ x.value = signed x.isNegative (m * 2 ^ e) := by
  unfold magnitude value
  rw [if_neg h]
  split
  · exact ⟨_, _, rfl, rfl⟩
  · refine ⟨_, _, rfl, ?_⟩
    simp only [Nat.pow_eq]
    push_cast
    rfl

end Binary64

private theorem scaleByTwo_div (m : Nat) (e : Int) :
    0 < (scaleByTwo m 1 e).2 ∧
      ((scaleByTwo m 1 e).1 : ℚ) / (scaleByTwo m 1 e).2 = m * 2 ^ e := by
  have hscaled := Number.cast_scaled m (by decide : 0 < 2) e
  simp only [scaleByTwo, Nat.pow_eq, one_mul]
  refine ⟨Nat.two_pow_pos _, ?_⟩
  push_cast at hscaled ⊢
  rw [← hscaled]
  field_simp

namespace Number
open Text Binary64

/-! ## Canonical decimals -/

/-- The parts of a decimal with no digit that could be left out. -/
structure Canonical where
  negative : Bool
  whole : List Char
  decimals : List Char
  whole_digits : ∀ c ∈ whole, isDigit c = true
  decimals_digits : ∀ c ∈ decimals, isDigit c = true
  whole_ne_nil : whole ≠ []
  whole_head : whole.head? = some '0' → whole = ['0']
  decimals_last : decimals.getLast? ≠ some '0'

namespace Canonical

def sign (d : Canonical) : List Char := if d.negative then ['-'] else []

def text (d : Canonical) : List Char :=
  d.sign ++ (d.whole ++ if d.decimals = [] then [] else '.' :: d.decimals)

def value (d : Canonical) : ℚ :=
  signed d.negative (digitsValue d.whole + digitsValue d.decimals / 10 ^ d.decimals.length)

end Canonical

private theorem point_of_isDigit {c : Char} (h : isDigit c = true) : (c == '.') = false := by
  rw [beq_eq_false_iff_ne]
  rintro rfl
  exact absurd h (by decide)

private theorem digitsValue_append_zeros {zeros : List Char} (h : ∀ c ∈ zeros, (c == '0') = true)
    (ds : List Char) : digitsValue (ds ++ zeros) = digitsValue ds * 10 ^ zeros.length := by
  induction zeros generalizing ds with
  | nil => simp
  | cons c zeros ih =>
    obtain ⟨hc, hzeros⟩ := List.forall_mem_cons.mp h
    have hzero : digitValue c = 0 := by
      rw [beq_iff_eq.mp hc]
      rfl
    rw [List.append_cons, ih hzeros, digitsValue_append_singleton, hzero, List.length_cons]
    ring

/-- Zeros at the end of the decimals do not count. -/
theorem digitsValue_dropEndWhile (ds : List Char) :
    (digitsValue (dropEndWhile (· == '0') ds) : ℚ) / 10 ^ (dropEndWhile (· == '0') ds).length =
      digitsValue ds / 10 ^ ds.length := by
  obtain ⟨zeros, hzeros, hsplit⟩ := exists_dropEndWhile (· == '0') ds
  generalize dropEndWhile (· == '0') ds = kept at hsplit ⊢
  rw [hsplit, digitsValue_append_zeros hzeros, List.length_append, pow_add]
  push_cast
  field_simp

private theorem digits_head {n : Nat} (h : (digits n).head? = some '0') : digits n = ['0'] := by
  rcases Nat.eq_zero_or_pos n with rfl | hpos
  · rfl
  · exact absurd h (head?_digits_ne_zero hpos)

/-- The parts of `units / 10 ^ places`. -/
def canonical (negative : Bool) (places units : Nat) : Canonical where
  negative := negative
  whole := digits (units / Nat.pow 10 places)
  decimals := dropEndWhile (· == '0') (paddedDigits places (units % Nat.pow 10 places))
  whole_digits := isDigit_of_mem_digits
  decimals_digits c hc := isDigit_of_mem_paddedDigits c (mem_of_mem_dropEndWhile hc)
  whole_ne_nil := digits_ne_nil _
  whole_head := digits_head
  decimals_last hlast := absurd (getLast?_dropEndWhile _ _ '0' hlast) (by decide)

section parts
variable (negative : Bool) {places : Nat} (hplaces : 0 < places) (units : Nat)
include hplaces

theorem length_places : (paddedDigits places (units % Nat.pow 10 places)).length = places :=
  length_paddedDigits hplaces (Nat.mod_lt units (Nat.pow_pos (by decide)))

private theorem length_decimals_canonical :
    (canonical negative places units).decimals.length ≤ places := by
  obtain ⟨zeros, -, hsplit⟩ :=
    exists_dropEndWhile (· == '0') (paddedDigits places (units % Nat.pow 10 places))
  have hlength := congrArg List.length hsplit
  rw [length_places hplaces, List.length_append] at hlength
  exact Nat.le.intro hlength.symm

private theorem value_canonical :
    (canonical negative places units).value = signed negative (units / 10 ^ places) := by
  have hsplit : (units : ℚ) =
      10 ^ places * (units / Nat.pow 10 places : Nat) + (units % Nat.pow 10 places : Nat) := by
    exact_mod_cast (Nat.div_add_mod units (10 ^ places)).symm
  have hparts : ((units / Nat.pow 10 places : Nat) : ℚ) +
      (units % Nat.pow 10 places : Nat) / 10 ^ places = units / 10 ^ places := by
    rw [eq_div_iff (by positivity), add_mul, div_mul_cancel₀ _ (by positivity)]
    linarith
  rw [← hparts, Canonical.value]
  simp only [canonical]
  rw [digitsValue_dropEndWhile, length_places hplaces, digitsValue_digits, digitsValue_paddedDigits]

private theorem exists_zeros_pointed :
    ∃ zeros, (∀ c ∈ zeros, c = '0') ∧ pointed places units = (canonical negative places units).whole ++
      '.' :: ((canonical negative places units).decimals ++ zeros) := by
  obtain ⟨zeros, hzeros, hsplit⟩ :=
    exists_dropEndWhile (· == '0') (paddedDigits places (units % Nat.pow 10 places))
  refine ⟨zeros, fun c hc => beq_iff_eq.mp (hzeros c hc), ?_⟩
  simp only [pointed, canonical, ← hsplit]
  rw [if_neg (by omega)]

end parts

/-! ## Trimming -/

/-- The zeros go as far as the point, and the point goes if it has become the last. -/
theorem trim_canonical (d : Canonical) {zeros : List Char} (hzeros : ∀ c ∈ zeros, c = '0') :
    dropEndWhile (· == '.') (dropEndWhile (· == '0')
      (d.sign ++ (d.whole ++ '.' :: (d.decimals ++ zeros)))) = d.text := by
  have hkept : dropEndWhile (· == '0') (d.decimals ++ zeros) = d.decimals := by
    rw [dropEndWhile_append_of_forall (fun c hc => beq_iff_eq.mpr (hzeros c hc))]
    apply dropEndWhile_of_getLast?
    intro c hc
    rw [beq_eq_false_iff_ne]
    rintro rfl
    exact d.decimals_last hc
  rw [← List.append_assoc, dropEndWhile_append_cons (by decide), hkept, Canonical.text]
  rcases List.eq_nil_or_concat d.decimals with hnone | ⟨ds, c, hsome⟩
  · -- The whole part ends in a digit, at which dropping points stops.
    obtain ⟨ws, w, hwhole⟩ := (List.eq_nil_or_concat d.whole).resolve_left d.whole_ne_nil
    have hdigit : isDigit w = true := d.whole_digits w (by simp [hwhole])
    have hends : d.sign ++ d.whole ++ ['.'] = (d.sign ++ ws) ++ w :: ['.'] := by simp [hwhole]
    have hstop := dropEndWhile_append_cons (p := (· == '.')) (point_of_isDigit hdigit)
    rw [hnone, if_pos rfl, hends, hstop, hwhole]
    simp [dropEndWhile]
  · have hdigit : isDigit c = true := d.decimals_digits c (by simp [hsome])
    have hends : d.sign ++ d.whole ++ '.' :: d.decimals = (d.sign ++ d.whole ++ '.' :: ds) ++ [c] := by
      simp [hsome]
    rw [if_neg (by simp [hsome]), ← List.append_assoc, hends]
    apply dropEndWhile_of_getLast?
    intro b hb
    rw [List.getLast?_concat] at hb
    rw [← Option.some.inj hb]
    exact point_of_isDigit hdigit

/-! ## Rounding to places -/

private theorem signed_div (negative : Bool) (q r : ℚ) :
    signed negative (q / r) = signed negative q / r := by
  cases negative with
  | false => rfl
  | true => exact (neg_div r q).symm

private theorem exists_nearest_signed {step q : ℚ} {k : ℤ} (h : Nearest step q k)
    (negative : Bool) :
    ∃ j : ℤ, (j : ℚ) = signed negative k ∧ Nearest step (signed negative q) j := by
  cases negative with
  | false => exact ⟨k, rfl, h⟩
  | true => exact ⟨-k, Int.cast_neg k, h.neg⟩

/-- A finite number is printed as the nearest multiple, with its own sign. -/
theorem exists_fixed_eq (places : Nat) {x : Binary64} (h : x.IsFinite) :
    ∃ (units : Nat) (k : ℤ),
      fixed places x = (if x.isNegative then ['-'] else []) ++ pointed places units ∧
      (k : ℚ) = signed x.isNegative units ∧ Nearest (1 / 10 ^ places) x.value k := by
  obtain ⟨m, e, hmagnitude, hvalue⟩ := h.exists_magnitude
  obtain ⟨hpos, hquotient⟩ := scaleByTwo_div m e
  have hnearest := nearest_roundHalfEven (scaleByTwo m 1 e).1 hpos (Nat.pow_pos (by decide) : 0 < 10 ^ places)
  obtain ⟨k, hk, hsigned⟩ := exists_nearest_signed hnearest x.isNegative
  refine ⟨_, k, ?_, hk, ?_⟩
  · rw [fixed, hmagnitude]
    rfl
  · rw [hquotient, ← hvalue] at hsigned
    exact_mod_cast hsigned

/-- The seconds of a finite number are printed as a canonical decimal with up to three decimals and
the number's own sign. Its value is the multiple of a thousandth nearest to the number, the even one
of two, and only zeros after the point were trimmed. -/
theorem seconds_canonical (x : Binary64) (h : x.IsFinite) :
    ∃ (d : Canonical) (k : ℤ),
      seconds x = String.ofList d.text ∧
      d.negative = x.isNegative ∧
      d.decimals.length ≤ 3 ∧
      d.value = k * (1 / 1000) ∧
      Nearest (1 / 1000) x.value k ∧
      ∃ zeros, (∀ c ∈ zeros, c = '0') ∧
        fixed 3 x = d.sign ++ (d.whole ++ '.' :: (d.decimals ++ zeros)) := by
  obtain ⟨units, k, hfixed, hk, hnearest⟩ := exists_fixed_eq 3 h
  obtain ⟨zeros, hzeros, hpointed⟩ := exists_zeros_pointed x.isNegative (by decide : 0 < 3) units
  have hlength := length_decimals_canonical x.isNegative (by decide : 0 < 3) units
  have hvalue := value_canonical x.isNegative (by decide : 0 < 3) units
  generalize hd : canonical x.isNegative 3 units = d at hpointed hlength hvalue
  have hsign : d.negative = x.isNegative := by rw [← hd, canonical]
  have hwhole : fixed 3 x = d.sign ++ (d.whole ++ '.' :: (d.decimals ++ zeros)) := by
    rw [hfixed, hpointed, Canonical.sign, hsign]
  have hthousand : (10 : ℚ) ^ 3 = 1000 := by norm_num
  refine ⟨d, k, ?_, hsign, hlength, ?_, ?_, zeros, hzeros, hwhole⟩
  · rw [seconds, hwhole, trim_canonical d hzeros]
  · rw [hvalue, signed_div, ← hk, hthousand, mul_one_div]
  · rwa [hthousand] at hnearest

/-- It lies halfway between 62 and 63 thousandths. -/
def minusSixteenth : Binary64 := ⟨0xBFB0000000000000⟩

theorem seconds_canonical_minusSixteenth :
    minusSixteenth.IsFinite ∧ minusSixteenth.value = -1 / 16 ∧ seconds minusSixteenth = "-0.062" ∧
    ∃ (d : Canonical) (k : ℤ),
      seconds minusSixteenth = String.ofList d.text ∧
      d.negative = minusSixteenth.isNegative ∧
      d.decimals.length ≤ 3 ∧
      d.value = k * (1 / 1000) ∧
      Nearest (1 / 1000) minusSixteenth.value k ∧
      ∃ zeros, (∀ c ∈ zeros, c = '0') ∧
        fixed 3 minusSixteenth = d.sign ++ (d.whole ++ '.' :: (d.decimals ++ zeros)) := by
  have hfinite : minusSixteenth.IsFinite := (by decide : minusSixteenth.exponentField ≠ 2047)
  have hnegative : minusSixteenth.isNegative = true := by decide
  have hexponent : minusSixteenth.exponentField = 1019 := by decide
  have hfraction : minusSixteenth.fractionField = 0 := by decide
  refine ⟨hfinite, ?_, by decide +kernel, seconds_canonical minusSixteenth hfinite⟩
  rw [Binary64.value, hnegative, hexponent, hfraction]
  norm_num [signed]

example : seconds (Binary64.ofNat 100) = "100" := by decide +kernel

end Number

end SuiteRunner
