import Mathlib.Algebra.Order.Field.Power
import Mathlib.Algebra.Order.Field.Rat
import Mathlib.Tactic.FieldSimp
import Mathlib.Tactic.Linarith
import Mathlib.Tactic.LinearCombination
import Mathlib.Tactic.Positivity
import Mathlib.Tactic.Ring
import SuiteRunner.Proofs.Number.Binary64
import SuiteRunner.Proofs.Text.Numeral

/-! # The size of a shortest decimal

The shortest decimal of a number other than zero is not zero either, and at most twice as large. -/
namespace SuiteRunner.Number

def Decimal.value (d : Decimal) : ℚ := d.digits * 10 ^ d.exponent

def Candidate.value (x : Candidate) : ℚ := x.mantissa * 2 ^ x.exponent

variable {x : Candidate} {d : Decimal}

/-! ## Comparisons of scaled numbers -/

/-- Scaling is done on whichever side takes a natural power. -/
theorem cast_scaled (n : Nat) {b : Nat} (hb : 0 < b) (e : Int) :
    (n : ℚ) * b ^ e * b ^ (-e).toNat = n * b ^ e.toNat := by
  have hb' : (b : ℚ) ≠ 0 := by positivity
  rw [mul_assoc, ← zpow_natCast, ← zpow_natCast, ← zpow_add₀ hb']
  congr 2
  omega

theorem exists_scale (a n : Nat) (i j : Int) : ∃ c : ℚ, 0 < c ∧
    ((a * Nat.pow 10 i.toNat * Nat.pow 2 (-j).toNat : Nat) : ℚ) = a * 10 ^ i * c ∧
    ((n * Nat.pow 2 j.toNat * Nat.pow 10 (-i).toNat : Nat) : ℚ) = n * 2 ^ j * c := by
  have ha := cast_scaled a (by decide : 0 < 10) i
  have hn := cast_scaled n (by decide : 0 < 2) j
  refine ⟨10 ^ (-i).toNat * 2 ^ (-j).toNat, by positivity, ?_, ?_⟩
  · simp only [Nat.pow_eq]
    push_cast at ha ⊢
    rw [← ha]
    ring
  · simp only [Nat.pow_eq]
    push_cast at hn ⊢
    rw [← hn]
    ring

private theorem compareScaled_le {a n : Nat} {i j : Int} {closed : Bool}
    (h : (compareScaled a i n j == .lt || (closed && compareScaled a i n j == .eq)) = true) :
    (a : ℚ) * 10 ^ i ≤ n * 2 ^ j := by
  obtain ⟨c, hc, ha, hn⟩ := exists_scale a n i j
  rw [← mul_le_mul_iff_of_pos_right hc, ← ha, ← hn, Nat.cast_le]
  simp only [compareScaled, Bool.or_eq_true, Bool.and_eq_true, beq_iff_eq, Nat.compare_eq_lt,
    Nat.compare_eq_eq] at h
  omega

private theorem le_compareScaled {a n : Nat} {i j : Int} {closed : Bool}
    (h : (compareScaled a i n j == .gt || (closed && compareScaled a i n j == .eq)) = true) :
    (n : ℚ) * 2 ^ j ≤ a * 10 ^ i := by
  obtain ⟨c, hc, ha, hn⟩ := exists_scale a n i j
  rw [← mul_le_mul_iff_of_pos_right hc, ← ha, ← hn, Nat.cast_le]
  simp only [compareScaled, Bool.or_eq_true, Bool.and_eq_true, beq_iff_eq, Nat.compare_eq_gt,
    Nat.compare_eq_eq] at h
  omega

theorem exists_magnitude {x : Binary64} {k : Nat} (h : x.AtMost k) :
    ∃ m e, x.magnitude = .finite m e ∧ (Candidate.ofMagnitude m e).value ≤ 2 ^ k := by
  obtain ⟨p, hp, -, hle⟩ := h
  unfold Binary64.fraction? at hp
  cases hx : x.magnitude with
  | finite m e =>
    refine ⟨m, e, rfl, ?_⟩
    rw [hx] at hp
    obtain rfl := Option.some.inj hp
    have hm := cast_scaled m (by decide : 0 < 2) e
    have hpos : (0 : ℚ) < 2 ^ (-e).toNat := by positivity
    rw [← mul_le_mul_iff_of_pos_right hpos, Candidate.value]
    simp only [Candidate.ofMagnitude]
    simp only [scaleByTwo, Nat.pow_eq, Nat.one_mul] at hle
    push_cast at hm
    rw [hm]
    exact_mod_cast hle
  | infinite | undefined => simp [hx] at hp

/-! ## What is not far from a number -/

/-- Above zero, and at most twice as large. -/
structure Near (x : Candidate) (d : Decimal) : Prop where
  pos : 0 < d.value
  le : d.value ≤ 2 * x.value

private theorem near_of_readsBack (hx : 0 < x.mantissa) (h : x.readsBack d = true) : Near x d := by
  simp only [Candidate.readsBack, Bool.and_eq_true] at h
  have hlow := le_compareScaled h.1
  have hhigh := compareScaled_le h.2
  have hquarter : (2 : ℚ) ^ (x.exponent - 2) = 2 ^ x.exponent / 4 := by
    rw [zpow_sub₀ (by norm_num)]
    norm_num
  have hscale : (0 : ℚ) < 2 ^ x.exponent := by positivity
  rw [hquarter] at hlow hhigh
  constructor
  · refine lt_of_lt_of_le ?_ hlow
    have hpos : 0 < 4 * x.mantissa - if x.narrowBelow then 1 else 2 := by split <;> omega
    have hpos' : (0 : ℚ) < ((4 * x.mantissa - if x.narrowBelow then 1 else 2 : Nat) : ℚ) := by
      exact_mod_cast hpos
    positivity
  · refine le_trans hhigh ?_
    have hone : (1 : ℚ) ≤ x.mantissa := by exact_mod_cast hx
    push_cast
    rw [Candidate.value]
    nlinarith

private theorem value_exact (x : Candidate) : x.exact.value = x.value := by
  have htwo := cast_scaled x.mantissa (by decide : 0 < 2) x.exponent
  have hfive := cast_scaled 1 (by decide : 0 < 5) x.exponent
  simp only [Decimal.value, Candidate.value, Candidate.exact, Nat.pow_eq]
  push_cast at htwo hfive ⊢
  rcases le_total 0 x.exponent with he | he
  · have hneg : (-x.exponent).toNat = 0 := by omega
    rw [hneg, pow_zero, mul_one] at htwo
    rw [← htwo, hneg, min_eq_left he]
    simp
  · have hnat : x.exponent.toNat = 0 := by omega
    rw [hnat, pow_zero, mul_one, one_mul] at hfive
    have hten : (10 : ℚ) ^ x.exponent = 2 ^ x.exponent * 5 ^ x.exponent := by
      rw [← mul_zpow]
      norm_num
    rw [hnat, min_eq_right he, hten]
    linear_combination (x.mantissa * 2 ^ x.exponent : ℚ) * hfive

private theorem near_exact (hx : 0 < x.mantissa) : Near x x.exact := by
  have hpos : 0 < x.value := by
    unfold Candidate.value
    positivity
  rw [← value_exact] at hpos
  exact ⟨hpos, by rw [value_exact] at hpos ⊢; linarith⟩

private theorem value_reduce (fuel : Nat) (d : Decimal) : (d.reduce fuel).value = d.value := by
  induction fuel generalizing d with
  | zero => rfl
  | succ fuel ih =>
    unfold Decimal.reduce
    split
    · next h =>
      have hdigits : (d.digits : ℚ) = (d.digits / 10 : Nat) * 10 := by
        exact_mod_cast (Nat.div_mul_cancel (Nat.dvd_of_mod_eq_zero h.2)).symm
      rw [ih, Decimal.value, Decimal.value, hdigits, zpow_add_one₀ (by norm_num)]
      ring
    · rfl

theorem near_shortest (hx : 0 < x.mantissa) (tie : Tie) : Near x (x.shortest tie) := by
  unfold Candidate.shortest
  have hfound : Near x (((List.range 17).findSome? fun (i : Nat) =>
      (x.neighbours tie (x.scale - (i + 1))).find? x.readsBack).getD x.exact) := by
    cases hsome : (List.range 17).findSome? fun (i : Nat) =>
        (x.neighbours tie (x.scale - (i + 1))).find? x.readsBack with
    | none => exact near_exact hx
    | some d =>
      obtain ⟨i, -, hi⟩ := List.exists_of_findSome?_eq_some hsome
      exact near_of_readsBack hx (List.find?_some hi)
  exact ⟨by rw [value_reduce]; exact hfound.pos, by rw [value_reduce]; exact hfound.le⟩

/-! ## The place of the leading digit -/

private theorem pow_length_digits_le {n : Nat} (h : 0 < n) :
    10 ^ ((Text.digits n).length - 1) ≤ n := by
  refine Text.digits_induction (P := fun n cs => 0 < n → cs ≠ [] ∧ 10 ^ (cs.length - 1) ≤ n)
    ?_ ?_ n h |>.2
  · intro d _ hd
    exact ⟨by simp, Nat.succ_le_of_lt hd⟩
  · intro n d hn _ ih _
    obtain ⟨hne, hle⟩ := ih hn
    have hlength : (Text.digits n).length - 1 + 1 = (Text.digits n).length :=
      Nat.sub_add_cancel (List.length_pos_iff.mpr hne)
    refine ⟨by simp, ?_⟩
    rw [List.length_append, List.length_singleton, Nat.add_sub_cancel, ← hlength, Nat.pow_succ]
    omega

theorem digits_pos (h : 0 < d.value) : 0 < d.digits := by
  apply Nat.pos_of_ne_zero
  intro hzero
  simp [Decimal.value, hzero] at h

/-- The number of digits before the point of a decimal of `2 ^ k` or less. -/
theorem before_le {k : Nat} (hpos : 0 < d.value) (hle : d.value ≤ 2 ^ k) :
    d.exponent + (Text.digits d.digits).length ≤ k + 1 := by
  by_contra! hlt
  have hlead : (10 : ℚ) ^ ((Text.digits d.digits).length - 1 : Nat) ≤ d.digits := by
    exact_mod_cast pow_length_digits_le (digits_pos hpos)
  have hlength : 0 < (Text.digits d.digits).length :=
    List.length_pos_iff.mpr (Text.digits_ne_nil _)
  have hvalue : (10 : ℚ) ^ (((Text.digits d.digits).length - 1 : Nat) + d.exponent) ≤ d.value := by
    rw [zpow_add₀ (by norm_num), zpow_natCast, Decimal.value]
    exact mul_le_mul_of_nonneg_right hlead (by positivity)
  have hpower : (2 : ℚ) ^ k < 10 ^ (((Text.digits d.digits).length - 1 : Nat) + d.exponent) :=
    calc (2 : ℚ) ^ k < 2 ^ (k + 1) := pow_lt_pow_right₀ (by norm_num) (Nat.lt_succ_self k)
      _ ≤ 10 ^ (k + 1) := pow_le_pow_left₀ (by norm_num) (by norm_num) _
      _ = 10 ^ ((k + 1 : Nat) : Int) := (zpow_natCast ..).symm
      _ ≤ _ := zpow_le_zpow_right₀ (by norm_num) (by omega)
  linarith

end SuiteRunner.Number
