import Mathlib.Algebra.Group.Nat.Defs
import SuiteRunner.Time.Span

/-! # Results that stay finite

Operands far enough below the largest double give a finite result, and one that is not much larger
than the exact one. -/
namespace SuiteRunner

namespace Binary64

/-- Finite, and `2 ^ k` or less up to its sign. -/
def AtMost (x : Binary64) (k : Nat) : Prop :=
  ∃ p, x.fraction? = some p ∧ 0 < p.2 ∧ p.1 ≤ 2 ^ k * p.2

variable {numerator denominator k : Nat} {e : Int}

/-! ## Rounding a fraction -/

private theorem roundHalfEven_le (numerator denominator : Nat) :
    roundHalfEven numerator denominator ≤ numerator / denominator + 1 := by
  unfold roundHalfEven
  dsimp only
  split <;> omega

/-- The unit of the last bit of the mantissa is not much smaller than the fraction needs. -/
theorem log2_le_unitExponent (numerator denominator : Nat) :
    (numerator.log2 : Int) - denominator.log2 - 53 ≤ unitExponent numerator denominator := by
  unfold unitExponent
  dsimp only
  split <;> omega

private theorem unitExponent_le (hn : numerator ≠ 0)
    (h : numerator ≤ 2 ^ k * denominator) : unitExponent numerator denominator ≤ k - 52 := by
  have hlow : 2 ^ numerator.log2 ≤ numerator := Nat.log2_self_le hn
  have hhigh : denominator < 2 ^ (denominator.log2 + 1) := Nat.lt_log2_self
  have hlt : 2 ^ numerator.log2 < 2 ^ (k + (denominator.log2 + 1)) := by
    rw [Nat.pow_add]
    calc 2 ^ numerator.log2 ≤ 2 ^ k * denominator := Nat.le_trans hlow h
      _ < 2 ^ k * 2 ^ (denominator.log2 + 1) := Nat.mul_lt_mul_of_pos_left hhigh (Nat.two_pow_pos k)
  have hlog : numerator.log2 < k + (denominator.log2 + 1) :=
    (Nat.pow_lt_pow_iff_right (by decide)).mp hlt
  unfold unitExponent
  dsimp only
  split <;> omega

private theorem scaled_lt (hd : denominator ≠ 0)
    (he : (numerator.log2 : Int) - denominator.log2 - 53 ≤ e) :
    (scaleByTwo numerator denominator (-e)).1 <
      2 ^ 54 * (scaleByTwo numerator denominator (-e)).2 := by
  have hhigh : numerator < 2 ^ (numerator.log2 + 1) := Nat.lt_log2_self
  have hlow : 2 ^ denominator.log2 ≤ denominator := Nat.log2_self_le hd
  simp only [scaleByTwo, Int.neg_neg, Nat.pow_eq]
  calc numerator * 2 ^ (-e).toNat
      < 2 ^ (numerator.log2 + 1) * 2 ^ (-e).toNat :=
        Nat.mul_lt_mul_of_pos_right hhigh (Nat.two_pow_pos _)
    _ = 2 ^ (numerator.log2 + 1 + (-e).toNat) := (Nat.pow_add ..).symm
    _ ≤ 2 ^ (54 + (denominator.log2 + e.toNat)) := Nat.pow_le_pow_right (by decide) (by omega)
    _ = 2 ^ 54 * (2 ^ denominator.log2 * 2 ^ e.toNat) := by rw [Nat.pow_add, Nat.pow_add]
    _ ≤ 2 ^ 54 * (denominator * 2 ^ e.toNat) :=
        Nat.mul_le_mul_left _ (Nat.mul_le_mul_right _ hlow)

/-! ## The bits of a result -/

private theorem atMost_ofIndex {index : Nat} (hk : k ≤ 1000) (h : index ≤ (k + 1026) * 2 ^ 52) :
    AtMost (ofIndex false index) (k + 4) := by
  have hbits : (ofIndex false index).bits.toNat = index := by
    simp only [ofIndex, Bool.false_eq_true, ↓reduceIte, Nat.pow_eq, UInt64.toNat_ofNat']
    omega
  have hfield : (ofIndex false index).exponentField = index / 2 ^ 52 := by
    rw [exponentField, hbits]
    simp only [Nat.pow_eq]
    omega
  have hfraction : (ofIndex false index).fractionField < 2 ^ 52 := by
    rw [fractionField]
    exact Nat.mod_lt _ (by decide)
  have hmagnitude : ∃ m e, (ofIndex false index).magnitude = .finite m e ∧ m < 2 ^ 53 ∧
      e ≤ (k : Int) - 49 := by
    unfold magnitude
    simp only [hfield, Nat.pow_eq]
    split
    · omega
    · split
      · exact ⟨_, _, rfl, by omega, by omega⟩
      · exact ⟨_, _, rfl, by omega, by omega⟩
  obtain ⟨m, e, hme, hm, he⟩ := hmagnitude
  refine ⟨_, by rw [fraction?, hme], ?_⟩
  simp only [scaleByTwo, Nat.pow_eq, Nat.one_mul]
  refine ⟨Nat.two_pow_pos _, ?_⟩
  calc m * 2 ^ e.toNat ≤ 2 ^ 53 * 2 ^ e.toNat := Nat.mul_le_mul_right _ (by omega)
    _ = 2 ^ (53 + e.toNat) := (Nat.pow_add ..).symm
    _ ≤ 2 ^ (k + 4 + (-e).toNat) := Nat.pow_le_pow_right (by decide) (by omega)
    _ = 2 ^ (k + 4) * 2 ^ (-e).toNat := Nat.pow_add ..

theorem atMost_ofFraction (hk : k ≤ 1000) (hd : denominator ≠ 0)
    (h : numerator ≤ 2 ^ k * denominator) :
    AtMost (ofFraction false numerator denominator) (k + 4) := by
  unfold ofFraction
  split
  · exact atMost_ofIndex hk (Nat.zero_le _)
  · next hn =>
    apply atMost_ofIndex hk
    have hunit := unitExponent_le hn h
    have hlt := scaled_lt hd (log2_le_unitExponent numerator denominator)
    generalize unitExponent numerator denominator = e at hunit hlt
    have hround := roundHalfEven_le (scaleByTwo numerator denominator (-e)).1
      (scaleByTwo numerator denominator (-e)).2
    rw [Nat.mul_comm] at hlt
    have hquotient := Nat.div_lt_of_lt_mul hlt
    have hexponent : (e + 1074).toNat ≤ k + 1022 := by omega
    calc (e + 1074).toNat * 2 ^ 52 + roundHalfEven (scaleByTwo numerator denominator (-e)).1
          (scaleByTwo numerator denominator (-e)).2
        ≤ (k + 1022) * 2 ^ 52 + 2 ^ 54 :=
          Nat.add_le_add (Nat.mul_le_mul_right _ hexponent) (Nat.le_trans hround hquotient)
      _ = (k + 1026) * 2 ^ 52 := by omega

/-! ## Operations -/

theorem atMost_ofNat {n : Nat} (hk : k ≤ 1000) (h : n ≤ 2 ^ k) : AtMost (ofNat n) (k + 4) :=
  atMost_ofFraction hk (by decide) (by omega)

private theorem AtMost.mono {x : Binary64} {k k' : Nat} (h : AtMost x k) (hk : k ≤ k') :
    AtMost x k' := by
  obtain ⟨p, hp, hpos, hle⟩ := h
  exact ⟨p, hp, hpos, Nat.le_trans hle (Nat.mul_le_mul_right _ (Nat.pow_le_pow_right (by decide) hk))⟩

theorem AtMost.add {x y : Binary64} (hk : k < 1000) (hx : AtMost x k) (hy : AtMost y k) :
    AtMost (x.add y) (k + 5) := by
  obtain ⟨p, hp, hpos, hle⟩ := hx
  obtain ⟨q, hq, hqpos, hqle⟩ := hy
  have hsum : p.1 * q.2 + q.1 * p.2 ≤ 2 ^ (k + 1) * (p.2 * q.2) := by
    have hleft := Nat.mul_le_mul_right q.2 hle
    have hright := Nat.mul_le_mul_right p.2 hqle
    rw [Nat.mul_assoc] at hleft hright
    rw [Nat.mul_comm q.2 p.2] at hright
    rw [Nat.pow_succ, Nat.mul_comm (2 ^ k) 2, Nat.mul_assoc]
    omega
  have hresult := atMost_ofFraction hk (Nat.mul_ne_zero (Nat.ne_of_gt hpos) (Nat.ne_of_gt hqpos)) hsum
  simpa [Binary64.add, lift, hp, hq] using hresult

theorem AtMost.mul {x y : Binary64} {k k' : Nat} (hk : k + k' ≤ 1000) (hx : AtMost x k)
    (hy : AtMost y k') : AtMost (x.mul y) (k + k' + 4) := by
  obtain ⟨p, hp, hpos, hle⟩ := hx
  obtain ⟨q, hq, hqpos, hqle⟩ := hy
  have hproduct : p.1 * q.1 ≤ 2 ^ (k + k') * (p.2 * q.2) := by
    rw [Nat.pow_add, Nat.mul_mul_mul_comm]
    exact Nat.mul_le_mul hle hqle
  have hresult := atMost_ofFraction hk (Nat.mul_ne_zero (Nat.ne_of_gt hpos) (Nat.ne_of_gt hqpos)) hproduct
  simpa [Binary64.mul, lift, hp, hq] using hresult

/-- A divisor of one or more makes nothing larger. -/
theorem AtMost.div {x y : Binary64} (hk : k ≤ 1000) (hx : AtMost x k) {q : Nat × Nat}
    (hy : y.fraction? = some q) (hpos : 0 < q.1) (hone : q.2 ≤ q.1) :
    AtMost (x.div y) (k + 4) := by
  obtain ⟨p, hp, hppos, hle⟩ := hx
  have hquotient : p.1 * q.2 ≤ 2 ^ k * (p.2 * q.1) := by
    rw [← Nat.mul_assoc]
    exact Nat.mul_le_mul hle hone
  have hresult := atMost_ofFraction hk (Nat.mul_ne_zero (Nat.ne_of_gt hppos) (Nat.ne_of_gt hpos)) hquotient
  simpa [Binary64.div, lift, hp, hy, (Nat.ne_of_gt hpos)] using hresult

theorem AtMost.isInfinite {x : Binary64} (h : AtMost x k) : x.isInfinite = false := by
  obtain ⟨p, hp, -⟩ := h
  unfold fraction? at hp
  cases hx : x.magnitude <;> simp_all [Binary64.isInfinite]

end Binary64

/-- The seconds of a span of less than `2 ^ 64` of them. -/
theorem Span.atMost_seconds {t : Span} (hsecs : t.secs < word64) (hnanos : t.nanos < 1000000000) :
    Binary64.AtMost t.seconds 73 := by
  have hword : word64 = 2 ^ 64 := rfl
  have hwhole : Binary64.AtMost (.ofNat t.secs) 68 :=
    Binary64.atMost_ofNat (by decide) (by omega)
  have hpart : Binary64.AtMost (.ofNat t.nanos) 34 :=
    Binary64.atMost_ofNat (k := 30) (by decide) (by omega)
  have hbillion : (Binary64.ofNat 1000000000).fraction? = some (8388608000000000, 8388608) := by
    decide +kernel
  have hfraction := hpart.div (by decide) hbillion (by decide) (by decide)
  exact hwhole.add (by decide) (hfraction.mono (by decide))

end SuiteRunner
