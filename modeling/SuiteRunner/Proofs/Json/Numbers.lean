import Mathlib.Algebra.Group.Nat.Defs
import SuiteRunner.Proofs.Json.Reading

/-! # Numerals of natural numbers -/
namespace SuiteRunner.Json

/-! ## The digits that fit -/

private theorem gather_of_lt {acc : Nat} {ds : List Char}
    (h : ds.foldl (fun n c => 10 * n + Text.digitValue c) acc < 2 ^ 64) :
    gather acc ds = (ds.foldl (fun n c => 10 * n + Text.digitValue c) acc, []) := by
  induction ds generalizing acc with
  | nil => rfl
  | cons d ds ih =>
    rw [List.foldl_cons] at h ⊢
    have hle := Text.le_foldl_digits ds (10 * acc + Text.digitValue d)
    have hlt : 10 * acc + Text.digitValue d < Nat.pow 2 64 := Nat.lt_of_le_of_lt hle h
    rw [gather]
    simp only [hlt, ↓reduceIte]
    exact ih h

private theorem foldl_of_gather {acc k : Nat} {ds : List Char} (h : gather acc ds = (k, [])) :
    ds.foldl (fun n c => 10 * n + Text.digitValue c) acc = k := by
  induction ds generalizing acc with
  | nil => exact (Prod.mk.inj h).1
  | cons d ds ih =>
    rw [gather] at h
    split at h
    · exact ih h
    · cases (Prod.mk.inj h).2

theorem gather_lt {acc : Nat} (h : acc < 2 ^ 64) (ds : List Char) :
    (gather acc ds).1 < 2 ^ 64 := by
  induction ds generalizing acc with
  | nil => exact h
  | cons d ds ih =>
    rw [gather]
    by_cases hnext : 10 * acc + Text.digitValue d < Nat.pow 2 64
    · rw [if_pos hnext]
      exact ih hnext
    · rw [if_neg hnext]
      exact h

/-! ## Literals -/

/-- The magnitude that a literal spells, as numerator and denominator. -/
def Literal.exact (l : Literal) : Nat × Nat :=
  let places := l.fraction.getD []
  let e := l.exponent.getD 0
  (Text.digitsValue (l.whole ++ places) * 10 ^ e.toNat, 10 ^ places.length * 10 ^ (-e).toNat)

/-- Whether a value is no number beyond the largest double. -/
def withinDoubles : Json → Bool
  | .number l =>
    let (numerator, denominator) := (Literal.ofChars l.toList).exact
    numerator ≤ (2 ^ 1024 - 2 ^ 971) * denominator
  | _ => true

theorem ofChars_digits {ds : List Char} (hd : Digits ds) :
    Literal.ofChars ds = ⟨false, ds, none, none⟩ := by
  obtain ⟨htake, hdrop⟩ := hd.span [] (by simp)
  rw [List.append_nil] at htake hdrop
  unfold Literal.ofChars
  split
  next hsplit =>
    split at hsplit
    · next r =>
      have hne := hd.append_ne (c := '-') rfl [] r
      simp at hne
    · obtain ⟨rfl, rfl⟩ := Prod.mk.inj hsplit
      simp [htake, hdrop, exponentOf]

private theorem exponentOf_cons (c : Char) (cs : List Char) :
    (exponentOf (c :: cs)).isNone = false := by
  unfold exponentOf
  split <;> simp_all

/-- A literal without sign, fraction and exponent has nothing but digits. -/
theorem isDigit_of_isInteger {cs : List Char} (hint : (Literal.ofChars cs).isInteger = true)
    (hneg : (Literal.ofChars cs).negative = false) : ∀ c ∈ cs, Text.isDigit c = true := by
  have hsplit := List.takeWhile_append_dropWhile (p := Text.isDigit) (l := cs)
  unfold Literal.ofChars at hint hneg
  split at hint
  next hsign =>
    split at hsign
    · simp at hneg
    · obtain ⟨rfl, rfl⟩ := Prod.mk.inj hsign
      cases hdrop : cs.dropWhile Text.isDigit with
      | nil =>
        rw [hdrop, List.append_nil] at hsplit
        have hall : (cs.takeWhile Text.isDigit).all Text.isDigit = true := List.all_takeWhile
        rw [hsplit, List.all_eq_true] at hall
        exact hall
      | cons c r =>
        simp only [hdrop] at hint
        split at hint
        · simp [Literal.isInteger] at hint
        · simp [Literal.isInteger, exponentOf_cons] at hint

/-- A literal denotes a natural number only if it is an integer without a sign, all of whose digits
fit. -/
theorem gather_of_value? {l : Literal} {n : Nat} (h : l.value? = some (.natural n)) :
    l.isInteger = true ∧ l.negative = false ∧ gather 0 l.whole = (n, []) := by
  unfold Literal.value? at h
  cases hgather : gather 0 l.whole with
  | mk whole dropped =>
    simp only [hgather] at h
    split at h
    · next hcond =>
      cases hneg : l.negative with
      | true => simp [hneg] at h
      | false =>
        simp only [hneg] at h
        simp only [Bool.and_eq_true, List.isEmpty_iff] at hcond
        obtain ⟨⟨hint, rfl⟩, -⟩ := hcond
        have hn : whole = n := by simpa using h
        exact ⟨hint, rfl, by rw [hn]⟩
    · obtain ⟨x, -, hx⟩ := Option.map_eq_some_iff.mp h
      cases hx

private theorem ofChars?_digits {ds : List Char} (hd : Digits ds)
    (h : Text.digitsValue ds < 2 ^ 64) :
    Numeric.ofChars? ds = some (.natural (Text.digitsValue ds)) := by
  have hgather := gather_of_lt h
  rw [Numeric.ofChars?, ofChars_digits hd, Literal.value?]
  simp only [hgather]
  rfl

theorem lt_of_ofChars? {cs : List Char} {n : Nat} (h : Numeric.ofChars? cs = some (.natural n)) :
    n < 2 ^ 64 := by
  obtain ⟨-, -, hgather⟩ := gather_of_value? h
  have hlt := gather_lt (show 0 < 2 ^ 64 by decide) (Literal.ofChars cs).whole
  rwa [hgather] at hlt

/-- Exactly the numerals without sign, fraction and exponent denote natural numbers, as far as these
fit sixty-four bits. -/
theorem ofChars?_eq_natural_iff {cs : List Char} (hne : cs ≠ []) {n : Nat} :
    Numeric.ofChars? cs = some (.natural n) ↔
      Digits cs ∧ Text.digitsValue cs = n ∧ n < 2 ^ 64 := by
  constructor
  · intro h
    obtain ⟨hint, hneg, hgather⟩ := gather_of_value? h
    have hd : Digits cs := ⟨hne, isDigit_of_isInteger hint hneg⟩
    rw [ofChars_digits hd] at hgather
    exact ⟨hd, foldl_of_gather hgather, lt_of_ofChars? h⟩
  · rintro ⟨hd, rfl, hlt⟩
    exact ofChars?_digits hd hlt

/-! ## Values -/

theorem toNat_eq_ok_iff {n : Node} {k : Nat} :
    n.toNat = .ok k ↔ ∃ literal, n = .number literal ∧
      Numeric.ofChars? literal = some (.natural k) := by
  cases n with
  | number literal =>
    rw [Node.toNat]
    cases h : Numeric.ofChars? literal with
    | none => simp [h]
    | some x => cases x <;> simp [h]
  | _ => simp [Node.toNat]

/-- A numeral without sign, fraction and exponent, and the number it stands for. -/
def IsNatural (j : Json) (n : Nat) : Prop :=
  ∃ l, j = .number l ∧ Digits l.toList ∧ Text.digitsValue l.toList = n ∧ n < 2 ^ 64

theorem isNatural_nat {n : Nat} (h : n < 2 ^ 64) : IsNatural (.nat n) n := by
  refine ⟨Text.decimal n, rfl, ?_⟩
  rw [Text.decimal, String.toList_ofList]
  exact ⟨⟨Text.digits_ne_nil n, Text.isDigit_of_mem_digits⟩, Text.digitsValue_digits n, h⟩

/-- Among the values that can be written down, exactly these are read as natural numbers. -/
theorem toNat_node_iff {j : Json} (hj : j.Writable) {n : Nat} :
    (node j).toNat = .ok n ↔ IsNatural j n := by
  rw [toNat_eq_ok_iff]
  constructor
  · rintro ⟨literal, hnode, hvalue⟩
    cases j with
    | number l =>
      obtain rfl : l.toList = literal := Node.number.inj hnode
      have hne : l.toList ≠ [] := by
        obtain ⟨c, cs, hcs, -⟩ := hj.head
        simp [hcs]
      exact ⟨l, rfl, (ofChars?_eq_natural_iff hne).mp hvalue⟩
    | _ => cases hnode
  · rintro ⟨l, rfl, hd, hvalue⟩
    exact ⟨l.toList, rfl, (ofChars?_eq_natural_iff hd.1).mpr ⟨hd, hvalue⟩⟩

theorem writable_nat (n : Nat) : Writable (.nat n) := by
  rw [Json.nat, Writable, Text.decimal, String.toList_ofList]
  exact isNumeral_digits n

theorem toNat_nat {n : Nat} (h : n < 2 ^ 64) : (node (.nat n)).toNat = .ok n :=
  (toNat_node_iff (writable_nat n)).mpr (isNatural_nat h)

end SuiteRunner.Json
