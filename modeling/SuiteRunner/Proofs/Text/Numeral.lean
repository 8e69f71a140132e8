import SuiteRunner.Text.Numeral

/-! # Decimal numerals and their values -/
namespace SuiteRunner.Text

theorem isDigit_iff {c : Char} : isDigit c = true ↔ 48 ≤ c.toNat ∧ c.toNat ≤ 57 := by
  simp only [isDigit, Bool.and_eq_true, decide_eq_true_eq]
  exact Iff.rfl

theorem toNat_digitChar {d : Nat} (h : d < 10) : (digitChar d).toNat = 48 + d := by
  have hall : ∀ d < 10, (digitChar d).toNat = 48 + d := by decide
  exact hall d h

private theorem isDigit_digitChar {d : Nat} (h : d < 10) : isDigit (digitChar d) = true := by
  rw [isDigit_iff, toNat_digitChar h]
  omega

private theorem digitValue_digitChar {d : Nat} (h : d < 10) : digitValue (digitChar d) = d := by
  have h48 : '0'.toNat = 48 := rfl
  rw [digitValue, toNat_digitChar h, h48]
  omega

theorem digitsValue_append_singleton (cs : List Char) (c : Char) :
    digitsValue (cs ++ [c]) = 10 * digitsValue cs + digitValue c := by
  simp [digitsValue]

theorem le_foldl_digits (cs : List Char) (n : Nat) :
    n ≤ cs.foldl (fun n c => 10 * n + digitValue c) n := by
  induction cs generalizing n with
  | nil => exact Nat.le_refl n
  | cons c cs ih =>
    have hstep := ih (10 * n + digitValue c)
    rw [List.foldl_cons]
    omega

/-! ## Writing a number -/

-- The accumulator and the fuel of the loop do not show in what it computes.
private theorem digits_go_append (fuel n : Nat) (acc : List Char) :
    digits.go fuel n acc = digits.go fuel n [] ++ acc := by
  induction fuel generalizing n acc with
  | zero => rfl
  | succ fuel ih =>
    unfold digits.go
    split
    · rfl
    · rw [ih, ih (n / 10) [digitChar (n % 10)], List.append_assoc]
      rfl

private theorem digits_go_eq {fuel fuel' n : Nat} (h : n < fuel) (h' : n < fuel')
    (acc : List Char) : digits.go fuel n acc = digits.go fuel' n acc := by
  induction fuel generalizing fuel' n acc with
  | zero => omega
  | succ fuel ih =>
    cases fuel' with
    | zero => omega
    | succ fuel' =>
      unfold digits.go
      split
      · rfl
      · exact ih (by omega) (by omega) _

theorem digits_of_lt {n : Nat} (h : n < 10) : digits n = [digitChar n] := by
  simp [digits, digits.go, h]

theorem digits_of_ge {n : Nat} (h : 10 ≤ n) : digits n = digits (n / 10) ++ [digitChar (n % 10)] := by
  have hgo : digits n = digits.go n (n / 10) [digitChar (n % 10)] := by
    rw [digits, digits.go, if_neg (by omega)]
  rw [hgo, digits_go_append, digits_go_eq (by omega : n / 10 < n) (Nat.lt_succ_self (n / 10)), digits]

/-- What holds of single digits and stays true when a digit is added holds of all numerals. -/
theorem digits_induction {P : Nat → List Char → Prop} (small : ∀ d < 10, P d [digitChar d])
    (more : ∀ n d, 0 < n → d < 10 → P n (digits n) → P (10 * n + d) (digits n ++ [digitChar d]))
    (n : Nat) : P n (digits n) := by
  induction n using Nat.strongRecOn with
  | ind n ih =>
    rcases Nat.lt_or_ge n 10 with h | h
    · rw [digits_of_lt h]
      exact small n h
    · rw [digits_of_ge h]
      have hstep := more (n / 10) (n % 10) (by omega) (by omega) (ih (n / 10) (by omega))
      rwa [show 10 * (n / 10) + n % 10 = n by omega] at hstep

theorem digits_ne_nil (n : Nat) : digits n ≠ [] :=
  digits_induction (P := fun _ cs => cs ≠ []) (by simp) (by simp) n

theorem isDigit_of_mem_digits {n : Nat} : ∀ c ∈ digits n, isDigit c = true := by
  refine digits_induction (P := fun _ cs => ∀ c ∈ cs, isDigit c = true) ?_ ?_ n
  · intro d hd c hc
    obtain rfl := List.mem_singleton.mp hc
    exact isDigit_digitChar hd
  · intro n d _ hd ih c hc
    rcases List.mem_append.mp hc with hc | hc
    · exact ih c hc
    · obtain rfl := List.mem_singleton.mp hc
      exact isDigit_digitChar hd

theorem digitsValue_digits (n : Nat) : digitsValue (digits n) = n := by
  refine digits_induction (P := fun n cs => digitsValue cs = n) ?_ ?_ n
  · intro d hd
    simp [digitsValue, digitValue_digitChar hd]
  · intro n d _ hd ih
    rw [digitsValue_append_singleton, ih, digitValue_digitChar hd]

/-- Only zero is written with a leading zero. -/
theorem head?_digits_ne_zero {n : Nat} (h : 0 < n) : (digits n).head? ≠ some '0' := by
  refine digits_induction (P := fun n cs => 0 < n → cs.head? ≠ some '0') ?_ ?_ n h
  · intro d hd hpos heq
    have hval := congrArg (Option.map Char.toNat) heq
    have h48 : '0'.toNat = 48 := rfl
    simp only [List.head?_cons, Option.map_some, toNat_digitChar hd, h48, Option.some.injEq] at hval
    omega
  · intro n d hn _ ih _
    cases hds : digits n with
    | nil => exact absurd hds (digits_ne_nil n)
    | cons c cs => simpa [hds] using ih hn

/-! ## Writing a number in a given width -/

private theorem length_digits_le {width n : Nat} (hw : 0 < width) (h : n < Nat.pow 10 width) :
    (digits n).length ≤ width := by
  induction width generalizing n with
  | zero => omega
  | succ width ih =>
    rcases Nat.lt_or_ge n 10 with hn | hn
    · rw [digits_of_lt hn, List.length_singleton]
      omega
    · have hpow : Nat.pow 10 (width + 1) = Nat.pow 10 width * 10 := Nat.pow_succ ..
      have hwidth : 0 < width := by
        apply Nat.pos_of_ne_zero
        rintro rfl
        have hten : Nat.pow 10 (0 + 1) = 10 := rfl
        omega
      have hle := ih hwidth (show n / 10 < Nat.pow 10 width by omega)
      rw [digits_of_ge hn, List.length_append, List.length_singleton]
      omega

theorem length_paddedDigits {width n : Nat} (hw : 0 < width) (h : n < Nat.pow 10 width) :
    (paddedDigits width n).length = width := by
  have hle := length_digits_le hw h
  rw [paddedDigits, List.length_append, List.length_replicate]
  omega

theorem paddedDigits_ne_nil (width n : Nat) : paddedDigits width n ≠ [] := by
  simp [paddedDigits, digits_ne_nil]

theorem isDigit_of_mem_paddedDigits {width n : Nat} :
    ∀ c ∈ paddedDigits width n, isDigit c = true := by
  intro c hc
  rcases List.mem_append.mp hc with hc | hc
  · rw [List.eq_of_mem_replicate hc]
    rfl
  · exact isDigit_of_mem_digits c hc

theorem digitsValue_paddedDigits (width n : Nat) : digitsValue (paddedDigits width n) = n := by
  rw [paddedDigits]
  induction width - (digits n).length with
  | zero => exact digitsValue_digits n
  | succ k ih =>
    rw [List.replicate_succ]
    exact ih

/-! ## Reading a number -/

/-- Values only grow while digits are taken, so it is enough that the last one is below the limit. -/
theorem accumulate_eq_ok_iff {limit n v : Nat} {cs : List Char} (h : n < limit) :
    accumulate limit n cs = .ok v ↔ (∀ c ∈ cs, isDigit c = true) ∧
      cs.foldl (fun n c => 10 * n + digitValue c) n = v ∧ v < limit := by
  induction cs generalizing n with
  | nil =>
    simp only [accumulate, Except.ok.injEq, List.foldl_nil]
    constructor
    · rintro rfl
      exact ⟨by simp, rfl, h⟩
    · exact fun hv => hv.2.1
  | cons c cs ih =>
    rw [accumulate, List.forall_mem_cons, List.foldl_cons]
    split
    · next hc =>
      split
      · next hlt => rw [ih hlt]; simp [hc]
      · next hge =>
        have hgrows := le_foldl_digits cs (10 * n + digitValue c)
        constructor
        · intro herror
          cases herror
        · rintro ⟨-, rfl, hv⟩
          omega
    · next hc => simp [hc]

theorem plus_not_digit : isDigit '+' = false := rfl

/-- An unsigned number is read exactly from digits with a plus sign or none before them, if their
value is below the limit. -/
theorem readUnsigned_eq_ok_iff {limit v : Nat} {cs : List Char} (h : 0 < limit) :
    readUnsigned limit cs = .ok v ↔ ∃ ds, (cs = ds ∨ cs = '+' :: ds) ∧ ds ≠ [] ∧
      (∀ c ∈ ds, isDigit c = true) ∧ digitsValue ds = v ∧ v < limit := by
  unfold readUnsigned
  split
  · simp
  · simp [plus_not_digit]
  · next ds hne =>
    rw [accumulate_eq_ok_iff h]
    constructor
    · intro hds
      exact ⟨ds, .inr rfl, fun hnil => hne (hnil ▸ rfl), hds⟩
    · rintro ⟨ds', rfl | heq, -, hds⟩
      · simp [plus_not_digit] at hds
      · obtain rfl := (List.cons.inj heq).2
        exact hds
  · next hnil _ hplus =>
    rw [accumulate_eq_ok_iff h]
    constructor
    · intro hds
      exact ⟨cs, .inl rfl, hnil, hds⟩
    · rintro ⟨ds, rfl | rfl, -, hds⟩
      · exact hds
      · exact absurd rfl (hplus ds)

end SuiteRunner.Text
