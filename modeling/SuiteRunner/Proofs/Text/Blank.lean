import SuiteRunner.Proofs.Text.Numeral
import SuiteRunner.Proofs.Text.Utf8
import SuiteRunner.Text.Blank
import SuiteRunner.Text.Lowercase

/-! # White space around a text

Trimming takes blanks away at both ends and nothing else, and lower case brings no new ones. -/
namespace SuiteRunner.Text

/-- White space only. -/
def IsGap (cs : List Char) : Prop := ∀ c ∈ cs, isBlank c = true

/-- No white space in front. -/
def Flush (cs : List Char) : Prop := ∀ c ∈ cs.head?, isBlank c = false

theorem blank_iff {s : String} : blank s = true ↔ IsGap s.toList :=
  List.all_eq_true

theorem not_digit_of_isBlank {c : Char} (h : isBlank c = true) : isDigit c = false := by
  apply Bool.eq_false_iff.mpr
  intro hdigit
  have hrange := isDigit_iff.mp hdigit
  simp only [isBlank, Bool.or_eq_true, Bool.and_eq_true, decide_eq_true_eq, beq_iff_eq] at h
  omega

/-! ## Trimming -/

private theorem isGap_takeWhile (cs : List Char) : IsGap (cs.takeWhile isBlank) :=
  List.all_eq_true.mp List.all_takeWhile

private theorem dropWhile_of_flush {cs : List Char} (h : Flush cs) : cs.dropWhile isBlank = cs := by
  cases cs with
  | nil => rfl
  | cons c cs => simp [h c rfl]

private theorem flush_dropWhile (cs : List Char) : Flush (cs.dropWhile isBlank) := by
  intro c hc
  have hhead := List.head?_dropWhile_not isBlank cs
  rw [Option.mem_def.mp hc] at hhead
  exact hhead

theorem exists_dropEndWhile {α : Type} (p : α → Bool) (xs : List α) :
    ∃ after, (∀ x ∈ after, p x = true) ∧ xs = dropEndWhile p xs ++ after := by
  refine ⟨(xs.reverse.takeWhile p).reverse, ?_, ?_⟩
  · intro x hx
    exact List.all_eq_true.mp List.all_takeWhile x (List.mem_reverse.mp hx)
  · rw [dropEndWhile, ← List.reverse_append, List.takeWhile_append_dropWhile, List.reverse_reverse]

theorem mem_of_mem_dropEndWhile {α : Type} {p : α → Bool} {xs : List α} {x : α}
    (h : x ∈ dropEndWhile p xs) : x ∈ xs := by
  obtain ⟨after, -, hsplit⟩ := exists_dropEndWhile p xs
  rw [hsplit]
  exact List.mem_append_left after h

theorem getLast?_dropEndWhile {α : Type} (p : α → Bool) (xs : List α) :
    ∀ x ∈ (dropEndWhile p xs).getLast?, p x = false := by
  intro x hx
  rw [dropEndWhile, List.getLast?_reverse] at hx
  have hhead := List.head?_dropWhile_not p xs.reverse
  rw [Option.mem_def.mp hx] at hhead
  exact hhead

theorem dropEndWhile_of_getLast? {α : Type} {p : α → Bool} {xs : List α}
    (h : ∀ x ∈ xs.getLast?, p x = false) : dropEndWhile p xs = xs := by
  rcases List.eq_nil_or_concat xs with rfl | ⟨ys, y, rfl⟩
  · rfl
  · simp [dropEndWhile, h y (by simp)]

theorem dropEndWhile_append_of_forall {α : Type} {p : α → Bool} {ys : List α}
    (h : ∀ y ∈ ys, p y = true) (xs : List α) : dropEndWhile p (xs ++ ys) = dropEndWhile p xs := by
  have hreverse : ∀ y ∈ ys.reverse, p y = true := fun y hy => h y (List.mem_reverse.mp hy)
  rw [dropEndWhile, List.reverse_append, List.dropWhile_append_of_pos hreverse, dropEndWhile]

/-- Nothing is dropped from before an element that stays. -/
theorem dropEndWhile_append_cons {α : Type} {p : α → Bool} {y : α} (hy : p y = false)
    (xs ys : List α) : dropEndWhile p (xs ++ y :: ys) = xs ++ y :: dropEndWhile p ys := by
  have hsplit : (xs ++ y :: ys).reverse = ys.reverse ++ (y :: xs.reverse) := by simp
  rw [dropEndWhile, hsplit, List.dropWhile_append]
  split
  · next hempty => simp [dropEndWhile, List.isEmpty_iff.mp hempty, hy]
  · simp [dropEndWhile]

theorem exists_gaps_trim (cs : List Char) :
    ∃ before after, IsGap before ∧ IsGap after ∧ cs = before ++ (trim cs ++ after) := by
  obtain ⟨after, hafter, heq⟩ := exists_dropEndWhile isBlank (cs.dropWhile isBlank)
  refine ⟨cs.takeWhile isBlank, after, isGap_takeWhile cs, hafter, ?_⟩
  rw [trim, ← heq, List.takeWhile_append_dropWhile]

theorem flush_trim (cs : List Char) : Flush (trim cs) := by
  obtain ⟨after, -, heq⟩ := exists_dropEndWhile isBlank (cs.dropWhile isBlank)
  have hflush := flush_dropWhile cs
  rw [heq] at hflush
  intro c hc
  apply hflush
  rw [List.head?_append, ← trim, Option.mem_def.mp hc]
  rfl

/-- A text with no white space at its ends is found again before a gap. -/
theorem trim_append_gap {core gap : List Char} (hgap : IsGap gap) (hfront : Flush core)
    (hback : Flush core.reverse) (hne : core ≠ []) : trim (core ++ gap) = core := by
  have hfront' : Flush (core ++ gap) := by
    obtain ⟨c, cs, rfl⟩ := List.exists_cons_of_ne_nil hne
    exact hfront
  rw [trim, dropWhile_of_flush hfront', dropEndWhile_append_of_forall hgap, dropEndWhile,
    dropWhile_of_flush hback, List.reverse_reverse]

/-! ## Lower case -/

/-- The code points of white space. -/
def blankRanges : List (Nat × Nat) :=
  [(0x9, 0xD), (0x20, 0x20), (0x85, 0x85), (0xA0, 0xA0), (0x1680, 0x1680), (0x2000, 0x200A),
    (0x2028, 0x2029), (0x202F, 0x202F), (0x205F, 0x205F), (0x3000, 0x3000)]

private theorem exists_range_of_isBlank {c : Char} (h : isBlank c = true) :
    ∃ r ∈ blankRanges, r.1 ≤ c.toNat ∧ c.toNat ≤ r.2 := by
  simp only [isBlank, Bool.or_eq_true, Bool.and_eq_true, decide_eq_true_eq, beq_iff_eq] at h
  simp only [blankRanges, List.mem_cons, List.not_mem_nil, or_false, exists_eq_or_imp,
    exists_eq_left]
  omega

/-- No lower-case form of the table is white space. -/
theorem caseRuns_apart : caseRuns.all (fun run => blankRanges.all fun r =>
    decide (run.last + run.shift < r.1) || decide (r.2 < run.first + run.shift)) = true := by
  decide +kernel

private theorem toNat_ofNat_cases (n : Nat) :
    (Char.ofNat n).toNat = n ∨ (Char.ofNat n).toNat = 0 := by
  by_cases h : n.isValidChar
  · exact .inl (Utf8.toNat_val_ofNat h)
  · have hchar : Char.ofNat n = Char.ofNat 0 := dif_neg h
    exact .inr (congrArg Char.toNat hchar)

theorem blankRanges_pos : ∀ r ∈ blankRanges, 0 < r.1 := by decide

theorem isBlank_ofNat {n : Nat} (h : ∀ r ∈ blankRanges, n < r.1 ∨ r.2 < n) :
    isBlank (Char.ofNat n) = false := by
  apply Bool.eq_false_iff.mpr
  intro hblank
  obtain ⟨r, hr, hlow, hhigh⟩ := exists_range_of_isBlank hblank
  have hapart := h r hr
  have hpos := blankRanges_pos r hr
  rcases toNat_ofNat_cases n with hn | hn <;> omega

private theorem isBlank_run {run : CaseRun} (hrun : run ∈ caseRuns) {n : Nat}
    (h : run.covers n = true) : isBlank (Char.ofNat (n + run.shift).toNat) = false := by
  apply isBlank_ofNat
  intro r hr
  have hpos := blankRanges_pos r hr
  have hapart := List.all_eq_true.mp (List.all_eq_true.mp caseRuns_apart run hrun) r hr
  simp only [CaseRun.covers, Bool.and_eq_true, decide_eq_true_eq] at h
  simp only [Bool.or_eq_true, decide_eq_true_eq] at hapart
  omega

private theorem isBlank_lowerChar {c : Char} (h : isBlank c = false) :
    ∃ d ds, lowerChar c = d :: ds ∧ isBlank d = false := by
  simp only [lowerChar]
  split
  · next hsmall =>
    split
    · next hupper =>
      have hA : 'A'.toNat = 65 := rfl
      have hZ : 'Z'.toNat = 90 := rfl
      refine ⟨_, [], rfl, isBlank_ofNat ?_⟩
      simp only [blankRanges, List.forall_mem_cons, List.not_mem_nil, false_implies, implies_true,
        and_true]
      omega
    · exact ⟨c, [], rfl, h⟩
  split
  · exact ⟨'i', [Char.ofNat 0x307], rfl, by decide⟩
  split
  · next run hrun =>
    have hcovers : run.covers c.toNat = true :=
      List.find?_some (p := fun x : CaseRun => x.covers c.toNat) hrun
    exact ⟨_, [], rfl, isBlank_run (List.mem_of_find?_eq_some hrun) hcovers⟩
  · exact ⟨c, [], rfl, h⟩

theorem flush_lower {cs : List Char} (h : Flush cs) : Flush (lower cs) := by
  cases cs with
  | nil => exact h
  | cons c cs =>
    intro e he
    simp only [lower, lowerWith] at he
    split at he
    · split at he <;> (obtain rfl := Option.some.inj he; decide)
    · obtain ⟨d, ds, hlow, hd⟩ := isBlank_lowerChar (h c rfl)
      rw [hlow] at he
      obtain rfl := Option.some.inj he
      exact hd

end SuiteRunner.Text
