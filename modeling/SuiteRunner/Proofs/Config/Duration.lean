import SuiteRunner.Config.Duration
import SuiteRunner.Proofs.Text.Blank
import SuiteRunner.Proofs.Text.Numeral

/-! # Which texts are durations

A duration is a number with a unit behind it. The parts of one can be told from its text, although
some units end in others, and nothing else is taken for a duration. -/
namespace SuiteRunner.Duration

open Text

/-! ## Texts in their parts -/

/-- What a number may have behind it. -/
inductive Measure where
  | ms
  | s
  | sec
  | m
  | min
  | h
  | hr
  /-- No unit at all. -/
  | bare
deriving DecidableEq, Repr

namespace Measure

def text : Measure → List Char
  | ms => "ms".toList
  | s => "s".toList
  | sec => "sec".toList
  | m => "m".toList
  | min => "min".toList
  | h => "h".toList
  | hr => "hr".toList
  | bare => []

def millis : Measure → Nat
  | ms => 1
  | s | sec | bare => 1000
  | m | min => 60000
  | h | hr => 3600000

theorem text_injective {u v : Measure} (heq : u.text = v.text) : u = v := by
  revert heq
  cases u <;> cases v <;> decide

end Measure

/-- A text that is a number with a unit: an optional plus sign, digits, white space and the unit. -/
@[ext]
structure Written where
  plus : Bool
  digits : List Char
  gap : List Char
  measure : Measure
  digits_ne_nil : digits ≠ []
  isDigit_digits : ∀ c ∈ digits, isDigit c = true
  isGap_gap : IsGap gap

namespace Written

def number (w : Written) : List Char := (if w.plus then ['+'] else []) ++ w.digits

def text (w : Written) : List Char := w.number ++ (w.gap ++ w.measure.text)

def count (w : Written) : Nat := digitsValue w.digits

def millis (w : Written) : Nat := w.count * w.measure.millis

end Written

/-! ## The parts are determined -/

/-- The longest first part of a list whose elements have a property is determined. -/
theorem span_unique {p : Char → Bool} {xs ys xs' ys' : List Char} (hxs : ∀ c ∈ xs, p c = true)
    (hxs' : ∀ c ∈ xs', p c = true) (hys : ∀ c ∈ ys.head?, p c = false)
    (hys' : ∀ c ∈ ys'.head?, p c = false) (heq : xs ++ ys = xs' ++ ys') : xs = xs' ∧ ys = ys' := by
  have hspan {xs ys : List Char} (hxs : ∀ c ∈ xs, p c = true) (hys : ∀ c ∈ ys.head?, p c = false) :
      (xs ++ ys).takeWhile p = xs := by
    rw [List.takeWhile_append_of_pos hxs]
    cases ys with
    | nil => simp
    | cons c ys => simp [hys c rfl]
  have hfirst : xs = xs' := by rw [← hspan hxs hys, heq, hspan hxs' hys']
  subst hfirst
  exact ⟨rfl, List.append_cancel_left heq⟩

theorem units_eq : units = [.ms, .sec, .s, .min, .m, .hr, .h, .bare].map
    fun u : Measure => (u.text, u.millis) := rfl

/-- The characters of units are letters. -/
theorem units_apart :
    units.all (fun u => u.1.all fun c => c != '+' && !isDigit c && !isBlank c) = true := by
  decide

private theorem Measure.mem_units (u : Measure) : (u.text, u.millis) ∈ units := by
  rw [units_eq]
  exact List.mem_map.mpr ⟨u, by cases u <;> decide, rfl⟩

theorem apart_of_mem_units {u : List Char × Nat} (hu : u ∈ units) {c : Char} (hc : c ∈ u.1) :
    c ≠ '+' ∧ isDigit c = false ∧ isBlank c = false := by
  simpa [and_assoc] using List.all_eq_true.mp (List.all_eq_true.mp units_apart u hu) c hc

theorem Measure.head_text (u : Measure) {c : Char} (hc : c ∈ u.text.head?) :
    isDigit c = false ∧ isBlank c = false :=
  (apart_of_mem_units u.mem_units (List.mem_of_mem_head? hc)).2

private theorem Written.head_tail (w : Written) {c : Char}
    (hc : c ∈ (w.gap ++ w.measure.text).head?) : isDigit c = false := by
  cases hgap : w.gap with
  | nil =>
    rw [hgap] at hc
    exact (w.measure.head_text hc).1
  | cons d gap =>
    rw [hgap] at hc
    obtain rfl := Option.some.inj hc
    exact not_digit_of_isBlank (w.isGap_gap _ (by simp [hgap]))

theorem Written.head_text (w : Written) :
    w.plus = true ∧ w.text.head? = some '+' ∨
      w.plus = false ∧ ∃ c, w.text.head? = some c ∧ isDigit c = true := by
  cases hplus : w.plus with
  | true => exact .inl ⟨rfl, by simp [text, number, hplus]⟩
  | false =>
    obtain ⟨c, ds, hds⟩ := List.exists_cons_of_ne_nil w.digits_ne_nil
    exact .inr ⟨rfl, c, by simp [text, number, hplus, hds], w.isDigit_digits c (by simp [hds])⟩

/-- A text is a number with a unit in one way only. -/
theorem Written.text_injective {w w' : Written} (h : w.text = w'.text) : w = w' := by
  have hplus : w.plus = w'.plus := by
    obtain ⟨hp, hhead⟩ | ⟨hp, c, hhead, hc⟩ := w.head_text <;>
      obtain ⟨hp', hhead'⟩ | ⟨hp', c', hhead', hc'⟩ := w'.head_text
    · rw [hp, hp']
    · rw [← h, hhead] at hhead'
      obtain rfl := Option.some.inj hhead'
      simp [plus_not_digit] at hc'
    · rw [h, hhead'] at hhead
      obtain rfl := Option.some.inj hhead
      simp [plus_not_digit] at hc
    · rw [hp, hp']
  rw [text, text, number, number, hplus, List.append_assoc, List.append_assoc] at h
  obtain ⟨hdigits, htail⟩ := span_unique w.isDigit_digits w'.isDigit_digits
    (fun _ => w.head_tail) (fun _ => w'.head_tail) (List.append_cancel_left h)
  obtain ⟨hgap, hmeasure⟩ := span_unique w.isGap_gap w'.isGap_gap
    (fun _ hc => (w.measure.head_text hc).2) (fun _ hc => (w'.measure.head_text hc).2) htail
  exact Written.ext hplus hdigits hgap (Measure.text_injective hmeasure)

/-! ## The unit is found -/

theorem stripSuffix?_eq_some_iff {suffix cs rest : List Char} :
    stripSuffix? suffix cs = some rest ↔ cs = rest ++ suffix := by
  unfold stripSuffix?
  constructor
  · intro h
    split at h
    · next hsuffix =>
      obtain ⟨front, rfl⟩ := List.isSuffixOf_iff_suffix.mp hsuffix
      obtain rfl := Option.some.inj h
      simp
    · cases h
  · rintro rfl
    simp [List.isSuffixOf_iff_suffix]

theorem splitUnit_eq (cs : List Char) : splitUnit cs =
    (units.findSome? fun u => (stripSuffix? u.1 cs).map (·, u.2)).getD (cs, 1000) :=
  rfl

private theorem exists_measure (cs : List Char) :
    ∃ u : Measure, cs = (splitUnit cs).1 ++ u.text ∧ (splitUnit cs).2 = u.millis := by
  rw [splitUnit_eq]
  cases hfound : units.findSome? fun u => (stripSuffix? u.1 cs).map (·, u.2) with
  | none => exact ⟨.bare, by simp [Measure.text], rfl⟩
  | some r =>
    obtain ⟨x, hx, hstrip⟩ := List.exists_of_findSome?_eq_some hfound
    obtain ⟨rest, hrest, rfl⟩ := Option.map_eq_some_iff.mp hstrip
    rw [units_eq] at hx
    obtain ⟨u, -, rfl⟩ := List.mem_map.mp hx
    exact ⟨u, stripSuffix?_eq_some_iff.mp hrest, rfl⟩

/-- Behind a character of no unit a unit is found as if it stood alone. -/
theorem stripSuffix?_append {core suffix : List Char} (hcore : ∀ c ∈ core.getLast?, c ∉ suffix)
    (tail : List Char) :
    stripSuffix? suffix (core ++ tail) = (stripSuffix? suffix tail).map (core ++ ·) := by
  apply Option.ext
  intro rest
  rw [stripSuffix?_eq_some_iff, Option.map_eq_some_iff]
  simp only [stripSuffix?_eq_some_iff]
  constructor
  · intro h
    obtain ⟨front, hrest, htail⟩ | ⟨back, hback, hsuffix⟩ := List.append_eq_append_iff.mp h
    · exact ⟨front, htail, hrest.symm⟩
    · -- The suffix would reach into the part before it.
      rcases List.eq_nil_or_concat back with rfl | ⟨front, c, rfl⟩
      · exact ⟨[], by simpa using hsuffix.symm, by simpa using hback⟩
      · exact absurd (by simp [hsuffix]) (hcore c (by simp [hback]))
  · rintro ⟨front, rfl, rfl⟩
    simp

private theorem findUnit_append {core : List Char} {us : List (List Char × Nat)}
    (hcore : ∀ c ∈ core.getLast?, ∀ u ∈ us, c ∉ u.1) (tail : List Char) :
    (us.findSome? fun u => (stripSuffix? u.1 (core ++ tail)).map (·, u.2)) =
      (us.findSome? fun u => (stripSuffix? u.1 tail).map (·, u.2)).map
        fun r => (core ++ r.1, r.2) := by
  induction us with
  | nil => rfl
  | cons u us ih =>
    have hfirst := stripSuffix?_append (fun c hc => hcore c hc u List.mem_cons_self) tail
    have hrest := ih fun c hc v hv => hcore c hc v (List.mem_cons_of_mem u hv)
    cases hstrip : stripSuffix? u.1 tail <;> simp_all

private theorem splitUnit_append {core : List Char}
    (hcore : ∀ c ∈ core.getLast?, ∀ u ∈ units, c ∉ u.1) (tail : List Char) :
    splitUnit (core ++ tail) = (core ++ (splitUnit tail).1, (splitUnit tail).2) := by
  rw [splitUnit_eq, splitUnit_eq, findUnit_append hcore]
  cases units.findSome? fun u => (stripSuffix? u.1 tail).map (·, u.2) <;> rfl

theorem Measure.splitUnit_text (u : Measure) : splitUnit u.text = ([], u.millis) := by
  cases u <;> decide

/-! ## Reading -/

/-- What is looked at: the text in lower case, without white space around it. -/
def normalized (s : String) : List Char := lower (trim s.toList)

private theorem flush_normalized (s : String) : Flush (normalized s) :=
  flush_lower (flush_trim s.toList)

/-- The number before the unit. -/
def amount (s : String) : List Char := trim (splitUnit (normalized s)).1

theorem parse_cases (s : String) :
    (∃ cause, readUnsigned word64 (amount s) = .error cause ∧
      parse s = .error (.badFormat (String.ofList (normalized s)) cause)) ∨
    ∃ n, readUnsigned word64 (amount s) = .ok n ∧
      (n * (splitUnit (normalized s)).2 < word64 ∧ parse s = .ok (n * (splitUnit (normalized s)).2) ∨
        word64 ≤ n * (splitUnit (normalized s)).2 ∧
          parse s = .error (.outOfRange (String.ofList (normalized s)))) := by
  cases hread : readUnsigned word64 (amount s) with
  | error cause =>
    refine .inl ⟨cause, rfl, ?_⟩
    rw [amount, normalized] at hread
    simp [parse, hread, normalized]
  | ok n =>
    refine .inr ⟨n, rfl, ?_⟩
    rw [amount, normalized] at hread
    rcases Nat.lt_or_ge (n * (splitUnit (normalized s)).2) word64 with hlt | hge
    · refine .inl ⟨hlt, ?_⟩
      rw [normalized] at hlt ⊢
      simp [parse, hread, hlt]
    · refine .inr ⟨hge, ?_⟩
      rw [normalized] at hge ⊢
      simp [parse, hread, Nat.not_lt.mpr hge]

namespace Written

variable (w : Written)

theorem mem_number {c : Char} (hc : c ∈ w.number) : c = '+' ∨ isDigit c = true := by
  rcases List.mem_append.mp hc with hsign | hdigit
  · split at hsign
    · exact .inl (List.mem_singleton.mp hsign)
    · cases hsign
  · exact .inr (w.isDigit_digits c hdigit)

private theorem isBlank_of_mem_number {c : Char} (hc : c ∈ w.number) : isBlank c = false := by
  obtain rfl | hdigit := w.mem_number hc
  · rfl
  · apply Bool.eq_false_iff.mpr
    intro hblank
    simp [not_digit_of_isBlank hblank] at hdigit

/-- No part of a unit is left before the unit. -/
theorem splitUnit_text : splitUnit w.text = (w.number ++ w.gap, w.measure.millis) := by
  have hcore : ∀ c ∈ (w.number ++ w.gap).getLast?, ∀ u ∈ units, c ∉ u.1 := by
    intro c hc u hu hmem
    obtain ⟨hplus, hdigit, hblank⟩ := apart_of_mem_units hu hmem
    rcases List.mem_append.mp (List.mem_of_mem_getLast? hc) with hnumber | hgap
    · obtain rfl | hdigit' := w.mem_number hnumber
      · exact hplus rfl
      · simp [hdigit] at hdigit'
    · exact Bool.false_ne_true (hblank.symm.trans (w.isGap_gap c hgap))
  rw [text, ← List.append_assoc, splitUnit_append hcore, w.measure.splitUnit_text, List.append_nil]

private theorem trim_number : trim (w.number ++ w.gap) = w.number := by
  apply trim_append_gap w.isGap_gap
  · exact fun c hc => w.isBlank_of_mem_number (List.mem_of_mem_head? hc)
  · exact fun c hc => w.isBlank_of_mem_number (List.mem_reverse.mp (List.mem_of_mem_head? hc))
  · simp [number, w.digits_ne_nil]

private theorem readUnsigned_number {n : Nat} :
    readUnsigned word64 w.number = .ok n ↔ w.count = n ∧ n < word64 := by
  rw [readUnsigned_eq_ok_iff (by decide)]
  constructor
  · rintro ⟨ds, hnumber, -, hdigits, hvalue⟩
    have hsame : w.digits = ds := by
      have hplus : ∀ c ∈ w.digits ++ ds, c ≠ '+' := by
        rintro c hc rfl
        rcases List.mem_append.mp hc with hc | hc
        · exact Bool.false_ne_true (plus_not_digit.symm.trans (w.isDigit_digits _ hc))
        · exact Bool.false_ne_true (plus_not_digit.symm.trans (hdigits _ hc))
      unfold number at hnumber
      split at hnumber
      · obtain rfl | hcons := hnumber
        · exact absurd rfl (hplus '+' (by simp))
        · exact (List.cons.inj hcons).2
      · obtain rfl | hcons := hnumber
        · rfl
        · exact absurd rfl (hplus '+' (by rw [List.nil_append] at hcons; simp [hcons]))
    rw [← hsame] at hvalue
    exact hvalue
  · intro h
    refine ⟨w.digits, ?_, w.digits_ne_nil, w.isDigit_digits, h⟩
    cases hplus : w.plus <;> simp [number, hplus]

end Written

/-- The number before the unit is read exactly if the whole text is a number with a unit. -/
theorem readUnsigned_amount_iff {s : String} {n : Nat} :
    readUnsigned word64 (amount s) = .ok n ↔ ∃ w : Written, w.text = normalized s ∧ w.count = n ∧
      n < word64 ∧ (splitUnit (normalized s)).2 = w.measure.millis := by
  constructor
  · intro h
    obtain ⟨ds, hnumber, hne, hdigits, hvalue, hlt⟩ :=
      (readUnsigned_eq_ok_iff (by decide)).mp h
    obtain ⟨u, htext, hmillis⟩ := exists_measure (normalized s)
    obtain ⟨before, after, hbefore, hafter, hparts⟩ := exists_gaps_trim (splitUnit (normalized s)).1
    rw [← amount] at hparts
    -- The text starts with no blank.
    have hnone : before = [] := by
      cases before with
      | nil => rfl
      | cons c before =>
        have hflush := flush_normalized s c (by rw [htext, hparts]; rfl)
        exact absurd (hbefore c List.mem_cons_self) (by simp [hflush])
    rw [hparts, hnone, List.nil_append] at htext
    obtain hnumber | hnumber := hnumber
    · refine ⟨⟨false, ds, after, u, hne, hdigits, hafter⟩, ?_, hvalue, hlt, hmillis⟩
      rw [htext, hnumber]
      simp [Written.text, Written.number]
    · refine ⟨⟨true, ds, after, u, hne, hdigits, hafter⟩, ?_, hvalue, hlt, hmillis⟩
      rw [htext, hnumber]
      simp [Written.text, Written.number]
  · rintro ⟨w, htext, hcount⟩
    rw [amount, ← htext, w.splitUnit_text, w.trim_number, w.readUnsigned_number]
    exact ⟨hcount.1, hcount.2.1⟩

theorem parse_of_written {s : String} {w : Written} (htext : w.text = normalized s)
    (hcount : w.count < word64) :
    w.millis < word64 ∧ parse s = .ok w.millis ∨
      word64 ≤ w.millis ∧ parse s = .error (.outOfRange (String.ofList (normalized s))) := by
  have hmillis : (splitUnit (normalized s)).2 = w.measure.millis := by
    rw [← htext, w.splitUnit_text]
  have hread := readUnsigned_amount_iff.mpr ⟨w, htext, rfl, hcount, hmillis⟩
  obtain ⟨cause, herror, -⟩ | ⟨n, hn, hparse⟩ := parse_cases s
  · simp [hread] at herror
  · obtain rfl := Except.ok.inj (hread.symm.trans hn)
    rw [hmillis] at hparse
    exact hparse

theorem parse_of_not_written {s : String}
    (h : ¬ ∃ w : Written, w.text = normalized s ∧ w.count < word64) :
    ∃ cause, parse s = .error (.badFormat (String.ofList (normalized s)) cause) := by
  obtain ⟨cause, -, hparse⟩ | ⟨n, hn, -⟩ := parse_cases s
  · exact ⟨cause, hparse⟩
  · obtain ⟨w, htext, rfl, hcount, -⟩ := readUnsigned_amount_iff.mp hn
    exact absurd ⟨w, htext, hcount⟩ h

theorem parse_eq_ok_iff {s : String} {ms : Nat} : parse s = .ok ms ↔
    ∃ w : Written, w.text = normalized s ∧ w.count < word64 ∧ w.millis < word64 ∧ ms = w.millis := by
  constructor
  · intro h
    by_cases hw : ∃ w : Written, w.text = normalized s ∧ w.count < word64
    · obtain ⟨w, htext, hcount⟩ := hw
      obtain ⟨hfits, hparse⟩ | ⟨-, hparse⟩ := parse_of_written htext hcount
      · exact ⟨w, htext, hcount, hfits, Except.ok.inj (h.symm.trans hparse)⟩
      · simp [h] at hparse
    · obtain ⟨cause, hparse⟩ := parse_of_not_written hw
      simp [h] at hparse
  · rintro ⟨w, htext, hcount, hfits, rfl⟩
    obtain ⟨-, hparse⟩ | ⟨hover, -⟩ := parse_of_written htext hcount
    · exact hparse
    · omega

private theorem parse_eq_outOfRange_iff {s : String} :
    parse s = .error (.outOfRange (String.ofList (normalized s))) ↔
      ∃ w : Written, w.text = normalized s ∧ w.count < word64 ∧ word64 ≤ w.millis := by
  constructor
  · intro h
    by_cases hw : ∃ w : Written, w.text = normalized s ∧ w.count < word64
    · obtain ⟨w, htext, hcount⟩ := hw
      obtain ⟨-, hparse⟩ | ⟨hover, -⟩ := parse_of_written htext hcount
      · simp [h] at hparse
      · exact ⟨w, htext, hcount, hover⟩
    · obtain ⟨cause, hparse⟩ := parse_of_not_written hw
      simp [h] at hparse
  · rintro ⟨w, htext, hcount, hover⟩
    obtain ⟨hfits, -⟩ | ⟨-, hparse⟩ := parse_of_written htext hcount
    · omega
    · exact hparse

private theorem exists_badFormat_iff {s : String} :
    (∃ cause, parse s = .error (.badFormat (String.ofList (normalized s)) cause)) ↔
      ¬ ∃ w : Written, w.text = normalized s ∧ w.count < word64 := by
  constructor
  · rintro ⟨cause, h⟩ ⟨w, htext, hcount⟩
    obtain ⟨-, hparse⟩ | ⟨-, hparse⟩ := parse_of_written htext hcount <;> simp [h] at hparse
  · exact parse_of_not_written

theorem toMillis_ofMillis {ms : Nat} (h : ms < word64) : (Span.ofMillis ms).toMillis = ms := by
  simp only [Span.toMillis, Span.ofMillis]
  omega

/-- A text is read as a duration exactly if it is a number with a unit whose value fits sixty-four
bits both as written and in milliseconds; the parts are unique, the value is exact and stays the same
as a span of time. If only the milliseconds do not fit the duration is out of range, and all other
texts have a bad format. -/
theorem parse_accepts_exactly (s : String) :
    (∀ ms, parse s = .ok ms ↔ ∃ w : Written, w.text = normalized s ∧ w.count < word64 ∧
      w.millis < word64 ∧ ms = w.millis) ∧
    (∀ w w' : Written, w.text = normalized s → w'.text = normalized s → w = w') ∧
    (∀ ms, parse s = .ok ms → (Span.ofMillis ms).toMillis = ms) ∧
    (parse s = .error (.outOfRange (String.ofList (normalized s))) ↔
      ∃ w : Written, w.text = normalized s ∧ w.count < word64 ∧ word64 ≤ w.millis) ∧
    ((∃ cause, parse s = .error (.badFormat (String.ofList (normalized s)) cause)) ↔
      ¬ ∃ w : Written, w.text = normalized s ∧ w.count < word64) := by
  refine ⟨fun ms => parse_eq_ok_iff, ?_, ?_, parse_eq_outOfRange_iff, exists_badFormat_iff⟩
  · intro w w' h h'
    exact Written.text_injective (h.trans h'.symm)
  · intro ms h
    obtain ⟨w, -, -, hfits, rfl⟩ := parse_eq_ok_iff.mp h
    exact toMillis_ofMillis hfits

end SuiteRunner.Duration
