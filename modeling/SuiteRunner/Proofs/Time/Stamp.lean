import SuiteRunner.Proofs.Text.Blank
import SuiteRunner.Proofs.Text.Numeral
import SuiteRunner.Time.Stamp

/-! # Written stamps can be read

Days and dates belong together one to one, and a stamp is read as the point in time that it was
written for. -/
namespace SuiteRunner

/-! ## The calendar -/

namespace Date

/-- The year of an era that a day of it belongs to. -/
def yearOfEra (day : Int) : Int := (day - day / 1460 + day / 36524 - day / 146096) / 365

variable {day : Int}

-- The fourth leap day that centuries lack falls into the last of them.
private theorem centuryOfEra (h : 0 ≤ day) (h' : day ≤ 146096) :
    yearOfEra day / 100 = day / 36524 - day / 146096 := by
  have hcentury : day / 36524 = 0 ∨ day / 36524 = 1 ∨ day / 36524 = 2 ∨ day / 36524 = 3 ∨
      day / 36524 = 4 := by
    omega
  unfold yearOfEra
  rcases hcentury with hc | hc | hc | hc | hc <;> omega

private theorem yearOfEra_bounds (h : 0 ≤ day) (h' : day ≤ 146096) :
    0 ≤ yearOfEra day ∧ yearOfEra day ≤ 399 := by
  unfold yearOfEra
  omega

private theorem dayOfYear_bounds (h : 0 ≤ day) (h' : day ≤ 146096) :
    0 ≤ day - (365 * yearOfEra day + yearOfEra day / 4 - yearOfEra day / 100) ∧
      day - (365 * yearOfEra day + yearOfEra day / 4 - yearOfEra day / 100) ≤ 365 := by
  have hcentury := centuryOfEra h h'
  unfold yearOfEra at *
  omega

private theorem toDays_ofDays (days : Int) : (ofDays days).toDays = days := by
  have hdiv (a : Int) {b : Int} (hb : 0 ≤ b) : a.fdiv b = a / b := Int.fdiv_eq_ediv_of_nonneg a hb
  obtain ⟨era, hera⟩ : ∃ era, era = (days + 719468) / 146097 := ⟨_, rfl⟩
  obtain ⟨day, hday⟩ : ∃ day, day = days + 719468 - era * 146097 := ⟨_, rfl⟩
  have hlow : 0 ≤ day := by omega
  have hhigh : day ≤ 146096 := by omega
  obtain ⟨hyear, hyear'⟩ := yearOfEra_bounds hlow hhigh
  obtain ⟨hdoy, hdoy'⟩ := dayOfYear_bounds hlow hhigh
  simp (disch := decide) only [ofDays, toDays, hdiv, ← hera, ← hday]
  rw [← yearOfEra]
  generalize yearOfEra day = year at *
  obtain ⟨dayOfYear, hdayOfYear⟩ : ∃ d, d = day - (365 * year + year / 4 - year / 100) := ⟨_, rfl⟩
  rw [← hdayOfYear] at hdoy hdoy' ⊢
  obtain ⟨month, hmonth⟩ : ∃ m, m = (5 * dayOfYear + 2) / 153 := ⟨_, rfl⟩
  rw [← hmonth]
  have hera' : (year + era * 400) / 400 = era := by omega
  have hfirst : 0 ≤ dayOfYear - (153 * month + 2) / 5 + 1 := by omega
  rcases Int.lt_or_le month 10 with hm | hm
  · have hlate : ¬month + 3 ≤ 2 := by omega
    have hlate' : ¬(month + 3).toNat ≤ 2 := by omega
    simp only [if_pos hm, if_neg hlate, if_neg hlate', hera', Int.add_sub_cancel,
      Int.toNat_of_nonneg hfirst, Int.toNat_of_nonneg (show 0 ≤ month + 3 by omega)]
    omega
  · have hearly : month - 9 ≤ 2 := by omega
    have hearly' : (month - 9).toNat ≤ 2 := by omega
    simp only [if_neg (Int.not_lt.mpr hm), if_pos hearly, if_pos hearly', hera',
      Int.add_sub_cancel, Int.sub_add_cancel, Int.toNat_of_nonneg hfirst,
      Int.toNat_of_nonneg (show 0 ≤ month - 9 by omega)]
    omega

private theorem monthLength_le (year : Int) (month : Nat) : monthLength year month ≤ 31 := by
  unfold monthLength
  repeat' split
  all_goals decide

end Date

/-! ## Reading parts of a stamp -/

namespace Stamp

open Text (isBlank isDigit paddedDigits)

/-- A text that goes on with a mark instead of a digit or a blank. -/
def Marked (rest : List Char) : Prop :=
  ∀ c ∈ rest.head?, isDigit c = false ∧ isBlank c = false

variable {rest : List Char}

theorem marked_cons {c : Char} (hd : isDigit c = false) (hb : isBlank c = false)
    (cs : List Char) : Marked (c :: cs) := by
  intro d hd'
  obtain rfl := Option.some.inj hd'
  exact ⟨hd, hb⟩

theorem skipBlank_cons {c : Char} (h : isBlank c = false) (cs : List Char) :
    skipBlank (c :: cs) = c :: cs := by
  simp [skipBlank, h]

theorem skipBlank_paddedDigits (width n : Nat) (rest : List Char) :
    skipBlank (paddedDigits width n ++ rest) = paddedDigits width n ++ rest := by
  obtain ⟨c, cs, hcs⟩ := List.exists_cons_of_ne_nil (Text.paddedDigits_ne_nil width n)
  have hc : isDigit c = true := Text.isDigit_of_mem_paddedDigits c (by rw [hcs]; simp)
  rw [hcs, List.cons_append, skipBlank_cons]
  apply Bool.eq_false_iff.mpr
  intro hblank
  simp [Text.not_digit_of_isBlank hblank] at hc

theorem mark_cons {c : Char} (h : isBlank c = false) (cs : List Char) :
    mark c (c :: cs) = some cs := by
  simp [mark, skipBlank_cons h]

theorem takeWhile_paddedDigits (width n : Nat) (hrest : Marked rest) :
    (paddedDigits width n ++ rest).takeWhile isDigit = paddedDigits width n := by
  rw [List.takeWhile_append_of_pos Text.isDigit_of_mem_paddedDigits]
  cases rest with
  | nil => simp
  | cons c cs => simp [(hrest c rfl).1]

theorem number_paddedDigits {most width n : Nat} (h : (paddedDigits width n).length ≤ most)
    (hrest : Marked rest) :
    number most (paddedDigits width n ++ rest) = some (n, rest) := by
  have htake : ((paddedDigits width n ++ rest).take most).takeWhile isDigit =
      paddedDigits width n := by
    rw [List.take_append, List.take_of_length_le h]
    apply takeWhile_paddedDigits
    intro c hc
    rw [List.head?_take] at hc
    split at hc
    · cases hc
    · exact hrest c hc
  unfold number
  rw [htake]
  split
  · next hnil => exact absurd hnil (Text.paddedDigits_ne_nil width n)
  · rw [Text.digitsValue_paddedDigits, List.drop_left]

theorem twoDigits_paddedDigits {n : Nat} (h : n < 100) (hrest : Marked rest) :
    twoDigits (paddedDigits 2 n ++ rest) = some (n, rest) := by
  rw [twoDigits, skipBlank_paddedDigits]
  exact number_paddedDigits (Nat.le_of_eq (Text.length_paddedDigits (by decide) h)) hrest

private theorem paddedDigits_append_ne {c : Char} (hc : isDigit c = false) (width n : Nat)
    (rest cs : List Char) : paddedDigits width n ++ rest ≠ c :: cs := by
  obtain ⟨d, ds, hds⟩ := List.exists_cons_of_ne_nil (Text.paddedDigits_ne_nil width n)
  have hd : isDigit d = true := Text.isDigit_of_mem_paddedDigits d (by rw [hds]; simp)
  rw [hds]
  intro heq
  obtain ⟨rfl, -⟩ := List.cons.inj heq
  simp [hc] at hd

private theorem year_yearText (y : Int) (hrest : Marked rest) :
    year (yearText y ++ rest) = some (y, rest) := by
  have hall : number (paddedDigits 4 y.natAbs ++ rest).length (paddedDigits 4 y.natAbs ++ rest) =
      some (y.natAbs, rest) :=
    number_paddedDigits (by simp) hrest
  unfold yearText
  split
  · next h =>
    have hlt : y.toNat < 10000 := by omega
    have hlength : (paddedDigits 4 y.toNat).length = 4 := Text.length_paddedDigits (by decide) hlt
    have hfour := number_paddedDigits (Nat.le_of_eq hlength) hrest
    rw [year, skipBlank_paddedDigits]
    split
    · next heq => exact absurd heq (paddedDigits_append_ne rfl _ _ _ _)
    · next heq => exact absurd heq (paddedDigits_append_ne rfl _ _ _ _)
    · simp [hfour, Int.toNat_of_nonneg h.1]
  · split
    · next hneg =>
      have hskip := skipBlank_cons (c := '-') rfl (paddedDigits 4 y.natAbs ++ rest)
      simp only [List.cons_append, year, hskip, hall, Option.map_some, Option.some.injEq,
        Prod.mk.injEq, and_true]
      omega
    · next hpos =>
      have hskip := skipBlank_cons (c := '+') rfl (paddedDigits 4 y.natAbs ++ rest)
      simp only [List.cons_append, year, hskip, hall, Option.map_some, Option.some.injEq,
        Prod.mk.injEq, and_true]
      omega

private theorem date_append {y : Int} {m d : Nat} (hm : m < 100) (hd : d < 100)
    (hrest : Marked rest) :
    date (yearText y ++ '-' :: (paddedDigits 2 m ++ '-' :: (paddedDigits 2 d ++ rest))) =
      some (⟨y, m, d⟩, rest) := by
  have hmark (cs : List Char) : Marked ('-' :: cs) := marked_cons rfl rfl cs
  simp [date, year_yearText y (hmark _), mark_cons, twoDigits_paddedDigits hm (hmark _),
    twoDigits_paddedDigits hd hrest, show isBlank '-' = false from rfl]

private theorem fraction_digits {width n : Nat} (hw : 0 < width) (hw' : width ≤ 9)
    (hn : n < Nat.pow 10 width) (hrest : Marked rest) :
    fraction ('.' :: (paddedDigits width n ++ rest)) = some (n * Nat.pow 10 (9 - width), rest) := by
  have hlength := Text.length_paddedDigits hw hn
  have htake : (paddedDigits width n).take 9 = paddedDigits width n :=
    List.take_of_length_le (by omega)
  simp only [fraction, takeWhile_paddedDigits width n hrest]
  split
  · next hnil => exact absurd hnil (Text.paddedDigits_ne_nil width n)
  · rw [htake, Text.digitsValue_paddedDigits, List.drop_left, hlength]

private theorem fraction_fractionText {nanos : Nat} (h : nanos < 1000000000) (hrest : Marked rest)
    (hpoint : rest.head? ≠ some '.') :
    fraction (fractionText nanos ++ rest) = some (nanos, rest) := by
  unfold fractionText
  split
  · next hzero =>
    rw [hzero, List.nil_append]
    unfold fraction
    split
    · exact absurd rfl hpoint
    · rfl
  · split
    · next hthree =>
      have hvalue : nanos / 1000000 * Nat.pow 10 (9 - 3) = nanos := by
        show nanos / 1000000 * 1000000 = nanos
        omega
      rw [List.cons_append, fraction_digits (by decide) (by decide)
        (show nanos / 1000000 < 1000 by omega) hrest, hvalue]
    · split
      · next hsix =>
        have hvalue : nanos / 1000 * Nat.pow 10 (9 - 6) = nanos := by
          show nanos / 1000 * 1000 = nanos
          omega
        rw [List.cons_append, fraction_digits (by decide) (by decide)
          (show nanos / 1000 < 1000000 by omega) hrest, hvalue]
      · have hvalue : nanos * Nat.pow 10 (9 - 9) = nanos := Nat.mul_one nanos
        rw [List.cons_append, fraction_digits (by decide) (by decide) h hrest, hvalue]

private theorem timeOfDay_append {h m s nanos : Nat} (hh : h ≤ 23) (hm : m ≤ 59) (hs : s ≤ 60)
    (hn : nanos < 1000000000) (hrest : Marked rest) (hpoint : rest.head? ≠ some '.') :
    timeOfDay (paddedDigits 2 h ++ ':' :: (paddedDigits 2 m ++ ':' :: (paddedDigits 2 s ++
        (fractionText nanos ++ rest)))) =
      some ((h * 3600 + m * 60 + min s 59, if s = 60 then nanos + 1000000000 else nanos),
        rest) := by
  have hmark (cs : List Char) : Marked (':' :: cs) := marked_cons rfl rfl cs
  have hfraction : Marked (fractionText nanos ++ rest) := by
    unfold fractionText
    repeat' split
    · exact hrest
    all_goals exact marked_cons rfl rfl _
  simp [timeOfDay, twoDigits_paddedDigits (show h < 100 by omega) (hmark _), mark_cons,
    twoDigits_paddedDigits (show m < 100 by omega) (hmark _),
    twoDigits_paddedDigits (show s < 100 by omega) hfraction, fraction_fractionText hn hrest hpoint,
    show isBlank ':' = false from rfl, hh, hm, hs]

/-! ## Whole stamps -/

/-- A date in range, and a fraction that reaches one second only in the last second of a minute. -/
structure IsValid (t : Stamp) : Prop where
  day : t.day.isValid = true
  nanos : t.nanos < 2000000000
  leap : 1000000000 ≤ t.nanos → t.seconds % 60 = 59

/-- The second and the fraction as they are written: a leap second is the sixtieth. -/
theorem exists_second {t : Stamp} (h : t.IsValid) {ofDay : Nat}
    (hday : (ofDay : Int) = t.seconds - t.seconds.fdiv 86400 * 86400) : ∃ second nanos,
    (if 1000000000 ≤ t.nanos then (ofDay % 60 + 1, t.nanos - 1000000000)
      else (ofDay % 60, t.nanos)) = (second, nanos) ∧
    second ≤ 60 ∧ nanos < 1000000000 ∧ min second 59 = ofDay % 60 ∧
    (if second = 60 then nanos + 1000000000 else nanos) = t.nanos := by
  obtain ⟨-, hnanos, hleap⟩ := h
  rw [Int.fdiv_eq_ediv_of_nonneg _ (by decide)] at hday
  split
  · next hlarge =>
    have hlast := hleap hlarge
    refine ⟨60, t.nanos - 1000000000, ?_, ?_⟩
    · rw [show ofDay % 60 + 1 = 60 by omega]
    · rw [if_pos rfl]
      omega
  · next hsmall =>
    refine ⟨ofDay % 60, t.nanos, rfl, ?_⟩
    rw [if_neg (by omega)]
    omega

theorem read?_write {t : Stamp} (h : t.IsValid) : read? t.write = some t := by
  have hdays : t.day.toDays = t.seconds.fdiv 86400 := Date.toDays_ofDays _
  obtain ⟨ofDay, hofDay⟩ : ∃ n, n = (t.seconds - t.seconds.fdiv 86400 * 86400).toNat := ⟨_, rfl⟩
  have hday : (ofDay : Int) = t.seconds - t.seconds.fdiv 86400 * 86400 := by
    rw [Int.fdiv_eq_ediv_of_nonneg _ (by decide)] at hofDay ⊢
    omega
  have hlt : ofDay < 86400 := by
    rw [Int.fdiv_eq_ediv_of_nonneg _ (by decide)] at hday
    omega
  obtain ⟨second, nanos, hpair, hsecond, hnanos, hmin, hback⟩ := exists_second h hday
  have hvalid := h.day
  have hlength := Date.monthLength_le t.day.year t.day.month
  simp only [Date.isValid, Bool.and_eq_true, decide_eq_true_eq] at hvalid
  have hdate (rest : List Char) := date_append (y := t.day.year) (m := t.day.month)
    (d := t.day.day) (by omega) (by omega) (marked_cons (c := 'T') rfl rfl rest)
  have htime := timeOfDay_append (h := ofDay / 3600) (m := ofDay / 60 % 60) (by omega) (by omega)
    hsecond hnanos (marked_cons (c := 'Z') rfl rfl []) (by simp)
  have hstamp : (⟨t.day.toDays * 86400 + (ofDay / 3600 * 3600 + ofDay / 60 % 60 * 60 +
      min second 59 : Nat) - 0, if second = 60 then nanos + 1000000000 else nanos⟩ : Stamp) = t := by
    have hseconds : t.seconds.fdiv 86400 * 86400 + (ofDay / 3600 * 3600 + ofDay / 60 % 60 * 60 +
        ofDay % 60 : Nat) - 0 = t.seconds := by
      omega
    rw [hback, hdays, hmin, hseconds]
  have hoffset : offset (skipBlank ['Z']) = some (0, []) := rfl
  simp only [write, ← hofDay, hpair, List.append_assoc, List.cons_append]
  simp only [read?, hdate, separator, true_or, ↓reduceIte, htime, hoffset, hstamp, h.day,
    Bool.and_true, Option.bind_eq_bind, Option.bind_some]
  rfl

end Stamp

end SuiteRunner
