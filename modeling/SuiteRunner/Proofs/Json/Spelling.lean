import SuiteRunner.Json.Node
import SuiteRunner.Json.Value
import SuiteRunner.Proofs.Text.Numeral

/-! # The texts of a JSON value

A value has many texts: blanks may stand between tokens, and a character of a string may be written
in several ways. `Spells` holds of all of them. -/
namespace SuiteRunner.Json

/-! ## Numbers -/

def Digits (ds : List Char) : Prop := ds ≠ [] ∧ ∀ c ∈ ds, Text.isDigit c = true

inductive IsFraction : List Char → Prop where
  | absent : IsFraction []
  | digits {ds : List Char} (h : Digits ds) : IsFraction ('.' :: ds)

inductive IsExponent : List Char → Prop where
  | absent : IsExponent []
  | digits {e : Char} {sign ds : List Char} (he : e = 'e' ∨ e = 'E')
      (hs : sign = [] ∨ sign = ['+'] ∨ sign = ['-']) (h : Digits ds) :
      IsExponent (e :: (sign ++ ds))

/-- A whole part without leading zeros, perhaps with a sign, a fraction and an exponent. -/
def IsNumeral (t : List Char) : Prop :=
  ∃ sign whole fraction exponent, t = sign ++ (whole ++ (fraction ++ exponent)) ∧
    (sign = [] ∨ sign = ['-']) ∧ Digits whole ∧ (∀ d ds, whole ≠ '0' :: d :: ds) ∧
    IsFraction fraction ∧ IsExponent exponent

theorem isNumeral_digits (n : Nat) : IsNumeral (Text.digits n) := by
  refine ⟨[], Text.digits n, [], [], by simp, .inl rfl,
    ⟨Text.digits_ne_nil n, Text.isDigit_of_mem_digits⟩, ?_, .absent, .absent⟩
  intro d ds h
  rcases Nat.eq_zero_or_pos n with rfl | hn
  · have hzero : Text.digits 0 = ['0'] := rfl
    rw [hzero] at h
    cases h
  · apply Text.head?_digits_ne_zero hn
    rw [h]
    rfl

/-! ## Strings -/

/-- The character that a backslash and a letter stand for. -/
def shortEscape? : Char → Option Char
  | '"' => some '"'
  | '\\' => some '\\'
  | '/' => some '/'
  | 'b' => some (Char.ofNat 8)
  | 'f' => some (Char.ofNat 12)
  | 'n' => some (Char.ofNat 10)
  | 'r' => some (Char.ofNat 13)
  | 't' => some (Char.ofNat 9)
  | _ => none

/-- Four hexadecimal digits and their value. -/
def IsUnit (ds : List Char) (n : Nat) : Prop :=
  ∃ a b c d v₁ v₂ v₃ v₄, ds = [a, b, c, d] ∧ hexValue? a = some v₁ ∧ hexValue? b = some v₂ ∧
    hexValue? c = some v₃ ∧ hexValue? d = some v₄ ∧
    n = 16 * (16 * (16 * v₁ + v₂) + v₃) + v₄

/-- A text between quotes for given characters. -/
inductive Spelled : List Char → List Char → Prop where
  | nil : Spelled [] []
  | plain {c : Char} {cs t : List Char} (hq : c ≠ '"') (hb : c ≠ '\\') (hc : 0x20 ≤ c.toNat)
      (h : Spelled cs t) : Spelled (c :: cs) (c :: t)
  | short {e c : Char} {cs t : List Char} (he : shortEscape? e = some c) (h : Spelled cs t) :
      Spelled (c :: cs) ('\\' :: e :: t)
  | unit {ds cs t : List Char} {n : Nat} (hn : IsUnit ds n) (hl : isLowSurrogate n = false)
      (hh : isHighSurrogate n = false) (h : Spelled cs t) :
      Spelled (Char.ofNat n :: cs) ('\\' :: 'u' :: (ds ++ t))
  | pair {ds ds' cs t : List Char} {high low : Nat} (hn : IsUnit ds high) (hn' : IsUnit ds' low)
      (hl : isLowSurrogate low = true) (hh : isHighSurrogate high = true) (h : Spelled cs t) :
      Spelled (joinSurrogates high low :: cs)
        ('\\' :: 'u' :: (ds ++ '\\' :: 'u' :: (ds' ++ t)))

def Quotes (s : String) (t : List Char) : Prop :=
  ∃ body, Spelled s.toList body ∧ t = '"' :: (body ++ ['"'])

/-! ## Values -/

def Blank (w : List Char) : Prop := ∀ c ∈ w, isSpace c = true

/-- A text with blanks around it. -/
def Padded (P : List Char → Prop) (t : List Char) : Prop :=
  ∃ before core after, Blank before ∧ P core ∧ Blank after ∧ t = before ++ (core ++ after)

/-- Parts between brackets, with commas between them. -/
def Encloses (opening closing : Char) (parts : List (List Char)) (t : List Char) : Prop :=
  ∃ body, t = opening :: (body ++ [closing]) ∧
    (parts = [] ∧ Blank body ∨ parts ≠ [] ∧ body = joinWith [','] parts)

mutual
def Spells : Json → List Char → Prop
  | .null => fun t => t = "null".toList
  | .bool b => fun t => t = (if b then "true" else "false").toList
  | .number l => fun t => IsNumeral t ∧ t = l.toList
  | .string s => Quotes s
  | .array xs => fun t => ∃ parts, SpellsItems xs parts ∧ Encloses '[' ']' parts t
  | .object ms => fun t => ∃ parts, SpellsMembers ms parts ∧ Encloses '\x7b' '\x7d' parts t

def SpellsItems : List Json → List (List Char) → Prop
  | [] => fun parts => parts = []
  | x :: xs => fun parts => ∃ p ps, parts = p :: ps ∧ Padded (Spells x) p ∧ SpellsItems xs ps

def SpellsMembers : List (String × Json) → List (List Char) → Prop
  | [] => fun parts => parts = []
  | (k, x) :: ms => fun parts => ∃ key value ps, parts = (key ++ ':' :: value) :: ps ∧
      Padded (Quotes k) key ∧ Padded (Spells x) value ∧ SpellsMembers ms ps
end

/-! ## Texts without blanks -/

mutual
/-- All numbers of a value are numerals. -/
def Writable : Json → Prop
  | .null | .bool _ | .string _ => True
  | .number l => IsNumeral l.toList
  | .array xs => WritableItems xs
  | .object ms => WritableMembers ms

def WritableItems : List Json → Prop
  | [] => True
  | x :: xs => Writable x ∧ WritableItems xs

def WritableMembers : List (String × Json) → Prop
  | [] => True
  | (_, x) :: ms => Writable x ∧ WritableMembers ms
end

theorem writableItems_iff {xs : List Json} : WritableItems xs ↔ ∀ x ∈ xs, Writable x := by
  induction xs with
  | nil => simp [WritableItems]
  | cons x xs ih => rw [WritableItems, ih, List.forall_mem_cons]

theorem writableMembers_iff {ms : List (String × Json)} :
    WritableMembers ms ↔ ∀ m ∈ ms, Writable m.2 := by
  induction ms with
  | nil => simp [WritableMembers]
  | cons m ms ih => rw [WritableMembers, ih, List.forall_mem_cons]

private theorem hexValue?_hexDigit {d : Nat} (h : d < 16) : hexValue? (hexDigit d) = some d := by
  have hall : ∀ d < 16, hexValue? (hexDigit d) = some d := by decide
  exact hall d h

private theorem spelled_escapeChar (c : Char) {cs t : List Char} (h : Spelled cs t) :
    Spelled (c :: cs) (escapeChar c ++ t) := by
  have hshort {e : Char} {n : Nat} (hc : c.toNat = n) (he : shortEscape? e = some (Char.ofNat n)) :
      Spelled (c :: cs) (['\\', e] ++ t) := by
    rw [← hc, Char.ofNat_toNat] at he
    exact .short he h
  unfold escapeChar
  split
  · next hq =>
    subst hq
    exact .short rfl h
  split
  · next hb =>
    subst hb
    exact .short rfl h
  split
  · next hlt =>
    split
    · next hc => exact hshort hc rfl
    · next hc => exact hshort hc rfl
    · next hc => exact hshort hc rfl
    · next hc => exact hshort hc rfl
    · next hc => exact hshort hc rfl
    · have hunit : IsUnit ['0', '0', hexDigit (c.toNat / 16), hexDigit (c.toNat % 16)] c.toNat :=
        ⟨_, _, _, _, 0, 0, _, _, rfl, rfl, rfl, hexValue?_hexDigit (by omega),
          hexValue?_hexDigit (by omega), by omega⟩
      have hspelled := Spelled.unit hunit (by simp [isLowSurrogate]; omega)
        (by simp [isHighSurrogate]; omega) h
      rwa [Char.ofNat_toNat] at hspelled
  · next hq hb hlt => exact .plain hq hb (by omega) h

theorem quotes_quote (s : String) : Quotes s (quote s) := by
  refine ⟨s.toList.flatMap escapeChar, ?_, rfl⟩
  induction s.toList with
  | nil => exact .nil
  | cons c cs ih => exact spelled_escapeChar c ih

theorem padded_self {P : List Char → Prop} {t : List Char} (h : P t) : Padded P t :=
  ⟨[], t, [], by simp [Blank], h, by simp [Blank], by simp⟩

private theorem encloses_joinWith (opening closing : Char) (parts : List (List Char)) :
    Encloses opening closing parts (opening :: (joinWith [','] parts ++ [closing])) := by
  refine ⟨joinWith [','] parts, rfl, ?_⟩
  cases parts with
  | nil => exact .inl ⟨rfl, by simp [joinWith, Blank]⟩
  | cons p ps => exact .inr ⟨by simp, rfl⟩

mutual
theorem spells_compact : ∀ j : Json, j.Writable → Spells j j.compact
  | .null, _ => rfl
  | .bool _, _ => rfl
  | .number _, h => ⟨h, rfl⟩
  | .string s, _ => quotes_quote s
  | .array xs, h => ⟨compactItems xs, spellsItems_compact xs h, encloses_joinWith _ _ _⟩
  | .object ms, h => ⟨compactMembers ms, spellsMembers_compact ms h, encloses_joinWith _ _ _⟩

theorem spellsItems_compact : ∀ xs : List Json, WritableItems xs → SpellsItems xs (compactItems xs)
  | [], _ => rfl
  | x :: xs, h =>
    ⟨_, _, rfl, padded_self (spells_compact x h.1), spellsItems_compact xs h.2⟩

theorem spellsMembers_compact :
    ∀ ms : List (String × Json), WritableMembers ms → SpellsMembers ms (compactMembers ms)
  | [], _ => rfl
  | (k, x) :: ms, h =>
    ⟨_, _, _, rfl, padded_self (quotes_quote k), padded_self (spells_compact x h.1),
      spellsMembers_compact ms h.2⟩
end

mutual
/-- Nothing else has a text at all. -/
theorem writable_of_spells : ∀ (j : Json) {t : List Char}, Spells j t → j.Writable
  | .null, _, _ | .bool _, _, _ | .string _, _, _ => trivial
  | .number _, _, ⟨hn, rfl⟩ => hn
  | .array xs, _, ⟨_, h, _⟩ => writable_of_spellsItems xs h
  | .object ms, _, ⟨_, h, _⟩ => writable_of_spellsMembers ms h

theorem writable_of_spellsItems :
    ∀ (xs : List Json) {parts : List (List Char)}, SpellsItems xs parts → WritableItems xs
  | [], _, _ => trivial
  | x :: xs, _, ⟨_, _, _, ⟨_, _, _, _, hx, _⟩, hxs⟩ =>
    ⟨writable_of_spells x hx, writable_of_spellsItems xs hxs⟩

theorem writable_of_spellsMembers :
    ∀ (ms : List (String × Json)) {parts : List (List Char)}, SpellsMembers ms parts →
      WritableMembers ms
  | [], _, _ => trivial
  | (_, x) :: ms, _, ⟨_, _, _, _, _, ⟨_, _, _, _, hx, _⟩, hms⟩ =>
    ⟨writable_of_spells x hx, writable_of_spellsMembers ms hms⟩
end

end SuiteRunner.Json
