import SuiteRunner.Json.Decode
import SuiteRunner.Proofs.Json.Spelling
import SuiteRunner.Proofs.Traverse

/-! # Reading a text gives the value it spells -/
namespace SuiteRunner.Json

/-! ## Strings -/

private theorem escaped_short (r : Reading) {e c : Char} (h : shortEscape? e = some c) :
    r.escaped e = .ok (.plain, r.push c) := by
  unfold shortEscape? at h
  split at h <;> first | (cases h; rfl) | cases h

theorem readString_step {mode mode' : Quoted} {r r' : Reading} {c : Char} (cs : List Char)
    (hc : c ≠ '"' ∨ mode.closes = false) (h : r.step c mode = .ok (mode', r')) :
    readString mode r (c :: cs) = readString mode' r' cs := by
  have hopen : ¬ (c = '"' && mode.closes) = true := by
    rcases hc with hc | hc <;> simp [hc]
  rw [readString, if_neg hopen, h]

private theorem readString_unit {ds : List Char} {n : Nat} (h : IsUnit ds n) (high : Option Nat)
    (r : Reading) (cs : List Char) : readString (.hex 0 0 high) r (ds ++ cs) =
      readString (r.unit n high).1 (r.unit n high).2 cs := by
  obtain ⟨a, b, c, d, v₁, v₂, v₃, v₄, rfl, ha, hb, hc, hd, rfl⟩ := h
  simp only [List.cons_append, List.nil_append]
  have h₁ : r.step a (.hex 0 0 high) = .ok (.hex 1 v₁ high, r) := by
    simp [Reading.step, Reading.hexDigit, ha]
  have h₂ : r.step b (.hex 1 v₁ high) = .ok (.hex 2 (16 * v₁ + v₂) high, r) := by
    simp [Reading.step, Reading.hexDigit, hb]
  have h₃ : r.step c (.hex 2 (16 * v₁ + v₂) high) =
      .ok (.hex 3 (16 * (16 * v₁ + v₂) + v₃) high, r) := by
    simp [Reading.step, Reading.hexDigit, hc]
  have h₄ : r.step d (.hex 3 (16 * (16 * v₁ + v₂) + v₃) high) =
      .ok (r.unit (16 * (16 * (16 * v₁ + v₂) + v₃) + v₄) high) := by
    simp [Reading.step, Reading.hexDigit, hd]
  rw [readString_step _ (.inr rfl) h₁, readString_step _ (.inr rfl) h₂,
    readString_step _ (.inr rfl) h₃, readString_step _ (.inr rfl) h₄]
  rfl

private theorem reverse_push (r : Reading) (c : Char) (cs : List Char) :
    (r.push c).chars.reverse ++ cs = r.chars.reverse ++ c :: cs := by
  simp [Reading.push]

private theorem readString_backslash (r : Reading) (cs : List Char) :
    readString .plain r ('\\' :: cs) = readString .escape r cs :=
  readString_step cs (.inl (by decide)) (by simp [Reading.step, Reading.unescaped])

private theorem readString_escape_u (r : Reading) (cs : List Char) :
    readString .escape r ('u' :: cs) = readString (.hex 0 0 none) r cs :=
  readString_step cs (.inr rfl) rfl

theorem readString_spelled {cs t : List Char} (h : Spelled cs t) (r : Reading)
    (hr : r.whole = true) (rest : List Char) :
    readString .plain r (t ++ '"' :: rest) =
      .ok (some (String.ofList (r.chars.reverse ++ cs)), rest) := by
  induction h generalizing r with
  | nil => simp [readString, Quoted.closes, Reading.close, hr]
  | @plain c cs t hq hb hc h ih =>
    have hstep : r.step c .plain = .ok (.plain, r.push c) := by
      simp [Reading.step, Reading.unescaped, hb, Nat.not_lt.mpr hc]
    rw [List.cons_append, readString_step _ (.inl hq) hstep, ← reverse_push]
    exact ih (r.push c) hr
  | @short e c cs t he h ih =>
    have hstep : r.step e .escape = .ok (.plain, r.push c) := escaped_short r he
    rw [List.cons_append, List.cons_append, readString_backslash,
      readString_step _ (.inr rfl) hstep, ← reverse_push]
    exact ih (r.push c) hr
  | @unit ds cs t n hn hl hh h ih =>
    have hunit : r.unit n none = (.plain, r.push (Char.ofNat n)) := by
      simp [Reading.unit, hl, hh]
    rw [List.cons_append, List.cons_append, readString_backslash, readString_escape_u,
      List.append_assoc, readString_unit hn, hunit, ← reverse_push]
    exact ih (r.push _) hr
  | @pair ds ds' cs t high low hn hn' hl hh h ih =>
    have hnot : isLowSurrogate high = false := by
      simp only [isHighSurrogate, isLowSurrogate, Bool.and_eq_true, decide_eq_true_eq] at hh ⊢
      simp
      omega
    have hhigh : r.unit high none = (.afterHigh high, r) := by
      simp [Reading.unit, hnot, hh]
    have hlow : r.unit low (some high) = (.plain, r.push (joinSurrogates high low)) := by
      simp [Reading.unit, hl]
    have hsecond : r.step '\\' (.afterHigh high) = .ok (.afterHighEscape high, r) := by
      simp [Reading.step]
    have hu : r.step 'u' (.afterHighEscape high) = .ok (.hex 0 0 (some high), r) := by
      simp [Reading.step]
    rw [List.cons_append, List.cons_append, readString_backslash, readString_escape_u,
      List.append_assoc, readString_unit hn, hhigh, List.cons_append, List.cons_append,
      readString_step _ (.inl (by decide)) hsecond, readString_step _ (.inr rfl) hu,
      List.append_assoc, readString_unit hn', hlow, ← reverse_push]
    exact ih (r.push _) hr

/-! ## Numbers -/

/-- Behind such a text a number cannot go on. -/
def Ends (rest : List Char) : Prop :=
  ∀ c ∈ rest.head?, Text.isDigit c = false ∧ c ≠ '.' ∧ c ≠ 'e' ∧ c ≠ 'E'

theorem Digits.append_ne {ds : List Char} (h : Digits ds) {c : Char} (hc : Text.isDigit c = false)
    (rest cs : List Char) : ds ++ rest ≠ c :: cs := by
  obtain ⟨hne, hall⟩ := h
  cases ds with
  | nil => exact absurd rfl hne
  | cons d ds =>
    intro heq
    obtain ⟨rfl, -⟩ := List.cons.inj heq
    rw [hall d (by simp)] at hc
    cases hc

theorem Digits.span {ds : List Char} (h : Digits ds) (rest : List Char)
    (hrest : ∀ c ∈ rest.head?, Text.isDigit c = false) :
    (ds ++ rest).takeWhile Text.isDigit = ds ∧ (ds ++ rest).dropWhile Text.isDigit = rest := by
  have hstop : rest.takeWhile Text.isDigit = [] ∧ rest.dropWhile Text.isDigit = rest := by
    cases rest with
    | nil => simp
    | cons c cs => simp [hrest c rfl]
  rw [List.takeWhile_append_of_pos h.2, List.dropWhile_append_of_pos h.2, hstop.1, hstop.2]
  exact ⟨List.append_nil ds, rfl⟩

theorem readDigits_append {ds rest : List Char} (h : Digits ds)
    (hrest : ∀ c ∈ rest.head?, Text.isDigit c = false) :
    readDigits (ds ++ rest) = .ok (ds, rest) := by
  obtain ⟨htake, hdrop⟩ := h.span rest hrest
  unfold readDigits
  rw [htake, hdrop]
  obtain ⟨hne, -⟩ := h
  cases ds with
  | nil => exact absurd rfl hne
  | cons d ds => rfl

private theorem readWhole_append {ds rest : List Char} (h : Digits ds)
    (hzero : ∀ d ds', ds ≠ '0' :: d :: ds') (hrest : ∀ c ∈ rest.head?, Text.isDigit c = false) :
    readWhole (ds ++ rest) = .ok (ds, rest) := by
  simp only [readWhole, readDigits_append h hrest, bind, Except.bind]
  split
  · next heq =>
    cases heq
    exact absurd rfl (hzero _ _)
  · rfl

private theorem readFraction_append {fraction rest : List Char} (h : IsFraction fraction)
    (hrest : ∀ c ∈ rest.head?, Text.isDigit c = false ∧ c ≠ '.') :
    readFraction (fraction ++ rest) = .ok (fraction, rest) := by
  cases h with
  | absent =>
    rw [List.nil_append]
    unfold readFraction
    split
    · exact absurd rfl (hrest '.' rfl).2
    · rfl
  | digits h =>
    rw [List.cons_append, readFraction, readDigits_append h fun c hc => (hrest c hc).1]
    rfl

private theorem readExponent_append {exponent rest : List Char} (h : IsExponent exponent)
    (hrest : Ends rest) : readExponent (exponent ++ rest) = .ok (exponent, rest) := by
  cases h with
  | absent =>
    cases rest with
    | nil => rfl
    | cons c cs =>
      obtain ⟨-, -, he, hE⟩ := hrest c rfl
      simp [readExponent, he, hE]
  | @digits e sign ds he hs h =>
    have hread := readDigits_append h fun c hc => (hrest c hc).1
    rcases hs with rfl | rfl | rfl
    · simp only [List.nil_append, List.cons_append]
      rw [readExponent, if_pos he, hread]
      · rfl
      · exact fun r heq => h.append_ne rfl rest r heq
      · exact fun r heq => h.append_ne rfl rest r heq
    · simp only [List.cons_append, List.nil_append, readExponent, if_pos he]
      rw [hread]
      rfl
    · simp only [List.cons_append, List.nil_append, readExponent, if_pos he]
      rw [hread]
      rfl

private theorem readNumber_append {t rest : List Char} (h : IsNumeral t) (hrest : Ends rest) :
    readNumber (t ++ rest) = .ok (t, rest) := by
  obtain ⟨sign, whole, fraction, exponent, rfl, hsign, hwhole, hzero, hfraction, hexponent⟩ := h
  have hexp : ∀ c ∈ (exponent ++ rest).head?, Text.isDigit c = false ∧ c ≠ '.' := by
    intro c hc
    cases hexponent with
    | absent => exact ⟨(hrest c hc).1, (hrest c hc).2.1⟩
    | digits he _ _ =>
      obtain rfl := Option.some.inj hc
      rcases he with rfl | rfl <;> exact ⟨rfl, by decide⟩
  have hfrac : ∀ c ∈ (fraction ++ (exponent ++ rest)).head?, Text.isDigit c = false := by
    intro c hc
    cases hfraction with
    | absent => exact (hexp c hc).1
    | digits _ =>
      obtain rfl := Option.some.inj hc
      rfl
  have hreadWhole := readWhole_append hwhole hzero hfrac
  have hreadFraction := readFraction_append hfraction hexp
  have hreadExponent := readExponent_append hexponent hrest
  simp only [List.append_assoc]
  rcases hsign with rfl | rfl
  · rw [List.nil_append]
    unfold readNumber
    split
    next hsplit =>
      split at hsplit
      · next heq => exact absurd heq (hwhole.append_ne rfl _ _)
      · obtain ⟨rfl, rfl⟩ := Prod.mk.inj hsplit
        simp [hreadWhole, hreadFraction, hreadExponent, bind, Except.bind]
  · simp [readNumber, hreadWhole, hreadFraction, hreadExponent, bind, Except.bind]

/-! ## Values -/

mutual
/-- What a text that spells a value is read as. -/
def node : Json → Node
  | .null => .null
  | .bool b => .bool b
  | .number l => .number l.toList
  | .string s => .string (some s)
  | .array xs => .array (nodes xs) none
  | .object ms => .object (memberNodes ms) none

def nodes : List Json → List Node
  | [] => []
  | x :: xs => node x :: nodes xs

def memberNodes : List (String × Json) → List (Option String × Node)
  | [] => []
  | (k, x) :: ms => (some k, node x) :: memberNodes ms
end

theorem nodes_eq_map (xs : List Json) : nodes xs = xs.map node := by
  induction xs with
  | nil => rfl
  | cons x xs ih => rw [nodes, ih, List.map_cons]

theorem skipSpace_append {w : List Char} (h : Blank w) (cs : List Char) :
    skipSpace (w ++ cs) = skipSpace cs := List.dropWhile_append_of_pos h

theorem skipSpace_cons {c : Char} (h : isSpace c = false) (cs : List Char) :
    skipSpace (c :: cs) = c :: cs := by
  simp [skipSpace, h]

theorem isSpace_of_isDigit {c : Char} (h : Text.isDigit c = true) : isSpace c = false := by
  cases hs : isSpace c with
  | false => rfl
  | true =>
    simp only [isSpace, Bool.or_eq_true, decide_eq_true_eq] at hs
    rcases hs with ((rfl | rfl) | rfl) | rfl <;> cases h

theorem ends_cons {c : Char} {cs : List Char} (hd : Text.isDigit c = false) (hp : c ≠ '.')
    (he : c ≠ 'e') (hE : c ≠ 'E') : Ends (c :: cs) := by
  intro c' hc
  obtain rfl := Option.some.inj hc
  exact ⟨hd, hp, he, hE⟩

theorem Blank.ends {w rest : List Char} (h : Blank w) (hrest : Ends rest) : Ends (w ++ rest) := by
  cases w with
  | nil => exact hrest
  | cons c w =>
    have hc : isSpace c = true := h c (by simp)
    simp only [isSpace, Bool.or_eq_true, decide_eq_true_eq] at hc
    rcases hc with ((rfl | rfl) | rfl) | rfl <;>
      exact ends_cons rfl (by decide) (by decide) (by decide)

theorem readNode_blank {w : List Char} (h : Blank w) (fuel : Nat) (cs : List Char) :
    readNode fuel (w ++ cs) = readNode fuel cs := by
  cases fuel with
  | zero => rfl
  | succ fuel => rw [readNode, readNode, skipSpace_append h]

theorem readNode_scalar {c : Char} {cs rest : List Char} {fuel : Nat} (hs : isSpace c = false)
    (ha : c ≠ '[') (ho : c ≠ '\x7b') (hf : 2 * (c :: cs).length ≤ fuel) :
    readNode fuel (c :: cs ++ rest) = readScalar (c :: cs ++ rest) := by
  cases fuel with
  | zero => simp at hf
  | succ fuel =>
    rw [readNode, List.cons_append, skipSpace_cons hs]
    split
    · next heq => exact absurd (List.cons.inj heq).1 ha
    · next heq => exact absurd (List.cons.inj heq).1 ho
    · rfl

/-- A number starts with a minus sign or a digit. -/
theorem IsNumeral.head {t : List Char} (h : IsNumeral t) :
    ∃ c cs, t = c :: cs ∧ (c = '-' ∨ Text.isDigit c = true) := by
  obtain ⟨sign, whole, fraction, exponent, rfl, hsign, ⟨hne, hall⟩, -⟩ := h
  rcases hsign with rfl | rfl
  · cases whole with
    | nil => exact absurd rfl hne
    | cons d ds => exact ⟨d, _, rfl, .inr (hall d (by simp))⟩
  · exact ⟨'-', _, rfl, .inl rfl⟩

private theorem readScalar_numeral {t rest : List Char} (h : IsNumeral t) (hrest : Ends rest) :
    readScalar (t ++ rest) = (.number t, .ok rest) := by
  have hread := readNumber_append h hrest
  obtain ⟨c, cs, rfl, hc⟩ := h.head
  have hne : ∀ c', Text.isDigit c' = false → c' ≠ '-' → c ≠ c' := by
    rintro c' hd hm rfl
    rcases hc with hc | hc
    · exact hm hc
    · rw [hd] at hc
      cases hc
  rw [List.cons_append] at hread ⊢
  rw [readScalar, if_pos (by simpa using hc), hread]
  · exact hne '"' rfl (by decide)
  · exact hne 'n' rfl (by decide)
  · exact hne 't' rfl (by decide)
  · exact hne 'f' rfl (by decide)

/-! ## Parts of a container -/

section

variable {after cs rest : List Char} {fuel : Nat}

private theorem readItems_last {item : Node} (hw : Blank after)
    (h : readNode fuel cs = (item, .ok (after ++ ']' :: rest))) :
    readItems (fuel + 1) cs = ([item], .ok rest) := by
  rw [readItems, h]
  simp only [skipSpace_append hw, skipSpace_cons (c := ']') rfl]

private theorem readItems_more {item : Node} {items : List Node} {end_ : Rest} (hw : Blank after)
    (h : readNode fuel cs = (item, .ok (after ++ ',' :: rest)))
    (hrest : readItems fuel rest = (items, end_)) :
    readItems (fuel + 1) cs = (item :: items, end_) := by
  rw [readItems, h]
  simp only [skipSpace_append hw, skipSpace_cons (c := ',') rfl, hrest]

theorem readValue_blank {between : List Char} (hm : Blank between) (fuel : Nat) (cs : List Char) :
    readValue (fuel + 1) (between ++ ':' :: cs) = readNode fuel cs := by
  rw [readValue, skipSpace_append hm, skipSpace_cons rfl]
  rfl

private theorem readMembers_last {key : String} {value : Node} {before body between : List Char}
    (hb : Blank before) (hk : Spelled key.toList body) (hm : Blank between) (hw : Blank after)
    (h : readNode fuel cs = (value, .ok (after ++ '\x7d' :: rest))) :
    readMembers (fuel + 2) (before ++ '"' :: (body ++ '"' :: (between ++ ':' :: cs))) =
      ([(some key, value)], .ok rest) := by
  rw [readMembers, skipSpace_append hb, skipSpace_cons rfl]
  simp only [readString_spelled hk {} rfl, readValue_blank hm, h, skipSpace_append hw,
    skipSpace_cons (c := '\x7d') rfl, List.reverse_nil, List.nil_append, String.ofList_toList]

private theorem readMembers_more {key : String} {value : Node} {before body between : List Char}
    {members : List (Option String × Node)} {end_ : Rest}
    (hb : Blank before) (hk : Spelled key.toList body) (hm : Blank between) (hw : Blank after)
    (h : readNode fuel cs = (value, .ok (after ++ ',' :: rest)))
    (hrest : readMembers (fuel + 1) rest = (members, end_)) :
    readMembers (fuel + 2) (before ++ '"' :: (body ++ '"' :: (between ++ ':' :: cs))) =
      ((some key, value) :: members, end_) := by
  rw [readMembers, skipSpace_append hb, skipSpace_cons rfl]
  simp only [readString_spelled hk {} rfl, readValue_blank hm, h, skipSpace_append hw,
    skipSpace_cons (c := ',') rfl, List.reverse_nil, List.nil_append, String.ofList_toList, hrest]

end

/-! ## Whole values -/

theorem skipSpace_skipSpace (cs : List Char) : skipSpace (skipSpace cs) = skipSpace cs := by
  induction cs with
  | nil => rfl
  | cons c cs ih =>
    cases hc : isSpace c with
    | true => simpa [skipSpace, hc] using ih
    | false => rw [skipSpace_cons hc, skipSpace_cons hc]

private theorem readNode_skipSpace (fuel : Nat) (cs : List Char) :
    readNode fuel (skipSpace cs) = readNode fuel cs := by
  cases fuel with
  | zero => rfl
  | succ fuel => rw [readNode, readNode, skipSpace_skipSpace]

/-- The first character of a value is no blank and closes nothing. -/
theorem Spells.head : ∀ {j : Json} {t : List Char}, Spells j t →
    ∃ c cs, t = c :: cs ∧ isSpace c = false ∧ c ≠ ']'
  | .null, _, h => ⟨_, _, h, rfl, by decide⟩
  | .bool true, _, h => ⟨_, _, h, rfl, by decide⟩
  | .bool false, _, h => ⟨_, _, h, rfl, by decide⟩
  | .number _, _, h => by
    obtain ⟨c, cs, rfl, hc⟩ := h.1.head
    refine ⟨c, cs, rfl, ?_⟩
    rcases hc with rfl | hc
    · exact ⟨rfl, by decide⟩
    · refine ⟨isSpace_of_isDigit hc, ?_⟩
      rintro rfl
      cases hc
  | .string _, _, ⟨_, _, h⟩ => ⟨_, _, h, rfl, by decide⟩
  | .array _, _, ⟨_, _, _, h, _⟩ => ⟨_, _, h, rfl, by decide⟩
  | .object _, _, ⟨_, _, _, h, _⟩ => ⟨_, _, h, rfl, by decide⟩

private theorem Spells.length_pos {j : Json} {t : List Char} (h : Spells j t) : 0 < t.length := by
  obtain ⟨c, cs, rfl, -⟩ := h.head
  simp

theorem joinWith_cons_cons (sep p q : List Char) (ps : List (List Char)) :
    joinWith sep (p :: q :: ps) = p ++ (sep ++ joinWith sep (q :: ps)) := by
  simp [joinWith]

private theorem readNode_numeral {t rest : List Char} {fuel : Nat} (h : IsNumeral t)
    (hrest : Ends rest)
    (hf : 2 * t.length ≤ fuel) : readNode fuel (t ++ rest) = (.number t, .ok rest) := by
  rw [← readScalar_numeral h hrest]
  obtain ⟨c, cs, rfl, hc⟩ := h.head
  rcases hc with rfl | hc
  · exact readNode_scalar rfl (by decide) (by decide) hf
  · refine readNode_scalar (isSpace_of_isDigit hc) ?_ ?_ hf
    · rintro rfl
      cases hc
    · rintro rfl
      cases hc

private theorem readNode_quotes {s : String} {t rest : List Char} {fuel : Nat} (h : Quotes s t)
    (hf : 2 * t.length ≤ fuel) : readNode fuel (t ++ rest) = (.string (some s), .ok rest) := by
  obtain ⟨body, hs, rfl⟩ := h
  rw [readNode_scalar rfl (by decide) (by decide) hf]
  have hread := readString_spelled hs {} rfl rest
  simp only [List.cons_append, List.append_assoc, List.nil_append, readScalar, hread,
    List.reverse_nil, String.ofList_toList]

/-- Behind its blanks a text begins with what it is padded around. -/
theorem Padded.skipSpace_ne {P : List Char → Prop} {p : List Char} {x : Char} (h : Padded P p)
    (hhead : ∀ core, P core → ∃ c cs, core = c :: cs ∧ isSpace c = false ∧ c ≠ x)
    (more r : List Char) : skipSpace (p ++ more) ≠ x :: r := by
  obtain ⟨before, core, after, hb, hcore, -, rfl⟩ := h
  obtain ⟨c, cs, rfl, hs, hx⟩ := hhead core hcore
  rw [List.append_assoc, skipSpace_append hb, List.cons_append, List.cons_append, skipSpace_cons hs]
  intro heq
  exact hx (List.cons.inj heq).1

private theorem joinWith_cons (sep p : List Char) (ps : List (List Char)) :
    ∃ more, joinWith sep (p :: ps) = p ++ more := by
  cases ps with
  | nil => exact ⟨[], by simp [joinWith]⟩
  | cons q qs => exact ⟨_, joinWith_cons_cons sep p q qs⟩

private theorem readNode_array {fuel : Nat} {body rest : List Char} {items : List Node}
    (hopen : ∀ r, skipSpace body ≠ ']' :: r) (h : readItems fuel body = (items, .ok rest)) :
    readNode (fuel + 1) ('[' :: body) = (.array items none, .ok rest) := by
  have hskip : readItems fuel (skipSpace body) = (items, .ok rest) := by
    rw [← h]
    cases fuel with
    | zero => rfl
    | succ fuel => rw [readItems, readItems, readNode_skipSpace]
  rw [readNode, skipSpace_cons rfl]
  simp only [hskip]
  rfl

private theorem readNode_object {fuel : Nat} {body rest : List Char}
    {members : List (Option String × Node)} (hopen : ∀ r, skipSpace body ≠ '\x7d' :: r)
    (h : readMembers fuel body = (members, .ok rest)) :
    readNode (fuel + 1) ('\x7b' :: body) = (.object members none, .ok rest) := by
  have hskip : readMembers fuel (skipSpace body) = (members, .ok rest) := by
    rw [← h]
    cases fuel with
    | zero => rfl
    | succ fuel => rw [readMembers, readMembers, skipSpace_skipSpace]
  rw [readNode, skipSpace_cons rfl]
  simp only [hskip]
  rfl

theorem Encloses.blank {opening closing : Char} {t : List Char}
    (h : Encloses opening closing [] t) :
    ∃ body, Blank body ∧ t = opening :: (body ++ [closing]) := by
  obtain ⟨body, ht, ⟨-, hblank⟩ | ⟨hne, -⟩⟩ := h
  · exact ⟨body, hblank, ht⟩
  · exact absurd rfl hne

theorem Encloses.join {opening closing : Char} {p t : List Char} {ps : List (List Char)}
    (h : Encloses opening closing (p :: ps) t) :
    t = opening :: (joinWith [','] (p :: ps) ++ [closing]) := by
  obtain ⟨body, rfl, ⟨hnil, -⟩ | ⟨-, rfl⟩⟩ := h
  · cases hnil
  · rfl

/-! A container takes one unit of fuel and each of its parts one more, two if it has a name. The
brackets, the commas and the colons pay for them at two units a character. -/

mutual
theorem readNode_spells : ∀ (j : Json) {t rest : List Char} {fuel : Nat}, Spells j t → Ends rest →
    2 * t.length ≤ fuel → readNode fuel (t ++ rest) = (node j, .ok rest)
  | .null, _, rest, fuel, h, _, hf => by
    subst h
    exact readNode_scalar rfl (by decide) (by decide) hf
  | .bool true, _, rest, fuel, h, _, hf => by
    subst h
    exact readNode_scalar rfl (by decide) (by decide) hf
  | .bool false, _, rest, fuel, h, _, hf => by
    subst h
    exact readNode_scalar rfl (by decide) (by decide) hf
  | .number l, t, rest, fuel, h, hr, hf => by
    obtain ⟨hn, rfl⟩ := h
    exact readNode_numeral hn hr hf
  | .string s, _, rest, fuel, h, _, hf => readNode_quotes h hf
  | .array [], _, rest, 0, h, _, hf => by
    obtain ⟨parts, rfl, ht⟩ := h
    obtain ⟨body, -, rfl⟩ := ht.blank
    simp at hf
  | .array [], _, rest, fuel + 1, h, _, _ => by
    obtain ⟨parts, rfl, ht⟩ := h
    obtain ⟨body, hblank, rfl⟩ := ht.blank
    rw [readNode, List.cons_append, skipSpace_cons rfl, List.append_assoc]
    simp only [skipSpace_append hblank]
    rfl
  | .array (x :: xs), _, rest, fuel, h, _, hf => by
    obtain ⟨parts, hxs, ht⟩ := h
    obtain ⟨p, ps, rfl, hp, -⟩ := id hxs
    obtain rfl := ht.join
    simp only [List.length_cons, List.length_append, List.length_nil] at hf
    obtain ⟨n, rfl⟩ : ∃ n, fuel = n + 1 := ⟨fuel - 1, by omega⟩
    obtain ⟨more, hmore⟩ := joinWith_cons [','] p ps
    rw [List.cons_append, List.append_assoc]
    refine readNode_array (fun r => ?_) (readItems_spells (x :: xs) hxs (by simp) (by omega))
    rw [hmore, List.append_assoc]
    exact hp.skipSpace_ne (fun _ h => h.head) _ r
  | .object [], _, rest, 0, h, _, hf => by
    obtain ⟨parts, rfl, ht⟩ := h
    obtain ⟨body, -, rfl⟩ := ht.blank
    simp at hf
  | .object [], _, rest, fuel + 1, h, _, _ => by
    obtain ⟨parts, rfl, ht⟩ := h
    obtain ⟨body, hblank, rfl⟩ := ht.blank
    rw [readNode, List.cons_append, skipSpace_cons rfl, List.append_assoc]
    simp only [skipSpace_append hblank]
    rfl
  | .object (m :: ms), _, rest, fuel, h, _, hf => by
    obtain ⟨parts, hms, ht⟩ := h
    obtain ⟨key, value, ps, rfl, hkey, -⟩ := id hms
    obtain rfl := ht.join
    simp only [List.length_cons, List.length_append, List.length_nil] at hf
    obtain ⟨n, rfl⟩ : ∃ n, fuel = n + 1 := ⟨fuel - 1, by omega⟩
    obtain ⟨more, hmore⟩ := joinWith_cons [','] (key ++ ':' :: value) ps
    rw [List.cons_append, List.append_assoc]
    refine readNode_object (fun r => ?_) (readMembers_spells (m :: ms) hms (by simp) (by omega))
    -- A name starts with a quote, so the object is not closed at once.
    rw [hmore, List.append_assoc, List.append_assoc]
    refine hkey.skipSpace_ne ?_ _ r
    rintro core ⟨body, -, rfl⟩
    exact ⟨_, _, rfl, rfl, by decide⟩

theorem readItems_spells : ∀ (xs : List Json) {parts : List (List Char)} {rest : List Char}
    {fuel : Nat}, SpellsItems xs parts → parts ≠ [] →
    2 * (joinWith [','] parts).length + 3 ≤ fuel →
    readItems fuel (joinWith [','] parts ++ ']' :: rest) = (nodes xs, .ok rest)
  | [], _, _, _, h, hne, _ => absurd h hne
  | x :: xs, _, rest, fuel, h, _, hf => by
    obtain ⟨_, ps, rfl, ⟨before, core, after, hb, hx, ha, rfl⟩, hxs⟩ := h
    obtain ⟨n, rfl⟩ : ∃ n, fuel = n + 1 := ⟨fuel - 1, by omega⟩
    have hitem (rest : List Char) (hends : Ends rest) (hn : 2 * core.length ≤ n) :
        readNode n (before ++ (core ++ (after ++ rest))) = (node x, .ok (after ++ rest)) := by
      rw [readNode_blank hb]
      exact readNode_spells x hx (ha.ends hends) hn
    cases ps with
    | nil =>
      cases xs with
      | cons y ys =>
        obtain ⟨p, ps, hps, -⟩ := hxs
        cases hps
      | nil =>
        simp only [joinWith, List.length_append] at hf
        simp only [joinWith, List.append_assoc]
        exact readItems_last ha
          (hitem _ (ends_cons rfl (by decide) (by decide) (by decide)) (by omega))
    | cons q qs =>
      rw [joinWith_cons_cons] at hf ⊢
      simp only [List.length_append, List.length_cons, List.length_nil] at hf
      simp only [List.append_assoc, List.cons_append, List.nil_append]
      have hcore := hx.length_pos
      exact readItems_more ha
        (hitem _ (ends_cons rfl (by decide) (by decide) (by decide)) (by omega))
        (readItems_spells xs hxs (by simp) (by omega))

theorem readMembers_spells : ∀ (ms : List (String × Json)) {parts : List (List Char)}
    {rest : List Char} {fuel : Nat}, SpellsMembers ms parts → parts ≠ [] →
    2 * (joinWith [','] parts).length + 3 ≤ fuel →
    readMembers fuel (joinWith [','] parts ++ '\x7d' :: rest) = (memberNodes ms, .ok rest)
  | [], _, _, _, h, hne, _ => absurd h hne
  | (k, x) :: ms, _, rest, fuel, h, _, hf => by
    obtain ⟨_, _, ps, rfl, ⟨kb, _, ka, hkb, ⟨body, hk, rfl⟩, hka, rfl⟩,
      ⟨before, core, after, hb, hx, ha, rfl⟩, hms⟩ := h
    obtain ⟨n, rfl⟩ : ∃ n, fuel = n + 2 := ⟨fuel - 2, by omega⟩
    have hvalue (rest : List Char) (hends : Ends rest) (hn : 2 * core.length ≤ n) :
        readNode n (before ++ (core ++ (after ++ rest))) = (node x, .ok (after ++ rest)) := by
      rw [readNode_blank hb]
      exact readNode_spells x hx (ha.ends hends) hn
    cases ps with
    | nil =>
      cases ms with
      | cons m ms =>
        obtain ⟨_, _, ps, hps, -⟩ := hms
        cases hps
      | nil =>
        simp only [joinWith, List.length_append, List.length_cons] at hf
        simp only [joinWith, List.append_assoc, List.cons_append, List.nil_append]
        exact readMembers_last hkb hk hka ha
          (hvalue _ (ends_cons rfl (by decide) (by decide) (by decide)) (by omega))
    | cons q qs =>
      rw [joinWith_cons_cons] at hf ⊢
      simp only [List.length_append, List.length_cons, List.length_nil] at hf
      simp only [List.append_assoc, List.cons_append, List.nil_append]
      exact readMembers_more hkb hk hka ha
        (hvalue _ (ends_cons rfl (by decide) (by decide) (by decide)) (by omega))
        (readMembers_spells ms hms (by simp) (by omega))
end

/-! ## Documents -/

/-- A text of one value, with blanks around it, is read as that value. -/
theorem decode_spells {α : Type} (read : Node → Except Fault α) {j : Json} {t : List Char}
    (h : Padded (Spells j) t) : decode read (String.ofList t) = read (node j) := by
  obtain ⟨before, core, after, hb, hj, ha, rfl⟩ := h
  have hends : Ends after := by
    rw [← List.append_nil after]
    exact ha.ends (by simp [Ends])
  have hread : readDocument (String.ofList (before ++ (core ++ after))) =
      (node j, .ok after) := by
    simp only [readDocument, String.toList_ofList]
    rw [readNode_blank hb]
    apply readNode_spells j hj hends
    simp only [List.length_append]
    omega
  have hafter : skipSpace after = [] := by
    rw [← List.append_nil after, skipSpace_append ha]
    rfl
  rw [decode, hread]
  simp only [hafter, List.isEmpty_nil, ↓reduceIte]
  cases read (node j) <;> rfl

/-- Whatever is read from a text is read from some value in it. -/
theorem exists_node_of_decode {α : Type} {read : Node → Except Fault α} {text : String} {a : α}
    (h : decode read text = .ok a) : ∃ n, read n = .ok a := by
  obtain ⟨b, hb, h⟩ := bind_eq_ok_iff.mp h
  split at h
  · split at h
    · exact ⟨_, Except.ok.inj h ▸ hb⟩
    · cases h
  · cases h

theorem decode_render {α : Type} (read : Node → Except Fault α) {j : Json} (h : j.Writable) :
    decode read j.render = read (node j) :=
  decode_spells read (padded_self (spells_compact j h))

end SuiteRunner.Json
