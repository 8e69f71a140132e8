import SuiteRunner.Proofs.Traverse
import SuiteRunner.Text.Utf8

/-! # Valid bytes are the bytes of their text -/
namespace SuiteRunner.Text.Utf8

theorem toNat_val_ofNat {n : Nat} (h : n.isValidChar) : (Char.ofNat n).val.toNat = n := by
  have hchar : Char.ofNat n = Char.ofNatAux n h := dif_pos h
  rw [hchar]
  rfl

section

variable {n : Nat} {b₁ b₂ b₃ b₄ : Byte}

theorem ofNat_eq_byte {b : Byte} {m : Nat} (h : b.toNat = m) : UInt8.ofNat m = b := by
  rw [← h, UInt8.ofNat_toNat]

theorem encodeChar_one (h : n < 0x80) (h₁ : b₁.toNat = n) :
    String.utf8EncodeChar (Char.ofNat n) = [b₁] := by
  have hn := toNat_val_ofNat (n := n) (.inl (by omega))
  simp only [String.utf8EncodeChar, hn]
  rw [if_pos (by omega), ofNat_eq_byte h₁]

theorem encodeChar_two (h : 0x80 ≤ n) (h' : n < 0x800) (h₁ : b₁.toNat = n / 64 + 0xC0)
    (h₂ : b₂.toNat = n % 64 + 0x80) : String.utf8EncodeChar (Char.ofNat n) = [b₁, b₂] := by
  have hn := toNat_val_ofNat (n := n) (.inl (by omega))
  simp only [String.utf8EncodeChar, hn]
  rw [if_neg (by omega), if_pos (by omega), ofNat_eq_byte (b := b₁) (by omega), ofNat_eq_byte h₂]

theorem encodeChar_three (h : 0x800 ≤ n) (h' : n < 0xD800 ∨ 0xDFFF < n ∧ n < 0x10000)
    (h₁ : b₁.toNat = n / 4096 + 0xE0) (h₂ : b₂.toNat = n / 64 % 64 + 0x80)
    (h₃ : b₃.toNat = n % 64 + 0x80) : String.utf8EncodeChar (Char.ofNat n) = [b₁, b₂, b₃] := by
  have hvalid : n.isValidChar := by
    unfold Nat.isValidChar
    omega
  simp only [String.utf8EncodeChar, toNat_val_ofNat hvalid]
  rw [if_neg (by omega), if_neg (by omega), if_pos (by omega), ofNat_eq_byte (b := b₁) (by omega),
    ofNat_eq_byte h₂, ofNat_eq_byte h₃]

theorem encodeChar_four (h : 0x10000 ≤ n) (h' : n < 0x110000)
    (h₁ : b₁.toNat = n / 262144 + 0xF0) (h₂ : b₂.toNat = n / 4096 % 64 + 0x80)
    (h₃ : b₃.toNat = n / 64 % 64 + 0x80) (h₄ : b₄.toNat = n % 64 + 0x80) :
    String.utf8EncodeChar (Char.ofNat n) = [b₁, b₂, b₃, b₄] := by
  have hvalid : n.isValidChar := .inr ⟨by omega, h'⟩
  simp only [String.utf8EncodeChar, toNat_val_ofNat hvalid]
  rw [if_neg (by omega), if_neg (by omega), if_neg (by omega), ofNat_eq_byte (b := b₁) (by omega),
    ofNat_eq_byte h₂, ofNat_eq_byte h₃, ofNat_eq_byte h₄]

end

/-! ## Scanning -/

/-- A byte inside a character continues it or ends it. -/
theorem scan_inside {value need low high : Nat} {bs : List Byte} {cs : List Char}
    (h : scan (.inside value need low high) bs = cs.map some) :
    ∃ b rest, bs = b :: rest ∧ low ≤ b.toNat ∧ b.toNat ≤ high ∧
      (need ≤ 1 → ∃ cs', cs = Char.ofNat (64 * value + (b.toNat - 0x80)) :: cs' ∧
        scan .ground rest = cs'.map some) ∧
      (1 < need → scan (.inside (64 * value + (b.toNat - 0x80)) (need - 1) 0x80 0xBF) rest =
        cs.map some) := by
  cases bs with
  | nil => cases cs <;> simp [scan] at h
  | cons b rest =>
    refine ⟨b, rest, rfl, ?_⟩
    simp only [scan, State.next] at h
    by_cases hb : low ≤ b.toNat ∧ b.toNat ≤ high
    · rw [if_pos hb] at h
      refine ⟨hb.1, hb.2, fun hneed => ?_, fun hneed => ?_⟩
      · rw [if_pos hneed] at h
        cases cs with
        | nil => simp at h
        | cons c cs' =>
          simp only [List.cons_append, List.nil_append, List.map_cons, List.cons.injEq,
            Option.some.injEq] at h
          exact ⟨cs', by rw [h.1], h.2⟩
      · rw [if_neg (by omega)] at h
        exact h
    · rw [if_neg hb] at h
      cases cs <;> simp at h

theorem scan_two {value low high : Nat} {bs : List Byte} {cs : List Char}
    (h : scan (.inside value 2 low high) bs = cs.map some) :
    ∃ b₂ b₃ rest cs', bs = b₂ :: b₃ :: rest ∧ low ≤ b₂.toNat ∧ b₂.toNat ≤ high ∧
      0x80 ≤ b₃.toNat ∧ b₃.toNat ≤ 0xBF ∧ scan .ground rest = cs'.map some ∧
      cs = Char.ofNat (64 * (64 * value + (b₂.toNat - 0x80)) + (b₃.toNat - 0x80)) :: cs' := by
  obtain ⟨b₂, rest, rfl, hl, hh, -, h⟩ := scan_inside h
  obtain ⟨b₃, rest, rfl, hl', hh', h, -⟩ := scan_inside (h (by omega))
  obtain ⟨cs', rfl, hrest⟩ := h (by omega)
  exact ⟨b₂, b₃, rest, cs', rfl, hl, hh, hl', hh', hrest, rfl⟩

/-- The first of these characters is written with this byte and some more. -/
def Leads (b : Byte) (bs : List Byte) (cs : List Char) : Prop :=
  ∃ c cs' tail rest, cs = c :: cs' ∧ bs = tail ++ rest ∧
    String.utf8EncodeChar c = b :: tail ∧ scan .ground rest = cs'.map some

section

variable {b : Byte} {bs : List Byte} {cs : List Char} {value low high : Nat}

private theorem leads_three (h : scan (.inside value 2 low high) bs = cs.map some)
    (hb : b.toNat = value + 0xE0) (hlt : value < 16) (hlow : 0x80 ≤ low) (hhigh : high ≤ 0xBF)
    (hmin : value = 0 → 0xA0 ≤ low) (hsur : value = 13 → high ≤ 0x9F) : Leads b bs cs := by
  obtain ⟨b₂, b₃, rest, cs', rfl, hl, hh, hl', hh', hrest, rfl⟩ := scan_two h
  refine ⟨_, cs', [b₂, b₃], rest, rfl, rfl, ?_, hrest⟩
  apply encodeChar_three <;> omega

private theorem leads_four (h : scan (.inside value 3 low high) bs = cs.map some)
    (hb : b.toNat = value + 0xF0) (hlt : value < 5) (hlow : 0x80 ≤ low) (hhigh : high ≤ 0xBF)
    (hmin : value = 0 → 0x90 ≤ low) (hmax : value = 4 → high ≤ 0x8F) : Leads b bs cs := by
  obtain ⟨b₂, rest, rfl, hl, hh, -, h⟩ := scan_inside h
  obtain ⟨b₃, b₄, rest, cs', rfl, hl', hh', hl'', hh'', hrest, rfl⟩ := scan_two (h (by omega))
  refine ⟨_, cs', [b₂, b₃, b₄], rest, rfl, rfl, ?_, hrest⟩
  apply encodeChar_four <;> omega

private theorem leads_of_scan (h : scan .ground (b :: bs) = cs.map some) : Leads b bs cs := by
  have hlt : b.toNat < 256 := b.toNat_lt
  -- The cases are the ranges of the first byte, in the order of `State.enter`.
  simp only [scan, State.next, State.enter] at h
  split at h
  · cases cs with
    | nil => simp at h
    | cons c cs' =>
      simp only [List.cons_append, List.nil_append, List.map_cons, List.cons.injEq,
        Option.some.injEq] at h
      refine ⟨c, cs', [], bs, rfl, rfl, ?_, h.2⟩
      rw [← h.1]
      apply encodeChar_one <;> omega
  split at h
  · cases cs <;> simp at h
  split at h
  · obtain ⟨b₂, rest, rfl, hl, hh, h, -⟩ := scan_inside h
    obtain ⟨cs', rfl, hrest⟩ := h (by omega)
    refine ⟨_, cs', [b₂], rest, rfl, rfl, ?_, hrest⟩
    apply encodeChar_two <;> omega
  split at h
  · exact leads_three h (by omega) (by omega) (by omega) (by omega) (by omega) (by omega)
  split at h
  · exact leads_three h (by omega) (by omega) (by omega) (by omega) (by omega) (by omega)
  split at h
  · exact leads_three h (by omega) (by omega) (by omega) (by omega) (by omega) (by omega)
  split at h
  · exact leads_four h (by omega) (by omega) (by omega) (by omega) (by omega) (by omega)
  split at h
  · exact leads_four h (by omega) (by omega) (by omega) (by omega) (by omega) (by omega)
  split at h
  · exact leads_four h (by omega) (by omega) (by omega) (by omega) (by omega) (by omega)
  · cases cs <;> simp at h

end

private theorem encodeChars_of_scan {bs : List Byte} {cs : List Char}
    (h : scan .ground bs = cs.map some) : encodeChars cs = bs := by
  induction cs generalizing bs with
  | nil =>
    cases bs with
    | nil => rfl
    | cons b bs =>
      obtain ⟨c, cs', tail, rest, hcs, -⟩ := leads_of_scan h
      cases hcs
  | cons c cs ih =>
    cases bs with
    | nil => simp [scan] at h
    | cons b bs =>
      obtain ⟨c', cs', tail, rest, hcs, rfl, hc, hrest⟩ := leads_of_scan h
      cases hcs
      rw [encodeChars, List.flatMap_cons, hc, ← encodeChars, ih hrest]
      rfl

/-- Bytes that can be read as text are what the text is written as. -/
theorem encode_of_decode? {bs : List Byte} {s : String} (h : decode? bs = some s) :
    encode s = bs := by
  obtain ⟨cs, hcs, rfl⟩ := Option.map_eq_some_iff.mp h
  have hscan : List.Forall₂ (· = ·) (scan .ground bs) (cs.map some) :=
    List.forall₂_map_right_iff.mpr (mapM_eq_some_iff.mp hcs)
  rw [List.forall₂_eq_eq_eq] at hscan
  rw [encode, String.toList_ofList]
  exact encodeChars_of_scan hscan

/-! ## The bytes of a text are read back -/

theorem scan_enter {b : Byte} {state : State} (h : State.enter b.toNat = ([], state))
    (bs : List Byte) : scan .ground (b :: bs) = scan state bs := by
  simp [scan, State.next, h]

theorem scan_last {value low high : Nat} {b : Byte} (hl : low ≤ b.toNat) (hh : b.toNat ≤ high)
    (bs : List Byte) : scan (.inside value 1 low high) (b :: bs) =
      some (Char.ofNat (64 * value + (b.toNat - 0x80))) :: scan .ground bs := by
  simp [scan, State.next, hl, hh]

theorem scan_more {value need low high : Nat} {b : Byte} (hneed : 1 < need) (hl : low ≤ b.toNat)
    (hh : b.toNat ≤ high) (bs : List Byte) : scan (.inside value need low high) (b :: bs) =
      scan (.inside (64 * value + (b.toNat - 0x80)) (need - 1) 0x80 0xBF) bs := by
  simp [scan, State.next, hl, hh, Nat.not_le.mpr hneed]

private theorem enter_three {v m : Nat} (hv : v < 16) (hl : 0x80 ≤ m) (hh : m ≤ 0xBF)
    (hmin : v = 0 → 0xA0 ≤ m) (hsur : v = 13 → m ≤ 0x9F) :
    ∃ low high, State.enter (v + 0xE0) = ([], .inside v 2 low high) ∧ low ≤ m ∧ m ≤ high := by
  by_cases h0 : v = 0
  · subst h0
    exact ⟨0xA0, 0xBF, rfl, hmin rfl, hh⟩
  by_cases h13 : v = 13
  · subst h13
    exact ⟨0x80, 0x9F, rfl, hl, hsur rfl⟩
  · refine ⟨0x80, 0xBF, ?_, hl, hh⟩
    unfold State.enter
    rw [if_neg (by omega), if_neg (by omega), if_neg (by omega), if_neg (by omega),
      if_neg (by omega), if_pos (by omega), Nat.add_sub_cancel]

private theorem enter_four {v m : Nat} (hv : v < 5) (hl : 0x80 ≤ m) (hh : m ≤ 0xBF)
    (hmin : v = 0 → 0x90 ≤ m) (hmax : v = 4 → m ≤ 0x8F) :
    ∃ low high, State.enter (v + 0xF0) = ([], .inside v 3 low high) ∧ low ≤ m ∧ m ≤ high := by
  by_cases h0 : v = 0
  · subst h0
    exact ⟨0x90, 0xBF, rfl, hmin rfl, hh⟩
  by_cases h4 : v = 4
  · subst h4
    exact ⟨0x80, 0x8F, rfl, hl, hmax rfl⟩
  · refine ⟨0x80, 0xBF, ?_, hl, hh⟩
    unfold State.enter
    rw [if_neg (by omega), if_neg (by omega), if_neg (by omega), if_neg (by omega),
      if_neg (by omega), if_neg (by omega), if_neg (by omega), if_pos (by omega),
      Nat.add_sub_cancel]

private theorem scan_encodeChar_two {n : Nat} (h : 0x80 ≤ n) (h' : n < 0x800) (rest : List Byte) :
    scan .ground (String.utf8EncodeChar (Char.ofNat n) ++ rest) =
      some (Char.ofNat n) :: scan .ground rest := by
  have hb₁ := UInt8.toNat_ofNat_of_lt' (show n / 64 + 0xC0 < 256 by omega)
  have hb₂ := UInt8.toNat_ofNat_of_lt' (show n % 64 + 0x80 < 256 by omega)
  have henter : State.enter (n / 64 + 0xC0) = ([], .inside (n / 64) 1 0x80 0xBF) := by
    unfold State.enter
    rw [if_neg (by omega), if_neg (by omega), if_pos (by omega), Nat.add_sub_cancel]
  rw [encodeChar_two h h' hb₁ hb₂, List.cons_append, scan_enter (hb₁ ▸ henter),
    List.singleton_append, scan_last (by omega) (by omega), hb₂, Nat.add_sub_cancel,
    Nat.div_add_mod]

private theorem scan_encodeChar_three {n : Nat} (h : 0x800 ≤ n)
    (h' : n < 0xD800 ∨ 0xDFFF < n ∧ n < 0x10000) (rest : List Byte) :
    scan .ground (String.utf8EncodeChar (Char.ofNat n) ++ rest) =
      some (Char.ofNat n) :: scan .ground rest := by
  have hb₁ := UInt8.toNat_ofNat_of_lt' (show n / 4096 + 0xE0 < 256 by omega)
  have hb₂ := UInt8.toNat_ofNat_of_lt' (show n / 64 % 64 + 0x80 < 256 by omega)
  have hb₃ := UInt8.toNat_ofNat_of_lt' (show n % 64 + 0x80 < 256 by omega)
  obtain ⟨low, high, henter, hlow, hhigh⟩ := enter_three (v := n / 4096)
    (m := n / 64 % 64 + 0x80) (by omega) (by omega) (by omega) (by omega) (by omega)
  have hvalue : 64 * (64 * (n / 4096) + (n / 64 % 64 + 0x80 - 0x80)) +
      (n % 64 + 0x80 - 0x80) = n := by omega
  rw [encodeChar_three h h' hb₁ hb₂ hb₃, List.cons_append, scan_enter (hb₁ ▸ henter),
    List.cons_append, scan_more (by omega) (by omega) (by omega), List.singleton_append,
    scan_last (by omega) (by omega), hb₂, hb₃, hvalue]

private theorem scan_encodeChar_four {n : Nat} (h : 0x10000 ≤ n) (h' : n < 0x110000)
    (rest : List Byte) : scan .ground (String.utf8EncodeChar (Char.ofNat n) ++ rest) =
      some (Char.ofNat n) :: scan .ground rest := by
  have hb₁ := UInt8.toNat_ofNat_of_lt' (show n / 262144 + 0xF0 < 256 by omega)
  have hb₂ := UInt8.toNat_ofNat_of_lt' (show n / 4096 % 64 + 0x80 < 256 by omega)
  have hb₃ := UInt8.toNat_ofNat_of_lt' (show n / 64 % 64 + 0x80 < 256 by omega)
  have hb₄ := UInt8.toNat_ofNat_of_lt' (show n % 64 + 0x80 < 256 by omega)
  obtain ⟨low, high, henter, hlow, hhigh⟩ := enter_four (v := n / 262144)
    (m := n / 4096 % 64 + 0x80) (by omega) (by omega) (by omega) (by omega) (by omega)
  have hvalue : 64 * (64 * (64 * (n / 262144) + (n / 4096 % 64 + 0x80 - 0x80)) +
      (n / 64 % 64 + 0x80 - 0x80)) + (n % 64 + 0x80 - 0x80) = n := by omega
  rw [encodeChar_four h h' hb₁ hb₂ hb₃ hb₄, List.cons_append, scan_enter (hb₁ ▸ henter),
    List.cons_append, scan_more (by omega) (by omega) (by omega), List.cons_append,
    scan_more (by omega) (by omega) (by omega), List.singleton_append,
    scan_last (by omega) (by omega), hb₂, hb₃, hb₄, hvalue]

/-- A character is scanned from its own bytes, whatever follows them. -/
theorem scan_encodeChar (c : Char) (rest : List Byte) :
    scan .ground (String.utf8EncodeChar c ++ rest) = some c :: scan .ground rest := by
  obtain ⟨n, hvalid, rfl⟩ : ∃ n : Nat, n.isValidChar ∧ c = Char.ofNat n :=
    ⟨c.toNat, c.valid, (Char.ofNat_toNat c).symm⟩
  have hrange : n < 0xD800 ∨ 0xDFFF < n ∧ n < 0x110000 := hvalid
  rcases Nat.lt_or_ge n 0x80 with h₁ | h₁
  · have hb := UInt8.toNat_ofNat_of_lt' (show n < 256 by omega)
    rw [encodeChar_one h₁ hb, List.singleton_append, scan]
    simp only [State.next, State.enter, hb, if_pos h₁]
    rfl
  rcases Nat.lt_or_ge n 0x800 with h₂ | h₂
  · exact scan_encodeChar_two h₁ h₂ rest
  rcases Nat.lt_or_ge n 0x10000 with h₃ | h₃
  · exact scan_encodeChar_three h₂ (by omega) rest
  · exact scan_encodeChar_four h₃ (by omega) rest

theorem scan_encodeChars (cs : List Char) : scan .ground (encodeChars cs) = cs.map some := by
  induction cs with
  | nil => rfl
  | cons c cs ih =>
    rw [encodeChars, List.flatMap_cons, scan_encodeChar, ← encodeChars, ih, List.map_cons]

theorem decode?_encode (s : String) : decode? (encode s) = some s := by
  have hmap : (s.toList.map some).mapM id = some s.toList := by
    rw [mapM_eq_some_iff, List.forall₂_map_left_iff]
    exact List.forall₂_same.mpr fun c _ => rfl
  rw [decode?, encode, scan_encodeChars, hmap, Option.map_some, String.ofList_toList]

theorem encode_injective : Function.Injective encode := by
  intro s t h
  exact Option.some.inj ((decode?_encode s).symm.trans (h ▸ decode?_encode t))

/-- Bytes can be read as text exactly if they are valid UTF-8. -/
theorem decode?_isSome_iff {bs : List Byte} :
    (decode? bs).isSome = true ↔ bs.toByteArray.IsValidUTF8 := by
  constructor
  · intro h
    obtain ⟨s, hs⟩ := Option.isSome_iff_exists.mp h
    exact ⟨s.toList, by rw [← encode_of_decode? hs]; rfl⟩
  · rintro ⟨cs, hcs⟩
    have hbs : bs = encode (String.ofList cs) := by
      rw [encode, String.toList_ofList]
      exact List.toByteArray_inj.mp hcs
    rw [hbs, decode?_encode]
    rfl

theorem encode_decodeLossy {bs : List Byte} (h : bs.toByteArray.IsValidUTF8) :
    encode (decodeLossy bs) = bs := by
  obtain ⟨s, hs⟩ := Option.isSome_iff_exists.mp (decode?_isSome_iff.mpr h)
  obtain rfl := encode_of_decode? hs
  have hscan : scan .ground (encode s) = s.toList.map some := scan_encodeChars s.toList
  rw [decodeLossy, hscan]
  simp [Function.comp_def]

end SuiteRunner.Text.Utf8
