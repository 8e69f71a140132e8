import SuiteRunner.Proofs.Json.Reading

/-! # Texts on several lines

The line breaks and blanks of an indented text all stand between tokens, so it is one more text of
its value and is read as such. -/
namespace SuiteRunner.Json

/-! ## Blanks around parts -/

theorem blank_nil : Blank [] := by simp [Blank]

theorem Blank.append {v w : List Char} (hv : Blank v) (hw : Blank w) : Blank (v ++ w) := by
  intro c hc
  rcases List.mem_append.mp hc with hc | hc
  · exact hv c hc
  · exact hw c hc

private theorem blank_lineBreak (depth : Nat) : Blank (lineBreak depth) := by
  intro c hc
  rcases List.mem_cons.mp hc with rfl | hc
  · rfl
  · rw [List.eq_of_mem_replicate hc]
    rfl

theorem Padded.indent {P : List Char → Prop} {before t after : List Char} (h : Padded P t)
    (hb : Blank before) (ha : Blank after) : Padded P (before ++ (t ++ after)) := by
  obtain ⟨before', core, after', hb', hcore, ha', rfl⟩ := h
  exact ⟨before ++ before', core, after' ++ after, hb.append hb', hcore, ha'.append ha, by simp⟩

/-- Parts with the same blanks before each of them and others after the last. -/
def indented (before after : List Char) : List (List Char) → List (List Char)
  | [] => []
  | [p] => [before ++ (p ++ after)]
  | p :: ps => (before ++ (p ++ [])) :: indented before after ps

private theorem joinWith_indented (before after p : List Char) (ps : List (List Char)) :
    joinWith [','] (indented before after (p :: ps)) =
      before ++ (joinWith (',' :: before) (p :: ps) ++ after) := by
  induction ps generalizing p with
  | nil => rfl
  | cons q qs ih =>
    obtain ⟨r, rs, hrs⟩ : ∃ r rs, indented before after (q :: qs) = r :: rs := by
      cases qs <;> exact ⟨_, _, rfl⟩
    rw [indented, hrs, joinWith_cons_cons, ← hrs, ih, joinWith_cons_cons]
    · simp
    · simp

section

variable {before after : List Char} (hb : Blank before) (ha : Blank after)

include hb ha

theorem SpellsItems.indented : ∀ {xs : List Json} {parts : List (List Char)},
    SpellsItems xs parts → SpellsItems xs (indented before after parts)
  | [], _, rfl => rfl
  | [_], _, ⟨_, _, rfl, hx, rfl⟩ => ⟨_, _, rfl, hx.indent hb ha, rfl⟩
  | _ :: _ :: _, _, ⟨_, _, rfl, hx, hxs⟩ => by
    obtain ⟨q, qs, rfl, -⟩ := id hxs
    exact ⟨_, _, rfl, hx.indent hb blank_nil, hxs.indented⟩

theorem SpellsMembers.indented : ∀ {ms : List (String × Json)} {parts : List (List Char)},
    SpellsMembers ms parts → SpellsMembers ms (indented before after parts)
  | [], _, rfl => rfl
  | [_], _, ⟨key, value, _, rfl, hk, hx, rfl⟩ =>
    ⟨before ++ (key ++ []), [] ++ (value ++ after), _, by simp [Json.indented],
      hk.indent hb blank_nil, hx.indent blank_nil ha, rfl⟩
  | _ :: _ :: _, _, ⟨key, value, _, rfl, hk, hx, hms⟩ => by
    obtain ⟨key', value', qs, rfl, -⟩ := id hms
    exact ⟨before ++ (key ++ []), value, _, by simp [Json.indented], hk.indent hb blank_nil, hx,
      hms.indented⟩

end

private theorem encloses_onLines (depth : Nat) (opening closing : Char) (parts : List (List Char)) :
    Encloses opening closing (indented (lineBreak (depth + 1)) (lineBreak depth) parts)
      (onLines depth opening closing parts) := by
  cases parts with
  | nil => exact ⟨[], rfl, .inl ⟨rfl, blank_nil⟩⟩
  | cons p ps =>
    refine ⟨_, ?_, .inr ⟨?_, rfl⟩⟩
    · rw [joinWith_indented]
      simp [onLines]
    · cases ps <;> simp [indented]

/-! ## Values -/

mutual
theorem spells_pretty : ∀ (j : Json) (depth : Nat), j.Writable → Spells j (j.pretty depth)
  | .null, _, _ => rfl
  | .bool _, _, _ => rfl
  | .number _, _, h => ⟨h, rfl⟩
  | .string s, _, _ => quotes_quote s
  | .array xs, depth, h =>
    ⟨_, (spellsItems_pretty xs (depth + 1) h).indented (blank_lineBreak _) (blank_lineBreak _),
      encloses_onLines _ _ _ _⟩
  | .object ms, depth, h =>
    ⟨_, (spellsMembers_pretty ms (depth + 1) h).indented (blank_lineBreak _) (blank_lineBreak _),
      encloses_onLines _ _ _ _⟩

theorem spellsItems_pretty : ∀ (xs : List Json) (depth : Nat), WritableItems xs →
    SpellsItems xs (prettyItems depth xs)
  | [], _, _ => rfl
  | x :: xs, depth, h =>
    ⟨_, _, rfl, padded_self (spells_pretty x depth h.1), spellsItems_pretty xs depth h.2⟩

theorem spellsMembers_pretty : ∀ (ms : List (String × Json)) (depth : Nat), WritableMembers ms →
    SpellsMembers ms (prettyMembers depth ms)
  | [], _, _ => rfl
  | (k, x) :: ms, depth, h => by
    have hspace : Blank [' '] := by simp [Blank, isSpace]
    have hx := (padded_self (spells_pretty x depth h.1)).indent hspace blank_nil
    rw [List.append_nil] at hx
    exact ⟨_, _, _, rfl, padded_self (quotes_quote k), hx, spellsMembers_pretty ms depth h.2⟩
end

theorem decode_renderPretty {α : Type} (read : Node → Except Fault α) {j : Json} (h : j.Writable) :
    decode read j.renderPretty = read (node j) :=
  decode_spells read (padded_self (spells_pretty j 0 h))

end SuiteRunner.Json
