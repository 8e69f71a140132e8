import SuiteRunner.Proofs.Json.Reading

/-! # The pieces of an indented text

Put together again they are the text, and the last piece is a bracket of one byte. -/
namespace SuiteRunner.Json

/-! ## Strings and line breaks -/

private theorem escapeChar_of_not_isEscaped {c : Char} (h : isEscaped c = false) :
    escapeChar c = [c] := by
  simp only [isEscaped, Bool.or_eq_false_iff, beq_eq_false_iff_ne, decide_eq_false_iff_not] at h
  obtain ⟨⟨hquote, hslash⟩, hcontrol⟩ := h
  simp [escapeChar, hquote, hslash, hcontrol]

private theorem flatten_runs (run cs : List Char) :
    (runs run cs).flatten = run ++ cs.flatMap escapeChar := by
  have hrun (run : List Char) : (if run.isEmpty then [] else [run]).flatten = run := by
    cases run <;> simp
  induction cs generalizing run with
  | nil => rw [runs, hrun, List.flatMap_nil, List.append_nil]
  | cons c cs ih =>
    rw [runs, List.flatMap_cons]
    split
    · rw [List.flatten_append, hrun, List.flatten_cons, ih]
      rfl
    · next hplain =>
      rw [ih, escapeChar_of_not_isEscaped (by simpa using hplain), List.append_assoc]

theorem flatten_quotePieces (s : String) : (quotePieces s).flatten = quote s := by
  simp [quotePieces, flatten_runs, quote]

theorem flatten_breakPieces (first : Bool) (depth : Nat) :
    (breakPieces first depth).flatten = (if first then [] else [',']) ++ lineBreak depth := by
  have hblanks : (List.replicate depth [' ', ' ']).flatten = List.replicate (2 * depth) ' ' := by
    rw [Nat.mul_comm, ← List.flatten_replicate_replicate]
    rfl
  cases first <;> simp [breakPieces, lineBreak, hblanks]

/-- Parts on lines of their own, with a comma before each but perhaps the first. -/
def lines (depth : Nat) (first : Bool) : List (List Char) → List Char
  | [] => []
  | p :: ps => (if first then [] else [',']) ++ lineBreak depth ++ p ++ lines depth false ps

private theorem lines_eq (depth : Nat) (first : Bool) (p : List Char) (ps : List (List Char)) :
    lines depth first (p :: ps) = (if first then [] else [',']) ++ lineBreak depth ++
      joinWith (',' :: lineBreak depth) (p :: ps) := by
  induction ps generalizing first p with
  | nil => simp [lines, joinWith]
  | cons q qs ih =>
    rw [lines, ih, joinWith_cons_cons]
    simp

private theorem onLines_eq (depth : Nat) (opening closing : Char) (parts : List (List Char)) :
    onLines depth opening closing parts = opening :: lines (depth + 1) true parts ++
      (closePieces parts.isEmpty depth closing).flatten := by
  cases parts with
  | nil => rfl
  | cons p ps => simp [onLines, lines_eq, closePieces, flatten_breakPieces]

/-! ## Values -/

private theorem isEmpty_prettyItems (depth : Nat) (xs : List Json) :
    (prettyItems depth xs).isEmpty = xs.isEmpty := by
  cases xs <;> rfl

private theorem isEmpty_prettyMembers (depth : Nat) (ms : List (String × Json)) :
    (prettyMembers depth ms).isEmpty = ms.isEmpty := by
  cases ms <;> rfl

mutual
theorem flatten_prettyPieces : ∀ (j : Json) (depth : Nat),
    (j.prettyPieces depth).flatten = j.pretty depth
  | .null, _ | .bool _, _ | .number _, _ => by simp [prettyPieces, pretty]
  | .string s, _ => flatten_quotePieces s
  | .array xs, depth => by
    rw [prettyPieces, pretty, onLines_eq, isEmpty_prettyItems, ← flatten_itemPieces xs]
    simp
  | .object ms, depth => by
    rw [prettyPieces, pretty, onLines_eq, isEmpty_prettyMembers, ← flatten_memberPieces ms]
    simp

theorem flatten_itemPieces : ∀ (xs : List Json) (depth : Nat) (first : Bool),
    (itemPieces depth first xs).flatten = lines depth first (prettyItems depth xs)
  | [], _, _ => rfl
  | x :: xs, depth, first => by
    rw [itemPieces, prettyItems, lines, List.flatten_append, List.flatten_append,
      flatten_breakPieces, flatten_prettyPieces x, flatten_itemPieces xs]

theorem flatten_memberPieces : ∀ (ms : List (String × Json)) (depth : Nat) (first : Bool),
    (memberPieces depth first ms).flatten = lines depth first (prettyMembers depth ms)
  | [], _, _ => rfl
  | (k, x) :: ms, depth, first => by
    rw [memberPieces, prettyMembers, lines, List.flatten_append, List.flatten_append,
      List.flatten_append, List.flatten_cons, flatten_breakPieces, flatten_quotePieces,
      flatten_prettyPieces x, flatten_memberPieces ms]
    simp
end

theorem exists_prettyPieces_concat (ms : List (String × Json)) (depth : Nat) :
    ∃ ps, (object ms).prettyPieces depth = ps ++ [['\x7d']] := by
  rw [prettyPieces, closePieces, ← List.append_assoc]
  exact ⟨_, rfl⟩

end SuiteRunner.Json
