import SuiteRunner.Toml.Scalar

/-! # TOML documents -/
namespace SuiteRunner.Toml

/-! ## Values -/

/-- A comment from behind its mark, up to the end of the line. -/
def skipComment (cs : List Char) : List Char := cs.dropWhile isPrintable

/-- Blanks, comments and line breaks between the items of an array. -/
def skipLines : Nat → List Char → List Char
  | 0, cs => cs
  | n + 1, cs =>
    match skipSpace cs with
    | '#' :: cs =>
      match skipComment cs with
      | '\n' :: cs => skipLines n cs
      | cs => cs
    | '\n' :: cs => skipLines n cs
    | cs => cs

def word (w : String) (v : Value) (cs : List Char) : Option (Value × List Char) :=
  if w.toList.isPrefixOf cs then some (v, cs.drop w.length) else none

mutual
/-- A value inside `depth` arrays and inline tables. The fuel bounds the number of parts. -/
def value : Nat → Nat → Reader Value
  | 0, _, _ => none
  | fuel + 1, depth, cs =>
    match cs with
    | '"' :: cs => (stringValue '"' cs).map fun (s, rest) => (.string s, rest)
    | '\'' :: cs => (stringValue '\'' cs).map fun (s, rest) => (.string s, rest)
    | '[' :: cs =>
      if maxDepth ≤ depth + 1 then none
      else (arrayItems fuel (depth + 1) cs).map fun (vs, rest) => (.array vs, rest)
    | '\x7b' :: cs =>
      if maxDepth ≤ depth + 1 then none
      else
        match skipSpace cs with
        | '\x7d' :: rest => some (.table [], rest)
        | cs => (inlineMembers fuel (depth + 1) ⟨.header, []⟩ cs).map fun (t, rest) =>
          (t.toValue, rest)
    | 't' :: _ => word "true" (.boolean true) cs
    | 'f' :: _ => word "false" (.boolean false) cs
    | cs => numberOrDate cs

/-- Items up to the closing bracket; a comma may follow the last one. -/
def arrayItems : Nat → Nat → Reader (List Value)
  | 0, _, _ => none
  | fuel + 1, depth, cs =>
    match skipLines (cs.length + 1) cs with
    | ']' :: rest => some ([], rest)
    | cs => do
      let (v, cs) ← value fuel depth cs
      match skipLines (cs.length + 1) cs with
      | ',' :: cs =>
        let (vs, rest) ← arrayItems fuel depth cs
        some (v :: vs, rest)
      | ']' :: rest => some ([v], rest)
      | _ => none

/-- Members of an inline table that has at least one more, up to the closing bracket. -/
def inlineMembers : Nat → Nat → Table → Reader Table
  | 0, _, _, _ => none
  | fuel + 1, depth, t, cs => do
    let ((path, key), cs) ← dottedKey cs
    let cs ← mark '=' cs
    let (v, cs) ← value fuel depth (skipSpace cs)
    let t ← t.define path key v
    match skipSpace cs with
    | ',' :: cs => inlineMembers fuel depth t cs
    | '\x7d' :: rest => some (t, rest)
    | _ => none
end

/-! ## Lines -/

/-- The rest of a line may hold a comment. -/
def endOfLine (cs : List Char) : Option (List Char) :=
  let cs := match skipSpace cs with
    | '#' :: cs => skipComment cs
    | cs => cs
  match cs with
  | [] => some []
  | '\n' :: cs => some cs
  | _ => none

/-- A document so far, and the header that is in force. -/
structure DocumentDraft where
  root : Table := ⟨.header, []⟩
  header : List String := []

def headerLine (d : DocumentDraft) (cs : List Char) : Option (DocumentDraft × List Char) := do
  match cs with
  | '[' :: cs =>
    let ((path, key), cs) ← dottedKey cs
    let rest ← endOfLine (← mark ']' (← mark ']' cs))
    some (⟨← d.root.openNext path key, path ++ [key]⟩, rest)
  | cs =>
    let ((path, key), cs) ← dottedKey cs
    let rest ← endOfLine (← mark ']' cs)
    some (⟨← d.root.openTable path key, path ++ [key]⟩, rest)

def keyLine (d : DocumentDraft) (cs : List Char) : Option (DocumentDraft × List Char) := do
  let ((path, key), cs) ← dottedKey cs
  let cs ← mark '=' cs
  let (v, cs) ← value (2 * cs.length + 2) 0 (skipSpace cs)
  let rest ← endOfLine cs
  some ({ d with root := ← d.root.defineBelow d.header path key v }, rest)

/-- Line after line; the fuel bounds their number. -/
def lines : Nat → DocumentDraft → List Char → Option DocumentDraft
  | 0, _, _ => none
  | fuel + 1, d, cs =>
    match skipSpace cs with
    | [] => some d
    | '\n' :: rest => lines fuel d rest
    | '#' :: rest => do lines fuel d (← endOfLine ('#' :: rest))
    | '[' :: rest => do
      let (d, rest) ← headerLine d rest
      lines fuel d rest
    | cs => do
      let (d, rest) ← keyLine d cs
      lines fuel d rest

/-- Line feeds take in a carriage return before them. -/
def joinLineEnds : List Char → List Char
  | '\r' :: '\n' :: cs => '\n' :: joinLineEnds cs
  | c :: cs => c :: joinLineEnds cs
  | [] => []

def dropMark (cs : List Char) : List Char :=
  match cs with
  | c :: rest => if c = Char.ofNat 0xFEFF then rest else cs
  | [] => []

/-- The table that a text spells, if it is well formed. -/
def read? (text : String) : Option Value := do
  let cs := joinLineEnds (dropMark text.toList)
  let d ← lines (cs.length + 1) {} cs
  some d.root.toValue

end SuiteRunner.Toml
