import SuiteRunner.Text.CaseTable

/-! # Lower case of a whole text -/
namespace SuiteRunner.Text

def isCaseIgnorable (c : Char) : Bool := inRanges caseIgnorableRanges c.toNat

def isCased (c : Char) : Bool := inRanges casedRanges c.toNat

/-- The lower-case form of one character outside any context. Only the dotted capital I has two
characters there. -/
def lowerChar (c : Char) : List Char :=
  let n := c.toNat
  if n < 0x80 then [if 'A'.toNat ≤ n ∧ n ≤ 'Z'.toNat then Char.ofNat (n + 32) else c]
  else if n = 0x130 then ['i', Char.ofNat 0x307]
  else match caseRuns.find? (·.covers n) with
    | some run => [Char.ofNat (n + run.shift).toNat]
    | none => [c]

/-- Whether the first character that is not passed over is a letter with case. -/
def leadsToCased (cs : List Char) : Bool :=
  match cs.dropWhile isCaseIgnorable with
  | c :: _ => isCased c
  | [] => false

/-- A capital sigma at the end of a word, that is after a letter and before none, gets the final
form. The characters before the current one are kept in reverse. -/
def lowerWith : List Char → List Char → List Char
  | _, [] => []
  | before, c :: cs =>
    let low :=
      if c = 'Σ' then [if leadsToCased before && !leadsToCased cs then 'ς' else 'σ'] else lowerChar c
    low ++ lowerWith (c :: before) cs

def lower (cs : List Char) : List Char := lowerWith [] cs

end SuiteRunner.Text
