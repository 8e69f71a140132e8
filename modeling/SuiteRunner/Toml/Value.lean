import SuiteRunner.Number.Binary64

/-! # TOML values and tables under construction -/
namespace SuiteRunner.Toml

inductive Value where
  | string (s : String)
  | integer (i : Int)
  | float (x : Binary64)
  | boolean (b : Bool)
  /-- A date, a time of day or both, as spelled. -/
  | datetime (spelled : String)
  | array (items : List Value)
  | table (members : List (String × Value))
deriving Repr, Inhabited

/-- How a table came about, which decides how it may be extended. -/
inductive Origin where
  /-- By a header of its own, or as the document. -/
  | header
  /-- Only as part of a longer header. -/
  | implied
  /-- By a dotted key. -/
  | dotted
deriving DecidableEq, Repr

def Origin.isImplicit : Origin → Bool
  | .header => false
  | .implied | .dotted => true

/-- A part of a document while it is read. -/
inductive Item where
  /-- Values are complete. -/
  | value (v : Value)
  | table (origin : Origin) (members : List (String × Item))
  /-- Tables given one after the other by headers in double brackets. -/
  | tables (all : List (List (String × Item)))
deriving Inhabited

abbrev Members := List (String × Item)

mutual
def Item.toValue : Item → Value
  | .value v => v
  | .table _ ms => .table (membersToValues ms)
  | .tables all => .array (tablesToValues all)

def membersToValues : List (String × Item) → List (String × Value)
  | [] => []
  | (k, i) :: ms => (k, i.toValue) :: membersToValues ms

def tablesToValues : List (List (String × Item)) → List Value
  | [] => []
  | ms :: rest => .table (membersToValues ms) :: tablesToValues rest
end

/-! ## Extending tables -/

def replace (ms : Members) (key : String) (i : Item) : Members :=
  ms.map fun m => if m.1 = key then (key, i) else m

/-- A table by its members and its origin. -/
structure Table where
  origin : Origin
  members : Members

/-- Changes the table at the end of a path and makes those on the way that are missing, with a given
origin. A dotted path may not enter a table that has a header, and of tables in double brackets the
last one is meant. -/
def Table.update (made : Origin) (change : Table → Option Table) :
    List String → Table → Option Table
  | [], t => change t
  | k :: ks, t =>
    match t.members.lookup k with
    | none => do
      let sub ← Table.update made change ks ⟨made, []⟩
      some { t with members := t.members ++ [(k, .table sub.origin sub.members)] }
    | some (.value _) => none
    | some (.table origin ms) =>
      if made = .dotted ∧ !origin.isImplicit then none
      else do
        let sub ← Table.update made change ks ⟨origin, ms⟩
        some { t with members := replace t.members k (.table sub.origin sub.members) }
    | some (.tables all) =>
      match all.getLast? with
      | none => none
      | some ms => do
        let sub ← Table.update made change ks ⟨.header, ms⟩
        some { t with members := replace t.members k (.tables (all.dropLast ++ [sub.members])) }

/-- Adds a value under a key that is still free. A dotted key ends in a table made by dotted keys, a
plain one in any other. -/
def Table.define (path : List String) (key : String) (v : Value) (t : Table) : Option Table :=
  t.update .dotted (fun t =>
    if (t.origin = .dotted) = path.isEmpty then none
    else if (t.members.lookup key).isSome then none
    else some { t with members := t.members ++ [(key, .value v)] }) path

/-- A header in single brackets: the table is new, or was only part of longer headers so far. -/
def Table.openTable (path : List String) (key : String) (t : Table) : Option Table :=
  t.update .implied (fun t =>
    match t.members.lookup key with
    | none => some { t with members := t.members ++ [(key, .table .header [])] }
    | some (.table .implied ms) =>
      some { t with members := replace t.members key (.table .header ms) }
    | some _ => none) path

/-- A header in double brackets: one more table under its key. -/
def Table.openNext (path : List String) (key : String) (t : Table) : Option Table :=
  t.update .implied (fun t =>
    match t.members.lookup key with
    | none => some { t with members := t.members ++ [(key, .tables [[]])] }
    | some (.tables all) => some { t with members := replace t.members key (.tables (all ++ [[]])) }
    | some _ => none) path

/-- Adds a value below a header. -/
def Table.defineBelow (header path : List String) (key : String) (v : Value) (t : Table) :
    Option Table :=
  t.update .implied (Table.define path key v) header

def Table.toValue (t : Table) : Value := .table (membersToValues t.members)

end SuiteRunner.Toml
