import SuiteRunner.Path

/-! # A file system in memory

Directories, files and symbolic links, stored under their locations. Paths are resolved name by name
and links are followed, at most forty on one path. -/
namespace SuiteRunner

open Text.Utf8 (Byte)

/-- The names from the root down to an entry that is reached without links. -/
abbrev Location := List Name

inductive FileSystem.Entry where
  | file (content : List Byte)
  | directory
  | link (target : Path)
  /-- Takes whatever is written to it and never holds anything. -/
  | void
  /-- Can be opened for writing, but keeps its content and refuses every byte. -/
  | sealed (content : List Byte)
deriving DecidableEq, Repr, Inhabited

/-- What may be forbidden in a directory: to list its names, or to reach anything in it. -/
inductive FileSystem.Right where
  | list
  | search
deriving DecidableEq, Repr, Inhabited

/-- The order of the entries is the order in which a directory lists its own. Relative paths start
at `cwd`. -/
structure FileSystem where
  entries : List (Location × FileSystem.Entry) := []
  cwd : Location := []
  forbidden : List (Location × FileSystem.Right) := []
deriving Repr, Inhabited

namespace FileSystem

inductive Fault where
  | missing
  | denied
  | alreadyThere
  | notADirectory
  | isADirectory
  | nameTooLong
  | tooManyLinks
  | zeroByte
  | invalidArgument
  | noSpace
deriving DecidableEq, Repr, Inhabited

def Fault.message : Fault → String
  | .missing => "No such file or directory (os error 2)"
  | .denied => "Permission denied (os error 13)"
  | .alreadyThere => "File exists (os error 17)"
  | .notADirectory => "Not a directory (os error 20)"
  | .isADirectory => "Is a directory (os error 21)"
  | .nameTooLong => "File name too long (os error 36)"
  | .tooManyLinks => "Too many levels of symbolic links (os error 40)"
  | .zeroByte => "file name contained an unexpected NUL byte"
  | .invalidArgument => "Invalid argument (os error 22)"
  | .noSpace => "No space left on device (os error 28)"

def maxLinks : Nat := 40

def maxName : Nat := 255

/-- Longer paths are refused without being resolved. -/
def maxPath : Nat := 4095

def entry? (fs : FileSystem) : Location → Option Entry
  | [] => some .directory
  | loc => fs.entries.lookup loc

def isDirectoryAt (fs : FileSystem) (loc : Location) : Bool := fs.entry? loc = some .directory

/-- The names to go through. A trailing slash is kept as an empty name, which asks for a directory
as a final `.` does. -/
def steps (p : Path) : List Name :=
  p.split.filter (· ≠ []) ++ (if p.endsInSlash then [[]] else [])

/-- Whether a path has to lead to something, or may end in a name that is still free. With a slash
behind it that name is taken for a directory, whatever is there. -/
inductive Aim where
  | existing
  | place
deriving DecidableEq, Repr

/-- Goes down from a directory; `follow` deals with a link met on the way, given where to start
over and what is left to go. -/
def descend (fs : FileSystem) (aim : Aim)
    (follow : Location → List Name → Except Fault Location) :
    Location → List Name → Except Fault Location
  | loc, [] => .ok loc
  | loc, n :: ns =>
    if !fs.isDirectoryAt loc then .error .notADirectory
    else if n = [] then descend fs aim follow loc ns
    else if (loc, .search) ∈ fs.forbidden then .error .denied
    else if n = Path.here then descend fs aim follow loc ns
    else if n = Path.up then descend fs aim follow loc.dropLast ns
    else if aim = .place ∧ ns = [[]] then .error .isADirectory
    else if maxName < n.length then .error .nameTooLong
    else
      match fs.entry? (loc ++ [n]) with
      | none => if aim = .place ∧ ns = [] then .ok (loc ++ [n]) else .error .missing
      | some (.link target) =>
        follow (if target.isAbsolute then [] else loc) (steps target ++ ns)
      | some _ => descend fs aim follow (loc ++ [n]) ns

/-- Goes down with a number of links still allowed. -/
def walk (fs : FileSystem) (aim : Aim) : Nat → Location → List Name → Except Fault Location
  | 0 => fs.descend aim fun _ _ => .error .tooManyLinks
  | n + 1 => fs.descend aim (walk fs aim n)

def resolve (fs : FileSystem) (aim : Aim) (p : Path) (ns : List Name) : Except Fault Location :=
  if 0 ∈ p.bytes then .error .zeroByte
  else if p.bytes.isEmpty then .error .missing
  else if maxPath < p.bytes.length then .error .nameTooLong
  else fs.walk aim maxLinks (if p.isAbsolute then [] else fs.cwd) ns

/-- The entry that a path leads to. -/
def locate (fs : FileSystem) (p : Path) : Except Fault Location :=
  fs.resolve .existing p (steps p)

/-! ## Looking -/

def isDirectory (fs : FileSystem) (p : Path) : Except Fault Bool := do
  .ok (fs.isDirectoryAt (← fs.locate p))

def childName? (loc : Location) (e : Location × Entry) : Option Name :=
  if e.1.dropLast = loc then e.1.getLast? else none

/-- The names in a directory. -/
def list (fs : FileSystem) (p : Path) : Except Fault (List Name) := do
  let loc ← fs.locate p
  if !fs.isDirectoryAt loc then .error .notADirectory
  else if (loc, .list) ∈ fs.forbidden then .error .denied
  else .ok (fs.entries.filterMap (childName? loc))

def contentAt (fs : FileSystem) (p : Path) : Except Fault (List Byte) := do
  match fs.entry? (← fs.locate p) with
  | some (.file content) => .ok content
  | some .void => .ok []
  | some (.sealed content) => .ok content
  | some .directory => .error .isADirectory
  | _ => .error .missing

/-! ## Changing -/

def put (fs : FileSystem) (loc : Location) (e : Entry) : FileSystem :=
  if (fs.entry? loc).isSome then
    { fs with entries := fs.entries.map fun x => if x.1 = loc then (loc, e) else x }
  else { fs with entries := fs.entries ++ [(loc, e)] }

/-- The place for a new file, which may be taken by a file already. -/
def fileLocation (fs : FileSystem) (p : Path) : Except Fault Location := do
  let loc ← fs.resolve .place p (steps p)
  if fs.isDirectoryAt loc then .error .isADirectory else .ok loc

def fill (fs : FileSystem) (loc : Location) (content : List Byte) : FileSystem :=
  match fs.entry? loc with
  | some .void | some (.sealed _) => fs
  | _ => fs.put loc (.file content)

/-- How many bytes can be written at a place if the disk has `room` for so many, and what comes
of one more. -/
def roomAt (fs : FileSystem) (room : Option Nat) (loc : Location) : Option Nat × Fault :=
  match fs.entry? loc with
  | some .void => (none, .noSpace)
  | some (.sealed _) => (some 0, .invalidArgument)
  | _ => (room, .noSpace)

/-- Makes a file or replaces the content of one. -/
def store (fs : FileSystem) (p : Path) (content : List Byte) : Except Fault FileSystem := do
  .ok (fs.fill (← fs.fileLocation p) content)

/-- Makes the directories of a way that are not there yet. -/
def makeBelow (fs : FileSystem) (loc : Location) : List Name → Except Fault FileSystem
  | [] => .ok fs
  | n :: ns =>
    match fs.walk .place maxLinks loc [n] with
    | .error e => .error e
    | .ok place =>
      match fs.entry? place with
      | none => makeBelow (fs.put place .directory) place ns
      | some .directory => makeBelow fs place ns
      | some _ => .error .alreadyThere

def makeDirectories (fs : FileSystem) (p : Path) : Except Fault FileSystem :=
  fs.makeBelow (if p.isAbsolute then [] else fs.cwd) p.names

def makeLink (fs : FileSystem) (p target : Path) : Except Fault FileSystem := do
  let dir ← fs.resolve .existing p (steps p).dropLast
  match (steps p).getLast? with
  | none => .error .alreadyThere
  | some [] => .error .missing
  | some n =>
    if (fs.entry? (dir ++ [n])).isSome then .error .alreadyThere
    else .ok (fs.put (dir ++ [n]) (.link target))

end FileSystem

end SuiteRunner
