import SuiteRunner.Text.Utf8

/-! # Paths as byte strings -/
namespace SuiteRunner

open Text.Utf8 (Byte)

/-- A file name: any bytes but the slash. -/
abbrev Name := List Byte

structure Path where
  bytes : List Byte
deriving DecidableEq, Repr, Inhabited

namespace Path

def slash : Byte := 0x2F

def here : Name := [0x2E]

def up : Name := [0x2E, 0x2E]

def ofString (s : String) : Path := ⟨Text.Utf8.encode s⟩

def text? (p : Path) : Option String := Text.Utf8.decode? p.bytes

/-- The text shown for a path, which may not be its exact bytes. -/
def display (p : Path) : String := Text.Utf8.decodeLossy p.bytes

def isAbsolute (p : Path) : Bool := p.bytes.head? = some slash

def endsInSlash (p : Path) : Bool := p.bytes.getLast? = some slash

/-- The parts between slashes, empty ones included; `part` is the one being read, in reverse. -/
def splitFrom (part : Name) : List Byte → List Name
  | [] => [part.reverse]
  | b :: bs => if b = slash then part.reverse :: splitFrom [] bs else splitFrom (b :: part) bs

def split (p : Path) : List Name := splitFrom [] p.bytes

/-- The names along a path, without empty and `.` parts. -/
def names (p : Path) : List Name := p.split.filter fun n => n ≠ [] ∧ n ≠ here

/-- A path below another one; an absolute path replaces it. -/
def join (p q : Path) : Path :=
  if q.isAbsolute then q
  else if p.bytes.isEmpty || p.endsInSlash then ⟨p.bytes ++ q.bytes⟩
  else ⟨p.bytes ++ slash :: q.bytes⟩

/-- Where an absolute form starts: exactly two leading slashes are kept, more count as one. -/
def anchor (p cwd : Path) : Path :=
  match p.split with
  | [] :: [] :: [] :: _ :: _ => ⟨[slash]⟩
  | [] :: [] :: _ :: _ => ⟨[slash, slash]⟩
  | [] :: _ :: _ => ⟨[slash]⟩
  | _ => cwd

/-- The absolute form of a non-empty path, without a look at the disk: `.` parts and repeated
slashes go, `..` parts and a trailing slash stay. -/
def absolute? (p cwd : Path) : Option Path :=
  if p.bytes.isEmpty then none
  else
    let q := p.names.foldl (fun q n => q.join ⟨n⟩) (p.anchor cwd)
    some (if p.endsInSlash then q.join ⟨[]⟩ else q)

/-- The directory that holds the last name of a path. -/
def parent (p : Path) : Path :=
  let below := p.bytes.reverse.dropWhile (· = slash) |>.dropWhile (· ≠ slash)
  ⟨match below.dropWhile (· = slash), below with
    | [], _ :: _ => [slash]
    | rest, _ => rest.reverse⟩

end Path

end SuiteRunner
