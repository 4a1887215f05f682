/-!
# SchemaCatalog.Path

Paths as texts.

Everything here is lexical: a path is taken apart at its slashes and nothing is looked up, so
two points are an ordinary part. Empty parts do not count, and neither does a single point,
except at the start of a relative path.
-/

namespace SchemaCatalog

structure Path where
  text : String
deriving DecidableEq, Repr

namespace Path

/-- The parts between slashes, each with the place where it ends. -/
def splitAt (start : Nat) : List Char → List (List Char × Nat)
  | [] => [([], start)]
  | c :: rest =>
    if c = '/' then ([], start) :: splitAt (start + 1) rest
    else match splitAt (start + 1) rest with
      | (part, stop) :: others => (c :: part, stop) :: others
      | [] => [([c], start + 1)]

def isAbsolute (p : Path) : Bool := p.text.toList.head? = some '/'

/-- The parts that count, each with the place where it ends. -/
def parts (p : Path) : List (List Char × Nat) :=
  let all := splitAt 0 p.text.toList
  let counts (part : List Char × Nat) : Bool := part.1 ≠ [] && part.1 ≠ ['.']
  match all with
  | (['.'], stop) :: rest => (['.'], stop) :: rest.filter counts
  | _ => all.filter counts

/-- The last part, if it is a name. -/
def fileName? (p : Path) : Option String :=
  match p.parts.getLast? with
  | some (part, _) =>
    if part = ['.'] ∨ part = ['.', '.'] then none else some (String.ofList part)
  | none => none

/-- What follows the last point of a name; a point at the start does not count. -/
def extensionOf? (name : List Char) : Option (List Char) :=
  let after := name.reverse.takeWhile (· ≠ '.')
  let before := name.reverse.dropWhile (· ≠ '.')
  if before.length ≤ 1 then none else some after.reverse

def extension? (p : Path) : Option String :=
  (p.fileName?.bind fun name => extensionOf? name.toList).map String.ofList

/-- A path below a directory. -/
def join (dir : Path) (name : String) : Path :=
  if name.toList.head? = some '/' then ⟨name⟩
  else
    match dir.text.toList.getLast? with
    | none => ⟨name⟩
    | some '/' => ⟨dir.text ++ name⟩
    | some _ => ⟨dir.text ++ "/" ++ name⟩

/-- The paths above one, the nearest first: a part is dropped from the end each time. -/
def above (p : Path) : List Path :=
  match p.parts.reverse with
  | [] => []
  | _ :: outer =>
    let base : Path := if p.isAbsolute then ⟨"/"⟩ else ⟨""⟩
    outer.map (fun part => ⟨String.ofList (p.text.toList.take part.2)⟩) ++ [base]

/-- A path and the paths above it. -/
def ancestors (p : Path) : List Path := p :: p.above

end Path

end SchemaCatalog
