import SchemaCatalog.Path

/-!
# SchemaCatalog.FileTree

Files and directories as a value.

A tree lists what there is by location, the names from the root down. A path is followed name by
name from a working directory, so that what cannot be followed fails with a cause.

There are files and directories and nothing else: no links, no files that are there and may not be
read, no bounds on the lengths of names. Searches and runs are about such trees.
-/

namespace SchemaCatalog

/-- Why a file cannot be read or written. -/
inductive IoError where
  | notFound
  /-- A file stands where a directory should. -/
  | notDirectory
  | isDirectory
  /-- The contents are no text. -/
  | notText
  /-- Any other cause, in the words of the system. -/
  | other (text : String)
deriving DecidableEq, Repr

def IoError.message : IoError → String
  | notFound => "No such file or directory (os error 2)"
  | notDirectory => "Not a directory (os error 20)"
  | isDirectory => "Is a directory (os error 21)"
  | notText => "stream did not contain valid UTF-8"
  | other text => text

/-- The names from the root down. -/
abbrev Location := List String

inductive FileTree.Entry where
  | file (contents : ByteArray)
  | directory

structure FileTree where
  entries : List (Location × FileTree.Entry)

namespace FileTree

def empty : FileTree := ⟨[]⟩

/-- What stands at a location; the root is a directory. -/
def entry? (t : FileTree) : Location → Option Entry
  | [] => some .directory
  | location => t.entries.lookup location

/-- Replace what stands at a location, or add it. -/
def setEntry (location : Location) (entry : Entry) :
    List (Location × Entry) → List (Location × Entry)
  | [] => [(location, entry)]
  | old :: rest =>
    if old.1 = location then (location, entry) :: rest
    else old :: setEntry location entry rest

def set (t : FileTree) (location : Location) (entry : Entry) : FileTree :=
  ⟨setEntry location entry t.entries⟩

/-- Make a directory and those above it. -/
def addDirectory (t : FileTree) (location : Location) : FileTree :=
  (List.range location.length).foldl (fun t n => t.set (location.take (n + 1)) .directory) t

/-- Put a file at a location and make the directories above it. -/
def addFile (t : FileTree) (location : Location) (contents : ByteArray) : FileTree :=
  (t.addDirectory location.dropLast).set location (.file contents)

/-! ## Following paths -/

/-- Follow names from a location. -/
def walk (t : FileTree) : Location → List String → Except IoError Location
  | location, [] => .ok location
  | location, name :: rest =>
    match t.entry? location with
    | none => .error .notFound
    | some (.file _) => .error .notDirectory
    | some .directory =>
      if name = "" ∨ name = "." then t.walk location rest
      else if name = ".." then t.walk location.dropLast rest
      else t.walk (location ++ [name]) rest

/-- All parts of a path, empty ones included. -/
def names (p : Path) : List String :=
  (Path.splitAt 0 p.text.toList).map fun part => String.ofList part.1

/-- Where a path starts. -/
def base (cwd : Location) (p : Path) : Location := if p.isAbsolute then [] else cwd

/-- The location of a path and what stands there. -/
def resolve (t : FileTree) (cwd : Location) (p : Path) : Except IoError (Location × Entry) := do
  if p.text = "" then throw .notFound
  let location ← t.walk (base cwd p) (names p)
  match t.entry? location with
  | some entry => return (location, entry)
  | none => throw .notFound

/-! ## Reading and writing -/

/-- Whether a path leads to a file. -/
def isFile (t : FileTree) (cwd : Location) (p : Path) : Bool :=
  match t.resolve cwd p with
  | .ok (_, .file _) => true
  | _ => false

def read (t : FileTree) (cwd : Location) (p : Path) : Except IoError ByteArray := do
  match ← t.resolve cwd p with
  | (_, .file contents) => return contents
  | (_, .directory) => throw .isDirectory

/-- The text of a file. -/
def readText (t : FileTree) (cwd : Location) (p : Path) : Except IoError String := do
  let contents ← t.read cwd p
  match String.fromUTF8? contents with
  | some text => return text
  | none => throw .notText

/-- The location that a new file gets: its directory has to be there, and it needs a name. -/
def target (t : FileTree) (cwd : Location) (p : Path) : Except IoError Location := do
  if p.text = "" then throw .notFound
  match (names p).reverse.dropWhile (· = "") with
  | [] => throw .isDirectory
  | last :: above =>
    let directory ← t.walk (base cwd p) above.reverse
    match t.entry? directory with
    | none => throw .notFound
    | some (.file _) => throw .notDirectory
    | some .directory =>
      let closed := (names p).getLast? = some ""
      let location := directory ++ [last]
      if closed ∨ last = "." ∨ last = ".." then throw .isDirectory
      else match t.entry? location with
        | some .directory => throw .isDirectory
        | _ => return location

end FileTree

end SchemaCatalog
