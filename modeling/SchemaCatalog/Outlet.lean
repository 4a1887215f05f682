import SchemaCatalog.FileTree

/-!
# SchemaCatalog.Outlet

Places that take what is written to them, or not all of it.

A disk can be full and a pipe can be closed. Such an outlet takes the bytes that it has room for,
and the next one fails with a cause. What has been taken stays.
-/

namespace SchemaCatalog

inductive Outlet where
  /-- Everything is taken. -/
  | endless
  /-- So many bytes are taken, and no more. -/
  | limited (room : Nat) (cause : IoError)
deriving DecidableEq, Repr

namespace Outlet

/-- Why a text is not taken to its end, if it is not. -/
def refusal? (o : Outlet) (text : String) : Option IoError :=
  match o with
  | endless => none
  | limited room cause => if text.utf8ByteSize ≤ room then none else some cause

/-- Whether a text is not taken to its end. -/
def refuses (o : Outlet) (text : String) : Bool := (o.refusal? text).isSome

/-- The bytes of a text that are taken. -/
def bytesTaken (o : Outlet) (text : String) : ByteArray :=
  match o with
  | endless => text.toUTF8
  | limited room _ => text.toUTF8.extract 0 room

/-- The characters that have room for all of their bytes. -/
def charactersWithin : (room : Nat) → List Char → List Char
  | _, [] => []
  | room, c :: rest =>
    if c.utf8Size ≤ room then c :: charactersWithin (room - c.utf8Size) rest else []

/-- The part of a text that can be read behind the outlet. -/
def textTaken (o : Outlet) (text : String) : String :=
  match o with
  | endless => text
  | limited room _ => String.ofList (charactersWithin room text.toList)

end Outlet

end SchemaCatalog
