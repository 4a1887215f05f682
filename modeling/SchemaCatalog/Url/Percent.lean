import SchemaCatalog.Text.Hex
import SchemaCatalog.Text.Utf8

/-!
# SchemaCatalog.Url.Percent

Characters that a part of a URL cannot hold, written as the bytes that encode them.
-/

namespace SchemaCatalog.Url

open Text

/-- A byte as a percent sign and two capital digits. -/
def percentByte (b : UInt8) : List Char :=
  ['%', hexCapital (b.toNat / 16), hexCapital (b.toNat % 16)]

/-- Write the characters of a class, and all that are not ASCII, as bytes. -/
def percentEncode (encodes : Char → Bool) (cs : List Char) : List Char :=
  cs.flatMap fun c =>
    if encodes c || 0x7F ≤ c.toNat then (String.utf8EncodeChar c).flatMap percentByte else [c]

/-- The bytes that a text with percent signs stands for. -/
def percentDecode : List Char → List UInt8
  | [] => []
  | '%' :: a :: b :: rest =>
    match hexDigit? a, hexDigit? b with
    | some high, some low => UInt8.ofNat (high * 16 + low) :: percentDecode rest
    | _, _ => 0x25 :: percentDecode (a :: b :: rest)
  | c :: rest => String.utf8EncodeChar c ++ percentDecode rest

/-- The text that a text with percent signs stands for. -/
def percentDecodeText (cs : List Char) : List Char := Utf8.characters (percentDecode cs)

/-! ## What each part cannot hold -/

def isControl (c : Char) : Bool := c.toNat < 0x20 || c.toNat = 0x7F

def inFragment (c : Char) : Bool := isControl c || [' ', '"', '<', '>', '\x60'].contains c

def inPath (c : Char) : Bool := inFragment c || ['#', '?', '\x7b', '\x7d'].contains c

def inUserInfo (c : Char) : Bool :=
  inPath c || ['/', ':', ';', '=', '@', '[', '\\', ']', '^', '|'].contains c

/-- Queries of the well-known schemes cannot hold an apostrophe either. -/
def inQuery (special : Bool) (c : Char) : Bool :=
  isControl c || [' ', '"', '#', '<', '>'].contains c || (special && c = '\'')

end SchemaCatalog.Url
