/-!
# SchemaCatalog.Text.Surrogate

Numbers that are no characters of their own: the halves of surrogate pairs.

Escapes with four hexadecimal digits name a character beyond U+FFFF by two halves, a lead and a
trail, which are joined to the character.
-/

namespace SchemaCatalog.Text

def isLeadSurrogate (n : Nat) : Bool := 0xD800 ≤ n && n ≤ 0xDBFF

def isTrailSurrogate (n : Nat) : Bool := 0xDC00 ≤ n && n ≤ 0xDFFF

/-- Whether a number is a Unicode scalar value. -/
def isScalarValue (n : Nat) : Bool := n < 0xD800 || (0xDFFF < n && n ≤ 0x10FFFF)

/-- The character that a pair of surrogates stands for. -/
def joinSurrogates (lead trail : Nat) : Char :=
  Char.ofNat (0x10000 + (lead - 0xD800) * 0x400 + (trail - 0xDC00))

end SchemaCatalog.Text
