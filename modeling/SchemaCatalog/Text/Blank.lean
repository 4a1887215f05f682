/-!
# SchemaCatalog.Text.Blank

The blank characters of Unicode, its White_Space property.
-/

namespace SchemaCatalog.Text

/-- The code points with the White_Space property. -/
def isBlankCode (n : Nat) : Bool :=
  (0x09 ≤ n && n ≤ 0x0D) || n = 0x20 || n = 0x85 || n = 0xA0 || n = 0x1680 ||
    (0x2000 ≤ n && n ≤ 0x200A) || n = 0x2028 || n = 0x2029 || n = 0x202F || n = 0x205F ||
    n = 0x3000

def isBlank (c : Char) : Bool := isBlankCode c.toNat

/-- Whether a text is empty or made of blanks alone. -/
def isBlankText (text : String) : Bool := text.toList.all isBlank

/-- A text without the characters of a class at both ends. -/
def trimBy (drop : Char → Bool) (cs : List Char) : List Char :=
  ((cs.dropWhile drop).reverse.dropWhile drop).reverse

def trim (cs : List Char) : List Char := trimBy isBlank cs

end SchemaCatalog.Text
