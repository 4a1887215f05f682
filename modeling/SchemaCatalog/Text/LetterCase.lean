import SchemaCatalog.Text.LetterCase.Table

/-!
# SchemaCatalog.Text.LetterCase

The capital and the small form of every letter of Unicode.

Either form can take several characters; a character without another case stands for itself.
The small form of a text is taken character by character, so it does not tell the two small
sigmas apart.
-/

namespace SchemaCatalog.Text.LetterCase

/-- Where a span sends a code point that it covers. -/
def Span.image? (s : Span) (n : Nat) : Option Nat :=
  if s.first ≤ n ∧ n ≤ s.last ∧ (n - s.first) % s.step = 0 then some (s.target + (n - s.first))
  else none

/-- The form of a character by a table of long forms and a table of spans. -/
def form (long : List (Nat × List Nat)) (spans : List Span) (c : Char) : List Char :=
  match long.lookup c.toNat with
  | some codes => codes.map Char.ofNat
  | none =>
    match spans.findSome? (·.image? c.toNat) with
    | some code => [Char.ofNat code]
    | none => [c]

def upper (c : Char) : List Char := form longCapitals capitals c

def lower (c : Char) : List Char := form longSmalls smalls c

/-- The small form of a text. -/
def lowerText (text : List Char) : List Char := text.flatMap lower

/-- The capital of a letter from a to z; every other character stands for itself. -/
def asciiUpper (c : Char) : Char :=
  if 'a' ≤ c ∧ c ≤ 'z' then Char.ofNat (c.toNat - 32) else c

/-- The small form of a letter from A to Z; every other character stands for itself. -/
def asciiLower (c : Char) : Char :=
  if 'A' ≤ c ∧ c ≤ 'Z' then Char.ofNat (c.toNat + 32) else c

/-- What holds of every code below 128 holds of every ASCII character. -/
theorem forall_ascii {P : Char → Prop} (h : ∀ n < 128, P (Char.ofNat n)) {c : Char}
    (hc : c.toNat < 128) : P c := by
  have hcode := h c.toNat hc
  rwa [Char.ofNat_toNat] at hcode

end SchemaCatalog.Text.LetterCase
