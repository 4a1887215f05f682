/-!
# SchemaCatalog.Url.Punycode

Labels of host names that are not ASCII, written in letters, digits and hyphens.

The ASCII characters come first. Behind them stands, for every other character in the order of
its code point, how far to go from the one before, in digits of base thirty-six whose weights
adapt to the sizes seen so far.
-/

namespace SchemaCatalog.Url.Punycode

def digit (d : Nat) : Char :=
  if d < 26 then Char.ofNat ('a'.toNat + d) else Char.ofNat ('0'.toNat + (d - 26))

/-- The weight of a digit at a position. -/
def threshold (position bias : Nat) : Nat :=
  if position ≤ bias then 1 else if bias + 26 ≤ position then 26 else position - bias

theorem threshold_pos (position bias : Nat) : 1 ≤ threshold position bias := by
  unfold threshold
  split
  · omega
  · split <;> omega

/-- Divide until what is left is small, counting the positions. -/
def reduce (delta positions : Nat) : Nat × Nat :=
  if _h : 455 < delta then reduce (delta / 35) (positions + 36) else (delta, positions)
termination_by delta
decreasing_by exact Nat.div_lt_self (by omega) (by omega)

/-- The bias after a step. -/
def adapt (delta count : Nat) (first : Bool) : Nat :=
  let start := if first then delta / 700 else delta / 2
  let (rest, positions) := reduce (start + start / count) 0
  positions + 36 * rest / (rest + 38)

/-- The digits of a step. -/
def stepDigits (bias position q : Nat) : List Char :=
  let t := threshold position bias
  if q < t then [digit q]
  else digit (t + (q - t) % (36 - t)) :: stepDigits bias (position + 36) ((q - t) / (36 - t))
termination_by q
decreasing_by
  have := threshold_pos position bias
  have := Nat.div_le_self (q - threshold position bias) (36 - threshold position bias)
  omega

structure State where
  output : List Char
  delta : Nat
  bias : Nat
  handled : Nat

/-- Pass a character while the characters with a code point are written. -/
def pass (basic code : Nat) (s : State) (c : Char) : State :=
  if c.toNat < code then { s with delta := s.delta + 1 }
  else if c.toNat = code then
    ⟨s.output ++ stepDigits s.bias 36 s.delta, 0,
      adapt s.delta (s.handled + 1) (s.handled = basic), s.handled + 1⟩
  else s

/-- Write the characters with these code points, which rise. -/
def steps (label : List Char) (basic : Nat) : List Nat → (next : Nat) → State → State
  | [], _, s => s
  | code :: rest, next, s =>
    let s := { s with delta := s.delta + (code - next) * (s.handled + 1) }
    let s := label.foldl (pass basic code) s
    steps label basic rest (code + 1) { s with delta := s.delta + 1 }

def encode (label : List Char) : List Char :=
  let basic := label.filter (·.toNat < 0x80)
  let codes := ((label.filter (0x80 ≤ ·.toNat)).map Char.toNat).eraseDups.mergeSort
  let prefixed := if basic.isEmpty then [] else basic ++ ['-']
  (steps label basic.length codes 0x80 ⟨prefixed, 0, 72, basic.length⟩).output

end SchemaCatalog.Url.Punycode
