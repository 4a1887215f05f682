/-!
# SchemaCatalog.Text.Utf8

Bytes as text, whatever the bytes are.

Well-formed sequences are the characters they encode. Every other stretch is read as one
replacement character per maximal bad part: the longest start of a well-formed sequence, or a
single byte that starts none.
-/

namespace SchemaCatalog.Text.Utf8

/-- What stands for a bad part. -/
def replacement : Char := '\ufffd'

/-- A byte that continues a sequence. -/
def isTail (b : UInt8) : Bool := 0x80 ≤ b && b ≤ 0xBF

/-- The second bytes that may follow the first byte of a three-byte sequence. -/
def secondOfThree (first second : UInt8) : Bool :=
  if first = 0xE0 then 0xA0 ≤ second && second ≤ 0xBF
  else if first = 0xED then 0x80 ≤ second && second ≤ 0x9F
  else isTail second

/-- The second bytes that may follow the first byte of a four-byte sequence. -/
def secondOfFour (first second : UInt8) : Bool :=
  if first = 0xF0 then 0x90 ≤ second && second ≤ 0xBF
  else if first = 0xF4 then 0x80 ≤ second && second ≤ 0x8F
  else isTail second

/-- The six bits that a continuing byte carries. -/
def tailBits (b : UInt8) : Nat := b.toNat % 0x40

/-- The character of the sequence that starts with `first`, or the replacement, and the number
of further bytes that belong to it. -/
def character (first : UInt8) (rest : List UInt8) : Char × Nat :=
  if first < 0x80 then (Char.ofNat first.toNat, 0)
  else if 0xC2 ≤ first ∧ first ≤ 0xDF then
    match rest with
    | b :: _ =>
      if isTail b then (Char.ofNat (first.toNat % 0x20 * 0x40 + tailBits b), 1)
      else (replacement, 0)
    | [] => (replacement, 0)
  else if 0xE0 ≤ first ∧ first ≤ 0xEF then
    match rest with
    | b :: more =>
      if secondOfThree first b then
        match more with
        | d :: _ =>
          if isTail d then
            (Char.ofNat ((first.toNat % 0x10 * 0x40 + tailBits b) * 0x40 + tailBits d), 2)
          else (replacement, 1)
        | [] => (replacement, 1)
      else (replacement, 0)
    | [] => (replacement, 0)
  else if 0xF0 ≤ first ∧ first ≤ 0xF4 then
    match rest with
    | b :: more =>
      if secondOfFour first b then
        match more with
        | d :: evenMore =>
          if isTail d then
            match evenMore with
            | e :: _ =>
              if isTail e then
                (Char.ofNat
                  (((first.toNat % 0x08 * 0x40 + tailBits b) * 0x40 + tailBits d) * 0x40
                    + tailBits e), 3)
              else (replacement, 2)
            | [] => (replacement, 2)
          else (replacement, 1)
        | [] => (replacement, 1)
      else (replacement, 0)
    | [] => (replacement, 0)
  else (replacement, 0)

/-- The characters of a list of bytes. -/
def characters : List UInt8 → List Char
  | [] => []
  | first :: rest =>
    let (c, count) := character first rest
    c :: characters (rest.drop count)
termination_by bytes => bytes.length
decreasing_by simp only [List.length_drop, List.length_cons]; omega

/-- The text of some bytes, with a replacement for every bad part. -/
def decode (bytes : ByteArray) : String := String.ofList (characters bytes.toList)

end SchemaCatalog.Text.Utf8
