import SchemaCatalog.Text.LetterCase
import SchemaCatalog.Url.Percent
import SchemaCatalog.Url.Punycode

/-!
# SchemaCatalog.Url.Host

The hosts of URLs, read to the form in which they are written.

A host is a domain in small letters, an address of four numbers, or an address of eight groups
in brackets. A domain whose last label is a number has to be an address.
-/

namespace SchemaCatalog.Url

open Text

def isDecimal (c : Char) : Bool := '0' ≤ c && c ≤ '9'

/-- The number that digits of a base denote; no digits are zero. -/
def digitsValue? (base : Nat) (cs : List Char) : Option Nat :=
  cs.foldlM (fun n c => (hexDigit? c).bind fun d => if d < base then some (n * base + d) else none)
    0

/-! ## Four numbers -/

/-- A number in decimal digits, or in others behind a prefix. -/
def part4? : List Char → Option Nat
  | [] => none
  | '0' :: 'x' :: rest | '0' :: 'X' :: rest => digitsValue? 16 rest
  | '0' :: rest => digitsValue? 8 rest
  | cs => digitsValue? 10 cs

/-- The labels of a domain; one final point does not count. -/
def labels (cs : List Char) : List (List Char) :=
  match (cs.splitOn '.').reverse with
  | [] :: last :: rest => (last :: rest).reverse
  | all => all.reverse

/-- Whether the last label of a domain is a number. -/
def endsInNumber (cs : List Char) : Bool :=
  match (labels cs).getLast? with
  | none => false
  | some label => (label ≠ [] && label.all isDecimal) ||
    (match label with
      | '0' :: 'x' :: rest | '0' :: 'X' :: rest => (digitsValue? 16 rest).isSome
      | _ => false)

/-- The value of an address; the last number fills all bytes that are left. -/
def address4? (cs : List Char) : Option Nat := do
  let numbers ← (labels cs).mapM part4?
  match numbers.reverse with
  | [] => none
  | last :: before =>
    let bound := Nat.pow 256 (4 - before.length)
    if 3 < before.length ∨ before.any (255 < ·) ∨ bound ≤ last then none
    else
      let high := before.reverse.foldl (fun n b => n * 256 + b) 0
      some (high * bound + last)

def render4 (n : Nat) : String :=
  ".".intercalate ([n / 0x1000000, n / 0x10000 % 256, n / 256 % 256, n % 256].map toString)

/-! ## Eight groups -/

/-- A group of up to four hexadecimal digits. -/
def group? (cs : List Char) : Option Nat :=
  if cs = [] ∨ 4 < cs.length then none else digitsValue? 16 cs

/-- A byte in decimal digits without leading zeros. -/
def byte? (cs : List Char) : Option Nat :=
  if cs = [] ∨ 3 < cs.length ∨ cs.all isDecimal = false ∨ (1 < cs.length ∧ cs.head? = some '0')
  then none
  else (digitsValue? 10 cs).bind fun n => if n < 256 then some n else none

/-- The groups between colons, the last of which may be four bytes. -/
def groups? : List (List Char) → Option (List Nat)
  | [] => some []
  | [last] =>
    if last.contains '.' then
      match (last.splitOn '.').mapM byte? with
      | some [a, b, c, d] => some [a * 256 + b, c * 256 + d]
      | _ => none
    else (group? last).map ([·])
  | part :: rest => do return (← group? part) :: (← groups? rest)

/-- The groups of a text, which may be empty. -/
def groupList? (cs : List Char) : Option (List Nat) :=
  if cs.isEmpty then some [] else groups? (cs.splitOn ':')

/-- The text before two colons and the one behind them. -/
def splitDouble? : List Char → Option (List Char × List Char)
  | ':' :: ':' :: rest => some ([], rest)
  | c :: rest => (splitDouble? rest).map fun (before, after) => (c :: before, after)
  | [] => none

def address6? (cs : List Char) : Option (List Nat) :=
  match splitDouble? cs with
  | some (before, after) => do
    if before.contains '.' then none
    else
      let front ← groupList? before
      let back ← groupList? after
      let count := front.length + back.length
      if 8 ≤ count then none else some (front ++ List.replicate (8 - count) 0 ++ back)
  | none => do
    let groups ← groupList? cs
    if groups.length = 8 then some groups else none

/-- The length of the run of zeros at the start. -/
def zeroRun (groups : List Nat) : Nat := (groups.takeWhile (· = 0)).length

/-- The first of the longest runs of zeros, as its place and length. -/
def longestZeroRun : (place : Nat) → List Nat → Nat × Nat
  | place, [] => (place, 0)
  | place, group :: rest =>
    let (later, length) := longestZeroRun (place + 1) rest
    let here := zeroRun (group :: rest)
    if length ≤ here then (place, here) else (later, length)

def renderGroups (groups : List Nat) : String :=
  ":".intercalate (groups.map fun n => String.ofList (Nat.toDigits 16 n))

def render6 (groups : List Nat) : String :=
  let (place, length) := longestZeroRun 0 groups
  if length < 2 then renderGroups groups
  else renderGroups (groups.take place) ++ "::" ++ renderGroups (groups.drop (place + length))

/-! ## Domains and hosts -/

/-- Characters that no domain holds. -/
def isForbidden (c : Char) : Bool :=
  c.toNat ≤ 0x20 || c.toNat = 0x7F ||
    ['#', '%', '/', ':', '<', '>', '?', '@', '[', '\\', ']', '^', '|'].contains c

/-- A label in ASCII. -/
def asciiLabel (label : List Char) : List Char :=
  if label.all (·.toNat < 0x80) then label else "xn--".toList ++ Punycode.encode label

/-- A domain in small letters and in ASCII. -/
def asciiDomain (cs : List Char) : List Char :=
  let small := LetterCase.lowerText (cs.map fun c => if c = '\u3002' then '.' else c)
  ['.'].intercalate ((small.splitOn '.').map asciiLabel)

/-- The host of a well-known scheme, as it is written. -/
def host? (cs : List Char) : Option String :=
  match cs with
  | '[' :: rest =>
    match rest.reverse with
    | ']' :: inner => (address6? inner.reverse).map fun groups => "[" ++ render6 groups ++ "]"
    | _ => none
  | _ =>
    let domain := asciiDomain (percentDecodeText cs)
    if domain.isEmpty || domain.any isForbidden then none
    else if endsInNumber domain then (address4? domain).map render4
    else some (String.ofList domain)

/-- The host of any other scheme. -/
def opaqueHost? (cs : List Char) : Option String :=
  match cs with
  | '[' :: _ => host? cs
  | _ =>
    if cs.any fun c => isForbidden c && c ≠ '%' then none
    else some (String.ofList (percentEncode isControl cs))

end SchemaCatalog.Url
