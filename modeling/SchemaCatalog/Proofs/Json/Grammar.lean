import SchemaCatalog.Json.Reader

/-!
# SchemaCatalog.Proofs.Json.Grammar

The texts that denote JSON values, by the rules of a grammar and without a word about reading.

A phrase of the grammar is written as the texts of its parts, one behind the other. Blanks stand
around every value and around the name of a member, and nowhere else.
-/

namespace SchemaCatalog.Json

open Reader (Piece isBlank isDigit shortEscape? hexUnit?)
open Text (isLeadSurrogate isTrailSurrogate joinSurrogates)

/-! ## Strings -/

/-- How a piece of a string literal is written. -/
inductive WrittenPiece : Piece → List Char → Prop
  | plain {c : Char} (printable : ¬ c.toNat < 0x20) (quote : c ≠ '"') (backslash : c ≠ '\\') :
      WrittenPiece (.char c) [c]
  | short {letter meant : Char} (escape : shortEscape? letter = some meant) :
      WrittenPiece (.char meant) ['\\', letter]
  | unit {a b c d : Char} {n : Nat} (escape : hexUnit? a b c d = some n) :
      WrittenPiece (.unit n) ['\\', 'u', a, b, c, d]

inductive WrittenPieces : List Piece → List Char → Prop
  | nil : WrittenPieces [] []
  | cons {p : Piece} {ps : List Piece} {text others : List Char} (first : WrittenPiece p text)
      (rest : WrittenPieces ps others) : WrittenPieces (p :: ps) (text ++ others)

/-- The characters that pieces stand for. The halves of a surrogate pair stand for one together, and
for none apart. -/
inductive Spells : List Piece → List Char → Prop
  | nil : Spells [] []
  | char {c : Char} {ps : List Piece} {cs : List Char} (rest : Spells ps cs) :
      Spells (.char c :: ps) (c :: cs)
  | unit {n : Nat} {ps : List Piece} {cs : List Char} (lead : isLeadSurrogate n = false)
      (trail : isTrailSurrogate n = false) (rest : Spells ps cs) :
      Spells (.unit n :: ps) (Char.ofNat n :: cs)
  | pair {m n : Nat} {ps : List Piece} {cs : List Char} (lead : isLeadSurrogate m = true)
      (trail : isTrailSurrogate n = true) (rest : Spells ps cs) :
      Spells (.unit m :: .unit n :: ps) (joinSurrogates m n :: cs)

/-- How a string is written. The literal of `none` has half of a surrogate pair in it. -/
inductive WrittenString : Option String → List Char → Prop
  | text {ps : List Piece} {cs : List Char} {s : String} (written : WrittenPieces ps cs)
      (spelled : Spells ps s.toList) : WrittenString (some s) ('"' :: (cs ++ ['"']))
  | half {ps : List Piece} {cs : List Char} (written : WrittenPieces ps cs)
      (unspelled : ∀ cs, ¬ Spells ps cs) : WrittenString none ('"' :: (cs ++ ['"']))

/-! ## Numbers -/

/-- At least one digit. -/
def Digits (run : List Char) : Prop := run ≠ [] ∧ ∀ c ∈ run, isDigit c = true

def decimal (run : List Char) : Nat := run.foldl (fun n c => n * 10 + (c.toNat - '0'.toNat)) 0

/-- No zero leads other digits. -/
inductive WrittenWhole : Nat → List Char → Prop
  | zero : WrittenWhole 0 ['0']
  | run {first : Char} {rest : List Char} (digits : Digits (first :: rest)) (leads : first ≠ '0') :
      WrittenWhole (decimal (first :: rest)) (first :: rest)

inductive IsFraction : List Char → Prop
  | none : IsFraction []
  | digits {run : List Char} (digits : Digits run) : IsFraction ('.' :: run)

inductive IsExponent : List Char → Prop
  | none : IsExponent []
  | unsigned {mark : Char} {run : List Char} (marks : mark = 'e' ∨ mark = 'E')
      (digits : Digits run) : IsExponent (mark :: run)
  | signed {mark sign : Char} {run : List Char} (marks : mark = 'e' ∨ mark = 'E')
      (signs : sign = '+' ∨ sign = '-') (digits : Digits run) : IsExponent (mark :: sign :: run)

inductive WrittenUnsigned (negative : Bool) : Numeral → List Char → Prop
  | mk {n : Nat} {digits part power : List Char} (whole : WrittenWhole n digits)
      (fraction : IsFraction part) (exponent : IsExponent power) :
      WrittenUnsigned negative ⟨negative, n, part ++ power⟩ (digits ++ (part ++ power))

inductive WrittenNumeral : Numeral → List Char → Prop
  | plain {n : Numeral} {cs : List Char} (h : WrittenUnsigned false n cs) : WrittenNumeral n cs
  | minus {n : Numeral} {cs : List Char} (h : WrittenUnsigned true n cs) :
      WrittenNumeral n ('-' :: cs)

/-! ## Values -/

/-- What the rules of the grammar are about. -/
inductive Phrase where
  | value (j : Json)
  /-- A value with blanks around it. -/
  | element (j : Json)
  | items (list : List Json)
  | member (key : Option String) (j : Json)
  | members (list : List (Option String × Json))

/-- How a phrase is written. -/
inductive Written : Phrase → List Char → Prop
  | null : Written (.value .null) ['n', 'u', 'l', 'l']
  | yes : Written (.value (.bool true)) ['t', 'r', 'u', 'e']
  | no : Written (.value (.bool false)) ['f', 'a', 'l', 's', 'e']
  | number {n : Numeral} {cs : List Char} (h : WrittenNumeral n cs) :
      Written (.value (.number n)) cs
  | string {s : Option String} {cs : List Char} (h : WrittenString s cs) :
      Written (.value (.string s)) cs
  | noItems {blanks : List Char} (h : blanks.all isBlank = true) :
      Written (.value (.array [])) ('[' :: (blanks ++ [']']))
  | array {list : List Json} {cs : List Char} (h : Written (.items list) cs) :
      Written (.value (.array list)) ('[' :: (cs ++ [']']))
  | noMembers {blanks : List Char} (h : blanks.all isBlank = true) :
      Written (.value (.object [])) ('\x7b' :: (blanks ++ ['\x7d']))
  | object {list : List (Option String × Json)} {cs : List Char} (h : Written (.members list) cs) :
      Written (.value (.object list)) ('\x7b' :: (cs ++ ['\x7d']))
  | element {j : Json} {before cs after : List Char} (hbefore : before.all isBlank = true)
      (h : Written (.value j) cs) (hafter : after.all isBlank = true) :
      Written (.element j) (before ++ (cs ++ after))
  | lastItem {j : Json} {cs : List Char} (h : Written (.element j) cs) : Written (.items [j]) cs
  | nextItem {j : Json} {list : List Json} {cs others : List Char} (h : Written (.element j) cs)
      (rest : Written (.items list) others) : Written (.items (j :: list)) (cs ++ ',' :: others)
  | member {key : Option String} {j : Json} {before name after cs : List Char}
      (hbefore : before.all isBlank = true) (hname : WrittenString key name)
      (hafter : after.all isBlank = true) (h : Written (.element j) cs) :
      Written (.member key j) (before ++ (name ++ (after ++ ':' :: cs)))
  | lastMember {key : Option String} {j : Json} {cs : List Char} (h : Written (.member key j) cs) :
      Written (.members [(key, j)]) cs
  | nextMember {key : Option String} {j : Json} {list : List (Option String × Json)}
      {cs others : List Char} (h : Written (.member key j) cs)
      (rest : Written (.members list) others) :
      Written (.members ((key, j) :: list)) (cs ++ ',' :: others)

/-- A text denotes a value: it is that value, with blanks around it. -/
def Denotes (text : String) (j : Json) : Prop := Written (.element j) text.toList

section Padding

variable {blanks cs : List Char} (hblanks : blanks.all isBlank = true)
include hblanks

theorem Written.pad_items {list : List Json} (h : Written (.items list) cs) :
    Written (.items list) (blanks ++ cs) := by
  have hpad : ∀ {j cs}, Written (.element j) cs → Written (.element j) (blanks ++ cs) := by
    intro j cs h
    cases h with
    | element hbefore h hafter =>
      rw [← List.append_assoc]
      exact .element (by rw [List.all_append, hblanks, hbefore]; rfl) h hafter
  cases h with
  | lastItem h => exact .lastItem (hpad h)
  | nextItem h rest =>
    rw [← List.append_assoc]
    exact .nextItem (hpad h) rest

theorem Written.pad_members {list : List (Option String × Json)} (h : Written (.members list) cs) :
    Written (.members list) (blanks ++ cs) := by
  have hpad : ∀ {key j cs}, Written (.member key j) cs →
      Written (.member key j) (blanks ++ cs) := by
    intro key j cs h
    cases h with
    | member hbefore hname hafter h =>
      rw [← List.append_assoc]
      exact .member (by rw [List.all_append, hblanks, hbefore]; rfl) hname hafter h
  cases h with
  | lastMember h => exact .lastMember (hpad h)
  | nextMember h rest =>
    rw [← List.append_assoc]
    exact .nextMember (hpad h) rest

end Padding

end SchemaCatalog.Json
