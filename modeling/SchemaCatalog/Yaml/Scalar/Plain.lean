import SchemaCatalog.Yaml.Source

/-!
# SchemaCatalog.Yaml.Scalar.Plain

Scalars without quotes.

A plain scalar ends where something else begins: a colon before a blank, a comment, the
punctuation of a flow collection, or a line that is not indented. Line breaks inside it are
folded as they are between quotes.
-/

namespace SchemaCatalog.Yaml.Plain

/-- What stands between the last character that counts and this place. -/
inductive Gap where
  /-- Nothing has been read yet; `fresh` when nothing but blanks stands before it on its line. -/
  | start (fresh : Bool)
  | none
  | blanks (text : List Char)
  /-- Line breaks, of which `extra` came after the first. -/
  | broken (extra : Nat)
deriving DecidableEq, Repr

namespace Gap

def text : Gap → List Char
  | start _ | none => []
  | blanks text => text
  | broken 0 => [' ']
  | broken extra => List.replicate extra '\n'

/-- Whether nothing but blanks has been read on this line. -/
def isFresh : Gap → Bool
  | start fresh => fresh
  | none | blanks _ => false
  | broken _ => true

def afterBlank (c : Char) : Gap → Gap
  | start fresh => start fresh
  | none => blanks [c]
  | blanks text => blanks (text ++ [c])
  | broken extra => broken extra

def afterBreak : Gap → Gap
  | broken extra => broken (extra + 1)
  | _ => broken 0

end Gap

/-- Whether a character belongs to a plain scalar, given what stands behind it. -/
def continues (inFlow : Bool) (c : Char) (rest : List Char) : Bool :=
  if c = ':' then !(atBlankOrEnd rest || (inFlow && endsOr isFlow rest))
  else !(inFlow && isFlow c)

/-- Whether a character that comes after a gap ends the scalar. -/
def endsAfterGap (gap : Gap) (c : Char) (rest : List Char) : Bool :=
  c = '#' || (gap.isFresh && atDocumentMark (c :: rest))

/-- The text of a plain scalar, the gap behind it, and the place behind that gap. Text that
follows a tab under the indentation is refused, and so is a hyphen before the punctuation of a
flow collection. -/
def read? (inFlow : Bool) (indent : Int) (gap : Gap) (p : Place) :
    Option (List Char × Gap × Place) :=
  match _h : p.rest with
  | [] => some ([], gap, p)
  | c :: rest =>
    if isBlank c then
      if c = '\t' ∧ gap.isFresh ∧ (p.column : Int) < indent then
        match p.tail? with
        | some q =>
          if _hq : q.rest.length < p.rest.length then
            if atLineEnd q.rest then read? inFlow indent gap q else Option.none
          else Option.none
        | Option.none => Option.none
      else read? inFlow indent (gap.afterBlank c) (p.forward 1)
    else if isBreak c then read? inFlow indent gap.afterBreak p.newline
    else if gap ≠ .none ∧ gap.isFresh = true ∧ gap ≠ .start true ∧ inFlow = false ∧
        (p.column : Int) < indent then
      some ([], gap, p)
    else if gap ≠ .none ∧ endsAfterGap gap c rest then some ([], gap, p)
    else if gap ≠ .none ∧ inFlow ∧ c = '-' ∧ rest ≠ [] ∧ endsOr isFlow rest then Option.none
    else if continues inFlow c rest then
      match read? inFlow indent .none (p.forward 1) with
      | some (text, last, q) => some (gap.text ++ c :: text, last, q)
      | Option.none => Option.none
    else some ([], gap, p)
termination_by p.rest.length
decreasing_by
  · exact _hq
  · simp [Place.forward, _h]
  · exact Place.length_newline_lt p (by simp [_h])
  · simp [Place.forward, _h]

/-- A plain scalar that starts at a place, and whether what follows it starts a line. Inside a
flow collection it has to be indented. -/
def scalar? (inFlow fresh : Bool) (indent : Int) (p : Place) : Option (String × Bool × Place) := do
  if inFlow && decide ((p.column : Int) < indent) then Option.none
  else
    let (text, gap, q) ← read? inFlow indent (.start fresh) p
    if text.isEmpty then Option.none else some (String.ofList text, gap.isFresh, q)

end SchemaCatalog.Yaml.Plain
