import SchemaCatalog.Yaml.Source

/-!
# SchemaCatalog.Yaml.Scalar.Block

Literal and folded scalars: the lines under a bar or an angle bracket.

The header may say how deep the lines are indented and what becomes of the line breaks at the
end. A literal scalar keeps its line breaks; in a folded one a break between two lines that
start with no blank becomes a space.
-/

namespace SchemaCatalog.Yaml.Block

/-- What becomes of the line breaks at the end. -/
inductive Chomping where
  | strip
  /-- One of them stays. -/
  | clip
  | keep
deriving DecidableEq, Repr

structure Header where
  chomping : Chomping
  /-- How much deeper than its surroundings the text is indented; zero when not said. -/
  increment : Nat
deriving DecidableEq, Repr

def chomping? : Char → Option Chomping
  | '+' => some .keep
  | '-' => some .strip
  | _ => none

/-- The digit of an indentation, which is not zero. -/
def increment? (c : Char) : Option Nat :=
  if c = '0' then none else some (c.toNat - '0'.toNat)

/-- The header and the number of its characters; its two parts come in either order. -/
def header? : List Char → Option (Header × Nat)
  | [] => some (⟨.clip, 0⟩, 0)
  | c :: rest =>
    match chomping? c with
    | some chomping =>
      match rest with
      | d :: _ =>
        if isDigit d then (increment? d).map (⟨chomping, ·⟩, 2) else some (⟨chomping, 0⟩, 1)
      | [] => some (⟨chomping, 0⟩, 1)
    | none =>
      if isDigit c then
        match increment? c with
        | none => none
        | some n =>
          match rest.head?.bind chomping? with
          | some chomping => some (⟨chomping, n⟩, 2)
          | none => some (⟨.clip, n⟩, 1)
      else some (⟨.clip, 0⟩, 0)

/-- Behind empty lines and then at most `indent` spaces of a line; the number of empty lines. -/
def pastIndent (indent : Nat) (p : Place) : Nat × Place :=
  let q := p.forward (min (indent - p.column) (p.rest.takeWhile (· = ' ')).length)
  match _h : q.rest with
  | [] => (0, q)
  | c :: _ =>
    if isBreak c then
      let (count, r) := pastIndent indent q.newline
      (count + 1, r)
    else (0, q)
termination_by p.rest.length
decreasing_by
  have h₁ := Place.length_newline_lt q (by simp [_h])
  have h₂ : q.rest.length ≤ p.rest.length := by simp [q, Place.forward]
  exact Nat.lt_of_lt_of_le h₁ h₂

/-- Behind empty lines and then all spaces of a line; the number of empty lines, and the deepest
indentation met. -/
def pastFirstIndent (deepest : Nat) (p : Place) : Nat × Nat × Place :=
  let q := p.past (· = ' ')
  let deepest := max deepest q.column
  match _h : q.rest with
  | [] => (0, deepest, q)
  | c :: _ =>
    if isBreak c then
      let (count, depth, r) := pastFirstIndent deepest q.newline
      (count + 1, depth, r)
    else (0, deepest, q)
termination_by p.rest.length
decreasing_by
  have h₁ := Place.length_newline_lt q (by simp [_h])
  have h₂ : q.rest.length ≤ p.rest.length := by simp [q, Place.past, Place.forward]
  exact Nat.lt_of_lt_of_le h₁ h₂

/-- The line breaks between two lines of content. -/
structure Pending where
  /-- Whether the line before has ended. -/
  ended : Bool
  /-- The number of empty lines behind it. -/
  empty : Nat
  /-- Whether the line before starts with a blank. -/
  blank : Bool
deriving DecidableEq, Repr

/-- What the pending breaks contribute before a line, which may start with a blank. -/
def Pending.text (literal : Bool) (b : Pending) (blank : Bool) : List Char :=
  if !literal && b.ended && !b.blank && !blank then
    if b.empty = 0 then [' '] else List.replicate b.empty '\n'
  else List.replicate ((if b.ended then 1 else 0) + b.empty) '\n'

/-- The lines of the text at an indentation, the pending breaks behind them, and the place there.
-/
def lines (literal : Bool) (indent : Nat) (b : Pending) (p : Place) :
    List Char × Pending × Place :=
  match p.rest with
  | [] => ([], b, p)
  | c :: _ =>
    if p.column ≠ indent ∨ (indent = 0 ∧ atDocumentEnd p.rest) then ([], b, p)
    else
      let blank := isBlank c
      let line := p.rest.takeWhile fun c => !isBreak c
      let q := p.lineEnd
      let before := b.text literal blank ++ line
      match q.rest with
      | [] => (before, ⟨false, 0, blank⟩, q)
      | _ :: _ =>
        let next := pastIndent indent q.newline
        if _hn : next.2.rest.length < p.rest.length then
          let (more, last, r) := lines literal indent ⟨true, next.1, blank⟩ next.2
          (before ++ more, last, r)
        else (before, ⟨true, next.1, blank⟩, next.2)
termination_by p.rest.length
decreasing_by exact _hn

/-- The text of a scalar that has no content: the text ends behind its header. -/
def emptyText (chomping : Chomping) (sameLine : Bool) (empty : Nat) : List Char :=
  match chomping with
  | .strip => []
  | .clip => if sameLine then [] else ['\n']
  | .keep => if sameLine then [] else List.replicate (max empty 1) '\n'

/-- The line breaks at the end of a scalar. A last line without a break gets one. -/
def endText (chomping : Chomping) (b : Pending) (indent : Nat) (p : Place) : List Char :=
  match chomping with
  | .strip => []
  | _ =>
    (if b.ended then ['\n'] else []) ++
      (if p.rest.isEmpty && max indent 1 ≤ p.column then ['\n'] else []) ++
      (if chomping = .keep then List.replicate b.empty '\n' else [])

/-- A scalar whose header starts at a place. `parent` is the indentation around it. -/
def scalar? (literal : Bool) (parent : Int) (p : Place) : Option (String × Place) := do
  let (header, count) ← header? p.rest
  let q ← (p.forward count).tail?
  if !atLineEnd q.rest then none
  else
    let q := if q.rest.isEmpty then q else q.newline
    if q.rest.head? = some '\t' then none
    else
      let (empty, indent, r) :=
        if header.increment = 0 then
          let (empty, deepest, r) := pastFirstIndent 0 q
          (empty, max (max deepest (parent + 1).toNat) (if parent > 0 then 1 else 0), r)
        else
          let indent := (max parent 0).toNat + header.increment
          let (empty, r) := pastIndent indent q
          (empty, indent, r)
      if r.rest.isEmpty then
        some (String.ofList (emptyText header.chomping (r.line = p.line) empty), r)
      else if r.column < indent ∧ parent < (r.column : Int) then none
      else
        let (text, last, s) := lines literal indent ⟨false, empty, false⟩ r
        some (String.ofList (text ++ endText header.chomping last indent s), s)

end SchemaCatalog.Yaml.Block
