import SchemaCatalog.Sdl.Token

/-!
# SchemaCatalog.Sdl.Cursor

A place in a list of lexemes, with the complaints so far, and the small steps from which the
grammar is built.

Lexemes are looked at as late as possible: an invalid one is reported when the place behind it
is first looked at, so complaints about lexemes and about the grammar come in the order in which
a reader of the text meets them. Once the nesting gets too deep, the grammar falls silent, while
invalid lexemes are still reported.

A complaint that was made stays: every `Parse` carries the proof that it only adds to them. So
a run that ends without complaints was without them all the way.
-/

namespace SchemaCatalog.Sdl

structure Cursor where
  rest : List Lexeme
  /-- The complaints so far, the latest first. -/
  errors : List SyntaxError
  /-- Whether the grammar has fallen silent. -/
  silenced : Bool
  /-- Where the last token that was taken ends, ignored ones aside. -/
  reach : Nat
  /-- The number of lexemes of the whole text, which no repetition exceeds. -/
  bound : Nat
deriving DecidableEq, Repr

/-- Blanks, comments and commas may stand between any two tokens. -/
def Kind.isIgnored : Kind → Bool
  | .blank | .comment | .punctuator ',' => true
  | _ => false

namespace Cursor

def start (lexemes : List Lexeme) : Cursor := ⟨lexemes, [], false, 0, lexemes.length⟩

/-- Report the invalid lexemes up to the next token. -/
def settleList : List Lexeme → List SyntaxError → List Lexeme × List SyntaxError
  | .invalid error _ :: rest, errors => settleList rest (error :: errors)
  | rest, errors => (rest, errors)

def settle (c : Cursor) : Cursor :=
  let (rest, errors) := settleList c.rest c.errors
  { c with rest := rest, errors := errors }

/-- Report the invalid lexemes and drop the ignored tokens up to the next token that counts. -/
def skipList : List Lexeme → List SyntaxError → List Lexeme × List SyntaxError
  | .invalid error _ :: rest, errors => skipList rest (error :: errors)
  | .token t :: rest, errors =>
    if t.kind.isIgnored then skipList rest errors else (.token t :: rest, errors)
  | [], errors => ([], errors)

def skip (c : Cursor) : Cursor :=
  let (rest, errors) := skipList c.rest c.errors
  { c with rest := rest, errors := errors }

/-- The token at the head of a settled cursor. -/
def head? (c : Cursor) : Option Token :=
  match c.rest with
  | .token t :: _ => some t
  | _ => none

/-- Take the token at the head of a settled cursor. -/
def advance (c : Cursor) : Cursor :=
  match c.rest with
  | .token t :: rest =>
    { c with rest := rest, reach := if t.kind.isIgnored then c.reach else t.stop }
  | _ => c

def report (c : Cursor) (message : String) (offset : Nat) : Cursor :=
  if c.silenced then c else { c with errors := ⟨message, offset⟩ :: c.errors }

/-- The token behind the one at the head. Invalid lexemes, blanks and comments do not count,
commas do, and nothing is reported. -/
def second? (c : Cursor) : Option Token :=
  c.rest.tail.findSome? fun
    | .token t => if t.kind = .blank ∨ t.kind = .comment then none else some t
    | .invalid _ _ => none

/-! ## Complaints only come in addition -/

theorem settleList_suffix (ls : List Lexeme) (errors : List SyntaxError) :
    errors <:+ (settleList ls errors).2 := by
  fun_induction settleList ls errors with
  | case1 error _ rest errors ih => exact (List.suffix_cons error errors).trans ih
  | case2 => exact List.suffix_refl _

theorem skipList_suffix (ls : List Lexeme) (errors : List SyntaxError) :
    errors <:+ (skipList ls errors).2 := by
  fun_induction skipList ls errors with
  | case1 error _ rest errors ih => exact (List.suffix_cons error errors).trans ih
  | case2 t rest errors _ ih => exact ih
  | case3 => exact List.suffix_refl _
  | case4 => exact List.suffix_refl _

theorem errors_settle (c : Cursor) : c.errors <:+ c.settle.errors :=
  settleList_suffix c.rest c.errors

theorem errors_skip (c : Cursor) : c.errors <:+ c.skip.errors :=
  skipList_suffix c.rest c.errors

theorem errors_advance (c : Cursor) : c.errors <:+ c.advance.errors := by
  unfold advance
  split <;> exact List.suffix_refl _

theorem errors_report (message : String) (offset : Nat) (c : Cursor) :
    c.errors <:+ (c.report message offset).errors := by
  unfold report
  split
  · exact List.suffix_refl _
  · exact List.suffix_cons _ _

end Cursor

/-! ## Steps of reading -/

/-- What reads on from a cursor and takes no complaint back. -/
structure Parse (α : Type) where
  run : Cursor → α × Cursor
  grows : ∀ c, c.errors <:+ (run c).2.errors

namespace Parse

instance : Monad Parse where
  pure a := ⟨fun c => (a, c), fun _ => List.suffix_refl _⟩
  bind p f :=
    ⟨fun c =>
      let (a, next) := p.run c
      (f a).run next,
    fun c => (p.grows c).trans ((f (p.run c).1).grows (p.run c).2)⟩

/-- What a question about the cursor answers. -/
def inspect {α : Type} (question : Cursor → α) : Parse α :=
  ⟨fun c => (question c, c), fun _ => List.suffix_refl _⟩

def update (step : Cursor → Cursor) (grows : ∀ c, c.errors <:+ (step c).errors) : Parse Unit :=
  ⟨fun c => ((), step c), grows⟩

def settle : Parse Unit := update Cursor.settle Cursor.errors_settle

def advance : Parse Unit := update Cursor.advance Cursor.errors_advance

/-- Drop the ignored tokens up to the next token that counts. -/
def skip : Parse Unit := update Cursor.skip Cursor.errors_skip

def report (message : String) (offset : Nat) : Parse Unit :=
  update (·.report message offset) (Cursor.errors_report message offset)

/-- The number of lexemes of the whole text. -/
def bound : Parse Nat := inspect (·.bound)

/-- The next token, ignored ones included; `none` behind the end. -/
def peek : Parse (Option Token) := do
  settle
  inspect Cursor.head?

/-- Whether the next token is of a kind. -/
def sees (kind : Kind) : Parse Bool :=
  return (← peek).any (·.kind = kind)

def seesAny (kinds : List Kind) : Parse Bool :=
  return (← peek).any (kinds.contains ·.kind)

/-- Whether the next token is a word. -/
def seesWord (word : String) : Parse Bool :=
  return (← peek).any (·.text = word)

def seesAnyWord (words : List String) : Parse Bool :=
  return (← peek).any (words.contains ·.text)

/-- The token behind the next one. -/
def second : Parse (Option Token) := do
  settle
  inspect Cursor.second?

/-- Take the next token and nothing else. -/
def pop : Parse (Option Token) := do
  let token ← peek
  advance
  return token

/-- Take the next token and the ignored ones behind it. -/
def bump : Parse Unit := do
  let _ ← pop
  skip

/-- Complain about the next token and leave it. -/
def complain (message : String) : Parse Unit := do
  match ← peek with
  | some token => report message token.offset
  | none => return

/-- Complain about the next token and drop it. -/
def complainAndDrop (message : String) : Parse Unit := do
  match ← pop with
  | some token =>
    report message token.offset
    skip
  | none => return

/-- Complain about a token that is the culprit. -/
def blame (message : String) : Option Token → Parse Unit
  | some token => report message token.offset
  | none => return

/-- Take a token of this kind, or complain that `label` is missing. -/
def expect (kind : Kind) (label : String) : Parse Unit := do
  match ← peek with
  | some token =>
    if token.kind = kind then bump
    else if token.kind = .endOfInput then
      report ("expected " ++ label ++ ", got EOF") token.offset
    else
      report ("expected " ++ label ++ ", got " ++ token.text) token.offset
  | none => return

/-- Complain that the text nests too deep, and be silent from here on. -/
def tooDeep : Parse Unit := do
  match ← peek with
  | some token =>
    report "parser recursion limit reached" token.offset
    update ({ · with silenced := true }) fun _ => List.suffix_refl _
  | none => return

/-- Read one thing when a test holds, and another when not. -/
def given {α : Type} (test : Parse Bool) (item otherwise : Parse α) : Parse α := do
  if ← test then item else otherwise

/-- Read something when a test holds. -/
def whenever (test : Parse Bool) (item : Parse Unit) : Parse Unit := given test item (pure ())

/-- Complain when a test fails. -/
def demand (test : Parse Bool) (complaint : String) : Parse Unit :=
  given test (pure ()) (complain complaint)

/-- Read items as long as `more` holds, at most `n` of them. -/
def repeatUpTo {α : Type} (more : Parse Bool) (item : Parse α) : Nat → Parse (List α)
  | 0 => return []
  | n + 1 => do
    if ← more then
      let first ← item
      let others ← repeatUpTo more item n
      return first :: others
    else
      return []

/-- Read items as long as `more` holds. Every item takes a lexeme, so their number is bounded. -/
def many {α : Type} (more : Parse Bool) (item : Parse α) : Parse (List α) := do
  repeatUpTo more item (← bound)

/-- A name, or the complaint that there is none. -/
def name (complaint : String) : Parse (Option String) := do
  if ← sees .name then
    let token ← peek
    bump
    return token.map (·.text)
  else
    complain complaint
    return none

/-- What `item` reads, with the source text from its first token to its last. -/
def withSource {α : Type} (item : Parse α) : Parse (α × String) := do
  let _ ← peek
  let before ← inspect (·.rest)
  let a ← item
  let reach ← inspect (·.reach)
  return (a, String.join ((before.takeWhile (·.offset < reach)).map (·.text)))

end Parse

end SchemaCatalog.Sdl
