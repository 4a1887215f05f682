import SchemaCatalog.CommandLine.Arguments

/-!
# SchemaCatalog.CommandLine.Style

Colors in messages.

Colors are escape sequences around a text. Output that goes to no terminal has them only when
they are asked for: by an option, or else by a variable of the environment. Two rules look at the
variables: that of the program, and where it makes no choice, that of painting.
-/

namespace SchemaCatalog.CommandLine

inductive Style where
  | red
  | green
  | yellow
  | cyan
  | dimmed
  | boldRed
  | boldYellow
deriving DecidableEq, Repr

namespace Style

/-- The attributes of a style by their numbers. -/
def numbers : Style → String
  | red => "31"
  | green => "32"
  | yellow => "33"
  | cyan => "36"
  | dimmed => "2"
  | boldRed => "1;31"
  | boldYellow => "1;33"

/-- What switches a style on. -/
def start (style : Style) : List Char := ("\x1b[" ++ style.numbers ++ "m").toList

/-- What switches every style off. -/
def reset : List Char := "\x1b[0m".toList

/-- A text that switches a style on again wherever it switches all styles off. -/
def reopened (style : Style) : List Char → List Char
  | '\x1b' :: '[' :: '0' :: 'm' :: rest => reset ++ style.start ++ style.reopened rest
  | c :: rest => c :: style.reopened rest
  | [] => []

/-- A text in a style, or as it is when there are no colors. -/
def paint (colored : Bool) (style : Style) (text : String) : String :=
  if colored then String.ofList (style.start ++ style.reopened text.toList ++ reset) else text

end Style

/-- The variables that a run can see. -/
abbrev Environment := List (String × String)

/-- Whether a variable is on: it is set, and not to zero. -/
def isOn (environment : Environment) (name : String) : Option Bool :=
  (environment.lookup name).map (· ≠ "0")

/-- What options and variables say about colors, whatever the output is. An option decides first,
then a variable that forbids colors, then one that forces them, then one that switches them off. -/
def Arguments.colorChoice? (a : Arguments) (environment : Environment) : Option Bool :=
  if a.color then some true
  else if a.noColor ∨ (environment.lookup "NO_COLOR").isSome then some false
  else
    match environment.lookup "CLICOLOR_FORCE" with
    | some value => if value ≠ "" ∧ value ≠ "0" then some true else none
    | none => if environment.lookup "CLICOLOR" = some "0" then some false else none

/-- What is done without a choice. Painting looks at the variables once more, by a rule of its own,
and last at the output. -/
def Style.isUsual (environment : Environment) (terminal : Bool) : Bool :=
  if isOn environment "CLICOLOR_FORCE" = some true then true
  else if (environment.lookup "NO_COLOR").isSome then false
  else (isOn environment "CLICOLOR").getD true && terminal

/-- Whether messages have colors. A run writes to no terminal. -/
def Arguments.isColored (a : Arguments) (environment : Environment) : Bool :=
  (a.colorChoice? environment).getD (Style.isUsual environment false)

end SchemaCatalog.CommandLine
