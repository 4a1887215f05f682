import SchemaCatalog.CommandLine.Opt
import SchemaCatalog.Path

/-!
# SchemaCatalog.CommandLine.Arguments

What a command line asks for.

Arguments are read from left to right. Each place of the command line collects its options, and
an option that is given at several places counts where it stands deepest. The first fault ends
the reading, and so do the options that ask for the version or for help.
-/

namespace SchemaCatalog.CommandLine

/-- What is wrong with a command line. -/
inductive UsageFault where
  | unknownOption (text : String)
  | unexpectedArgument (text : String)
  | missingValue (option : Opt)
  | emptyValue (option : Opt)
  | unexpectedValue (option : Opt)
  | repeated (option : Opt)
  /-- Colors are wanted and not wanted. -/
  | colorConflict
  | missingCommand
deriving DecidableEq, Repr

def UsageFault.message : UsageFault → String
  | unknownOption text | unexpectedArgument text => "unexpected argument '" ++ text ++ "' found"
  | missingValue option | emptyValue option =>
    "a value is required for '--" ++ option.name ++ "' but none was supplied"
  | unexpectedValue option => "no value is expected for '--" ++ option.name ++ "'"
  | repeated option =>
    "the argument '--" ++ option.name ++ "' cannot be used multiple times"
  | colorConflict => "the argument '--color' cannot be used with '--no-color'"
  | missingCommand => "a command is required but one was not provided"

/-- Why a command line starts no run. -/
inductive Halt where
  | version
  | help
  | usage (fault : UsageFault)
deriving DecidableEq, Repr

/-! ## Words -/

/-- An argument by its hyphens. -/
inductive Word where
  /-- Two hyphens alone: no option follows. -/
  | stop
  | long (name : String) (value : Option String)
  | short (letters : List Char)
  | plain (text : String)
deriving DecidableEq, Repr

def Word.of (arg : String) : Word :=
  match arg.toList with
  | ['-', '-'] => .stop
  | '-' :: '-' :: text =>
    let name := text.takeWhile (· ≠ '=')
    .long (String.ofList name) (match text.drop name.length with
      | _ :: value => some (String.ofList value)
      | [] => none)
  | ['-'] => .plain arg
  | '-' :: letters => .short letters
  | _ => .plain arg

/-! ## Options by place -/

/-- The options that are given at a place, with their values; a flag has an empty one. -/
structure Stage where
  place : Place
  given : List (Opt × String)
deriving DecidableEq, Repr

namespace Stage

def has (stage : Stage) (option : Opt) : Bool := (stage.given.lookup option).isSome

/-- Add an option. -/
def give (stage : Stage) (option : Opt) (value : String) : Except Halt Stage :=
  if option = .version then .error .version
  else if option = .help then .error .help
  else if stage.has option then .error (.usage (.repeated option))
  else if option.isPath ∧ value = "" then .error (.usage (.emptyValue option))
  else .ok { stage with given := stage.given ++ [(option, value)] }

/-- Add an option by its name. One that still wants its value is returned. -/
def giveLong (stage : Stage) (name : String) (value : Option String) :
    Except Halt (Stage × Option Opt) :=
  match stage.place.named? name, value with
  | none, _ => .error (.usage (.unknownOption ("--" ++ name)))
  | some option, none =>
    if option.takesValue then .ok (stage, some option)
    else (stage.give option "").map (·, none)
  | some option, some value =>
    if option.takesValue then (stage.give option value).map (·, none)
    else .error (.usage (.unexpectedValue option))

/-- Add options by their letters. The first of them that takes a value takes all that follows it;
one that still wants its value is returned. -/
def giveShort (stage : Stage) : List Char → Except Halt (Stage × Option Opt)
  | [] => .ok (stage, none)
  | letter :: rest =>
    match stage.place.lettered? letter with
    | none => .error (.usage (.unknownOption (String.ofList ['-', letter])))
    | some option =>
      if option.takesValue then
        match rest with
        | [] => .ok (stage, some option)
        | '=' :: value => (stage.give option (String.ofList value)).map (·, none)
        | value => (stage.give option (String.ofList value)).map (·, none)
      else
        match stage.give option "" with
        | .error halt => .error halt
        | .ok stage => stage.giveShort rest

/-- Add the options of a word; other words hold none. -/
def giveWord (stage : Stage) : Word → Except Halt (Stage × Option Opt)
  | .long name value => stage.giveLong name value
  | .short letters => stage.giveShort letters
  | .stop | .plain _ => .ok (stage, none)

end Stage

/-- Go to the place that a word names. -/
def enter (place : Place) (text : String) : Except Halt Place :=
  match place.commands.lookup text with
  | some next => .ok next
  | none =>
    if text = "help" ∧ place.commands ≠ [] then .error .help
    else .error (.usage (.unexpectedArgument text))

/-- Read the arguments that follow the stages before and those of the current stage. -/
def scan (before : List Stage) (stage : Stage) : List String → Except Halt (List Stage)
  | [] => .ok (before ++ [stage])
  | arg :: rest =>
    match Word.of arg with
    | .stop =>
      match rest with
      | [] => .ok (before ++ [stage])
      | text :: _ => .error (.usage (.unexpectedArgument text))
    | .plain text =>
      match enter stage.place text with
      | .error halt => .error halt
      | .ok place => scan (before ++ [stage]) ⟨place, []⟩ rest
    | word =>
      match stage.giveWord word with
      | .error halt => .error halt
      | .ok (stage, none) => scan before stage rest
      | .ok (stage, some option) =>
        match rest with
        | [] => .error (.usage (.missingValue option))
        | value :: rest =>
          match Word.of value with
          | .plain _ =>
            match stage.give option value with
            | .error halt => .error halt
            | .ok stage => scan before stage rest
          | _ => .error (.usage (.missingValue option))

/-! ## Requests -/

/-- What the program does. -/
inductive Command where
  /-- Fetch the deployed schema text. -/
  | fetch (output : Option Path)
  /-- Build the type map of a schema. -/
  | typeMap (sdl output : Option Path) (pretty : Bool)
deriving DecidableEq, Repr

structure Arguments where
  /-- The configuration file. -/
  config : Option Path
  /-- The dataset, instead of the configured one. -/
  dataset : Option String
  /-- The API, instead of the configured one. -/
  api : Option String
  color : Bool
  noColor : Bool
  quiet : Bool
  command : Command
deriving DecidableEq, Repr

namespace Arguments

/-- The value of an option where it is given deepest. -/
def value? (stages : List Stage) (option : Opt) : Option String :=
  stages.reverse.findSome? (·.given.lookup option)

def flag (stages : List Stage) (option : Opt) : Bool := (value? stages option).isSome

def path? (stages : List Stage) (option : Opt) : Option Path :=
  (value? stages option).map Path.mk

/-- The command that the last place stands for. -/
def command? (stages : List Stage) : Option Command :=
  match stages.getLast?.map Stage.place with
  | some .fetch => some (.fetch (path? stages .output))
  | some .typeMap =>
    some (.typeMap (path? stages .sdl) (path? stages .output) (flag stages .pretty))
  | _ => none

/-- The request that the options of all places make together. -/
def ofStages (stages : List Stage) : Except Halt Arguments :=
  if stages.any fun stage => stage.has .color && stage.has .noColor then
    .error (.usage .colorConflict)
  else
    match command? stages with
    | none => .error (.usage .missingCommand)
    | some command => .ok {
        config := path? stages .config
        dataset := value? stages .dataset
        api := value? stages .api
        color := flag stages .color
        noColor := flag stages .noColor
        quiet := flag stages .quiet
        command }

/-- Read a command line, without the name of the program. -/
def parse (args : List String) : Except Halt Arguments :=
  match scan [] ⟨.program, []⟩ args with
  | .error halt => .error halt
  | .ok stages => ofStages stages

end Arguments

end SchemaCatalog.CommandLine
