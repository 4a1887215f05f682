/-!
# SchemaCatalog.CommandLine.Opt

The options of the command line and the commands they belong to.

A command line goes down from the program to a command, word by word, and every place on the way
has options of its own. Most options are known everywhere; each place takes an option once.
-/

namespace SchemaCatalog.CommandLine

inductive Opt where
  /-- The configuration file. -/
  | config
  /-- The dataset, instead of the configured one. -/
  | dataset
  /-- The API, instead of the configured one. -/
  | api
  | color
  | noColor
  /-- No summaries. -/
  | quiet
  /-- A schema text in a file, instead of the deployed one. -/
  | sdl
  /-- Where the result goes, instead of the standard output. -/
  | output
  /-- A type map on many lines. -/
  | pretty
  | version
  | help
deriving DecidableEq, Repr

namespace Opt

/-- The name behind two hyphens. -/
def name : Opt → String
  | config => "config"
  | dataset => "dataset"
  | api => "api"
  | color => "color"
  | noColor => "no-color"
  | quiet => "quiet"
  | sdl => "sdl"
  | output => "output"
  | pretty => "pretty"
  | version => "version"
  | help => "help"

/-- The letter behind one hyphen. -/
def letter? : Opt → Option Char
  | config => some 'c'
  | quiet => some 'q'
  | output => some 'o'
  | version => some 'V'
  | help => some 'h'
  | dataset | api | color | noColor | sdl | pretty => none

/-- Whether the value is a path. -/
def isPath : Opt → Bool
  | config | sdl | output => true
  | _ => false

def takesValue : Opt → Bool
  | config | dataset | api | sdl | output => true
  | color | noColor | quiet | pretty | version | help => false

/-- The options that are known everywhere. -/
def everywhere : List Opt := [config, dataset, api, color, noColor, quiet, help]

end Opt

/-- How far a command line has come. -/
inductive Place where
  | program
  /-- Among the commands about schemas. -/
  | schema
  /-- At the command that fetches a schema text. -/
  | fetch
  /-- At the command that builds a type map. -/
  | typeMap
deriving DecidableEq, Repr

namespace Place

def options : Place → List Opt
  | program => .version :: Opt.everywhere
  | schema => Opt.everywhere
  | fetch => .output :: Opt.everywhere
  | typeMap => .sdl :: .output :: .pretty :: Opt.everywhere

/-- The commands below a place. -/
def commands : Place → List (String × Place)
  | program => [("schema", schema), ("typemap", typeMap)]
  | schema => [("fetch", fetch)]
  | fetch | typeMap => []

def named? (place : Place) (name : String) : Option Opt :=
  place.options.find? (·.name = name)

def lettered? (place : Place) (letter : Char) : Option Opt :=
  place.options.find? (·.letter? = some letter)

end Place

end SchemaCatalog.CommandLine
