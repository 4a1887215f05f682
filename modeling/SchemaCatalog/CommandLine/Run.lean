import SchemaCatalog.Classification
import SchemaCatalog.CommandLine.Failure
import SchemaCatalog.Outlet
import SchemaCatalog.Remote.Fetch
import SchemaCatalog.TypeMap.Json

/-!
# SchemaCatalog.CommandLine.Run

Runs of the program as values.

A run starts from what it can see: files, variables, a server, a clock. It gives back all that it
leaves: the code, the two outputs, the files and the requests. Its steps come in a fixed order,
and the first that fails decides: the configuration, the schema text, the type map, the output.

The steps make out what is to be put out, up to the file that is open for it. Then it goes to the
outlets, and what these do not take is not there at the end.
-/

namespace SchemaCatalog.CommandLine

/-- What a run can see. Logging is off: the variable that asks for it is not set, so nothing but
messages goes to the error output. -/
structure World where
  files : FileTree
  cwd : Location
  environment : Environment
  server : Http.Server
  /-- How long the run takes, in hundredths of a second. -/
  elapsed : Nat
  /-- Why no HTTP client can be made, if none can. -/
  noClient : Option String := none

/-- Where a run puts what it has to say, and its files. -/
structure Outlets where
  stdout : Outlet
  stderr : Outlet
  file : Location → Outlet

/-- Outlets that take everything. -/
def Outlets.endless : Outlets := ⟨.endless, .endless, fun _ => .endless⟩

/-- What a run leaves. -/
structure Outcome where
  code : Ending
  stdout : String
  stderr : String
  files : FileTree
  requests : List Http.Request

/-- The name of the program and its version. -/
def versionText : String := "graphql-typemap 0.1.0\n"

def usageText : String :=
  "Usage: graphql-typemap [OPTIONS] <COMMAND>\n\n" ++
  "Commands:\n" ++
  "  schema fetch  Fetch the deployed SDL of the configured GraphQL API\n" ++
  "  typemap       Build the type map of a schema and print it as JSON\n\n" ++
  "Options:\n" ++
  "  -c, --config <FILE>      Path to config file\n" ++
  "      --dataset <DATASET>  Dataset to use instead of the configured one\n" ++
  "      --api <NAME>         GraphQL API name to use instead of the configured one\n" ++
  "      --color              Force colored output\n" ++
  "      --no-color           Disable colored output\n" ++
  "  -q, --quiet              Suppress all output except warnings and errors\n" ++
  "      --sdl <FILE>         Read SDL from a local file (typemap)\n" ++
  "  -o, --output <FILE>      Output file path (typemap, schema fetch)\n" ++
  "      --pretty             Pretty-print the JSON output (typemap)\n" ++
  "  -h, --help               Print help\n" ++
  "  -V, --version            Print version\n"

/-! ## Results -/

/-- A number of hundredths with two places. -/
def showHundredths (n : Nat) : String :=
  toString (n / 100) ++ "." ++ toString (n / 10 % 10) ++ toString (n % 10)

/-- What a command produces: the text, and what to say about it once it is in a file. -/
structure Product where
  text : String
  summary : (colored : Bool) → Path → String

/-- The sign of success. -/
def tick (colored : Bool) : String := Style.green.paint colored "✓"

def fetchProduct (elapsed : Nat) (c : Config) (sdl : String) : Product where
  text := sdl
  summary colored path :=
    tick colored ++ " Schema for " ++ c.dataset ++ "/" ++ c.graphqlApi ++ " written to " ++
      Style.cyan.paint colored path.text ++ "\n  " ++ Style.dimmed.paint colored "⏱" ++ " " ++
      showHundredths elapsed ++ "s\n"

def typeMapProduct (pretty : Bool) (m : TypeMap) : Product where
  text := m.render (if pretty then .pretty else .compact)
  summary colored path :=
    tick colored ++ " Type map written to " ++ Style.cyan.paint colored path.text ++ " (" ++
      toString m.objects.entries.length ++ " objects, " ++
      toString m.unions.entries.length ++ " unions, " ++
      toString m.scalars.length ++ " scalars)\n"

/-- The classifier of a configuration: names get its type prefix, and there are no examples. -/
def classifierOf (c : Config) : Classifier where
  naming := match c.typePrefix with
    | some start => .prefixed start
    | none => .identity
  examples := .none

/-- The text with a line end behind it, unless it has one. -/
def withLineEnd (text : String) : String :=
  if text.toList.getLast? = some '\n' then text else text ++ "\n"

namespace Command

def sdl? : Command → Option Path
  | fetch _ => none
  | typeMap sdl _ _ => sdl

def output? : Command → Option Path
  | fetch output => output
  | typeMap _ output _ => output

/-- What a command makes of a schema text. -/
def product (command : Command) (elapsed : Nat) (c : Config) (sdl : String) :
    Logged (Except SchemaError Product) :=
  match command with
  | fetch _ => pure (.ok (fetchProduct elapsed c sdl))
  | typeMap _ _ pretty => do
    let classified ← (classifierOf c).classify sdl c
    return classified.map (typeMapProduct pretty)

end Command

/-! ## Steps -/

/-- What a run is to put out in the end. -/
inductive Delivery where
  /-- The result on the standard output. -/
  | printed (text : String)
  /-- The result in a file, and on the standard output what is said about it. -/
  | stored (path : Path) (spot : Location) (text summary : String)
deriving DecidableEq, Repr

namespace World

/-- What carries the requests, or why there is nothing to carry them. -/
def carrier (w : World) : Except String Http.Server :=
  match w.noClient with
  | none => .ok w.server
  | some cause => .error cause

/-- The configuration. Even a file that is named is not looked for without a working directory. -/
def configuration (w : World) (choice : ConfigChoice) : Logged (Except ConfigFailure Config) :=
  match w.files.entry? w.cwd with
  | some .directory => choice.resolve w.files w.cwd (ConfigChoice.pathOf w.cwd)
  | _ => pure (.error (.noDirectory .notFound))

/-- The schema text: that of a file, or else the deployed one. -/
def schemaText (w : World) (c : Config) (sdl : Option Path) :
    Logged (Http.Exchanged (Except Failure String)) :=
  match sdl with
  | some path => pure ⟨(w.files.readText w.cwd path).mapError (.reading path), []⟩
  | none => do
    let exchanged ← Remote.fetchSchemaBy w.carrier (.ofConfig c) c
    return ⟨exchanged.result.mapError .remote, exchanged.requests⟩

/-- Open a file for a product, unless it goes to the standard output. -/
def deliver (w : World) (colored quiet : Bool) (output : Option Path) (p : Product) :
    Except Failure Delivery :=
  match output with
  | none => .ok (.printed (withLineEnd p.text))
  | some path =>
    match w.files.target w.cwd path with
    | .error cause => .error (.writing path cause)
    | .ok spot => .ok (.stored path spot p.text (if quiet then "" else p.summary colored path))

end World

/-! ## Ends -/

/-- The end of a run that fails with this on the standard output and in the files. When the program
cannot tell of the failure, it panics. -/
def Outlets.fail (o : Outlets) (colored : Bool) (requests : List Http.Request) (stdout : String)
    (files : FileTree) (failure : Failure) : Outcome where
  code :=
    if failure.isTold && o.stderr.refuses (failure.text colored) then .panic
    else .exit failure.exitCode
  stdout := stdout
  stderr := o.stderr.textTaken (failure.text colored)
  files := files
  requests := requests

namespace World

/-- The end of a run. -/
def finish (w : World) (o : Outlets) (colored : Bool) (requests : List Http.Request) :
    Except Failure Delivery → Outcome
  | .error failure => o.fail colored requests "" w.files failure
  | .ok (.printed text) =>
    match o.stdout.refusal? text with
    | some cause => o.fail colored requests (o.stdout.textTaken text) w.files (.printing cause)
    | none => ⟨.success, text, "", w.files, requests⟩
  | .ok (.stored path spot text summary) =>
    let files := w.files.set spot (.file ((o.file spot).bytesTaken text))
    match (o.file spot).refusal? text with
    | some cause => o.fail colored requests "" files (.writing path cause)
    | none =>
      match o.stdout.refusal? summary with
      | some cause => ⟨.panic, o.stdout.textTaken summary, o.stderr.textTaken (panicText cause),
          files, requests⟩
      | none => ⟨.success, summary, "", files, requests⟩

/-! ## Runs -/

/-- Run a command with its configuration. -/
def runWith (w : World) (o : Outlets) (a : Arguments) (c : Config) : Logged Outcome := do
  let colored := a.isColored w.environment
  let sdl ← w.schemaText c a.command.sdl?
  match sdl.result with
  | .error failure => return w.finish o colored sdl.requests (.error failure)
  | .ok text =>
    match ← a.command.product w.elapsed c text with
    | .error error => return w.finish o colored sdl.requests (.error (.schema error))
    | .ok product =>
      return w.finish o colored sdl.requests (w.deliver colored a.quiet a.command.output? product)

/-- Run what a command line asks for. -/
def execute (w : World) (o : Outlets) (a : Arguments) : Logged Outcome := do
  match ← w.configuration a.configChoice with
  | .error cause =>
    return w.finish o (a.isColored w.environment) [] (.error (.config cause))
  | .ok c => w.runWith o a c

/-- What a command line that starts no run leaves. -/
def halted (w : World) (o : Outlets) : Halt → Outcome
  | .version => ⟨.success, o.stdout.textTaken versionText, "", w.files, []⟩
  | .help => ⟨.success, o.stdout.textTaken usageText, "", w.files, []⟩
  | .usage fault =>
    ⟨.exit .configError, "",
      o.stderr.textTaken ("error: " ++ fault.message ++ "\n\n" ++ usageText), w.files, []⟩

/-- Run the program with arguments, and put into outlets what it puts out. -/
def runInto (w : World) (o : Outlets) (args : List String) : Logged Outcome :=
  match Arguments.parse args with
  | .error halt => pure (w.halted o halt)
  | .ok a => w.execute o a

/-- Run the program with arguments, where everything that it puts out is taken. -/
def run (w : World) (args : List String) : Logged Outcome := w.runInto .endless args

end World

end SchemaCatalog.CommandLine
