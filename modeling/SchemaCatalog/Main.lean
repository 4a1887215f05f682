import SchemaCatalog.CommandLine.Run

/-!
# SchemaCatalog.Main

The program on a machine.

It looks at the files that a run may ask for, runs, and leaves what the run leaves. It has no
network: every request ends without an answer.
-/

namespace SchemaCatalog.CommandLine

/-- The paths whose files a run may read. -/
def Arguments.paths (a : Arguments) (cwd : Location) : List Path :=
  let dirs := (ConfigChoice.pathOf cwd).ancestors
  (match a.config with
    | some path => [path]
    | none => dirs.flatMap fun dir => Config.fileNames.map dir.join) ++
  a.command.sdl?.toList

/-- The locations on the way along names. -/
def stations (location : Location) : List String → List Location
  | [] => [location]
  | name :: rest =>
    let next :=
      if name = "" ∨ name = "." then location
      else if name = ".." then location.dropLast
      else location ++ [name]
    location :: stations next rest

/-- What the machine has at a location: a directory, or a file from which this is read. -/
def entryAt (read : IO.FS.Handle → IO ByteArray) (location : Location) :
    IO (Option FileTree.Entry) := do
  try
    return some (.file (← read (← IO.FS.Handle.mk (ConfigChoice.pathOf location).text .read)))
  catch
    | .inappropriateType _ 21 _ => return some .directory
    | _ => return none

/-- The files and directories on the way along a path. -/
def lookAlong (read : IO.FS.Handle → IO ByteArray) (cwd : Location) (files : FileTree)
    (path : Path) : IO FileTree :=
  (stations (FileTree.base cwd path) (FileTree.names path)).foldlM (fun files location => do
    match files.entry? location, ← entryAt read location with
    | none, some entry => return files.set location entry
    | _, _ => return files) files

/-- The files and directories that a run may ask for. A file that is only written may have no end,
so one byte of it has to do. -/
def lookAround (cwd : Location) (a? : Option Arguments) : IO FileTree := do
  let here := ConfigChoice.pathOf cwd
  let files ← (here :: (a?.map (·.paths cwd)).getD []).foldlM (lookAlong (·.readBinToEnd) cwd)
    FileTree.empty
  (a?.bind (·.command.output?)).toList.foldlM (lookAlong (·.read 1) cwd) files

/-- What becomes of something that is written on the machine. -/
def outletOf (write : IO Unit) : IO Outlet := do
  try
    write
    return .endless
  catch error => return .limited 0 (.other (toString error))

/-- Write the file of a run, if there is one. -/
def Outcome.store (outcome : Outcome) (cwd : Location) (output : Option Path) : IO Unit := do
  if outcome.code = .success then
    if let some path := output then
      if let .ok contents := outcome.files.read cwd path then
        let handle ← IO.FS.Handle.mk path.text .write
        handle.write contents
        handle.flush

/-- Where the program runs, unless that directory is gone. -/
def currentLocation? : IO (Option Location) := do
  try
    return some (((← IO.currentDir).toString.splitOn "/").filter (· ≠ ""))
  catch _ => return none

/-- Run the program here and now. What it puts out is tried one outlet after the other, and how it
ends follows from what they have taken. -/
def runHere (args : List String) : IO UInt32 := do
  let start ← IO.monoMsNow
  let a? := (Arguments.parse args).toOption
  -- No file has the empty name, so a directory that is gone is not there.
  let (cwd, files) ← match ← currentLocation? with
    | some cwd => pure (cwd, ← lookAround cwd a?)
    | none => pure ([""], FileTree.empty)
  let names := ["NO_COLOR", "CLICOLOR_FORCE", "CLICOLOR"]
  let environment ← names.filterMapM fun name => do
    return (← IO.getEnv name).map (name, ·)
  let elapsed := ((← IO.monoMsNow) - start) / 10
  let world : World := { files, cwd, environment, server := fun _ _ => none, elapsed }
  let ending (o : Outlets) : Outcome := (world.runInto o args).value
  let file ← outletOf ((ending .endless).store cwd (a?.bind (·.command.output?)))
  let o : Outlets := { Outlets.endless with file := fun _ => file }
  let stdout ← outletOf do
    IO.print (ending o).stdout
    (← IO.getStdout).flush
  let o := { o with stdout }
  let stderr ← outletOf (IO.eprint (ending o).stderr)
  return UInt32.ofNat (ending { o with stderr }).code.code

end SchemaCatalog.CommandLine

def main (args : List String) : IO UInt32 := SchemaCatalog.CommandLine.runHere args
