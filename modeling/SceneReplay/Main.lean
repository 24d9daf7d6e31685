import SceneReplay.CommandLine.Run

/-!
# The program

Carries out `SceneReplay.CommandLine.run` in the world: reads the environment
variables, looks at the files and directories that the named paths pass, prints the
outcome and writes the output file.
-/

namespace SceneReplay.CommandLine

/-- The environment variables that the settings are read from. -/
def settingsEnvironment : IO Environment := do
  let names :=
    [Settings.modeVariable, Settings.logVariable, Settings.limitVariable,
      Settings.captureVariable]
  names.filterMapM fun name => do
    return (← IO.getEnv name).map fun value => (name, value)

/-- A location as a path from the root. -/
def rootedPath (l : Location) : String := "/" ++ String.intercalate "/" l

/-- The files and directories that a run sees so far, and whatever is at one more
location. -/
def lookAt (files : Files) (l : Location) : IO Files := do
  try
    let _ ← IO.FS.realPath (rootedPath l ++ "/.")
    return { files with directories := l :: files.directories }
  catch _ =>
    try
      let bytes ← IO.FS.readBinFile (rootedPath l)
      return { files with contents := (l, bytes.toList) :: files.contents }
    catch _ => return files

/-- The paths that a run uses. -/
def usedPaths : Invocation → List String
  | .expand file output .. => file :: output.toList
  | .inspect file _ => [file]
  | _ => []

/-- The files and directories that a run sees. -/
def visibleFiles (invocation : Invocation) : IO Files := do
  let home := pathSteps (← IO.currentDir).toString
  let locations := (usedPaths invocation).flatMap fun path =>
    Files.passed (Files.start home path) (pathSteps path)
  locations.foldlM lookAt ⟨home, [], []⟩

/-- Prints what a run leaves, and writes its files. A failure to write is left to the
operating system. -/
def Outcome.deliver (outcome : Outcome) : IO Unit := do
  match outcome.written with
  | some w => IO.FS.writeFile w.path w.text
  | none => pure ()
  IO.print (outcome.printed.getD "")
  for entry in outcome.shown do
    for line in entry.plainLines do
      IO.println line
  match outcome.escaped with
  | some escape => IO.eprintln escape.message
  | none => pure ()

end SceneReplay.CommandLine

/-- Runs the program. -/
def main (args : List String) : IO UInt32 := do
  let env ← SceneReplay.CommandLine.settingsEnvironment
  let files ← SceneReplay.CommandLine.visibleFiles (SceneReplay.CommandLine.parse args)
  let outcome := SceneReplay.CommandLine.run env files args
  outcome.deliver
  return outcome.status.toUInt32
