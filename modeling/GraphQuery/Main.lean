import GraphQuery.CommandLine.Run

/-!
# The program

Reads the arguments, the environment and a file of settings, and writes what
`GraphQuery.CommandLine` makes of them.
-/

namespace GraphQuery.Main

open CommandLine

/-- The file with the given name. -/
def readFile (path : String) : IO File := do
  try
    return .text (← IO.FS.readFile path)
  catch
    | .noFileOrDirectory .. => return .missing
    | e => return .unreadable (toString e)

/-- The directory in which users keep settings. -/
def settingsDirectory? : IO (Option String) := do
  match ← IO.getEnv "XDG_CONFIG_HOME" with
  | some directory =>
    if directory.startsWith "/" then return some directory
    else return (← IO.getEnv "HOME").map (· ++ "/.config")
  | none => return (← IO.getEnv "HOME").map (· ++ "/.config")

/-- Where to look for settings. -/
def environment : IO Environment := do
  return ⟨← IO.getEnv "DQLC_CONFIG", (← settingsDirectory?).map (· ++ "/dqlc/config.toml")⟩

/-- Write what the program leaves behind. -/
def finish (r : Result) : IO UInt32 := do
  (← IO.getStdout).putStr r.output
  (← IO.getStderr).putStr r.complaint
  return .ofNat r.status

end GraphQuery.Main

/-- Run the program. -/
def main (args : List String) : IO UInt32 := do
  match GraphQuery.CommandLine.run (← GraphQuery.Main.environment) args with
  | .finish r => GraphQuery.Main.finish r
  | .load path =>
    GraphQuery.Main.finish (GraphQuery.CommandLine.showFile path (← GraphQuery.Main.readFile path))
