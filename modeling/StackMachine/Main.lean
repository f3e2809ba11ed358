import Std.Time
import StackMachine.CommandLine.Session

/-!
The command line program: gathers the surroundings of a session and carries out its outcome.
-/

set_option autoImplicit false

namespace StackMachine.CommandLine

def FileFault.ofError : IO.Error → FileFault
  | .permissionDenied .. => .permissionDenied
  | .inappropriateType _ code _ => if code = 21 then .isADirectory else .notADirectory
  | .invalidArgument .. => .nameTooLong
  | _ => .notFound

def currentTime : IO String := do
  let now := Std.Time.DateTime.ofTimestampWithZone (← Std.Time.Timestamp.now) .UTC
  return now.format "uuuu-MM-dd'T'HH:mm:ss.SSSSSS'Z'"

def sourceFile (args : List String) : IO (Except FileFault (Array UInt8)) := do
  match Options.ofArgs args with
  | .ok { source := some path, .. } =>
    try
      return .ok (← IO.FS.readBinFile path).data
    catch e => return .error (.ofError e)
  | _ => return .error .notFound

def settingNames : List String :=
  ["RUST_LOG", "NO_COLOR", "FORCE_COLOR", "CLICOLOR_FORCE", "IGNORE_IS_TERMINAL", "TERM",
    "COLORTERM", "CLICOLOR", "TERM_PROGRAM", "CI", "PHYTO_STACK_CAPACITY", "PHYTO_MAX_PAGES"] ++
    serviceSettings

partial def readAll (stream : IO.FS.Stream) (before : String) : IO String := do
  let line ← stream.getLine
  if line.isEmpty then return before else readAll stream (before ++ line)

def sessionInput (args : List String) : IO String := do
  match Options.ofArgs args with
  | .ok { debug := true, .. } => readAll (← IO.getStdin) ""
  | _ => return ""

def surroundings (args : List String) : IO Surroundings := do
  let file ← sourceFile args
  let settings ← settingNames.mapM fun key => return (key, ← IO.getEnv key)
  return {
    contents := fun _ => file
    writeFault? := fun _ => none
    setting? := fun key => (settings.lookup key).join
    input := ← sessionInput args
    time := ← currentTime }

/-- Writes the file of an outcome; if the system refuses, the session ends with that fault instead. -/
def writeOutcome (s : Surroundings) (args : List String) (o : Outcome) : IO Outcome := do
  match o.written with
  | none => return o
  | some (path, bytes) =>
    try
      IO.FS.writeBinFile path ⟨bytes⟩
      return o
    catch e =>
      let fault := FileFault.ofError e
      return outcome { s with writeFault? := fun _ => some fault } args

end StackMachine.CommandLine

open StackMachine.CommandLine in
def main (args : List String) : IO UInt32 := do
  let s ← surroundings args
  let o ← writeOutcome s args (outcome s args)
  (← IO.getStderr).putStr o.err
  (← IO.getStdout).putStr o.out
  return UInt32.ofNat o.exit
