import MissionText.Command.Help
import MissionText.Command.Run

/-!
# The program

Reads what a call asks for, runs it, and shows what came of it.
-/

namespace MissionText

/-- Why the system could not read something. -/
def ReadFailure.ofError : IO.Error → ReadFailure
  | .noFileOrDirectory _ _ _ => .notFound
  | .inappropriateType _ 20 _ => .notDirectory
  | .inappropriateType _ 21 _ => .isDirectory
  | error => .other (toString error)

/-- What a reading gives, if it can be done. -/
def attempt {α : Type} (reading : IO α) : IO (Except ReadFailure α) := do
  try
    return .ok (← reading)
  catch error =>
    return .error (.ofError error)

/-- What reading each entry of a directory gives. -/
def listing (path : String) : IO Listing := do
  let directory ← IO.FS.realPath path
  (← directory.readDir).toList.mapM fun entry => do
    return (.ofText entry.fileName, ← attempt (IO.FS.readBinFile entry.path))

/-- The rest of a stream. -/
partial def remainder (stream : IO.FS.Stream) (read : ByteArray) : IO ByteArray := do
  let bytes ← stream.read 65536
  if bytes.isEmpty then return read else remainder stream (read ++ bytes)

/-- Read what a call asks for, and nothing else. -/
def supplies (invocation : Invocation) : IO Supplies := do
  let catalog ← match invocation.catalog with
    | some path => attempt (IO.FS.readBinFile path)
    | none => pure (.error .notFound)
  let profiles ← match invocation.profiles with
    | some path => attempt (listing path)
    | none => pure (.error .notFound)
  let input ← match invocation.action with
    | .parse none => remainder (← IO.getStdin) .empty
    | _ => pure .empty
  return ⟨catalog, profiles, input, ← (← IO.getStdout).isTty⟩

/-- Show what came of a call that began at a time. -/
def Outcome.show (outcome : Outcome) (began : Nat) : IO Unit := do
  match outcome with
  | .failed message => IO.eprintln message
  | .done output _ timed =>
    IO.print output
    if let some palette := timed then
      let elapsed := (← IO.monoNanosNow) - began
      IO.print (textOfLines (elapsedLines palette (toString (elapsed / 1000) ++ "µs")))

/-- Run the program with its arguments, and tell the status with which it
ends. -/
def runProgram (arguments : List String) : IO UInt32 := do
  match Invocation.ofArguments arguments with
  | .error .version =>
    IO.print versionLine
    return 0
  | .error (.help topic) =>
    IO.print topic.text
    return 0
  | .error .refused =>
    IO.eprint refusalText
    return 2
  | .ok invocation =>
    let began ← IO.monoNanosNow
    let outcome := invocation.run (← supplies invocation)
    outcome.show began
    return outcome.status.toUInt32

end MissionText

/-- The program. -/
def main (arguments : List String) : IO UInt32 := MissionText.runProgram arguments
