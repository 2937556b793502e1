import Signatory.Console

/-!
# The program

Reads commands from standard input and prints one answer per line.
-/

open Signatory

/-- The settings that the environment holds. -/
def settingsEnvironment : IO (List (String × String)) :=
  Settings.Field.all.filterMapM fun f ↦ do
    return (← IO.getEnv f.environmentName).map fun text ↦ (f.environmentName, text)

/-- The bytes up to the next line feed, which is left out; `none` at the end of the input. -/
partial def readLine (input : IO.FS.Stream) (done : Array UInt8) : IO (Option Bytes) := do
  match (← input.read 1).toList with
  | [] => return if done.isEmpty then none else some done.toList
  | 0x0A :: _ => return some done.toList
  | b :: _ => readLine input (done.push b)

/-- Answer each line of the input as it comes. -/
partial def serve (endpoint : String) (input output : IO.FS.Stream) (s : Service.State) :
    IO Console.Exit := do
  match ← readLine input #[] with
  | none => return .done
  | some line =>
    match Console.turn endpoint s line with
    | .next answer s =>
      for v in answer do
        output.putStrLn v.render
        output.flush
      serve endpoint input output s
    | .stop exit => return exit

def main (words : List String) : IO UInt32 := do
  match Settings.read words (← settingsEnvironment) with
  | .error .help =>
    IO.println Settings.help
    return Console.Exit.done.code
  | .error _ => return Console.Exit.usage.code
  | .ok settings =>
    match settings.validate with
    | .error e =>
      IO.eprintln e.message
      return Console.Exit.invalidSettings.code
    | .ok () =>
      let s := Service.State.start settings.policy .direct
      return (← serve settings.ledgerUrl (← IO.getStdin) (← IO.getStdout) s).code
