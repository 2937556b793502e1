import Signatory.Command
import Signatory.Settings.Options

/-!
# The console

The program reads commands line by line and answers each with one line. Blank lines are passed over.
It ends at the end of its input or at a command to quit, and it gives up at a line that is not
UTF-8.
-/

namespace Signatory.Console

open Json Service

/-- How the program ended. -/
inductive Exit
  | done
  | unreadable
  | invalidSettings
  | usage
  | crashed
  deriving DecidableEq, Repr

/-- The code that the program ends with. -/
def Exit.code : Exit → UInt32
  | .done => 0
  | .unreadable | .invalidSettings => 1
  | .usage => 2
  | .crashed => 101

/-- The lines of a byte string, without the line feeds at their ends. -/
def lines (input : Bytes) : List Bytes :=
  close (input.foldl next ([], []))
where
  /-- Read one more byte: the line so far and the lines before, both last first. -/
  next (st : Bytes × List Bytes) (b : UInt8) : Bytes × List Bytes :=
    if b = 0x0A then ([], st.1.reverse :: st.2) else (b :: st.1, st.2)
  /-- The last line counts unless it is empty. -/
  close (st : Bytes × List Bytes) : List Bytes :=
    (if st.1.isEmpty then st.2 else st.1.reverse :: st.2).reverse

/-- How the program goes on after a line: with an answer, if there is one, or not at all. -/
inductive Turn
  | next (answer : Option Value) (s : State)
  | stop (exit : Exit)

/-- Carry out a command and answer it. -/
def perform (s : State) : Command → Turn
  | .quit => .stop .done
  | c =>
    match c.execute s with
    | (some answer, s) => .next (some answer) s
    | (none, _) => .stop .crashed

/-- Answer a line. -/
def turn (endpoint : String) (s : State) (line : Bytes) : Turn :=
  match Bytes.toText? line with
  | none => .stop .unreadable
  | some text =>
    if (Text.words text.toList).isEmpty then .next none s
    else match Command.ofLine endpoint text with
      | .error fault => .next (some (Command.refused fault)) s
      | .ok c => perform s c

/-- Answer lines one after the other; the answers are gathered last first. -/
def run (endpoint : String) : List Bytes → State → List Value → List Value × Exit
  | [], _, answers => (answers.reverse, .done)
  | line :: rest, s, answers =>
    match turn endpoint s line with
    | .next answer s => run endpoint rest s (answer.toList ++ answers)
    | .stop exit => (answers.reverse, exit)

/-- The whole program: what it prints and how it ends, given its command line, its environment and
its input. -/
def program (words : List String) (environment : List (String × String)) (input : Bytes) :
    List Value × Exit :=
  match Settings.read words environment with
  | .error .help => ([], .done)
  | .error _ => ([], .usage)
  | .ok settings =>
    match settings.validate with
    | .error _ => ([], .invalidSettings)
    | .ok () =>
      run settings.ledgerUrl (lines input) (State.start settings.policy .direct) []

end Signatory.Console
