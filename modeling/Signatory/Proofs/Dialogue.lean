import Signatory.Proofs.Console
import Signatory.Proofs.Json.OneLine
import Signatory.Proofs.Service.Conversation
import Signatory.Proofs.Text.Blank

/-!
# One answer for each line

What the program reads is divided into lines, and each line that is not blank is answered with one
object, in the order of the lines, until the input ends, a line asks to quit, or a line is not
UTF-8. Every command is answered, for each call that is waited for comes to an end; so the program
never stops at a line in any other way, and what lies behind the line that it stops at is never
looked at.
-/

namespace Signatory

open Json Service

/-! ## Lines -/

namespace Console

variable {input : Bytes} {line : Bytes} {ls done : List Bytes}

/-- A byte string and its lines, without the line feeds that end them; the last line may lack its
line feed. -/
inductive Lined : Bytes → List Bytes → Prop
  | nil : Lined [] []
  | last {line : Bytes} (filled : line ≠ []) (solid : 0x0A ∉ line) : Lined line [line]
  | cons {line input : Bytes} {ls : List Bytes} (solid : 0x0A ∉ line) (rest : Lined input ls) :
    Lined (line ++ 0x0A :: input) (line :: ls)

/-- Every byte string has lines. -/
theorem exists_lined (input : Bytes) : ∃ ls, Lined input ls := by
  induction input with
  | nil => exact ⟨[], .nil⟩
  | cons b input ih =>
    obtain ⟨ls, lined⟩ := ih
    by_cases ends : b = 0x0A
    · exact ⟨[] :: ls, ends ▸ .cons List.not_mem_nil lined⟩
    · have longer {line : Bytes} (solid : 0x0A ∉ line) : 0x0A ∉ b :: line :=
        List.not_mem_cons_of_ne_of_not_mem (Ne.symm ends) solid
      cases lined with
      | nil => exact ⟨[[b]], .last (List.cons_ne_nil b []) (longer List.not_mem_nil)⟩
      | last _ solid => exact ⟨_, .last (List.cons_ne_nil b _) (longer solid)⟩
      | cons solid rest => exact ⟨_, .cons (longer solid) rest⟩

/-- Bytes other than line feeds are gathered into one line. -/
theorem foldl_next (solid : 0x0A ∉ line) (start : Bytes) :
    line.foldl lines.next (start, done) = (line.reverse ++ start, done) := by
  induction line generalizing start with
  | nil => rfl
  | cons b line ih =>
    rw [List.mem_cons, not_or] at solid
    rw [List.foldl_cons, lines.next, if_neg (Ne.symm solid.1), ih solid.2, List.reverse_cons,
      List.append_assoc]
    rfl

/-- The lines of a byte string are what it is divided into. -/
theorem Lined.lines_eq (lined : Lined input ls) : lines input = ls := by
  have gathered (done : List Bytes) :
      lines.close (input.foldl lines.next ([], done)) = done.reverse ++ ls := by
    induction lined generalizing done with
    | nil => exact (List.append_nil _).symm
    | last filled solid =>
      rw [foldl_next solid, lines.close, List.append_nil, List.isEmpty_reverse,
        if_neg (by simpa using filled), List.reverse_cons, List.reverse_reverse]
    | cons solid _ ih =>
      rw [List.foldl_append, foldl_next solid, List.foldl_cons, lines.next, if_pos rfl, ih,
        List.append_nil, List.reverse_cons, List.reverse_reverse, List.append_assoc]
      rfl
  exact gathered []

theorem lined_lines (input : Bytes) : Lined input (lines input) := by
  obtain ⟨ls, lined⟩ := exists_lined input
  exact lined.lines_eq ▸ lined

end Console

/-! ## Commands -/

namespace Command

variable {endpoint text : String} {words : List String} {policy : Policy}
  {connector : Ledger.Connector} {s : State}

/-- A generate command is no request to quit, and its faults are its own. -/
theorem generateOf_ne (words : List String) :
    generateOf endpoint words ≠ .ok .quit ∧ generateOf endpoint words ≠ .error .empty := by
  unfold generateOf
  split
  next key secret optional =>
    cases PrivateKey.ofText secret with
    | error => exact ⟨nofun, nofun⟩
    | ok k =>
      cases asked : algorithm (optional.drop 1) with
      | ok => exact ⟨nofun, nofun⟩
      | error fault =>
        refine ⟨nofun, fun empty ↦ ?_⟩
        obtain rfl : fault = .empty := Except.error.inj empty
        unfold algorithm at asked
        split at asked
        next => exact absurd asked nofun
        next => split at asked <;> exact absurd asked nofun
  next => exact ⟨nofun, nofun⟩

/-- A sign command is no request to quit, and its faults are its own. -/
theorem signOf_ne (words : List String) :
    signOf words ≠ .ok .quit ∧ signOf words ≠ .error .empty := by
  unfold signOf
  split
  next key account value optional =>
    cases Address.ofText account with
    | error => exact ⟨nofun, nofun⟩
    | ok recipient =>
      cases Text.readUInt64 value.toList with
      | error => exact ⟨nofun, nofun⟩
      | ok amount =>
        cases read : data optional with
        | ok => exact ⟨nofun, nofun⟩
        | error fault =>
          refine ⟨nofun, fun empty ↦ ?_⟩
          obtain rfl : fault = .empty := Except.error.inj empty
          unfold data at read
          split at read
          next => exact absurd read nofun
          next word _ =>
            cases decoded : Hex.decode (Hex.dropMarks word.toList) with
            | ok => exact absurd (decoded ▸ read) nofun
            | error => exact absurd (decoded ▸ read) nofun
  next => exact ⟨nofun, nofun⟩

/-- A command that needs a key is no request to quit, and its fault is its own. -/
theorem keyOf_ne (name : String) (make : String → Command) (other : ∀ key, make key ≠ .quit)
    (words : List String) :
    keyOf name make words ≠ .ok .quit ∧ keyOf name make words ≠ .error .empty := by
  unfold keyOf
  split
  next key _ => exact ⟨fun quits ↦ other key (Except.ok.inj quits), nofun⟩
  next => exact ⟨nofun, nofun⟩

/-- Words that begin with a name are taken for a command of that name: there is always something to
say about them, and they ask to quit if the name says so. -/
theorem ofWords_cons (endpoint name : String) (rest : List String) :
    (ofWords endpoint (name :: rest) = .ok .quit ↔ name = "quit" ∨ name = "exit") ∧
      ofWords endpoint (name :: rest) ≠ .error .empty := by
  have other {result : Except UsageFault Command}
      (apart : result ≠ .ok .quit ∧ result ≠ .error .empty)
      (named : ¬(name = "quit" ∨ name = "exit")) :
      (result = .ok .quit ↔ name = "quit" ∨ name = "exit") ∧ result ≠ .error .empty :=
    ⟨iff_of_false apart.1 named, apart.2⟩
  unfold ofWords
  dsimp only
  split
  next => exact other (generateOf_ne rest) (by decide)
  next => exact other (signOf_ne rest) (by decide)
  next => exact other (keyOf_ne _ .sync (fun _ ↦ nofun) rest) (by decide)
  next => exact other (keyOf_ne _ (.query · .address) (fun _ ↦ nofun) rest) (by decide)
  next => exact other (keyOf_ne _ (.query · .nonce) (fun _ ↦ nofun) rest) (by decide)
  next => exact other (keyOf_ne _ (.query · .status) (fun _ ↦ nofun) rest) (by decide)
  next => exact other (keyOf_ne _ .remove (fun _ ↦ nofun) rest) (by decide)
  next => exact other ⟨nofun, nofun⟩ (by decide)
  next => exact ⟨iff_of_true rfl (.inl rfl), nofun⟩
  next => exact ⟨iff_of_true rfl (.inr rfl), nofun⟩
  next _ _ _ _ _ _ _ _ quit exit => exact other ⟨nofun, nofun⟩ (not_or.mpr ⟨quit, exit⟩)

/-- The same is true of the words of a line. -/
theorem ofLine_of_words {name : List Char} {more : List (List Char)}
    (words : Text.words text.toList = name :: more) (endpoint : String) :
    (ofLine endpoint text = .ok .quit ↔
      String.ofList name = "quit" ∨ String.ofList name = "exit") ∧
      ofLine endpoint text ≠ .error .empty := by
  unfold ofLine
  rw [words, List.map_cons]
  exact ofWords_cons endpoint (String.ofList name) _

/-- A call to a worker is answered, and the service is between calls after it. -/
theorem ask_answers (h : State.Between policy connector s)
    (sound : ∀ endpoint, (connector endpoint).outcome ≠ .crash)
    (fits : policy.queueCapacity ≤ State.capacityLimit) (key : String) (request : Request) :
    ∃ answer t, ask s key request = (some answer, t) ∧ State.Between policy connector t := by
  obtain ⟨after, r, ended⟩ := h.answers sound fits key request
  unfold ask
  generalize s.call { key, request } = called at after ended ⊢
  obtain ⟨c, t⟩ := called
  dsimp only at after ended ⊢
  rw [ended]
  cases r with
  | ok r => exact ⟨_, t, rfl, after⟩
  | error e => exact ⟨_, t, rfl, after⟩

/-- Every command is answered, and the service is between calls after it. -/
theorem execute_answers (h : State.Between policy connector s)
    (sound : ∀ endpoint, (connector endpoint).outcome ≠ .crash)
    (fits : policy.queueCapacity ≤ State.capacityLimit) (c : Command) :
    ∃ answer t, c.execute s = (some answer, t) ∧ State.Between policy connector t := by
  cases c with
  | generate key c =>
    unfold execute
    exact ask_answers h sound fits key _
  | sign key d =>
    unfold execute
    exact ask_answers h sound fits key _
  | sync key =>
    unfold execute
    exact ask_answers h sound fits key _
  | query key q =>
    unfold execute
    exact ask_answers h sound fits key _
  | remove key =>
    have removed := h.remove key
    unfold execute
    dsimp only
    split
    next t done =>
      rw [done] at removed
      exact ⟨_, _, rfl, removed⟩
    next e t refused =>
      have unknown : s.find? key = none := by
        unfold State.remove at refused
        split at refused
        next unknown => exact unknown
        next => exact absurd refused (by simp)
      have after := h.notFound unknown
      rw [refused] at after
      exact ⟨_, _, rfl, after⟩
  | stats => exact ⟨_, _, rfl, h⟩
  | quit => exact ⟨_, _, rfl, h⟩

/-- Whatever is told about a command is told with an object. -/
theorem Tells.object {answer : Value} (tells : Tells s answer) :
    ∃ members, answer = .object members := by
  cases tells <;> exact ⟨_, rfl⟩

end Command

/-! ## Dialogues -/

namespace Console

variable {endpoint : String} {policy : Policy} {connector : Ledger.Connector} {s t u : State}
  {input line : Bytes} {ls rest : List Bytes} {text : String} {answer : Option Value}
  {answers : List Value} {exit : Exit}

/-- Whether a line is text that consists of blanks. -/
def isBlank (line : Bytes) : Bool :=
  (Bytes.toText? line).any fun text ↦ text.toList.all Text.isBlank

/-- How a line is answered in some state: a blank line not at all, a line that is no command with
its fault, while the state stays as it is, and a command with what carrying it out gives. -/
inductive Replied (endpoint : String) (s : State) (line : Bytes) : Option Value → State → Prop
  | blank (blank : isBlank line = true) : Replied endpoint s line none s
  | refused {text : String} {fault : UsageFault} (read : Bytes.toText? line = some text)
    (solid : isBlank line = false) (spelled : Command.ofLine endpoint text = .error fault)
    (worded : fault ≠ .empty) : Replied endpoint s line (some (Command.refused fault)) s
  | carriedOut {text : String} {c : Command} {answer : Value} {t : State}
    (read : Bytes.toText? line = some text) (solid : isBlank line = false)
    (spelled : Command.ofLine endpoint text = .ok c) (goes : c ≠ .quit)
    (result : c.execute s = (some answer, t)) : Replied endpoint s line (some answer) t

/-- How lines are answered, each in the state that the lines before it have left. -/
inductive Answered (endpoint : String) : State → List Bytes → List Value → State → Prop
  | nil {s : State} : Answered endpoint s [] [] s
  | cons {s t u : State} {line : Bytes} {ls : List Bytes} {answer : Option Value}
    {answers : List Value} (first : Replied endpoint s line answer t)
    (rest : Answered endpoint t ls answers u) :
    Answered endpoint s (line :: ls) (answer.toList ++ answers) u

/-- Why the program ends before some lines: there are none, the first is not UTF-8, or its first
word asks to quit. -/
inductive Ended : List Bytes → Exit → Prop
  | done : Ended [] .done
  | unreadable {line : Bytes} {rest : List Bytes} (garbled : Bytes.toText? line = none) :
    Ended (line :: rest) .unreadable
  | quits {line : Bytes} {rest : List Bytes} {text name : String} {more : List (List Char)}
    (read : Bytes.toText? line = some text) (words : Text.words text.toList = name.toList :: more)
    (asks : name = "quit" ∨ name = "exit") : Ended (line :: rest) .done

/-- A line of text is blank if it has no words. -/
theorem isBlank_iff (read : Bytes.toText? line = some text) :
    isBlank line = true ↔ Text.words text.toList = [] := by
  rw [isBlank, read, Text.words_eq_nil_iff]
  rfl

/-- A line of text that is not blank has words. -/
theorem words_of_solid (read : Bytes.toText? line = some text) (solid : isBlank line = false) :
    Text.words text.toList ≠ [] :=
  fun none ↦ absurd ((isBlank_iff read).mpr none) (by simp [solid])

/-- A fault in a line that is not blank is the answer to the line. -/
theorem turn_of_error {fault : UsageFault} (read : Bytes.toText? line = some text)
    (solid : isBlank line = false) (spelled : Command.ofLine endpoint text = .error fault) :
    turn endpoint s line = .next (some (Command.refused fault)) s := by
  have words := List.isEmpty_eq_false_iff.mpr (words_of_solid read solid)
  unfold turn
  rw [read]
  dsimp only
  rw [words, if_neg Bool.false_ne_true, spelled]

/-- A command that a line spells is carried out. -/
theorem turn_of_ok {c : Command} (read : Bytes.toText? line = some text)
    (solid : isBlank line = false) (spelled : Command.ofLine endpoint text = .ok c) :
    turn endpoint s line = perform s c := by
  have words := List.isEmpty_eq_false_iff.mpr (words_of_solid read solid)
  unfold turn
  rw [read]
  dsimp only
  rw [words, if_neg Bool.false_ne_true, spelled]

/-- The program gives the answer to a line that is answered, and goes on. -/
theorem Replied.turn_eq (replied : Replied endpoint s line answer t) :
    turn endpoint s line = .next answer t := by
  cases replied with
  | blank blank =>
    cases read : Bytes.toText? line with
    | none => exact absurd blank (by simp [isBlank, read])
    | some text =>
      unfold turn
      rw [read]
      dsimp only
      rw [(isBlank_iff read).mp blank]
      rfl
  | refused read solid spelled => exact turn_of_error read solid spelled
  | @carriedOut _ c _ _ read solid spelled goes result =>
    rw [turn_of_ok read solid spelled]
    cases c with
    | quit => exact absurd rfl goes
    | _ =>
      unfold perform
      dsimp only
      rw [result]

/-- The program ends at a line before which it ends, whatever the state. -/
theorem Ended.turn_eq (ended : Ended (line :: rest) exit) (endpoint : String) (s : State) :
    turn endpoint s line = .stop exit := by
  cases ended with
  | unreadable garbled =>
    unfold turn
    rw [garbled]
  | @quits _ _ text name more read words asks =>
    have solid : isBlank line = false := by
      rw [Bool.eq_false_iff, ne_eq, isBlank_iff read, words]
      exact List.cons_ne_nil _ _
    have quits : Command.ofLine endpoint text = .ok .quit :=
      (Command.ofLine_of_words words endpoint).1.mpr (by rwa [String.ofList_toList])
    exact turn_of_ok read solid quits

/-- The program goes through lines that are answered to those behind them. -/
theorem Answered.run_eq (answered : Answered endpoint s ls answers t) (rest : List Bytes)
    (done : List Value) :
    run endpoint (ls ++ rest) s done = run endpoint rest t (answers.reverse ++ done) := by
  induction answered generalizing done with
  | nil => rfl
  | @cons s t u line ls answer answers first _ ih =>
    rw [List.cons_append, run, first.turn_eq]
    refine (ih _).trans ?_
    cases answer <;> simp

/-- The program ends before lines before which it ends. -/
theorem Ended.run_eq (ended : Ended rest exit) (endpoint : String) (s : State)
    (done : List Value) : run endpoint rest s done = (done.reverse, exit) := by
  cases rest with
  | nil =>
    cases ended
    rfl
  | cons line rest => rw [run, ended.turn_eq]

/-- A line is answered, or the program ends before it. -/
theorem replied_or_ended (h : State.Between policy connector s)
    (sound : ∀ endpoint, (connector endpoint).outcome ≠ .crash)
    (fits : policy.queueCapacity ≤ State.capacityLimit) (endpoint : String) (line : Bytes)
    (rest : List Bytes) :
    (∃ answer t, Replied endpoint s line answer t ∧ State.Between policy connector t) ∨
      ∃ exit, Ended (line :: rest) exit := by
  cases read : Bytes.toText? line with
  | none => exact .inr ⟨_, .unreadable read⟩
  | some text =>
    cases solid : isBlank line with
    | true => exact .inl ⟨_, s, .blank solid, h⟩
    | false =>
      cases words : Text.words text.toList with
      | nil => exact absurd words (words_of_solid read solid)
      | cons name more =>
        obtain ⟨quits, worded⟩ := Command.ofLine_of_words words endpoint
        cases command : Command.ofLine endpoint text with
        | error fault =>
          refine .inl ⟨_, s, .refused read solid command (fun empty ↦ worded ?_), h⟩
          rw [command, empty]
        | ok c =>
          by_cases asks : String.ofList name = "quit" ∨ String.ofList name = "exit"
          · exact .inr ⟨_, .quits read (by rw [String.toList_ofList]; exact words) asks⟩
          · obtain ⟨answer, t, result, after⟩ := Command.execute_answers h sound fits c
            refine .inl ⟨_, t, .carriedOut read solid command (fun quit ↦ asks ?_) result, after⟩
            exact quits.mp (by rw [command, quit])

/-- Lines are answered up to one before which the program ends. -/
theorem answered_until_ended (h : State.Between policy connector s)
    (sound : ∀ endpoint, (connector endpoint).outcome ≠ .crash)
    (fits : policy.queueCapacity ≤ State.capacityLimit) (endpoint : String) (ls : List Bytes) :
    ∃ before rest answers t exit, ls = before ++ rest ∧ Answered endpoint s before answers t ∧
      Ended rest exit := by
  induction ls generalizing s with
  | nil => exact ⟨[], [], [], s, .done, rfl, .nil, .done⟩
  | cons line ls ih =>
    rcases replied_or_ended h sound fits endpoint line ls with ⟨_, u, first, after⟩ | ⟨exit, ended⟩
    · obtain ⟨before, rest, answers, t, exit, rfl, answered, ended⟩ := ih after
      exact ⟨line :: before, rest, _, t, exit, rfl, .cons first answered, ended⟩
    · exact ⟨[], line :: ls, [], s, exit, rfl, .nil, ended⟩

/-- A line that is not blank has one answer. -/
theorem Replied.length_eq (replied : Replied endpoint s line answer t) :
    answer.toList.length = if isBlank line then 0 else 1 := by
  cases replied with
  | blank blank => rw [blank]; rfl
  | refused _ solid => rw [solid]; rfl
  | carriedOut _ solid => rw [solid]; rfl

/-- Every answer is an object. -/
theorem Replied.object {value : Value} (replied : Replied endpoint s line (some value) t) :
    ∃ members, value = .object members := by
  cases replied with
  | refused => exact ⟨_, rfl⟩
  | @carriedOut _ c _ _ _ _ _ _ result =>
    exact ((Command.execute_run (s := s) c).2 value (by rw [result])).object

/-- There is one answer for each line that is not blank. -/
theorem Answered.length_eq (answered : Answered endpoint s ls answers t) :
    answers.length = ls.countP (!isBlank ·) := by
  induction answered with
  | nil => rfl
  | cons first _ ih =>
    rw [List.length_append, first.length_eq, ih, List.countP_cons, Nat.add_comm]
    split <;> simp_all

theorem Answered.object (answered : Answered endpoint s ls answers t) {value : Value}
    (given : value ∈ answers) : ∃ members, value = .object members := by
  induction answered with
  | nil => exact absurd given List.not_mem_nil
  | cons first _ ih =>
    rcases List.mem_append.mp given with here | later
    · rw [Option.mem_toList] at here
      exact (here ▸ first).object
    · exact ih later

/-- What comes of an input, divided into the lines that are answered and those before which the
program ends. The answers are objects, each is printed in one line, and there is one for each line
that is not blank; the code tells whether the program ended at a line that is not UTF-8. -/
structure Dialogue (endpoint : String) (s : State) (input : Bytes) (before rest : List Bytes)
    (answers : List Value) (exit : Exit) : Prop where
  lined : Lined input (before ++ rest)
  answered : ∃ t, Answered endpoint s before answers t
  ended : Ended rest exit
  count : answers.length = before.countP (!isBlank ·)
  object : ∀ answer ∈ answers, ∃ members, answer = .object members
  line : ∀ answer ∈ answers, '\n' ∉ answer.render.toList
  code : exit.code = if exit = .unreadable then 1 else 0

theorem Ended.code_eq (ended : Ended rest exit) :
    exit.code = if exit = .unreadable then 1 else 0 := by
  cases ended <;> rfl

/-- What the program does with any input under settings that it accepts, if a mailbox can be as
large as they ask for: the lines of the input are answered in their order, up to the first one at
which the program ends; whatever stands behind that line, the program prints the same and ends in
the same way. -/
theorem program_dialogue {words : List String} {environment : List (String × String)}
    {settings : Settings} (read : Settings.read words environment = .ok settings)
    (valid : settings.validate = .ok ())
    (fits : settings.queueCapacity.toNat ≤ State.capacityLimit) (input : Bytes) :
    ∃ before rest,
      Dialogue settings.ledgerUrl (State.start settings.policy .direct) input before rest
        (program words environment input).1 (program words environment input).2 ∧
      ∀ line later later' other, rest = line :: later → Lined other (before ++ line :: later') →
        program words environment other = program words environment input := by
  have runs (input : Bytes) : program words environment input =
      run settings.ledgerUrl (lines input) (State.start settings.policy .direct) [] := by
    unfold program
    rw [read]
    dsimp only
    rw [valid]
  have fits : settings.policy.queueCapacity ≤ State.capacityLimit := fits
  obtain ⟨before, rest, answers, t, exit, divided, answered, ended⟩ :=
    answered_until_ended (State.between_start settings.policy .direct)
      Ledger.Connector.direct_sound fits settings.ledgerUrl (lines input)
  have result : program words environment input = (answers, exit) := by
    rw [runs, divided, answered.run_eq, ended.run_eq, List.append_nil, List.reverse_reverse]
  refine ⟨before, rest, ?_, ?_⟩
  · rw [result]
    exact {
      lined := divided ▸ lined_lines input
      answered := ⟨t, answered⟩
      ended
      count := answered.length_eq
      object := fun _ ↦ answered.object
      line := fun answer _ ↦ answer.newline_not_mem_render
      code := ended.code_eq }
  · rintro line later later' other rfl lined
    have same : Ended (line :: later') exit := by
      cases ended with
      | unreadable garbled => exact .unreadable garbled
      | quits read words asks => exact .quits read words asks
    rw [result, runs, lined.lines_eq, answered.run_eq, same.run_eq, List.append_nil,
      List.reverse_reverse]

/-- An input for trials: a blank line, a line that is no command, two commands, a request to exit,
and behind it a command without a line feed. -/
def trialInput : Bytes :=
  Bytes.ofText "\u2003\t\nsign treasury\n remove treasury \nstats\nexit now\nstats"

/-- Under the default settings three lines of the input for trials are answered. -/
theorem program_dialogue_default :
    Settings.read [] [] = .ok {} ∧ ({} : Settings).validate = .ok () ∧
      ({} : Settings).queueCapacity.toNat ≤ State.capacityLimit ∧
      (program [] [] trialInput).1.length = 3 ∧ (program [] [] trialInput).2 = .done ∧
      ∃ before rest,
        Dialogue ({} : Settings).ledgerUrl (State.start ({} : Settings).policy .direct) trialInput
          before rest (program [] [] trialInput).1 (program [] [] trialInput).2 := by
  have fits : ({} : Settings).queueCapacity.toNat ≤ State.capacityLimit := by decide
  obtain ⟨before, rest, dialogue, -⟩ := @program_dialogue [] [] {} rfl rfl fits trialInput
  exact ⟨rfl, rfl, fits, rfl, rfl, before, rest, dialogue⟩

/-- A mailbox cannot be as large as one asks for here, so the program crashes. -/
example :
    (program ["--queue-capacity", "2305843009213693952"] []
      (Bytes.ofText ("generate k " ++ String.ofList (List.replicate 64 '1')))).2 = .crashed := rfl

end Console

end Signatory
