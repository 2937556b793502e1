import Signatory.Bytes
import Signatory.Text.Unsigned

/-!
# Written JSON

The tree that a JSON text spells, before anything is asked of its parts: numerals are kept as they
are written, members in their order, and a string literal that spells no text, because it has half
a surrogate pair, is kept as `none`. Text is read by a machine that takes one character at a time,
so nesting costs no more than length. Whether the parts mean something is decided by whoever uses
them; parts that nobody uses need only be well formed.
-/

namespace Signatory.Json

/-- What a JSON text spells. -/
inductive Tree
  | null
  | bool (b : Bool)
  | numeral (text : List Char)
  | string (text : Option String)
  | array (elements : List Tree)
  | object (members : List (Option String × Tree))
  deriving Inhabited

namespace Tree

/-- Blank characters between the parts of a JSON text. -/
def isSpace (c : Char) : Bool :=
  c = ' ' || c = '\t' || c = '\n' || c = '\r'

/-- How far a numeral has been read: what its last character was. -/
inductive Stage
  | sign
  | zero
  | whole
  | point
  | fraction
  | mark
  | markSign
  | exponent
  deriving DecidableEq, Repr

/-- Whether a numeral may end. -/
def Stage.isFinal : Stage → Bool
  | .zero | .whole | .fraction | .exponent => true
  | .sign | .point | .mark | .markSign => false

/-- What a character adds to a numeral, if it can stand there. -/
def Stage.next? (s : Stage) (c : Char) : Option Stage :=
  match s with
  | .sign => if c = '0' then some .zero else if c.isDigit then some .whole else none
  | .zero => afterWhole
  | .whole => if c.isDigit then some .whole else afterWhole
  | .point => if c.isDigit then some .fraction else none
  | .fraction => if c.isDigit then some .fraction else marked
  | .mark =>
    if c = '+' ∨ c = '-' then some .markSign else if c.isDigit then some .exponent else none
  | .markSign => if c.isDigit then some .exponent else none
  | .exponent => if c.isDigit then some .exponent else none
where
  /-- The exponent may begin. -/
  marked : Option Stage := if c = 'e' ∨ c = 'E' then some .mark else none
  /-- The fraction or the exponent may begin. -/
  afterWhole : Option Stage := if c = '.' then some .point else marked

/-- What is pending inside a string literal. -/
inductive Escape
  | none
  | backslash
  | hex (digits value : Nat)
  deriving DecidableEq, Repr

/-- A string literal that is being read: its characters, last first; the first half of a surrogate
pair, if it was the last thing read; and whether all halves so far had partners. -/
structure Literal where
  chars : List Char := []
  escape : Escape := .none
  half : Option Nat := none
  sound : Bool := true
  deriving Repr

/-- The text of a finished literal, if it spells one. -/
def Literal.text? (l : Literal) : Option String :=
  if l.sound && l.half.isNone then some (String.ofList l.chars.reverse) else none

/-- Append a character; a first half that is still pending has lost its partner. -/
def Literal.push (l : Literal) (c : Char) : Literal :=
  ⟨c :: l.chars, .none, none, l.sound && l.half.isNone⟩

/-- Append a code unit written in hexadecimal: a character of its own, or half a pair. -/
def Literal.pushUnit (l : Literal) (u : Nat) : Literal :=
  if 0xD800 ≤ u ∧ u < 0xDC00 then
    ⟨l.chars, .none, some u, l.sound && l.half.isNone⟩
  else if 0xDC00 ≤ u ∧ u < 0xE000 then
    match l.half with
    | some h => ⟨Char.ofNat (0x10000 + (h - 0xD800) * 0x400 + (u - 0xDC00)) :: l.chars, .none, none,
        l.sound⟩
    | none => ⟨l.chars, .none, none, false⟩
  else l.push (Char.ofNat u)

/-- A literal with something in it that is no character. -/
def Literal.spoil (l : Literal) : Literal :=
  { l with half := none, sound := false }

/-- The character that a one-letter escape stands for. -/
def escaped? : Char → Option Char
  | '\x22' => some '\x22'
  | '\\' => some '\\'
  | '/' => some '/'
  | 'b' => some '\x08'
  | 'f' => some '\x0c'
  | 'n' => some '\n'
  | 'r' => some '\r'
  | 't' => some '\t'
  | _ => none

/-- What one more character makes of a literal. -/
inductive Advance
  | more (l : Literal)
  | closed (text : Option String)
  | refused

/-- Read one more character of a literal. -/
def Literal.next (l : Literal) (c : Char) : Advance :=
  match l.escape with
  | .none =>
    if c = '\x22' then .closed l.text?
    else if c = '\\' then .more { l with escape := .backslash }
    else if c < ' ' then .refused
    else .more (l.push c)
  | .backslash =>
    if c = 'u' then .more { l with escape := .hex 0 0 }
    else match escaped? c with
      | some d => .more (l.push d)
      | none => .refused
  | .hex digits value =>
    match Text.digitValue c with
    | none => .refused
    | some d =>
      if digits = 3 then .more (l.pushUnit (value * 16 + d))
      else .more { l with escape := .hex (digits + 1) (value * 16 + d) }

/-- A container that is being read: its parts so far, last first. -/
inductive Frame
  | array (done : List Tree)
  | object (done : List (Option String × Tree))
  | member (done : List (Option String × Tree)) (key : Option String)

/-- What is being read. -/
inductive Mode
  /-- A value has to come. -/
  | value
  /-- A value or the end of the array. -/
  | element
  /-- A key or the end of the object. -/
  | member
  /-- A key has to come. -/
  | key
  /-- The colon after a key. -/
  | colon
  /-- A value is complete; a comma or the end of its container may follow. -/
  | complete (t : Tree)
  /-- The rest of a word. -/
  | word (rest : List Char) (t : Tree)
  /-- A numeral, last character first. -/
  | numeral (stage : Stage) (text : List Char)
  /-- A string literal that is a value. -/
  | string (l : Literal)
  /-- A string literal that is a key. -/
  | name (l : Literal)

/-- The machine: the containers that are open, innermost first, and what is being read. -/
structure Machine where
  frames : List Frame
  mode : Mode

/-- Begin a value with its first character. -/
def Machine.begin (frames : List Frame) (c : Char) : Option Machine :=
  if c = '[' then some ⟨.array [] :: frames, .element⟩
  else if c = '\x7b' then some ⟨.object [] :: frames, .member⟩
  else if c = '\x22' then some ⟨frames, .string {}⟩
  else if c = 'n' then some ⟨frames, .word ['u', 'l', 'l'] .null⟩
  else if c = 't' then some ⟨frames, .word ['r', 'u', 'e'] (.bool true)⟩
  else if c = 'f' then some ⟨frames, .word ['a', 'l', 's', 'e'] (.bool false)⟩
  else if c = '-' then some ⟨frames, .numeral .sign [c]⟩
  else if c = '0' then some ⟨frames, .numeral .zero [c]⟩
  else if c.isDigit then some ⟨frames, .numeral .whole [c]⟩
  else none

/-- Continue after a complete value. -/
def Machine.proceed (frames : List Frame) (t : Tree) (c : Char) : Option Machine :=
  if isSpace c then some ⟨frames, .complete t⟩
  else match frames with
    | .array done :: outer =>
      if c = ',' then some ⟨.array (t :: done) :: outer, .value⟩
      else if c = ']' then some ⟨outer, .complete (.array (t :: done).reverse)⟩
      else none
    | .member done key :: outer =>
      if c = ',' then some ⟨.object ((key, t) :: done) :: outer, .key⟩
      else if c = '\x7d' then some ⟨outer, .complete (.object ((key, t) :: done).reverse)⟩
      else none
    | _ => none

/-- Read one more character. -/
def Machine.step (m : Machine) (c : Char) : Option Machine :=
  match m.mode with
  | .value => if isSpace c then some m else begin m.frames c
  | .element =>
    if isSpace c then some m
    else if c = ']' then
      match m.frames with
      | .array done :: outer => some ⟨outer, .complete (.array done.reverse)⟩
      | _ => none
    else begin m.frames c
  | .member =>
    if isSpace c then some m
    else if c = '\x22' then some ⟨m.frames, .name {}⟩
    else if c = '\x7d' then
      match m.frames with
      | .object done :: outer => some ⟨outer, .complete (.object done.reverse)⟩
      | _ => none
    else none
  | .key =>
    if isSpace c then some m
    else if c = '\x22' then some ⟨m.frames, .name {}⟩
    else none
  | .colon =>
    if isSpace c then some m else if c = ':' then some ⟨m.frames, .value⟩ else none
  | .complete t => proceed m.frames t c
  | .word rest t =>
    match rest with
    | [] => none
    | [d] => if c = d then some ⟨m.frames, .complete t⟩ else none
    | d :: rest => if c = d then some ⟨m.frames, .word rest t⟩ else none
  | .numeral stage text =>
    match stage.next? c with
    | some next => some ⟨m.frames, .numeral next (c :: text)⟩
    | none =>
      if stage.isFinal then proceed m.frames (.numeral text.reverse) c else none
  | .string l =>
    match l.next c with
    | .more l => some ⟨m.frames, .string l⟩
    | .closed text => some ⟨m.frames, .complete (.string text)⟩
    | .refused => none
  | .name l =>
    match l.next c with
    | .more l => some ⟨m.frames, .name l⟩
    | .closed key =>
      match m.frames with
      | .object done :: outer => some ⟨.member done key :: outer, .colon⟩
      | _ => none
    | .refused => none

/-- What has been read when the text ends. -/
def Machine.finish (m : Machine) : Option Tree :=
  match m.frames, m.mode with
  | [], .complete t => some t
  | [], .numeral stage text => if stage.isFinal then some (.numeral text.reverse) else none
  | _, _ => none

/-- The machine before the first character. -/
def Machine.start : Machine := ⟨[], .value⟩

/-- Read characters one after the other. -/
def Machine.run (m : Machine) : List Char → Option Machine
  | [] => some m
  | c :: rest =>
    match m.step c with
    | some m => m.run rest
    | none => none

/-- Reading a text in two parts. -/
theorem Machine.run_append (m : Machine) (s t : List Char) :
    m.run (s ++ t) = (m.run s).bind fun m ↦ m.run t := by
  induction s generalizing m with
  | nil => rfl
  | cons c s ih =>
    simp only [List.cons_append, run]
    cases m.step c with
    | none => rfl
    | some m => exact ih m

/-- Read something that is no character; it may only stand in a string literal, which then spells
no text. -/
def Machine.stepOver (m : Machine) : Option Machine :=
  match m.mode with
  | .string l => if l.escape = .none then some ⟨m.frames, .string l.spoil⟩ else none
  | .name l => if l.escape = .none then some ⟨m.frames, .name l.spoil⟩ else none
  | _ => none

/-- Read characters, some of which are missing. -/
def Machine.runOver (m : Machine) : List (Option Char) → Option Machine
  | [] => some m
  | some c :: rest =>
    match m.step c with
    | some m => m.runOver rest
    | none => none
  | none :: rest =>
    match m.stepOver with
    | some m => m.runOver rest
    | none => none

/-- The tree that a text spells, if it is well-formed JSON. -/
def ofText? (text : String) : Option Tree :=
  (Machine.start.run text.toList).bind Machine.finish

/-- The tree that a byte string spells in UTF-8. -/
def ofBytes? (bs : Bytes) : Option Tree :=
  (Machine.start.runOver (Bytes.toChars bs)).bind Machine.finish

end Tree

end Signatory.Json
