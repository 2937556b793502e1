import Signatory.Json.Printer
import Signatory.Proofs.Hex

/-!
# The text of a value spells its tree

The machine that reads texts is followed along the text that is being written. Behind a value that
has been written out the machine holds the value's tree within the containers that are still open,
whichever these are; a numeral is held as soon as it may end, without having ended. Strings come back
character by character, those behind escapes too. All this is about values whose numbers are
integers.
-/

namespace Signatory

namespace Text

/-- A decimal number is a digit and further digits; it begins with a zero only if it is zero. -/
theorem decimal_eq_cons (n : Nat) :
    ∃ c rest, decimal n = c :: rest ∧ c.isDigit ∧ (∀ d ∈ rest, d.isDigit) ∧
      (c = '0' → rest = []) := by
  have digits : ∀ d ∈ decimal n, d.isDigit := fun d ↦
    Nat.isDigit_of_mem_toDigits (b := 10) (by decide) (by decide)
  suffices leading : ∃ c rest, decimal n = c :: rest ∧ (c = '0' → n = 0) by
    obtain ⟨c, rest, spelled, zero⟩ := leading
    rw [spelled] at digits
    refine ⟨c, rest, spelled, digits c List.mem_cons_self,
      fun d mem ↦ digits d (List.mem_cons_of_mem _ mem), fun first ↦ ?_⟩
    rw [zero first] at spelled
    exact (List.cons.inj spelled).2.symm
  clear digits
  induction n using Nat.strongRecOn with
  | _ n ih =>
    by_cases small : n < 10
    · have head : ∀ d : Fin 10, Nat.digitChar d.val = '0' → d.val = 0 := by decide
      exact ⟨n.digitChar, [], Nat.toDigits_of_lt_base small, head ⟨n, small⟩⟩
    · obtain ⟨c, rest, spelled, zero⟩ := ih (n / 10) (by omega)
      refine ⟨c, rest ++ [(n % 10).digitChar], ?_, fun first ↦ ?_⟩
      · rw [decimal, Nat.toDigits_of_base_le (by decide) (by omega)]
        exact congrArg (· ++ _) spelled
      · have := zero first
        omega

end Text

namespace Json

/-- What an appended text adds to the characters. -/
theorem toList_append (out : String) (cs : List Char) :
    (append out cs).toList = out.toList ++ cs := by
  induction cs generalizing out with
  | nil => rw [append, List.foldl_nil, List.append_nil]
  | cons c cs ih =>
    have split : append out (c :: cs) = append (out.push c) cs := rfl
    rw [split, ih, String.toList_push, List.append_assoc, List.singleton_append]

namespace Value

mutual

/-- The tree that the text of a value spells. -/
def tree : Value → Tree
  | .null => .null
  | .bool b => .bool b
  | .number n => .numeral n.text
  | .string s => .string (some s)
  | .array elements => .array (trees elements)
  | .object members => .object (memberTrees members)

/-- The trees of the elements of an array. -/
def trees : List Value → List Tree
  | [] => []
  | v :: rest => v.tree :: trees rest

/-- The trees of the members of an object, under their keys. -/
def memberTrees : List (String × Value) → List (Option String × Tree)
  | [] => []
  | (key, v) :: rest => (some key, v.tree) :: memberTrees rest

end

/-- The members of an object have their trees under their keys. -/
theorem memberTrees_eq_map (members : List (String × Value)) :
    memberTrees members = members.map fun m ↦ (some m.1, m.2.tree) := by
  induction members with
  | nil => rfl
  | cons m rest ih => rw [memberTrees, ih, List.map_cons]

/-- A value whose numbers are all integers. -/
inductive Integral : Value → Prop
  | null : Integral .null
  | bool (b : Bool) : Integral (.bool b)
  | int (n : Int) : Integral (.int n)
  | string (s : String) : Integral (.string s)
  | array {elements : List Value} (parts : ∀ v ∈ elements, Integral v) :
    Integral (.array elements)
  | object {members : List (String × Value)} (parts : ∀ m ∈ members, Integral m.2) :
    Integral (.object members)

end Value

namespace Tree

/-! ## Literals -/

/-- Read characters of a literal that do not end it. -/
def Literal.feed (l : Literal) : List Char → Option Literal
  | [] => some l
  | c :: rest =>
    match l.next c with
    | .more l => l.feed rest
    | .closed _ | .refused => none

/-- The literal that has spelled the given characters, last first. -/
def Literal.spelling (chars : List Char) : Literal :=
  ⟨chars, .none, none, true⟩

/-- A code unit that is no half of a surrogate pair is a character. -/
theorem Literal.pushUnit_toNat (l : Literal) {c : Char} (small : c.toNat < 0xD800) :
    l.pushUnit c.toNat = l.push c := by
  rw [pushUnit, if_neg (by omega), if_neg (by omega), Char.ofNat_toNat]

/-- A character is read back from its place in a literal. -/
theorem Literal.feed_escape (chars : List Char) (c : Char) :
    (spelling chars).feed (Json.escape c) = some (spelling (c :: chars)) := by
  by_cases named : c ∈ ['\x22', '\\', '\x08', '\t', '\n', '\x0c', '\r']
  · simp only [List.mem_cons, List.not_mem_nil, or_false] at named
    rcases named with rfl | rfl | rfl | rfl | rfl | rfl | rfl <;> rfl
  simp only [List.mem_cons, List.not_mem_nil, or_false, not_or] at named
  by_cases control : c < ' '
  · have small : c.toNat < 32 := control
    have high := Text.digitValue_digit (n := c.toNat / 16) (by omega)
    have low := Text.digitValue_digit (n := c.toNat % 16) (by omega)
    have zero : Text.digitValue '0' = some 0 := by decide
    have unit (l : Literal) := l.pushUnit_toNat (c := c) (by omega)
    simp [Json.escape, named, control, feed, next, spelling, zero, high, low, Nat.div_add_mod',
      unit, push]
  · simp [Json.escape, named, control, feed, next, spelling, push]

/-! ## The machine behind a written text -/

/-- The machine behind a text. -/
def Machine.behind (text : String) : Option Machine :=
  start.run text.toList

theorem Machine.behind_append {out : String} {m : Machine} (h : behind out = some m)
    (cs : List Char) : behind (append out cs) = m.run cs := by
  rw [behind, toList_append, run_append]
  exact (congrArg (Option.bind · _) h).trans (Option.bind_some ..)

theorem Machine.behind_push {out : String} {m : Machine} (h : behind out = some m) (c : Char) :
    behind (out.push c) = m.step c := by
  have pushed := behind_append h [c]
  rw [run] at pushed
  exact pushed.trans (by cases m.step c <;> rfl)

/-- Where a value may begin: where one has to come, or at the beginning of an array. -/
inductive Machine.Awaits : Machine → List Frame → Prop
  | value (frames : List Frame) : Awaits ⟨frames, .value⟩ frames
  | element (frames : List Frame) : Awaits ⟨frames, .element⟩ frames

/-- What begins a value does so wherever a value may begin. -/
theorem Machine.Awaits.step {m m' : Machine} {frames : List Frame} (h : m.Awaits frames) {c : Char}
    (first : begin frames c = some m') : m.step c = some m' := by
  have blank : isSpace c = false := by
    refine Bool.eq_false_iff.mpr fun space ↦ ?_
    simp only [isSpace, Bool.or_eq_true, decide_eq_true_eq] at space
    obtain ((rfl | rfl) | rfl) | rfl := space <;> cases first
  have other : c ≠ ']' := by
    rintro rfl
    cases first
  cases h with
  | value => simp [Machine.step, blank, first]
  | element => simp [Machine.step, blank, other, first]

/-- Characters behind the first one of a value. -/
theorem Machine.Awaits.run {m m' : Machine} {frames : List Frame} (h : m.Awaits frames) {c : Char}
    (first : begin frames c = some m') (rest : List Char) : m.run (c :: rest) = m'.run rest := by
  rw [Machine.run, h.step first]

/-- A whole value is read wherever a value may begin. -/
theorem Machine.Awaits.whole {out : String} {m m' : Machine} {frames : List Frame}
    (awaits : m.Awaits frames) (h : behind out = some m) {c : Char} {rest : List Char}
    (read : (begin frames c).bind (Machine.run · rest) = some m') :
    behind (append out (c :: rest)) = some m' := by
  obtain ⟨m₁, first, read⟩ := Option.bind_eq_some_iff.mp read
  rw [behind_append h, awaits.run first, read]

/-- The machine holds a value: a complete one, or a numeral that may end. -/
inductive Machine.Holds : Machine → List Frame → Tree → Prop
  | complete (frames : List Frame) (t : Tree) : Holds ⟨frames, .complete t⟩ frames t
  | numeral (frames : List Frame) {stage : Stage} (last : stage.isFinal) (text : List Char) :
    Holds ⟨frames, .numeral stage text.reverse⟩ frames (.numeral text)

/-- A comma and the ends of containers are no part of a numeral. -/
theorem Stage.next?_eq_none (stage : Stage) {c : Char} (h : c = ',' ∨ c = ']' ∨ c = '\x7d') :
    stage.next? c = none := by
  rcases h with rfl | rfl | rfl <;> cases stage <;> rfl

/-- A comma or the end of a container follows the value that the machine holds. -/
theorem Machine.Holds.step {m : Machine} {frames : List Frame} {t : Tree} (h : m.Holds frames t)
    {c : Char} (mark : c = ',' ∨ c = ']' ∨ c = '\x7d') : m.step c = proceed frames t c := by
  cases h with
  | complete => rfl
  | numeral _ last text =>
    simp [Machine.step, Stage.next?_eq_none _ mark, last]

/-- At the end of the text the machine hands out what it holds. -/
theorem Machine.Holds.finish {m : Machine} {t : Tree} (h : m.Holds [] t) :
    m.finish = some t := by
  cases h with
  | complete => rfl
  | numeral _ last text => simp [Machine.finish, last]

/-! ## Strings and numbers -/

/-- A literal is fed in either of its places, as a value and as a key. -/
theorem Machine.run_literal {mode : Literal → Mode} (place : mode = .string ∨ mode = .name)
    (frames : List Frame) {l l' : Literal} {cs : List Char} (fed : l.feed cs = some l') :
    run ⟨frames, mode l⟩ cs = some ⟨frames, mode l'⟩ := by
  induction cs generalizing l with
  | nil => rw [← Option.some.inj fed, run]
  | cons c cs ih =>
    rw [Literal.feed] at fed
    split at fed
    next next more =>
      have step : step ⟨frames, mode l⟩ c = some ⟨frames, mode next⟩ := by
        rcases place with rfl | rfl <;> simp [Machine.step, more]
      rw [run, step]
      exact ih fed
    all_goals exact absurd fed (by simp)

/-- Behind the characters of a string the literal has spelled them. -/
theorem Machine.behind_escapes {mode : Literal → Mode} (place : mode = .string ∨ mode = .name)
    {out : String} {frames : List Frame} {chars : List Char}
    (h : behind out = some ⟨frames, mode (.spelling chars)⟩) (cs : List Char) :
    behind (cs.foldl (fun out c ↦ append out (escape c)) out) =
      some ⟨frames, mode (.spelling (cs.reverse ++ chars))⟩ := by
  induction cs generalizing out chars with
  | nil => exact h
  | cons c cs ih =>
    rw [List.foldl_cons, List.reverse_cons, List.append_assoc]
    refine ih ?_
    rw [behind_append h]
    exact run_literal place frames (Literal.feed_escape chars c)

/-- Behind a string only its last quotation mark is left to read. -/
theorem Machine.behind_writeString {mode : Literal → Mode}
    (place : mode = .string ∨ mode = .name) {out : String} {frames : List Frame}
    (h : behind (out.push '\x22') = some ⟨frames, mode {}⟩) (s : String) :
    behind (writeString out s) =
      step ⟨frames, mode (.spelling s.toList.reverse)⟩ '\x22' := by
  rw [writeString, String.foldl_eq_foldl_toList]
  refine behind_push ?_ _
  have opened : behind (out.push '\x22') = some ⟨frames, mode (.spelling [])⟩ := h
  have spelled := behind_escapes place opened s.toList
  rwa [List.append_nil] at spelled

/-- A literal that has been spelled to its end is the string it spells. -/
theorem Literal.next_quote (s : String) :
    (spelling s.toList.reverse).next '\x22' = .closed (some s) := by
  simp [next, spelling, text?]

/-- Behind the key of a member its value has to come. -/
theorem Machine.behind_key {out : String} {done : List (Option String × Tree)}
    {frames : List Frame} (h : behind (out.push '\x22') = some ⟨.object done :: frames, .name {}⟩)
    (key : String) :
    behind ((writeString out key).push ':') =
      some ⟨.member done (some key) :: frames, .value⟩ := by
  have read : behind (writeString out key) = some ⟨.member done (some key) :: frames, .colon⟩ := by
    rw [behind_writeString (.inr rfl) h]
    simp [Machine.step, Literal.next_quote]
  rw [behind_push read]
  rfl

/-- A digit begins a numeral. -/
theorem Machine.begin_digit (frames : List Frame) {c : Char} (digit : c.isDigit) :
    begin frames c = some ⟨frames, .numeral (if c = '0' then .zero else .whole) [c]⟩ := by
  have other : ∀ d : Char, d.isDigit = false → c ≠ d := by
    rintro d none rfl
    exact absurd digit (by simp [none])
  simp only [begin, other _ (by decide : '['.isDigit = false),
    other _ (by decide : '\x7b'.isDigit = false), other _ (by decide : '\x22'.isDigit = false),
    other _ (by decide : 'n'.isDigit = false), other _ (by decide : 't'.isDigit = false),
    other _ (by decide : 'f'.isDigit = false), other _ (by decide : '-'.isDigit = false), if_false,
    digit, if_true]
  split
  next zero => rw [zero]
  next => rfl

/-- Further digits belong to a numeral that did not begin with a zero. -/
theorem Machine.run_digits (frames : List Frame) (text : List Char) {cs : List Char}
    (digits : ∀ d ∈ cs, d.isDigit) :
    run ⟨frames, .numeral .whole text⟩ cs =
      some ⟨frames, .numeral .whole (cs.reverse ++ text)⟩ := by
  induction cs generalizing text with
  | nil => rfl
  | cons c cs ih =>
    have more : Stage.whole.next? c = some .whole := if_pos (digits c List.mem_cons_self)
    have step : step ⟨frames, .numeral .whole text⟩ c =
        some ⟨frames, .numeral .whole (c :: text)⟩ := by
      simp [Machine.step, more]
    rw [run, step, List.reverse_cons, List.append_assoc]
    exact ih _ fun d mem ↦ digits d (List.mem_cons_of_mem _ mem)

/-- Behind the digits of a number the machine holds their numeral. -/
theorem Machine.run_leading (frames : List Frame) (text : List Char) {c : Char} {rest : List Char}
    (digits : ∀ d ∈ rest, d.isDigit) (zero : c = '0' → rest = []) :
    ∃ m, run ⟨frames, .numeral (if c = '0' then .zero else .whole) (c :: text)⟩ rest = some m ∧
      m.Holds frames (.numeral (text.reverse ++ c :: rest)) := by
  have reversed : rest.reverse ++ c :: text = (text.reverse ++ c :: rest).reverse := by simp
  by_cases first : c = '0'
  · obtain rfl := zero first
    rw [if_pos first]
    have last : Stage.zero.isFinal := rfl
    exact ⟨_, rfl, by simpa using Holds.numeral frames last (text.reverse ++ [c])⟩
  · rw [if_neg first, run_digits frames _ digits, reversed]
    exact ⟨_, rfl, .numeral frames rfl _⟩

/-- Behind an integer the machine holds its numeral. -/
theorem Machine.Awaits.integer {m : Machine} {frames : List Frame} (h : m.Awaits frames) (n : Int) :
    ∃ m', m.run (Number.int n).text = some m' ∧ m'.Holds frames (.numeral (Number.int n).text) := by
  obtain ⟨c, rest, spelled, digit, digits, zero⟩ := Text.decimal_eq_cons n.natAbs
  rw [Number.text, spelled]
  split
  next =>
    have sign : begin frames '-' = some ⟨frames, .numeral .sign ['-']⟩ := rfl
    rw [h.run sign, Machine.run]
    have next : Stage.sign.next? c = some (if c = '0' then .zero else .whole) := by
      rw [Stage.next?, if_pos digit]
      split <;> rfl
    have step : Machine.step ⟨frames, .numeral .sign ['-']⟩ c =
        some ⟨frames, .numeral (if c = '0' then .zero else .whole) [c, '-']⟩ := by
      simp only [Machine.step, next]
    rw [step]
    exact run_leading frames ['-'] digits zero
  next =>
    rw [h.run (begin_digit frames digit)]
    exact run_leading frames [] digits zero

/-! ## Values -/

/-- The machine reads a value back wherever it may begin. -/
def Machine.Restores (v : Value) : Prop :=
  ∀ {out : String} {m : Machine} {frames : List Frame}, behind out = some m → m.Awaits frames →
    ∃ m', behind (write out v) = some m' ∧ m'.Holds frames v.tree

/-- Behind the last element of an array, and its end, the array is complete. -/
theorem Machine.behind_writeElements {rest : List Value} (parts : ∀ v ∈ rest, Restores v)
    {out : String} {m : Machine} {done : List Tree} {frames : List Frame} {t : Tree}
    (h : behind out = some m) (holds : m.Holds (.array done :: frames) t) :
    behind ((writeElements out rest).push ']') =
      some ⟨frames, .complete (.array (done.reverse ++ t :: Value.trees rest))⟩ := by
  induction rest generalizing out m done t with
  | nil =>
    rw [writeElements, behind_push h, holds.step (.inr (.inl rfl)), Value.trees,
      ← List.reverse_cons]
    rfl
  | cons v rest ih =>
    have comma : behind (out.push ',') = some ⟨.array (t :: done) :: frames, .value⟩ := by
      rw [behind_push h, holds.step (.inl rfl)]
      rfl
    obtain ⟨m', read, held⟩ := parts v List.mem_cons_self comma (.value _)
    rw [writeElements, ih (fun w mem ↦ parts w (List.mem_cons_of_mem _ mem)) read held,
      Value.trees, List.reverse_cons, List.append_assoc, List.singleton_append]

/-- Behind the last member of an object, and its end, the object is complete. -/
theorem Machine.behind_writeMembers {rest : List (String × Value)}
    (parts : ∀ m ∈ rest, Restores m.2) {out : String} {m : Machine}
    {done : List (Option String × Tree)} {key : Option String} {frames : List Frame} {t : Tree}
    (h : behind out = some m) (holds : m.Holds (.member done key :: frames) t) :
    behind ((writeMembers out rest).push '\x7d') =
      some ⟨frames, .complete (.object (done.reverse ++ (key, t) :: Value.memberTrees rest))⟩ := by
  induction rest generalizing out m done key t with
  | nil =>
    rw [writeMembers, behind_push h, holds.step (.inr (.inr rfl)), Value.memberTrees,
      ← List.reverse_cons]
    rfl
  | cons entry rest ih =>
    obtain ⟨name, v⟩ := entry
    have comma : behind (out.push ',') = some ⟨.object ((key, t) :: done) :: frames, .key⟩ := by
      rw [behind_push h, holds.step (.inl rfl)]
      rfl
    have named := behind_key (behind_push comma '\x22') name
    obtain ⟨m', read, held⟩ := parts (name, v) List.mem_cons_self named (.value _)
    rw [writeMembers, ih (fun w mem ↦ parts w (List.mem_cons_of_mem _ mem)) read held,
      Value.memberTrees, List.reverse_cons, List.append_assoc, List.singleton_append]

/-- The machine reads back every value whose numbers are integers. -/
theorem Machine.restores {v : Value} (h : v.Integral) : Restores v := by
  induction h with
  | null =>
    intro out m frames h awaits
    exact ⟨⟨frames, .complete .null⟩, awaits.whole h rfl, .complete ..⟩
  | bool b =>
    intro out m frames h awaits
    cases b with
    | true => exact ⟨⟨frames, .complete (.bool true)⟩, awaits.whole h rfl, .complete ..⟩
    | false => exact ⟨⟨frames, .complete (.bool false)⟩, awaits.whole h rfl, .complete ..⟩
  | int n =>
    intro out m frames h awaits
    obtain ⟨m', read, holds⟩ := awaits.integer n
    exact ⟨m', (behind_append h _).trans read, holds⟩
  | string s =>
    intro out m frames h awaits
    have quoted : behind (out.push '\x22') = some ⟨frames, .string {}⟩ :=
      (behind_push h _).trans (awaits.step rfl)
    have read : behind (writeString out s) = some ⟨frames, .complete (.string (some s))⟩ := by
      rw [behind_writeString (.inl rfl) quoted]
      simp [Machine.step, Literal.next_quote]
    exact ⟨_, read, .complete frames (.string (some s))⟩
  | @array elements _ parts =>
    intro out m frames h awaits
    have opened : behind (out.push '[') = some ⟨.array [] :: frames, .element⟩ :=
      (behind_push h _).trans (awaits.step rfl)
    cases elements with
    | nil => exact ⟨⟨frames, .complete (.array [])⟩, awaits.whole h rfl, .complete ..⟩
    | cons v rest =>
      obtain ⟨m', read, holds⟩ := parts v List.mem_cons_self opened (.element _)
      exact ⟨_, behind_writeElements (fun w mem ↦ parts w (List.mem_cons_of_mem _ mem)) read holds,
        .complete frames _⟩
  | @object members _ parts =>
    intro out m frames h awaits
    have opened : behind (out.push '\x7b') = some ⟨.object [] :: frames, .member⟩ :=
      (behind_push h _).trans (awaits.step rfl)
    cases members with
    | nil => exact ⟨⟨frames, .complete (.object [])⟩, awaits.whole h rfl, .complete ..⟩
    | cons entry rest =>
      obtain ⟨key, v⟩ := entry
      have named := behind_key (behind_push opened '\x22') key
      obtain ⟨m', read, holds⟩ := parts (key, v) List.mem_cons_self named (.value _)
      exact ⟨_, behind_writeMembers (fun w mem ↦ parts w (List.mem_cons_of_mem _ mem)) read holds,
        .complete frames _⟩

/-- The text of a value whose numbers are integers spells its tree. -/
theorem ofText?_render {v : Value} (h : v.Integral) : ofText? v.render = some v.tree := by
  have empty : Machine.behind "" = some Machine.start := rfl
  obtain ⟨m, read, holds⟩ := Machine.restores h empty (.value [])
  have finished : (Machine.behind v.render).bind Machine.finish = some v.tree := by
    rw [Value.render, read]
    exact holds.finish
  exact finished

end Tree

end Json

end Signatory
