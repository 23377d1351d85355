import Ferryman.Lib.Bytes
import Mathlib.Data.List.Flatten

/-!
# The syntax of `Forwarded`

A reader for lists of elements, each a list of `name=value` pairs: `,` with
optional blanks stands between elements, `;` between pairs, a value is a token
or a quoted string in which a backslash escapes the next byte. Empty elements
and empty pairs are skipped. The reader takes one byte at a time; it accepts a
text when no pair is left unfinished at its end.
-/

set_option autoImplicit false

namespace Ferryman.ForwardedSyntax

open Byte

def isTokenByte (c : UInt8) : Bool :=
  isAlphanumeric c || (ascii "!#$%&'*+-.^_|~").contains c || c == 0x60

/-- What a quoted string may hold, plain or behind a backslash. -/
def isQuotedByte (c : UInt8) : Bool := (0x20 ≤ c && c != 0x7F) || c == tab

def isBlank (c : UInt8) : Bool := c == space || c == tab

abbrev equals : UInt8 := 0x3D

abbrev Pair := Bytes × Bytes

abbrev Element := List Pair

/-- Where the reader stands: before an element, behind a `;`, in a name, behind
`=`, in a token, in a quoted string, behind a backslash, behind the closing
quote, or behind the blanks that follow an element. -/
inductive Mode where
  | start
  | gap
  | name (text : Bytes)
  | value (name : Bytes)
  | token (name text : Bytes)
  | quoted (name text : Bytes)
  | escape (name text : Bytes)
  | closed (name text : Bytes)
  | after
  deriving DecidableEq, Repr

structure State where
  elements : List Element := []
  pairs : Element := []
  mode : Mode := .start
  deriving DecidableEq, Repr

namespace State

/-- The pairs of the current element, unless one is unfinished. -/
def settled (state : State) : Option Element :=
  match state.mode with
  | .start | .gap | .after => some state.pairs
  | .token name text | .closed name text => some (state.pairs ++ [(name, text)])
  | .name _ | .value _ | .quoted _ _ | .escape _ _ => none

def withElement (elements : List Element) (pairs : Element) : List Element :=
  if pairs = [] then elements else elements ++ [pairs]

/-- All elements, if the text may end here. -/
def complete (state : State) : Option (List Element) :=
  state.settled.map (withElement state.elements)

/-- A byte between two pairs or two elements. -/
def delimiter (state : State) (c : UInt8) : Option State :=
  match state.settled with
  | none => none
  | some pairs =>
      if c == comma then some ⟨withElement state.elements pairs, [], .start⟩
      else if c == semicolon && state.mode != .after then some ⟨state.elements, pairs, .gap⟩
      else if isBlank c then
        some ⟨state.elements, pairs, if state.mode = .start then .start else .after⟩
      else none

def step (state : State) (c : UInt8) : Option State :=
  match state.mode with
  | .start | .gap =>
      if isTokenByte c then some { state with mode := .name [c] } else state.delimiter c
  | .name text =>
      if c == equals then some { state with mode := .value text }
      else if isTokenByte c then some { state with mode := .name (text ++ [c]) }
      else none
  | .value name =>
      if c == quote then some { state with mode := .quoted name [] }
      else if isTokenByte c then some { state with mode := .token name [c] }
      else none
  | .token name text =>
      if isTokenByte c then some { state with mode := .token name (text ++ [c]) }
      else state.delimiter c
  | .quoted name text =>
      if c == quote then some { state with mode := .closed name text }
      else if c == backslash then some { state with mode := .escape name text }
      else if isQuotedByte c then some { state with mode := .quoted name (text ++ [c]) }
      else none
  | .escape name text =>
      if isQuotedByte c then some { state with mode := .quoted name (text ++ [c]) } else none
  | .closed _ _ | .after => state.delimiter c

def run (state : State) (text : Bytes) : Option State := text.foldlM step state

end State

def parse (text : Bytes) : Option (List Element) :=
  (State.run {} text).bind State.complete

/-! ## Runs -/

namespace State

@[simp] theorem run_nil (state : State) : state.run [] = some state := rfl

theorem run_cons {state next : State} {c : UInt8} (stepped : state.step c = some next)
    (rest : Bytes) : state.run (c :: rest) = next.run rest := by
  simp [run, stepped]

theorem run_append {state next : State} {left : Bytes} (ran : state.run left = some next)
    (right : Bytes) : state.run (left ++ right) = next.run right := by
  rw [run] at ran
  rw [run, List.foldlM_append, ran]
  rfl

/-- The state with more elements in front. -/
def behind (front : List Element) (state : State) : State :=
  { state with elements := front ++ state.elements }

theorem withElement_append (front elements : List Element) (pairs : Element) :
    withElement (front ++ elements) pairs = front ++ withElement elements pairs := by
  unfold withElement
  split
  · rfl
  · rw [List.append_assoc]

theorem complete_behind (front : List Element) (state : State) :
    (behind front state).complete = state.complete.map (front ++ ·) := by
  have same : (behind front state).settled = state.settled := rfl
  rw [complete, complete, same]
  cases state.settled with
  | none => rfl
  | some pairs => simp [behind, withElement_append]

theorem delimiter_behind (front : List Element) (state : State) (c : UInt8) :
    (behind front state).delimiter c = (state.delimiter c).map (behind front) := by
  have same : (behind front state).settled = state.settled := rfl
  rw [delimiter, delimiter, same]
  cases state.settled with
  | none => rfl
  | some pairs =>
      simp only [apply_ite (Option.map (behind front)), Option.map_some, Option.map_none, behind,
        withElement_append]
      rfl

/-- The elements read so far have no influence on what follows. -/
theorem step_behind (front : List Element) (state : State) (c : UInt8) :
    (behind front state).step c = (state.step c).map (behind front) := by
  have delimited := delimiter_behind front state c
  obtain ⟨elements, pairs, mode⟩ := state
  cases mode
  all_goals
    simp only [step, apply_ite (Option.map (behind front)), Option.map_some, Option.map_none, behind]
      at delimited ⊢
  all_goals
    first | rfl | rw [← delimited]

theorem run_behind (front : List Element) (state : State) (text : Bytes) :
    (behind front state).run text = (state.run text).map (behind front) := by
  induction text generalizing state with
  | nil => rfl
  | cons c rest ih =>
      have stepped := step_behind front state c
      cases next : state.step c with
      | none =>
          rw [next] at stepped
          simp [run, stepped, next]
      | some next' =>
          rw [next] at stepped
          rw [run_cons stepped, run_cons next, ih]

/-- A comma behind a complete text starts over behind its elements. -/
theorem step_comma {state : State} {elements : List Element}
    (complete : state.complete = some elements) :
    state.step comma = some (behind elements {}) := by
  have notToken : isTokenByte comma = false := by decide
  rw [State.complete, Option.map_eq_some_iff] at complete
  obtain ⟨pairs, settled, rfl⟩ := complete
  have delimited : state.delimiter comma =
      some (behind (withElement state.elements pairs) {}) := by
    simp [delimiter, settled, behind]
  obtain ⟨finished, current, mode⟩ := state
  cases mode
  all_goals simp [State.settled] at settled
  all_goals simp [step, notToken, delimited]

end State

theorem parse_comma {left : Bytes} {elements : List Element} (parsed : parse left = some elements)
    (right : Bytes) : parse (left ++ comma :: right) = (parse right).map (elements ++ ·) := by
  obtain ⟨state, ran, complete⟩ := Option.bind_eq_some_iff.mp parsed
  rw [parse, State.run_append ran, State.run_cons (State.step_comma complete), State.run_behind,
    parse]
  cases State.run {} right with
  | none => rfl
  | some last => exact State.complete_behind elements last

theorem parse_blank {c : UInt8} (blank : isBlank c = true) (text : Bytes) :
    parse (c :: text) = parse text := by
  have stays : State.step {} c = some {} := by
    simp only [isBlank, Bool.or_eq_true, beq_iff_eq] at blank
    cases blank with
    | inl isSpace =>
        subst isSpace
        decide
    | inr isTab =>
        subst isTab
        decide
  rw [parse, State.run_cons stays, parse]

/-! ## Written elements -/

def escapeByte (c : UInt8) : Bytes :=
  if c == backslash || c == quote then [backslash, c] else [c]

/-- The texts that stand for a value: a token for itself, or the value between
quotes with backslashes and quotes escaped. -/
inductive Spells : Bytes → Bytes → Prop where
  | token (text : Bytes) : text ≠ [] → text.all isTokenByte = true → Spells text text
  | quoted (text : Bytes) : text.all isQuotedByte = true →
      Spells (quote :: text.flatMap escapeByte ++ [quote]) text

/-- A pair as written: its name, its value and the text for the value. -/
structure WrittenPair where
  name : Bytes
  value : Bytes
  text : Bytes
  isName : name ≠ [] ∧ name.all isTokenByte = true
  spells : Spells text value

namespace WrittenPair

def pair (written : WrittenPair) : Pair := (written.name, written.value)

def bytes (written : WrittenPair) : Bytes := written.name ++ equals :: written.text

end WrittenPair

namespace State

section Written

variable (elements : List Element) (pairs : Element)

theorem run_name {text : Bytes} (isToken : text.all isTokenByte = true) (front : Bytes) :
    run ⟨elements, pairs, .name front⟩ (text ++ [equals]) =
      some ⟨elements, pairs, .value (front ++ text)⟩ := by
  induction text generalizing front with
  | nil =>
      have stepped : step ⟨elements, pairs, .name front⟩ equals =
          some ⟨elements, pairs, .value front⟩ := by
        simp [step]
      simpa using run_cons stepped []
  | cons c rest ih =>
      rw [List.all_cons, Bool.and_eq_true] at isToken
      have notEquals : c ≠ equals := by
        intro same
        subst same
        exact absurd isToken.1 (by decide)
      have stepped : step ⟨elements, pairs, .name front⟩ c =
          some ⟨elements, pairs, .name (front ++ [c])⟩ := by
        simp [step, isToken.1, notEquals]
      rw [List.cons_append, run_cons stepped, ih isToken.2]
      simp

theorem run_token {text : Bytes} (isToken : text.all isTokenByte = true) (name front : Bytes) :
    run ⟨elements, pairs, .token name front⟩ text =
      some ⟨elements, pairs, .token name (front ++ text)⟩ := by
  induction text generalizing front with
  | nil => simp
  | cons c rest ih =>
      rw [List.all_cons, Bool.and_eq_true] at isToken
      have stepped : step ⟨elements, pairs, .token name front⟩ c =
          some ⟨elements, pairs, .token name (front ++ [c])⟩ := by
        simp [step, isToken.1]
      rw [run_cons stepped, ih isToken.2]
      simp

theorem run_escapeByte {c : UInt8} (isQuoted : isQuotedByte c = true) (name front : Bytes) :
    run ⟨elements, pairs, .quoted name front⟩ (escapeByte c) =
      some ⟨elements, pairs, .quoted name (front ++ [c])⟩ := by
  unfold escapeByte
  split
  · have opened : step ⟨elements, pairs, .quoted name front⟩ backslash =
        some ⟨elements, pairs, .escape name front⟩ := by
      have notQuote : backslash ≠ quote := by decide
      simp [step, notQuote]
    have taken : step ⟨elements, pairs, .escape name front⟩ c =
        some ⟨elements, pairs, .quoted name (front ++ [c])⟩ := by
      simp [step, isQuoted]
    rw [run_cons opened, run_cons taken, run_nil]
  · next plain =>
    simp only [Bool.or_eq_true, beq_iff_eq, not_or] at plain
    have taken : step ⟨elements, pairs, .quoted name front⟩ c =
        some ⟨elements, pairs, .quoted name (front ++ [c])⟩ := by
      simp [step, isQuoted, plain.1, plain.2]
    rw [run_cons taken, run_nil]

/-- No byte of an escaped text closes the string. -/
theorem run_quoted {text : Bytes} (isQuoted : text.all isQuotedByte = true) (name front : Bytes) :
    run ⟨elements, pairs, .quoted name front⟩ (text.flatMap escapeByte) =
      some ⟨elements, pairs, .quoted name (front ++ text)⟩ := by
  induction text generalizing front with
  | nil => simp
  | cons c rest ih =>
      rw [List.all_cons, Bool.and_eq_true] at isQuoted
      rw [List.flatMap_cons, run_append (run_escapeByte elements pairs isQuoted.1 name front),
        ih isQuoted.2]
      simp

theorem run_value {text value : Bytes} (spells : Spells text value) (name : Bytes) :
    ∃ mode, run ⟨elements, pairs, .value name⟩ text = some ⟨elements, pairs, mode⟩ ∧
      (mode = .token name value ∨ mode = .closed name value) := by
  cases spells with
  | token _ nonempty isToken =>
      obtain ⟨c, rest, rfl⟩ := List.exists_cons_of_ne_nil nonempty
      rw [List.all_cons, Bool.and_eq_true] at isToken
      have notQuote : c ≠ quote := by
        intro same
        subst same
        exact absurd isToken.1 (by decide)
      have stepped : step ⟨elements, pairs, .value name⟩ c =
          some ⟨elements, pairs, .token name [c]⟩ := by
        simp [step, isToken.1, notQuote]
      refine ⟨_, ?_, .inl rfl⟩
      rw [run_cons stepped, run_token elements pairs isToken.2]
      rfl
  | quoted _ isQuoted =>
      have opened : step ⟨elements, pairs, .value name⟩ quote =
          some ⟨elements, pairs, .quoted name []⟩ := by
        simp [step]
      have closed : step ⟨elements, pairs, .quoted name value⟩ quote =
          some ⟨elements, pairs, .closed name value⟩ := by
        simp [step]
      refine ⟨_, ?_, .inr rfl⟩
      rw [List.cons_append, run_cons opened,
        run_append (run_quoted elements pairs isQuoted name []), List.nil_append, run_cons closed,
        run_nil]

theorem run_pair {mode : Mode} (before : mode = .start ∨ mode = .gap) (written : WrittenPair) :
    ∃ behind, run ⟨elements, pairs, mode⟩ written.bytes = some ⟨elements, pairs, behind⟩ ∧
      (behind = .token written.name written.value ∨
        behind = .closed written.name written.value) := by
  obtain ⟨name, value, text, ⟨nonempty, isName⟩, spells⟩ := written
  obtain ⟨c, rest, rfl⟩ := List.exists_cons_of_ne_nil nonempty
  rw [List.all_cons, Bool.and_eq_true] at isName
  have stepped : step ⟨elements, pairs, mode⟩ c = some ⟨elements, pairs, .name [c]⟩ := by
    cases before with
    | inl atStart => simp [step, atStart, isName.1]
    | inr inGap => simp [step, inGap, isName.1]
  obtain ⟨behind, ran, shape⟩ := run_value elements pairs spells (c :: rest)
  refine ⟨behind, ?_, shape⟩
  have named := run_name elements pairs isName.2 [c]
  simp only [WrittenPair.bytes]
  rw [List.append_cons, List.cons_append, List.cons_append, run_cons stepped, run_append named]
  exact ran

/-- A written element, from behind some of its pairs to its end. -/
theorem run_pairs {mode : Mode} (before : mode = .start ∨ mode = .gap)
    (first : WrittenPair) (others : List WrittenPair) :
    (run ⟨elements, pairs, mode⟩
        (List.intercalate [semicolon] ((first :: others).map WrittenPair.bytes))).bind complete =
      some (elements ++ [pairs ++ (first :: others).map WrittenPair.pair]) := by
  induction others generalizing first pairs mode with
  | nil =>
      obtain ⟨behind, ran, shape⟩ := run_pair elements pairs before first
      have last : complete ⟨elements, pairs, behind⟩ =
          some (elements ++ [pairs ++ [first.pair]]) := by
        rcases shape with rfl | rfl <;> simp [complete, settled, withElement, WrittenPair.pair]
      simp [ran, last]
  | cons next others ih =>
      obtain ⟨behind, ran, shape⟩ := run_pair elements pairs before first
      have stepped : step ⟨elements, pairs, behind⟩ semicolon =
          some ⟨elements, pairs ++ [first.pair], .gap⟩ := by
        have notToken : isTokenByte semicolon = false := by decide
        have notComma : semicolon ≠ comma := by decide
        rcases shape with rfl | rfl <;>
          simp [step, delimiter, settled, notToken, notComma, WrittenPair.pair]
      have later := ih (pairs ++ [first.pair]) (.inr rfl) next
      rw [List.map_cons, List.map_cons, List.intercalate_cons_cons, List.append_assoc,
        run_append ran, List.singleton_append, run_cons stepped, ← List.map_cons, later]
      simp

end Written

end State

/-- A written element is read back as one element with its pairs. -/
theorem parse_element (first : WrittenPair) (others : List WrittenPair) :
    parse (List.intercalate [semicolon] ((first :: others).map WrittenPair.bytes)) =
      some [(first :: others).map WrittenPair.pair] :=
  State.run_pairs [] [] (.inl rfl) first others

end Ferryman.ForwardedSyntax
