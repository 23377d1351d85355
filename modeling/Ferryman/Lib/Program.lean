/-!
# Programs over indivisible effects

A program is a finite tree of effects with one continuation per answer. The
same program text has a sequential meaning, where a handler answers every
effect in turn, and an interleaved one, where other calls run between any two
effects.
-/

set_option autoImplicit false

namespace Ferryman

inductive Program (Effect : Type → Type) (α : Type) : Type 1 where
  | done (result : α) : Program Effect α
  | perform {β : Type} (effect : Effect β) (next : β → Program Effect α) : Program Effect α

def Handler (Effect : Type → Type) (σ : Type) : Type 1 :=
  {β : Type} → Effect β → σ → β × σ

namespace Program

variable {Effect : Type → Type} {α β σ : Type}

def bind (program : Program Effect α) (rest : α → Program Effect β) : Program Effect β :=
  match program with
  | done result => rest result
  | perform effect next => perform effect fun answer => (next answer).bind rest

instance : Monad (Program Effect) where
  pure := done
  bind := bind

def lift (effect : Effect α) : Program Effect α := perform effect done

@[simp] theorem pure_eq (result : α) : (pure result : Program Effect α) = done result := rfl

@[simp] theorem done_bind (result : α) (rest : α → Program Effect β) :
    (done result >>= rest) = rest result := rfl

@[simp] theorem perform_bind {γ : Type} (effect : Effect γ) (next : γ → Program Effect α)
    (rest : α → Program Effect β) :
    (perform effect next >>= rest) =
      perform effect fun answer => next answer >>= rest := rfl

@[simp] theorem lift_bind (effect : Effect α) (rest : α → Program Effect β) :
    (lift effect >>= rest) = perform effect rest := rfl

/-! ## Sequential meaning -/

def run (handler : Handler Effect σ) : Program Effect α → σ → α × σ
  | done result, state => (result, state)
  | perform effect next, state =>
      let (answer, after) := handler effect state
      (next answer).run handler after

@[simp] theorem run_done (handler : Handler Effect σ) (result : α) (state : σ) :
    (done result : Program Effect α).run handler state = (result, state) := rfl

@[simp] theorem run_perform (handler : Handler Effect σ) (effect : Effect β)
    (next : β → Program Effect α) (state : σ) :
    (perform effect next).run handler state =
      (next (handler effect state).1).run handler (handler effect state).2 := rfl

@[simp] theorem run_lift (handler : Handler Effect σ) (effect : Effect α) (state : σ) :
    (lift effect).run handler state = handler effect state := rfl

@[simp] theorem run_bind (handler : Handler Effect σ) (program : Program Effect α)
    (rest : α → Program Effect β) (state : σ) :
    (program >>= rest).run handler state =
      (rest (program.run handler state).1).run handler (program.run handler state).2 := by
  induction program generalizing state with
  | done result => rfl
  | perform effect next ih => exact ih _ _

@[simp] theorem run_ite (handler : Handler Effect σ) (condition : Prop) [Decidable condition]
    (yes no : Program Effect α) (state : σ) :
    (if condition then yes else no).run handler state =
      if condition then yes.run handler state else no.run handler state := by
  split <;> rfl

/-! ## Local obligations

What a call will do from here on, whatever other calls do to the state between
its effects. -/

structure Protocol (Effect : Type → Type) (κ : Type) where
  allowed : {γ : Type} → Effect γ → Prop
  answers : {γ : Type} → Effect γ → γ → Prop
  remember : {γ : Type} → κ → Effect γ → γ → κ

variable {κ : Type} {protocol : Protocol Effect κ}

/-- Whatever the answers, the program keeps to the protocol and ends with a
result that fits what it remembers. -/
def Follows (protocol : Protocol Effect κ) (final : κ → α → Prop) :
    κ → Program Effect α → Prop
  | memory, done result => final memory result
  | memory, perform effect next =>
      protocol.allowed effect ∧ ∀ answer, protocol.answers effect answer →
        (next answer).Follows protocol final (protocol.remember memory effect answer)

@[simp] theorem follows_done (final : κ → α → Prop) (memory : κ) (result : α) :
    (done result : Program Effect α).Follows protocol final memory = final memory result := rfl

@[simp] theorem follows_perform (final : κ → α → Prop) (memory : κ) (effect : Effect β)
    (next : β → Program Effect α) :
    (perform effect next).Follows protocol final memory =
      (protocol.allowed effect ∧ ∀ answer, protocol.answers effect answer →
        (next answer).Follows protocol final (protocol.remember memory effect answer)) := rfl

theorem Follows.bind {middle : κ → α → Prop} {final : κ → β → Prop}
    {program : Program Effect α} {rest : α → Program Effect β} {memory : κ}
    (first : program.Follows protocol middle memory)
    (later : ∀ memory result, middle memory result →
      (rest result).Follows protocol final memory) :
    (program >>= rest).Follows protocol final memory := by
  induction program generalizing memory with
  | done result => exact later memory result first
  | perform effect next ih =>
      exact ⟨first.1, fun answer admitted => ih answer (first.2 answer admitted)⟩

/-! ## Paths

A program that is abandoned while it waits for an answer does nothing more. -/

/-- What is seen of an answered effect, and of a program abandoned at one where it
waits. -/
structure Observer (Effect : Type → Type) (Event : Type) where
  observe : {γ : Type} → Effect γ → γ → Event
  abandon : {γ : Type} → Effect γ → Option Event

variable {Event : Type}

/-- One way through a program: what was seen, and the result unless the program
was abandoned. -/
inductive Path (observer : Observer Effect Event) :
    Program Effect α → List Event → Option α → Prop where
  | finished {result : α} : Path observer (done result) [] (some result)
  | abandoned {γ : Type} {effect : Effect γ} {next : γ → Program Effect α} {event : Event} :
      observer.abandon effect = some event → Path observer (perform effect next) [event] none
  | answered {γ : Type} {effect : Effect γ} {next : γ → Program Effect α} {seen : List Event}
      {result : Option α} (answer : γ) :
      Path observer (next answer) seen result →
        Path observer (perform effect next) (observer.observe effect answer :: seen) result

section Paths

variable {observer : Observer Effect Event}

theorem path_done {result : α} {seen : List Event} {ended : Option α} :
    Path observer (done result : Program Effect α) seen ended ↔
      seen = [] ∧ ended = some result := by
  constructor
  · intro path
    cases path
    exact ⟨rfl, rfl⟩
  · intro same
    obtain ⟨rfl, rfl⟩ := same
    exact .finished

theorem path_perform {effect : Effect β} {next : β → Program Effect α} {seen : List Event}
    {ended : Option α} :
    Path observer (perform effect next) seen ended ↔
      (∃ event, observer.abandon effect = some event ∧ seen = [event] ∧ ended = none) ∨
        ∃ answer later, seen = observer.observe effect answer :: later ∧
          Path observer (next answer) later ended := by
  constructor
  · intro path
    cases path with
    | abandoned waits => exact .inl ⟨_, waits, rfl, rfl⟩
    | answered answer rest => exact .inr ⟨answer, _, rfl, rest⟩
  · rintro (⟨event, waits, rfl, rfl⟩ | ⟨answer, later, rfl, rest⟩)
    · exact .abandoned waits
    · exact .answered answer rest

/-- A path through a sequence is one through its first part, which may have been
abandoned, and one through the rest. -/
theorem path_bind {program : Program Effect α} {rest : α → Program Effect β} {seen : List Event}
    {ended : Option β} (path : Path observer (program >>= rest) seen ended) :
    (Path observer program seen none ∧ ended = none) ∨
      ∃ front back result, seen = front ++ back ∧ Path observer program front (some result) ∧
        Path observer (rest result) back ended := by
  induction program generalizing seen with
  | done result => exact .inr ⟨[], seen, result, rfl, .finished, path⟩
  | perform effect next ih =>
      rcases path_perform.mp path with ⟨event, waits, rfl, rfl⟩ | ⟨answer, later, rfl, inner⟩
      · exact .inl ⟨.abandoned waits, rfl⟩
      · rcases ih answer inner with ⟨first, isNone⟩ | ⟨front, back, result, rfl, first, second⟩
        · exact .inl ⟨.answered answer first, isNone⟩
        · exact .inr ⟨_ :: front, back, result, rfl, .answered answer first, second⟩

/-- What is done to the result does not show in what was seen. -/
theorem path_map {program : Program Effect α} {value : α → β} {seen : List Event}
    {ended : Option β} :
    Path observer (program >>= fun result => done (value result)) seen ended ↔
      ∃ inner, Path observer program seen inner ∧ ended = inner.map value := by
  constructor
  · intro path
    rcases path_bind path with ⟨first, rfl⟩ | ⟨front, back, result, rfl, first, second⟩
    · exact ⟨none, first, rfl⟩
    · obtain ⟨rfl, rfl⟩ := path_done.mp second
      exact ⟨some result, by simpa using first, rfl⟩
  · intro found
    obtain ⟨inner, path, rfl⟩ := found
    induction path with
    | finished => exact .finished
    | abandoned waits => exact .abandoned waits
    | answered answer _ ih => exact .answered answer ih

end Paths

end Program

end Ferryman
