import Ferryman.Lib.Monitor

/-!
# Programs that write a log

Log entries are effects beside those of the program. Without them the program is
what it was, and what a path writes can be counted.
-/

set_option autoImplicit false

namespace Ferryman

inductive Logged (Effect : Type → Type) (Entry β : Type) : Type where
  | act (effect : Effect β)
  | write (entry : Entry) (isUnit : β = Unit)

namespace Program

variable {Effect : Type → Type} {Entry Event α β : Type}

/-- The program without its log. -/
def erase : Program (Logged Effect Entry) α → Program Effect α
  | done result => done result
  | perform (.act effect) next => perform effect fun answer => (next answer).erase
  | perform (.write _ isUnit) next => (next (cast isUnit.symm ())).erase

def write (entry : Entry) : Program (Logged Effect Entry) Unit := lift (.write entry rfl)

/-- A program that writes nothing. -/
def silent (program : Program Effect α) : Program (Logged Effect Entry) α :=
  program.hoist .act

@[simp] theorem erase_done (result : α) :
    (done result : Program (Logged Effect Entry) α).erase = done result := rfl

@[simp] theorem erase_act (effect : Effect β) (next : β → Program (Logged Effect Entry) α) :
    (perform (.act effect) next).erase = perform effect fun answer => (next answer).erase := rfl

@[simp] theorem erase_write (entry : Entry) :
    (write entry : Program (Logged Effect Entry) Unit).erase = done () := rfl

@[simp] theorem erase_bind (program : Program (Logged Effect Entry) α)
    (rest : α → Program (Logged Effect Entry) β) :
    (program >>= rest).erase = program.erase >>= fun result => (rest result).erase := by
  induction program with
  | done result => rfl
  | perform effect next ih =>
      cases effect with
      | act effect => exact congrArg (perform effect) (funext ih)
      | write entry isUnit => exact ih _

@[simp] theorem erase_silent (program : Program Effect α) :
    (program.silent : Program (Logged Effect Entry) α).erase = program := by
  induction program with
  | done result => rfl
  | perform effect next ih => exact congrArg (perform effect) (funext ih)

/-- Both what is seen of the program and what it writes. -/
def Observer.logged (observer : Observer Effect Event) :
    Observer (Logged Effect Entry) (Event ⊕ Entry) where
  observe
    | .act effect, answer => .inl (observer.observe effect answer)
    | .write entry _, _ => .inr entry
  abandon
    | .act effect => (observer.abandon effect).map .inl
    | .write _ _ => none

def entries (seen : List (Event ⊕ Entry)) : List Entry := seen.filterMap Sum.getRight?

def unlogged (seen : List (Event ⊕ Entry)) : List Event := seen.filterMap Sum.getLeft?

variable {observer : Observer Effect Event}

/-- Taking the entries out of a path leaves a path of the program without its log, and
every path of that one comes about so. -/
theorem path_erase {program : Program (Logged Effect Entry) α} {events : List Event}
    {ended : Option α} :
    Path observer program.erase events ended ↔
      ∃ seen, unlogged seen = events ∧ Path observer.logged program seen ended := by
  constructor
  · intro path
    induction program generalizing events with
    | done result =>
        obtain ⟨rfl, rfl⟩ := path_done.mp path
        exact ⟨[], rfl, .finished⟩
    | perform effect next ih =>
        cases effect with
        | act effect =>
            cases path_perform.mp path with
            | inl waiting =>
                obtain ⟨event, waits, rfl, rfl⟩ := waiting
                refine ⟨[.inl event], rfl, .abandoned ?_⟩
                simp [Observer.logged, waits]
            | inr answered =>
                obtain ⟨answer, later, rfl, rest⟩ := answered
                obtain ⟨seen, rfl, logged⟩ := ih answer rest
                exact ⟨_ :: seen, rfl, .answered answer logged⟩
        | write entry isUnit =>
            cases isUnit
            obtain ⟨seen, rfl, logged⟩ := ih () path
            exact ⟨.inr entry :: seen, rfl, .answered () logged⟩
  · intro found
    obtain ⟨seen, rfl, path⟩ := found
    induction path with
    | finished => exact .finished
    | @abandoned γ effect next event waits =>
        cases effect with
        | act effect =>
            obtain ⟨own, isOwn, rfl⟩ := Option.map_eq_some_iff.mp waits
            exact .abandoned isOwn
        | write entry isUnit => cases waits
    | @answered γ effect next seen result answer _ ih =>
        cases effect with
        | act effect => exact .answered answer ih
        | write entry isUnit =>
            cases isUnit
            exact ih

/-- A path that ends writes one entry, which fits what was seen and the result, and one
that is abandoned writes none. -/
def LogsOnce (observer : Observer Effect Event) (fits : List Event → α → Entry → Prop)
    (program : Program (Logged Effect Entry) α) : Prop :=
  ∀ seen ended, Path observer.logged program seen ended →
    match ended with
    | some result => ∃ entry, entries seen = [entry] ∧ fits (unlogged seen) result entry
    | none => entries seen = []

variable {fits : List Event → α → Entry → Prop}

theorem logsOnce_write {result : α} {entry : Entry} (isFit : fits [] result entry) :
    LogsOnce observer fits (write entry >>= fun _ => done result) := by
  intro seen ended path
  cases path with
  | abandoned waits => cases waits
  | answered answer rest =>
      obtain ⟨rfl, rfl⟩ := path_done.mp rest
      exact ⟨entry, rfl, isFit⟩

theorem logsOnce_act {effect : Effect β} {next : β → Program (Logged Effect Entry) α}
    (later : ∀ answer,
      LogsOnce observer (fun events => fits (observer.observe effect answer :: events))
        (next answer)) :
    LogsOnce observer fits (perform (.act effect) next) := by
  intro seen ended path
  cases path with
  | abandoned waits =>
      obtain ⟨own, -, rfl⟩ := Option.map_eq_some_iff.mp waits
      rfl
  | answered answer rest =>
      have written := later answer _ _ rest
      exact written

theorem logsOnce_silent_bind {program : Program Effect β}
    {rest : β → Program (Logged Effect Entry) α}
    (later : ∀ events result, Path observer program events (some result) →
      LogsOnce observer (fun rest => fits (events ++ rest)) (rest result)) :
    LogsOnce observer fits (program.silent >>= rest) := by
  induction program generalizing fits with
  | done result => exact later [] result .finished
  | perform effect next ih =>
      refine logsOnce_act fun answer => ih answer fun events result path => ?_
      exact later _ result (.answered answer path)

theorem logsOnce_map {value : α → β} {fitsLater : List Event → β → Entry → Prop}
    {program : Program (Logged Effect Entry) α} (once : LogsOnce observer fits program)
    (fit : ∀ events result entry, fits events result entry →
      fitsLater events (value result) entry) :
    LogsOnce observer fitsLater (program >>= fun result => done (value result)) := by
  intro seen ended path
  obtain ⟨inner, first, rfl⟩ := path_map.mp path
  have written := once seen inner first
  cases inner with
  | none => exact written
  | some result =>
      obtain ⟨entry, isEntry, isFit⟩ := written
      exact ⟨entry, isEntry, fit _ result entry isFit⟩

end Program

end Ferryman
