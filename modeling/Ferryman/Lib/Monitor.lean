import Ferryman.Lib.Program

/-!
# Calls behind a lock

Any number of calls want one lock. The call that holds it performs its effects
one at a time, and everything that the lock does not guard may change between
any two of them.
-/

set_option autoImplicit false

namespace Ferryman

namespace Program

variable {Effect Effect' : Type → Type} {α β ε σ : Type}

def hoist (embed : {γ : Type} → Effect γ → Effect' γ) : Program Effect α → Program Effect' α
  | done result => done result
  | perform effect next => perform (embed effect) fun answer => (next answer).hoist embed

@[simp] theorem hoist_done (embed : {γ : Type} → Effect γ → Effect' γ) (result : α) :
    (done result : Program Effect α).hoist @embed = done result := rfl

@[simp] theorem hoist_perform (embed : {γ : Type} → Effect γ → Effect' γ) (effect : Effect β)
    (next : β → Program Effect α) :
    (perform effect next).hoist @embed =
      perform (embed effect) fun answer => (next answer).hoist @embed := rfl

/-! ## Guarded state

The state has a part `ε` that anyone may change between two effects, and a part
`σ` that only the effects change. -/

/-- Run a program while the outside changes under it: the change with number `n` comes
right before effect `n`, and one more after the last effect. -/
def runAmid (handler : Handler Effect (ε × σ)) :
    Program Effect α → (Nat → ε → ε) → ε × σ → α × ε × σ
  | done result, changes, (outside, inside) => (result, changes 0 outside, inside)
  | perform effect next, changes, (outside, inside) =>
      let (answer, after) := handler effect (changes 0 outside, inside)
      (next answer).runAmid handler (fun index => changes (index + 1)) after

@[simp] theorem runAmid_perform (handler : Handler Effect (ε × σ)) (effect : Effect β)
    (next : β → Program Effect α) (changes : Nat → ε → ε) (outside : ε) (inside : σ) :
    (perform effect next).runAmid handler changes (outside, inside) =
      (next (handler effect (changes 0 outside, inside)).1).runAmid handler
        (fun index => changes (index + 1)) (handler effect (changes 0 outside, inside)).2 := rfl

/-- Whatever is outside at each effect, `always` holds of the guarded state throughout
and `final` at the end. -/
def Ensures (handler : Handler Effect (ε × σ)) (always : σ → Prop) (final : α → σ → Prop) :
    Program Effect α → σ → Prop
  | done result, inside => always inside ∧ final result inside
  | perform effect next, inside => always inside ∧ ∀ outside,
      (next (handler effect (outside, inside)).1).Ensures handler always final
        (handler effect (outside, inside)).2.2

variable {handler : Handler Effect (ε × σ)} {always : σ → Prop}

theorem Ensures.always_holds {final : α → σ → Prop} {program : Program Effect α} {inside : σ}
    (ensures : program.Ensures handler always final inside) : always inside := by
  cases program with
  | done result => exact ensures.1
  | perform effect next => exact ensures.1

theorem Ensures.bind {middle : α → σ → Prop} {final : β → σ → Prop}
    {program : Program Effect α} {rest : α → Program Effect β} {inside : σ}
    (first : program.Ensures handler always middle inside)
    (later : ∀ result inside, middle result inside →
      (rest result).Ensures handler always final inside) :
    (program >>= rest).Ensures handler always final inside := by
  induction program generalizing inside with
  | done result => exact later result inside first.2
  | perform effect next ih =>
      exact ⟨first.1, fun outside => ih _ (first.2 outside)⟩

theorem Ensures.ite {condition : Prop} [Decidable condition] {final : α → σ → Prop}
    {yes no : Program Effect α} {inside : σ}
    (ifTrue : condition → yes.Ensures handler always final inside)
    (ifFalse : ¬ condition → no.Ensures handler always final inside) :
    (if condition then yes else no).Ensures handler always final inside := by
  split
  · exact ifTrue ‹_›
  · exact ifFalse ‹_›

theorem Ensures.mono {weakly : σ → Prop} {final weaker : α → σ → Prop}
    {program : Program Effect α} {inside : σ}
    (ensures : program.Ensures handler always final inside)
    (throughout : ∀ inside, always inside → weakly inside)
    (atEnd : ∀ result inside, final result inside → weaker result inside) :
    program.Ensures handler weakly weaker inside := by
  induction program generalizing inside with
  | done result => exact ⟨throughout inside ensures.1, atEnd result inside ensures.2⟩
  | perform effect next ih =>
      exact ⟨throughout inside ensures.1, fun outside => ih _ (ensures.2 outside)⟩

/-- With nobody else around, the sequential run is one of those that are covered. -/
theorem Ensures.run {final : α → σ → Prop} {program : Program Effect α} {inside : σ}
    (ensures : program.Ensures handler always final inside) (outside : ε) :
    final (program.run handler (outside, inside)).1
      (program.run handler (outside, inside)).2.2 := by
  induction program generalizing outside inside with
  | done result => exact ensures.2
  | perform effect next ih =>
      rw [run_perform]
      exact ih _ (ensures.2 outside) (handler effect (outside, inside)).2.1

theorem Ensures.runAmid {final : α → σ → Prop} {program : Program Effect α} {inside : σ}
    (ensures : program.Ensures handler always final inside) (changes : Nat → ε → ε) (outside : ε) :
    final (program.runAmid handler changes (outside, inside)).1
      (program.runAmid handler changes (outside, inside)).2.2 := by
  induction program generalizing changes outside inside with
  | done result => exact ensures.2
  | perform effect next ih =>
      rw [runAmid_perform]
      exact ih _ (ensures.2 (changes 0 outside)) _ _

theorem ensures_invariant (program : Program Effect α)
    (keeps : ∀ {γ : Type} (effect : Effect γ) outside inside,
      always inside → always (handler effect (outside, inside)).2.2)
    {inside : σ} (holds : always inside) :
    program.Ensures handler always (fun _ => always) inside := by
  induction program generalizing inside with
  | done result => exact ⟨holds, holds⟩
  | perform effect next ih => exact ⟨holds, fun _ => ih _ (keeps effect _ _ holds)⟩

/-- The protocol that restricts nothing but the kinds of effects. -/
def Protocol.only (allowed : {γ : Type} → Effect γ → Prop) : Protocol Effect Unit where
  allowed := allowed
  answers _ _ := True
  remember _ _ _ := ()

/-- A program keeps what each of its effects keeps. -/
theorem Follows.ensures {allowed : {γ : Type} → Effect γ → Prop} {program : Program Effect α}
    (follows : program.Follows (Protocol.only @allowed) (fun _ _ => True) ())
    (keeps : ∀ {γ : Type} (effect : Effect γ), allowed effect → ∀ outside inside,
      always inside → always (handler effect (outside, inside)).2.2)
    {inside : σ} (holds : always inside) :
    program.Ensures handler always (fun _ => always) inside := by
  induction program generalizing inside with
  | done result => exact ⟨holds, holds⟩
  | perform effect next ih =>
      exact ⟨holds, fun outside => ih _ (follows.2 _ trivial) (keeps effect follows.1 _ _ holds)⟩

end Program

/-! ## The lock -/

/-- Calls of type `κ` that wait for the lock, and what is left to do for the one that
has it. -/
structure Monitor (Effect : Type → Type) (ε σ κ : Type) : Type 1 where
  outside : ε
  inside : σ
  waiting : List κ := []
  holder : Option (Program Effect Unit) := none

inductive MonitorMove (ε κ : Type) where
  | disturb (change : ε → ε)
  | call (request : κ)
  | enter (index : Nat)
  | advance
  | leave

namespace Monitor

variable {Effect : Type → Type} {ε σ κ : Type}

def enter (body : κ → Program Effect Unit) (monitor : Monitor Effect ε σ κ) (index : Nat) :
    Monitor Effect ε σ κ :=
  match monitor.holder, monitor.waiting[index]? with
  | none, some request =>
      { monitor with
        waiting := monitor.waiting.eraseIdx index
        holder := some (body request) }
  | _, _ => monitor

def advance (handler : Handler Effect (ε × σ)) (monitor : Monitor Effect ε σ κ) :
    Monitor Effect ε σ κ :=
  match monitor.holder with
  | some (.perform effect next) =>
      let (answer, outside, inside) := handler effect (monitor.outside, monitor.inside)
      { monitor with
        outside := outside
        inside := inside
        holder := some (next answer) }
  | _ => monitor

def leave (monitor : Monitor Effect ε σ κ) : Monitor Effect ε σ κ :=
  match monitor.holder with
  | some (.done _) => { monitor with holder := none }
  | _ => monitor

def step (handler : Handler Effect (ε × σ)) (body : κ → Program Effect Unit)
    (monitor : Monitor Effect ε σ κ) : MonitorMove ε κ → Monitor Effect ε σ κ
  | .disturb change => { monitor with outside := change monitor.outside }
  | .call request => { monitor with waiting := monitor.waiting ++ [request] }
  | .enter index => monitor.enter body index
  | .advance => monitor.advance handler
  | .leave => monitor.leave

def run (handler : Handler Effect (ε × σ)) (body : κ → Program Effect Unit)
    (monitor : Monitor Effect ε σ κ) (moves : List (MonitorMove ε κ)) : Monitor Effect ε σ κ :=
  moves.foldl (step handler body) monitor

/-- The guarded state is `rest` when nobody has the lock, and will be again when the
holder is done. -/
def Guarded (handler : Handler Effect (ε × σ)) (always rest : σ → Prop)
    (monitor : Monitor Effect ε σ κ) : Prop :=
  match monitor.holder with
  | none => rest monitor.inside
  | some program => program.Ensures handler always (fun _ => rest) monitor.inside

section Invariants

variable {handler : Handler Effect (ε × σ)} {body : κ → Program Effect Unit}
  {always rest : σ → Prop} {monitor : Monitor Effect ε σ κ}

theorem Guarded.always_holds (safe : ∀ inside, rest inside → always inside)
    (guarded : monitor.Guarded handler always rest) : always monitor.inside := by
  unfold Guarded at guarded
  split at guarded
  · exact safe _ guarded
  · exact guarded.always_holds

theorem Guarded.rest_holds (guarded : monitor.Guarded handler always rest)
    (free : monitor.holder = none) : rest monitor.inside := by
  unfold Guarded at guarded
  rwa [free] at guarded

theorem Guarded.step
    (keeps : ∀ request inside, rest inside →
      (body request).Ensures handler always (fun _ => rest) inside)
    (guarded : monitor.Guarded handler always rest) (move : MonitorMove ε κ) :
    (monitor.step handler body move).Guarded handler always rest := by
  obtain ⟨outside, inside, waiting, holder⟩ := monitor
  cases move with
  | disturb change => exact guarded
  | call request => exact guarded
  | enter index =>
      cases holder with
      | some program => exact guarded
      | none =>
          simp only [Monitor.step, enter]
          cases waiting[index]? with
          | none => exact guarded
          | some request => exact keeps request inside guarded
  | advance =>
      cases holder with
      | none => exact guarded
      | some program =>
          cases program with
          | done result => exact guarded
          | perform effect next => exact guarded.2 outside
  | leave =>
      cases holder with
      | none => exact guarded
      | some program =>
          cases program with
          | done result => exact guarded.2
          | perform effect next => exact guarded

theorem Guarded.run
    (keeps : ∀ request inside, rest inside →
      (body request).Ensures handler always (fun _ => rest) inside)
    (guarded : monitor.Guarded handler always rest) (moves : List (MonitorMove ε κ)) :
    (monitor.run handler body moves).Guarded handler always rest := by
  induction moves generalizing monitor with
  | nil => exact guarded
  | cons move moves ih => exact ih (guarded.step keeps move)

end Invariants

end Monitor

end Ferryman
