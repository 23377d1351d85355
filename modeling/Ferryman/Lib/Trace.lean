import Mathlib.Data.List.Basic

/-!
# Traces of a deterministic machine

A machine answers each input and moves to a next state. Its trace keeps every
step with the states around it, so that a property of one step can refer to
the whole history before it.
-/

set_option autoImplicit false

namespace Ferryman

structure Step (σ ι ω : Type) where
  before : σ
  input : ι
  output : ω
  after : σ
deriving DecidableEq

variable {σ ι ω : Type}

def Step.take (machine : σ → ι → ω × σ) (state : σ) (input : ι) : Step σ ι ω where
  before := state
  input := input
  output := (machine state input).1
  after := (machine state input).2

def trace (machine : σ → ι → ω × σ) : σ → List ι → List (Step σ ι ω)
  | _, [] => []
  | state, input :: rest =>
      Step.take machine state input :: trace machine (machine state input).2 rest

def reach (machine : σ → ι → ω × σ) (state : σ) (inputs : List ι) : σ :=
  inputs.foldl (fun state input => (machine state input).2) state

variable {machine : σ → ι → ω × σ}

theorem trace_append (state : σ) (first second : List ι) :
    trace machine state (first ++ second) =
      trace machine state first ++ trace machine (reach machine state first) second := by
  induction first generalizing state with
  | nil => rfl
  | cons input first ih => exact congrArg (_ :: ·) (ih _)

/-- A step of a trace splits the inputs into those before it and those after. -/
theorem trace_split {inputs : List ι} {state : σ} {past rest : List (Step σ ι ω)}
    {current : Step σ ι ω} (split : trace machine state inputs = past ++ current :: rest) :
    ∃ before input later, inputs = before ++ input :: later ∧
      past = trace machine state before ∧
      current = Step.take machine (reach machine state before) input ∧
      rest = trace machine current.after later := by
  induction inputs generalizing past state with
  | nil => simp [trace] at split
  | cons input inputs ih =>
      rw [trace] at split
      cases past with
      | nil =>
          obtain ⟨rfl, rfl⟩ := List.cons.inj split
          exact ⟨[], input, inputs, rfl, rfl, rfl, rfl⟩
      | cons first past =>
          obtain ⟨rfl, remaining⟩ := List.cons.inj split
          obtain ⟨before, current, later, rfl, rfl, isCurrent, isRest⟩ := ih remaining
          exact ⟨input :: before, current, later, rfl, rfl, isCurrent, isRest⟩

/-- What comes after a step of a trace begins in the state that the step led to. -/
theorem trace_continues {inputs : List ι} {state : σ} {made : Step σ ι ω}
    {since : List (Step σ ι ω)} (isSuffix : made :: since <:+ trace machine state inputs) :
    made = Step.take machine made.before made.input ∧
      (since = [] ∧ reach machine state inputs = made.after ∨
        ∃ next ∈ since, next.before = made.after) := by
  obtain ⟨past, split⟩ := isSuffix
  obtain ⟨before, input, later, rfl, -, isMade, isSince⟩ := trace_split split.symm
  refine ⟨by rw [isMade]; rfl, ?_⟩
  cases later with
  | nil =>
      refine .inl ⟨isSince, ?_⟩
      rw [isMade, reach, List.foldl_append]
      rfl
  | cons following later =>
      rw [trace] at isSince
      exact .inr ⟨_, by rw [isSince]; exact List.mem_cons_self, rfl⟩

/-- An invariant that relates the history to the state it led to holds after
every run. -/
theorem trace_induction {Invariant : List (Step σ ι ω) → σ → Prop} {inputs : List ι}
    {history : List (Step σ ι ω)} {state : σ}
    (starts : Invariant history state)
    (keeps : ∀ past state, ∀ input ∈ inputs, Invariant past state →
      Invariant (past ++ [Step.take machine state input]) (machine state input).2) :
    Invariant (history ++ trace machine state inputs) (reach machine state inputs) := by
  induction inputs generalizing history state with
  | nil => exact (List.append_nil history).symm ▸ starts
  | cons input inputs ih =>
      have later := ih (keeps _ _ _ List.mem_cons_self starts)
        fun past state input member => keeps past state input (List.mem_cons_of_mem _ member)
      rw [List.append_assoc, List.singleton_append] at later
      exact later

/-- And so it holds before every step. -/
theorem trace_invariant {Invariant : List (Step σ ι ω) → σ → Prop} {inputs : List ι}
    {history past rest : List (Step σ ι ω)} {state : σ} {current : Step σ ι ω}
    (starts : Invariant history state)
    (keeps : ∀ past state, ∀ input ∈ inputs, Invariant past state →
      Invariant (past ++ [Step.take machine state input]) (machine state input).2)
    (split : trace machine state inputs = past ++ current :: rest) :
    Invariant (history ++ past) current.before ∧
      current = Step.take machine current.before current.input ∧ current.input ∈ inputs := by
  obtain ⟨before, input, later, rfl, rfl, rfl, -⟩ := trace_split split
  refine ⟨?_, rfl, List.mem_append_right _ List.mem_cons_self⟩
  exact trace_induction starts fun past state input member =>
    keeps past state input (List.mem_append_left _ member)

theorem trace_step {inputs : List ι} {state : σ} {current : Step σ ι ω}
    (member : current ∈ trace machine state inputs) :
    current = Step.take machine current.before current.input := by
  obtain ⟨past, rest, split⟩ := List.append_of_mem member
  have invariant := @trace_invariant σ ι ω machine (fun _ _ => True) inputs [] past rest
  exact (invariant trivial (fun _ _ _ _ _ => trivial) split).2.1

end Ferryman
