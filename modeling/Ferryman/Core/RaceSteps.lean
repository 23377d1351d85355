import Ferryman.Core.BreakerRaces
import Ferryman.Lib.Walks

/-!
# One move of a race

Every move of a race is of one of four kinds. Proofs about races split on
them and on what the moving call was about to do.
-/

set_option autoImplicit false

namespace Ferryman.Core

open Program

/-! ## The branches of `record_failure` -/

section Branches

variable (publishes : Bool)

/-- Stamp first, then publish `Open`. -/
def Breaker.stampOpen (source : CircuitState) : Program Atomic Unit := do
  let now ← lift .now
  lift (.storeOpenedAt now)
  let _ ← Breaker.transition publishes source .open
  pure ()

def Breaker.countFailure : Program Atomic Unit := do
  let failures ← lift .fetchAddFailures
  let limit ← lift .loadThreshold
  if (failures + 1) % 2 ^ 32 < limit then pure () else stampOpen publishes .closed

theorem recordFailure_eq (admission : Admission) :
    Breaker.recordFailure publishes admission = perform .loadState fun state =>
      match admission, state with
      | .probe, .halfOpen => Breaker.stampOpen publishes .halfOpen
      | _, .closed => Breaker.countFailure publishes
      | _, _ => done () := by
  refine congrArg (perform Atomic.loadState) (funext fun state => ?_)
  cases admission <;> cases state <;> rfl

end Branches

/-! ## Moves -/

def Flight.result : Flight → Option (Option Admission)
  | ⟨_, _, .done result⟩ => some result
  | ⟨_, _, .perform _ _⟩ => none

def advances (index count : Nat) : List Move := List.replicate count (.advance index)

namespace Race

inductive Stepped (race : Race) : Move → Race → Prop
  | ticked (millis : Nat) : Stepped race (.tick millis) { race with clock := race.clock + millis }
  | started (operation : Operation) :
      Stepped race (.start operation) { race with
        calls := race.calls ++ [⟨operation, none, operation.program race.breaker.published⟩] }
  | idle (index : Nat) (stopped : ∀ flight ∈ race.calls[index]?, flight.result ≠ none) :
      Stepped race (.advance index) race
  | performed {β : Type} {front back : List Flight} {operation : Operation} {claimed : Option Nat}
      {effect : Atomic β} {next : β → Program Atomic (Option Admission)} {answer : β}
      {after : Breaker}
      (calls : race.calls = front ++ ⟨operation, claimed, .perform effect next⟩ :: back)
      (answered : Atomic.exec race.clock effect race.breaker = (answer, after)) :
      Stepped race (.advance front.length) { race with
        breaker := after
        calls := front ++ ⟨operation, recallClaim claimed effect answer, next answer⟩ :: back
        log := observeHandOut ⟨operation, recallClaim claimed effect answer, next answer⟩ ++
          observeClosing race.breaker after ++ race.log }

private theorem split_at {α : Type 1} {all : List α} {index : Nat} {entry : α}
    (found : all[index]? = some entry) :
    ∃ front back, all = front ++ entry :: back ∧ front.length = index := by
  obtain ⟨bound, isEntry⟩ := List.getElem?_eq_some_iff.mp found
  refine ⟨all.take index, all.drop (index + 1), ?_, by simp; omega⟩
  rw [← isEntry, List.cons_getElem_drop_succ, List.take_append_drop]

/-- The entries around one that is replaced stay where they are. -/
theorem getElem?_other {α : Type 1} {front back : List α} {old new : α} {index : Nat}
    (other : index ≠ front.length) :
    (front ++ new :: back)[index]? = (front ++ old :: back)[index]? := by
  cases Nat.lt_or_gt_of_ne other with
  | inl earlier => rw [List.getElem?_append_left earlier, List.getElem?_append_left earlier]
  | inr behind =>
      obtain ⟨distance, rfl⟩ := Nat.exists_eq_add_of_lt behind
      simp only [List.getElem?_append_right, Nat.add_assoc, Nat.le_add_right,
        Nat.add_sub_cancel_left, List.getElem?_cons_succ]

theorem step_stepped (race : Race) (move : Move) : race.Stepped move (race.step move) := by
  cases move with
  | tick millis => exact .ticked millis
  | start operation => exact .started operation
  | advance index =>
      cases found : race.calls[index]? with
      | none =>
          simp only [step, found]
          exact .idle index (by simp [found])
      | some flight =>
          obtain ⟨operation, claimed, program⟩ := flight
          cases program with
          | done result =>
              simp only [step, found, perform]
              exact .idle index (by simp [found, Flight.result])
          | perform effect next =>
              obtain ⟨front, back, calls, rfl⟩ := split_at found
              cases answered : Atomic.exec race.clock effect race.breaker with
              | mk answer after =>
                  have performed := Stepped.performed calls answered
                  simp only [step, found, perform, answered]
                  simpa only [calls, List.set_append_right _ _ (Nat.le_refl _), Nat.sub_self,
                    List.set_cons_zero] using performed

@[simp] theorem run_nil (race : Race) : race.run [] = race := rfl

@[simp] theorem run_cons (race : Race) (move : Move) (moves : List Move) :
    race.run (move :: moves) = (race.step move).run moves := rfl

@[simp] theorem run_append (race : Race) (first second : List Move) :
    race.run (first ++ second) = (race.run first).run second := List.foldl_append

/-- The condition holds before every move of the run. -/
def Along (condition : Race → Move → Prop) : Race → List Move → Prop
  | _, [] => True
  | race, move :: moves => condition race move ∧ (race.step move).Along condition moves

instance decidableAlong {condition : Race → Move → Prop}
    [∀ race move, Decidable (condition race move)] :
    (race : Race) → (moves : List Move) → Decidable (race.Along condition moves)
  | _, [] => isTrue trivial
  | race, move :: moves =>
      have : Decidable ((race.step move).Along condition moves) := decidableAlong _ moves
      inferInstanceAs (Decidable (condition race move ∧ _))

/-- How many moves of the run changed the breaker in the given way. -/
def countChanges (change : Breaker → Breaker → Bool) : Race → List Move → Nat
  | _, [] => 0
  | race, move :: moves =>
      (if change race.breaker (race.step move).breaker then 1 else 0) +
        (race.step move).countChanges change moves

def allReturned (race : Race) : Prop := ∀ flight ∈ race.calls, flight.result ≠ none

instance (race : Race) : Decidable race.allReturned :=
  inferInstanceAs (Decidable (∀ flight ∈ race.calls, flight.result ≠ none))

/-- The call has been started and has not returned. -/
def inFlight (race : Race) (index : Nat) : Prop :=
  ∃ flight ∈ race.calls[index]?, flight.result = none

instance (race : Race) (index : Nat) : Decidable (race.inFlight index) :=
  inferInstanceAs (Decidable (∃ flight ∈ race.calls[index]?, flight.result = none))

def programs (race : Race) : List (Program Atomic (Option Admission)) :=
  race.calls.map Flight.program

theorem programs_of_allReturned {race : Race} (returned : race.allReturned) :
    ∀ program ∈ race.programs, ∃ result, program = .done result := by
  intro program member
  obtain ⟨⟨operation, claimed, program⟩, called, rfl⟩ := List.mem_map.mp member
  cases program with
  | done result => exact ⟨result, rfl⟩
  | perform effect next => exact absurd rfl (returned _ called)

/-- An invariant of the breaker and of the phases of all calls holds after a move
when it holds after every start and every answer. -/
theorem crew_step {κ : Type} {automaton : Automaton Atomic κ}
    {final : κ → Option Admission → Prop} {Holds : Breaker → List κ → Prop} {race : Race}
    {move : Move} {phases : List κ} (crew : Crew automaton final phases race.programs)
    (holds : Holds race.breaker phases)
    (starts : ∀ operation, move = .start operation →
      ∃ phase, (operation.program race.breaker.published).Walks automaton final phase ∧
        Holds race.breaker (phases ++ [phase]))
    (possible : ∀ {γ : Type} {effect : Atomic γ} {answer : γ} {after : Breaker},
      Atomic.exec race.clock effect race.breaker = (answer, after) →
        automaton.possible effect answer)
    (performs : ∀ {γ : Type} {effect : Atomic γ} {next : γ → Program Atomic (Option Admission)}
      {answer : γ} {after : Breaker} {flight : Flight} {index : Nat} {before rest : List κ}
      {phase later : κ},
      move = .advance index → race.calls[index]? = some flight →
      flight.program = .perform effect next →
      Atomic.exec race.clock effect race.breaker = (answer, after) →
      phases = before ++ phase :: rest → automaton.moves phase effect answer later →
        Holds after (before ++ later :: rest)) :
    ∃ later, Crew automaton final later (race.step move).programs ∧
      Holds (race.step move).breaker later := by
  generalize isNext : race.step move = next
  have stepped := race.step_stepped move
  rw [isNext] at stepped
  cases stepped with
  | ticked millis => exact ⟨phases, crew, holds⟩
  | idle index => exact ⟨phases, crew, holds⟩
  | started operation =>
      obtain ⟨phase, walks, held⟩ := starts operation rfl
      refine ⟨phases ++ [phase], ?_, held⟩
      simpa [programs] using crew.started walks
  | @performed γ front back operation claimed effect next answer after calls answered =>
      have found : race.calls[front.length]? = some ⟨operation, claimed, .perform effect next⟩ := by
        simp [calls]
      simp only [programs, calls, List.map_append, List.map_cons] at crew ⊢
      obtain ⟨before, phase, rest, later, split, moved, walks⟩ := crew.advanced (possible answered)
      exact ⟨_, walks, performs rfl found rfl answered split moved⟩

theorem clock_advance (race : Race) (index : Nat) :
    (race.step (.advance index)).clock = race.clock := by
  generalize isNext : race.step (.advance index) = next
  have stepped := race.step_stepped (.advance index)
  rw [isNext] at stepped
  cases stepped with
  | idle => rfl
  | performed => rfl

theorem calls_length_step (race : Race) (move : Move) :
    race.calls.length ≤ (race.step move).calls.length := by
  generalize isNext : race.step move = next
  have stepped := race.step_stepped move
  rw [isNext] at stepped
  cases stepped with
  | ticked millis => exact Nat.le_refl _
  | idle index => exact Nat.le_refl _
  | started operation => simp
  | performed calls answered => simp [calls]

theorem calls_length_run (race : Race) (moves : List Move) :
    race.calls.length ≤ (race.run moves).calls.length := by
  induction moves generalizing race with
  | nil => exact Nat.le_refl _
  | cons move moves ih => exact (race.calls_length_step move).trans (ih _)

/-- What a move means to one call: it stays as it is, or it is the one that
performs its next effect. -/
inductive CallStep (race : Race) (move : Move) (index : Nat) (flight : Flight) : Prop
  | waited (same : (race.step move).calls[index]? = some flight)
      (notMine : move = .advance index → flight.result ≠ none)
  | performed {β : Type} {effect : Atomic β} {next : β → Program Atomic (Option Admission)}
      {answer : β} (isAdvance : move = .advance index)
      (program : flight.program = .perform effect next)
      (answered : Atomic.exec race.clock effect race.breaker = (answer, (race.step move).breaker))
      (moved : (race.step move).calls[index]? =
        some ⟨flight.operation, recallClaim flight.claimed effect answer, next answer⟩)

theorem call_step {race : Race} {index : Nat} {flight : Flight} (move : Move)
    (found : race.calls[index]? = some flight) : race.CallStep move index flight := by
  generalize isNext : race.step move = next
  have stepped := race.step_stepped move
  rw [isNext] at stepped
  cases stepped with
  | ticked millis => exact .waited (by rw [isNext]; exact found) nofun
  | started operation =>
      refine .waited ?_ nofun
      rw [isNext, List.getElem?_append_left (List.getElem?_eq_some_iff.mp found).1]
      exact found
  | idle other stopped =>
      refine .waited (by rw [isNext]; exact found) fun isAdvance => ?_
      cases isAdvance
      exact stopped flight found
  | @performed γ front back operation claimed effect next answer after calls answered =>
      by_cases mine : index = front.length
      · subst mine
        have same : flight = ⟨operation, claimed, .perform effect next⟩ := by
          simpa [calls, eq_comm] using found
        subst same
        exact .performed rfl rfl (by rw [isNext]; exact answered) (by simp [isNext])
      · refine .waited ?_ fun isAdvance => absurd (Move.advance.inj isAdvance).symm mine
        rw [isNext, ← found, calls]
        exact getElem?_other mine

end Race

end Ferryman.Core
