import Ferryman.Core.RaceSteps

/-!
# Failures that race

Only `record_failure` calls are in flight, on a closed circuit. Each counts
once while the circuit is closed, and a call that reaches the threshold stays
on its way to open the circuit until it is open.
-/

set_option autoImplicit false

namespace Ferryman.Core

open Program Breaker

/-! ## Where a call stands -/

inductive FailurePhase where
  | fresh
  | sawClosed
  /-- It counted, and found this many failures before its own. -/
  | counted (failures : Nat)
  | tripping
  | settled
deriving DecidableEq

namespace FailurePhase

def hasCounted : FailurePhase → Bool
  | .fresh | .sawClosed => false
  | .counted _ | .tripping | .settled => true

/-- It will try to open the circuit. -/
def crosses (threshold : Nat) : FailurePhase → Prop
  | .counted failures => threshold ≤ (failures + 1) % 2 ^ 32
  | .tripping => True
  | .fresh | .sawClosed | .settled => False

end FailurePhase

inductive FailureMove (threshold : Nat) :
    {γ : Type} → FailurePhase → Atomic γ → γ → FailurePhase → Prop
  | looked : FailureMove threshold .fresh .loadState .closed .sawClosed
  | late : FailureMove threshold .fresh .loadState .open .settled
  | counted (failures : Nat) :
      FailureMove threshold .sawClosed .fetchAddFailures failures (.counted failures)
  | below {failures : Nat} (room : (failures + 1) % 2 ^ 32 < threshold) :
      FailureMove threshold (.counted failures) .loadThreshold threshold .settled
  | reached {failures : Nat} (full : threshold ≤ (failures + 1) % 2 ^ 32) :
      FailureMove threshold (.counted failures) .loadThreshold threshold .tripping
  | read (now : Nat) : FailureMove threshold .tripping .now now .tripping
  | stamped (millis : Nat) : FailureMove threshold .tripping (.storeOpenedAt millis) () .tripping
  | opened (ok : Bool) : FailureMove threshold .tripping (.casState .closed .open) ok .settled
  | shown (state : CircuitState) : FailureMove threshold .settled .loadState state .settled
  | wroteCircuit (state : CircuitState) :
      FailureMove threshold .settled (.setCircuitGauge state) () .settled
  | wroteAlive (alive : Bool) : FailureMove threshold .settled (.setAliveGauge alive) () .settled

/-- No call makes the circuit half-open, and no reload changes the threshold. -/
def failureAnswers (threshold : Nat) : {γ : Type} → Atomic γ → γ → Prop
  | _, .loadState, state => state ≠ .halfOpen
  | _, .loadThreshold, answer => answer = threshold
  | _, _, _ => True

def failureAutomaton (threshold : Nat) : Automaton Atomic FailurePhase where
  possible := failureAnswers threshold
  moves := FailureMove threshold

def HasSettled {α : Type} (phase : FailurePhase) (_ : α) : Prop := phase = .settled

section Walks

variable {threshold : Nat} (publishes : Bool)

theorem setGauges_settles :
    (setGauges publishes).Walks (failureAutomaton threshold) HasSettled .settled := by
  cases publishes with
  | false => exact rfl
  | true =>
      intro state _
      refine ⟨_, .shown state, fun _ _ => ⟨_, .wroteCircuit state, fun _ _ => ?_⟩⟩
      exact ⟨_, .wroteAlive _, rfl⟩

theorem transition_settles :
    (transition publishes .closed .open).Walks (failureAutomaton threshold) HasSettled .tripping := by
  intro ok _
  refine ⟨_, .opened ok, ?_⟩
  cases ok with
  | false => exact rfl
  | true => exact (setGauges_settles publishes).bind fun _ _ settled => settled

theorem countFailure_settles :
    (countFailure publishes).Walks (failureAutomaton threshold) HasSettled .sawClosed := by
  simp only [countFailure, stampOpen, lift_bind]
  intro failures _
  refine ⟨_, .counted failures, fun limit isThreshold => ?_⟩
  have same : limit = threshold := isThreshold
  subst same
  by_cases room : (failures + 1) % 2 ^ 32 < limit
  · refine ⟨_, .below room, ?_⟩
    simp only [if_pos room]
    exact rfl
  · refine ⟨_, .reached (not_lt.mp room), ?_⟩
    simp only [if_neg room]
    refine fun now _ => ⟨_, .read now, fun _ _ => ⟨_, .stamped now, ?_⟩⟩
    exact (transition_settles publishes).bind fun _ _ settled => settled

theorem recordFailure_settles (admission : Admission) :
    (recordFailure publishes admission).Walks (failureAutomaton threshold) HasSettled .fresh := by
  intro state possible
  have counts := @countFailure_settles threshold publishes
  cases state with
  | halfOpen => exact absurd rfl possible
  | «open» => cases admission <;> exact ⟨_, .late, rfl⟩
  | closed => cases admission <;> exact ⟨_, .looked, counts⟩

theorem failure_settles (admission : Admission) :
    ((Operation.recordFailure admission).program publishes).Walks (failureAutomaton threshold)
      HasSettled .fresh :=
  (recordFailure_settles publishes admission).bind fun _ _ settled => settled

end Walks

/-! ## What the calls owe together -/

structure Tally (threshold : Nat) (b : Breaker) (phases : List FailurePhase) : Prop where
  configured : b.failureThreshold = threshold
  neverHalfOpen : b.state ≠ .halfOpen
  counts : b.state = .closed → b.consecutiveFailures = phases.countP FailurePhase.hasCounted
  crossing : b.state = .closed → threshold ≤ b.consecutiveFailures →
    ∃ phase ∈ phases, phase.crosses threshold

section Moves

variable {threshold clock : Nat} {b after : Breaker} {before rest : List FailurePhase}
  {phase later : FailurePhase}

theorem Tally.idle (holds : Tally threshold b (before ++ phase :: rest))
    (counted : later.hasCounted = phase.hasCounted)
    (kept : phase.crosses threshold → later.crosses threshold)
    (sameThreshold : after.failureThreshold = b.failureThreshold)
    (sameState : after.state = b.state)
    (sameCount : after.consecutiveFailures = b.consecutiveFailures) :
    Tally threshold after (before ++ later :: rest) where
  configured := sameThreshold.trans holds.configured
  neverHalfOpen := sameState ▸ holds.neverHalfOpen
  counts := by
    intro isClosed
    rw [sameCount, holds.counts (sameState ▸ isClosed)]
    simp [List.countP_cons, counted]
  crossing := by
    intro isClosed
    rw [sameCount]
    intro enough
    exact owed_moved kept (holds.crossing (sameState ▸ isClosed) enough)

theorem Tally.opened {phases : List FailurePhase} (configured : after.failureThreshold = threshold)
    (isOpen : after.state = .open) : Tally threshold after phases where
  configured := configured
  neverHalfOpen := by simp [isOpen]
  counts := by simp [isOpen]
  crossing := by simp [isOpen]

theorem Tally.started {phases : List FailurePhase} (holds : Tally threshold b phases) :
    Tally threshold b (phases ++ [.fresh]) where
  configured := holds.configured
  neverHalfOpen := holds.neverHalfOpen
  counts := by simpa [FailurePhase.hasCounted] using holds.counts
  crossing := by
    intro isClosed enough
    obtain ⟨witness, member, crosses⟩ := holds.crossing isClosed enough
    exact ⟨witness, List.mem_append_left _ member, crosses⟩

theorem Tally.counted (holds : Tally threshold b (before ++ .sawClosed :: rest))
    (few : (before ++ .sawClosed :: rest).length < 2 ^ 32) :
    Tally threshold { b with consecutiveFailures := (b.consecutiveFailures + 1) % 2 ^ 32 }
      (before ++ .counted b.consecutiveFailures :: rest) where
  configured := holds.configured
  neverHalfOpen := holds.neverHalfOpen
  counts := by
    intro isClosed
    have counts := holds.counts isClosed
    have countedBefore := List.countP_le_length (p := FailurePhase.hasCounted) (l := before)
    have countedRest := List.countP_le_length (p := FailurePhase.hasCounted) (l := rest)
    simp only [List.countP_append, List.countP_cons, FailurePhase.hasCounted, List.length_append,
      List.length_cons, Bool.false_eq_true, if_false, if_true, Nat.add_zero] at counts few ⊢
    rw [Nat.mod_eq_of_lt (by omega)]
    omega
  crossing := by
    intro isClosed enough
    exact ⟨_, List.mem_append_right _ List.mem_cons_self, enough⟩

/-- The circuit stays open once it is open, and no failure gets lost before. -/
theorem Tally.moved {γ : Type} {effect : Atomic γ} {answer : γ}
    (holds : Tally threshold b (before ++ phase :: rest))
    (few : (before ++ phase :: rest).length < 2 ^ 32)
    (moved : FailureMove threshold phase effect answer later)
    (answered : Atomic.exec clock effect b = (answer, after)) :
    Tally threshold after (before ++ later :: rest) ∧
      (b.state = .open → after.state = .open) := by
  cases moved with
  | looked =>
      obtain ⟨isClosed, rfl⟩ := Prod.mk.inj answered
      exact ⟨holds.idle rfl nofun rfl rfl rfl, id⟩
  | late =>
      obtain ⟨isOpen, rfl⟩ := Prod.mk.inj answered
      exact ⟨.opened holds.configured isOpen, id⟩
  | counted failures =>
      obtain ⟨rfl, rfl⟩ := Prod.mk.inj answered
      exact ⟨holds.counted few, id⟩
  | below room =>
      obtain ⟨-, rfl⟩ := Prod.mk.inj answered
      exact ⟨holds.idle rfl (fun crosses => absurd crosses (not_le.mpr room)) rfl rfl rfl, id⟩
  | reached full =>
      obtain ⟨-, rfl⟩ := Prod.mk.inj answered
      exact ⟨holds.idle rfl (fun _ => trivial) rfl rfl rfl, id⟩
  | read | stamped | shown | wroteCircuit | wroteAlive =>
      obtain ⟨-, rfl⟩ := Prod.mk.inj answered
      exact ⟨holds.idle rfl id rfl rfl rfl, id⟩
  | opened ok =>
      by_cases wasClosed : b.state = .closed
      · obtain ⟨-, rfl⟩ := Prod.mk.inj (by simpa only [Atomic.exec, if_pos wasClosed] using answered)
        exact ⟨.opened holds.configured rfl, fun _ => rfl⟩
      · obtain ⟨-, rfl⟩ := Prod.mk.inj (by simpa only [Atomic.exec, if_neg wasClosed] using answered)
        have isOpen : b.state = .open := by
          cases current : b.state with
          | closed => exact absurd current wasClosed
          | «open» => rfl
          | halfOpen => exact absurd current holds.neverHalfOpen
        exact ⟨.opened holds.configured isOpen, id⟩

end Moves

/-! ## Whole races -/

def Move.startsFailure : Move → Bool
  | .start (.recordFailure _) => true
  | .start _ => false
  | .tick _ | .advance _ => true

structure FailuresKept (threshold : Nat) (race : Race) (phases : List FailurePhase) : Prop where
  crew : Crew (failureAutomaton threshold) HasSettled phases race.programs
  tally : Tally threshold race.breaker phases

def opens (before after : Breaker) : Bool := before.state = .closed && after.state = .open

namespace FailuresKept

variable {threshold : Nat} {race : Race} {phases : List FailurePhase}

theorem possible {γ : Type} {effect : Atomic γ} {answer : γ} {clock : Nat} {b after : Breaker}
    (holds : Tally threshold b phases)
    (answered : Atomic.exec clock effect b = (answer, after)) :
    failureAnswers threshold effect answer := by
  cases effect with
  | loadState => exact (Prod.mk.inj answered).1 ▸ holds.neverHalfOpen
  | loadThreshold => exact (Prod.mk.inj answered).1 ▸ holds.configured
  | _ => exact trivial

theorem keeps {move : Move} (holds : FailuresKept threshold race phases)
    (onlyFailures : move.startsFailure = true) (few : race.calls.length < 2 ^ 32) :
    (∃ later, FailuresKept threshold (race.step move) later) ∧
      (race.breaker.state = .open → (race.step move).breaker.state = .open) := by
  have bounded : phases.length < 2 ^ 32 := by
    rw [holds.crew.length_eq, Race.programs, List.length_map]
    exact few
  let Holds (b : Breaker) (phases : List FailurePhase) : Prop :=
    Tally threshold b phases ∧ (race.breaker.state = .open → b.state = .open)
  have held : Holds race.breaker phases := ⟨holds.tally, id⟩
  have starts : ∀ operation, move = .start operation →
      ∃ phase, (operation.program race.breaker.published).Walks (failureAutomaton threshold)
        HasSettled phase ∧ Holds race.breaker (phases ++ [phase]) := by
    intro operation isStart
    subst isStart
    cases operation with
    | recordFailure admission =>
        exact ⟨.fresh, failure_settles _ admission, holds.tally.started, id⟩
    | tryAcquire | recordSuccess | release => simp [Move.startsFailure] at onlyFailures
  obtain ⟨later, crew, tally, staysOpen⟩ := Race.crew_step holds.crew held starts
    (fun answered => possible holds.tally answered)
    (fun _ _ _ answered split moved => by
      subst split
      exact holds.tally.moved bounded moved answered)
  exact ⟨⟨later, crew, tally⟩, staysOpen⟩

theorem opens_counted {before after : CircuitState} (neverHalfOpen : before ≠ .halfOpen)
    (stillNot : after ≠ .halfOpen) (staysOpen : before = .open → after = .open) :
    (if before = .closed && after = .open then 1 else 0) + (if before = .open then 1 else 0) =
      if after = .open then 1 else 0 := by
  cases before <;> cases after <;> simp_all

theorem run {moves : List Move} (holds : FailuresKept threshold race phases)
    (onlyFailures : ∀ move ∈ moves, move.startsFailure = true)
    (few : (race.run moves).calls.length < 2 ^ 32) :
    (∃ later, FailuresKept threshold (race.run moves) later) ∧
      race.countChanges opens moves + (if race.breaker.state = .open then 1 else 0) =
        if (race.run moves).breaker.state = .open then 1 else 0 := by
  induction moves generalizing race phases with
  | nil => exact ⟨⟨phases, holds⟩, Nat.zero_add _⟩
  | cons move moves ih =>
      rw [List.forall_mem_cons] at onlyFailures
      have fewer := (race.calls_length_run (move :: moves)).trans_lt few
      obtain ⟨⟨later, held⟩, staysOpen⟩ := holds.keeps onlyFailures.1 fewer
      obtain ⟨kept, counted⟩ := ih held onlyFailures.2 few
      refine ⟨kept, ?_⟩
      rw [Race.run_cons, ← counted, Race.countChanges]
      have here := opens_counted holds.tally.neverHalfOpen held.tally.neverHalfOpen staysOpen
      rw [← here, Nat.add_right_comm, Nat.add_comm]
      rfl

theorem initial {b : Breaker} {clock : Nat} (isClosed : b.state = .closed)
    (uncounted : b.consecutiveFailures = 0) (positive : 0 < b.failureThreshold) :
    FailuresKept b.failureThreshold { clock := clock, breaker := b } [] where
  crew := .nil
  tally := {
    configured := rfl
    neverHalfOpen := by simp [isClosed]
    counts := fun _ => uncounted
    crossing := by
      intro _ enough
      simp only at enough
      omega
  }

/-- A call that still has to open the circuit has not returned. -/
theorem open_of_allReturned (holds : FailuresKept threshold race phases)
    (returned : race.allReturned) (enough : threshold ≤ race.calls.length) :
    race.breaker.state = .open := by
  have settled : ∀ phase ∈ phases, phase = .settled := by
    intro phase member
    obtain ⟨_, isSettled⟩ := holds.crew.finished (Race.programs_of_allReturned returned) phase member
    exact isSettled
  cases current : race.breaker.state with
  | «open» => rfl
  | halfOpen => exact absurd current holds.tally.neverHalfOpen
  | closed =>
      have all : phases.countP FailurePhase.hasCounted = phases.length := by
        rw [List.countP_eq_length]
        intro phase member
        rw [settled phase member]
        rfl
      have counts := holds.tally.counts current
      rw [all, holds.crew.length_eq, Race.programs, List.length_map] at counts
      obtain ⟨phase, member, crosses⟩ := holds.tally.crossing current (counts ▸ enough)
      rw [settled phase member] at crosses
      exact crosses.elim

end FailuresKept

/-- Racing failures, at least as many as the threshold, have opened a closed
circuit when they have all returned, and opened it once. -/
theorem no_failure_lost {b : Breaker} {clock : Nat} {moves : List Move}
    (isClosed : b.state = .closed) (uncounted : b.consecutiveFailures = 0)
    (positive : 0 < b.failureThreshold)
    (onlyFailures : ∀ move ∈ moves, move.startsFailure = true)
    (returned : (Race.run { clock := clock, breaker := b } moves).allReturned)
    (enough : b.failureThreshold ≤ (Race.run { clock := clock, breaker := b } moves).calls.length)
    (few : (Race.run { clock := clock, breaker := b } moves).calls.length < 2 ^ 32) :
    (Race.run { clock := clock, breaker := b } moves).breaker.state = .open ∧
      Race.countChanges opens { clock := clock, breaker := b } moves = 1 := by
  obtain ⟨⟨phases, holds⟩, counted⟩ :=
    (@FailuresKept.initial b clock isClosed uncounted positive).run onlyFailures few
  have isOpen := holds.open_of_allReturned returned enough
  rw [isOpen] at counted
  simp only [isClosed, reduceCtorEq, if_false, if_true, Nat.add_zero] at counted
  exact ⟨isOpen, counted⟩

/-- Three failures at threshold two: all have looked before the first one counts. -/
def threeFailures : List Move :=
  .start (.recordFailure .normal) :: .start (.recordFailure .probe) ::
    .start (.recordFailure .normal) :: .advance 0 :: .advance 1 :: .advance 2 ::
    .advance 2 :: .advance 1 :: .advance 0 :: .advance 0 :: .tick 5 :: .advance 1 ::
    (advances 0 4 ++ advances 1 4 ++ [.advance 2])

theorem three_failures_open_once :
    (Race.run { clock := 0, breaker := unchecked none false (.fromSecs 30) 2 }
        threeFailures).breaker.state = .open ∧
      Race.countChanges opens { clock := 0, breaker := unchecked none false (.fromSecs 30) 2 }
        threeFailures = 1 :=
  @no_failure_lost (unchecked none false (.fromSecs 30) 2) 0 threeFailures (by decide +kernel)
    (by decide +kernel) (by decide +kernel) (by decide +kernel) (by decide +kernel)
    (by decide +kernel) (by decide +kernel)

end Ferryman.Core
