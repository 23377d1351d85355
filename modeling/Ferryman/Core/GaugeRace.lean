import Ferryman.Core.RaceSteps

/-!
# Gauges that race

A call that moves the circuit then publishes it: it loads the state and writes
the two gauges, one after the other. Until it has, it owes them.
-/

set_option autoImplicit false

namespace Ferryman.Core

open Program Breaker

inductive GaugePhase where
  | clear
  | owing
  | loaded (state : CircuitState)
  | aliveDue (state : CircuitState)
deriving DecidableEq

namespace GaugePhase

def owesCircuit : GaugePhase → Prop
  | .owing | .loaded _ => True
  | .clear | .aliveDue _ => False

def owesAlive : GaugePhase → Prop
  | .owing | .loaded _ | .aliveDue _ => True
  | .clear => False

end GaugePhase

/-- The effect, answered so, changes neither the state nor a gauge. -/
def KeepsShown : {γ : Type} → Atomic γ → γ → Prop
  | _, .casState _ _, ok => ok = false
  | _, .swapState new, previous => previous = new
  | _, .setCircuitGauge _, _ => False
  | _, .setAliveGauge _, _ => False
  | _, _, _ => True

inductive GaugeMove : {γ : Type} → GaugePhase → Atomic γ → γ → GaugePhase → Prop
  | quiet {γ : Type} {effect : Atomic γ} {answer : γ} (keeps : KeepsShown effect answer) :
      GaugeMove .clear effect answer .clear
  | changed (source target : CircuitState) : GaugeMove .clear (.casState source target) true .owing
  | swapped {target previous : CircuitState} (moved : previous ≠ target) :
      GaugeMove .clear (.swapState target) previous .owing
  | load (state : CircuitState) : GaugeMove .owing .loadState state (.loaded state)
  | wroteCircuit (state : CircuitState) :
      GaugeMove (.loaded state) (.setCircuitGauge state) () (.aliveDue state)
  | wroteAlive (state : CircuitState) :
      GaugeMove (.aliveDue state) (.setAliveGauge (state = .closed)) () .clear

def gaugeAutomaton : Automaton Atomic GaugePhase where
  possible := fun _ _ => True
  moves := GaugeMove

def IsClear {α : Type} (phase : GaugePhase) (_ : α) : Prop := phase = .clear

/-! ## Every operation pays what it owes -/

section Walks

theorem clear_perform {α γ : Type} {effect : Atomic γ} {next : γ → Program Atomic α}
    (keeps : ∀ answer, KeepsShown effect answer)
    (later : ∀ answer, (next answer).Walks gaugeAutomaton IsClear .clear) :
    (perform effect next).Walks gaugeAutomaton IsClear .clear :=
  fun answer _ => ⟨_, .quiet (keeps answer), later answer⟩

theorem clear_bind {α β : Type} {program : Program Atomic α} {rest : α → Program Atomic β}
    (first : program.Walks gaugeAutomaton IsClear .clear)
    (later : ∀ answer, (rest answer).Walks gaugeAutomaton IsClear .clear) :
    (program >>= rest).Walks gaugeAutomaton IsClear .clear :=
  first.bind fun _ result isClear => isClear ▸ later result

theorem setGauges_pays : (setGauges true).Walks gaugeAutomaton IsClear .owing := by
  intro state _
  refine ⟨_, .load state, fun _ _ => ⟨_, .wroteCircuit state, fun _ _ => ?_⟩⟩
  exact ⟨_, .wroteAlive state, rfl⟩

theorem transition_pays (source target : CircuitState) :
    (transition true source target).Walks gaugeAutomaton IsClear .clear := by
  intro ok _
  cases ok with
  | false => exact ⟨_, .quiet rfl, rfl⟩
  | true =>
      refine ⟨_, .changed source target, ?_⟩
      exact setGauges_pays.bind fun _ _ isClear => isClear

theorem clear_ite {α : Type} {condition : Prop} [Decidable condition] {yes no : Program Atomic α}
    (first : yes.Walks gaugeAutomaton IsClear .clear)
    (second : no.Walks gaugeAutomaton IsClear .clear) :
    (if condition then yes else no).Walks gaugeAutomaton IsClear .clear := by
  split
  · exact first
  · exact second

theorem clear_lift {γ : Type} {effect : Atomic γ} (keeps : ∀ answer, KeepsShown effect answer) :
    (lift effect).Walks gaugeAutomaton IsClear .clear :=
  clear_perform keeps fun _ => rfl

theorem claimProbeSlot_pays : claimProbeSlot.Walks gaugeAutomaton IsClear .clear := by
  simp only [claimProbeSlot, lift_bind]
  refine clear_perform (fun _ => trivial) fun openedAt => ?_
  refine clear_perform (fun _ => trivial) fun now => ?_
  refine clear_perform (fun _ => trivial) fun cooldown => ?_
  exact clear_ite rfl (clear_lift fun _ => trivial)

theorem tryAcquire_pays : (tryAcquire true).Walks gaugeAutomaton IsClear .clear := by
  simp only [tryAcquire, lift_bind]
  refine clear_perform (fun _ => trivial) fun state => ?_
  cases state with
  | closed => exact rfl
  | halfOpen => exact clear_bind claimProbeSlot_pays fun claimed => clear_ite rfl rfl
  | «open» =>
      refine clear_bind claimProbeSlot_pays fun claimed => clear_ite rfl ?_
      exact clear_bind (transition_pays .open .halfOpen) fun moved => clear_ite rfl rfl

theorem release_pays (admission : Admission) :
    (release admission).Walks gaugeAutomaton IsClear .clear := by
  simp only [release, lift_bind]
  refine clear_ite rfl ?_
  refine clear_perform (fun _ => trivial) fun cooldown => ?_
  refine clear_perform (fun _ => trivial) fun now => ?_
  refine clear_perform (fun _ => trivial) fun stamp => ?_
  refine clear_perform (fun _ => trivial) fun state => clear_ite rfl ?_
  refine clear_perform (fun _ => trivial) fun last => clear_ite rfl ?_
  refine clear_perform (fun _ => trivial) fun rearmed => clear_ite rfl ?_
  exact clear_perform (fun _ => trivial) fun _ => rfl

theorem recordSuccess_pays (admission : Admission) :
    (recordSuccess true admission).Walks gaugeAutomaton IsClear .clear := by
  simp only [recordSuccess, lift_bind]
  cases admission with
  | normal =>
      exact clear_perform (fun _ => trivial) fun state =>
        clear_ite (clear_lift fun _ => trivial) rfl
  | probe =>
      refine clear_perform (fun _ => trivial) fun state => clear_ite rfl ?_
      refine clear_perform (fun _ => trivial) fun _ previous _ => ?_
      by_cases same : previous = .closed
      · exact ⟨_, .quiet same, by simp [same, IsClear]⟩
      · refine ⟨_, .swapped same, ?_⟩
        simp only [ne_eq, same, not_false_eq_true, if_true]
        exact setGauges_pays

theorem stampOpen_pays (source : CircuitState) :
    (stampOpen true source).Walks gaugeAutomaton IsClear .clear := by
  simp only [stampOpen, lift_bind]
  refine clear_perform (fun _ => trivial) fun now => ?_
  refine clear_perform (fun _ => trivial) fun _ => ?_
  exact clear_bind (transition_pays source .open) fun _ => rfl

theorem countFailure_pays : (countFailure true).Walks gaugeAutomaton IsClear .clear := by
  simp only [countFailure, lift_bind]
  refine clear_perform (fun _ => trivial) fun failures => ?_
  exact clear_perform (fun _ => trivial) fun limit => clear_ite rfl (stampOpen_pays .closed)

theorem recordFailure_pays (admission : Admission) :
    (recordFailure true admission).Walks gaugeAutomaton IsClear .clear := by
  rw [recordFailure_eq]
  refine clear_perform (fun _ => trivial) fun state => ?_
  cases state with
  | closed => cases admission <;> exact countFailure_pays
  | «open» => cases admission <;> exact rfl
  | halfOpen =>
      cases admission with
      | normal => exact rfl
      | probe => exact stampOpen_pays .halfOpen

theorem operation_pays (operation : Operation) :
    (operation.program true).Walks gaugeAutomaton IsClear .clear := by
  cases operation with
  | tryAcquire => exact tryAcquire_pays
  | recordSuccess admission => exact clear_bind (recordSuccess_pays admission) fun _ => rfl
  | recordFailure admission => exact clear_bind (recordFailure_pays admission) fun _ => rfl
  | release admission => exact clear_bind (release_pays admission) fun _ => rfl

end Walks

/-! ## What is still owed -/

/-- Each gauge shows the circuit, or some call still has to write it. -/
structure Covered (b : Breaker) (phases : List GaugePhase) : Prop where
  circuit : b.circuitGauge = some b.state ∨ ∃ phase ∈ phases, phase.owesCircuit
  alive : b.aliveGauge = some (decide (b.state = .closed)) ∨ ∃ phase ∈ phases, phase.owesAlive

def nextCircuitGauge : Program Atomic (Option Admission) → Option CircuitState
  | .perform (.setCircuitGauge state) _ => some state
  | _ => none

def nextAliveGauge : Program Atomic (Option Admission) → Option Bool
  | .perform (.setAliveGauge alive) _ => some alive
  | _ => none

/-- A gauge write that comes next shows the circuit as it is. -/
def WritesCurrent (b : Breaker) (program : Program Atomic (Option Admission)) : Prop :=
  (∀ state ∈ nextCircuitGauge program, state = b.state) ∧
    ∀ alive ∈ nextAliveGauge program, alive = decide (b.state = .closed)

instance (b : Breaker) : DecidablePred (WritesCurrent b) :=
  fun _ => inferInstanceAs (Decidable (_ ∧ _))

def Race.ShowsCurrent (race : Race) : Move → Prop
  | .advance index => ∀ flight ∈ race.calls[index]?, WritesCurrent race.breaker flight.program
  | _ => True

instance (race : Race) : DecidablePred race.ShowsCurrent
  | .advance index => inferInstanceAs (Decidable (∀ flight ∈ race.calls[index]?, _))
  | .tick _ | .start _ => isTrue trivial

section Moves

variable {b after : Breaker} {before rest : List GaugePhase} {phase later : GaugePhase}

theorem Covered.of_owing : Covered b (before ++ .owing :: rest) where
  circuit := .inr ⟨_, List.mem_append_right _ List.mem_cons_self, trivial⟩
  alive := .inr ⟨_, List.mem_append_right _ List.mem_cons_self, trivial⟩

theorem Covered.mono {phases more : List GaugePhase} (covered : Covered b phases)
    (kept : phases ⊆ more) : Covered b more where
  circuit := covered.circuit.imp_right fun ⟨phase, member, owed⟩ => ⟨phase, kept member, owed⟩
  alive := covered.alive.imp_right fun ⟨phase, member, owed⟩ => ⟨phase, kept member, owed⟩

theorem Covered.idle (covered : Covered b (before ++ phase :: rest))
    (keptCircuit : phase.owesCircuit → later.owesCircuit)
    (keptAlive : phase.owesAlive → later.owesAlive)
    (sameState : after.state = b.state) (sameCircuit : after.circuitGauge = b.circuitGauge)
    (sameAlive : after.aliveGauge = b.aliveGauge) : Covered after (before ++ later :: rest) where
  circuit := by
    rw [sameCircuit, sameState]
    exact covered.circuit.imp_right (owed_moved keptCircuit)
  alive := by
    rw [sameAlive, sameState]
    exact covered.alive.imp_right (owed_moved keptAlive)

theorem exec_keepsShown {γ : Type} {effect : Atomic γ} {answer : γ} {clock : Nat}
    (keeps : KeepsShown effect answer) (answered : Atomic.exec clock effect b = (answer, after)) :
    after.state = b.state ∧ after.circuitGauge = b.circuitGauge ∧
      after.aliveGauge = b.aliveGauge := by
  cases effect with
  | casState expected new =>
      have failed : answer = false := keeps
      subst failed
      simp only [Atomic.exec] at answered
      split at answered
      · cases answered
      · obtain ⟨-, rfl⟩ := Prod.mk.inj answered
        exact ⟨rfl, rfl, rfl⟩
  | swapState new =>
      obtain ⟨isPrevious, rfl⟩ := Prod.mk.inj answered
      exact ⟨(isPrevious.trans keeps).symm, rfl, rfl⟩
  | casOpenedAt | casRearmedAt =>
      simp only [Atomic.exec] at answered
      split at answered <;> obtain ⟨-, rfl⟩ := Prod.mk.inj answered <;> exact ⟨rfl, rfl, rfl⟩
  | setCircuitGauge | setAliveGauge => exact keeps.elim
  | _ =>
      obtain ⟨-, rfl⟩ := Prod.mk.inj answered
      exact ⟨rfl, rfl, rfl⟩

/-- A move of a call keeps the gauges covered, and one that changes the circuit
covers them. -/
theorem covered_moved {γ : Type} {effect : Atomic γ} {answer : γ} {clock : Nat}
    {next : γ → Program Atomic (Option Admission)}
    (moved : GaugeMove phase effect answer later)
    (current : WritesCurrent b (.perform effect next))
    (answered : Atomic.exec clock effect b = (answer, after))
    (known : Covered b (before ++ phase :: rest) ∨ b.state ≠ after.state) :
    Covered after (before ++ later :: rest) := by
  cases moved with
  | quiet keeps =>
      obtain ⟨sameState, sameCircuit, sameAlive⟩ := exec_keepsShown keeps answered
      have covered := known.resolve_right (not_not.mpr sameState.symm)
      exact covered.idle id id sameState sameCircuit sameAlive
  | changed => exact .of_owing
  | swapped => exact .of_owing
  | load state =>
      obtain ⟨-, rfl⟩ := Prod.mk.inj answered
      exact (known.resolve_right (not_not.mpr rfl)).idle (fun _ => trivial) (fun _ => trivial) rfl
        rfl rfl
  | wroteCircuit state =>
      obtain ⟨-, rfl⟩ := Prod.mk.inj answered
      have covered := known.resolve_right (not_not.mpr rfl)
      refine ⟨.inl (congrArg some (current.1 state rfl)), ?_⟩
      exact covered.alive.imp_right (owed_moved fun _ => trivial)
  | wroteAlive state =>
      obtain ⟨-, rfl⟩ := Prod.mk.inj answered
      have covered := known.resolve_right (not_not.mpr rfl)
      refine ⟨?_, .inl (congrArg some (current.2 _ rfl))⟩
      have kept : (GaugePhase.aliveDue state).owesCircuit → GaugePhase.clear.owesCircuit := id
      exact covered.circuit.imp_right (owed_moved kept)

theorem exec_published {γ : Type} {effect : Atomic γ} {answer : γ} {clock : Nat}
    (answered : Atomic.exec clock effect b = (answer, after)) : after.published = b.published := by
  cases effect with
  | casState | casOpenedAt | casRearmedAt =>
      simp only [Atomic.exec] at answered
      split at answered <;> obtain ⟨-, rfl⟩ := Prod.mk.inj answered <;> rfl
  | _ =>
      obtain ⟨-, rfl⟩ := Prod.mk.inj answered
      rfl

end Moves

/-! ## Whole races -/

def changesState (before after : Breaker) : Bool := before.state ≠ after.state

theorem covered_step {race : Race} {move : Move} {phases : List GaugePhase}
    (crew : Crew gaugeAutomaton IsClear phases race.programs)
    (upstream : race.breaker.published = true) (current : race.ShowsCurrent move) :
    ∃ later, Crew gaugeAutomaton IsClear later (race.step move).programs ∧
      (race.step move).breaker.published = true ∧
      (Covered race.breaker phases ∨ race.breaker.state ≠ (race.step move).breaker.state →
        Covered (race.step move).breaker later) := by
  let Holds (b : Breaker) (later : List GaugePhase) : Prop := b.published = true ∧
    (Covered race.breaker phases ∨ race.breaker.state ≠ b.state → Covered b later)
  have held : Holds race.breaker phases :=
    ⟨upstream, fun known => known.resolve_right (not_not.mpr rfl)⟩
  refine Race.crew_step crew held ?_ (fun _ => trivial) ?_
  · intro operation _
    refine ⟨.clear, upstream ▸ operation_pays operation, upstream, fun known => ?_⟩
    exact (known.resolve_right (not_not.mpr rfl)).mono (List.subset_append_left _ _)
  · intro γ effect next answer after flight index before rest phase later isAdvance found program
      answered split moved
    subst isAdvance split
    refine ⟨(exec_published answered).trans upstream, fun known => ?_⟩
    exact covered_moved moved (program ▸ current flight found) answered known

theorem covered_run {race : Race} {moves : List Move} {phases : List GaugePhase}
    (crew : Crew gaugeAutomaton IsClear phases race.programs)
    (upstream : race.breaker.published = true) (current : race.Along Race.ShowsCurrent moves)
    (known : Covered race.breaker phases ∨ 0 < race.countChanges changesState moves) :
    ∃ later, Crew gaugeAutomaton IsClear later (race.run moves).programs ∧
      Covered (race.run moves).breaker later := by
  induction moves generalizing race phases with
  | nil => exact ⟨phases, crew, known.resolve_right (Nat.lt_irrefl 0)⟩
  | cons move moves ih =>
      obtain ⟨later, stepped, stillUpstream, covers⟩ := covered_step crew upstream current.1
      refine ih stepped stillUpstream current.2 ?_
      by_cases changed : race.breaker.state = (race.step move).breaker.state
      · refine known.imp (fun covered => covers (.inl covered)) fun counted => ?_
        simpa [Race.countChanges, changesState, changed] using counted
      · exact .inl (covers (.inr changed))

/-- When every gauge write shows the circuit as it is at that moment, a race that
moved the circuit leaves both gauges right once all calls have returned. -/
theorem gauges_show_circuit {b : Breaker} {clock : Nat} {moves : List Move}
    (upstream : b.published = true)
    (current : Race.Along Race.ShowsCurrent { clock := clock, breaker := b } moves)
    (returned : (Race.run { clock := clock, breaker := b } moves).allReturned)
    (changed : 0 < Race.countChanges changesState { clock := clock, breaker := b } moves) :
    let final := (Race.run { clock := clock, breaker := b } moves).breaker
    final.circuitGauge = some final.state ∧
      final.aliveGauge = some (decide (final.state = .closed)) := by
  have starts : Crew gaugeAutomaton IsClear []
    (Race.programs { clock := clock, breaker := b }) := .nil
  obtain ⟨phases, crew, covered⟩ := covered_run starts upstream current (.inr changed)
  have clear : ∀ phase ∈ phases, phase = .clear := by
    intro phase member
    obtain ⟨_, isClear⟩ := crew.finished (Race.programs_of_allReturned returned) phase member
    exact isClear
  constructor
  · refine covered.circuit.resolve_right fun found => ?_
    obtain ⟨phase, member, owed⟩ := found
    rw [clear phase member] at owed
    exact owed
  · refine covered.alive.resolve_right fun found => ?_
    obtain ⟨phase, member, owed⟩ := found
    rw [clear phase member] at owed
    exact owed

def upstreamBreaker : Breaker :=
  unchecked (some (ascii "api")) true (.fromSecs 30) 1

def recovery : List Move :=
  .start (.recordFailure .normal) :: advances 0 9 ++
    .start (.recordSuccess .probe) :: advances 1 6

theorem recovery_shown :
    let final := (Race.run { clock := 0, breaker := upstreamBreaker } recovery).breaker
    final.state = .closed ∧ final.circuitGauge = some .closed ∧ final.aliveGauge = some true := by
  have shown := @gauges_show_circuit upstreamBreaker 0 recovery (by decide +kernel)
    (by decide +kernel) (by decide +kernel) (by decide +kernel)
  have state : (Race.run { clock := 0, breaker := upstreamBreaker } recovery).breaker.state =
    .closed := by decide +kernel
  simp only [state] at shown
  exact ⟨state, shown⟩

/-- The failure opens the circuit, loads `Open` and is suspended. A passing check
closes the circuit and publishes it; then the failure writes what it loaded. -/
def suspendedPublisher : List Move :=
  .start (.recordFailure .normal) :: advances 0 7 ++
    .start (.recordSuccess .probe) :: advances 1 6 ++
    advances 0 2

theorem suspended_publisher_leaves_stale_gauges :
    ¬∀ (name : Bytes) (config : BreakerConfig) (b : Breaker) (clock : Nat) (moves : List Move),
      Breaker.forUpstream name config = .ok b →
      (∀ move ∈ moves, move.startsRelease = false) →
      (Race.run { clock := clock, breaker := b } moves).allReturned →
      0 < Race.countChanges changesState { clock := clock, breaker := b } moves →
      let final := (Race.run { clock := clock, breaker := b } moves).breaker
      final.circuitGauge = some final.state ∧
        final.aliveGauge = some (decide (final.state = .closed)) := by
  intro claimed
  have shown := claimed (ascii "api") { failureThreshold := 1 } upstreamBreaker 0
    suspendedPublisher (by decide +kernel) (by decide +kernel) (by decide +kernel)
    (by decide +kernel)
  exact absurd shown (by decide +kernel)

end Ferryman.Core
