import Ferryman.Core.RaceSteps

/-!
# The kind of a ticket under races

One `try_acquire` is followed from its start to its return while other calls
run. A normal ticket is truthful when the circuit was closed at some moment in
between.
-/

set_option autoImplicit false

namespace Ferryman.Core

open Program Breaker

/-! ## Where a caller stands -/

inductive TicketPhase where
  | fresh
  | sawClosed
  /-- It looks for the slot of a circuit it saw half-open, or open. -/
  | looking (halfOpen : Bool)
  /-- It has the slot of an open circuit, which it now moves to half-open. -/
  | won
  | probing
  | lost
deriving DecidableEq

inductive TicketMove : {γ : Type} → TicketPhase → Atomic γ → γ → TicketPhase → Prop
  | sawClosed : TicketMove .fresh .loadState .closed .sawClosed
  | sawOpen : TicketMove .fresh .loadState .open (.looking false)
  | sawHalfOpen : TicketMove .fresh .loadState .halfOpen (.looking true)
  | stamp (half : Bool) (millis : Nat) :
      TicketMove (.looking half) .loadOpenedAt millis (.looking half)
  | clock (half : Bool) (millis : Nat) : TicketMove (.looking half) .now millis (.looking half)
  | cooldown (half : Bool) (millis : Nat) :
      TicketMove (.looking half) .loadCooldown millis (.looking half)
  | beaten (half : Bool) (expected new : Nat) :
      TicketMove (.looking half) (.casOpenedAt expected new) false (.looking half)
  | claimed (expected new : Nat) :
      TicketMove (.looking false) (.casOpenedAt expected new) true .won
  | reclaimed (expected new : Nat) :
      TicketMove (.looking true) (.casOpenedAt expected new) true .probing
  | moved : TicketMove .won (.casState .open .halfOpen) true .probing
  | lost : TicketMove .won (.casState .open .halfOpen) false .lost
  | shown (state : CircuitState) : TicketMove .probing .loadState state .probing
  | wroteCircuit (state : CircuitState) : TicketMove .probing (.setCircuitGauge state) () .probing
  | wroteAlive (alive : Bool) : TicketMove .probing (.setAliveGauge alive) () .probing

def ticketAutomaton : Automaton Atomic TicketPhase where
  possible := fun _ _ => True
  moves := TicketMove

def Issued : TicketPhase → Option Admission → Prop
  | .sawClosed, result | .lost, result => result = some .normal
  | .looking _, result => result = none
  | .probing, result => result = some .probe
  | .fresh, _ | .won, _ => False

def ClaimFits : TicketPhase → Option Nat → Prop
  | .fresh, claimed | .sawClosed, claimed | .looking _, claimed => claimed = none
  | .won, claimed | .probing, claimed | .lost, claimed => claimed ≠ none

section Walks

variable (publishes : Bool)

theorem setGauges_probes :
    (setGauges publishes).Walks ticketAutomaton (fun phase _ => phase = .probing) .probing := by
  cases publishes with
  | false => exact rfl
  | true =>
      intro state _
      refine ⟨_, .shown state, fun _ _ => ⟨_, .wroteCircuit state, fun _ _ => ?_⟩⟩
      exact ⟨_, .wroteAlive _, rfl⟩

theorem transition_moves :
    (transition publishes .open .halfOpen).Walks ticketAutomaton
      (fun phase ok => phase = if ok then .probing else .lost) .won := by
  intro ok _
  cases ok with
  | false => exact ⟨_, .lost, rfl⟩
  | true => exact ⟨_, .moved, (setGauges_probes publishes).bind fun _ _ probing => probing⟩

theorem claimProbeSlot_looks {half : Bool} {rest : Bool → Program Atomic (Option Admission)}
    (refused : (rest false).Walks ticketAutomaton Issued (.looking half))
    (claimed : (rest true).Walks ticketAutomaton Issued (if half then .probing else .won)) :
    (claimProbeSlot >>= rest).Walks ticketAutomaton Issued (.looking half) := by
  simp only [claimProbeSlot, lift_bind, perform_bind]
  refine fun openedAt _ => ⟨_, .stamp half openedAt, fun now _ => ⟨_, .clock half now, ?_⟩⟩
  refine fun cooldown _ => ⟨_, .cooldown half cooldown, ?_⟩
  by_cases early : now - openedAt < cooldown
  · simp only [early, if_true, pure_eq, done_bind]
    exact refused
  · simp only [early, if_false, lift_bind]
    intro ok _
    cases ok with
    | false => exact ⟨_, .beaten half openedAt now, refused⟩
    | true =>
        cases half with
        | false => exact ⟨_, .claimed openedAt now, claimed⟩
        | true => exact ⟨_, .reclaimed openedAt now, claimed⟩

theorem tryAcquire_walks : (tryAcquire publishes).Walks ticketAutomaton Issued .fresh := by
  simp only [tryAcquire, lift_bind]
  intro state _
  cases state with
  | closed => exact ⟨_, .sawClosed, rfl⟩
  | halfOpen => exact ⟨_, .sawHalfOpen, claimProbeSlot_looks rfl rfl⟩
  | «open» =>
      refine ⟨_, .sawOpen, claimProbeSlot_looks rfl ?_⟩
      refine (transition_moves publishes).bind fun phase ok reached => ?_
      subst reached
      cases ok <;> exact rfl

end Walks

/-! ## What a caller can witness -/

/-- At some moment of the run the circuit is closed and the call has not
returned. -/
def ClosedDuring (race : Race) (index : Nat) (moves : List Move) : Prop :=
  ∃ front, front <+: moves ∧ (race.run front).inFlight index ∧
    (race.run front).breaker.state = .closed

def nextTransition : Program Atomic (Option Admission) → Option (CircuitState × CircuitState)
  | .perform (.casState expected new) _ => some (expected, new)
  | _ => none

/-- The call comes to move the circuit from open to half-open. -/
def Race.ComesToProbe (race : Race) (index : Nat) : Prop :=
  ∃ flight ∈ race.calls[index]?, nextTransition flight.program = some (.open, .halfOpen)

/-- The call comes to move the circuit from open to half-open when another call
has done so and nobody has closed it since the call began. -/
def LosesToProbe (race : Race) (index : Nat) (moves : List Move) : Prop :=
  ∃ front, front ++ [.advance index] <+: moves ∧ (race.run front).ComesToProbe index ∧
    (race.run front).breaker.state = .halfOpen ∧ ¬ClosedDuring race index front

section Decidable

variable (race : Race) (index : Nat) (moves : List Move)

instance : Decidable (race.ComesToProbe index) :=
  inferInstanceAs (Decidable (∃ flight ∈ race.calls[index]?, _ = some _))

instance : Decidable (ClosedDuring race index moves) :=
  decidable_of_iff
    (∃ front ∈ moves.inits, (race.run front).inFlight index ∧
      (race.run front).breaker.state = .closed)
    (by simp only [List.mem_inits, ClosedDuring])

instance : Decidable (LosesToProbe race index moves) :=
  decidable_of_iff
    (∃ front ∈ moves.inits, front ++ [.advance index] <+: moves ∧
      (race.run front).ComesToProbe index ∧ (race.run front).breaker.state = .halfOpen ∧
      ¬ClosedDuring race index front) <| by
    simp only [List.mem_inits, LosesToProbe]
    refine exists_congr fun front => and_iff_right_of_imp fun found => ?_
    exact (List.prefix_append _ _).trans found.1

end Decidable

section Prefixes

variable {race : Race} {index : Nat} {moves : List Move} {move : Move}

theorem closedDuring_append :
    ClosedDuring race index (moves ++ [move]) ↔
      ClosedDuring race index moves ∨
        (race.run (moves ++ [move])).inFlight index ∧
          (race.run (moves ++ [move])).breaker.state = .closed := by
  simp only [ClosedDuring, List.prefix_concat_iff, or_and_right, exists_or, exists_eq_left]
  exact or_comm

theorem losesToProbe_append :
    LosesToProbe race index (moves ++ [move]) ↔
      LosesToProbe race index moves ∨
        move = .advance index ∧ (race.run moves).ComesToProbe index ∧
          (race.run moves).breaker.state = .halfOpen ∧ ¬ClosedDuring race index moves := by
  have last : ∀ front, front ++ [Move.advance index] = moves ++ [move] ↔
      front = moves ∧ move = .advance index := by
    intro front
    rw [← List.concat_eq_append, ← List.concat_eq_append, List.concat_inj, eq_comm (a := move)]
  simp only [LosesToProbe, List.prefix_concat_iff, last, or_and_right, exists_or, and_assoc,
    exists_eq_left]
  exact or_comm

end Prefixes

/-! ## Following one call -/

def Tells (race : Race) (index : Nat) (moves : List Move) : TicketPhase → Prop
  | .sawClosed => ClosedDuring race index moves ∧ ¬LosesToProbe race index moves
  | .lost => (ClosedDuring race index moves ∧ ¬LosesToProbe race index moves) ∨
      (¬ClosedDuring race index moves ∧ LosesToProbe race index moves)
  | .fresh | .looking _ | .won | .probing => ¬LosesToProbe race index moves

structure Followed (race : Race) (index : Nat) (moves : List Move) (phase : TicketPhase)
    (flight : Flight) : Prop where
  found : (race.run moves).calls[index]? = some flight
  walks : flight.program.Walks ticketAutomaton Issued phase
  claim : ClaimFits phase flight.claimed
  tells : Tells race index moves phase

theorem lost_returned {program : Program Atomic (Option Admission)}
    (walks : program.Walks ticketAutomaton Issued .lost) : program = .done (some .normal) := by
  cases program with
  | done result => exact congrArg done walks
  | perform effect next =>
      -- a lost caller makes no further move
      obtain ⟨_, went, _⟩ := walks (Atomic.exec 0 effect (unchecked none false (.fromSecs 0) 0)).1
        trivial
      cases went

namespace Followed

variable {race : Race} {index : Nat} {moves : List Move} {move : Move} {phase : TicketPhase}
  {flight : Flight}

theorem notLoses (found : (race.run moves).calls[index]? = some flight)
    (noLoss : ¬LosesToProbe race index moves)
    (other : move = .advance index →
      nextTransition flight.program = some (.open, .halfOpen) →
        (race.run moves).breaker.state ≠ .halfOpen) :
    ¬LosesToProbe race index (moves ++ [move]) := by
  intro loses
  rcases losesToProbe_append.mp loses with before | ⟨isAdvance, ⟨mine, isMine, next⟩, state, -⟩
  · exact noLoss before
  · rw [found, Option.mem_some_iff] at isMine
    subst isMine
    exact other isAdvance next state

theorem closed_of_state (found : (race.run moves).calls[index]? = some flight)
    (flying : flight.result = none) (isClosed : (race.run moves).breaker.state = .closed) :
    ClosedDuring race index moves :=
  ⟨moves, List.prefix_refl _, ⟨flight, found, flying⟩, isClosed⟩

theorem closed_mono (before : ClosedDuring race index moves) :
    ClosedDuring race index (moves ++ [move]) := closedDuring_append.mpr (.inl before)

/-- Once the call has returned, no later moment counts. -/
theorem notClosed_of_returned {result : Option Admission}
    (found : (race.run (moves ++ [move])).calls[index]? = some flight)
    (returned : flight.program = .done result) (never : ¬ClosedDuring race index moves) :
    ¬ClosedDuring race index (moves ++ [move]) := by
  intro closed
  rcases closedDuring_append.mp closed with before | ⟨⟨mine, isMine, flying⟩, -⟩
  · exact never before
  · rw [found, Option.mem_some_iff] at isMine
    subst isMine
    obtain ⟨operation, claimed, program⟩ := flight
    simp only at returned
    subst returned
    simp [Flight.result] at flying

theorem waited (holds : Followed race index moves phase flight)
    (same : (race.run (moves ++ [move])).calls[index]? = some flight)
    (notMine : move = .advance index → flight.result ≠ none) :
    Followed race index (moves ++ [move]) phase flight := by
  have noCome : move = .advance index →
      nextTransition flight.program = some (.open, .halfOpen) →
        (race.run moves).breaker.state ≠ .halfOpen := by
    intro isAdvance next
    obtain ⟨operation, claimed, program⟩ := flight
    cases program with
    | done result => simp [nextTransition] at next
    | perform effect next => exact absurd rfl (notMine isAdvance)
  refine ⟨same, holds.walks, holds.claim, ?_⟩
  have tells := holds.tells
  cases phase with
  | sawClosed => exact ⟨closed_mono tells.1, notLoses holds.found tells.2 noCome⟩
  | fresh | looking | won | probing => exact notLoses holds.found tells noCome
  | lost =>
      rcases tells with ⟨closed, noLoss⟩ | ⟨never, loses⟩
      · exact .inl ⟨closed_mono closed, notLoses holds.found noLoss noCome⟩
      · refine .inr ⟨?_, losesToProbe_append.mpr (.inl loses)⟩
        exact notClosed_of_returned same (lost_returned holds.walks) never

/-- Who fails to move the circuit to half-open found it closed, or half-open. -/
theorem lost_tells {result : Option Admission} {later : Flight}
    (found : (race.run moves).calls[index]? = some flight) (flying : flight.result = none)
    (noLoss : ¬LosesToProbe race index moves) (isAdvance : move = .advance index)
    (coming : nextTransition flight.program = some (.open, .halfOpen))
    (notOpen : (race.run moves).breaker.state ≠ .open)
    (moved : (race.run (moves ++ [move])).calls[index]? = some later)
    (returned : later.program = .done result) : Tells race index (moves ++ [move]) .lost := by
  by_cases closed : ClosedDuring race index moves
  · refine .inl ⟨closed_mono closed, fun loses => ?_⟩
    rcases losesToProbe_append.mp loses with before | ⟨-, -, -, never⟩
    · exact noLoss before
    · exact never closed
  · have isHalfOpen : (race.run moves).breaker.state = .halfOpen := by
      cases current : (race.run moves).breaker.state with
      | closed => exact absurd (closed_of_state found flying current) closed
      | «open» => exact absurd current notOpen
      | halfOpen => rfl
    refine .inr ⟨notClosed_of_returned moved returned closed, ?_⟩
    exact losesToProbe_append.mpr (.inr ⟨isAdvance, ⟨flight, found, coming⟩, isHalfOpen, closed⟩)

theorem performed {β : Type} {effect : Atomic β} {next : β → Program Atomic (Option Admission)}
    {answer : β} {after : Breaker} (holds : Followed race index moves phase flight)
    (isAdvance : move = .advance index) (program : flight.program = .perform effect next)
    (answered : Atomic.exec (race.run moves).clock effect (race.run moves).breaker =
      (answer, after))
    (moved : (race.run (moves ++ [move])).calls[index]? =
      some ⟨flight.operation, recallClaim flight.claimed effect answer, next answer⟩) :
    ∃ later, Followed race index (moves ++ [move]) later
      ⟨flight.operation, recallClaim flight.claimed effect answer, next answer⟩ := by
  have walks := holds.walks
  rw [program] at walks
  obtain ⟨later, went, follows⟩ := walks answer trivial
  have went : TicketMove phase effect answer later := went
  have claim := holds.claim
  have tells := holds.tells
  have found := holds.found
  have flying : flight.result = none := by
    obtain ⟨operation, claimed, rest⟩ := flight
    simp only at program
    subst program
    rfl
  refine ⟨later, moved, follows, ?_, ?_⟩
  · cases went with
    | claimed | reclaimed => exact Option.some_ne_none _
    | _ => exact claim
  · cases went with
    | sawClosed =>
        have isClosed : (race.run moves).breaker.state = .closed := (Prod.mk.inj answered).1
        refine ⟨closed_mono (closed_of_state found flying isClosed), notLoses found tells ?_⟩
        simp [program, nextTransition]
    | moved =>
        refine notLoses found tells fun _ _ => ?_
        simp only [Atomic.exec] at answered
        split at answered
        · simp_all
        · cases answered
    | lost =>
        have notOpen : (race.run moves).breaker.state ≠ .open := by
          intro isOpen
          simp [Atomic.exec, isOpen] at answered
        have coming : nextTransition flight.program = some (.open, .halfOpen) := by
          simp [program, nextTransition]
        exact lost_tells found flying tells isAdvance coming notOpen moved (lost_returned follows)
    | _ =>
        refine notLoses found tells ?_
        simp [program, nextTransition]

theorem run (holds : Followed race index [] phase flight) (moves : List Move) :
    ∃ phase flight, Followed race index moves phase flight := by
  induction moves using List.reverseRecOn with
  | nil => exact ⟨phase, flight, holds⟩
  | append_singleton moves move ih =>
      obtain ⟨phase, flight, holds⟩ := ih
      have ends : race.run (moves ++ [move]) = (race.run moves).step move := by simp
      cases Race.call_step move holds.found with
      | waited same notMine => exact ⟨phase, flight, holds.waited (ends ▸ same) notMine⟩
      | performed isAdvance program answered moved =>
          obtain ⟨later, followed⟩ := holds.performed isAdvance program answered (ends ▸ moved)
          exact ⟨later, _, followed⟩

theorem started (race : Race) :
    Followed (race.step (.start .tryAcquire)) race.calls.length [] .fresh
      ⟨.tryAcquire, none, tryAcquire race.breaker.published⟩ where
  found := by simp [Race.step, Operation.program]
  walks := tryAcquire_walks race.breaker.published
  claim := rfl
  tells := by
    intro loses
    obtain ⟨front, isPrefix, -⟩ := loses
    simp at isPrefix

end Followed

/-- The kind of the ticket is true: a normal one means that the circuit was
closed while the call ran, and who won the slot of a circuit that was never
closed meanwhile got a probe. -/
def Truthful (race : Race) (index : Nat) (moves : List Move) (claimed : Option Nat)
    (result : Option Admission) : Prop :=
  (result = some .normal → ClosedDuring race index moves) ∧
    (claimed ≠ none → ¬ClosedDuring race index moves → result = some .probe)

theorem Followed.truthful_iff {race : Race} {index : Nat} {moves : List Move}
    {phase : TicketPhase} {operation : Operation} {claimed : Option Nat}
    {result : Option Admission}
    (holds : Followed race index moves phase ⟨operation, claimed, .done result⟩) :
    Truthful race index moves claimed result ↔ ¬LosesToProbe race index moves := by
  have issued : Issued phase result := holds.walks
  have claim := holds.claim
  have tells := holds.tells
  cases phase with
  | fresh => exact issued.elim
  | won => exact issued.elim
  | sawClosed =>
      refine iff_of_true ⟨fun _ => tells.1, fun isClaimed => absurd claim isClaimed⟩ tells.2
  | looking half =>
      have none : result = none := issued
      refine iff_of_true ⟨fun isNormal => ?_, fun isClaimed => absurd claim isClaimed⟩ tells
      simp [none] at isNormal
  | probing =>
      have probe : result = some .probe := issued
      refine iff_of_true ⟨fun isNormal => ?_, fun _ _ => probe⟩ tells
      simp [probe] at isNormal
  | lost =>
      have normal : result = some .normal := issued
      rcases tells with ⟨closed, noLoss⟩ | ⟨never, loses⟩
      · exact iff_of_true ⟨fun _ => closed, fun _ never => absurd closed never⟩ noLoss
      · exact iff_of_false (fun truthful => never (truthful.1 normal)) (not_not.mpr loses)

/-- In every race, a caller's ticket is truthful exactly when it does not come to
move the circuit to half-open after another probe has. -/
theorem ticket_truthful_iff {race : Race} {during : List Move} {claimed : Option Nat}
    {result : Option Admission}
    (returned : ((race.step (.start .tryAcquire)).run during).calls[race.calls.length]? =
      some ⟨.tryAcquire, claimed, .done result⟩) :
    Truthful (race.step (.start .tryAcquire)) race.calls.length during claimed result ↔
      ¬LosesToProbe (race.step (.start .tryAcquire)) race.calls.length during := by
  obtain ⟨phase, flight, followed⟩ := (Followed.started race).run during
  have same := followed.found
  rw [returned] at same
  cases same
  exact followed.truthful_iff

def tenthSecond : BreakerConfig := ⟨1, ⟨100000000, by decide⟩, none⟩

def trip : List Move :=
  .start (.recordFailure .normal) :: advances 0 6 ++ [.tick 100]

/-- A circuit with a cooldown of 100 ms that opened at 0; now it is 100. -/
def openCircuit : Race :=
  Race.run { clock := 0, breaker := unchecked none false tenthSecond.cooldown 1 } trip

theorem lone_caller_truthful :
    Truthful (openCircuit.step (.start .tryAcquire)) openCircuit.calls.length
      (advances 1 6) (some 100) (some .probe) := by
  have returned : ((openCircuit.step (.start .tryAcquire)).run
      (advances 1 6)).calls[openCircuit.calls.length]? =
        some ⟨.tryAcquire, some 100, .done (some .probe)⟩ := rfl
  have noLoss : ¬LosesToProbe (openCircuit.step (.start .tryAcquire)) openCircuit.calls.length
    (advances 1 6) := by decide +kernel
  exact (@ticket_truthful_iff openCircuit _ _ _ returned).mpr noLoss

/-- The caller claims the slot at 100 and is suspended. Another one claims it at
200 and moves the circuit to half-open. -/
def suspendedCaller : List Move :=
  advances 1 5 ++ .tick 100 :: .start .tryAcquire ::
    advances 2 6 ++ [.advance 1]

theorem suspended_caller_gets_normal :
    ¬∀ (config : BreakerConfig) (b : Breaker) (clock : Nat) (race : Race)
        (before during : List Move) (claimed : Option Nat) (result : Option Admission),
      Created config b → race = Race.run { clock := clock, breaker := b } before →
      ((race.step (.start .tryAcquire)).run during).calls[race.calls.length]? =
        some ⟨.tryAcquire, claimed, .done result⟩ →
      Truthful (race.step (.start .tryAcquire)) race.calls.length during claimed result := by
  intro claimed
  have returned : ((openCircuit.step (.start .tryAcquire)).run
      suspendedCaller).calls[openCircuit.calls.length]? =
        some ⟨.tryAcquire, some 100, .done (some .normal)⟩ := rfl
  have truthful := claimed tenthSecond (unchecked none false tenthSecond.cooldown 1) 0 openCircuit
    trip suspendedCaller (some 100) (some .normal) (.inl (by decide +kernel)) rfl returned
  exact absurd (truthful.1 rfl) (by decide +kernel)

end Ferryman.Core
