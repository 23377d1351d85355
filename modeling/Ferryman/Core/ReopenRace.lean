import Ferryman.Core.BreakerRaceProperties
import Ferryman.Core.BreakerTimes
import Ferryman.Core.ReleaseReads

/-!
# A failing probe against releases

One `record_failure` of a probe reopens a half-open circuit while any number of
releases run. It stamps the circuit first and opens it second; a release that
reads in between may take the new stamp for the old one.
-/

set_option autoImplicit false

namespace Ferryman.Core

open Program Breaker

/-! ## The failing probe -/

inductive ReopenPhase where
  | fresh
  | reading
  | stamping (millis : Nat)
  | stamped
  | moved
  /-- The circuit was not half-open. -/
  | astray
deriving DecidableEq

inductive ReopenMove : {γ : Type} → ReopenPhase → Atomic γ → γ → ReopenPhase → Prop
  | looked : ReopenMove .fresh .loadState .halfOpen .reading
  | strayed {state : CircuitState} (other : state ≠ .halfOpen) :
      ReopenMove .fresh .loadState state .astray
  | read (millis : Nat) : ReopenMove .reading .now millis (.stamping millis)
  | stamp (millis : Nat) : ReopenMove (.stamping millis) (.storeOpenedAt millis) () .stamped
  | moved (ok : Bool) : ReopenMove .stamped (.casState .halfOpen .open) ok .moved
  | shown (state : CircuitState) : ReopenMove .moved .loadState state .moved
  | wroteCircuit (state : CircuitState) : ReopenMove .moved (.setCircuitGauge state) () .moved
  | wroteAlive (alive : Bool) : ReopenMove .moved (.setAliveGauge alive) () .moved
  | free {γ : Type} (effect : Atomic γ) (answer : γ) : ReopenMove .astray effect answer .astray

def reopenAutomaton : Automaton Atomic ReopenPhase where
  possible := fun _ _ => True
  moves := ReopenMove

def HasReopened {α : Type} (phase : ReopenPhase) (_ : α) : Prop := phase = .moved ∨ phase = .astray

section Walks

variable (publishes : Bool)

theorem setGauges_reopens :
    (setGauges publishes).Walks reopenAutomaton HasReopened .moved := by
  cases publishes with
  | false => exact .inl rfl
  | true =>
      intro state _
      refine ⟨_, .shown state, fun _ _ => ⟨_, .wroteCircuit state, fun _ _ => ?_⟩⟩
      exact ⟨_, .wroteAlive _, .inl rfl⟩

theorem transition_reopens :
    (transition publishes .halfOpen .open).Walks reopenAutomaton HasReopened .stamped := by
  intro ok _
  refine ⟨_, .moved ok, ?_⟩
  cases ok with
  | false => exact .inl rfl
  | true => exact (setGauges_reopens publishes).bind fun _ _ reached => reached

theorem stampOpen_reopens :
    (stampOpen publishes .halfOpen).Walks reopenAutomaton HasReopened .reading := by
  simp only [stampOpen, lift_bind]
  refine fun millis _ => ⟨_, .read millis, fun _ _ => ⟨_, .stamp millis, ?_⟩⟩
  exact (transition_reopens publishes).bind fun _ _ reached => reached

theorem recordFailure_reopens :
    ((Operation.recordFailure .probe).program publishes).Walks reopenAutomaton HasReopened
      .fresh := by
  refine Walks.bind (?_ : (recordFailure publishes .probe).Walks reopenAutomaton HasReopened
    .fresh) fun _ _ reached => reached
  rw [recordFailure_eq]
  intro state _
  by_cases half : state = .halfOpen
  · subst half
    exact ⟨_, .looked, stampOpen_reopens publishes⟩
  · exact ⟨_, .strayed half, walks_of_free ReopenMove.free (fun _ => .inr rfl) _⟩

end Walks

/-! ## Following the failing probe -/

/-- Whoever takes the stamp has returned by the time it is stored, after `front`.
It can have taken it before: stamps are no finer than the clock. -/
def Race.StampUntaken (race : Race) (front moves : List Move) (stamp : Nat) : Prop :=
  ∀ index, race.TakesStamp moves index stamp →
    ∃ flight ∈ (race.run front).calls[index]?, flight.result ≠ none

instance (race : Race) (front moves : List Move) (stamp : Nat) :
    Decidable (race.StampUntaken front moves stamp) :=
  decidable_of_iff
    (∀ index < (race.run moves).calls.length, race.TakesStamp moves index stamp →
      ∃ flight ∈ (race.run front).calls[index]?, flight.result ≠ none)
    ⟨fun untaken index takes => untaken index takes.started takes,
      fun untaken index _ takes => untaken index takes⟩

/-- The call has stored its stamp, and the stamp stands unless a release has
taken it. -/
def StampStands (race : Race) (index : Nat) (moves : List Move) : Prop :=
  ∃ front back stamp, moves = front ++ .advance index :: back ∧
    (∃ flight ∈ (race.run front).calls[index]?, nextStamp flight.program = some stamp) ∧
    stamp ≤ (race.run moves).clock ∧
    (race.StampUntaken front moves stamp → (race.run moves).breaker.openedAtMillis = stamp)

def Reopens (race : Race) (index : Nat) (moves : List Move) : ReopenPhase → Prop
  | .fresh | .reading => (race.run moves).breaker.state = .halfOpen
  | .stamping millis =>
      (race.run moves).breaker.state = .halfOpen ∧ millis ≤ (race.run moves).clock
  | .stamped => (race.run moves).breaker.state = .halfOpen ∧ StampStands race index moves
  | .moved => (race.run moves).breaker.state = .open ∧ StampStands race index moves
  | .astray => False

structure Reopening (race : Race) (index : Nat) (moves : List Move) (phase : ReopenPhase)
    (flight : Flight) : Prop where
  found : (race.run moves).calls[index]? = some flight
  walks : flight.program.Walks reopenAutomaton HasReopened phase
  others : ReleasesRead race moves (· ≠ index)
  cooldown : (race.run moves).breaker.cooldownMillis = race.breaker.cooldownMillis
  reopens : Reopens race index moves phase

section Steps

variable {race : Race} {index : Nat} {moves : List Move} {move : Move} {phase : ReopenPhase}
  {flight : Flight}

theorem StampStands.extend (stands : StampStands race index moves)
    (clocks : (race.run moves).clock ≤ (race.run (moves ++ [move])).clock)
    (kept : (race.run (moves ++ [move])).breaker.openedAtMillis =
        (race.run moves).breaker.openedAtMillis ∨
      ∃ other, (race.run moves).inFlight other ∧
        race.TakesStamp moves other (race.run moves).breaker.openedAtMillis) :
    StampStands race index (moves ++ [move]) := by
  obtain ⟨front, back, stamp, split, storing, past, stands⟩ := stands
  refine ⟨front, back ++ [move], stamp, by simp [split], storing, past.trans clocks, ?_⟩
  intro untaken
  have isStamp := stands fun other takes => untaken other (takes.extend move)
  cases kept with
  | inl same => exact same.trans isStamp
  | inr taken =>
      obtain ⟨other, ⟨call, found, unfinished⟩, takes⟩ := taken
      rw [isStamp] at takes
      obtain ⟨early, earlyFound, returned⟩ := untaken other (takes.extend move)
      -- a call that has returned stays as it is, so it is not in flight now
      have later := Race.returned_run earlyFound returned (.advance index :: back)
      rw [← Race.run_append, ← split] at later
      obtain rfl := Option.some.inj (later.symm.trans found)
      exact absurd unfinished returned

theorem StampStands.store {stamp : Nat} (found : (race.run moves).calls[index]? = some flight)
    (storing : nextStamp flight.program = some stamp)
    (past : stamp ≤ (race.run (moves ++ [.advance index])).clock)
    (stored : (race.run (moves ++ [.advance index])).breaker.openedAtMillis = stamp) :
    StampStands race index (moves ++ [.advance index]) :=
  ⟨moves, [], stamp, rfl, ⟨flight, found, storing⟩, past, fun _ => stored⟩

/-- A move of somebody else. -/
theorem Reopening.waited (holds : Reopening race index moves phase flight)
    (found : (race.run (moves ++ [move])).calls[index]? = some flight)
    (others : ReleasesRead race (moves ++ [move]) (· ≠ index))
    (notMine : move = .advance index → flight.result ≠ none) :
    Reopening race index (moves ++ [move]) phase flight := by
  have asked : ∀ other, move = .advance other → ∀ call ∈ (race.run moves).calls[other]?,
      call.result = none → other ≠ index := by
    intro other isAdvance call isCall unfinished same
    subst same
    obtain rfl := Option.some.inj (holds.found.symm.trans isCall)
    exact notMine isAdvance unfinished
  obtain ⟨clocks, sameState, sameCooldown, kept⟩ := holds.others.frame asked
  refine ⟨found, holds.walks, others, sameCooldown.trans holds.cooldown, ?_⟩
  have reopens := holds.reopens
  cases phase with
  | fresh | reading => exact sameState.trans reopens
  | stamping millis => exact ⟨sameState.trans reopens.1, reopens.2.trans clocks⟩
  | stamped | moved => exact ⟨sameState.trans reopens.1, reopens.2.extend clocks kept⟩
  | astray => exact reopens.elim

/-- A move of the failing probe itself. -/
theorem Reopening.performed {β : Type} {effect : Atomic β}
    {next : β → Program Atomic (Option Admission)} {answer : β} {after : Breaker}
    {claimed : Option Nat} (holds : Reopening race index moves phase flight)
    (program : flight.program = .perform effect next)
    (answered : Atomic.exec (race.run moves).clock effect (race.run moves).breaker =
      (answer, after))
    (isAfter : (race.run (moves ++ [.advance index])).breaker = after)
    (sameClock : (race.run (moves ++ [.advance index])).clock = (race.run moves).clock)
    (found : (race.run (moves ++ [.advance index])).calls[index]? =
      some ⟨flight.operation, claimed, next answer⟩)
    (others : ReleasesRead race (moves ++ [.advance index]) (· ≠ index)) :
    ∃ later, Reopening race index (moves ++ [.advance index]) later
      ⟨flight.operation, claimed, next answer⟩ := by
  have walks := holds.walks
  rw [program] at walks
  obtain ⟨later, went, follows⟩ := walks answer trivial
  have went : ReopenMove phase effect answer later := went
  have reopens := holds.reopens
  suffices tells : after.cooldownMillis = (race.run moves).breaker.cooldownMillis ∧
      Reopens race index (moves ++ [.advance index]) later by
    exact ⟨later, found, follows, others, (isAfter ▸ tells.1).trans holds.cooldown, tells.2⟩
  have carried (sameStamp : after.openedAtMillis = (race.run moves).breaker.openedAtMillis)
      (stands : StampStands race index moves) :
      StampStands race index (moves ++ [.advance index]) :=
    stands.extend sameClock.ge (.inl (isAfter ▸ sameStamp))
  cases went with
  | looked =>
      obtain ⟨-, rfl⟩ := Prod.mk.inj answered
      exact ⟨rfl, (congrArg Breaker.state isAfter).trans reopens⟩
  | strayed other =>
      obtain ⟨isState, -⟩ := Prod.mk.inj answered
      exact absurd (isState.symm.trans reopens) other
  | read millis =>
      obtain ⟨isClock, rfl⟩ := Prod.mk.inj answered
      refine ⟨rfl, (congrArg Breaker.state isAfter).trans reopens, ?_⟩
      rw [sameClock, ← isClock]
  | stamp millis =>
      obtain ⟨-, rfl⟩ := Prod.mk.inj answered
      refine ⟨rfl, (congrArg Breaker.state isAfter).trans reopens.1, ?_⟩
      refine .store holds.found (by rw [program]; rfl) (reopens.2.trans sameClock.ge) ?_
      exact congrArg Breaker.openedAtMillis isAfter
  | moved ok =>
      simp only [Atomic.exec, if_pos reopens.1] at answered
      obtain ⟨-, rfl⟩ := Prod.mk.inj answered
      exact ⟨rfl, congrArg Breaker.state isAfter, carried rfl reopens.2⟩
  | shown | wroteCircuit | wroteAlive =>
      obtain ⟨-, rfl⟩ := Prod.mk.inj answered
      exact ⟨rfl, (congrArg Breaker.state isAfter).trans reopens.1, carried rfl reopens.2⟩
  | free => exact reopens.elim

theorem Reopening.keeps (holds : Reopening race index moves phase flight)
    (onlyReleases : ∀ operation, move = .start operation → operation.isRelease = true) :
    ∃ phase flight, Reopening race index (moves ++ [move]) phase flight := by
  have ends : race.run (moves ++ [move]) = (race.run moves).step move := by simp
  have others := holds.others.step fun operation isStart _ => onlyReleases operation isStart
  cases Race.call_step move holds.found with
  | waited same notMine =>
      rw [← ends] at same
      exact ⟨phase, flight, holds.waited same others notMine⟩
  | performed isAdvance program answered moved =>
      subst isAdvance
      have sameClock := (race.run moves).clock_advance index
      rw [← ends] at answered moved sameClock
      obtain ⟨later, reopening⟩ := holds.performed program answered rfl sameClock moved others
      exact ⟨later, _, reopening⟩

theorem Reopening.returned (holds : Reopening race index moves phase flight)
    (returned : flight.result ≠ none) :
    (race.run moves).breaker.state = .open ∧ StampStands race index moves := by
  have walks := holds.walks
  have reopens := holds.reopens
  obtain ⟨operation, claimed, program⟩ := flight
  cases program with
  | perform effect next => exact absurd rfl returned
  | done result =>
      cases walks with
      | inl isMoved =>
          subst isMoved
          exact reopens
      | inr isAstray =>
          subst isAstray
          exact reopens.elim

theorem Reopening.run {later : List Move} (holds : Reopening race index moves phase flight)
    (onlyReleases : ∀ operation, .start operation ∈ later → operation.isRelease = true) :
    ∃ phase flight, Reopening race index (moves ++ later) phase flight := by
  induction later using List.reverseRecOn with
  | nil => exact ⟨phase, flight, by simpa using holds⟩
  | append_singleton later move ih =>
      obtain ⟨phase, flight, holds⟩ := ih fun operation member =>
        onlyReleases operation (List.mem_append_left _ member)
      rw [← List.append_assoc]
      refine holds.keeps fun operation isStart => ?_
      subst isStart
      exact onlyReleases operation (List.mem_append_right _ (List.mem_singleton_self _))

end Steps

/-! ## Before the failing probe starts -/

structure OnlyReleases (race : Race) (moves : List Move) : Prop where
  reads : ReleasesRead race moves fun _ => True
  sameState : (race.run moves).breaker.state = race.breaker.state
  sameCooldown : (race.run moves).breaker.cooldownMillis = race.breaker.cooldownMillis

namespace OnlyReleases

variable {race : Race} {moves : List Move}

theorem run (noCalls : race.calls = [])
    (onlyReleases : ∀ operation, .start operation ∈ moves → operation.isRelease = true) :
    OnlyReleases race moves := by
  induction moves using List.reverseRecOn with
  | nil => exact ⟨by simp [ReleasesRead, noCalls], rfl, rfl⟩
  | append_singleton moves move ih =>
      have holds := ih fun operation member =>
        onlyReleases operation (List.mem_append_left _ member)
      obtain ⟨-, sameState, sameCooldown, -⟩ :=
        @ReleasesRead.frame race moves _ move holds.reads fun _ _ _ _ _ => trivial
      refine ⟨holds.reads.step fun operation isStart _ => ?_, sameState.trans holds.sameState,
        sameCooldown.trans holds.sameCooldown⟩
      subst isStart
      exact onlyReleases operation (List.mem_append_right _ (List.mem_singleton_self _))

theorem start (holds : OnlyReleases race moves) (isHalfOpen : race.breaker.state = .halfOpen) :
    Reopening race (race.run moves).calls.length (moves ++ [.start (.recordFailure .probe)]) .fresh
      ⟨.recordFailure .probe, none,
        (Operation.recordFailure .probe).program (race.run moves).breaker.published⟩ where
  found := by simp [Race.step]
  walks := recordFailure_reopens _
  others := by
    have reads : ReleasesRead race moves (· ≠ (race.run moves).calls.length) :=
      fun index flight _ isCall => holds.reads index flight trivial isCall
    exact reads.step fun _ _ asked => absurd rfl asked
  cooldown := by simpa [Race.step] using holds.sameCooldown
  reopens := by simpa [Reopens, Race.step] using holds.sameState.trans isHalfOpen

end OnlyReleases

/-- When all calls have returned the circuit is open. The stamp that the failing
probe stored stands, and nobody is let through for a cooldown, unless a release
that was still under way at the store took that stamp for the old one. -/
theorem reopening_stamp_stands {b : Breaker} {clock index : Nat}
    {before during moves : List Move} {race final : Race}
    (isRace : race = { clock := clock, breaker := b })
    (isRun : moves = before ++ .start (.recordFailure .probe) :: during)
    (isIndex : index = (race.run before).calls.length)
    (ends : final = race.run moves)
    (isHalfOpen : b.state = .halfOpen)
    (onlyReleases : ∀ operation, .start operation ∈ before ++ during → operation.isRelease = true)
    (returned : final.allReturned) :
    final.breaker.state = .open ∧
      ∃ front back stamp, moves = front ++ .advance index :: back ∧
        (∃ flight ∈ (race.run front).calls[index]?, nextStamp flight.program = some stamp) ∧
        (race.StampUntaken front moves stamp →
          final.breaker.openedAtMillis = stamp ∧
            ∀ time, final.clock ≤ time → time < stamp + b.cooldownMillis →
              (final.breaker.apply ⟨time, .tryAcquire⟩).1 = none) := by
  subst isRace
  have ready := @OnlyReleases.run { clock := clock, breaker := b } _ rfl
    fun operation member => onlyReleases operation (List.mem_append_left during member)
  obtain ⟨phase, flight, holds⟩ := (ready.start isHalfOpen).run fun operation member =>
    onlyReleases operation (List.mem_append_right before member)
  rw [← isIndex, List.append_assoc, List.singleton_append, ← isRun] at holds
  subst ends
  obtain ⟨isOpen, front, back, stamp, split, storing, past, stands⟩ :=
    holds.returned (returned flight (List.mem_of_getElem? holds.found))
  refine ⟨isOpen, front, back, stamp, split, storing, fun untaken => ⟨stands untaken, ?_⟩⟩
  intro time later early
  have cooldown := holds.cooldown
  have waits : time - (Race.run { clock := clock, breaker := b } moves).breaker.openedAtMillis <
      (Race.run { clock := clock, breaker := b } moves).breaker.cooldownMillis := by
    rw [stands untaken, cooldown]
    dsimp only
    omega
  simp [apply_tryAcquire, isOpen, waits]

/-- A probe was let through at 100; the cooldown is 100 ms. -/
def probedBreaker : Breaker :=
  { quickBreaker with state := .halfOpen, consecutiveFailures := 1, openedAtMillis := 100 }

def probed : Race := { clock := 150, breaker := probedBreaker }

/-- The first release loads the old stamp and comes to exchange it after the
store; the second starts when the circuit is open again. -/
def outdatedReleases : List Move :=
  advances 1 3 ++ advances 0 4 ++ .advance 1 :: .start (.release .probe) :: advances 2 4

def heldOff : List Move :=
  .start (.release .probe) :: advances 0 3 ++ .start (.recordFailure .probe) :: outdatedReleases

theorem late_release_keeps_stamp :
    (probed.run heldOff).breaker.openedAtMillis = 150 ∧
      ∀ time, 150 ≤ time → time < 250 →
        ((probed.run heldOff).breaker.apply ⟨time, .tryAcquire⟩).1 = none := by
  have onlyReleases : ∀ operation,
      .start operation ∈ (.start (.release .probe) :: advances 0 3) ++ outdatedReleases →
        operation.isRelease = true := by
    intro operation member
    simp only [outdatedReleases, advances, List.cons_append, List.mem_append, List.mem_cons,
      List.mem_replicate, Move.start.injEq, reduceCtorEq, and_false, false_or, or_false,
      or_self] at member
    subst member
    rfl
  -- the probe stores once, and neither release takes what it stores
  have stored : ∀ front ∈ heldOff.inits, ∀ flight ∈ (probed.run front).calls[1]?,
      ∀ stamp ∈ nextStamp flight.program, stamp = 150 ∧
        probed.StampUntaken front heldOff stamp := by decide +kernel
  obtain ⟨-, front, back, stamp, split, ⟨flight, found, storing⟩, stands⟩ :=
    reopening_stamp_stands (rfl : probed = _) (rfl : heldOff = _) (rfl : 1 = _) rfl rfl
      onlyReleases (by decide +kernel)
  have isFront : front ∈ heldOff.inits := by
    rw [List.mem_inits, split]
    exact List.prefix_append _ _
  obtain ⟨rfl, untaken⟩ := stored front isFront flight found stamp storing
  obtain ⟨isStamp, refused⟩ := stands untaken
  exact ⟨isStamp, fun time later early => refused time later early⟩

/-- A release reads the clock, then the failing probe stores 150, then the release
loads that stamp with the circuit still half-open and puts 50 in its place. -/
def rearmedStamp : List Move :=
  .start (.recordFailure .probe) :: .start (.release .probe) :: advances 1 2 ++ advances 0 3 ++
    advances 1 5 ++ [.advance 0]

theorem release_replaces_new_stamp :
    ¬∀ (b : Breaker) (clock index stamp : Nat) (before during front back moves : List Move)
        (race final : Race),
      race = { clock := clock, breaker := b } →
      moves = before ++ .start (.recordFailure .probe) :: during →
      index = (race.run before).calls.length → final = race.run moves →
      b.state = .halfOpen →
      (∀ operation, .start operation ∈ before ++ during → operation.isRelease = true) →
      final.allReturned → final.breaker.state = .open →
      moves = front ++ .advance index :: back →
      (∃ flight ∈ (race.run front).calls[index]?, nextStamp flight.program = some stamp) →
      final.breaker.openedAtMillis = stamp ∧
        ∀ time, final.clock ≤ time → time < stamp + b.cooldownMillis →
          (final.breaker.apply ⟨time, .tryAcquire⟩).1 = none := by
  intro claimed
  let during : List Move :=
    .start (.release .probe) :: advances 1 2 ++ advances 0 3 ++ advances 1 5 ++ [.advance 0]
  let front : List Move :=
    .start (.recordFailure .probe) :: .start (.release .probe) :: advances 1 2 ++ advances 0 2
  have onlyReleases : ∀ operation, .start operation ∈ [] ++ during →
      operation.isRelease = true := by
    intro operation member
    simp only [during, advances, List.nil_append, List.cons_append, List.mem_append, List.mem_cons,
      List.mem_replicate, Move.start.injEq, reduceCtorEq, and_false, List.not_mem_nil,
      or_false] at member
    subst member
    rfl
  have stamped := (claimed probedBreaker 150 0 150 [] during front (advances 1 5 ++ [.advance 0])
    rearmedStamp probed (probed.run rearmedStamp) rfl rfl rfl rfl rfl onlyReleases
    (by decide +kernel) (by decide +kernel) rfl (by decide +kernel)).1
  exact absurd stamped (by decide +kernel)

end Ferryman.Core
