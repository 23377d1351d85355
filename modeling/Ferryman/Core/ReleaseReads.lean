import Ferryman.Core.RaceSteps

/-!
# What releases have read

A release loads `opened_at`, then the state, and compare-exchanges the stamp it
has loaded several steps later. The run so far tells what it loaded when.
-/

set_option autoImplicit false

namespace Ferryman.Core

open Program Breaker

def loadsOpenedAt : Program Atomic (Option Admission) → Bool
  | .perform .loadOpenedAt _ => true
  | _ => false

def loadsState : Program Atomic (Option Admission) → Bool
  | .perform .loadState _ => true
  | _ => false

namespace Race

/-! ## Reads in a run -/

/-- The call comes to load `opened_at` when it holds `stamp`. -/
def ReadsStamp (race : Race) (index stamp : Nat) : Prop :=
  (∃ flight ∈ race.calls[index]?, loadsOpenedAt flight.program = true) ∧
    race.breaker.openedAtMillis = stamp

/-- The call comes to load the state when the circuit is half-open. -/
def ReadsHalfOpen (race : Race) (index : Nat) : Prop :=
  (∃ flight ∈ race.calls[index]?, loadsState flight.program = true) ∧
    race.breaker.state = .halfOpen

/-- In the run the call loads `opened_at` when it holds `stamp`, and after that
it finds the circuit half-open. -/
def TakesStamp (race : Race) (moves : List Move) (index stamp : Nat) : Prop :=
  ∃ first later, first ++ [.advance index] <+: later ∧ later ++ [.advance index] <+: moves ∧
    (race.run first).ReadsStamp index stamp ∧ (race.run later).ReadsHalfOpen index

section Decidable

variable (race : Race) (moves : List Move) (index stamp : Nat)

instance : Decidable (race.ReadsStamp index stamp) :=
  inferInstanceAs (Decidable ((∃ flight ∈ race.calls[index]?, _ = true) ∧ _))

instance : Decidable (race.ReadsHalfOpen index) :=
  inferInstanceAs (Decidable ((∃ flight ∈ race.calls[index]?, _ = true) ∧ _))

instance : Decidable (race.TakesStamp moves index stamp) :=
  decidable_of_iff
    (∃ later ∈ moves.inits, later ++ [.advance index] <+: moves ∧
      (race.run later).ReadsHalfOpen index ∧
      ∃ first ∈ later.inits, first ++ [.advance index] <+: later ∧
        (race.run first).ReadsStamp index stamp) <| by
    simp only [List.mem_inits]
    constructor
    · rintro ⟨later, -, isLater, sees, first, -, isFirst, reads⟩
      exact ⟨first, later, isFirst, isLater, reads, sees⟩
    · rintro ⟨first, later, isFirst, isLater, reads, sees⟩
      exact ⟨later, (List.prefix_append _ _).trans isLater, isLater, sees,
        first, (List.prefix_append _ _).trans isFirst, isFirst, reads⟩

end Decidable

variable {race : Race} {moves : List Move} {index : Nat}

theorem TakesStamp.extend {stamp : Nat} (takes : race.TakesStamp moves index stamp) (move : Move) :
    race.TakesStamp (moves ++ [move]) index stamp := by
  obtain ⟨first, later, isFirst, isLater, reads, sees⟩ := takes
  exact ⟨first, later, isFirst, isLater.trans (List.prefix_append _ _), reads, sees⟩

/-- Only calls that have been started read anything. -/
theorem TakesStamp.started {stamp : Nat} (takes : race.TakesStamp moves index stamp) :
    index < (race.run moves).calls.length := by
  obtain ⟨-, later, -, ⟨rest, rfl⟩, -, ⟨flight, found, -⟩, -⟩ := takes
  have bound := (List.getElem?_eq_some_iff.mp found).1
  rw [List.append_assoc, Race.run_append]
  exact bound.trans_le (calls_length_run _ _)

theorem returned_run {flight : Flight} (found : race.calls[index]? = some flight)
    (returned : flight.result ≠ none) (moves : List Move) :
    (race.run moves).calls[index]? = some flight := by
  induction moves generalizing race with
  | nil => exact found
  | cons move moves ih =>
      cases call_step move found with
      | waited same notMine => exact ih same
      | performed isAdvance program answered moved =>
          obtain ⟨operation, claimed, left⟩ := flight
          obtain rfl : left = _ := program
          exact absurd rfl returned

end Race

/-! ## Where a release stands -/

inductive ReleasePhase where
  | fresh
  | read (stamp : Nat)
  /-- It saw the circuit half-open, and may still exchange the stamp. -/
  | armed (stamp : Nat)
  | finished
deriving DecidableEq

inductive ReleaseMove : {γ : Type} → ReleasePhase → Atomic γ → γ → ReleasePhase → Prop
  | cooldown (millis : Nat) : ReleaseMove .fresh .loadCooldown millis .fresh
  | clock (millis : Nat) : ReleaseMove .fresh .now millis .fresh
  | stamp (millis : Nat) : ReleaseMove .fresh .loadOpenedAt millis (.read millis)
  | sawHalfOpen (stamp : Nat) : ReleaseMove (.read stamp) .loadState .halfOpen (.armed stamp)
  | sawOther (stamp : Nat) {state : CircuitState} (other : state ≠ .halfOpen) :
      ReleaseMove (.read stamp) .loadState state .finished
  | last (stamp millis : Nat) : ReleaseMove (.armed stamp) .loadRearmedAt millis (.armed stamp)
  | rearmed (stamp expected new : Nat) (ok : Bool) :
      ReleaseMove (.armed stamp) (.casRearmedAt expected new) ok (.armed stamp)
  | exchanged (stamp new : Nat) (ok : Bool) :
      ReleaseMove (.armed stamp) (.casOpenedAt stamp new) ok .finished

def releaseAutomaton : Automaton Atomic ReleasePhase where
  possible := fun _ _ => True
  moves := ReleaseMove

/-- A release may return in any phase. -/
def Releases {α : Type} (phase : ReleasePhase) (program : Program Atomic α) : Prop :=
  program.Walks releaseAutomaton (fun _ _ => True) phase

theorem release_releases (admission : Admission) : Releases .fresh (release admission) := by
  simp only [release, lift_bind]
  split
  · trivial
  refine fun cooldown _ => ⟨_, .cooldown cooldown, fun now _ => ⟨_, .clock now, ?_⟩⟩
  refine fun stamp _ => ⟨_, .stamp stamp, fun state _ => ?_⟩
  by_cases half : state = .halfOpen
  · subst half
    refine ⟨_, .sawHalfOpen stamp, fun last _ => ⟨_, .last stamp last, ?_⟩⟩
    dsimp only
    split
    · trivial
    refine fun rearmed _ => ⟨_, .rearmed stamp last now rearmed, ?_⟩
    dsimp only
    split
    · trivial
    · exact fun ok _ => ⟨_, .exchanged stamp _ ok, trivial⟩
  · refine ⟨_, .sawOther stamp half, ?_⟩
    simp only [ne_eq, half, not_false_eq_true, if_true]
    trivial

theorem operation_releases (publishes : Bool) {operation : Operation}
    (isRelease : operation.isRelease = true) :
    Releases .fresh (operation.program publishes) := by
  cases operation with
  | tryAcquire | recordSuccess | recordFailure => simp [Operation.isRelease] at isRelease
  | release admission => exact (release_releases admission).bind fun _ _ _ => trivial

theorem exec_release {γ : Type} {effect : Atomic γ} {answer : γ} {clock : Nat} {b after : Breaker}
    {phase later : ReleasePhase} (moved : ReleaseMove phase effect answer later)
    (answered : Atomic.exec clock effect b = (answer, after)) :
    after.state = b.state ∧ after.cooldownMillis = b.cooldownMillis ∧
      (after.openedAtMillis = b.openedAtMillis ∨ phase = .armed b.openedAtMillis) := by
  cases moved with
  | exchanged stamp new ok =>
      simp only [Atomic.exec] at answered
      split at answered
      next same =>
        obtain ⟨-, rfl⟩ := Prod.mk.inj answered
        exact ⟨rfl, rfl, .inr (congrArg _ same.symm)⟩
      next other =>
        obtain ⟨-, rfl⟩ := Prod.mk.inj answered
        exact ⟨rfl, rfl, .inl rfl⟩
  | rearmed stamp expected new ok =>
      simp only [Atomic.exec] at answered
      split at answered <;> obtain ⟨-, rfl⟩ := Prod.mk.inj answered <;>
        exact ⟨rfl, rfl, .inl rfl⟩
  | cooldown | clock | stamp | sawHalfOpen | sawOther | last =>
      obtain ⟨-, rfl⟩ := Prod.mk.inj answered
      exact ⟨rfl, rfl, .inl rfl⟩

/-! ## Reads and phases -/

section Histories

variable {race : Race} {moves : List Move} {index : Nat} {phase : ReleasePhase}

/-- The run bears out what the call remembers. -/
def HasRead (race : Race) (moves : List Move) (index : Nat) : ReleasePhase → Prop
  | .fresh | .finished => True
  | .read stamp =>
      ∃ first, first ++ [.advance index] <+: moves ∧ (race.run first).ReadsStamp index stamp
  | .armed stamp => race.TakesStamp moves index stamp

theorem HasRead.extend (hasRead : HasRead race moves index phase) (move : Move) :
    HasRead race (moves ++ [move]) index phase := by
  cases phase with
  | fresh | finished => trivial
  | read stamp =>
      obtain ⟨first, isFirst, reads⟩ := hasRead
      exact ⟨first, isFirst.trans (List.prefix_append _ _), reads⟩
  | armed stamp => exact Race.TakesStamp.extend hasRead move

theorem HasRead.performed {β : Type} {effect : Atomic β}
    {next : β → Program Atomic (Option Admission)} {answer : β} {after : Breaker}
    {flight : Flight} {later : ReleasePhase} (hasRead : HasRead race moves index phase)
    (found : (race.run moves).calls[index]? = some flight)
    (program : flight.program = .perform effect next)
    (answered : Atomic.exec (race.run moves).clock effect (race.run moves).breaker =
      (answer, after))
    (moved : ReleaseMove phase effect answer later) :
    HasRead race (moves ++ [.advance index]) index later := by
  cases moved with
  | cooldown | clock | sawOther | exchanged => trivial
  | last | rearmed => exact hasRead.extend _
  | stamp millis =>
      obtain ⟨isStamp, -⟩ := Prod.mk.inj answered
      exact ⟨moves, List.prefix_rfl, ⟨flight, found, by rw [program]; rfl⟩, isStamp⟩
  | sawHalfOpen stamp =>
      obtain ⟨isState, -⟩ := Prod.mk.inj answered
      obtain ⟨first, isFirst, reads⟩ := hasRead
      exact ⟨first, moves, isFirst, List.prefix_rfl, reads,
        ⟨flight, found, by rw [program]; rfl⟩, isState⟩

/-- The calls in question are releases, and the run bears out what they remember. -/
def ReleasesRead (race : Race) (moves : List Move) (inQuestion : Nat → Prop) : Prop :=
  ∀ (index : Nat) (flight : Flight), inQuestion index →
    (race.run moves).calls[index]? = some flight →
      ∃ phase, Releases phase flight.program ∧ HasRead race moves index phase

variable {inQuestion : Nat → Prop} {move : Move}

theorem ReleasesRead.step (reads : ReleasesRead race moves inQuestion)
    (onlyReleases : ∀ operation, move = .start operation →
      inQuestion (race.run moves).calls.length → operation.isRelease = true) :
    ReleasesRead race (moves ++ [move]) inQuestion := by
  intro index flight asked isCall
  have carried (isOld : (race.run moves).calls[index]? = some flight) :
      ∃ phase, Releases phase flight.program ∧ HasRead race (moves ++ [move]) index phase := by
    obtain ⟨phase, releases, hasRead⟩ := reads index flight asked isOld
    exact ⟨phase, releases, hasRead.extend move⟩
  rw [Race.run_append, Race.run_cons, Race.run_nil] at isCall
  generalize isNext : (race.run moves).step move = next at isCall
  have stepped := (race.run moves).step_stepped move
  rw [isNext] at stepped
  cases stepped with
  | ticked millis => exact carried isCall
  | idle other => exact carried isCall
  | started operation =>
      cases Nat.lt_or_ge index (race.run moves).calls.length with
      | inl earlier =>
          rw [List.getElem?_append_left earlier] at isCall
          exact carried isCall
      | inr beyond =>
          have isLast : index = (race.run moves).calls.length := by
            have bound := (List.getElem?_eq_some_iff.mp isCall).1
            rw [List.length_append, List.length_singleton] at bound
            omega
          subst isLast
          rw [List.getElem?_concat_length] at isCall
          obtain rfl := Option.some.inj isCall
          exact ⟨.fresh, operation_releases _ (onlyReleases operation rfl asked), trivial⟩
  | @performed γ front back operation claimed effect resume answer after calls answered =>
      by_cases isMoving : index = front.length
      · subst isMoving
        have found : (race.run moves).calls[front.length]? =
            some ⟨operation, claimed, .perform effect resume⟩ := by
          simp [calls]
        obtain ⟨phase, releases, hasRead⟩ := reads _ _ asked found
        obtain ⟨later, moved, continues⟩ := releases answer trivial
        simp only [List.getElem?_append_right (Nat.le_refl _), Nat.sub_self,
          List.getElem?_cons_zero, Option.some.injEq] at isCall
        subst isCall
        exact ⟨later, continues, hasRead.performed found rfl answered moved⟩
      · rw [Race.getElem?_other isMoving, ← calls] at isCall
        exact carried isCall

/-- A release leaves `opened_at` alone, unless it has taken the stamp that is
there. -/
theorem ReleasesRead.frame (reads : ReleasesRead race moves inQuestion)
    (asked : ∀ index, move = .advance index → ∀ flight ∈ (race.run moves).calls[index]?,
      flight.result = none → inQuestion index) :
    (race.run moves).clock ≤ (race.run (moves ++ [move])).clock ∧
      (race.run (moves ++ [move])).breaker.state = (race.run moves).breaker.state ∧
      (race.run (moves ++ [move])).breaker.cooldownMillis =
        (race.run moves).breaker.cooldownMillis ∧
      ((race.run (moves ++ [move])).breaker.openedAtMillis =
          (race.run moves).breaker.openedAtMillis ∨
        ∃ index, (race.run moves).inFlight index ∧
          race.TakesStamp moves index (race.run moves).breaker.openedAtMillis) := by
  rw [Race.run_append, Race.run_cons, Race.run_nil]
  generalize isNext : (race.run moves).step move = next
  have stepped := (race.run moves).step_stepped move
  rw [isNext] at stepped
  cases stepped with
  | ticked millis => exact ⟨Nat.le_add_right _ _, rfl, rfl, .inl rfl⟩
  | idle other => exact ⟨Nat.le_refl _, rfl, rfl, .inl rfl⟩
  | started operation => exact ⟨Nat.le_refl _, rfl, rfl, .inl rfl⟩
  | @performed γ front back operation claimed effect resume answer after calls answered =>
      have found : (race.run moves).calls[front.length]? =
          some ⟨operation, claimed, .perform effect resume⟩ := by
        simp [calls]
      obtain ⟨phase, releases, hasRead⟩ := reads _ _ (asked _ rfl _ found rfl) found
      obtain ⟨later, moved, -⟩ := releases answer trivial
      obtain ⟨sameState, sameCooldown, stamps⟩ := exec_release moved answered
      refine ⟨Nat.le_refl _, sameState, sameCooldown, stamps.imp_right fun isArmed => ?_⟩
      subst isArmed
      exact ⟨front.length, ⟨_, found, rfl⟩, hasRead⟩

end Histories

end Ferryman.Core
