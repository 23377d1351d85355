import Ferryman.Core.BreakerRuns

/-!
# Calls that race on one breaker

Any number of calls are in flight at once. A move lets time pass, starts a
call, or lets one call perform its next atomic operation.
-/

set_option autoImplicit false

namespace Ferryman.Core

inductive Operation where
  | tryAcquire
  | recordSuccess (admission : Admission)
  | recordFailure (admission : Admission)
  | release (admission : Admission)
deriving DecidableEq

def Operation.isRelease : Operation → Bool
  | .release _ => true
  | _ => false

def Operation.program (publishes : Bool) : Operation → Program Atomic (Option Admission)
  | .tryAcquire => Breaker.tryAcquire publishes
  | .recordSuccess admission => do
      Breaker.recordSuccess publishes admission
      pure none
  | .recordFailure admission => do
      Breaker.recordFailure publishes admission
      pure none
  | .release admission => do
      Breaker.release admission
      pure none

/-- A started call: what is left of it, and the clock reading with which it
claimed the probe slot, once it has. -/
structure Flight : Type 1 where
  operation : Operation
  claimed : Option Nat
  program : Program Atomic (Option Admission)

inductive Happening where
  | handedOut (admission : Admission) (claimed : Option Nat)
  | closed
deriving DecidableEq

structure Race : Type 1 where
  clock : Nat
  breaker : Breaker
  calls : List Flight := []
  log : List Happening := []

inductive Move where
  | tick (millis : Nat)
  | start (operation : Operation)
  | advance (call : Nat)
deriving DecidableEq

def Move.startsRelease : Move → Bool
  | .start operation => operation.isRelease
  | _ => false

/-- A successful compare-exchange of the stamp claims the slot. -/
def recallClaim : {β : Type} → Option Nat → Atomic β → β → Option Nat
  | _, _, .casOpenedAt _ new, true => some new
  | _, claimed, _, _ => claimed

def observeClosing (before after : Breaker) : List Happening :=
  if before.state ≠ .closed ∧ after.state = .closed then [.closed] else []

def observeHandOut (flight : Flight) : List Happening :=
  match flight.program with
  | .done (some admission) => [.handedOut admission flight.claimed]
  | _ => []

namespace Race

def perform (race : Race) (index : Nat) (flight : Flight) : Race :=
  match flight.program with
  | .done _ => race
  | .perform effect next =>
      let (answer, after) := Atomic.exec race.clock effect race.breaker
      let moved := { flight with
        claimed := recallClaim flight.claimed effect answer
        program := next answer }
      { race with
        breaker := after
        calls := race.calls.set index moved
        log := observeHandOut moved ++ observeClosing race.breaker after ++ race.log }

def step (race : Race) : Move → Race
  | .tick millis => { race with clock := race.clock + millis }
  | .start operation =>
      { race with
        calls := race.calls ++ [⟨operation, none, operation.program race.breaker.published⟩] }
  | .advance index =>
      match race.calls[index]? with
      | none => race
      | some flight => race.perform index flight

def run (race : Race) (moves : List Move) : Race := moves.foldl step race

end Race

/-! ## Claims that matter -/

def Flight.pendingClaim (flight : Flight) : List Nat :=
  match flight.program with
  | .done _ => []
  | .perform _ _ => flight.claimed.toList

def sinceClosed (log : List Happening) : List Happening := log.takeWhile (· ≠ .closed)

def probeClaims (log : List Happening) : List Nat :=
  log.filterMap fun
    | .handedOut .probe claimed => claimed
    | _ => none

def Race.liveClaims (race : Race) : List Nat :=
  race.calls.flatMap Flight.pendingClaim ++ probeClaims (sinceClosed race.log)

def nextStamp : Program Atomic (Option Admission) → Option Nat
  | .perform (.storeOpenedAt millis) _ => some millis
  | _ => none

/-- The move does not store a stamp that is older than a live claim. -/
def Race.Fresh (race : Race) : Move → Prop
  | .advance index =>
      ∀ flight ∈ race.calls[index]?, ∀ stamp ∈ nextStamp flight.program,
        ∀ claim ∈ race.liveClaims, claim ≤ stamp
  | _ => True

instance (race : Race) : DecidablePred race.Fresh
  | .advance index => inferInstanceAs (Decidable (∀ flight ∈ race.calls[index]?, _))
  | .tick _ | .start _ => isTrue trivial

def Race.FreshRun : Race → List Move → Prop
  | _, [] => True
  | race, move :: rest => race.Fresh move ∧ (race.step move).FreshRun rest

instance Race.decidableFreshRun : (race : Race) → DecidablePred race.FreshRun
  | _, [] => isTrue trivial
  | race, move :: rest =>
      have := decidableFreshRun (race.step move) rest
      inferInstanceAs (Decidable (race.Fresh move ∧ _))

end Ferryman.Core
