import Ferryman.Core.BreakerProperties
import Ferryman.Lib.Trace

/-!
# Sequential runs of a breaker

Calls follow one another, each with its own clock reading. The trace of a run
keeps the breaker before and after every call.
-/

set_option autoImplicit false

namespace Ferryman.Core

/-- What a caller reports with: the kind of its admission and, when
`try_acquire` handed it out, the position of that call in the run. A health
check makes its own. -/
structure Ticket where
  admission : Admission
  issuedAt : Option Nat := none
deriving DecidableEq

inductive Call where
  | tryAcquire
  | recordSuccess (ticket : Ticket)
  | recordFailure (ticket : Ticket)
  | release (ticket : Ticket)
  | reconfigure (cooldown : Duration) (failureThreshold : UInt32)
deriving DecidableEq

def Call.isReconfigure : Call → Bool
  | .reconfigure _ _ => true
  | _ => false

def Call.isQuiet : Call → Bool
  | .tryAcquire | .release _ => true
  | .recordSuccess ticket => ticket.admission = .probe
  | _ => false

structure Event where
  clock : Nat
  call : Call
deriving DecidableEq

abbrev BreakerStep := Step Breaker Event (Option Admission)

namespace Breaker

/-- The breaker that one of the two public constructors makes of a config. -/
def Created (config : BreakerConfig) (b : Breaker) : Prop :=
  Breaker.new config = .ok b ∨ ∃ name, Breaker.forUpstream name config = .ok b

def apply (b : Breaker) (event : Event) : Option Admission × Breaker :=
  let handler : Handler Atomic Breaker := Atomic.exec event.clock
  match event.call with
  | .tryAcquire => (tryAcquire b.published).run handler b
  | .recordSuccess ticket => (none, ((recordSuccess b.published ticket.admission).run handler b).2)
  | .recordFailure ticket => (none, ((recordFailure b.published ticket.admission).run handler b).2)
  | .release ticket => (none, ((release ticket.admission).run handler b).2)
  | .reconfigure cooldown threshold => (none, ((reconfigure cooldown threshold).run handler b).2)

def steps (b : Breaker) (events : List Event) : List BreakerStep := trace apply b events

end Breaker

namespace BreakerStep

def tookFailure (step : BreakerStep) : Bool :=
  match step.input.call with
  | .recordFailure _ => true
  | _ => false

def tripped (step : BreakerStep) : Bool :=
  step.before.state = .closed && step.after.state = .open

def closedCircuit (step : BreakerStep) : Bool :=
  step.before.state ≠ .closed && step.after.state = .closed

def tookSuccess (step : BreakerStep) : Bool :=
  match step.input.call with
  | .recordSuccess ticket => ticket.admission = .normal && step.before.state = .closed
  | _ => false

def reset (step : BreakerStep) : Bool := step.closedCircuit || step.tookSuccess

end BreakerStep

def failuresSinceReset (history : List BreakerStep) : Nat :=
  (history.reverse.takeWhile fun step => !step.reset).countP BreakerStep.tookFailure

end Ferryman.Core
