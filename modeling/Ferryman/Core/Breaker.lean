import Ferryman.Core.Error
import Ferryman.Lib.Numeral
import Ferryman.Lib.Program

/-!
# The circuit breaker

`breaker.rs`, one effect per atomic operation, clock reading and gauge write.
Times are milliseconds since the process-wide base. Log lines are not part of
the model.
-/

set_option autoImplicit false

namespace Ferryman.Core

inductive CircuitState where
  | closed
  | «open»
  | halfOpen
deriving DecidableEq, Repr

inductive Admission where
  | normal
  | probe
deriving DecidableEq, Repr

/-- A duration in nanoseconds: at most `u64::MAX` seconds and 999 999 999 ns. -/
structure Duration where
  nanos : Nat
  bounded : nanos < 2 ^ 64 * 10 ^ 9
deriving DecidableEq

namespace Duration

def fromSecs (secs : UInt64) : Duration where
  nanos := secs.toNat * 10 ^ 9
  bounded := Nat.mul_lt_mul_of_pos_right secs.toNat_lt (by decide)

def asMillis (duration : Duration) : Nat := duration.nanos / 10 ^ 6

def asSecs (duration : Duration) : Nat := duration.nanos / 10 ^ 9

def fraction : Nat → Nat → Bytes
  | 0, _ => []
  | places + 1, part =>
      if part = 0 then []
      else digitByte (part / 10 ^ places) :: fraction places (part % 10 ^ places)

def showDecimal (whole places part : Nat) (unit : Bytes) : Bytes :=
  showNumber 10 whole ++
    (if part = 0 then [] else Byte.dot :: fraction places part) ++ unit

def debug (duration : Duration) : Bytes :=
  let nanos := duration.nanos
  if 10 ^ 9 ≤ nanos then showDecimal (nanos / 10 ^ 9) 9 (nanos % 10 ^ 9) (ascii "s")
  else if 10 ^ 6 ≤ nanos then showDecimal (nanos / 10 ^ 6) 6 (nanos % 10 ^ 6) (ascii "ms")
  else if 10 ^ 3 ≤ nanos then
    -- the micro sign takes two bytes
    showDecimal (nanos / 10 ^ 3) 3 (nanos % 10 ^ 3) (0xC2 :: 0xB5 :: ascii "s")
  else showDecimal nanos 0 0 (ascii "ns")

end Duration

structure BreakerConfig where
  failureThreshold : UInt32 := 3
  cooldown : Duration := .fromSecs 30
  name : Option Bytes := none
deriving DecidableEq

def BreakerConfig.validate (config : BreakerConfig) : Except Error Unit :=
  if config.failureThreshold < 1 then
    .error (.invalidBreakerConfig (ascii "failure_threshold must be >= 1, got 0") none)
  else if config.cooldown.nanos < 10 ^ 6 then
    .error (.invalidBreakerConfig
      (ascii "cooldown must be >= 1ms, got " ++ config.cooldown.debug) none)
  else .ok ()

/-- The breaker's atomics, its immutable labels and the gauge values last
written for it. -/
structure Breaker where
  name : Option Bytes
  gauges : Bool
  state : CircuitState
  consecutiveFailures : Nat
  openedAtMillis : Nat
  rearmedAtMillis : Nat
  failureThreshold : Nat
  cooldownMillis : Nat
  circuitGauge : Option CircuitState := none
  aliveGauge : Option Bool := none
deriving DecidableEq

def u64Max : Nat := 2 ^ 64 - 1

inductive Atomic : Type → Type where
  | loadState : Atomic CircuitState
  | casState (expected new : CircuitState) : Atomic Bool
  | swapState (new : CircuitState) : Atomic CircuitState
  | loadOpenedAt : Atomic Nat
  | storeOpenedAt (millis : Nat) : Atomic Unit
  | casOpenedAt (expected new : Nat) : Atomic Bool
  | loadRearmedAt : Atomic Nat
  | casRearmedAt (expected new : Nat) : Atomic Bool
  | storeFailures (count : Nat) : Atomic Unit
  | fetchAddFailures : Atomic Nat
  | loadThreshold : Atomic Nat
  | storeThreshold (threshold : Nat) : Atomic Unit
  | loadCooldown : Atomic Nat
  | storeCooldown (millis : Nat) : Atomic Unit
  | now : Atomic Nat
  | setCircuitGauge (state : CircuitState) : Atomic Unit
  | setAliveGauge (alive : Bool) : Atomic Unit

/-- The effect of one step when the clock shows `clock`. A failed
compare-exchange changes nothing; `fetch_add` wraps at 32 bits. -/
def Atomic.exec (clock : Nat) : Handler Atomic Breaker
  | _, .loadState, b => (b.state, b)
  | _, .casState expected new, b =>
      if b.state = expected then (true, { b with state := new }) else (false, b)
  | _, .swapState new, b => (b.state, { b with state := new })
  | _, .loadOpenedAt, b => (b.openedAtMillis, b)
  | _, .storeOpenedAt millis, b => ((), { b with openedAtMillis := millis })
  | _, .casOpenedAt expected new, b =>
      if b.openedAtMillis = expected then (true, { b with openedAtMillis := new }) else (false, b)
  | _, .loadRearmedAt, b => (b.rearmedAtMillis, b)
  | _, .casRearmedAt expected new, b =>
      if b.rearmedAtMillis = expected then (true, { b with rearmedAtMillis := new }) else (false, b)
  | _, .storeFailures count, b => ((), { b with consecutiveFailures := count })
  | _, .fetchAddFailures, b =>
      (b.consecutiveFailures,
        { b with consecutiveFailures := (b.consecutiveFailures + 1) % 2 ^ 32 })
  | _, .loadThreshold, b => (b.failureThreshold, b)
  | _, .storeThreshold threshold, b => ((), { b with failureThreshold := threshold })
  | _, .loadCooldown, b => (b.cooldownMillis, b)
  | _, .storeCooldown millis, b => ((), { b with cooldownMillis := millis })
  | _, .now, b => (clock, b)
  | _, .setCircuitGauge state, b => ((), { b with circuitGauge := some state })
  | _, .setAliveGauge alive, b => ((), { b with aliveGauge := some alive })

namespace Breaker

open Program

def published (b : Breaker) : Bool := b.gauges && b.name.isSome

/-! ## Operations

`publishes` is `published` of the breaker the operation runs on. -/

section Operations

variable (publishes : Bool)

def setGauges : Program Atomic Unit := do
  if publishes then
    let state ← lift .loadState
    lift (.setCircuitGauge state)
    lift (.setAliveGauge (state = .closed))
  else pure ()

def transition (source target : CircuitState) : Program Atomic Bool := do
  let ok ← lift (.casState source target)
  if ok then
    setGauges publishes
    pure true
  else pure false

/-- If a full cooldown has passed since `opened_at`, restamp it to now. -/
def claimProbeSlot : Program Atomic Bool := do
  let openedAt ← lift .loadOpenedAt
  let now ← lift .now
  let cooldown ← lift .loadCooldown
  if now - openedAt < cooldown then pure false
  else lift (.casOpenedAt openedAt now)

def tryAcquire : Program Atomic (Option Admission) := do
  match ← lift .loadState with
  | .closed => pure (some .normal)
  | .open =>
      if !(← claimProbeSlot) then pure none
      -- lost when somebody else has moved the circuit out of Open meanwhile
      else if ← transition publishes .open .halfOpen then pure (some .probe)
      else pure (some .normal)
  | .halfOpen =>
      if ← claimProbeSlot then pure (some .probe) else pure none

def release (admission : Admission) : Program Atomic Unit := do
  if admission ≠ .probe then pure ()
  else
    let cooldown ← lift .loadCooldown
    let now ← lift .now
    let stamp ← lift .loadOpenedAt
    let state ← lift .loadState
    if state ≠ .halfOpen then pure ()
    else
      let last ← lift .loadRearmedAt
      if last ≠ u64Max ∧ now - last < cooldown then pure ()
      else
        let rearmed ← lift (.casRearmedAt last now)
        if !rearmed then pure ()
        else
          let _ ← lift (.casOpenedAt stamp (now - cooldown))
          pure ()

def recordSuccess (admission : Admission) : Program Atomic Unit := do
  match admission with
  | .probe =>
      if (← lift .loadState) = .closed then pure ()
      else
        lift (.storeFailures 0)
        let prev ← lift (.swapState .closed)
        if prev ≠ .closed then setGauges publishes else pure ()
  | .normal =>
      if (← lift .loadState) = .closed then lift (.storeFailures 0) else pure ()

def recordFailure (admission : Admission) : Program Atomic Unit := do
  match admission, ← lift .loadState with
  | .probe, .halfOpen =>
      -- stamped before Open is published
      let now ← lift .now
      lift (.storeOpenedAt now)
      let _ ← transition publishes .halfOpen .open
      pure ()
  | .probe, .open => pure ()
  | _, .closed =>
      let failures ← lift .fetchAddFailures
      let threshold ← lift .loadThreshold
      if (failures + 1) % 2 ^ 32 < threshold then pure ()
      else
        let now ← lift .now
        lift (.storeOpenedAt now)
        let _ ← transition publishes .closed .open
        pure ()
  | .normal, _ => pure ()

end Operations

def reconfigure (cooldown : Duration) (failureThreshold : UInt32) : Program Atomic Unit := do
  lift (.storeCooldown (cooldown.asMillis % 2 ^ 64))
  lift (.storeThreshold failureThreshold.toNat)

def unchecked (name : Option Bytes) (gauges : Bool) (cooldown : Duration)
    (failureThreshold : UInt32) : Breaker :=
  let initial : Breaker := {
    name := name
    gauges := gauges
    state := .closed
    consecutiveFailures := 0
    openedAtMillis := 0
    rearmedAtMillis := u64Max
    failureThreshold := 0
    cooldownMillis := 0
  }
  ((reconfigure cooldown failureThreshold).run (Atomic.exec 0) initial).2

def new (config : BreakerConfig) : Except Error Breaker := do
  config.validate
  pure (unchecked config.name false config.cooldown config.failureThreshold)

def forUpstream (name : Bytes) (config : BreakerConfig) : Except Error Breaker := do
  config.validate.mapError fun
    | .invalidBreakerConfig reason _ => .invalidBreakerConfig reason (some name)
    | error => error
  pure (unchecked (some name) true config.cooldown config.failureThreshold)

end Breaker

end Ferryman.Core
