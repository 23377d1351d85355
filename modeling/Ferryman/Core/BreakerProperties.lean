import Ferryman.Core.Breaker

/-! Closed forms of the breaker operations when nothing runs in between: one
equation per operation, which later proofs use instead of the programs. -/

set_option autoImplicit false

namespace Ferryman.Core.Breaker

open Program

def publish (b : Breaker) : Breaker :=
  if b.published then
    { b with circuitGauge := some b.state, aliveGauge := some (b.state = .closed) }
  else b

section Publish

variable (b : Breaker)

@[simp] theorem publish_state : b.publish.state = b.state := by
  unfold publish; split <;> rfl

@[simp] theorem publish_consecutiveFailures :
    b.publish.consecutiveFailures = b.consecutiveFailures := by
  unfold publish; split <;> rfl

@[simp] theorem publish_openedAtMillis : b.publish.openedAtMillis = b.openedAtMillis := by
  unfold publish; split <;> rfl

@[simp] theorem publish_rearmedAtMillis : b.publish.rearmedAtMillis = b.rearmedAtMillis := by
  unfold publish; split <;> rfl

@[simp] theorem publish_failureThreshold :
    b.publish.failureThreshold = b.failureThreshold := by
  unfold publish; split <;> rfl

@[simp] theorem publish_cooldownMillis : b.publish.cooldownMillis = b.cooldownMillis := by
  unfold publish; split <;> rfl

end Publish

theorem run_setGauges (now : Nat) (b : Breaker) :
    (setGauges b.published).run (Atomic.exec now) b = ((), b.publish) := by
  cases shown : b.published with
  | false => simp [setGauges, publish, shown]
  | true =>
      simp only [setGauges, publish, shown, Atomic.exec, if_true, run_bind, run_lift]
      rfl

theorem run_transition (now : Nat) (b : Breaker) (source target : CircuitState) :
    (transition b.published source target).run (Atomic.exec now) b =
      if b.state = source then (true, { b with state := target }.publish) else (false, b) := by
  have gauges := run_setGauges now { b with state := target }
  have same : ({ b with state := target } : Breaker).published = b.published := rfl
  rw [same] at gauges
  by_cases matched : b.state = source <;> simp [transition, Atomic.exec, matched, gauges]

theorem run_claimProbeSlot (now : Nat) (b : Breaker) :
    claimProbeSlot.run (Atomic.exec now) b =
      if now - b.openedAtMillis < b.cooldownMillis then (false, b)
      else (true, { b with openedAtMillis := now }) := by
  by_cases early : now - b.openedAtMillis < b.cooldownMillis <;>
    simp [claimProbeSlot, Atomic.exec, early]

theorem run_tryAcquire (now : Nat) (b : Breaker) :
    (tryAcquire b.published).run (Atomic.exec now) b =
      match b.state with
      | .closed => (some .normal, b)
      | .open =>
          if now - b.openedAtMillis < b.cooldownMillis then (none, b)
          else (some .probe, { b with openedAtMillis := now, state := .halfOpen }.publish)
      | .halfOpen =>
          if now - b.openedAtMillis < b.cooldownMillis then (none, b)
          else (some .probe, { b with openedAtMillis := now }) := by
  cases current : b.state with
  | closed => simp [tryAcquire, Atomic.exec, current]
  | halfOpen =>
      by_cases early : now - b.openedAtMillis < b.cooldownMillis <;>
        simp [tryAcquire, Atomic.exec, current, run_claimProbeSlot, early]
  | «open» =>
      have moved := run_transition now { b with openedAtMillis := now } .open .halfOpen
      have same : ({ b with openedAtMillis := now } : Breaker).published = b.published := rfl
      rw [same] at moved
      simp only [current, if_true] at moved
      by_cases early : now - b.openedAtMillis < b.cooldownMillis <;>
        simp [tryAcquire, Atomic.exec, current, run_claimProbeSlot, early, moved]

theorem run_release (now : Nat) (b : Breaker) (admission : Admission) :
    (release admission).run (Atomic.exec now) b =
      if admission = .probe ∧ b.state = .halfOpen ∧
          (b.rearmedAtMillis = u64Max ∨ b.cooldownMillis ≤ now - b.rearmedAtMillis) then
        ((), { b with rearmedAtMillis := now, openedAtMillis := now - b.cooldownMillis })
      else ((), b) := by
  cases admission with
  | normal => simp [release]
  | probe =>
      by_cases isHalfOpen : b.state = .halfOpen
      · by_cases never : b.rearmedAtMillis = u64Max <;>
          by_cases early : now - b.rearmedAtMillis < b.cooldownMillis <;>
            simp [release, Atomic.exec, isHalfOpen, never, early]
      · simp [release, Atomic.exec, isHalfOpen]

theorem run_recordSuccess (now : Nat) (b : Breaker) (admission : Admission) :
    (recordSuccess b.published admission).run (Atomic.exec now) b =
      match admission, b.state with
      | .probe, .closed => ((), b)
      | .probe, _ => ((), { b with consecutiveFailures := 0, state := .closed }.publish)
      | .normal, .closed => ((), { b with consecutiveFailures := 0 })
      | .normal, _ => ((), b) := by
  have gauges := run_setGauges now { b with consecutiveFailures := 0, state := .closed }
  have same : ({ b with consecutiveFailures := 0, state := .closed } : Breaker).published =
    b.published := rfl
  rw [same] at gauges
  cases admission <;> cases current : b.state <;>
    simp [recordSuccess, Atomic.exec, current, gauges]

theorem run_recordFailure (now : Nat) (b : Breaker) (admission : Admission) :
    (recordFailure b.published admission).run (Atomic.exec now) b =
      match admission, b.state with
      | .probe, .halfOpen => ((), { b with openedAtMillis := now, state := .open }.publish)
      | _, .closed =>
          let failures := (b.consecutiveFailures + 1) % 2 ^ 32
          if failures < b.failureThreshold then ((), { b with consecutiveFailures := failures })
          else ((), { b with
            consecutiveFailures := failures, openedAtMillis := now, state := .open }.publish)
      | _, _ => ((), b) := by
  cases current : b.state with
  | «open» => cases admission <;> simp [recordFailure, Atomic.exec, current]
  | halfOpen =>
      have reopened := run_transition now { b with openedAtMillis := now } .halfOpen .open
      have same : ({ b with openedAtMillis := now } : Breaker).published = b.published := rfl
      rw [same] at reopened
      simp only [current, if_true] at reopened
      cases admission <;> simp [recordFailure, Atomic.exec, current, reopened]
  | closed =>
      have tripped := run_transition now { b with
        consecutiveFailures := (b.consecutiveFailures + 1) % 2 ^ 32,
        openedAtMillis := now } .closed .open
      have same : ({ b with
        consecutiveFailures := (b.consecutiveFailures + 1) % 2 ^ 32,
        openedAtMillis := now } : Breaker).published = b.published := rfl
      rw [same] at tripped
      simp only [current, if_true] at tripped
      cases admission <;>
        by_cases below : (b.consecutiveFailures + 1) % 2 ^ 32 < b.failureThreshold <;>
          simp [recordFailure, Atomic.exec, current, tripped, below, -Nat.reducePow]

theorem validate_eq_ok {config : BreakerConfig} :
    config.validate = .ok () ↔
      0 < config.failureThreshold.toNat ∧ 10 ^ 6 ≤ config.cooldown.nanos := by
  have threshold : config.failureThreshold < 1 ↔ ¬0 < config.failureThreshold.toNat := by
    rw [UInt32.lt_iff_toNat_lt]
    simp
  by_cases positive : 0 < config.failureThreshold.toNat <;>
    simp [BreakerConfig.validate, threshold, positive]

@[simp] theorem unchecked_eq (name : Option Bytes) (gauges : Bool) (cooldown : Duration)
    (failureThreshold : UInt32) :
    unchecked name gauges cooldown failureThreshold = {
      name := name
      gauges := gauges
      state := .closed
      consecutiveFailures := 0
      openedAtMillis := 0
      rearmedAtMillis := u64Max
      failureThreshold := failureThreshold.toNat
      cooldownMillis := cooldown.asMillis % 2 ^ 64
    } := rfl

end Ferryman.Core.Breaker
