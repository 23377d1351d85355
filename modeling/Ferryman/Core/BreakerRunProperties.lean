import Ferryman.Core.BreakerRuns

set_option autoImplicit false

namespace Ferryman.Core

open Breaker

/-! ## One call -/

section Calls

variable (b : Breaker) (clock : Nat) (ticket : Ticket)

theorem apply_tryAcquire :
    b.apply ⟨clock, .tryAcquire⟩ =
      match b.state with
      | .closed => (some .normal, b)
      | .open =>
          if clock - b.openedAtMillis < b.cooldownMillis then (none, b)
          else (some .probe, { b with openedAtMillis := clock, state := .halfOpen }.publish)
      | .halfOpen =>
          if clock - b.openedAtMillis < b.cooldownMillis then (none, b)
          else (some .probe, { b with openedAtMillis := clock }) :=
  run_tryAcquire clock b

theorem apply_release :
    (b.apply ⟨clock, .release ticket⟩).2.state = b.state ∧
      (b.apply ⟨clock, .release ticket⟩).2.consecutiveFailures = b.consecutiveFailures ∧
      (b.apply ⟨clock, .release ticket⟩).2.failureThreshold = b.failureThreshold := by
  simp only [apply, run_release]
  split <;> exact ⟨rfl, rfl, rfl⟩

theorem apply_recordSuccess :
    b.apply ⟨clock, .recordSuccess ticket⟩ =
      (none, match ticket.admission, b.state with
        | .probe, .closed => b
        | .probe, _ => { b with consecutiveFailures := 0, state := .closed }.publish
        | .normal, .closed => { b with consecutiveFailures := 0 }
        | .normal, _ => b) := by
  simp only [apply, run_recordSuccess]
  cases ticket.admission <;> cases b.state <;> rfl

theorem apply_recordFailure :
    b.apply ⟨clock, .recordFailure ticket⟩ =
      (none, match ticket.admission, b.state with
        | .probe, .halfOpen => { b with openedAtMillis := clock, state := .open }.publish
        | _, .closed =>
            let failures := (b.consecutiveFailures + 1) % 2 ^ 32
            if failures < b.failureThreshold then { b with consecutiveFailures := failures }
            else { b with
              consecutiveFailures := failures, openedAtMillis := clock, state := .open }.publish
        | _, _ => b) := by
  simp only [apply, run_recordFailure]
  cases ticket.admission <;> cases b.state <;> simp only [] <;> split <;> rfl

theorem recordFailure_closed (wasClosed : b.state = .closed)
    (noWrap : b.consecutiveFailures + 1 < 2 ^ 32) :
    (b.apply ⟨clock, .recordFailure ticket⟩).2.consecutiveFailures = b.consecutiveFailures + 1 ∧
      (b.apply ⟨clock, .recordFailure ticket⟩).2.failureThreshold = b.failureThreshold ∧
      (b.apply ⟨clock, .recordFailure ticket⟩).2.state =
        if b.consecutiveFailures + 1 < b.failureThreshold then .closed else .open := by
  have counted : (b.consecutiveFailures + 1) % 2 ^ 32 = b.consecutiveFailures + 1 :=
    Nat.mod_eq_of_lt noWrap
  simp only [apply_recordFailure, wasClosed, counted]
  cases ticket.admission <;>
    by_cases room : b.consecutiveFailures + 1 < b.failureThreshold <;> simp [room]

theorem recordFailure_late (notClosed : b.state ≠ .closed) :
    (b.apply ⟨clock, .recordFailure ticket⟩).2.state ≠ .closed ∧
      (b.apply ⟨clock, .recordFailure ticket⟩).2.consecutiveFailures = b.consecutiveFailures ∧
      (b.apply ⟨clock, .recordFailure ticket⟩).2.failureThreshold = b.failureThreshold := by
  rw [apply_recordFailure]
  cases ticket.admission <;> cases current : b.state <;> simp_all

theorem apply_closed (event : Event) (wasClosed : b.state = .closed)
    (notFailure : BreakerStep.tookFailure (Step.take apply b event) = false) :
    (b.apply event).2.state = .closed := by
  obtain ⟨clock, call⟩ := event
  cases call with
  | tryAcquire => simp [apply_tryAcquire, wasClosed]
  | recordSuccess ticket =>
      rw [apply_recordSuccess]
      cases ticket.admission <;> simp [wasClosed]
  | recordFailure ticket => simp [BreakerStep.tookFailure, Step.take] at notFailure
  | release ticket => exact (apply_release b clock ticket).1.trans wasClosed
  | reconfigure cooldown threshold => exact wasClosed

end Calls

namespace BreakerStep

theorem tripped_eq_true {step : BreakerStep} :
    step.tripped = true ↔ step.before.state = .closed ∧ step.after.state = .open := by
  simp [tripped]

theorem call_of_tookFailure {b : Breaker} {event : Event}
    (taken : tookFailure (Step.take apply b event) = true) :
    ∃ clock ticket, event = ⟨clock, .recordFailure ticket⟩ := by
  obtain ⟨clock, call⟩ := event
  cases call with
  | recordFailure ticket => exact ⟨clock, ticket, rfl⟩
  | _ => simp [tookFailure, Step.take] at taken

theorem notFailure_of_isQuiet {step : BreakerStep} (quiet : step.input.call.isQuiet = true) :
    step.tookFailure = false := by
  cases called : step.input.call <;> simp_all [Call.isQuiet, tookFailure]

theorem notSuccess_of_isQuiet {step : BreakerStep} (quiet : step.input.call.isQuiet = true) :
    step.tookSuccess = false := by
  cases called : step.input.call <;> simp_all [Call.isQuiet, tookSuccess]

end BreakerStep

/-! ## Counting failures -/

theorem failuresSinceReset_append (history : List BreakerStep) (step : BreakerStep) :
    failuresSinceReset (history ++ [step]) =
      if step.reset then 0
      else failuresSinceReset history + if step.tookFailure then 1 else 0 := by
  cases isReset : step.reset <;>
    simp [failuresSinceReset, isReset, List.countP_cons]

/-- While the circuit is closed the counter is the number of failures since the
last reset, and below the threshold; once tripped it stays at the threshold. -/
structure TripInvariant (threshold : Nat) (history : List BreakerStep) (b : Breaker) : Prop where
  configured : b.failureThreshold = threshold
  counted : b.state = .closed →
    b.consecutiveFailures = failuresSinceReset history ∧ b.consecutiveFailures < threshold
  spent : b.state ≠ .closed →
    b.consecutiveFailures = threshold ∧ threshold ≤ failuresSinceReset history

namespace TripInvariant

variable {threshold : Nat} {history : List BreakerStep} {b : Breaker}

theorem idle {after : Breaker} {event : Event} {output : Option Admission}
    (holds : TripInvariant threshold history b)
    (notSuccess : BreakerStep.tookSuccess ⟨b, event, output, after⟩ = false)
    (sameSide : after.state = .closed ↔ b.state = .closed)
    (sameCount : after.consecutiveFailures = b.consecutiveFailures)
    (sameThreshold : after.failureThreshold = b.failureThreshold)
    (late : BreakerStep.tookFailure ⟨b, event, output, after⟩ = true → b.state ≠ .closed) :
    TripInvariant threshold (history ++ [⟨b, event, output, after⟩]) after := by
  have notReset : BreakerStep.reset ⟨b, event, output, after⟩ = false := by
    simp [BreakerStep.reset, BreakerStep.closedCircuit, notSuccess, sameSide]
  refine ⟨sameThreshold.trans holds.configured, ?_, ?_⟩
  · intro isClosed
    have wasClosed := sameSide.mp isClosed
    have notFailure : BreakerStep.tookFailure ⟨b, event, output, after⟩ = false := by
      by_contra taken
      exact late (Bool.eq_true_of_not_eq_false taken) wasClosed
    rw [failuresSinceReset_append, sameCount]
    simpa [notReset, notFailure] using holds.counted wasClosed
  · intro notClosed
    have spent := holds.spent (fun wasClosed => notClosed (sameSide.mpr wasClosed))
    rw [failuresSinceReset_append, sameCount]
    simp only [notReset]
    exact ⟨spent.1, spent.2.trans (Nat.le_add_right _ _)⟩

theorem initial (name : Option Bytes) (gauges : Bool) (cooldown : Duration)
    (failureThreshold : UInt32) (positive : 0 < failureThreshold.toNat) :
    TripInvariant failureThreshold.toNat []
      (unchecked name gauges cooldown failureThreshold) where
  configured := rfl
  counted := fun _ => ⟨rfl, positive⟩
  spent := fun notClosed => absurd rfl notClosed

theorem keeps_tryAcquire (clock : Nat) (holds : TripInvariant threshold history b) :
    TripInvariant threshold (history ++ [Step.take apply b ⟨clock, .tryAcquire⟩])
      (b.apply ⟨clock, .tryAcquire⟩).2 := by
  have same : ((b.apply ⟨clock, .tryAcquire⟩).2.state = .closed ↔ b.state = .closed) ∧
      (b.apply ⟨clock, .tryAcquire⟩).2.consecutiveFailures = b.consecutiveFailures ∧
      (b.apply ⟨clock, .tryAcquire⟩).2.failureThreshold = b.failureThreshold := by
    rw [apply_tryAcquire]
    cases current : b.state with
    | closed => simp [current]
    | «open» | halfOpen => simp only [] ; split <;> simp [current]
  exact idle holds rfl same.1 same.2.1 same.2.2 (by simp [BreakerStep.tookFailure])

theorem keeps_release (clock : Nat) (ticket : Ticket)
    (holds : TripInvariant threshold history b) :
    TripInvariant threshold (history ++ [Step.take apply b ⟨clock, .release ticket⟩])
      (b.apply ⟨clock, .release ticket⟩).2 := by
  obtain ⟨sameState, sameCount, sameThreshold⟩ := apply_release b clock ticket
  exact idle holds rfl (by rw [sameState]) sameCount sameThreshold
    (by simp [BreakerStep.tookFailure])

theorem keeps_recordSuccess (clock : Nat) (ticket : Ticket) (positive : 0 < threshold)
    (holds : TripInvariant threshold history b) :
    TripInvariant threshold (history ++ [Step.take apply b ⟨clock, .recordSuccess ticket⟩])
      (b.apply ⟨clock, .recordSuccess ticket⟩).2 := by
  obtain ⟨admission, issuedAt⟩ := ticket
  -- either the call changes nothing, or it leaves a closed circuit with count 0
  have outcome : ((b.apply ⟨clock, .recordSuccess ⟨admission, issuedAt⟩⟩).2 = b ∧
        ¬(admission = .normal ∧ b.state = .closed)) ∨
      ((b.apply ⟨clock, .recordSuccess ⟨admission, issuedAt⟩⟩).2.state = .closed ∧
        (b.apply ⟨clock, .recordSuccess ⟨admission, issuedAt⟩⟩).2.consecutiveFailures = 0 ∧
        (b.apply ⟨clock, .recordSuccess ⟨admission, issuedAt⟩⟩).2.failureThreshold =
          b.failureThreshold ∧
        BreakerStep.reset (Step.take apply b ⟨clock, .recordSuccess ⟨admission, issuedAt⟩⟩) =
          true) := by
    simp only [BreakerStep.reset, BreakerStep.closedCircuit, BreakerStep.tookSuccess, Step.take,
      apply_recordSuccess]
    cases admission <;> cases current : b.state <;> simp [current]
  cases outcome with
  | inl kept =>
      obtain ⟨unchanged, notSuccess⟩ := kept
      refine idle holds ?_ (by rw [unchanged]) (by rw [unchanged]) (by rw [unchanged])
        (by simp [BreakerStep.tookFailure])
      simpa [BreakerStep.tookSuccess] using notSuccess
  | inr reset =>
      obtain ⟨isClosed, isZero, sameThreshold, isReset⟩ := reset
      refine ⟨sameThreshold.trans holds.configured, fun _ => ?_, fun notClosed => ?_⟩
      · rw [failuresSinceReset_append, isReset, isZero]
        exact ⟨rfl, positive⟩
      · exact absurd isClosed notClosed

theorem keeps_recordFailure (clock : Nat) (ticket : Ticket) (bounded : threshold < 2 ^ 32)
    (holds : TripInvariant threshold history b) :
    TripInvariant threshold (history ++ [Step.take apply b ⟨clock, .recordFailure ticket⟩])
      (b.apply ⟨clock, .recordFailure ticket⟩).2 := by
  by_cases wasClosed : b.state = .closed
  · obtain ⟨counted, below⟩ := holds.counted wasClosed
    obtain ⟨count, sameThreshold, state⟩ :=
      recordFailure_closed b clock ticket wasClosed (by omega)
    have extended : failuresSinceReset
        (history ++ [Step.take apply b ⟨clock, .recordFailure ticket⟩]) =
          failuresSinceReset history + 1 := by
      rw [failuresSinceReset_append]
      simp [BreakerStep.reset, BreakerStep.closedCircuit, BreakerStep.tookSuccess,
        BreakerStep.tookFailure, Step.take, wasClosed]
    have configured := holds.configured
    refine ⟨sameThreshold.trans configured, fun isClosed => ?_, fun notClosed => ?_⟩
    · rw [state] at isClosed
      have room : b.consecutiveFailures + 1 < b.failureThreshold := by
        by_contra full
        simp [full] at isClosed
      rw [count, extended]
      omega
    · rw [state] at notClosed
      have full : ¬b.consecutiveFailures + 1 < b.failureThreshold := fun room =>
        notClosed (if_pos room)
      rw [count, extended]
      omega
  · obtain ⟨sameSide, sameCount, sameThreshold⟩ := recordFailure_late b clock ticket wasClosed
    exact idle holds rfl (iff_of_false sameSide wasClosed) sameCount sameThreshold
      (fun _ => wasClosed)

theorem keeps (positive : 0 < threshold) (bounded : threshold < 2 ^ 32) {event : Event}
    (noReload : event.call.isReconfigure = false) (holds : TripInvariant threshold history b) :
    TripInvariant threshold (history ++ [Step.take apply b event]) (b.apply event).2 := by
  obtain ⟨clock, call⟩ := event
  cases call with
  | tryAcquire => exact holds.keeps_tryAcquire clock
  | recordSuccess ticket => exact holds.keeps_recordSuccess clock ticket positive
  | recordFailure ticket => exact holds.keeps_recordFailure clock ticket bounded
  | release ticket => exact holds.keeps_release clock ticket
  | reconfigure cooldown failureThreshold => simp [Call.isReconfigure] at noReload

theorem count_le (holds : TripInvariant threshold history b) :
    b.consecutiveFailures ≤ threshold := by
  by_cases isClosed : b.state = .closed
  · exact (holds.counted isClosed).2.le
  · exact (holds.spent isClosed).1.le

theorem tripped_iff (bounded : threshold < 2 ^ 32) {event : Event}
    (holds : TripInvariant threshold history b) :
    BreakerStep.tripped (Step.take apply b event) = true ↔
      BreakerStep.tookFailure (Step.take apply b event) = true ∧
        failuresSinceReset history + 1 = threshold := by
  have configured := holds.configured
  rw [BreakerStep.tripped_eq_true]
  cases taken : BreakerStep.tookFailure (Step.take apply b event) with
  | false =>
      simp only [reduceCtorEq, false_and, iff_false, not_and]
      intro wasClosed
      simp [Step.take, apply_closed b event wasClosed taken]
  | true =>
      obtain ⟨clock, ticket, rfl⟩ := BreakerStep.call_of_tookFailure taken
      by_cases wasClosed : b.state = .closed
      · obtain ⟨counted, below⟩ := holds.counted wasClosed
        obtain ⟨-, -, state⟩ := recordFailure_closed b clock ticket wasClosed (by omega)
        by_cases room : b.consecutiveFailures + 1 < b.failureThreshold
        · simp only [Step.take, state, wasClosed, room, if_true, reduceCtorEq, and_false, true_and,
            false_iff]
          omega
        · simp only [Step.take, state, wasClosed, room, if_false, and_self, true_and, true_iff]
          omega
      · have spent := (holds.spent wasClosed).2
        simp only [Step.take, wasClosed, false_and, true_and, false_iff]
        omega

end TripInvariant

/-! ## Whole runs -/

theorem created_eq {config : BreakerConfig} {b : Breaker} (created : Created config b) :
    0 < config.failureThreshold.toNat ∧ 10 ^ 6 ≤ config.cooldown.nanos ∧
      ∃ name gauges, b = unchecked name gauges config.cooldown config.failureThreshold := by
  have valid : config.validate = .ok () ∧
      ∃ name gauges, b = unchecked name gauges config.cooldown config.failureThreshold := by
    cases created with
    | inl made =>
        cases checked : config.validate with
        | error => simp [Breaker.new, checked, bind, Except.bind] at made
        | ok =>
            simp only [Breaker.new, checked, bind, Except.bind, pure, Except.pure] at made
            exact ⟨rfl, _, _, (Except.ok.inj made).symm⟩
    | inr named =>
        obtain ⟨name, made⟩ := named
        cases checked : config.validate with
        | error => simp [Breaker.forUpstream, checked, bind, Except.bind, Except.mapError] at made
        | ok =>
            simp only [Breaker.forUpstream, checked, bind, Except.bind, Except.mapError, pure,
              Except.pure] at made
            exact ⟨rfl, _, _, (Except.ok.inj made).symm⟩
  obtain ⟨positive, enough⟩ := validate_eq_ok.mp valid.1
  exact ⟨positive, enough, valid.2⟩

theorem trip_invariant {config : BreakerConfig} {b : Breaker} {events : List Event}
    {past rest : List BreakerStep} {step : BreakerStep}
    (created : Created config b)
    (noReload : ∀ event ∈ events, event.call.isReconfigure = false)
    (run : b.steps events = past ++ step :: rest) :
    TripInvariant config.failureThreshold.toNat past step.before ∧
      step = Step.take apply step.before step.input ∧ step.input ∈ events := by
  obtain ⟨positive, -, name, gauges, rfl⟩ := created_eq created
  have starts := TripInvariant.initial name gauges config.cooldown config.failureThreshold positive
  refine trace_invariant starts ?_ run
  intro past state event member holds
  exact holds.keeps positive config.failureThreshold.toNat_lt (noReload event member)

/-- The circuit goes from closed to open exactly at the failure that is the
threshold-th since the last reset. Nothing else that happens while it is closed
changes the count, and the counter never wraps. -/
theorem trips_at_threshold {config : BreakerConfig} {b : Breaker} {events : List Event}
    {past rest : List BreakerStep} {step : BreakerStep}
    (created : Created config b)
    (noReload : ∀ event ∈ events, event.call.isReconfigure = false)
    (run : b.steps events = past ++ step :: rest) :
    (step.tripped = true ↔
        step.tookFailure = true ∧ failuresSinceReset past + 1 = config.failureThreshold.toNat) ∧
      (step.before.state = .closed → step.input.call.isQuiet = true →
        step.after.consecutiveFailures = step.before.consecutiveFailures ∧
          failuresSinceReset (past ++ [step]) = failuresSinceReset past) ∧
      (step.before.state = .closed →
        step.before.consecutiveFailures = failuresSinceReset past ∧
          step.before.consecutiveFailures + 1 < 2 ^ 32) ∧
      step.after.consecutiveFailures ≤ config.failureThreshold.toNat := by
  obtain ⟨holds, taken, member⟩ := trip_invariant created noReload run
  obtain ⟨positive, -, -⟩ := created_eq created
  have bounded := config.failureThreshold.toNat_lt
  have kept := holds.keeps positive bounded (noReload _ member)
  rw [← taken] at kept
  have after : step.after = (step.before.apply step.input).2 := congrArg Step.after taken
  rw [← after] at kept
  refine ⟨?_, ?_, ?_, kept.count_le⟩
  · rw [taken]
    exact holds.tripped_iff bounded
  · intro wasClosed quiet
    have notFailure : step.tookFailure = false := BreakerStep.notFailure_of_isQuiet quiet
    have isClosed : step.after.state = .closed := by
      rw [after]
      exact apply_closed step.before step.input wasClosed (taken ▸ notFailure)
    have sameHistory : failuresSinceReset (past ++ [step]) = failuresSinceReset past := by
      rw [failuresSinceReset_append]
      simp [BreakerStep.reset, BreakerStep.closedCircuit, wasClosed, notFailure,
        BreakerStep.notSuccess_of_isQuiet quiet]
    refine ⟨?_, sameHistory⟩
    rw [(kept.counted isClosed).1, (holds.counted wasClosed).1, sameHistory]
  · intro wasClosed
    obtain ⟨counted, below⟩ := holds.counted wasClosed
    exact ⟨counted, by omega⟩

def twoFailures : List Event :=
  [⟨0, .tryAcquire⟩, ⟨1, .recordFailure ⟨.normal, some 0⟩⟩, ⟨2, .recordFailure ⟨.probe, none⟩⟩]

theorem second_failure_trips :
    ∃ b past step, Created { failureThreshold := 2 } b ∧
      b.steps twoFailures = past ++ [step] ∧ step.tripped = true := by
  let b := unchecked none false (.fromSecs 30) 2
  let first := Step.take apply b ⟨0, .tryAcquire⟩
  let second := Step.take apply b ⟨1, .recordFailure ⟨.normal, some 0⟩⟩
  let third := Step.take apply second.after ⟨2, .recordFailure ⟨.probe, none⟩⟩
  have created : Created { failureThreshold := 2 } b := .inl (by decide +kernel)
  have run : b.steps twoFailures = [first, second] ++ [third] := by decide +kernel
  refine ⟨b, [first, second], third, created, run, ?_⟩
  exact (trips_at_threshold created (by decide) run).1.mpr (by decide +kernel)

/-! ## Late results -/

/-- Step `reported` reports on an ordinary request that was admitted before the
circuit tripped, after it tripped. -/
structure LateResult (run : List BreakerStep) (issued trip reported : Nat)
    (admission opening step : BreakerStep) : Prop where
  isIssued : run[issued]? = some admission
  acquired : admission.input.call = .tryAcquire
  admitted : admission.output = some .normal
  isTrip : run[trip]? = some opening
  opens : opening.tripped = true
  isReported : run[reported]? = some step
  reports : step.input.call = .recordSuccess ⟨.normal, some issued⟩ ∨
    step.input.call = .recordFailure ⟨.normal, some issued⟩
  before : issued < trip
  after : trip < reported

def BreakerStep.Ignored (step : BreakerStep) : Prop :=
  step.after.state = step.before.state ∧
    step.after.consecutiveFailures = step.before.consecutiveFailures

instance (step : BreakerStep) : Decidable step.Ignored := inferInstanceAs (Decidable (_ ∧ _))

theorem recordSuccess_normal_ignored_iff (b : Breaker) (clock : Nat) (issuedAt : Option Nat) :
    BreakerStep.Ignored (Step.take apply b ⟨clock, .recordSuccess ⟨.normal, issuedAt⟩⟩) ↔
      b.state ≠ .closed ∨ b.consecutiveFailures = 0 := by
  simp only [BreakerStep.Ignored, Step.take, apply_recordSuccess]
  cases current : b.state <;> simp [current, eq_comm]

theorem recordFailure_normal_ignored_iff (b : Breaker) (clock : Nat) (issuedAt : Option Nat) :
    BreakerStep.Ignored (Step.take apply b ⟨clock, .recordFailure ⟨.normal, issuedAt⟩⟩) ↔
      b.state ≠ .closed := by
  have moved : (b.consecutiveFailures + 1) % 2 ^ 32 ≠ b.consecutiveFailures := by omega
  simp only [BreakerStep.Ignored, Step.take, apply_recordFailure]
  cases current : b.state with
  | closed =>
      by_cases room : (b.consecutiveFailures + 1) % 2 ^ 32 < b.failureThreshold <;>
        simp [room, moved, -Nat.reducePow]
  | «open» | halfOpen => simp [current]

/-- In every run, a late result is ignored exactly when the circuit has not
closed again by then, or when it is a success and there is nothing to reset. -/
theorem late_result_ignored_iff {b : Breaker} {events : List Event} {issued trip reported : Nat}
    {admission opening step : BreakerStep}
    (late : LateResult (b.steps events) issued trip reported admission opening step) :
    step.Ignored ↔
      step.before.state ≠ .closed ∨
        step.input.call = .recordSuccess ⟨.normal, some issued⟩ ∧
          step.before.consecutiveFailures = 0 := by
  have taken := trace_step (List.mem_of_getElem? late.isReported)
  have reports := late.reports
  obtain ⟨before, ⟨clock, call⟩, output, after⟩ := step
  rw [taken]
  cases reports with
  | inl called =>
      simp only at called
      subst called
      rw [recordSuccess_normal_ignored_iff]
      simp [Step.take]
  | inr called =>
      simp only at called
      subst called
      rw [recordFailure_normal_ignored_iff]
      simp [Step.take]

def lateFailure : List Event :=
  [⟨0, .tryAcquire⟩, ⟨0, .tryAcquire⟩, ⟨1, .recordFailure ⟨.normal, some 1⟩⟩,
    ⟨2, .recordSuccess ⟨.probe, none⟩⟩, ⟨3, .recordFailure ⟨.normal, some 0⟩⟩]

def promptFailure : List Event :=
  [⟨0, .tryAcquire⟩, ⟨0, .tryAcquire⟩, ⟨1, .recordFailure ⟨.normal, some 1⟩⟩,
    ⟨3, .recordFailure ⟨.normal, some 0⟩⟩]

theorem late_failure_while_open_ignored :
    ∃ b step, Created { failureThreshold := 1 } b ∧
      (b.steps promptFailure)[3]? = some step ∧ step.Ignored := by
  let b := unchecked none false (.fromSecs 30) 1
  let admission := Step.take apply b ⟨0, .tryAcquire⟩
  let opening := Step.take apply b ⟨1, .recordFailure ⟨.normal, some 1⟩⟩
  let step := Step.take apply opening.after ⟨3, .recordFailure ⟨.normal, some 0⟩⟩
  have late : LateResult (b.steps promptFailure) 0 2 3 admission opening step := by
    constructor <;> decide +kernel
  exact ⟨b, step, .inl (by decide +kernel), late.isReported,
    (late_result_ignored_iff late).mpr (by decide +kernel)⟩

theorem late_failure_trips_recovered_circuit :
    ¬∀ (config : BreakerConfig) (b : Breaker) (events : List Event)
        (issued trip reported : Nat) (admission opening step : BreakerStep),
      Created config b →
      LateResult (b.steps events) issued trip reported admission opening step →
      step.Ignored := by
  intro claimed
  let b := unchecked none false (.fromSecs 30) 1
  let admission := Step.take apply b ⟨0, .tryAcquire⟩
  let opening := Step.take apply b ⟨1, .recordFailure ⟨.normal, some 1⟩⟩
  let recovered := Step.take apply opening.after ⟨2, .recordSuccess ⟨.probe, none⟩⟩
  let step := Step.take apply recovered.after ⟨3, .recordFailure ⟨.normal, some 0⟩⟩
  have late : LateResult (b.steps lateFailure) 0 2 4 admission opening step := by
    constructor <;> decide +kernel
  have ignored := claimed { failureThreshold := 1 } b lateFailure 0 2 4 admission opening step
    (.inl (by decide +kernel)) late
  exact absurd ignored (by decide +kernel)

end Ferryman.Core
