import Ferryman.Core.BreakerRunProperties

/-!
# Stamps over time

The slot stamp `opened_at` and the last re-arm decide when the next probe may
run. What one call can do to them is said once; the laws about whole runs only
use that.
-/

set_option autoImplicit false

namespace Ferryman.Core

open Breaker

def InOrder (events : List Event) : Prop :=
  events.Pairwise fun earlier later => earlier.clock ≤ later.clock

instance (events : List Event) : Decidable (InOrder events) :=
  inferInstanceAs (Decidable (List.Pairwise _ _))

def Breaker.after (b : Breaker) (events : List Event) : Breaker := reach apply b events

@[simp] theorem after_nil (b : Breaker) : b.after [] = b := rfl

@[simp] theorem after_cons (b : Breaker) (event : Event) (events : List Event) :
    b.after (event :: events) = (b.apply event).2.after events := rfl

theorem steps_split {b : Breaker} {events : List Event} {past rest : List BreakerStep}
    {step : BreakerStep} (split : b.steps events = past ++ step :: rest) :
    ∃ before event later, events = before ++ event :: later ∧ past = b.steps before ∧
      step = Step.take apply (b.after before) event ∧ rest = step.after.steps later :=
  trace_split split

/-! ## One call -/

/-- What a call at `clock` does to the stamps of `b`. -/
inductive Timing (b : Breaker) (clock : Nat) (output : Option Admission) (after : Breaker) : Prop
  | idle (noProbe : output ≠ some .probe)
      (sameStamp : after.openedAtMillis = b.openedAtMillis)
      (sameRearm : after.rearmedAtMillis = b.rearmedAtMillis)
      (moved : after.state = b.state ∨ after.state = .closed)
  | admitted (isProbe : output = some .probe)
      (waited : b.cooldownMillis ≤ clock - b.openedAtMillis)
      (stamp : after.openedAtMillis = clock)
      (sameRearm : after.rearmedAtMillis = b.rearmedAtMillis)
      (isHalfOpen : after.state = .halfOpen)
  | rearmed (noProbe : output ≠ some .probe)
      (wasHalfOpen : b.state = .halfOpen)
      (due : b.rearmedAtMillis = u64Max ∨ b.cooldownMillis ≤ clock - b.rearmedAtMillis)
      (stamp : after.openedAtMillis = clock - b.cooldownMillis)
      (rearm : after.rearmedAtMillis = clock)
      (isHalfOpen : after.state = .halfOpen)
  | stamped (noProbe : output ≠ some .probe)
      (stamp : after.openedAtMillis = clock)
      (sameRearm : after.rearmedAtMillis = b.rearmedAtMillis)
      (isOpen : after.state = .open)

section Calls

variable (b : Breaker) (clock : Nat) (ticket : Ticket)

theorem tryAcquire_timing :
    Timing b clock (b.apply ⟨clock, .tryAcquire⟩).1 (b.apply ⟨clock, .tryAcquire⟩).2 := by
  rw [apply_tryAcquire]
  cases current : b.state with
  | closed => exact .idle (by simp) rfl rfl (.inl rfl)
  | «open» =>
      by_cases early : clock - b.openedAtMillis < b.cooldownMillis
      · simp only [early, if_true]
        exact .idle (by simp) rfl rfl (.inl rfl)
      · simp only [early, if_false]
        exact .admitted rfl (not_lt.mp early) (by simp) (by simp) (by simp)
  | halfOpen =>
      by_cases early : clock - b.openedAtMillis < b.cooldownMillis
      · simp only [early, if_true]
        exact .idle (by simp) rfl rfl (.inl rfl)
      · simp only [early, if_false]
        exact .admitted rfl (not_lt.mp early) rfl rfl rfl

theorem apply_release_eq :
    b.apply ⟨clock, .release ticket⟩ =
      (none, if ticket.admission = .probe ∧ b.state = .halfOpen ∧
          (b.rearmedAtMillis = u64Max ∨ b.cooldownMillis ≤ clock - b.rearmedAtMillis) then
        { b with rearmedAtMillis := clock, openedAtMillis := clock - b.cooldownMillis }
      else b) := by
  simp only [apply, run_release]
  split <;> rfl

theorem release_timing :
    Timing b clock (b.apply ⟨clock, .release ticket⟩).1 (b.apply ⟨clock, .release ticket⟩).2 := by
  rw [apply_release_eq]
  split
  next taken => exact .rearmed (by simp) taken.2.1 taken.2.2 rfl rfl taken.2.1
  next => exact .idle (by simp) rfl rfl (.inl rfl)

theorem recordSuccess_timing :
    Timing b clock (b.apply ⟨clock, .recordSuccess ticket⟩).1
      (b.apply ⟨clock, .recordSuccess ticket⟩).2 := by
  rw [apply_recordSuccess]
  cases ticket.admission <;> cases current : b.state <;>
    exact .idle (by simp) (by simp) (by simp) (by simp [current])

theorem recordFailure_timing :
    Timing b clock (b.apply ⟨clock, .recordFailure ticket⟩).1
      (b.apply ⟨clock, .recordFailure ticket⟩).2 := by
  rw [apply_recordFailure]
  cases current : b.state with
  | closed =>
      cases ticket.admission <;> simp only [] <;> split
      all_goals
        first
        | exact .idle (by simp) rfl rfl (.inl current.symm)
        | exact .stamped (by simp) (by simp) (by simp) (by simp)
  | «open» => cases ticket.admission <;> exact .idle (by simp) rfl rfl (.inl rfl)
  | halfOpen =>
      cases ticket.admission with
      | normal => exact .idle (by simp) rfl rfl (.inl rfl)
      | probe => exact .stamped (by simp) (by simp) (by simp) (by simp)

theorem apply_timing (event : Event) : Timing b event.clock (b.apply event).1 (b.apply event).2 := by
  obtain ⟨clock, call⟩ := event
  cases call with
  | tryAcquire => exact tryAcquire_timing b clock
  | recordSuccess ticket => exact recordSuccess_timing b clock ticket
  | recordFailure ticket => exact recordFailure_timing b clock ticket
  | release ticket => exact release_timing b clock ticket
  | reconfigure cooldown threshold => exact .idle (by simp [apply]) rfl rfl (.inl rfl)

theorem apply_cooldown (event : Event) (noReload : event.call.isReconfigure = false) :
    (b.apply event).2.cooldownMillis = b.cooldownMillis := by
  obtain ⟨clock, call⟩ := event
  cases call with
  | tryAcquire =>
      rw [apply_tryAcquire]
      cases b.state with
      | closed => rfl
      | «open» | halfOpen => simp only [] ; split <;> simp
  | recordSuccess ticket =>
      rw [apply_recordSuccess]
      cases ticket.admission <;> cases b.state <;> simp
  | recordFailure ticket =>
      rw [apply_recordFailure]
      cases ticket.admission <;> cases b.state <;> simp only [] <;> (try split) <;> simp
  | release ticket =>
      rw [apply_release_eq]
      split <;> rfl
  | reconfigure cooldown threshold => simp [Call.isReconfigure] at noReload

/-- An open circuit stays as it is until a probe passes or a caller finds the
cooldown over. -/
theorem apply_open (event : Event) (isOpen : b.state = .open) :
    ((b.apply event).1 = none ∧ (b.apply event).2.state = .open ∧
        (b.apply event).2.openedAtMillis = b.openedAtMillis) ∨
      (event.call = .tryAcquire ∧ b.cooldownMillis ≤ event.clock - b.openedAtMillis) ∨
      ∃ ticket, event.call = .recordSuccess ticket ∧ ticket.admission = .probe := by
  obtain ⟨clock, call⟩ := event
  cases call with
  | tryAcquire =>
      by_cases early : clock - b.openedAtMillis < b.cooldownMillis
      · simp [apply_tryAcquire, isOpen, early]
      · exact .inr (.inl ⟨rfl, not_lt.mp early⟩)
  | recordSuccess ticket =>
      cases kind : ticket.admission with
      | normal => simp [apply_recordSuccess, isOpen, kind]
      | probe => exact .inr (.inr ⟨ticket, rfl, kind⟩)
  | recordFailure ticket => cases kind : ticket.admission <;> simp [apply_recordFailure, isOpen, kind]
  | release ticket => simp [apply_release_eq, isOpen]
  | reconfigure cooldown threshold => exact .inl ⟨rfl, isOpen, rfl⟩

theorem tryAcquire_isSome (waited : b.cooldownMillis ≤ clock - b.openedAtMillis) :
    (b.apply ⟨clock, .tryAcquire⟩).1 =
      if b.state = .closed then some .normal else some .probe := by
  have notEarly : ¬clock - b.openedAtMillis < b.cooldownMillis := not_lt.mpr waited
  rw [apply_tryAcquire]
  cases current : b.state <;> simp [notEarly]

end Calls

/-! ## The circuit is never stuck -/

/-- Neither an attempt nor a verdict that closes the circuit. -/
def Call.leavesSlot : Call → Bool
  | .tryAcquire => false
  | .recordSuccess ticket => ticket.admission = .normal
  | .recordFailure _ | .release _ | .reconfigure _ _ => true

theorem apply_stamp_le {b : Breaker} {event : Event} {time : Nat}
    (stamp : b.openedAtMillis ≤ time) (past : event.clock ≤ time) :
    (b.apply event).2.openedAtMillis ≤ time := by
  cases apply_timing b event with
  | idle _ sameStamp => exact sameStamp.trans_le stamp
  | admitted _ _ isClock => exact isClock.trans_le past
  | rearmed _ _ _ isEarlier => exact isEarlier.trans_le ((Nat.sub_le _ _).trans past)
  | stamped _ isClock => exact isClock.trans_le past

theorem after_stamp_le {b : Breaker} {events : List Event} {time : Nat}
    (stamp : b.openedAtMillis ≤ time) (past : ∀ event ∈ events, event.clock ≤ time) :
    (b.after events).openedAtMillis ≤ time := by
  induction events generalizing b with
  | nil => exact stamp
  | cons event events ih =>
      exact ih (apply_stamp_le stamp (past event List.mem_cons_self))
        fun later member => past later (List.mem_cons_of_mem _ member)

theorem apply_leavesSlot {b : Breaker} {event : Event} (isOpen : b.state = .open)
    (leaves : event.call.leavesSlot = true) :
    (b.apply event).2.state = .open ∧
      (b.apply event).2.openedAtMillis = b.openedAtMillis := by
  rcases apply_open b event isOpen with ⟨-, kept⟩ | ⟨called, -⟩ | ⟨ticket, called, isProbe⟩
  · exact kept
  · simp [called, Call.leavesSlot] at leaves
  · simp [called, Call.leavesSlot, isProbe] at leaves

theorem after_leavesSlot {b : Breaker} {events : List Event} (isOpen : b.state = .open)
    (leaves : ∀ event ∈ events, event.call.leavesSlot = true) :
    (b.after events).state = .open ∧
      (b.after events).openedAtMillis = b.openedAtMillis := by
  induction events generalizing b with
  | nil => exact ⟨isOpen, rfl⟩
  | cons event events ih =>
      obtain ⟨stillOpen, sameStamp⟩ := apply_leavesSlot isOpen (leaves event List.mem_cons_self)
      have later := ih stillOpen fun later member => leaves later (List.mem_cons_of_mem _ member)
      exact ⟨later.1, later.2.trans sameStamp⟩

/-- Whatever happened until `time`, a caller a cooldown later is let through; and
no result or hand-back puts the slot of an open circuit off. -/
theorem never_stuck {config : BreakerConfig} {b : Breaker} {events : List Event} {time : Nat}
    (created : Created config b) (past : ∀ event ∈ events, event.clock ≤ time) :
    (∀ later, time + (b.after events).cooldownMillis ≤ later →
        ((b.after events).apply ⟨later, .tryAcquire⟩).1 ≠ none) ∧
      ((b.after events).state = .open →
        ∀ waiting, (∀ event ∈ waiting, event.call.leavesSlot = true) →
          ∀ later, (b.after events).openedAtMillis +
              ((b.after events).after waiting).cooldownMillis ≤ later →
            (((b.after events).after waiting).apply ⟨later, .tryAcquire⟩).1 = some .probe) := by
  obtain ⟨-, -, name, gauges, rfl⟩ := created_eq created
  constructor
  · intro later waited
    have starts : (unchecked name gauges config.cooldown config.failureThreshold).openedAtMillis ≤
      time := Nat.zero_le time
    have stamp := after_stamp_le starts past
    rw [tryAcquire_isSome _ _ (by omega)]
    split <;> simp
  · intro isOpen waiting leaves later waited
    obtain ⟨stillOpen, sameStamp⟩ := after_leavesSlot isOpen leaves
    rw [tryAcquire_isSome _ _ (by omega), stillOpen]
    rfl

/-- The circuit opens at 5; a reload halves the cooldown to 15 s. -/
def retunedOutage : List Event :=
  [⟨5, .recordFailure ⟨.normal, none⟩⟩, ⟨6, .reconfigure (.fromSecs 15) 1⟩]

def failingChecks : List Event :=
  [⟨1000, .recordFailure ⟨.probe, none⟩⟩, ⟨2000, .release ⟨.probe, none⟩⟩,
    ⟨14000, .recordFailure ⟨.probe, none⟩⟩]

theorem failing_checks_leave_slot :
    ∃ b, Created { failureThreshold := 1 } b ∧ (b.after retunedOutage).state = .open ∧
      (((b.after retunedOutage).after failingChecks).apply ⟨15005, .tryAcquire⟩).1 =
        some .probe := by
  let b := unchecked none false (.fromSecs 30) 1
  have created : Created { failureThreshold := 1 } b := .inl (by decide +kernel)
  have isOpen : (b.after retunedOutage).state = .open := by decide +kernel
  have past : ∀ event ∈ retunedOutage, event.clock ≤ 6 := by decide +kernel
  exact ⟨b, created, isOpen, (never_stuck created past).2 isOpen failingChecks
    (by decide +kernel) 15005 (by decide +kernel)⟩

/-! ## The configured cooldown -/

namespace BreakerStep

def opens (step : BreakerStep) : Bool :=
  step.before.state ≠ .open && step.after.state = .open

theorem opens_eq_true {step : BreakerStep} :
    step.opens = true ↔ step.before.state ≠ .open ∧ step.after.state = .open := by
  simp [opens]

/-- A passing probe closed the circuit. -/
def recovers (step : BreakerStep) : Bool :=
  match step.input.call with
  | .recordSuccess ticket => ticket.admission = .probe && step.closedCircuit
  | _ => false

end BreakerStep

/-- Once a run has opened the circuit, no caller is let through before the
configured cooldown is over, unless a probe passed first. -/
def HonoursCooldown (config : BreakerConfig) : Prop :=
  ∀ (b : Breaker) (events : List Event) (past middle rest : List BreakerStep)
      (opening attempt : BreakerStep),
    Created config b → InOrder events →
    (∀ event ∈ events, event.call.isReconfigure = false) →
    b.steps events = past ++ opening :: (middle ++ attempt :: rest) →
    opening.opens = true → (∀ step ∈ middle, step.recovers = false) →
    attempt.input.call = .tryAcquire →
    attempt.input.clock < opening.input.clock + config.cooldown.asMillis →
    attempt.output = none

theorem after_cooldown {b : Breaker} {events : List Event}
    (noReload : ∀ event ∈ events, event.call.isReconfigure = false) :
    (b.after events).cooldownMillis = b.cooldownMillis := by
  induction events generalizing b with
  | nil => rfl
  | cons event events ih =>
      have later := @ih (b.apply event).2 fun later member =>
        noReload later (List.mem_cons_of_mem _ member)
      exact later.trans (apply_cooldown b event (noReload event List.mem_cons_self))

theorem stamp_of_opens {b : Breaker} {event : Event}
    (opens : BreakerStep.opens (Step.take apply b event) = true) :
    (b.apply event).2.state = .open ∧ (b.apply event).2.openedAtMillis = event.clock := by
  obtain ⟨notOpen, isOpen⟩ := BreakerStep.opens_eq_true.mp opens
  simp only [Step.take] at notOpen isOpen
  refine ⟨isOpen, ?_⟩
  cases apply_timing b event with
  | idle _ _ _ moved =>
      cases moved with
      | inl same => exact absurd (same ▸ isOpen) notOpen
      | inr isClosed => simp [isClosed] at isOpen
  | admitted _ _ _ _ isHalfOpen => simp [isHalfOpen] at isOpen
  | rearmed _ _ _ _ _ isHalfOpen => simp [isHalfOpen] at isOpen
  | stamped _ stamp => exact stamp

theorem apply_early {b : Breaker} {event : Event} (isOpen : b.state = .open)
    (positive : 0 < b.cooldownMillis)
    (early : event.clock < b.openedAtMillis + b.cooldownMillis)
    (unrecovered : BreakerStep.recovers (Step.take apply b event) = false) :
    (b.apply event).1 = none ∧ (b.apply event).2.state = .open ∧
      (b.apply event).2.openedAtMillis = b.openedAtMillis := by
  rcases apply_open b event isOpen with kept | ⟨-, waited⟩ | ⟨ticket, called, isProbe⟩
  · exact kept
  · omega
  · obtain ⟨clock, call⟩ := event
    simp only at called
    subst called
    simp [BreakerStep.recovers, BreakerStep.closedCircuit, Step.take, apply_recordSuccess, isOpen,
      isProbe] at unrecovered

theorem after_early {b : Breaker} {events : List Event} (isOpen : b.state = .open)
    (positive : 0 < b.cooldownMillis)
    (noReload : ∀ event ∈ events, event.call.isReconfigure = false)
    (early : ∀ event ∈ events, event.clock < b.openedAtMillis + b.cooldownMillis)
    (unrecovered : ∀ step ∈ b.steps events, step.recovers = false) :
    (b.after events).state = .open ∧ (b.after events).openedAtMillis = b.openedAtMillis := by
  induction events generalizing b with
  | nil => exact ⟨isOpen, rfl⟩
  | cons event events ih =>
      obtain ⟨-, stillOpen, sameStamp⟩ := apply_early isOpen positive
        (early event List.mem_cons_self) (unrecovered _ List.mem_cons_self)
      have sameCooldown := apply_cooldown b event (noReload event List.mem_cons_self)
      have later := ih stillOpen (sameCooldown ▸ positive)
        (fun later member => noReload later (List.mem_cons_of_mem _ member))
        (fun later member => by
          rw [sameStamp, sameCooldown]
          exact early later (List.mem_cons_of_mem _ member))
        (fun step member => unrecovered step (List.mem_cons_of_mem _ member))
      exact ⟨later.1, later.2.trans sameStamp⟩

theorem early_refused {b : Breaker} {events : List Event} {attempt : Event}
    (isOpen : b.state = .open) (positive : 0 < b.cooldownMillis)
    (noReload : ∀ event ∈ events, event.call.isReconfigure = false)
    (ordered : ∀ event ∈ events, event.clock ≤ attempt.clock)
    (unrecovered : ∀ step ∈ b.steps events, step.recovers = false)
    (called : attempt.call = .tryAcquire)
    (early : attempt.clock < b.openedAtMillis + b.cooldownMillis) :
    ((b.after events).apply attempt).1 = none := by
  obtain ⟨stillOpen, sameStamp⟩ := after_early isOpen positive noReload
    (fun event member => (ordered event member).trans_lt early) unrecovered
  have sameCooldown := @after_cooldown b events noReload
  refine (apply_early stillOpen (sameCooldown ▸ positive) ?_ ?_).1
  · rw [sameStamp, sameCooldown]
    exact early
  · simp [BreakerStep.recovers, Step.take, called]

theorem honours_of_fits {config : BreakerConfig} (fits : config.cooldown.asMillis < 2 ^ 64) :
    HonoursCooldown config := by
  intro b events past middle rest opening attempt created ordered noReload run opens unrecovered
    called early
  obtain ⟨-, enough, name, gauges, rfl⟩ := created_eq created
  have positive : 0 < config.cooldown.asMillis := Nat.div_pos enough (by decide)
  obtain ⟨before, trip, later, rfl, -, rfl, tail⟩ := steps_split run
  obtain ⟨between, asked, following, rfl, rfl, rfl, -⟩ := steps_split tail.symm
  simp only [List.forall_mem_append, List.forall_mem_cons] at noReload
  obtain ⟨noReloadBefore, noReloadTrip, noReloadBetween, -⟩ := noReload
  obtain ⟨isOpen, stamp⟩ := stamp_of_opens opens
  let fresh := unchecked name gauges config.cooldown config.failureThreshold
  have stored : fresh.cooldownMillis = config.cooldown.asMillis := Nat.mod_eq_of_lt fits
  have cooldown := (apply_cooldown _ trip noReloadTrip).trans
    ((@after_cooldown fresh before noReloadBefore).trans stored)
  have tailOrdered := (List.pairwise_cons.mp (List.pairwise_append.mp ordered).2.1).2
  refine early_refused isOpen (cooldown ▸ positive) noReloadBetween ?_ unrecovered called ?_
  · intro event member
    exact (List.pairwise_append.mp tailOrdered).2.2 event member asked List.mem_cons_self
  · exact stamp ▸ cooldown ▸ early

/-! A cooldown that does not fit is stored modulo `2 ^ 64`. -/

def failuresAt (clock count : Nat) : List Event :=
  List.replicate count ⟨clock, .recordFailure ⟨.normal, none⟩⟩

theorem after_failuresAt {b : Breaker} {clock count : Nat} (wasClosed : b.state = .closed)
    (few : b.consecutiveFailures + count < b.failureThreshold)
    (small : b.failureThreshold < 2 ^ 32) :
    (b.after (failuresAt clock count)).state = .closed ∧
      (b.after (failuresAt clock count)).consecutiveFailures = b.consecutiveFailures + count ∧
      (b.after (failuresAt clock count)).failureThreshold = b.failureThreshold := by
  induction count generalizing b with
  | zero => exact ⟨wasClosed, rfl, rfl⟩
  | succ count ih =>
      obtain ⟨counted, sameThreshold, state⟩ :=
        recordFailure_closed b clock ⟨.normal, none⟩ wasClosed (by omega)
      rw [if_pos (by omega)] at state
      have later := ih state (by omega) (by omega)
      exact ⟨later.1, later.2.1.trans (by omega), later.2.2.trans sameThreshold⟩

theorem failuresAt_opens {b : Breaker} {clock : Nat} (wasClosed : b.state = .closed)
    (uncounted : b.consecutiveFailures = 0) (positive : 0 < b.failureThreshold)
    (small : b.failureThreshold < 2 ^ 32) :
    BreakerStep.opens (Step.take apply (b.after (failuresAt clock (b.failureThreshold - 1)))
      ⟨clock, .recordFailure ⟨.normal, none⟩⟩) = true := by
  obtain ⟨stillClosed, counted, sameThreshold⟩ :=
    @after_failuresAt b clock (b.failureThreshold - 1) wasClosed (by omega) small
  obtain ⟨-, -, state⟩ :=
    recordFailure_closed _ clock ⟨.normal, none⟩ stillClosed (by omega)
  rw [if_neg (by omega)] at state
  refine BreakerStep.opens_eq_true.mpr ⟨?_, state⟩
  simp [Step.take, stillClosed]

theorem failuresAt_noReload {clock count : Nat} :
    ∀ event ∈ failuresAt clock count, event.call.isReconfigure = false := by
  intro event member
  rw [List.eq_of_mem_replicate member]
  rfl

theorem fits_of_honours {config : BreakerConfig} (valid : config.validate = .ok ())
    (honours : HonoursCooldown config) : config.cooldown.asMillis < 2 ^ 64 := by
  by_contra tooLong
  obtain ⟨positive, -⟩ := validate_eq_ok.mp valid
  let b := unchecked config.name false config.cooldown config.failureThreshold
  have created : Created config b := .inl (by simp [Breaker.new, valid, b, bind, Except.bind,
    pure, Except.pure])
  let failures := failuresAt 0 (b.failureThreshold - 1)
  let trip : Event := ⟨0, .recordFailure ⟨.normal, none⟩⟩
  let attempt : Event := ⟨b.cooldownMillis, .tryAcquire⟩
  let opening := Step.take apply (b.after failures) trip
  have opens : BreakerStep.opens opening = true :=
    failuresAt_opens rfl rfl positive config.failureThreshold.toNat_lt
  have isOpen : opening.after.state = .open := (stamp_of_opens opens).1
  have stamp : opening.after.openedAtMillis = 0 := (stamp_of_opens opens).2
  have cooldown : opening.after.cooldownMillis = b.cooldownMillis :=
    (apply_cooldown _ trip rfl).trans (@after_cooldown b failures failuresAt_noReload)
  have run : b.steps (failures ++ [trip, attempt]) =
      b.steps failures ++ opening :: ([] ++ Step.take apply opening.after attempt :: []) :=
    trace_append b failures [trip, attempt]
  have noReload : ∀ event ∈ failures ++ [trip, attempt], event.call.isReconfigure = false := by
    simp only [List.forall_mem_append, List.forall_mem_cons]
    exact ⟨failuresAt_noReload, rfl, rfl, by simp⟩
  have ordered : InOrder (failures ++ [trip, attempt]) := by
    refine List.pairwise_append.mpr ⟨?_, by simp [trip], ?_⟩
    · exact List.pairwise_replicate.mpr (.inr (Nat.le_refl _))
    · intro event member later _
      rw [List.eq_of_mem_replicate member]
      exact Nat.zero_le _
  -- the stored cooldown is over long before the configured one
  have early : attempt.clock < opening.input.clock + config.cooldown.asMillis := by
    have cut := Nat.mod_lt config.cooldown.asMillis (Nat.two_pow_pos 64)
    have short : b.cooldownMillis < config.cooldown.asMillis := cut.trans_le (not_lt.mp tooLong)
    exact short.trans_le (Nat.le_add_left _ _)
  have refused := honours b _ _ _ _ _ _ created ordered noReload run opens (by simp) rfl early
  have admitted := tryAcquire_isSome opening.after b.cooldownMillis (by rw [stamp, cooldown]; rfl)
  rw [isOpen] at admitted
  exact absurd (admitted.symm.trans refused) (by simp)

/-- The configured cooldown is honoured exactly when its milliseconds fit the
64 bits they are stored in. -/
theorem honours_cooldown_iff {config : BreakerConfig} (valid : config.validate = .ok ()) :
    HonoursCooldown config ↔ config.cooldown.asMillis < 2 ^ 64 :=
  ⟨fits_of_honours valid, honours_of_fits⟩

theorem default_cooldown_honoured : HonoursCooldown {} :=
  (honours_cooldown_iff (by decide +kernel)).mpr (by decide +kernel)

/-- `Duration::from_secs(18446744073709552)`, of which 384 ms are stored. -/
def endlessCooldown : BreakerConfig :=
  { failureThreshold := 1, cooldown := .fromSecs 18446744073709552 }

theorem endless_cooldown_cut_short :
    ¬∀ config : BreakerConfig, config.validate = .ok () → HonoursCooldown config := by
  intro claimed
  let b := unchecked none false endlessCooldown.cooldown 1
  let trip : Event := ⟨0, .recordFailure ⟨.normal, none⟩⟩
  let attempt : Event := ⟨384, .tryAcquire⟩
  let opening := Step.take apply b trip
  have run : b.steps [trip, attempt] =
    [] ++ opening :: ([] ++ Step.take apply opening.after attempt :: []) := rfl
  have refused := claimed endlessCooldown (by decide +kernel) b [trip, attempt] _ _ _ _ _
    (.inl (by decide +kernel)) (by decide +kernel) (by decide +kernel) run (by decide +kernel)
    (by simp) rfl (by decide +kernel)
  exact absurd refused (by decide +kernel)

end Ferryman.Core
