import Ferryman.Core.BreakerTimes

/-!
# How often probes run

A released probe re-arms the slot at once, a probe that never reports is
replaced after a cooldown. Together they let at most two probes run in any
cooldown.
-/

set_option autoImplicit false

namespace Ferryman.Core

open Breaker

/-! ## Spread times -/

/-- Times, latest first, of which no three fit into less than `gap`. -/
def Spread (gap : Nat) : List Nat → Prop
  | [] => True
  | latest :: earlier => (∀ time ∈ earlier.tail, time + gap ≤ latest) ∧ Spread gap earlier

theorem Spread.count_le {gap : Nat} {times : List Nat} (spread : Spread gap times) (start : Nat) :
    times.countP (fun time => start ≤ time && time < start + gap) ≤ 2 := by
  induction times with
  | nil => simp
  | cons latest earlier ih =>
      by_cases inside : start ≤ latest ∧ latest < start + gap
      · have none : earlier.tail.countP (fun time => start ≤ time && time < start + gap) = 0 := by
          rw [List.countP_eq_zero]
          intro time member
          have apart := spread.1 time member
          simp only [Bool.and_eq_true, decide_eq_true_eq]
          omega
        cases earlier with
        | nil => simp [inside]
        | cons second older =>
            simp only [List.tail_cons] at none
            simp only [List.countP_cons, none]
            split <;> split <;> omega
      · rw [List.countP_cons_of_neg (by simpa using inside)]
        exact ih spread.2

/-! ## Probes of a run -/

namespace BreakerStep

def probes (step : BreakerStep) : Bool := step.output = some .probe

theorem probes_eq_true {step : BreakerStep} : step.probes = true ↔ step.output = some .probe := by
  simp [probes]

/-- A probe was let through at a time from `start` on and before `stop`. -/
def probesBetween (start stop : Nat) (step : BreakerStep) : Bool :=
  step.probes && (start ≤ step.input.clock && step.input.clock < stop)

/-- A release that re-armed the slot. -/
def rearms (step : BreakerStep) : Bool := step.after.rearmedAtMillis ≠ step.before.rearmedAtMillis

end BreakerStep

/-- Latest first. -/
def probeTimes (history : List BreakerStep) : List Nat :=
  (history.reverse.filter BreakerStep.probes).map (·.input.clock)

theorem probeTimes_append (history : List BreakerStep) (step : BreakerStep) :
    probeTimes (history ++ [step]) =
      if step.probes then step.input.clock :: probeTimes history else probeTimes history := by
  cases isProbe : step.probes <;> simp [probeTimes, isProbe]

theorem countP_probesBetween (history : List BreakerStep) (start stop : Nat) :
    history.countP (BreakerStep.probesBetween start stop) =
      (probeTimes history).countP fun time => start ≤ time && time < stop := by
  rw [probeTimes, List.countP_map, List.countP_filter, List.countP_reverse]
  refine List.countP_congr fun step _ => ?_
  simp [BreakerStep.probesBetween, and_comm]

def Breaker.RearmedSince (b : Breaker) (time : Nat) : Prop :=
  b.rearmedAtMillis ≠ u64Max ∧ time ≤ b.rearmedAtMillis

/-- The clock shows `now`, the probes ran at `times`, latest first. A probe that
ran before the latest one is older than the slot, and at least a cooldown older
than the latest unless the slot was re-armed since. -/
structure Paced (cooldown now : Nat) (times : List Nat) (b : Breaker) : Prop where
  configured : b.cooldownMillis = cooldown
  past : ∀ time ∈ times, time ≤ now
  halfOpen : b.state = .halfOpen → cooldown ≤ now
  latest : ∀ time ∈ times.head?, time ≤ b.openedAtMillis ∨ b.RearmedSince time
  older : ∀ time ∈ times.tail, time ≤ b.openedAtMillis
  apart : ∀ latest ∈ times.head?, ∀ time ∈ times.tail,
    time + cooldown ≤ latest ∨ b.RearmedSince time
  spread : Spread cooldown times

namespace Paced

variable {cooldown now clock : Nat} {times : List Nat} {b after : Breaker}

theorem idle (holds : Paced cooldown now times b) (later : now ≤ clock)
    (sameCooldown : after.cooldownMillis = b.cooldownMillis)
    (sameStamp : after.openedAtMillis = b.openedAtMillis)
    (sameRearm : after.rearmedAtMillis = b.rearmedAtMillis)
    (moved : after.state = b.state ∨ after.state = .closed) : Paced cooldown clock times after where
  configured := sameCooldown.trans holds.configured
  past := fun time member => (holds.past time member).trans later
  halfOpen := by
    intro isHalfOpen
    cases moved with
    | inl same => exact (holds.halfOpen (same ▸ isHalfOpen)).trans later
    | inr isClosed => simp [isClosed] at isHalfOpen
  latest := by simpa only [RearmedSince, sameStamp, sameRearm] using holds.latest
  older := by simpa only [sameStamp] using holds.older
  apart := by simpa only [RearmedSince, sameRearm] using holds.apart
  spread := holds.spread

theorem stamped (holds : Paced cooldown now times b) (later : now ≤ clock)
    (sameCooldown : after.cooldownMillis = b.cooldownMillis)
    (stamp : after.openedAtMillis = clock)
    (sameRearm : after.rearmedAtMillis = b.rearmedAtMillis)
    (isOpen : after.state = .open) : Paced cooldown clock times after where
  configured := sameCooldown.trans holds.configured
  past := fun time member => (holds.past time member).trans later
  halfOpen := fun isHalfOpen => by simp [isOpen] at isHalfOpen
  latest := fun time member => .inl (by
    rw [stamp]
    exact (holds.past time (List.mem_of_mem_head? member)).trans later)
  older := fun time member => by
    rw [stamp]
    exact (holds.past time (List.mem_of_mem_tail member)).trans later
  apart := by simpa only [RearmedSince, sameRearm] using holds.apart
  spread := holds.spread

theorem admitted (positive : 0 < cooldown) (holds : Paced cooldown now times b)
    (later : now ≤ clock) (sameCooldown : after.cooldownMillis = b.cooldownMillis)
    (waited : b.cooldownMillis ≤ clock - b.openedAtMillis)
    (stamp : after.openedAtMillis = clock)
    (sameRearm : after.rearmedAtMillis = b.rearmedAtMillis) :
    Paced cooldown clock (clock :: times) after where
  configured := sameCooldown.trans holds.configured
  past := by
    rw [List.forall_mem_cons]
    exact ⟨Nat.le_refl _, fun time member => (holds.past time member).trans later⟩
  halfOpen := fun _ => by
    rw [holds.configured] at waited
    omega
  latest := by simp [stamp]
  older := fun time member => by
    rw [stamp]
    exact (holds.past time member).trans later
  apart := by
    rw [holds.configured] at waited
    simp only [List.head?_cons, Option.mem_some_iff, List.tail_cons, RearmedSince, sameRearm]
    intro isClock same time member
    subst same
    cases times with
    | nil => simp at member
    | cons last earlier =>
        cases List.mem_cons.mp member with
        | inl isLast =>
            subst isLast
            cases holds.latest time (by simp) with
            | inl old => exact .inl (by omega)
            | inr rearmed => exact .inr rearmed
        | inr isEarlier =>
            have old := holds.older time isEarlier
            exact .inl (by omega)
  spread := by
    refine ⟨fun time member => ?_, holds.spread⟩
    rw [holds.configured] at waited
    have old := holds.older time member
    omega

theorem rearmed (positive : 0 < cooldown) (holds : Paced cooldown now times b)
    (later : now ≤ clock) (reading : clock < u64Max)
    (sameCooldown : after.cooldownMillis = b.cooldownMillis)
    (wasHalfOpen : b.state = .halfOpen)
    (due : b.rearmedAtMillis = u64Max ∨ b.cooldownMillis ≤ clock - b.rearmedAtMillis)
    (stamp : after.openedAtMillis = clock - b.cooldownMillis)
    (rearm : after.rearmedAtMillis = clock) : Paced cooldown clock times after := by
  have since : ∀ time ∈ times, after.RearmedSince time := by
    intro time member
    rw [RearmedSince, rearm]
    exact ⟨reading.ne, (holds.past time member).trans later⟩
  exact {
    configured := sameCooldown.trans holds.configured
    past := fun time member => (holds.past time member).trans later
    halfOpen := fun _ => (holds.halfOpen wasHalfOpen).trans later
    latest := fun time member => .inr (since time (List.mem_of_mem_head? member))
    older := by
      intro time member
      rw [stamp, holds.configured]
      rw [holds.configured] at due
      cases times with
      | nil => simp at member
      | cons last earlier =>
          have lastPast := holds.past last List.mem_cons_self
          cases holds.apart last (by simp) time member with
          | inl apart => omega
          | inr since =>
              obtain ⟨rearmedOnce, before⟩ := since
              have waited := due.resolve_left rearmedOnce
              omega
    apart := fun _ _ time member => .inr (since time (List.mem_of_mem_tail member))
    spread := holds.spread
  }

theorem keeps {history : List BreakerStep} {event : Event} (positive : 0 < cooldown)
    (holds : Paced cooldown now (probeTimes history) b) (later : now ≤ event.clock)
    (reading : event.clock < u64Max) (noReload : event.call.isReconfigure = false) :
    Paced cooldown event.clock (probeTimes (history ++ [Step.take apply b event]))
      (b.apply event).2 := by
  have sameCooldown := apply_cooldown b event noReload
  rw [probeTimes_append]
  cases apply_timing b event with
  | idle noProbe sameStamp sameRearm moved =>
      rw [if_neg (mt BreakerStep.probes_eq_true.mp noProbe)]
      exact holds.idle later sameCooldown sameStamp sameRearm moved
  | admitted isProbe waited stamp sameRearm =>
      rw [if_pos (BreakerStep.probes_eq_true.mpr isProbe)]
      exact holds.admitted positive later sameCooldown waited stamp sameRearm
  | rearmed noProbe wasHalfOpen due stamp rearm =>
      rw [if_neg (mt BreakerStep.probes_eq_true.mp noProbe)]
      exact holds.rearmed positive later reading sameCooldown wasHalfOpen due stamp rearm
  | stamped noProbe stamp sameRearm isOpen =>
      rw [if_neg (mt BreakerStep.probes_eq_true.mp noProbe)]
      exact holds.stamped later sameCooldown stamp sameRearm isOpen

theorem run {history : List BreakerStep} {events : List Event} (positive : 0 < cooldown)
    (holds : Paced cooldown now (probeTimes history) b) (ordered : InOrder events)
    (later : ∀ event ∈ events, now ≤ event.clock)
    (readings : ∀ event ∈ events, event.clock < u64Max)
    (noReload : ∀ event ∈ events, event.call.isReconfigure = false) :
    ∃ last, Paced cooldown last (probeTimes (history ++ b.steps events)) (b.after events) ∧
      ∀ time, now ≤ time → (∀ event ∈ events, event.clock ≤ time) → last ≤ time := by
  induction events generalizing now history b with
  | nil => exact ⟨now, by simpa [steps, trace] using holds, fun time past _ => past⟩
  | cons event events ih =>
      rw [List.forall_mem_cons] at later readings noReload
      have stepped := holds.keeps positive later.1 readings.1 noReload.1
      obtain ⟨orderedHere, orderedLater⟩ := List.pairwise_cons.mp ordered
      obtain ⟨last, reached, bound⟩ :=
        ih stepped orderedLater orderedHere readings.2 noReload.2
      refine ⟨last, by simpa [steps, trace] using reached, fun time past all => ?_⟩
      rw [List.forall_mem_cons] at all
      exact bound time all.1 all.2

theorem initial (name : Option Bytes) (gauges : Bool) (duration : Duration)
    (failureThreshold : UInt32) :
    let b := unchecked name gauges duration failureThreshold
    Paced b.cooldownMillis 0 [] b where
  configured := rfl
  past := nofun
  halfOpen := nofun
  latest := nofun
  older := nofun
  apart := nofun
  spread := trivial

end Paced

/-- The last re-arm is one of the run. -/
theorem rearm_recorded {b : Breaker} (events : List Event) (unarmed : b.rearmedAtMillis = u64Max) :
    (b.after events).rearmedAtMillis = u64Max ∨
      ∃ step ∈ b.steps events, step.rearms = true ∧
        step.input.clock = (b.after events).rearmedAtMillis := by
  let Recorded (history : List BreakerStep) (state : Breaker) : Prop :=
    state.rearmedAtMillis = u64Max ∨
      ∃ step ∈ history, step.rearms = true ∧ step.input.clock = state.rearmedAtMillis
  have starts : Recorded [] b := .inl unarmed
  refine trace_induction starts ?_
  intro past state event _ recorded
  by_cases same : (state.apply event).2.rearmedAtMillis = state.rearmedAtMillis
  · simp only [Recorded, same]
    refine recorded.imp_right fun found => ?_
    obtain ⟨step, earlier, found⟩ := found
    exact ⟨step, List.mem_append_left _ earlier, found⟩
  · cases apply_timing state event with
    | idle _ _ sameRearm => exact absurd sameRearm same
    | admitted _ _ _ sameRearm => exact absurd sameRearm same
    | stamped _ _ sameRearm => exact absurd sameRearm same
    | rearmed _ _ _ _ rearm =>
        exact .inr ⟨_, List.mem_append_right _ (List.mem_singleton_self _), decide_eq_true same,
          rearm.symm⟩

/-! ## A released slot -/

/-- Neither an attempt nor a verdict that a half-open circuit listens to. -/
def Call.isPassive : Call → Bool
  | .release _ => true
  | .recordSuccess ticket | .recordFailure ticket => ticket.admission = .normal
  | .tryAcquire | .reconfigure _ _ => false

theorem apply_passive {b : Breaker} {event : Event} {time : Nat}
    (isHalfOpen : b.state = .halfOpen) (ready : b.openedAtMillis + b.cooldownMillis ≤ time)
    (passive : event.call.isPassive = true) (past : event.clock ≤ time) :
    (b.apply event).2.state = .halfOpen ∧
      (b.apply event).2.openedAtMillis + (b.apply event).2.cooldownMillis ≤ time := by
  obtain ⟨clock, call⟩ := event
  cases call with
  | tryAcquire => simp [Call.isPassive] at passive
  | reconfigure cooldown threshold => simp [Call.isPassive] at passive
  | recordSuccess ticket =>
      have isNormal : ticket.admission = .normal := by simpa [Call.isPassive] using passive
      simpa [apply_recordSuccess, isNormal, isHalfOpen] using ready
  | recordFailure ticket =>
      have isNormal : ticket.admission = .normal := by simpa [Call.isPassive] using passive
      simpa [apply_recordFailure, isNormal, isHalfOpen] using ready
  | release ticket =>
      rw [apply_release_eq]
      split
      · refine ⟨isHalfOpen, ?_⟩
        simp only at past ⊢
        omega
      · exact ⟨isHalfOpen, ready⟩

theorem after_passive {b : Breaker} {events : List Event} {time : Nat}
    (isHalfOpen : b.state = .halfOpen) (ready : b.openedAtMillis + b.cooldownMillis ≤ time)
    (passive : ∀ event ∈ events, event.call.isPassive = true)
    (past : ∀ event ∈ events, event.clock ≤ time) :
    ((b.after events).apply ⟨time, .tryAcquire⟩).1 = some .probe := by
  induction events generalizing b with
  | nil =>
      rw [after_nil, tryAcquire_isSome _ _ (by omega), isHalfOpen]
      rfl
  | cons event events ih =>
      rw [List.forall_mem_cons] at passive past
      obtain ⟨stillHalfOpen, stillReady⟩ := apply_passive isHalfOpen ready passive.1 past.1
      exact ih stillHalfOpen stillReady passive.2 past.2

theorem release_readies {b : Breaker} {clock : Nat} {ticket : Ticket}
    (isProbe : ticket.admission = .probe) (isHalfOpen : b.state = .halfOpen)
    (due : b.rearmedAtMillis = u64Max ∨ b.rearmedAtMillis + b.cooldownMillis ≤ clock)
    (elapsed : b.cooldownMillis ≤ clock) :
    (b.apply ⟨clock, .release ticket⟩).2.state = .halfOpen ∧
      (b.apply ⟨clock, .release ticket⟩).2.openedAtMillis +
        (b.apply ⟨clock, .release ticket⟩).2.cooldownMillis ≤ clock := by
  have taken : ticket.admission = .probe ∧ b.state = .halfOpen ∧
      (b.rearmedAtMillis = u64Max ∨ b.cooldownMillis ≤ clock - b.rearmedAtMillis) :=
    ⟨isProbe, isHalfOpen, due.imp_right fun rearmed => by omega⟩
  rw [apply_release_eq, if_pos taken]
  exact ⟨isHalfOpen, (Nat.sub_add_cancel elapsed).le⟩

/-- What releases do in a run of `b`: they touch neither the state nor the
count, at most two probes run in any cooldown, and a released probe hands its
slot to the next caller unless one was handed on within the last cooldown. -/
structure ReleasesPaced (b : Breaker) (events : List Event) : Prop where
  neutral : ∀ step ∈ b.steps events, ∀ ticket, step.input.call = .release ticket →
    step.after.state = step.before.state ∧
      step.after.consecutiveFailures = step.before.consecutiveFailures
  paced : ∀ start, (b.steps events).countP
    (BreakerStep.probesBetween start (start + b.cooldownMillis)) ≤ 2
  handsOn : ∀ (past rest : List BreakerStep) (step : BreakerStep) (ticket : Ticket),
    b.steps events = past ++ step :: rest →
    step.input.call = .release ticket → ticket.admission = .probe →
    step.before.state = .halfOpen →
    (∀ earlier ∈ past, earlier.rearms = true →
      earlier.input.clock + b.cooldownMillis ≤ step.input.clock) →
    ∀ (waiting : List Event) (time : Nat), step.input.clock ≤ time →
      (∀ event ∈ waiting, event.call.isPassive = true) →
      (∀ event ∈ waiting, event.clock ≤ time) →
      ((step.after.after waiting).apply ⟨time, .tryAcquire⟩).1 = some .probe

section Fresh

variable {b : Breaker} {events : List Event} (positive : 0 < b.cooldownMillis)
  (starts : Paced b.cooldownMillis 0 [] b)
include positive starts

theorem probes_paced (ordered : InOrder events)
    (readings : ∀ event ∈ events, event.clock < u64Max)
    (noReload : ∀ event ∈ events, event.call.isReconfigure = false) (start : Nat) :
    (b.steps events).countP (BreakerStep.probesBetween start (start + b.cooldownMillis)) ≤ 2 := by
  obtain ⟨last, paced, -⟩ := @Paced.run _ _ _ [] events positive starts ordered
    (fun _ _ => Nat.zero_le _) readings noReload
  rw [countP_probesBetween]
  exact paced.spread.count_le start

theorem released_slot_ready (unarmed : b.rearmedAtMillis = u64Max) {clock : Nat} {ticket : Ticket}
    (ordered : InOrder events) (past : ∀ event ∈ events, event.clock ≤ clock)
    (readings : ∀ event ∈ events, event.clock < u64Max)
    (noReload : ∀ event ∈ events, event.call.isReconfigure = false)
    (isProbe : ticket.admission = .probe) (isHalfOpen : (b.after events).state = .halfOpen)
    (due : ∀ step ∈ b.steps events, step.rearms = true →
      step.input.clock + b.cooldownMillis ≤ clock) :
    let released := ((b.after events).apply ⟨clock, .release ticket⟩).2
    released.state = .halfOpen ∧ released.openedAtMillis + released.cooldownMillis ≤ clock := by
  obtain ⟨last, paced, bound⟩ := @Paced.run _ _ _ [] events positive starts ordered
    (fun _ _ => Nat.zero_le _) readings noReload
  have elapsed := (paced.halfOpen isHalfOpen).trans (bound clock (Nat.zero_le _) past)
  refine release_readies isProbe isHalfOpen ?_ (paced.configured ▸ elapsed)
  refine (rearm_recorded events unarmed).imp_right fun found => ?_
  obtain ⟨earlier, member, rearms, isLast⟩ := found
  rw [← isLast, paced.configured]
  exact due earlier member rearms

end Fresh

theorem releases_paced {config : BreakerConfig} {b : Breaker} {events : List Event}
    (created : Created config b) (positive : 0 < b.cooldownMillis) (ordered : InOrder events)
    (readings : ∀ event ∈ events, event.clock < u64Max)
    (noReload : ∀ event ∈ events, event.call.isReconfigure = false) : ReleasesPaced b events := by
  obtain ⟨-, -, name, gauges, rfl⟩ := created_eq created
  have starts := Paced.initial name gauges config.cooldown config.failureThreshold
  refine ⟨?_, probes_paced positive starts ordered readings noReload, ?_⟩
  · intro step member ticket called
    rw [trace_step member]
    obtain ⟨before, ⟨clock, call⟩, output, after⟩ := step
    simp only at called
    subst called
    have kept := apply_release before clock ticket
    exact ⟨kept.1, kept.2.1⟩
  · intro past rest step ticket split called isProbe wasHalfOpen due waiting time later passive
      waitingPast
    obtain ⟨before, ⟨clock, call⟩, following, rfl, rfl, rfl, -⟩ := steps_split split
    simp only [Step.take] at called
    subst called
    obtain ⟨orderedBefore, -, orderedHere⟩ := List.pairwise_append.mp ordered
    have ready := released_slot_ready positive starts rfl orderedBefore
      (fun event member => orderedHere event member _ List.mem_cons_self)
      (fun event member => readings event (List.mem_append_left _ member))
      (fun event member => noReload event (List.mem_append_left _ member)) isProbe wasHalfOpen due
    exact after_passive ready.1 (ready.2.trans later) passive waitingPast

/-- The circuit opens at 0; its first probe runs at 1 s and is handed back. -/
def abandonedProbe : List Event :=
  [⟨0, .recordFailure ⟨.normal, none⟩⟩, ⟨1000, .tryAcquire⟩, ⟨1200, .release ⟨.probe, some 1⟩⟩]

theorem abandoned_probe_handed_on :
    ∃ b, Created ⟨1, .fromSecs 1, none⟩ b ∧
      ((b.after abandonedProbe).apply ⟨1300, .tryAcquire⟩).1 = some .probe := by
  let b := unchecked none false (.fromSecs 1) 1
  have created : Created ⟨1, .fromSecs 1, none⟩ b := .inl (by decide +kernel)
  have paced : ReleasesPaced b abandonedProbe := releases_paced created (by decide +kernel)
    (by decide +kernel) (by decide +kernel) (by decide +kernel)
  let past : List Event := [⟨0, .recordFailure ⟨.normal, none⟩⟩, ⟨1000, .tryAcquire⟩]
  let released := Step.take apply (b.after past) ⟨1200, .release ⟨.probe, some 1⟩⟩
  have split : b.steps abandonedProbe = b.steps past ++ released :: [] := by decide +kernel
  have handed := paced.handsOn (b.steps past) [] released ⟨.probe, some 1⟩ split rfl rfl
    (by decide +kernel) (by decide +kernel) [] 1300 (by decide +kernel) (by simp) (by simp)
  have same : released.after.after [] = b.after abandonedProbe := by decide +kernel
  exact ⟨b, created, same ▸ handed⟩

/-- At the clock reading that `rearmed_at` uses for "never", every release
re-arms. -/
def lastMillisecond : List Event :=
  [⟨0, .recordFailure ⟨.normal, none⟩⟩,
    ⟨u64Max, .tryAcquire⟩, ⟨u64Max, .release ⟨.probe, some 1⟩⟩,
    ⟨u64Max, .tryAcquire⟩, ⟨u64Max, .release ⟨.probe, some 3⟩⟩, ⟨u64Max, .tryAcquire⟩]

theorem last_millisecond_admits_three :
    ¬∀ (config : BreakerConfig) (b : Breaker) (events : List Event),
      Created config b → 0 < b.cooldownMillis → InOrder events →
      (∀ event ∈ events, event.clock ≤ u64Max) →
      (∀ event ∈ events, event.call.isReconfigure = false) → ReleasesPaced b events := by
  intro claimed
  have paced := claimed ⟨1, .fromSecs 1, none⟩ (unchecked none false (.fromSecs 1) 1) lastMillisecond
    (.inl (by decide +kernel)) (by decide +kernel) (by decide +kernel) (by decide +kernel)
    (by decide +kernel)
  exact absurd (paced.paced u64Max) (by decide +kernel)

end Ferryman.Core
