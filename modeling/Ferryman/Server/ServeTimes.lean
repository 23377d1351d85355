import Ferryman.Server.ServeProperties

/-!
# How long a shutdown takes

When every task is run within a slack after what it waits for, the time from the
signal to the exit is the delay, the drain timeout and what failed accepts cost.
-/

set_option autoImplicit false

namespace Ferryman.Server

open Ferryman.Core

/-! ## Lateness -/

/-- When the sleep of a connection is over that the move ends. -/
def ConnectionTask.dueAt (task : ConnectionTask) (move : ConnectionTask.Move) : Option Nat :=
  match task.stage, move with
  | .handshake deadline, .handshakeTimeout => some deadline
  | .serving deadline _ _, .firstRequestDeadline => deadline
  | _, _ => none

/-- A task whose sleep is over does not sleep on when it runs. -/
theorem ConnectionTask.dueAt_step {task : ConnectionTask} {inner : ConnectionTask.Move}
    {due now : Nat} (sleeps : task.dueAt inner = some due) (passed : due ≤ now) :
    (task.step now inner).dueAt inner = none := by
  unfold ConnectionTask.dueAt at sleeps
  split at sleeps
  · next waits =>
    obtain rfl := Option.some.inj sleeps
    simp [ConnectionTask.step, waits, passed, ConnectionTask.dueAt, ConnectionTask.setStage]
  · next seen inFlight waits =>
    subst sleeps
    cases seen <;>
      simp [ConnectionTask.step, waits, passed, ConnectionTask.dueAt, ConnectionTask.setStage]
  · cases sleeps

namespace Process

/-- When the wait is over that the move ends. A signal is waited for by the loop only
when it accepts. -/
def dueAt (process : Process) (move : Move) : Option Nat :=
  match move, process.phase, process.shutdown with
  | .pollShutdown, .accepting since, .waiting (some time) => some (max time since)
  | .pollShutdown, .accepting since, .delaying deadline => some (max deadline since)
  | .backoffOver, .backingOff deadline, _ => some deadline
  | .finishDrain, .draining deadline, _ => some deadline
  | .connection _ _, .exited _, _ => none
  | .connection index inner, _, _ =>
      process.connections[index]?.bind fun task => task.dueAt inner
  | _, _, _ => none

/-- The task was run when its wait was over, and has the same wait since. -/
def Attempted (history : List Moment) (move : Move) (due : Nat) : Prop :=
  ∃ made since, made :: since <:+ history ∧ made.input = move ∧ due ≤ made.before.now ∧
    ∀ moment ∈ made :: since, moment.before.dueAt move = some due

/-- After these moves no wait is over for longer than the slack without its task having
been run. -/
def Prompt (slack : Nat) (first : Process) (moves : List Move) : Prop :=
  ∀ move due, (reach step first moves).dueAt move = some due →
    due + slack < (reach step first moves).now → Attempted (trace step first moves) move due

/-- No wait is over for longer than the slack. -/
def Timely (slack : Nat) (process : Process) : Prop :=
  ∀ move due, process.dueAt move = some due → process.now ≤ due + slack

section Lateness

variable {slack : Nat} {process first : Process} {moves : List Move}

theorem dueAt_signalled {since time : Nat} (accepts : process.phase = .accepting since)
    (waits : process.shutdown = .waiting (some time)) :
    process.dueAt .pollShutdown = some (max time since) := by
  simp only [dueAt, accepts, waits]

theorem dueAt_delayed {since deadline : Nat} (accepts : process.phase = .accepting since)
    (delays : process.shutdown = .delaying deadline) :
    process.dueAt .pollShutdown = some (max deadline since) := by
  simp only [dueAt, accepts, delays]

theorem dueAt_backingOff {deadline : Nat} (backsOff : process.phase = .backingOff deadline) :
    process.dueAt .backoffOver = some deadline := by
  simp only [dueAt, backsOff]

theorem dueAt_draining {deadline : Nat} (drains : process.phase = .draining deadline) :
    process.dueAt .finishDrain = some deadline := by
  simp only [dueAt, drains]

theorem dueAt_connection {index due : Nat} {task : ConnectionTask} {inner : ConnectionTask.Move}
    (runs : process.isExited = false) (found : process.connections[index]? = some task)
    (sleeps : task.dueAt inner = some due) :
    process.dueAt (.connection index inner) = some due := by
  unfold isExited at runs
  cases phase : process.phase with
  | exited exit => simp [phase] at runs
  | accepting | backingOff | draining => simp [dueAt, phase, found, sleeps]

/-- What a task waited for is behind it when it runs after that. -/
theorem dueAt_step {move : Move} {due : Nat} (waits : process.dueAt move = some due)
    (passed : due ≤ process.now) : (process.step move).2.dueAt move ≠ some due := by
  have later : ∀ delay since, delay ≠ 0 → due ≠ max (process.now + delay) since := by
    intro delay since nonzero
    omega
  unfold dueAt at waits
  split at waits
  · next since time accepts heard =>
    obtain rfl := Option.some.inj waits
    by_cases zero : process.table.shutdownDelay.nanos = 0
    · simp [step, isExited, accepts, moved, pollShutdown, heard, zero, stopAccepting, dueAt]
    · simp [step, isExited, accepts, moved, pollShutdown, heard, zero, dueAt,
        (later _ since zero).symm]
  · next since deadline accepts delays =>
    obtain rfl := Option.some.inj waits
    have isPast : deadline ≤ process.now := by omega
    simp [step, isExited, accepts, moved, pollShutdown, delays, isPast, stopAccepting, dueAt]
  · next deadline _ backsOff =>
    obtain rfl := Option.some.inj waits
    simp [step, isExited, backsOff, moved, backoffOver, passed, dueAt]
  · next deadline _ drains =>
    obtain rfl := Option.some.inj waits
    simp [step, isExited, drains, moved, finishDrain, passed, dueAt]
  · cases waits
  · next _ index inner running =>
    obtain ⟨task, found, sleeps⟩ := Option.bind_eq_some_iff.mp waits
    have runs : process.isExited = false := by
      unfold isExited
      split
      · next exit exited => exact absurd exited (running exit)
      · rfl
    have awake := ConnectionTask.dueAt_step sleeps passed
    simp only [step, runs, moved, stepConnection, dueAt, Bool.false_eq_true, if_false]
    simp [found, awake]
  · cases waits

theorem Prompt.timely (prompt : Prompt slack first moves) : Timely slack (reach step first moves) := by
  intro move due waits
  by_contra late
  obtain ⟨made, since, isSuffix, rfl, passed, unchanged⟩ := prompt move due waits (by omega)
  obtain ⟨isMade, continues⟩ := trace_continues isSuffix
  have left : made.after.dueAt made.input ≠ some due := by
    rw [isMade]
    exact dueAt_step (unchanged made List.mem_cons_self) passed
  rcases continues with ⟨-, isLast⟩ | ⟨next, isNext, isAfter⟩
  · exact left (isLast ▸ waits)
  · exact left (isAfter ▸ unchanged next (List.mem_cons_of_mem _ isNext))

theorem Timely.prompt (timely : Timely slack (reach step first moves)) :
    Prompt slack first moves :=
  fun move due waits late => absurd (timely move due waits) (by omega)

end Lateness

/-! ## The loop and the clock -/

/-- The loop began to accept in the past, backs off for a tenth of a second and ends with
the shutdown future. -/
structure Clocked (process : Process) : Prop where
  accepting : ∀ since, process.phase = .accepting since → since ≤ process.now
  backingOff : ∀ deadline, process.phase = .backingOff deadline →
    deadline ≤ process.now + acceptBackoff
  draining : ∀ deadline, process.phase = .draining deadline → process.shutdown = .resolved

theorem clocked_start (table : RouteTable) (tls : Bool) (now : Nat) :
    Clocked (start table tls now) := by
  constructor
  · intro since accepts
    cases accepts
    exact Nat.le_refl _
  · intro deadline backsOff
    cases backsOff
  · intro deadline drains
    cases drains

theorem Clocked.step {process after : Process} {move : Move} (clocked : Clocked process)
    (changed : Changes process move after) : Clocked after := by
  have kept : ∀ {next : Process}, next.phase = process.phase → process.now ≤ next.now →
      (process.shutdown = .resolved → next.shutdown = .resolved) → Clocked next := by
    intro next phase later resolved
    constructor
    · intro since accepts
      exact (clocked.accepting since (phase ▸ accepts)).trans later
    · intro deadline backsOff
      exact (clocked.backingOff deadline (phase ▸ backsOff)).trans (Nat.add_le_add_right later _)
    · intro deadline drains
      exact resolved (clocked.draining deadline (phase ▸ drains))
  have left : ∀ {next : Process}, next.phase.isOpen = false →
      (∀ deadline, next.phase = .draining deadline → next.shutdown = .resolved) →
      Clocked next := by
    intro next closed resolved
    constructor
    · intro since accepts
      simp [accepts, Phase.isOpen] at closed
    · intro deadline backsOff
      simp [backsOff, Phase.isOpen] at closed
    · exact resolved
  cases changed with
  | idle idle => exact kept idle.phase idle.now fun resolved => idle.shutdown.trans resolved
  | signalledAgain | awaitsSecond => exact kept rfl (Nat.le_refl _) id
  | signalled waits | flips _ waits =>
      exact kept rfl (Nat.le_refl _) fun resolved => by cases waits.symm.trans resolved
  | listens unpolled =>
      exact kept rfl (Nat.le_refl _) fun resolved => by cases unpolled.symm.trans resolved
  | killed | quits | ends => exact left rfl fun _ drains => by cases drains
  | flipsAndCloses | closes => exact left rfl fun _ _ => rfl
  | backsOff =>
      constructor
      · intro since accepts
        cases accepts
      · intro deadline backsOff
        cases backsOff
        exact Nat.le_refl _
      · intro deadline drains
        cases drains
  | resumes =>
      constructor
      · intro since accepts
        cases accepts
        exact Nat.le_refl _
      · intro deadline backsOff
        cases backsOff
      · intro deadline drains
        cases drains

theorem clocked_reach {process : Process} (clocked : Clocked process) (moves : List Move) :
    Clocked (reach Process.step process moves) := by
  induction moves generalizing process with
  | nil => exact clocked
  | cons move moves ih => exact ih (clocked.step (changes process move))

/-! ## From the signal to the exit -/

/-- The loop still accepts, and is back from a failed accept by the bound. -/
structure OpenBy (slack bound : Nat) (process : Process) : Prop where
  isOpen : process.phase.isOpen = true
  accepting : ∀ since, process.phase = .accepting since → since ≤ bound
  backingOff : ∀ deadline, process.phase = .backingOff deadline → deadline + slack ≤ bound

/-- The latest time at which each stage of a shutdown is left, counted from a limit for
the first poll after the signal. -/
inductive Within (slack delay drain limit : Nat) (process : Process) : Prop where
  | waiting {time : Nat} : process.shutdown = .waiting (some time) → time ≤ limit →
      OpenBy slack limit process → Within slack delay drain limit process
  | delaying {deadline : Nat} : process.shutdown = .delaying deadline →
      deadline ≤ limit + slack + delay → OpenBy slack (limit + slack + delay) process →
      Within slack delay drain limit process
  | draining {deadline : Nat} : process.phase = .draining deadline →
      deadline ≤ limit + 2 * slack + delay + drain → Within slack delay drain limit process
  | exited : process.isExited = true → Within slack delay drain limit process

section Shutdown

variable {slack delay drain : Nat} {process after : Process} {move : Move} {limit bound : Nat}

/-- The time that a failed accept can cost: its task may be late before and after the
back-off. -/
def failureCost (slack : Nat) (move : Move) : Nat :=
  if move = .accept false then acceptBackoff + 2 * slack else 0

theorem OpenBy.mono {later : Nat} (isOpen : OpenBy slack bound process) (le : bound ≤ later) :
    OpenBy slack later process where
  isOpen := isOpen.isOpen
  accepting := fun since accepts => (isOpen.accepting since accepts).trans le
  backingOff := fun deadline backsOff => (isOpen.backingOff deadline backsOff).trans le

theorem OpenBy.now_le (isOpen : OpenBy slack bound process) (timely : Timely slack process)
    {stage : Nat} (early : stage ≤ bound)
    (late : ∀ since, process.phase = .accepting since → process.now ≤ max stage since + slack) :
    process.now ≤ bound + slack := by
  cases phase : process.phase with
  | accepting since =>
      have latest := late since phase
      have begun := isOpen.accepting since phase
      omega
  | backingOff deadline =>
      have latest := timely _ _ (dueAt_backingOff phase)
      have ends := isOpen.backingOff deadline phase
      omega
  | draining deadline | exited exit =>
      have stillOpen := isOpen.isOpen
      simp [phase, Phase.isOpen] at stillOpen

/-- A move that leaves the loop open lets it be back by the bound and the cost of the
move. -/
theorem OpenBy.step (isOpen : OpenBy slack bound process) (timely : Timely slack process)
    (now : process.now ≤ bound + slack) (changed : Changes process move after)
    (stillOpen : after.phase.isOpen = true) :
    OpenBy slack (bound + failureCost slack move) after := by
  have kept : after.phase = process.phase → OpenBy slack (bound + failureCost slack move) after := by
    intro phase
    refine ⟨stillOpen, fun since accepts => ?_, fun deadline backsOff => ?_⟩
    · exact (isOpen.accepting since (phase ▸ accepts)).trans (Nat.le_add_right _ _)
    · exact (isOpen.backingOff deadline (phase ▸ backsOff)).trans (Nat.le_add_right _ _)
  cases changed with
  | idle idle => exact kept idle.phase
  | signalled | signalledAgain | listens | flips | awaitsSecond => exact kept rfl
  | killed | flipsAndCloses | closes | quits | ends => cases stillOpen
  | backsOff =>
      refine ⟨rfl, (fun since accepts => by cases accepts), fun deadline backsOff => ?_⟩
      cases backsOff
      simp only [failureCost, if_true]
      omega
  | resumes backsOff due =>
      refine ⟨rfl, fun since accepts => ?_, fun deadline backsOff => by cases backsOff⟩
      cases accepts
      have latest := timely _ _ (dueAt_backingOff backsOff)
      have ends := isOpen.backingOff _ backsOff
      omega

theorem Within.now_le (within : Within slack delay drain limit process)
    (timely : Timely slack process) (runs : process.isExited = false) :
    process.now ≤ limit + 3 * slack + delay + drain := by
  cases within with
  | waiting waits early isOpen =>
      have := isOpen.now_le timely early fun since phase =>
        timely _ _ (dueAt_signalled phase waits)
      omega
  | delaying delays early isOpen =>
      have := isOpen.now_le timely early fun since phase =>
        timely _ _ (dueAt_delayed phase delays)
      omega
  | draining drains early =>
      have := timely _ _ (dueAt_draining drains)
      omega
  | exited exits => simp [exits] at runs

theorem isExited_of_phase {exit : Exit} (exited : process.phase = .exited exit) :
    process.isExited = true := by
  rw [isExited, exited]

/-- Once the listener is closed, the process drains until it exits. -/
theorem closed_phase (changed : Changes process move after)
    (closed : process.phase.isOpen = false) :
    after.phase = process.phase ∨ ∃ exit, after.phase = .exited exit := by
  have notAccepting : ∀ {since : Nat}, process.phase ≠ .accepting since := by
    intro since accepts
    simp [accepts, Phase.isOpen] at closed
  cases changed with
  | idle idle => exact .inl idle.phase
  | signalled | signalledAgain | listens | awaitsSecond => exact .inl rfl
  | killed | quits | ends => exact .inr ⟨_, rfl⟩
  | flips accepts | flipsAndCloses accepts | closes accepts | backsOff accepts =>
      exact absurd accepts notAccepting
  | resumes backsOff => simp [backsOff, Phase.isOpen] at closed

theorem Within.step (within : Within slack delay drain limit process)
    (timely : Timely slack process) (changed : Changes process move after)
    (short : process.table.shutdownDelay.nanos ≤ delay ∧
      process.table.drainTimeout.nanos ≤ drain) :
    Within slack delay drain (limit + failureCost slack move) after := by
  cases within with
  | @waiting time waits early isOpen =>
      have now := isOpen.now_le timely early fun since phase =>
        timely _ _ (dueAt_signalled phase waits)
      have opened := isOpen.step timely now changed
      have early : time ≤ limit + failureCost slack move := early.trans (Nat.le_add_right _ _)
      cases changed with
      | idle idle =>
          exact .waiting (idle.shutdown.trans waits) early (opened (idle.phase ▸ isOpen.isOpen))
      | killed | quits => exact .exited rfl
      | signalled unheard => cases waits.symm.trans unheard
      | listens unpolled => cases waits.symm.trans unpolled
      | closes _ delays => cases waits.symm.trans delays
      | signalledAgain | awaitsSecond => exact .waiting waits early (opened isOpen.isOpen)
      | backsOff | resumes => exact .waiting waits early (opened rfl)
      | flips =>
          refine .delaying rfl (by omega) ?_
          exact (opened isOpen.isOpen).mono (by omega)
      | flipsAndCloses =>
          have ends : process.now + process.table.drainTimeout.nanos ≤
              limit + failureCost slack .pollShutdown + 2 * slack + delay + drain := by omega
          exact .draining rfl ends
      | ends drains =>
          have stillOpen := isOpen.isOpen
          simp [drains, Phase.isOpen] at stillOpen
  | @delaying deadline delays early isOpen =>
      have now := isOpen.now_le timely early fun since phase =>
        timely _ _ (dueAt_delayed phase delays)
      have opened : after.phase.isOpen = true →
          OpenBy slack (limit + failureCost slack move + slack + delay) after := by
        intro stillOpen
        exact (isOpen.step timely now changed stillOpen).mono (by omega)
      have early : deadline ≤ limit + failureCost slack move + slack + delay := by omega
      cases changed with
      | idle idle =>
          exact .delaying (idle.shutdown.trans delays) early (opened (idle.phase ▸ isOpen.isOpen))
      | killed | quits => exact .exited rfl
      | signalled unheard => cases delays.symm.trans unheard
      | listens unpolled => cases delays.symm.trans unpolled
      | flips _ waits | flipsAndCloses _ waits => cases delays.symm.trans waits
      | signalledAgain | awaitsSecond => exact .delaying delays early (opened isOpen.isOpen)
      | backsOff | resumes => exact .delaying delays early (opened rfl)
      | closes => exact .draining rfl (by omega)
      | ends drains =>
          have stillOpen := isOpen.isOpen
          simp [drains, Phase.isOpen] at stillOpen
  | @draining deadline drains early =>
      cases closed_phase changed (by simp [drains, Phase.isOpen]) with
      | inl same => exact .draining (same.trans drains) (by omega)
      | inr exits =>
          obtain ⟨exit, exited⟩ := exits
          exact .exited (isExited_of_phase exited)
  | exited exits =>
      cases phase : process.phase with
      | accepting | backingOff | draining => simp [isExited, phase] at exits
      | exited exit =>
          cases closed_phase changed (by simp [phase, Phase.isOpen]) with
          | inl same => exact .exited (isExited_of_phase (same.trans phase))
          | inr exits =>
              obtain ⟨other, exited⟩ := exits
              exact .exited (isExited_of_phase exited)

/-- What failed accepts cost over many moves. -/
def failureCosts (slack : Nat) (moves : List Move) : Nat := (moves.map (failureCost slack)).sum

theorem Within.run {moves : List Move} (within : Within slack delay drain limit process)
    (timely : ∀ front, front <+: moves → Timely slack (reach Process.step process front))
    (short : ∀ front, front <+: moves →
      (reach Process.step process front).table.shutdownDelay.nanos ≤ delay ∧
        (reach Process.step process front).table.drainTimeout.nanos ≤ drain) :
    Within slack delay drain (limit + failureCosts slack moves)
      (reach Process.step process moves) := by
  induction moves generalizing process limit with
  | nil => exact within
  | cons move moves ih =>
      have next := within.step (timely [] (List.nil_prefix)) (changes process move)
        (short [] (List.nil_prefix))
      rw [failureCosts, List.map_cons, List.sum_cons, ← Nat.add_assoc]
      exact ih next (fun front isPrefix => timely (move :: front)
        (List.cons_prefix_cons.mpr ⟨rfl, isPrefix⟩))
        fun front isPrefix => short (move :: front)
        (List.cons_prefix_cons.mpr ⟨rfl, isPrefix⟩)

end Shutdown

section Runs

variable {slack delay drain : Nat} {table : RouteTable} {tls : Bool} {now : Nat}

/-- From the moment a signal is heard. -/
theorem within_signalled {process after : Process} (clocked : Clocked process)
    (listens : process.shutdown = .waiting none) (isAfter : (process.step .signal).2 = after) :
    Within slack delay drain (process.now + (acceptBackoff + slack)) after := by
  cases exited : process.isExited with
  | true =>
      rw [step, if_pos exited] at isAfter
      exact .exited (isAfter ▸ exited)
  | false =>
      have heard : after = { process with shutdown := .waiting (some process.now) } := by
        rw [← isAfter, step, exited]
        simp [moved, Process.signal, listens]
      subst heard
      refine .waiting rfl (Nat.le_add_right _ _) ⟨?_, fun since accepts => ?_, fun _ backsOff => ?_⟩
      · cases phase : process.phase with
        | accepting | backingOff => rfl
        | draining deadline => cases listens.symm.trans (clocked.draining deadline phase)
        | exited exit => simp [isExited, phase] at exited
      · exact (clocked.accepting since accepts).trans (Nat.le_add_right _ _)
      · have := clocked.backingOff _ backsOff
        omega

/-- A process that took a signal runs no longer than the delay, the drain timeout, the
back-offs after failed accepts and the lateness with which its tasks are run. -/
theorem shutdown_bounded {before later : List Move} {heard last : Process}
    (isHeard : heard = reach step (start table tls now) before)
    (listens : heard.shutdown = .waiting none)
    (isLast : last = reach step (start table tls now) (before ++ .signal :: later))
    (prompt : ∀ front, front <+: later →
      Prompt slack (start table tls now) (before ++ .signal :: front))
    (short : ∀ front, front <+: later →
      (reach step (start table tls now) (before ++ .signal :: front)).table.shutdownDelay.nanos ≤
          delay ∧
        (reach step (start table tls now) (before ++ .signal :: front)).table.drainTimeout.nanos ≤
          drain)
    (runs : last.isExited = false) :
    last.now ≤ heard.now + (acceptBackoff + slack) + failureCosts slack later +
      3 * slack + delay + drain := by
  have splits (front : List Move) :
      reach step (start table tls now) (before ++ .signal :: front) =
        reach step (heard.step .signal).2 front := by
    rw [isHeard, reach, List.foldl_append, List.foldl_cons]
    rfl
  have clocked : Clocked heard := isHeard ▸ clocked_reach (clocked_start table tls now) before
  have within : Within slack delay drain (heard.now + (acceptBackoff + slack))
      (heard.step .signal).2 := within_signalled clocked listens rfl
  have timely : ∀ front, front <+: later →
      Timely slack (reach step (heard.step .signal).2 front) :=
    fun front isPrefix => splits front ▸ (prompt front isPrefix).timely
  have ends := within.run timely fun front isPrefix => splits front ▸ short front isPrefix
  rw [isLast, splits] at runs ⊢
  exact ends.now_le (timely later List.prefix_rfl) runs

end Runs

/-! ## A shutdown with a lateness of a millisecond -/

/-- Every wait that a process can have. -/
def waits (process : Process) : List Move :=
  [.pollShutdown, .backoffOver, .finishDrain] ++
    (List.range process.connections.length).flatMap fun index =>
      [.connection index .handshakeTimeout, .connection index .firstRequestDeadline]

theorem mem_waits {process : Process} {move : Move} {due : Nat}
    (waiting : process.dueAt move = some due) : move ∈ process.waits := by
  unfold dueAt at waiting
  split at waiting
  · simp [waits]
  · simp [waits]
  · simp [waits]
  · simp [waits]
  · cases waiting
  · next _ index inner _ =>
    obtain ⟨task, found, sleeps⟩ := Option.bind_eq_some_iff.mp waiting
    have bound := (List.getElem?_eq_some_iff.mp found).1
    refine List.mem_append_right _ (List.mem_flatMap.mpr ⟨index, List.mem_range.mpr bound, ?_⟩)
    unfold ConnectionTask.dueAt at sleeps
    split at sleeps
    · simp
    · simp
    · cases sleeps
  · cases waiting

instance (slack : Nat) (process : Process) : Decidable (Timely slack process) :=
  decidable_of_iff
    (∀ move ∈ process.waits, ∀ due ∈ process.dueAt move, process.now ≤ due + slack)
    ⟨fun timely move due waiting => timely move (mem_waits waiting) due waiting,
      fun timely move _ due waiting => timely move due waiting⟩

/-- The sleeps after the failed accept and of the delay are over for a millisecond when
their task runs. -/
def tardyMoves : List Move :=
  [.pollShutdown, .accept false, .tick (10 ^ 8 + 10 ^ 6), .backoffOver, .tick (5 * 10 ^ 9 - 10 ^ 8),
    .pollShutdown, .tick (25 * 10 ^ 9)]

def tardy : Process :=
  reach step (start patientTable false 0) ([.pollShutdown] ++ .signal :: tardyMoves)

theorem patient_bounded :
    tardy.isExited = false ∧
      tardy.now ≤ 0 + (acceptBackoff + 10 ^ 6) + failureCosts (10 ^ 6) tardyMoves + 3 * 10 ^ 6 +
        5 * 10 ^ 9 + 25 * 10 ^ 9 := by
  have timely : ∀ front ∈ tardyMoves.inits, Timely (10 ^ 6)
      (reach step (start patientTable false 0) ([.pollShutdown] ++ .signal :: front)) := by
    decide +kernel
  have short : ∀ front ∈ tardyMoves.inits,
      (reach step (start patientTable false 0)
          ([.pollShutdown] ++ .signal :: front)).table.shutdownDelay.nanos ≤ 5 * 10 ^ 9 ∧
        (reach step (start patientTable false 0)
          ([.pollShutdown] ++ .signal :: front)).table.drainTimeout.nanos ≤ 25 * 10 ^ 9 := by
    decide +kernel
  have runs : tardy.isExited = false := by decide +kernel
  refine ⟨runs, ?_⟩
  exact shutdown_bounded (rfl : reach step (start patientTable false 0) [.pollShutdown] = _)
    (by decide +kernel) (rfl : tardy = _)
    (fun front isPrefix => (timely front ((List.mem_inits _ _).mpr isPrefix)).prompt)
    (fun front isPrefix => short front ((List.mem_inits _ _).mpr isPrefix)) runs

end Process

end Ferryman.Server
