import Ferryman.Server.Serve

/-!
# The order of a shutdown

In every run the readiness endpoint turns first, the listener closes after the
delay, and the process exits for one of three reasons.
-/

set_option autoImplicit false

namespace Ferryman.Server

open Ferryman.Core Byte Bytes

namespace Process

/-! ## What one move does to the shutdown -/

/-- The moves that only touch the clock, the table or the connections. -/
structure Idle (process after : Process) : Prop where
  phase : after.phase = process.phase
  shutdown : after.shutdown = process.shutdown
  second : after.second = process.second
  draining : after.draining = process.draining
  now : process.now ≤ after.now

inductive Changes (process : Process) : Move → Process → Prop where
  | idle {move : Move} {after : Process} : Idle process after → Changes process move after
  | killed : process.shutdown = .unpolled →
      Changes process .signal { process with phase := .exited .killed }
  | signalled : process.shutdown = .waiting none →
      Changes process .signal { process with shutdown := .waiting (some process.now) }
  | signalledAgain {heard : Bool} : process.second = .listening heard →
      Changes process .signal { process with second := .listening true }
  | listens : process.shutdown = .unpolled →
      Changes process .pollShutdown { process with shutdown := .waiting none }
  | flips {since time : Nat} {second : SecondSignal} : process.phase = .accepting since →
      process.shutdown = .waiting (some time) →
      (∀ notified, process.second = .idle notified → second = .idle true) →
      process.table.shutdownDelay.nanos ≠ 0 →
      Changes process .pollShutdown { process with
        second := second
        draining := true
        shutdown := .delaying (process.now + process.table.shutdownDelay.nanos) }
  | flipsAndCloses {since time : Nat} {second : SecondSignal} :
      process.phase = .accepting since → process.shutdown = .waiting (some time) →
      (∀ notified, process.second = .idle notified → second = .idle true) →
      process.table.shutdownDelay.nanos = 0 →
      Changes process .pollShutdown
        { process with second := second, draining := true }.stopAccepting
  | closes {since deadline : Nat} : process.phase = .accepting since →
      process.shutdown = .delaying deadline → deadline ≤ process.now →
      Changes process .pollShutdown process.stopAccepting
  | awaitsSecond : process.second = .idle true →
      Changes process .pollSecond { process with second := .listening false }
  | quits : process.second = .listening true →
      Changes process .pollSecond { process with phase := .exited (.code 130) }
  | backsOff {since : Nat} : process.phase = .accepting since →
      Changes process (.accept false)
        { process with phase := .backingOff (process.now + acceptBackoff) }
  | resumes {deadline : Nat} : process.phase = .backingOff deadline → deadline ≤ process.now →
      Changes process .backoffOver { process with phase := .accepting process.now }
  | ends {deadline : Nat} : process.phase = .draining deadline →
      process.Drained ∨ deadline ≤ process.now →
      Changes process .finishDrain { process with phase := .exited (.code 0) }

theorem Idle.refl (process : Process) : Idle process process := ⟨rfl, rfl, rfl, rfl, Nat.le_refl _⟩

section Moves

variable {process : Process}

theorem changes_signal : Changes process .signal process.signal := by
  unfold Process.signal
  split
  · next unpolled => exact .killed unpolled
  · next waiting => exact .signalled waiting
  · split
    · next listening => exact .signalledAgain listening
    · exact .idle (.refl process)

theorem changes_pollShutdown : Changes process .pollShutdown process.pollShutdown := by
  have notifies : ∀ notified, process.second = .idle notified →
      process.second.notify = .idle true := by
    intro notified isIdle
    rw [isIdle, SecondSignal.notify]
  unfold Process.pollShutdown
  split
  · next unpolled => exact .listens unpolled
  · next isOpen signalled =>
    by_cases zero : process.table.shutdownDelay.nanos = 0
    · simp only [if_pos zero]
      exact .flipsAndCloses isOpen signalled notifies zero
    · simp only [if_neg zero]
      exact .flips isOpen signalled notifies zero
  · next isOpen delays =>
    split
    · next due => exact .closes isOpen delays due
    · exact .idle (.refl process)
  · exact .idle (.refl process)

theorem changes_pollSecond : Changes process .pollSecond process.pollSecond := by
  unfold Process.pollSecond
  split
  · next notified => exact .awaitsSecond notified
  · next heard => exact .quits heard
  · exact .idle (.refl process)

theorem changes_accept (succeeds : Bool) :
    Changes process (.accept succeeds) (process.accept succeeds) := by
  unfold Process.accept
  split
  · next isOpen =>
    cases succeeds with
    | true => exact .idle ⟨rfl, rfl, rfl, rfl, Nat.le_refl _⟩
    | false => exact .backsOff isOpen
  · exact .idle (.refl process)

theorem changes_backoffOver : Changes process .backoffOver process.backoffOver := by
  unfold Process.backoffOver
  split
  · next backsOff =>
    split
    · next due => exact .resumes backsOff due
    · exact .idle (.refl process)
  · exact .idle (.refl process)

theorem changes_finishDrain : Changes process .finishDrain process.finishDrain := by
  unfold Process.finishDrain
  split
  · next drains =>
    split
    · next drained => exact .ends drains drained
    · exact .idle (.refl process)
  · exact .idle (.refl process)

theorem idle_stepConnection (index : Nat) (move : ConnectionTask.Move) :
    Idle process (process.stepConnection index move) :=
  ⟨rfl, rfl, rfl, rfl, Nat.le_refl _⟩

theorem changes (process : Process) (move : Move) :
    Changes process move (process.step move).2 := by
  unfold Process.step
  split
  · exact .idle (.refl process)
  cases move with
  | tick nanos => exact .idle ⟨rfl, rfl, rfl, rfl, Nat.le_add_right _ _⟩
  | signal => exact changes_signal
  | reload table => exact .idle ⟨rfl, rfl, rfl, rfl, Nat.le_refl _⟩
  | pollShutdown => exact changes_pollShutdown
  | pollSecond => exact changes_pollSecond
  | accept succeeds => exact changes_accept succeeds
  | backoffOver => exact changes_backoffOver
  | finishDrain => exact changes_finishDrain
  | connection index move => exact .idle (idle_stepConnection index move)
  | admin method path metrics => exact .idle (.refl process)

end Moves

/-! ## Histories -/

/-- One step of a run, with the states around it. -/
abbrev Moment := Step Process Move (Option Response)

/-- `/readyz` turns. -/
def Flips (moment : Moment) : Prop :=
  moment.before.draining = false ∧ moment.after.draining = true

/-- The listener is dropped to drain the connections. -/
def Closes (moment : Moment) : Prop :=
  moment.before.phase.isOpen = true ∧ ∃ deadline, moment.after.phase = .draining deadline

/-- A turn that a signal came before. -/
def Turned (history : List Moment) : Prop :=
  ∃ past flip later, history = past ++ flip :: later ∧ Flips flip ∧
    Move.signal ∈ past.map Step.input

/-- Both signals that it takes to leave without draining, with the turn between them. -/
def TwoSignals (history : List Moment) : Prop :=
  ∃ past flip later, history = past ++ flip :: later ∧ Flips flip ∧
    Move.signal ∈ past.map Step.input ∧ Move.signal ∈ later.map Step.input

/-- What the state says about the steps that led to it. -/
structure Explains (history : List Moment) (process : Process) : Prop where
  signalled : ∀ time, process.shutdown = .waiting (some time) → Move.signal ∈ history.map Step.input
  turned : process.draining = true → Turned history
  stays : (∃ flip ∈ history, Flips flip) → process.draining = true
  quiet : process.draining = false ↔
    process.shutdown = .unpolled ∨ ∃ signalled, process.shutdown = .waiting signalled
  alone : process.draining = false → process.second = .idle false
  delaying : ∀ deadline, process.shutdown = .delaying deadline → ∃ flip ∈ history, Flips flip ∧
    deadline = flip.before.now + flip.before.table.shutdownDelay.nanos
  closed : ∀ deadline, process.phase = .draining deadline → ∃ close ∈ history, Closes close ∧
    deadline = close.before.now + close.before.table.drainTimeout.nanos
  again : process.second = .listening true → TwoSignals history

theorem explains_start (table : RouteTable) (tls : Bool) (now : Nat) :
    Explains [] (start table tls now) := by
  constructor
  · intro time waiting
    cases waiting
  · intro turned
    cases turned
  · intro found
    obtain ⟨flip, member, -⟩ := found
    cases member
  · exact iff_of_true rfl (.inl rfl)
  · exact fun _ => rfl
  · intro deadline delays
    cases delays
  · intro deadline drains
    cases drains
  · intro heard
    cases heard

section Steps

variable {history : List Moment} {moment : Moment}

theorem earlier_moment {property : Moment → Prop} (found : ∃ step ∈ history, property step) :
    ∃ step ∈ history ++ [moment], property step := by
  obtain ⟨step, member, holds⟩ := found
  exact ⟨step, List.mem_append_left _ member, holds⟩

theorem last_moment {property : Moment → Prop} (holds : property moment) :
    ∃ step ∈ history ++ [moment], property step :=
  ⟨moment, List.mem_append_right _ List.mem_cons_self, holds⟩

theorem earlier_signal (found : Move.signal ∈ history.map Step.input) :
    Move.signal ∈ (history ++ [moment]).map Step.input := by
  rw [List.map_append]
  exact List.mem_append_left _ found

theorem Turned.extend (turned : Turned history) : Turned (history ++ [moment]) := by
  obtain ⟨past, flip, later, rfl, flips, signalled⟩ := turned
  exact ⟨past, flip, later ++ [moment], by simp, flips, signalled⟩

theorem Turned.signalled (turned : Turned history) (isSignal : moment.input = .signal) :
    TwoSignals (history ++ [moment]) := by
  obtain ⟨past, flip, later, rfl, flips, signalled⟩ := turned
  exact ⟨past, flip, later ++ [moment], by simp, flips, signalled, by simp [isSignal]⟩

theorem TwoSignals.extend (twice : TwoSignals history) : TwoSignals (history ++ [moment]) := by
  obtain ⟨past, flip, later, rfl, flips, signalled, again⟩ := twice
  exact ⟨past, flip, later ++ [moment], by simp, flips, signalled, earlier_signal again⟩

/-- A step that is no turn leaves the flag as it is. -/
theorem Explains.stays_of_same (explains : Explains history moment.before)
    (same : moment.after.draining = moment.before.draining)
    (found : ∃ flip ∈ history ++ [moment], Flips flip) : moment.after.draining = true := by
  obtain ⟨flip, member, flips⟩ := found
  cases List.mem_append.mp member with
  | inl earlier => exact same.trans (explains.stays ⟨flip, earlier, flips⟩)
  | inr last =>
      obtain rfl := List.mem_singleton.mp last
      exact flips.2

/-- What keeps the flag and the futures keeps the explanation of them. -/
theorem Explains.keep (explains : Explains history moment.before)
    (shutdown : moment.after.shutdown = moment.before.shutdown)
    (second : moment.after.second = moment.before.second)
    (draining : moment.after.draining = moment.before.draining)
    (phase : ∀ deadline, moment.after.phase = .draining deadline →
      moment.before.phase = .draining deadline) :
    Explains (history ++ [moment]) moment.after where
  signalled := fun time waits => earlier_signal (explains.signalled time (shutdown ▸ waits))
  turned := fun turned => (explains.turned (draining ▸ turned)).extend
  stays := explains.stays_of_same draining
  quiet := by
    rw [draining, shutdown]
    exact explains.quiet
  alone := fun unturned => second ▸ explains.alone (draining ▸ unturned)
  delaying := fun deadline delays => earlier_moment (explains.delaying deadline (shutdown ▸ delays))
  closed := fun deadline drains => earlier_moment (explains.closed deadline (phase deadline drains))
  again := fun heard => (explains.again (second ▸ heard)).extend

/-- The second signal is looked at only when the process is draining. -/
theorem Explains.draining_of_second {process : Process} (explains : Explains history process)
    (told : process.second ≠ .idle false) : process.draining = true := by
  by_contra unturned
  exact told (explains.alone (by simpa using unturned))

/-- Before the turn, the shutdown future only comes to wait, and only a signal ends that. -/
theorem Explains.waits (explains : Explains history moment.before) {signalled : Option Nat}
    (unturned : moment.before.draining = false)
    (shutdown : moment.after.shutdown = .waiting signalled)
    (second : moment.after.second = moment.before.second)
    (draining : moment.after.draining = moment.before.draining)
    (phase : moment.after.phase = moment.before.phase)
    (heard : signalled.isSome = true → moment.input = .signal) :
    Explains (history ++ [moment]) moment.after where
  signalled := by
    intro time waits
    obtain rfl : signalled = some time := ShutdownFuture.waiting.inj (shutdown.symm.trans waits)
    simp [heard rfl]
  turned := fun turned => (explains.turned (draining ▸ turned)).extend
  stays := explains.stays_of_same draining
  quiet := iff_of_true (draining.trans unturned) (.inr ⟨signalled, shutdown⟩)
  alone := fun _ => second ▸ explains.alone unturned
  delaying := fun deadline delays => by cases shutdown.symm.trans delays
  closed := fun deadline drains => earlier_moment (explains.closed deadline (phase ▸ drains))
  again := fun heard => (explains.again (second ▸ heard)).extend

/-- After the turn, a second signal may be heard. -/
theorem Explains.hears (explains : Explains history moment.before)
    (turned : moment.before.draining = true)
    (shutdown : moment.after.shutdown = moment.before.shutdown)
    (draining : moment.after.draining = moment.before.draining)
    (phase : moment.after.phase = moment.before.phase)
    (heard : moment.after.second = .listening true → moment.input = .signal) :
    Explains (history ++ [moment]) moment.after where
  signalled := fun time waits => earlier_signal (explains.signalled time (shutdown ▸ waits))
  turned := fun _ => (explains.turned turned).extend
  stays := fun _ => draining.trans turned
  quiet := by
    rw [draining, shutdown]
    exact explains.quiet
  alone := fun unturned => by simp [draining, turned] at unturned
  delaying := fun deadline delays => earlier_moment (explains.delaying deadline (shutdown ▸ delays))
  closed := fun deadline drains => earlier_moment (explains.closed deadline (phase ▸ drains))
  again := fun listens => (explains.turned turned).signalled (heard listens)

/-- What is known once the shutdown future is past its wait. -/
theorem Explains.passes (explains : Explains history moment.before)
    (turned : moment.after.draining = true) (isTurned : Turned (history ++ [moment]))
    (passed : ¬(moment.after.shutdown = .unpolled ∨
      ∃ signalled, moment.after.shutdown = .waiting signalled))
    (delaying : ∀ deadline, moment.after.shutdown = .delaying deadline → Flips moment ∧
      deadline = moment.before.now + moment.before.table.shutdownDelay.nanos)
    (closed : ∀ deadline, moment.after.phase = .draining deadline →
      moment.before.phase = .draining deadline ∨
        Closes moment ∧ deadline = moment.before.now + moment.before.table.drainTimeout.nanos)
    (again : moment.after.second = .listening true → moment.before.second = .listening true) :
    Explains (history ++ [moment]) moment.after where
  signalled := fun time waits => absurd (.inr ⟨some time, waits⟩) passed
  turned := fun _ => isTurned
  stays := fun _ => turned
  quiet := iff_of_false (by simp [turned]) passed
  alone := fun unturned => by simp [turned] at unturned
  delaying := fun deadline delays => last_moment (delaying deadline delays)
  closed := by
    intro deadline drains
    cases closed deadline drains with
    | inl before => exact earlier_moment (explains.closed deadline before)
    | inr closes => exact last_moment closes
  again := fun heard => (explains.again (again heard)).extend

theorem Explains.extend {process after : Process} {move : Move} {output : Option Response}
    (explains : Explains history process) (changed : Changes process move after) :
    Explains (history ++ [⟨process, move, output, after⟩]) after := by
  cases changed with
  | idle idle =>
      exact explains.keep idle.shutdown idle.second idle.draining fun _ drains =>
        idle.phase ▸ drains
  | killed | quits | backsOff | resumes | ends =>
      exact explains.keep rfl rfl rfl fun _ drains => by cases drains
  | signalled waits =>
      exact explains.waits (explains.quiet.mpr (.inr ⟨_, waits⟩)) rfl rfl rfl rfl fun _ => rfl
  | listens unpolled =>
      refine explains.waits (explains.quiet.mpr (.inl unpolled)) rfl rfl rfl rfl fun heard => ?_
      cases heard
  | signalledAgain listens =>
      have turned := explains.draining_of_second (by simp [listens])
      exact explains.hears turned rfl rfl rfl fun _ => rfl
  | awaitsSecond notified =>
      have turned := explains.draining_of_second (by simp [notified])
      refine explains.hears turned rfl rfl rfl fun heard => ?_
      cases heard
  | flips isOpen waits notifies nonzero =>
      have unturned : process.draining = false := explains.quiet.mpr (.inr ⟨_, waits⟩)
      refine explains.passes rfl ⟨history, _, [], rfl, ⟨unturned, rfl⟩, explains.signalled _ waits⟩
        (by simp) (fun deadline delays => ?_) (fun deadline drains => .inl drains) fun heard => ?_
      · cases delays
        exact ⟨⟨unturned, rfl⟩, rfl⟩
      · cases (notifies false (explains.alone unturned)).symm.trans heard
  | flipsAndCloses isOpen waits notifies zero =>
      have unturned : process.draining = false := explains.quiet.mpr (.inr ⟨_, waits⟩)
      refine explains.passes rfl ⟨history, _, [], rfl, ⟨unturned, rfl⟩, explains.signalled _ waits⟩
        (by simp [stopAccepting]) (fun deadline delays => by cases delays)
        (fun deadline drains => ?_) fun heard => ?_
      · cases drains
        exact .inr ⟨⟨by simp [isOpen, Phase.isOpen], _, rfl⟩, rfl⟩
      · cases (notifies false (explains.alone unturned)).symm.trans heard
  | closes isOpen delays due =>
      have turned : process.draining = true := by
        by_contra unturned
        have early := explains.quiet.mp (by simpa using unturned)
        simp [delays] at early
      refine explains.passes turned (explains.turned turned).extend (by simp [stopAccepting])
        (fun deadline delays => by cases delays) (fun deadline drains => ?_) fun heard => heard
      cases drains
      exact .inr ⟨⟨by simp [isOpen, Phase.isOpen], _, rfl⟩, rfl⟩

end Steps

theorem explains_step {history : List Moment} {process : Process} (move : Move)
    (explains : Explains history process) :
    Explains (history ++ [Step.take step process move]) (process.step move).2 :=
  explains.extend (changes process move)

/-! ## Every run -/

section Runs

variable {table : RouteTable} {tls : Bool} {now : Nat} {moves : List Move}
  {past rest : List Moment} {current : Moment}

theorem explains_before (split : trace step (start table tls now) moves = past ++ current :: rest) :
    Explains past current.before ∧ current = Step.take step current.before current.input ∧
      Changes current.before current.input current.after := by
  have invariant := trace_invariant (explains_start table tls now)
    (fun _ _ move _ explains => explains_step move explains) split
  refine ⟨invariant.1, invariant.2.1, ?_⟩
  rw [invariant.2.1]
  exact changes _ _

/-- The listener is dropped only by a poll of the shutdown future that finds the delay
over. -/
theorem Explains.closes_after_delay {history : List Moment} {process after : Process} {move : Move}
    {output : Option Response} (explains : Explains history process)
    (changed : Changes process move after) (closes : Closes ⟨process, move, output, after⟩) :
    ∃ flip ∈ history ++ [⟨process, move, output, after⟩], Flips flip ∧
      flip.before.now + flip.before.table.shutdownDelay.nanos ≤ process.now := by
  obtain ⟨isOpen, deadline, drains⟩ := closes
  have stillOpen : after.phase ≠ process.phase := by
    intro same
    rw [drains] at same
    simp [← same, Phase.isOpen] at isOpen
  cases changed with
  | idle idle => exact absurd idle.phase stillOpen
  | killed | quits | backsOff | resumes | ends => cases drains
  | signalled | signalledAgain | listens | flips | awaitsSecond => exact absurd rfl stillOpen
  | flipsAndCloses _ waits _ zero =>
      have unturned : process.draining = false := explains.quiet.mpr (.inr ⟨_, waits⟩)
      refine last_moment ⟨⟨unturned, rfl⟩, ?_⟩
      simp [zero]
  | closes _ delays due =>
      obtain ⟨flip, member, flips, rfl⟩ := explains.delaying _ delays
      exact earlier_moment ⟨flip, member, flips, due⟩

/-- A poll of the shutdown future between two accepts takes a signal that has come, and
the readiness endpoint turns. It tells so from then on, and the listener closes no
earlier than the delay of that moment after it. Until then it stays open. -/
theorem readiness_turns_first
    (split : trace step (start table tls now) moves = past ++ current :: rest)
    (runs : current.before.isExited = false) :
    (∀ metrics, current.input = .admin .get (ascii "/readyz") metrics →
      (Turned past ∧ current.output = some (respond 503 plainText (ascii "draining"))) ∨
        ((∀ flip ∈ past, ¬Flips flip) ∧
          current.output = some (respond 200 plainText (ascii "ok")))) ∧
    (∀ since time, current.input = .pollShutdown → current.before.phase = .accepting since →
      current.before.shutdown = .waiting (some time) → Flips current) ∧
    (Closes current → ∃ flip ∈ past ++ [current], Flips flip ∧
      flip.before.now + flip.before.table.shutdownDelay.nanos ≤ current.before.now) ∧
    (current.before.phase.isOpen = true ∨ ∃ close ∈ past, Closes close) := by
  obtain ⟨explains, taken, changed⟩ := explains_before split
  refine ⟨fun metrics asks => ?_, fun since time polls accepts waits => ?_, fun closes => ?_, ?_⟩
  · have output : current.output = some (if current.before.draining then
        respond 503 plainText (ascii "draining") else respond 200 plainText (ascii "ok")) := by
      rw [taken, Step.take, asks]
      simp only [step, runs]
      rfl
    cases draining : current.before.draining with
    | true =>
        exact .inl ⟨explains.turned draining, by simp [output, draining]⟩
    | false =>
        refine .inr ⟨fun flip member flips => ?_, by simp [output, draining]⟩
        rw [explains.stays ⟨flip, member, flips⟩] at draining
        cases draining
  · have turns : current.after.draining = true := by
      rw [taken, Step.take, polls]
      simp only [step, runs, moved, Process.pollShutdown, accepts, waits]
      by_cases zero : current.before.table.shutdownDelay.nanos = 0 <;> simp [zero, stopAccepting]
    exact ⟨explains.quiet.mpr (.inr ⟨_, waits⟩), turns⟩
  · exact explains.closes_after_delay changed closes
  · cases phase : current.before.phase with
    | accepting since => exact .inl rfl
    | backingOff deadline => exact .inl rfl
    | draining deadline =>
        obtain ⟨close, member, closes, -⟩ := explains.closed deadline phase
        exact .inr ⟨close, member, closes⟩
    | exited exit => simp [isExited, phase] at runs

theorem Explains.exits_for {history : List Moment} {process after : Process} {move : Move}
    {exit : Exit} (explains : Explains history process) (changed : Changes process move after)
    (runs : process.isExited = false) (exits : after.phase = .exited exit) :
    (exit = .killed ∧ move = .signal ∧ process.shutdown = .unpolled) ∨
    (exit = .code 130 ∧ TwoSignals history) ∨
    (exit = .code 0 ∧ ∃ close ∈ history, Closes close ∧
      (process.Drained ∨
        close.before.now + close.before.table.drainTimeout.nanos ≤ process.now)) := by
  have running : process.phase ≠ .exited exit := by
    intro exited
    simp [isExited, exited] at runs
  cases changed with
  | idle idle => exact absurd (idle.phase.symm.trans exits) running
  | signalled | signalledAgain | listens | flips | awaitsSecond => exact absurd exits running
  | flipsAndCloses | closes | backsOff | resumes => cases exits
  | killed unpolled => exact .inl ⟨(Phase.exited.inj exits).symm, rfl, unpolled⟩
  | quits heard => exact .inr (.inl ⟨(Phase.exited.inj exits).symm, explains.again heard⟩)
  | ends drains drained =>
      obtain ⟨close, member, closes, rfl⟩ := explains.closed _ drains
      exact .inr (.inr ⟨(Phase.exited.inj exits).symm, close, member, closes, drained⟩)

/-- A process exits when a signal finds no handler because the shutdown future was never
polled, when a second signal follows the one that was taken, or when it was drained or
had the time for it. -/
theorem exit_reasons {exit : Exit}
    (split : trace step (start table tls now) moves = past ++ current :: rest)
    (runs : current.before.isExited = false) (exits : current.after.phase = .exited exit) :
    (exit = .killed ∧ current.input = .signal ∧ current.before.shutdown = .unpolled) ∨
    (exit = .code 130 ∧ TwoSignals past) ∨
    (exit = .code 0 ∧ ∃ close ∈ past, Closes close ∧
      (current.before.Drained ∨
        close.before.now + close.before.table.drainTimeout.nanos ≤ current.before.now)) := by
  obtain ⟨explains, -, changed⟩ := explains_before split
  exact explains.exits_for changed runs exits

end Runs

/-! ## A process with nothing to drain -/

/-- It stays for five seconds after the signal. -/
def patientTable : RouteTable :=
  { RouteTable.new [] (.fromSecs 30) with shutdownDelay := .fromSecs 5 }

def patientMoves : List Move :=
  [.pollShutdown, .signal, .pollShutdown, .tick (5 * 10 ^ 9), .pollShutdown]

def patientTrace (moves : List Move) : List Moment :=
  trace step (start patientTable false 0) moves

theorem patient_readiness :
    ∃ flip ∈ patientTrace patientMoves, Flips flip ∧
      flip.before.now + flip.before.table.shutdownDelay.nanos ≤ 5 * 10 ^ 9 := by
  have split : patientTrace patientMoves =
      patientTrace (patientMoves.take 4) ++ Step.take step
        (reach step (start patientTable false 0) (patientMoves.take 4)) .pollShutdown :: [] := rfl
  have turns := readiness_turns_first split (by decide +kernel)
  exact turns.2.2.1 ⟨by decide +kernel, 30 * 10 ^ 9, by decide +kernel⟩

theorem patient_exit :
    ∃ close ∈ patientTrace patientMoves, Closes close := by
  have split : patientTrace (patientMoves ++ [.finishDrain]) =
      patientTrace patientMoves ++ Step.take step
        (reach step (start patientTable false 0) patientMoves) .finishDrain :: [] := rfl
  have exits : ((reach step (start patientTable false 0) patientMoves).step .finishDrain).2.phase =
      .exited (.code 0) := by decide +kernel
  rcases exit_reasons split (by decide +kernel) exits with ⟨killed, -⟩ | ⟨twice, -⟩ | ⟨-, close, member, closes, -⟩
  · cases killed
  · cases twice
  · exact ⟨close, member, closes⟩

end Process

end Ferryman.Server
