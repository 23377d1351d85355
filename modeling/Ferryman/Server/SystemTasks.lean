import Ferryman.Core.Warrants
import Ferryman.Server.SystemMoves

/-!
# Tasks that share breakers

What holds of every task between two moves, while the failures that were counted
on each breaker are tallied.
-/

set_option autoImplicit false

namespace Ferryman.Server

open Ferryman.Core Byte Bytes Program

namespace Proxy

/-! ## Operations under way -/

/-- An operation on a breaker for which this many failures were counted. Only one that
may count, and has not, is without a count of its own. -/
def Running (limit total : Nat) {α : Type} (final : Warrant → α → Prop) (mayCount : Bool)
    (counted : Option BreakerId) (left : Program Atomic α) : Prop :=
  ∃ warrant : Warrant, warrant.Holds limit total ∧
    left.Walks (warrantAutomaton limit) final warrant ∧
    (warrant = .fresh → counted = none) ∧
    (mayCount = false → counted = none ∧ warrant ≠ .fresh)

section Running

variable {limit total later clock : Nat} {α γ : Type} {final : Warrant → α → Prop}
  {mayCount : Bool} {counted : Option BreakerId} {b after : Breaker}

theorem Running.mono {left : Program Atomic α}
    (running : Running limit total final mayCount counted left) (le : total ≤ later) :
    Running limit later final mayCount counted left := by
  obtain ⟨warrant, holds, walks, unused, quiet⟩ := running
  exact ⟨warrant, holds.mono le, walks, unused, quiet⟩

theorem running_calm {left : Program Atomic α}
    (walks : left.Walks (warrantAutomaton limit) final .calm) :
    Running limit total final mayCount none left :=
  ⟨.calm, trivial, walks, fun _ => rfl, fun _ => ⟨rfl, by simp⟩⟩

theorem running_fresh {left : Program Atomic α}
    (walks : left.Walks (warrantAutomaton limit) final .fresh) :
    Running limit total final true none left :=
  ⟨.fresh, trivial, walks, fun _ => rfl, fun quiet => by cases quiet⟩

theorem recallCount_of_counts {cell : BreakerId} {effect : Atomic γ}
    (counts : countsFailure effect = true) : recallCount counted cell effect = some cell := by
  cases effect with
  | fetchAddFailures => rfl
  | _ => cases counts

theorem recallCount_of_not_counts {cell : BreakerId} {effect : Atomic γ}
    (quiet : countsFailure effect = false) : recallCount counted cell effect = counted := by
  cases effect with
  | fetchAddFailures => cases quiet
  | _ => rfl

/-- One atomic operation of a task keeps the tally of the breaker. When it counts a
failure, the task had counted none before. -/
theorem Running.exec {cell : BreakerId} {effect : Atomic γ} {rest : γ → Program Atomic α}
    {answer : γ} (running : Running limit total final mayCount counted (perform effect rest))
    (tallied : Tallied limit total b) (answered : Atomic.exec clock effect b = (answer, after))
    (isLater : later = total + if countsFailure effect then 1 else 0) :
    Tallied limit later after ∧
      Running limit later final mayCount (recallCount counted cell effect) (rest answer) ∧
      (countsFailure effect = true → counted = none ∧ mayCount = true) := by
  obtain ⟨warrant, holds, walks, unused, quiet⟩ := running
  obtain ⟨next, moved, follows⟩ := walks answer (tallied.possible answered)
  obtain ⟨talliedAfter, holdsAfter⟩ := tallied.exec holds moved answered isLater
  have onlyFresh : countsFailure effect = true → counted = none ∧ mayCount = true := by
    intro counts
    have fresh := moved.fresh_of_counts counts
    refine ⟨unused fresh, ?_⟩
    by_contra notMay
    exact (quiet (by simpa using notMay)).2 fresh
  refine ⟨talliedAfter, ⟨next, holdsAfter, follows, fun fresh => ?_, fun notMay => ?_⟩, onlyFresh⟩
  · cases counts : countsFailure effect with
    | true => exact absurd fresh (moved.notFresh (.inr counts))
    | false =>
        rw [recallCount_of_not_counts counts]
        by_contra isCounted
        exact moved.notFresh (.inl fun isFresh => isCounted (unused isFresh)) fresh
  · obtain ⟨uncounted, notFresh⟩ := quiet notMay
    have counts : countsFailure effect = false := by
      by_contra counts
      exact absurd (onlyFresh (by simpa using counts)).2 (by simp [notMay])
    exact ⟨(recallCount_of_not_counts counts).trans uncounted, moved.notFresh (.inl notFresh)⟩

end Running

/-! ## Tasks under way -/

def mayCount : {γ : Type} → Effect γ → Bool
  | _, .recordFailure _ _ => true
  | _, _ => false

def finalOf : {γ : Type} → Effect γ → Warrant → γ → Prop
  | _, .tryAcquire _ => Refuses
  | _, _ => Anyway

/-- What holds of a request while the failures counted on each breaker are `tally`. -/
structure RequestFine (http : Http) (limit : Nat) (tally : BreakerId → Nat)
    (counted : Option BreakerId) (task : RequestTask) : Prop where
  refused : ∀ upstream, Event.tryAcquire upstream none ∈ task.events →
    limit ≤ tally upstream.breaker
  accuses : ∀ cell, counted = some cell → task.accuses cell = true
  ready : ∀ program, task.progress = .ready program → task.Continues http program
  uncounted : ∀ γ (effect : Effect γ) next, task.progress = .ready (perform effect next) →
    counted = none
  inside : ∀ γ (effect : Effect γ) cell left next, task.progress = .inside effect cell left next →
    task.Continues http (perform effect next) ∧
    (effect.operation.map Prod.fst = some cell) ∧
    Running limit (tally cell) (finalOf effect) (mayCount effect) counted left

def ProbeFine (limit : Nat) (tally : BreakerId → Nat) (counted : Option BreakerId)
    (task : ProbeTask) : Prop :=
  task.upstream.healthDisabled = false ∧
  match task.progress with
  | .asking _ => counted = none
  | .reporting status left =>
      (∀ cell, counted = some cell → cell = task.upstream.breaker) ∧
      Running limit (tally task.upstream.breaker) Anyway (!isHealthy status) counted left

def GaugesFine (limit : Nat) (tally : BreakerId → Nat) (counted : Option BreakerId)
    (cell : BreakerId) (left : Program Atomic Unit) : Prop :=
  Running limit (tally cell) (Keeps .calm) false counted left

def TaskFine (http : Http) (limit : Nat) (tally : BreakerId → Nat) (task : Task) : Prop :=
  match task.work with
  | .request request => RequestFine http limit tally task.counted request
  | .probe probe => ProbeFine limit tally task.counted probe
  | .gauges cell left => GaugesFine limit tally task.counted cell left

section Tasks

variable {http : Http} {limit clock : Nat} {tally grown : BreakerId → Nat}

theorem TaskFine.mono {task : Task} (fine : TaskFine http limit tally task)
    (le : ∀ cell, tally cell ≤ grown cell) : TaskFine http limit grown task := by
  obtain ⟨work, counted⟩ := task
  cases work with
  | request request =>
      have fine : RequestFine http limit tally counted request := fine
      exact {
        refused := fun upstream refused => (fine.refused upstream refused).trans (le _)
        accuses := fine.accuses
        ready := fine.ready
        uncounted := fine.uncounted
        inside := fun γ effect cell left next isInside => by
          obtain ⟨continues, onCell, running⟩ := fine.inside γ effect cell left next isInside
          exact ⟨continues, onCell, running.mono (le cell)⟩ }
  | probe probe =>
      obtain ⟨enabled, progress⟩ : ProbeFine limit tally counted probe := fine
      refine ⟨enabled, ?_⟩
      cases isProgress : probe.progress with
      | asking url =>
          rw [isProgress] at progress
          exact progress
      | reporting status left =>
          rw [isProgress] at progress
          exact ⟨progress.1, progress.2.mono (le _)⟩
  | gauges cell left =>
      have running : GaugesFine limit tally counted cell left := fine
      exact Running.mono running (le cell)

/-- A task that counted a failure has a reason for it. -/
theorem TaskFine.accuses {task : Task} (fine : TaskFine http limit tally task) {cell : BreakerId}
    (counted : task.counted = some cell) : task.accuses cell = true := by
  obtain ⟨work, isCounted⟩ := task
  obtain rfl : isCounted = some cell := counted
  cases work with
  | request request => exact RequestFine.accuses fine cell rfl
  | probe probe =>
      obtain ⟨enabled, progress⟩ : ProbeFine limit tally (some cell) probe := fine
      cases isProgress : probe.progress with
      | asking url =>
          rw [isProgress] at progress
          cases progress
      | reporting status left =>
          rw [isProgress] at progress
          obtain ⟨same, warrant, -, -, -, quiet⟩ := progress
          have unhealthy : isHealthy status = false := by
            by_contra healthy
            cases (quiet (by simpa using healthy)).1
          simp [Task.accuses, ProbeTask.accuses, isProgress, same cell rfl, unhealthy, enabled]
  | gauges cell left =>
      obtain ⟨warrant, -, -, -, quiet⟩ : GaugesFine limit tally (some _) cell left := fine
      cases (quiet rfl).1

theorem taskFine_arrive (wrap : Wrap) (connection : Connection) (table : RouteTable)
    (req : Request) (words : UInt64 × UInt64) :
    TaskFine http limit tally ⟨.request (.new http wrap connection table req words), none⟩ := by
  constructor
  · intro upstream refused
    cases refused
  · intro cell counted
    cases counted
  · intro program isReady
    cases isReady
    exact fun later ended path => path
  · intro γ effect next isReady
    rfl
  · intro γ effect cell left next isInside
    cases isInside

theorem taskFine_gauges (cell : BreakerId) (publishes : Bool) :
    TaskFine http limit tally ⟨.gauges cell (Breaker.setGauges publishes), none⟩ :=
  running_calm (setGauges_keeps publishes)

theorem taskFine_probe {upstream : Upstream} (enabled : upstream.healthDisabled = false) :
    TaskFine http limit tally ⟨.probe (.new upstream), none⟩ :=
  ⟨enabled, rfl⟩

theorem taskFine_healthTasks (table : RouteTable) (heap : Heap) :
    ∀ task ∈ healthTasks table heap, TaskFine http limit tally task := by
  intro task member
  cases List.mem_append.mp member with
  | inl gauge =>
      obtain ⟨upstream, -, rfl⟩ := List.mem_map.mp gauge
      exact taskFine_gauges _ _
  | inr probe =>
      obtain ⟨upstream, isProbed, rfl⟩ := List.mem_map.mp probe
      exact taskFine_probe (by simpa using (List.mem_filter.mp isProbed).2)

/-- Every operation of the handler walks from its start. -/
theorem running_operation {γ : Type} {effect : Effect γ} {cell : BreakerId}
    {operation : Bool → Program Atomic γ} (isOperation : effect.operation = some (cell, operation))
    (publishes : Bool) (total : Nat) :
    Running limit total (finalOf effect) (mayCount effect) none (operation publishes) := by
  cases effect with
  | tryAcquire upstream =>
      cases isOperation
      exact running_calm (tryAcquire_refuses publishes)
  | recordSuccess upstream admission =>
      cases isOperation
      exact running_calm ((recordSuccess_keeps publishes admission).mono fun _ _ _ => trivial)
  | recordFailure upstream admission =>
      cases isOperation
      exact running_fresh (recordFailure_counts publishes admission)
  | release upstream admission =>
      cases isOperation
      exact running_calm ((release_keeps admission).mono fun _ _ _ => trivial)
  | select | bodyState => cases isOperation

theorem running_reportHealth (publishes : Bool) (status : Option Nat) (total : Nat) :
    Running limit total Anyway (!isHealthy status) none (reportHealth publishes status) := by
  unfold reportHealth
  cases healthy : isHealthy status with
  | true => exact running_calm ((recordSuccess_keeps publishes .probe).mono fun _ _ _ => trivial)
  | false => exact running_fresh (recordFailure_counts publishes .probe)

/-! ## One atomic operation -/

def HeapTallied (limit : Nat) (tally : BreakerId → Nat) (heap : Heap) : Prop :=
  ∀ cell b, heap.breakers[cell]? = some b → Tallied limit (tally cell) b

/-- The tally after a task may have counted a failure: it counts one at most. -/
inductive Counts (tally : BreakerId → Nat) (before : Option BreakerId) :
    (BreakerId → Nat) → Option BreakerId → Prop where
  | same : Counts tally before tally before
  | one (cell : BreakerId) : before = none →
      Counts tally before (fun other => tally other + if other = cell then 1 else 0) (some cell)

theorem Counts.le {before after : Option BreakerId} (counts : Counts tally before grown after) :
    ∀ cell, tally cell ≤ grown cell := by
  cases counts with
  | same => exact fun _ => Nat.le_refl _
  | one => exact fun _ => Nat.le_add_right _ _

theorem HeapTallied.exec {α γ : Type} {final : Warrant → α → Prop} {mayCount : Bool}
    {counted : Option BreakerId} {effect : Atomic γ} {rest : γ → Program Atomic α} {answer : γ}
    {cell : BreakerId} {heap changed : Heap} (tallied : HeapTallied limit tally heap)
    (running : Running limit (tally cell) final mayCount counted (perform effect rest))
    (executed : exec clock cell effect heap = some (answer, changed)) :
    ∃ grown, Counts tally counted grown (recallCount counted cell effect) ∧
      HeapTallied limit grown changed ∧
      Running limit (grown cell) final mayCount (recallCount counted cell effect) (rest answer) ∧
      (recallCount counted cell effect = counted ∨
        mayCount = true ∧ recallCount counted cell effect = some cell) := by
  obtain ⟨b, after, found, answered, rfl⟩ := exec_eq_some executed
  obtain ⟨talliedAfter, runs, onlyFresh⟩ :=
    @Running.exec limit (tally cell) _ clock α γ final mayCount counted b after cell effect rest
      answer running (tallied cell b found) answered rfl
  have others : ∀ {grown : BreakerId → Nat}, (∀ other, tally other ≤ grown other) →
      Tallied limit (grown cell) after →
      HeapTallied limit grown (heap.update cell fun _ => after) := by
    intro grown le atCell other b' found'
    by_cases same : cell = other
    · subst same
      rw [getElem?_update_self, found] at found'
      cases found'
      exact atCell
    · rw [getElem?_update_of_ne same] at found'
      exact (tallied other b' found').mono (le other)
  cases counts : countsFailure effect with
  | true =>
      obtain ⟨uncounted, may⟩ := onlyFresh counts
      rw [recallCount_of_counts counts] at runs ⊢
      simp only [counts, if_true] at talliedAfter runs
      have grows : Counts tally counted (fun other => tally other + if other = cell then 1 else 0)
          (some cell) := .one cell uncounted
      refine ⟨_, grows, others grows.le ?_, ?_, .inr ⟨may, rfl⟩⟩
      · simpa using talliedAfter
      · simpa using runs
  | false =>
      rw [recallCount_of_not_counts counts] at runs ⊢
      simp only [counts, Bool.false_eq_true, if_false, Nat.add_zero] at talliedAfter runs
      exact ⟨tally, .same, others (fun _ => Nat.le_refl _) talliedAfter, runs, .inl rfl⟩

/-! ## Moves of a request -/

section Requests

variable {counted : Option BreakerId} {task : RequestTask}

theorem continues_answered {γ : Type} {effect : Effect γ} {next : γ → Program Effect Response}
    (continues : task.Continues http (perform effect next)) (answer : γ) :
    ({ task with
      events := task.events ++ [effect.event answer]
      progress := .ready (next answer) } : RequestTask).Continues http (next answer) := by
  intro later ended path
  have whole := continues _ _ (.answered answer path)
  rw [List.append_assoc]
  exact whole

/-- Evidence is not lost when a request goes on. -/
theorem accuses_append {cell : BreakerId} {event : Event} (accuses : task.accuses cell = true)
    (notBody : ∀ state, event ≠ .bodyState state) (progress : RequestProgress) :
    ({ task with events := task.events ++ [event], progress := progress } : RequestTask).accuses
      cell = true := by
  have quiet : event.isStalled (stallThreshold task.table) = false := by
    cases event with
    | bodyState state => exact absurd rfl (notBody state)
    | _ => rfl
  unfold RequestTask.accuses at accuses
  split at accuses
  · next isEvents =>
    simp only [Bool.and_eq_true, Bool.not_eq_true'] at accuses
    simp [RequestTask.accuses, isEvents, accuses, quiet]
  · cases accuses

theorem accuses_of_accusing {upstream : Upstream}
    (accusing : Accusing (task.req.countsTimeout task.wrap) (stallThreshold task.table) upstream
      task.events) : task.accuses upstream.breaker = true := by
  obtain ⟨admission, sent, ending, later, isEvents, accuses, notStalled, -⟩ := accusing
  simp [RequestTask.accuses, isEvents, accuses, notStalled]

/-- The upstream answered, the body was looked at, or the request is gone. -/
theorem RequestFine.waited {γ : Type} {effect : Effect γ} {next : γ → Program Effect Response}
    (fine : RequestFine http limit tally counted task)
    (isReady : task.progress = .ready (perform effect next)) (waits : effect.operation = none)
    (answer : γ) :
    RequestFine http limit tally counted { task with
      events := task.events ++ [effect.event answer]
      progress := .ready (next answer) } := by
  have uncounted := fine.uncounted γ effect next isReady
  refine ⟨fun upstream refused => ?_, fun cell isCounted => ?_, fun program same => ?_,
    fun _ _ _ _ => uncounted, fun _ _ _ _ _ isInside => by cases isInside⟩
  · cases List.mem_append.mp refused with
    | inl earlier => exact fine.refused upstream earlier
    | inr last =>
        have same := List.mem_singleton.mp last
        cases effect with
        | tryAcquire => cases waits
        | recordSuccess | recordFailure | release => cases waits
        | select | bodyState => cases same
  · cases uncounted.symm.trans isCounted
  · cases same
    exact continues_answered (fine.ready _ isReady) answer

theorem operation_not_body {γ : Type} {effect : Effect γ} {cell : BreakerId}
    (onCell : effect.operation.map Prod.fst = some cell) (result : γ) (state : BodyState) :
    effect.event result ≠ .bodyState state := by
  cases effect with
  | bodyState | select => cases onCell
  | tryAcquire | recordSuccess | recordFailure | release =>
      intro same
      cases same

/-- An operation on a breaker has ended. -/
theorem RequestFine.finished {γ : Type} {effect : Effect γ} {cell : BreakerId} {result : γ}
    {next : γ → Program Effect Response} (fine : RequestFine http limit tally counted task)
    (isInside : task.progress = .inside effect cell (done result) next) :
    RequestFine http limit tally counted { task with
      events := task.events ++ [effect.event result]
      progress := .ready (next result) } := by
  obtain ⟨continues, onCell, warrant, holds, ends, -, quiet⟩ :=
    fine.inside γ effect cell _ next isInside
  refine ⟨fun upstream refused => ?_, fun other isCounted => ?_, fun program same => ?_,
    fun δ later after same => ?_, fun _ _ _ _ _ inside => by cases inside⟩
  · cases List.mem_append.mp refused with
    | inl earlier => exact fine.refused upstream earlier
    | inr last =>
        have same := List.mem_singleton.mp last
        cases effect with
        | tryAcquire asked =>
            obtain ⟨rfl, rfl⟩ := Event.tryAcquire.inj same
            obtain rfl := Option.some.inj onCell
            rw [show warrant = .earned from ends rfl] at holds
            exact holds
        | recordSuccess | recordFailure | release | select | bodyState => cases same
  · exact accuses_append (fine.accuses other isCounted) (operation_not_body onCell result) _
  · cases same
    exact continues_answered continues result
  · -- nothing follows a report of failure, and nothing else counts one
    cases may : mayCount effect with
    | false => exact (quiet may).1
    | true =>
        cases effect with
        | recordFailure upstream admission =>
            have goesOn := continues_answered continues result
            obtain ⟨response, isDone⟩ := goesOn.done_of_failure rfl
            cases isDone.symm.trans (RequestProgress.ready.inj same)
        | tryAcquire | recordSuccess | release | select | bodyState => cases may

/-- What one move of a task does to it, to the tally and to the heap. -/
def Advances (http : Http) (limit : Nat) (tally : BreakerId → Nat) (before : Option BreakerId)
    (result : Task × Heap) : Prop :=
  ∃ grown, Counts tally before grown result.1.counted ∧ HeapTallied limit grown result.2 ∧
    TaskFine http limit grown result.1

theorem RequestFine.begins {γ : Type} {effect : Effect γ} {next : γ → Program Effect Response}
    {cell : BreakerId} {operation : Bool → Program Atomic γ} {publishes : Bool}
    (fine : RequestFine http limit tally counted task)
    (isReady : task.progress = .ready (perform effect next))
    (isOperation : effect.operation = some (cell, operation)) :
    RequestFine http limit tally counted { task with
      progress := .inside effect cell (operation publishes) next } := by
  have uncounted := fine.uncounted _ _ _ isReady
  subst uncounted
  refine ⟨fine.refused, fine.accuses, (fun _ ready => by cases ready),
    (fun _ _ _ ready => by cases ready), fun _ _ _ _ _ isInside => ?_⟩
  cases isInside
  exact ⟨fine.ready _ isReady, by simp [isOperation], running_operation isOperation _ _⟩

theorem RequestFine.executes {γ β : Type} {effect : Effect γ} {next : γ → Program Effect Response}
    {cell : BreakerId} {atomic : Atomic β} {rest : β → Program Atomic γ} {answer : β}
    {heap changed : Heap} (fine : RequestFine http limit tally counted task)
    (tallied : HeapTallied limit tally heap)
    (isInside : task.progress = .inside effect cell (perform atomic rest) next)
    (executed : exec clock cell atomic heap = some (answer, changed)) :
    Advances http limit tally counted
      (⟨.request { task with progress := .inside effect cell (rest answer) next },
        recallCount counted cell atomic⟩, changed) := by
  obtain ⟨continues, onCell, running⟩ := fine.inside _ _ _ _ _ isInside
  obtain ⟨grown, counts, talliedAfter, runs, changes⟩ := tallied.exec running executed
  refine ⟨grown, counts, talliedAfter, ?_⟩
  refine ⟨fun upstream refused => (fine.refused upstream refused).trans (counts.le _),
    fun other isCounted => ?_, (fun _ ready => by cases ready),
    (fun _ _ _ ready => by cases ready), fun _ _ _ _ _ inside => ?_⟩
  · cases changes with
    | inl same => exact fine.accuses other (same ▸ isCounted)
    | inr counts =>
        obtain ⟨may, isCell⟩ := counts
        obtain rfl : cell = other := Option.some.inj (isCell.symm.trans isCounted)
        cases effect with
        | recordFailure upstream admission =>
            obtain rfl := Option.some.inj onCell
            exact accuses_of_accusing continues.accusing
        | tryAcquire | recordSuccess | release | select | bodyState => cases may
  · cases inside
    exact ⟨continues, onCell, runs⟩

theorem RequestFine.drops {sent : Request} {next : Ending → Program Effect Response}
    (fine : RequestFine http limit tally counted task)
    (isReady : task.progress = .ready (perform (.select sent) next)) :
    RequestFine http limit tally counted { task with
      events := task.events ++ [.dropped sent]
      progress := .dropped } := by
  have uncounted := fine.uncounted _ _ _ isReady
  refine ⟨fun upstream refused => ?_, fun cell isCounted => ?_, (fun _ ready => by cases ready),
    (fun _ _ _ ready => by cases ready), (fun _ _ _ _ _ inside => by cases inside)⟩
  · cases List.mem_append.mp refused with
    | inl earlier => exact fine.refused upstream earlier
    | inr last => cases List.mem_singleton.mp last
  · cases uncounted.symm.trans isCounted

end Requests

theorem ProbeFine.reports {counted : Option BreakerId} {task : ProbeTask} {heap changed : Heap}
    {status : Option Nat} {β : Type} {atomic : Atomic β} {rest : β → Program Atomic Unit}
    {answer : β} (fine : ProbeFine limit tally counted task)
    (tallied : HeapTallied limit tally heap)
    (isReporting : task.progress = .reporting status (perform atomic rest))
    (executed : exec clock task.upstream.breaker atomic heap = some (answer, changed)) :
    Advances http limit tally counted
      (⟨.probe { task with progress := .reporting status (rest answer) },
        recallCount counted task.upstream.breaker atomic⟩, changed) := by
  obtain ⟨enabled, progress⟩ := fine
  rw [isReporting] at progress
  obtain ⟨onCell, running⟩ := progress
  obtain ⟨grown, counts, talliedAfter, runs, changes⟩ := tallied.exec running executed
  refine ⟨grown, counts, talliedAfter, enabled, fun cell isCounted => ?_, runs⟩
  cases changes with
  | inl same => exact onCell cell (same ▸ isCounted)
  | inr counts => exact Option.some.inj (isCounted.symm.trans counts.2)

theorem ProbeFine.checked {counted : Option BreakerId} {task : ProbeTask} {url : Bytes}
    (fine : ProbeFine limit tally counted task) (isAsking : task.progress = .asking url)
    (publishes : Bool) (status : Option Nat) :
    ProbeFine limit tally counted { task with
      progress := .reporting status (reportHealth publishes status) } := by
  obtain ⟨enabled, progress⟩ := fine
  rw [isAsking] at progress
  have uncounted : counted = none := progress
  subst uncounted
  exact ⟨enabled, (fun _ isCounted => by cases isCounted), running_reportHealth _ _ _⟩

theorem TaskFine.moves {task : Task} {heap : Heap} {result : Task × Heap}
    (fine : TaskFine http limit tally task) (tallied : HeapTallied limit tally heap)
    (moves : TaskMove clock heap task result) : Advances http limit tally task.counted result := by
  cases moves with
  | stays => exact ⟨tally, .same, tallied, fine⟩
  | begins isReady isOperation =>
      exact ⟨tally, .same, tallied, RequestFine.begins fine isReady isOperation⟩
  | executes isInside executed => exact RequestFine.executes fine tallied isInside executed
  | ends isInside => exact ⟨tally, .same, tallied, RequestFine.finished fine isInside⟩
  | answered answer isReady waits =>
      exact ⟨tally, .same, tallied, RequestFine.waited fine isReady waits answer⟩
  | drops isReady => exact ⟨tally, .same, tallied, RequestFine.drops fine isReady⟩
  | checked status isAsking =>
      exact ⟨tally, .same, tallied, ProbeFine.checked fine isAsking _ status⟩
  | reports isReporting executed => exact ProbeFine.reports fine tallied isReporting executed
  | @publishes cell counted _ _ _ _ _ executed =>
      have running : GaugesFine limit tally counted cell _ := fine
      obtain ⟨grown, counts, talliedAfter, runs, -⟩ := tallied.exec running executed
      exact ⟨grown, counts, talliedAfter, runs⟩

end Tasks

end Proxy

end Ferryman.Server
