import Ferryman.Server.SystemTasks

/-!
# Refusals of the whole proxy

A client is told that an upstream is unavailable only after as many tasks as the
lowest threshold in force have each had a reason to speak against that upstream.
-/

set_option autoImplicit false

namespace Ferryman.Server

open Ferryman.Core Byte Bytes Program

namespace Proxy

/-! ## Reloads -/

section Reloads

variable {http : Http} {cfg : ConfigToml} {property : BreakerId → Breaker → Prop}
  (reconfigures : ∀ cell b cooldown, property cell b →
    property cell (reconfigured cooldown cfg.failureThreshold b))
  (creates : ∀ cell name cooldown,
    property cell (.unchecked (some name) true cooldown cfg.failureThreshold))

include reconfigures creates

theorem takeOver_breakers {prevUpstreams : List Upstream} {route : ValidatedRoute} {heap : Heap}
    (holds : ∀ cell b, heap.breakers[cell]? = some b → property cell b) :
    ∀ cell b, (takeOver cfg prevUpstreams route heap).2.breakers[cell]? = some b →
      property cell b := by
  intro cell b found
  cases previously : prevUpstreams.find? (·.name = route.name) with
  | some previous =>
      rw [takeOver_some previously] at found
      by_cases same : previous.breaker = cell
      · subst same
        rw [getElem?_update_self] at found
        obtain ⟨before, isBefore, rfl⟩ := Option.map_eq_some_iff.mp found
        exact reconfigures _ _ _ (holds _ _ isBefore)
      · rw [getElem?_update_of_ne same] at found
        exact holds cell b found
  | none =>
      rw [takeOver_none previously, List.getElem?_append] at found
      split at found
      · exact holds cell b found
      · obtain rfl := List.mem_singleton.mp (List.mem_of_getElem? found)
        exact creates _ _ _

theorem installUpstreams_breakers {prevUpstreams : List Upstream}
    {byName : List (Bytes × Upstream)} {routes : List ValidatedRoute} {heap : Heap}
    (holds : ∀ cell b, heap.breakers[cell]? = some b → property cell b) :
    ∀ cell b, (installUpstreams cfg prevUpstreams byName routes heap).2.breakers[cell]? = some b →
      property cell b := by
  induction routes generalizing byName heap with
  | nil => exact holds
  | cons route rest ih =>
      have taken := @takeOver_breakers cfg property reconfigures creates prevUpstreams route heap holds
      rw [installUpstreams]
      split
      · exact ih holds
      · exact ih taken

theorem buildTable_breakers {prev : Option RouteTable} {heap : Heap}
    (holds : ∀ cell b, heap.breakers[cell]? = some b → property cell b) :
    ∀ cell b, (buildTable http cfg prev heap).2.breakers[cell]? = some b → property cell b := by
  cases checked : validateConfig http cfg with
  | error reason =>
      rw [buildTable_of_error checked]
      exact holds
  | ok result =>
      obtain ⟨trusted, validated⟩ := result
      obtain ⟨routes, shape, -⟩ := @installRoutes_eq cfg ((prev.map RouteTable.upstreams).getD []) []
        validated (validateRoutes_installable (validateConfig_eq_ok.mp checked).2) heap
      rw [buildTable_of_ok checked, shape]
      exact installUpstreams_breakers reconfigures creates holds

end Reloads

theorem HeapTallied.reload {limit : Nat} {tally : BreakerId → Nat} {http : Http} {cfg : ConfigToml}
    {prev : Option RouteTable} {heap : Heap} (tallied : HeapTallied limit tally heap)
    (strict : limit ≤ cfg.failureThreshold.toNat) :
    HeapTallied limit tally (buildTable http cfg prev heap).2 := by
  refine buildTable_breakers (fun cell b cooldown old => ?_) (fun cell name cooldown => ?_) tallied
  · exact ⟨old.counts, old.opened, strict⟩
  · exact ⟨Nat.zero_le _, fun isOpen => absurd rfl isOpen, strict⟩

/-! ## The whole proxy -/

/-- How many tasks have counted a failure on a breaker. -/
def tallyOf (tasks : List Task) (cell : BreakerId) : Nat :=
  tasks.countP fun task => task.counted = some cell

structure Fine (http : Http) (limit : Nat) (proxy : Proxy) : Prop where
  heap : HeapTallied limit (tallyOf proxy.tasks) proxy.heap
  tasks : ∀ task ∈ proxy.tasks, TaskFine http limit (tallyOf proxy.tasks) task

section Steps

variable {http : Http} {limit : Nat} {proxy : Proxy}

theorem tallyOf_append {tasks more : List Task} (uncounted : ∀ task ∈ more, task.counted = none) :
    tallyOf (tasks ++ more) = tallyOf tasks := by
  funext cell
  rw [tallyOf, List.countP_append, tallyOf, Nat.add_eq_left, List.countP_eq_zero]
  intro task member
  simp [uncounted task member]

theorem tallyOf_set {tasks : List Task} {index : Nat} {task changed : Task}
    {grown : BreakerId → Nat} (found : tasks[index]? = some task)
    (counts : Counts (tallyOf tasks) task.counted grown changed.counted) :
    tallyOf (tasks.set index changed) = grown := by
  obtain ⟨bound, isTask⟩ := List.getElem?_eq_some_iff.mp found
  funext cell
  rw [tallyOf, List.countP_set bound, isTask]
  generalize changed.counted = after at counts
  cases counts with
  | same =>
      by_cases counted : task.counted = some cell
      · have positive : 0 < tallyOf tasks cell :=
          List.countP_pos_iff.mpr ⟨task, List.mem_of_getElem? found, by simp [counted]⟩
        simp only [counted, decide_true, if_true]
        rw [tallyOf] at positive ⊢
        omega
      · simp [counted, tallyOf]
  | one counted uncounted =>
      rw [uncounted]
      simp [tallyOf, eq_comm]

theorem Fine.add (fine : Fine http limit proxy) {more : List Task} {table : RouteTable}
    {heap : Heap} (tallied : HeapTallied limit (tallyOf proxy.tasks) heap)
    (uncounted : ∀ task ∈ more, task.counted = none)
    (fresh : ∀ task ∈ more, TaskFine http limit (tallyOf proxy.tasks) task) :
    Fine http limit { proxy with
      table := table
      heap := heap
      tasks := proxy.tasks ++ more } := by
  constructor
  · rw [tallyOf_append uncounted]
    exact tallied
  · rw [tallyOf_append uncounted]
    intro task member
    cases List.mem_append.mp member with
    | inl old => exact fine.tasks task old
    | inr new => exact fresh task new

theorem Fine.set (fine : Fine http limit proxy) {index : Nat} {task changed : Task} {heap : Heap}
    {grown : BreakerId → Nat} (found : proxy.tasks[index]? = some task)
    (counts : Counts (tallyOf proxy.tasks) task.counted grown changed.counted)
    (tallied : HeapTallied limit grown heap) (isFine : TaskFine http limit grown changed) :
    Fine http limit { proxy with
      heap := heap
      tasks := proxy.tasks.set index changed } := by
  constructor
  · rw [tallyOf_set found counts]
    exact tallied
  · rw [tallyOf_set found counts]
    intro other member
    cases List.mem_or_eq_of_mem_set member with
    | inl old => exact (fine.tasks other old).mono counts.le
    | inr new =>
        subst new
        exact isFine

theorem Fine.taskStep (fine : Fine http limit proxy) {index : Nat} {later : Proxy}
    (steps : TaskStep proxy index later) : Fine http limit later := by
  cases steps with
  | nothing => exact fine
  | @moved task changed heap found moves =>
      obtain ⟨grown, counts, tallied, isFine⟩ :=
        (fine.tasks task (List.mem_of_getElem? found)).moves fine.heap moves
      exact fine.set found counts tallied isFine

theorem gaugeTasks_counted (table : RouteTable) (heap : Heap) :
    ∀ task ∈ gaugeTasks table heap, task.counted = none := by
  intro task member
  obtain ⟨upstream, -, rfl⟩ := List.mem_map.mp member
  rfl

theorem healthTasks_counted (table : RouteTable) (heap : Heap) :
    ∀ task ∈ healthTasks table heap, task.counted = none := by
  intro task member
  cases List.mem_append.mp member with
  | inl gauge => exact gaugeTasks_counted table heap task gauge
  | inr probe =>
      obtain ⟨upstream, -, rfl⟩ := List.mem_map.mp probe
      rfl

theorem taskFine_gaugeTasks {tally : BreakerId → Nat} (table : RouteTable) (heap : Heap) :
    ∀ task ∈ gaugeTasks table heap, TaskFine http limit tally task :=
  fun task member => taskFine_healthTasks table heap task (List.mem_append_left _ member)

/-- The config that a move brings into force: a reload may be rejected. -/
def installs (http : Http) (proxy : Proxy) : Move → List ConfigToml
  | .reload cfg =>
      if (buildTable http cfg (some proxy.table) proxy.heap).1.isOk then [cfg] else []
  | _ => []

def installed (http : Http) : Proxy → List Move → List ConfigToml
  | _, [] => []
  | proxy, move :: moves => proxy.installs http move ++ (proxy.step http move).installed http moves

theorem Fine.step (fine : Fine http limit proxy) {move : Move}
    (strict : ∀ cfg ∈ proxy.installs http move, limit ≤ cfg.failureThreshold.toNat) :
    Fine http limit (proxy.step http move) := by
  cases move with
  | tick millis => exact ⟨fine.heap, fine.tasks⟩
  | arrive wrap connection req words =>
      exact fine.add fine.heap (by simp) (by simp [taskFine_arrive])
  | advance | answer | readBody | hangUp | probed => exact fine.taskStep (step_task http rfl)
  | healthTick =>
      exact fine.add fine.heap (healthTasks_counted _ _) (taskFine_healthTasks _ _)
  | reload cfg =>
      simp only [Proxy.step]
      split
      · next table heap built =>
        have accepted := strict cfg (by simp [installs, built, Except.isOk, Except.toBool])
        have tallied := @HeapTallied.reload _ _ http cfg (some proxy.table) _ fine.heap accepted
        rw [built] at tallied
        exact fine.add tallied (gaugeTasks_counted _ _) (taskFine_gaugeTasks _ _)
      · next error heap rejected =>
        -- a config that is rejected reconfigures nothing
        rw [(buildTable_rejects rejected).2]
        exact fine

theorem Fine.run (fine : Fine http limit proxy) {moves : List Move}
    (strict : ∀ cfg ∈ proxy.installed http moves, limit ≤ cfg.failureThreshold.toNat) :
    Fine http limit (proxy.run http moves) := by
  induction moves generalizing proxy with
  | nil => exact fine
  | cons move moves ih =>
      rw [installed, List.forall_mem_append] at strict
      exact ih (fine.step strict.1) strict.2

theorem Starts.fine {cfg : ConfigToml} (starts : Starts http cfg proxy)
    (strict : limit ≤ cfg.failureThreshold.toNat) : Fine http limit proxy := by
  obtain ⟨built, isTasks⟩ := starts
  have empty : HeapTallied limit (fun _ => 0) {} := by
    intro cell b found
    simp at found
  have tallied := @HeapTallied.reload _ _ http cfg none _ empty strict
  rw [built] at tallied
  have uncounted : tallyOf proxy.tasks = fun _ => 0 := by
    rw [isTasks]
    exact @tallyOf_append [] _ (gaugeTasks_counted _ _)
  constructor
  · rw [uncounted]
    exact tallied
  · rw [isTasks]
    exact taskFine_gaugeTasks _ _

/-- Only the breaker of the chosen upstream lets the handler answer 503 by itself. -/
theorem refused_of_run {wrap : Wrap} {connection : Connection} {table : RouteTable}
    {req : Request} {events : List Event} {response : Response}
    (run : HandlerRun http wrap connection table req events (some response))
    (status : response.status = 503) (body : response.body ≠ .boxed) :
    ∃ upstream, events = [.tryAcquire upstream none] := by
  cases run with
  | turnedAway refused =>
      obtain ⟨given, isStatus, text, rfl⟩ := selectRoute_error_isLocal refused
      obtain rfl : given = 503 := status
      simp at isStatus
  | unavailable => exact ⟨_, rfl⟩
  | unbuilt _ _ fails =>
      obtain ⟨given, isStatus, text, rfl⟩ := rebuildUri_error_isLocal fails
      obtain rfl : given = 503 := status
      simp at isStatus
  | answered _ _ conclusion =>
      cases conclusion with
      | timedOut | bodyTimeout | bodyError | failed => simp [errorResponse] at status
      | gateway | passed => exact absurd rfl body

theorem Task.response_eq_some {task : Task} {response : Response}
    (answered : task.response = some response) :
    ∃ request, task.work = .request request ∧ request.progress = .ready (.done response) := by
  unfold Task.response at answered
  split at answered
  · next request isRequest =>
    split at answered
    · next isDone =>
      obtain rfl := Option.some.inj answered
      exact ⟨request, isRequest, isDone⟩
    · cases answered
  · cases answered

/-- A client is told that an upstream is unavailable only when as many tasks as the
lowest threshold that was ever in force have had reason to speak against that
upstream. -/
theorem refused_only_after_failures {cfg : ConfigToml} {moves : List Move} {task : Task}
    {response : Response} (starts : Starts http cfg proxy)
    (first : limit ≤ cfg.failureThreshold.toNat)
    (strict : ∀ cfg ∈ proxy.installed http moves, limit ≤ cfg.failureThreshold.toNat)
    (member : task ∈ (proxy.run http moves).tasks) (answered : task.response = some response)
    (status : response.status = 503) (body : response.body ≠ .boxed) :
    ∃ request upstream, task.work = .request request ∧
      request.events = [.tryAcquire upstream none] ∧
      limit ≤ (proxy.run http moves).tasks.countP fun other => other.accuses upstream.breaker := by
  have fine : Fine http limit (proxy.run http moves) := (starts.fine first).run strict
  obtain ⟨request, isRequest, isDone⟩ := Task.response_eq_some answered
  have isFine := fine.tasks task member
  rw [TaskFine, isRequest] at isFine
  obtain ⟨inner, run, isResponse⟩ := (isFine.ready _ isDone).run .finished
  rw [List.append_nil] at run
  obtain ⟨own, rfl, rfl⟩ := Option.map_eq_some_iff.mp isResponse.symm
  obtain ⟨upstream, refused⟩ := refused_of_run run (by simpa using status) (by simpa using body)
  refine ⟨request, upstream, isRequest, refused, ?_⟩
  calc limit ≤ tallyOf (proxy.run http moves).tasks upstream.breaker :=
        isFine.refused upstream (by simp [refused])
    _ ≤ _ := List.countP_mono_left fun other isTask counted =>
        (fine.tasks other isTask).accuses (by simpa using counted)

end Steps

/-! ## A refusal -/

def sternConfig : ConfigToml := { apiConfig with failureThreshold := 1 }

def sternProxy : Proxy :=
  match buildTable plainHttp sternConfig none {} with
  | (.ok table, heap) => ⟨0, table, heap, gaugeTasks table heap⟩
  | (.error _, heap) => ⟨0, RouteTable.new [] (.fromSecs 0), heap, []⟩

/-- The reload is rejected for its threshold. The first request, task 2 after those for
the gauges, times out. -/
def refusingMoves : List Move :=
  [.reload { sternConfig with failureThreshold := 0 }, .arrive .streaming localClient upload (0, 0)] ++ List.replicate 3 (.advance 2) ++
    [.answer 2 .timedOut] ++ List.replicate 12 (.advance 2) ++
    [.arrive .streaming localClient upload (0, 0)] ++ List.replicate 7 (.advance 3)

theorem sternProxy_starts : Starts plainHttp sternConfig sternProxy := by
  have accepted : (buildTable plainHttp sternConfig none {}).1.toOption.isSome = true := by
    decide +kernel
  unfold sternProxy
  split
  · next table heap built => exact ⟨built, rfl⟩
  · next error heap rejected =>
    rw [rejected] at accepted
    cases accepted

theorem stern_refusal :
    ∃ task ∈ (sternProxy.run plainHttp refusingMoves).tasks, ∃ request upstream,
      task.work = .request request ∧ request.events = [.tryAcquire upstream none] ∧
      1 ≤ (sternProxy.run plainHttp refusingMoves).tasks.countP fun other =>
        other.accuses upstream.breaker := by
  have found : ((sternProxy.run plainHttp refusingMoves).tasks.any fun task =>
      task.response = some (errorResponse 503 (ascii "upstream unavailable"))) = true := by
    decide +kernel
  obtain ⟨task, member, answered⟩ := List.any_eq_true.mp found
  refine ⟨task, member, ?_⟩
  have nothing : sternProxy.installed plainHttp refusingMoves = [] := by decide +kernel
  exact refused_only_after_failures sternProxy_starts (by decide) (by simp [nothing]) member
    (by simpa using answered) rfl (by simp [errorResponse])

end Proxy

end Ferryman.Server
