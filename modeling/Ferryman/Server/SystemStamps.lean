import Ferryman.Core.ReloadChain
import Ferryman.Core.Stamps
import Ferryman.Server.SystemProperties

/-!
# Breakers of the whole proxy

Whatever the requests, health checks and reloads do, no breaker is stamped with
an instant still to come, and every upstream of the table has its breaker.
-/

set_option autoImplicit false

namespace Ferryman.Server

open Ferryman.Core Byte Bytes Program

namespace Proxy

/-! ## Stamps of the past -/

/-- An operation in progress stamps nothing later than the clock. -/
def InPast {α : Type} (clock : Nat) (left : Program Atomic α) : Prop :=
  ∃ bound ≤ clock, StampsPast bound left

def TaskStamped (clock : Nat) (task : Task) : Prop :=
  match task.work with
  | .request request =>
      match request.progress with
      | .inside _ _ left _ => InPast clock left
      | .ready _ | .dropped => True
  | .probe probe =>
      match probe.progress with
      | .reporting _ left => InPast clock left
      | .asking _ => True
  | .gauges _ left => InPast clock left

def HeapStamped (clock : Nat) (heap : Heap) : Prop :=
  ∀ (cell : BreakerId) (b : Breaker), heap.breakers[cell]? = some b → b.openedAtMillis ≤ clock

/-- A proxy that has this many breakers or more. -/
structure Stamped (least : Nat) (proxy : Proxy) : Prop where
  least : least ≤ proxy.heap.breakers.length
  coherent : Coherent proxy.table proxy.heap
  heap : HeapStamped proxy.clock proxy.heap
  tasks : ∀ task ∈ proxy.tasks, TaskStamped proxy.clock task

section Tasks

variable {α γ : Type} {clock later : Nat} {heap : Heap}

theorem InPast.mono {left : Program Atomic α} (inPast : InPast clock left) (le : clock ≤ later) :
    InPast later left := by
  obtain ⟨bound, known, stamps⟩ := inPast
  exact ⟨bound, known.trans le, stamps⟩

theorem inPast_fresh {left : Program Atomic α} (stamps : ∀ bound, StampsPast bound left) :
    InPast clock left := ⟨0, Nat.zero_le clock, stamps 0⟩

theorem TaskStamped.mono {task : Task} (stamped : TaskStamped clock task) (le : clock ≤ later) :
    TaskStamped later task := by
  obtain ⟨work, counted⟩ := task
  cases work with
  | request request =>
      obtain ⟨wrap, connection, table, req, words, events, progress⟩ := request
      cases progress with
      | inside => exact InPast.mono stamped le
      | ready | dropped => trivial
  | probe probe =>
      obtain ⟨upstream, progress⟩ := probe
      cases progress with
      | reporting => exact InPast.mono stamped le
      | asking => trivial
  | gauges => exact InPast.mono stamped le

/-- The heap after an atomic operation. -/
structure Kept (clock : Nat) (heap changed : Heap) : Prop where
  stamped : HeapStamped clock changed
  size : changed.breakers.length = heap.breakers.length

theorem InPast.exec {effect : Atomic γ} {rest : γ → Program Atomic α} {answer : γ}
    {cell : BreakerId} {changed : Heap} (inPast : InPast clock (perform effect rest))
    (stamped : HeapStamped clock heap)
    (executed : exec clock cell effect heap = some (answer, changed)) :
    Kept clock heap changed ∧ InPast clock (rest answer) := by
  obtain ⟨bound, known, stamps⟩ := inPast
  obtain ⟨b, after, found, answered, rfl⟩ := exec_eq_some executed
  obtain ⟨next, moved, follows⟩ := stamps answer trivial
  obtain ⟨past, stillKnown⟩ := moved.past known (stamped cell b found) answered
  refine ⟨⟨fun other b' found' => ?_, by simp [Heap.update]⟩, next, stillKnown, follows⟩
  by_cases same : cell = other
  · subst same
    rw [getElem?_update_self, found] at found'
    cases found'
    exact past
  · rw [getElem?_update_of_ne same] at found'
    exact stamped other b' found'

theorem operation_stampsPast {effect : Effect γ} {cell : BreakerId}
    {operation : Bool → Program Atomic γ} (isOperation : effect.operation = some (cell, operation))
    (publishes : Bool) (bound : Nat) : StampsPast bound (operation publishes) := by
  cases effect with
  | tryAcquire upstream =>
      cases isOperation
      exact tryAcquire_stampsPast publishes bound
  | recordSuccess upstream admission =>
      cases isOperation
      exact recordSuccess_stampsPast publishes admission bound
  | recordFailure upstream admission =>
      cases isOperation
      exact recordFailure_stampsPast publishes admission bound
  | release upstream admission =>
      cases isOperation
      exact release_stampsPast admission bound
  | select | bodyState => cases isOperation

theorem reportHealth_stampsPast (publishes : Bool) (status : Option Nat) (bound : Nat) :
    StampsPast bound (reportHealth publishes status) := by
  unfold reportHealth
  exact stampsPast_ite (recordSuccess_stampsPast publishes .probe bound)
    (recordFailure_stampsPast publishes .probe bound)

/-- What a move of a task may do. -/
def Moved (clock : Nat) (heap : Heap) (result : Task × Heap) : Prop :=
  Kept clock heap result.2 ∧ TaskStamped clock result.1

theorem TaskStamped.moves {task : Task} {result : Task × Heap} (stamped : TaskStamped clock task)
    (heapStamped : HeapStamped clock heap) (moves : TaskMove clock heap task result) :
    Moved clock heap result := by
  have same : Kept clock heap heap := ⟨heapStamped, rfl⟩
  cases moves with
  | stays => exact ⟨same, stamped⟩
  | begins isReady isOperation =>
      exact ⟨same, inPast_fresh (operation_stampsPast isOperation _)⟩
  | executes isInside executed =>
      simp only [TaskStamped, isInside] at stamped
      exact stamped.exec heapStamped executed
  | ends | answered | drops => exact ⟨same, trivial⟩
  | checked status => exact ⟨same, inPast_fresh (reportHealth_stampsPast _ status)⟩
  | reports isReporting executed =>
      simp only [TaskStamped, isReporting] at stamped
      exact stamped.exec heapStamped executed
  | publishes executed => exact InPast.exec stamped heapStamped executed

theorem taskStamped_healthTasks (table : RouteTable) :
    ∀ task ∈ healthTasks table heap, TaskStamped clock task := by
  intro task member
  cases List.mem_append.mp member with
  | inl gauge =>
      obtain ⟨upstream, -, rfl⟩ := List.mem_map.mp gauge
      exact inPast_fresh (setGauges_stampsPast _)
  | inr probe =>
      obtain ⟨upstream, -, rfl⟩ := List.mem_map.mp probe
      trivial

theorem taskStamped_gaugeTasks (table : RouteTable) :
    ∀ task ∈ gaugeTasks table heap, TaskStamped clock task :=
  fun task member => taskStamped_healthTasks table task (List.mem_append_left _ member)

end Tasks

/-! ## Reloads -/

theorem length_takeOver (cfg : ConfigToml) (prevUpstreams : List Upstream) (route : ValidatedRoute)
    (heap : Heap) :
    heap.breakers.length ≤ (takeOver cfg prevUpstreams route heap).2.breakers.length := by
  cases previously : prevUpstreams.find? (·.name = route.name) with
  | some previous => simp [takeOver_some previously, Heap.update]
  | none => simp [takeOver_none previously]

theorem length_installUpstreams {cfg : ConfigToml} {prevUpstreams : List Upstream}
    {byName : List (Bytes × Upstream)} (routes : List ValidatedRoute) {heap : Heap} :
    heap.breakers.length ≤
      (installUpstreams cfg prevUpstreams byName routes heap).2.breakers.length := by
  induction routes generalizing byName heap with
  | nil => exact Nat.le_refl _
  | cons route rest ih =>
      rw [installUpstreams]
      split
      · exact ih
      · exact (length_takeOver cfg prevUpstreams route heap).trans ih

theorem length_buildTable (http : Http) (cfg : ConfigToml) (prev : Option RouteTable)
    (heap : Heap) :
    heap.breakers.length ≤ (buildTable http cfg prev heap).2.breakers.length := by
  cases checked : validateConfig http cfg with
  | error reason => rw [buildTable_of_error checked]
  | ok result =>
      obtain ⟨trusted, validated⟩ := result
      obtain ⟨routes, shape, -⟩ := @installRoutes_eq cfg ((prev.map RouteTable.upstreams).getD []) []
        validated (validateRoutes_installable (validateConfig_eq_ok.mp checked).2) heap
      rw [buildTable_of_ok checked, shape]
      exact length_installUpstreams validated

theorem HeapStamped.reload {clock : Nat} {http : Http} {cfg : ConfigToml}
    {prev : Option RouteTable} {heap : Heap} (stamped : HeapStamped clock heap) :
    HeapStamped clock (buildTable http cfg prev heap).2 :=
  @buildTable_breakers http cfg (fun _ b => b.openedAtMillis ≤ clock) (fun _ _ _ old => old)
    (fun _ _ _ => Nat.zero_le clock) prev heap stamped

/-! ## The whole proxy -/

section Steps

variable {http : Http} {least : Nat} {proxy : Proxy}

theorem Stamped.add (stamped : Stamped least proxy) {more : List Task} {table : RouteTable}
    {heap : Heap} (enough : least ≤ heap.breakers.length) (coherent : Coherent table heap)
    (heapStamped : HeapStamped proxy.clock heap)
    (fresh : ∀ task ∈ more, TaskStamped proxy.clock task) :
    Stamped least { proxy with
      table := table
      heap := heap
      tasks := proxy.tasks ++ more } := by
  refine ⟨enough, coherent, heapStamped, fun task member => ?_⟩
  cases List.mem_append.mp member with
  | inl old => exact stamped.tasks task old
  | inr new => exact fresh task new

/-- The breakers of a table stay where they are as long as none is taken away. -/
theorem coherent_of_size {table : RouteTable} {heap changed : Heap} (coherent : Coherent table heap)
    (size : changed.breakers.length = heap.breakers.length) : Coherent table changed :=
  ⟨fun route member => size ▸ coherent.inHeap route member, coherent.named, coherent.shares⟩

theorem Stamped.taskStep (stamped : Stamped least proxy) {index : Nat} {later : Proxy}
    (steps : TaskStep proxy index later) : Stamped least later := by
  cases steps with
  | nothing => exact stamped
  | @moved task changed heap found moves =>
      obtain ⟨kept, fresh⟩ :=
        (stamped.tasks task (List.mem_of_getElem? found)).moves stamped.heap moves
      refine ⟨kept.size ▸ stamped.least, coherent_of_size stamped.coherent kept.size, kept.stamped,
        fun other member => ?_⟩
      cases List.mem_or_eq_of_mem_set member with
      | inl old => exact stamped.tasks other old
      | inr new => exact new ▸ fresh

theorem Stamped.step (stamped : Stamped least proxy) (move : Move) :
    Stamped least (proxy.step http move) := by
  cases move with
  | tick millis =>
      have le : proxy.clock ≤ proxy.clock + millis := Nat.le_add_right _ _
      exact ⟨stamped.least, stamped.coherent, fun cell b found => (stamped.heap cell b found).trans le,
        fun task member => (stamped.tasks task member).mono le⟩
  | arrive wrap connection req words =>
      refine stamped.add stamped.least stamped.coherent stamped.heap fun task member => ?_
      obtain rfl := List.mem_singleton.mp member
      trivial
  | advance | answer | readBody | hangUp | probed => exact stamped.taskStep (step_task http rfl)
  | healthTick =>
      exact stamped.add stamped.least stamped.coherent stamped.heap (taskStamped_healthTasks _)
  | reload cfg =>
      have past := @HeapStamped.reload _ http cfg (some proxy.table) _ stamped.heap
      have grows := stamped.least.trans (length_buildTable http cfg (some proxy.table) proxy.heap)
      simp only [Proxy.step]
      split
      · next table heap built =>
        rw [built] at past grows
        refine stamped.add grows ?_ past (taskStamped_gaugeTasks _)
        refine @buildTable_coherent http cfg (some proxy.table) _ _ _ ?_ built
        intro previous same
        cases same
        exact stamped.coherent
      · next error heap rejected =>
        rw [(buildTable_rejects rejected).2]
        exact ⟨stamped.least, stamped.coherent, stamped.heap, stamped.tasks⟩

theorem Stamped.run (stamped : Stamped least proxy) (moves : List Move) :
    Stamped least (proxy.run http moves) := by
  induction moves generalizing proxy with
  | nil => exact stamped
  | cons move moves ih => exact ih (stamped.step move)

theorem Starts.stamped {cfg : ConfigToml} (starts : Starts http cfg proxy) : Stamped 0 proxy := by
  obtain ⟨built, isTasks⟩ := starts
  have empty : HeapStamped proxy.clock {} := by
    intro cell b found
    simp at found
  have past := @HeapStamped.reload _ http cfg none _ empty
  rw [built] at past
  refine ⟨Nat.zero_le _, @buildTable_coherent http cfg none _ _ _ ?_ built, past, ?_⟩
  · intro table none
    cases none
  · rw [isTasks]
    exact taskStamped_gaugeTasks _

end Steps

end Proxy

end Ferryman.Server
