import Ferryman.Core.Install
import Ferryman.Server.Accusations

/-!
# Moves of one task

Everything that a move can do to a task and to the heap is said once. What holds
of every run of the proxy is shown for each of these moves.
-/

set_option autoImplicit false

namespace Ferryman.Server

open Ferryman.Core Byte Bytes Program

namespace Proxy

theorem exec_eq_some {clock : Nat} {γ : Type} {effect : Atomic γ} {cell : BreakerId} {heap changed : Heap}
    {answer : γ} (executed : exec clock cell effect heap = some (answer, changed)) :
    ∃ b after, heap.breakers[cell]? = some b ∧ Atomic.exec clock effect b = (answer, after) ∧
      changed = heap.update cell fun _ => after := by
  obtain ⟨b, found, same⟩ := Option.map_eq_some_iff.mp executed
  obtain ⟨rfl, rfl⟩ := Prod.mk.inj same
  exact ⟨b, _, found, rfl, rfl⟩

/-- A task, and the heap with it, before and after a move. -/
inductive TaskMove (clock : Nat) (heap : Heap) : Task → Task × Heap → Prop where
  | stays (task : Task) : TaskMove clock heap task (task, heap)
  | begins {request : RequestTask} {counted : Option BreakerId} {γ : Type} {effect : Effect γ}
      {next : γ → Program Effect Response} {cell : BreakerId}
      {operation : Bool → Program Atomic γ} :
      request.progress = .ready (perform effect next) →
      effect.operation = some (cell, operation) →
      TaskMove clock heap ⟨.request request, counted⟩ (⟨.request { request with
        progress := .inside effect cell (operation (published heap cell)) next }, counted⟩, heap)
  | executes {request : RequestTask} {counted : Option BreakerId} {γ β : Type} {effect : Effect γ}
      {cell : BreakerId} {atomic : Atomic β} {rest : β → Program Atomic γ}
      {next : γ → Program Effect Response} {answer : β} {changed : Heap} :
      request.progress = .inside effect cell (perform atomic rest) next →
      exec clock cell atomic heap = some (answer, changed) →
      TaskMove clock heap ⟨.request request, counted⟩
        (⟨.request { request with progress := .inside effect cell (rest answer) next },
          recallCount counted cell atomic⟩, changed)
  | ends {request : RequestTask} {counted : Option BreakerId} {γ : Type} {effect : Effect γ}
      {cell : BreakerId} {result : γ} {next : γ → Program Effect Response} :
      request.progress = .inside effect cell (done result) next →
      TaskMove clock heap ⟨.request request, counted⟩ (⟨.request { request with
        events := request.events ++ [effect.event result]
        progress := .ready (next result) }, counted⟩, heap)
  /-- The upstream answered, or the body was looked at. -/
  | answered {request : RequestTask} {counted : Option BreakerId} {γ : Type} {effect : Effect γ}
      {next : γ → Program Effect Response} (answer : γ) :
      request.progress = .ready (perform effect next) → effect.operation = none →
      TaskMove clock heap ⟨.request request, counted⟩ (⟨.request { request with
        events := request.events ++ [effect.event answer]
        progress := .ready (next answer) }, counted⟩, heap)
  | drops {request : RequestTask} {counted : Option BreakerId} {sent : Request}
      {next : Ending → Program Effect Response} :
      request.progress = .ready (perform (.select sent) next) →
      TaskMove clock heap ⟨.request request, counted⟩ (⟨.request { request with
        events := request.events ++ [.dropped sent]
        progress := .dropped }, counted⟩, heap)
  | checked {probe : ProbeTask} {counted : Option BreakerId} {url : Bytes} (status : Option Nat) :
      probe.progress = .asking url →
      TaskMove clock heap ⟨.probe probe, counted⟩ (⟨.probe { probe with
        progress := .reporting status
          (reportHealth (published heap probe.upstream.breaker) status) }, counted⟩, heap)
  | reports {probe : ProbeTask} {counted : Option BreakerId} {status : Option Nat} {β : Type}
      {atomic : Atomic β} {rest : β → Program Atomic Unit} {answer : β} {changed : Heap} :
      probe.progress = .reporting status (perform atomic rest) →
      exec clock probe.upstream.breaker atomic heap = some (answer, changed) →
      TaskMove clock heap ⟨.probe probe, counted⟩
        (⟨.probe { probe with progress := .reporting status (rest answer) },
          recallCount counted probe.upstream.breaker atomic⟩, changed)
  | publishes {cell : BreakerId} {counted : Option BreakerId} {β : Type} {atomic : Atomic β}
      {rest : β → Program Atomic Unit} {answer : β} {changed : Heap} :
      exec clock cell atomic heap = some (answer, changed) →
      TaskMove clock heap ⟨.gauges cell (perform atomic rest), counted⟩
        (⟨.gauges cell (rest answer), recallCount counted cell atomic⟩, changed)

section Moves

variable {clock : Nat} {heap : Heap}

theorem advanceRequest_moves (request : RequestTask) (counted : Option BreakerId) :
    TaskMove clock heap ⟨.request request, counted⟩ (advanceRequest clock counted request heap) := by
  unfold advanceRequest
  split
  · next isReady =>
    split
    · next isOperation => exact .begins isReady isOperation
    · exact .stays _
  · next isInside =>
    split
    · next executed => exact .executes isInside executed
    · exact .stays _
  · next isInside => exact .ends isInside
  · exact .stays _
  · exact .stays _

theorem advanceTask_moves (task : Task) :
    TaskMove clock heap task (advanceTask clock task heap) := by
  obtain ⟨work, counted⟩ := task
  cases work with
  | request request => exact advanceRequest_moves request counted
  | probe probe =>
      simp only [advanceTask, advanceProbe]
      split
      · next isReporting =>
        split
        · next executed => exact .reports isReporting executed
        · exact .stays _
      · exact .stays _
      · exact .stays _
  | gauges cell left =>
      cases left with
      | done result => exact .stays _
      | perform atomic rest =>
          simp only [advanceTask]
          split
          · next executed => exact .publishes executed
          · exact .stays _

theorem answerTask_moves (ending : Ending) (task : Task) :
    TaskMove clock heap task (answerTask task ending, heap) := by
  obtain ⟨work, counted⟩ := task
  unfold answerTask
  split
  · next request isRequest =>
    obtain rfl : work = .request request := isRequest
    split
    · next isReady => exact .answered ending isReady rfl
    · exact .stays _
  · exact .stays _

theorem readTask_moves (state : BodyState) (task : Task) :
    TaskMove clock heap task (readTask task state, heap) := by
  obtain ⟨work, counted⟩ := task
  unfold readTask
  split
  · next request isRequest =>
    obtain rfl : work = .request request := isRequest
    split
    · next isReady => exact .answered state isReady rfl
    · exact .stays _
  · exact .stays _

theorem hangUpTask_moves (task : Task) : TaskMove clock heap task (hangUpTask task, heap) := by
  obtain ⟨work, counted⟩ := task
  unfold hangUpTask
  split
  · next request isRequest =>
    obtain rfl : work = .request request := isRequest
    split
    · next isReady => exact .drops isReady
    · exact .stays _
  · exact .stays _

theorem probedTask_moves (status : Option Nat) (task : Task) :
    TaskMove clock heap task (probedTask heap task status, heap) := by
  obtain ⟨work, counted⟩ := task
  unfold probedTask
  split
  · next probe isProbe =>
    obtain rfl : work = .probe probe := isProbe
    split
    · next isAsking => exact .checked status isAsking
    · exact .stays _
  · exact .stays _

end Moves

/-- The task that a move is one of. -/
def Move.task : Move → Option Nat
  | .advance task | .answer task _ | .readBody task _ | .hangUp task | .probed task _ => some task
  | .tick _ | .arrive _ _ _ _ | .healthTick | .reload _ => none

/-- A move of one task changes that task and the heap, or nothing. -/
inductive TaskStep (proxy : Proxy) (index : Nat) : Proxy → Prop where
  | nothing : TaskStep proxy index proxy
  | moved {task changed : Task} {heap : Heap} : proxy.tasks[index]? = some task →
      TaskMove proxy.clock proxy.heap task (changed, heap) →
      TaskStep proxy index { proxy with
        heap := heap
        tasks := proxy.tasks.set index changed }

theorem updateTask_steps {proxy : Proxy} {index : Nat} {change : Task → Task}
    (moves : ∀ task, TaskMove proxy.clock proxy.heap task (change task, proxy.heap)) :
    TaskStep proxy index (proxy.updateTask index change) := by
  unfold updateTask
  rw [List.modify_eq_set_getElem?]
  cases found : proxy.tasks[index]? with
  | none => exact .nothing
  | some task => exact .moved found (moves task)

theorem step_task {proxy : Proxy} {move : Move} {index : Nat} (http : Http)
    (concerns : move.task = some index) : TaskStep proxy index (proxy.step http move) := by
  cases move with
  | advance other =>
      obtain rfl : other = index := Option.some.inj concerns
      simp only [Proxy.step]
      split
      · exact .nothing
      · next found => exact .moved found (advanceTask_moves _)
  | answer other ending =>
      obtain rfl : other = index := Option.some.inj concerns
      exact updateTask_steps (answerTask_moves ending)
  | readBody other state =>
      obtain rfl : other = index := Option.some.inj concerns
      exact updateTask_steps (readTask_moves state)
  | hangUp other =>
      obtain rfl : other = index := Option.some.inj concerns
      exact updateTask_steps hangUpTask_moves
  | probed other status =>
      obtain rfl : other = index := Option.some.inj concerns
      exact updateTask_steps (probedTask_moves status)
  | tick | arrive | healthTick | reload => cases concerns

end Proxy

end Ferryman.Server
