import Ferryman.Server.SystemProperties

/-!
# Requests across reloads

A request is handled under the table that was in force when it arrived, however
often the config is reloaded while it is under way. To the handler the rest of
the proxy only decides how its effects are answered.
-/

set_option autoImplicit false

namespace Ferryman.Server

open Ferryman.Core Byte Bytes Program

namespace Proxy

/-! ## What a request began with -/

/-- One of the moves brought this request, under the table in force at that moment. -/
def Arrived (http : Http) (proxy : Proxy) (moves : List Move) (request : RequestTask) : Prop :=
  ∃ first second,
    moves = first ++ .arrive request.wrap request.connection request.req request.words :: second ∧
      request.table = (proxy.run http first).table

/-- What is left of a request continues a run of the handler under its own table. -/
def Handled (http : Http) (request : RequestTask) : Prop :=
  match request.progress with
  | .ready program => request.Continues http program
  | .inside effect _ _ next => request.Continues http (perform effect next)
  | .dropped => Path observer (handleInner http request.wrap request.connection request.table
      request.req request.words) request.events none

def Served (http : Http) (proxy : Proxy) (moves : List Move) (task : Task) : Prop :=
  ∀ request, task.work = .request request →
    Arrived http proxy moves request ∧ Handled http request

section Served

variable {http : Http} {proxy : Proxy} {moves : List Move}

theorem Served.mono {task : Task} (served : Served http proxy moves task) (move : Move) :
    Served http proxy (moves ++ [move]) task := by
  intro request isRequest
  obtain ⟨⟨first, second, rfl, isTable⟩, handled⟩ := served request isRequest
  exact ⟨⟨first, second ++ [move], by simp, isTable⟩, handled⟩

theorem Served.taskMove {clock : Nat} {heap changed : Heap} {task later : Task}
    (served : Served http proxy moves task) (moved : TaskMove clock heap task (later, changed)) :
    Served http proxy moves later := by
  intro request isRequest
  cases moved with
  | stays => exact served request isRequest
  | begins isReady =>
      obtain ⟨arrived, handled⟩ := served _ rfl
      cases isRequest
      simp only [Handled, isReady] at handled
      exact ⟨arrived, handled⟩
  | executes isInside =>
      obtain ⟨arrived, handled⟩ := served _ rfl
      cases isRequest
      simp only [Handled, isInside] at handled
      exact ⟨arrived, handled⟩
  | @ends _ _ _ _ _ result _ isInside =>
      obtain ⟨arrived, handled⟩ := served _ rfl
      cases isRequest
      simp only [Handled, isInside] at handled
      exact ⟨arrived, continues_answered handled result⟩
  | answered answer isReady =>
      obtain ⟨arrived, handled⟩ := served _ rfl
      cases isRequest
      simp only [Handled, isReady] at handled
      exact ⟨arrived, continues_answered handled answer⟩
  | drops isReady =>
      obtain ⟨arrived, handled⟩ := served _ rfl
      cases isRequest
      simp only [Handled, isReady] at handled
      exact ⟨arrived, handled _ _ (.abandoned rfl)⟩
  | checked | reports | publishes => cases isRequest

theorem served_healthTasks (table : RouteTable) (heap : Heap) :
    ∀ task ∈ healthTasks table heap, Served http proxy moves task := by
  intro task member request isRequest
  cases List.mem_append.mp member with
  | inl gauge =>
      obtain ⟨upstream, -, rfl⟩ := List.mem_map.mp gauge
      cases isRequest
  | inr probe =>
      obtain ⟨upstream, -, rfl⟩ := List.mem_map.mp probe
      cases isRequest

theorem served_gaugeTasks (table : RouteTable) (heap : Heap) :
    ∀ task ∈ gaugeTasks table heap, Served http proxy moves task :=
  fun task member => served_healthTasks table heap task (List.mem_append_left _ member)

theorem served_taskStep {reached later : Proxy} {index : Nat}
    (served : ∀ task ∈ reached.tasks, Served http proxy moves task)
    (steps : TaskStep reached index later) :
    ∀ task ∈ later.tasks, Served http proxy moves task := by
  intro task member
  cases steps with
  | nothing => exact served task member
  | moved found moved =>
      cases List.mem_or_eq_of_mem_set member with
      | inl old => exact served task old
      | inr new => exact new ▸ (served _ (List.mem_of_getElem? found)).taskMove moved

theorem served_append {tasks more : List Task}
    (served : ∀ task ∈ tasks, Served http proxy moves task)
    (fresh : ∀ task ∈ more, Served http proxy moves task) :
    ∀ task ∈ tasks ++ more, Served http proxy moves task := by
  intro task member
  cases List.mem_append.mp member with
  | inl old => exact served task old
  | inr new => exact fresh task new

theorem served_step (served : ∀ task ∈ (proxy.run http moves).tasks, Served http proxy moves task)
    (move : Move) :
    ∀ task ∈ ((proxy.run http moves).step http move).tasks,
      Served http proxy (moves ++ [move]) task := by
  have old : ∀ task ∈ (proxy.run http moves).tasks, Served http proxy (moves ++ [move]) task :=
    fun task member => (served task member).mono move
  cases move with
  | tick millis => exact old
  | arrive wrap connection req words =>
      refine served_append old fun task member => ?_
      obtain rfl := List.mem_singleton.mp member
      intro request isRequest
      cases isRequest
      exact ⟨⟨moves, [], rfl, rfl⟩, fun later ended path => path⟩
  | advance | answer | readBody | hangUp | probed =>
      exact served_taskStep old (step_task http rfl)
  | healthTick => exact served_append old (served_healthTasks _ _)
  | reload cfg =>
      simp only [Proxy.step]
      split
      · exact served_append old (served_gaugeTasks _ _)
      · exact old

theorem Starts.served {cfg : ConfigToml} (starts : Starts http cfg proxy) (moves : List Move) :
    ∀ task ∈ (proxy.run http moves).tasks, Served http proxy moves task := by
  induction moves using List.reverseRecOn with
  | nil =>
      rw [Proxy.run, List.foldl_nil, starts.2]
      exact served_gaugeTasks _ _
  | append_singleton moves move ih =>
      rw [Proxy.run, List.foldl_append]
      exact served_step ih move

/-- A run of the handler that goes on as the request does. -/
theorem Handled.path {request : RequestTask} (handled : Handled http request) :
    ∃ later ended, Path observer (handleInner http request.wrap request.connection request.table
        request.req request.words) (request.events ++ later) ended ∧
      (∀ response, request.progress = .ready (done response) →
        later = [] ∧ ended = some response) ∧
      (request.progress = .dropped → later = [] ∧ ended = none) := by
  unfold Handled at handled
  split at handled
  · next program isReady =>
    cases program with
    | done response =>
        refine ⟨[], some response, handled _ _ .finished, fun other same => ?_, fun dropped => ?_⟩
        · rw [isReady] at same
          cases same
          exact ⟨rfl, rfl⟩
        · rw [isReady] at dropped
          cases dropped
    | perform effect next =>
        obtain ⟨later, ended, path⟩ := exists_path (perform effect next)
        exact ⟨later, ended, handled _ _ path, by simp [isReady], by simp [isReady]⟩
  · next effect cell left next isInside =>
    obtain ⟨later, ended, path⟩ := exists_path (perform effect next)
    exact ⟨later, ended, handled _ _ path, by simp [isInside], by simp [isInside]⟩
  · next isDropped =>
    rw [← List.append_nil request.events] at handled
    exact ⟨[], none, handled, by simp [isDropped], fun _ => ⟨rfl, rfl⟩⟩

/-- However its steps are interleaved with those of other requests, health checks and
reloads, a request has one run of the handler, and every decision in it is made under the
table that was in force when the request arrived. -/
theorem handled_under_first_table {cfg : ConfigToml} {task : Task} {request : RequestTask}
    (starts : Starts http cfg proxy) (member : task ∈ (proxy.run http moves).tasks)
    (isRequest : task.work = .request request) :
    ∃ first second later ended,
      moves = first ++ .arrive request.wrap request.connection request.req request.words :: second ∧
      HandlerRun http request.wrap request.connection (proxy.run http first).table
        (identify (proxy.run http first).table request.req request.words).2
        (request.events ++ later) ended ∧
      (∀ response, task.response = some response → later = [] ∧ some response =
        ended.map (echo (identify (proxy.run http first).table request.req request.words).1)) ∧
      (request.progress = .dropped → later = [] ∧ ended = none) := by
  obtain ⟨⟨first, second, isMoves, isTable⟩, handled⟩ :=
    starts.served moves task member request isRequest
  obtain ⟨later, ended, path, isAnswered, isDropped⟩ := handled.path
  obtain ⟨own, run, isEnded⟩ := handleInner_path_iff.mp path
  rw [isTable] at run isEnded
  refine ⟨first, second, later, own, isMoves, run, fun response answered => ?_, fun dropped => ?_⟩
  · obtain ⟨other, isOther, isDone⟩ := Task.response_eq_some answered
    cases isRequest.symm.trans isOther
    obtain ⟨isLast, rfl⟩ := isAnswered response isDone
    exact ⟨isLast, isEnded⟩
  · obtain ⟨isLast, rfl⟩ := isDropped dropped
    exact ⟨isLast, Option.map_eq_none_iff.mp isEnded.symm⟩

end Served

/-! ## A withdrawn route -/

/-- Without `/api`. -/
def withdrawnConfig : ConfigToml := { sternConfig with routes := sternConfig.routes.drop 1 }

/-- The route of task 2 is withdrawn while the request waits. -/
def withdrawingMoves : List Move :=
  [.arrive .streaming localClient upload (0, 0)] ++ List.replicate 3 (.advance 2) ++
    [.reload withdrawnConfig, .answer 2 (.responded 200 {})] ++ List.replicate 4 (.advance 2)

theorem withdrawn_route_answered :
    ((sternProxy.run plainHttp withdrawingMoves).table.routes.any
        (·.pathPrefix = ascii "/api")) = false ∧
    ∃ (request : RequestTask) (first second : List Move) (own : Response),
      withdrawingMoves = first ++
        .arrive request.wrap request.connection request.req request.words :: second ∧
      HandlerRun plainHttp request.wrap request.connection (sternProxy.run plainHttp first).table
        (identify (sternProxy.run plainHttp first).table request.req request.words).2 request.events
        (some own) ∧
      (⟨200, stripHopByHop {}, .boxed⟩ : Response) =
        echo (identify (sternProxy.run plainHttp first).table request.req request.words).1 own := by
  refine ⟨by decide +kernel, ?_⟩
  have found : ((sternProxy.run plainHttp withdrawingMoves).tasks.any fun task =>
      task.response = some ⟨200, stripHopByHop {}, .boxed⟩) = true := by
    decide +kernel
  obtain ⟨task, member, answered⟩ := List.any_eq_true.mp found
  have answered : task.response = some ⟨200, stripHopByHop {}, .boxed⟩ := by simpa using answered
  obtain ⟨request, isRequest, -⟩ := Task.response_eq_some answered
  obtain ⟨first, second, later, ended, isMoves, run, isAnswered, -⟩ :=
    handled_under_first_table sternProxy_starts member isRequest
  obtain ⟨rfl, same⟩ := isAnswered _ answered
  obtain ⟨own, rfl, isOwn⟩ := Option.map_eq_some_iff.mp same.symm
  rw [List.append_nil] at run
  exact ⟨request, first, second, own, isMoves, run, isOwn.symm⟩

end Proxy

end Ferryman.Server
