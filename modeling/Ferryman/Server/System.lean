import Ferryman.Core.Config
import Ferryman.Server.RequestIds

/-!
# The whole proxy

Requests, health checks (`health.rs`) and reloads over one table and one heap of
breakers. A request holds the table it began with. Every atomic operation that a
request, a health check or `publish_gauges` does on a breaker is a move of its own,
so that these tasks race with one another. A reload is one move: the stores that
reconfigure its breakers and the store of its table come together. The health loop
may tick at any time, and its probes need not end before the next tick.
-/

set_option autoImplicit false

namespace Ferryman.Server

open Ferryman.Core Byte Bytes Program

/-! ## Health checks -/

/-- Any answer below 500 means that the process is up. -/
def isHealthy (status : Option Nat) : Bool :=
  match status with
  | some status => !(500 ≤ status && status < 600)
  | none => false

def healthUrl (uri : Uri) (path : Bytes) : Bytes :=
  uri.scheme.getD (ascii "http") ++ ascii "://" ++
    (uri.authority.map Authority.text).getD [] ++ path

/-- A probe waits for its answer, and then reports it like a half-open probe. -/
inductive ProbeProgress : Type 1 where
  | asking (url : Bytes)
  | reporting (status : Option Nat) (left : Program Atomic Unit)

structure ProbeTask : Type 1 where
  upstream : Upstream
  progress : ProbeProgress

/-- `probe_one`. -/
def ProbeTask.new (upstream : Upstream) : ProbeTask where
  upstream := upstream
  progress := .asking (healthUrl upstream.uri (upstream.healthPath.getD (ascii "/health")))

def reportHealth (publishes : Bool) (status : Option Nat) : Program Atomic Unit :=
  if isHealthy status then Breaker.recordSuccess publishes .probe
  else Breaker.recordFailure publishes .probe

/-! ## Requests -/

/-- The operation on a breaker that an effect of the handler stands for. -/
def Effect.operation : {γ : Type} → Effect γ → Option (BreakerId × (Bool → Program Atomic γ))
  | _, .tryAcquire upstream => some (upstream.breaker, Breaker.tryAcquire)
  | _, .recordSuccess upstream admission =>
      some (upstream.breaker, fun publishes => Breaker.recordSuccess publishes admission)
  | _, .recordFailure upstream admission =>
      some (upstream.breaker, fun publishes => Breaker.recordFailure publishes admission)
  | _, .release upstream admission => some (upstream.breaker, fun _ => Breaker.release admission)
  | _, .select _ | _, .bodyState => none

/-- Between two effects, inside an operation on a breaker, or dropped. -/
inductive RequestProgress : Type 1 where
  | ready (program : Program Effect Response)
  | inside {γ : Type} (effect : Effect γ) (cell : BreakerId) (left : Program Atomic γ)
      (next : γ → Program Effect Response)
  | dropped

/-- What a request began with, the effects it has had answered, and what is left. -/
structure RequestTask : Type 1 where
  wrap : Wrap
  connection : Connection
  table : RouteTable
  req : Request
  words : UInt64 × UInt64
  events : List Event := []
  progress : RequestProgress

def RequestTask.new (http : Http) (wrap : Wrap) (connection : Connection) (table : RouteTable)
    (req : Request) (words : UInt64 × UInt64) : RequestTask where
  wrap := wrap
  connection := connection
  table := table
  req := req
  words := words
  progress := .ready (handleInner http wrap connection table req words)

/-! ## The proxy -/

inductive Work : Type 1 where
  | request (task : RequestTask)
  | probe (task : ProbeTask)
  /-- `publish_gauges` for one upstream. -/
  | gauges (cell : BreakerId) (left : Program Atomic Unit)

/-- Whether a task has counted a failure is for the proofs only. -/
structure Task : Type 1 where
  work : Work
  counted : Option BreakerId := none

/-- The response of a request that has one. -/
def Task.response (task : Task) : Option Response :=
  match task.work with
  | .request request =>
      match request.progress with
      | .ready (.done response) => some response
      | _ => none
  | _ => none

structure Proxy : Type 1 where
  clock : Nat
  table : RouteTable
  heap : Heap
  tasks : List Task := []

namespace Proxy

inductive Move where
  | tick (millis : Nat)
  | arrive (wrap : Wrap) (connection : Connection) (req : Request) (words : UInt64 × UInt64)
  /-- The next atomic operation of a task, or the begin or the end of a series of them. -/
  | advance (task : Nat)
  | answer (task : Nat) (ending : Ending)
  | readBody (task : Nat) (state : BodyState)
  | hangUp (task : Nat)
  | healthTick
  | probed (task : Nat) (status : Option Nat)
  | reload (cfg : ConfigToml)

def published (heap : Heap) (cell : BreakerId) : Bool :=
  (heap.breakers[cell]?.map Breaker.published).getD false

/-- One atomic operation on the breaker with this address. -/
def exec {γ : Type} (clock : Nat) (cell : BreakerId) (effect : Atomic γ) (heap : Heap) :
    Option (γ × Heap) :=
  heap.breakers[cell]?.map fun b =>
    let (answer, after) := Atomic.exec clock effect b
    (answer, heap.update cell fun _ => after)

/-- The cell on which an operation counts a failure. -/
def recallCount {γ : Type} (counted : Option BreakerId) (cell : BreakerId) :
    Atomic γ → Option BreakerId
  | .fetchAddFailures => some cell
  | _ => counted

def advanceRequest (clock : Nat) (counted : Option BreakerId) (task : RequestTask) (heap : Heap) :
    Task × Heap :=
  match task.progress with
  | .ready (.perform effect next) =>
      match effect.operation with
      | some (cell, operation) =>
          (⟨.request { task with
            progress := .inside effect cell (operation (published heap cell)) next }, counted⟩, heap)
      | none => (⟨.request task, counted⟩, heap)
  | .inside effect cell (.perform atomic rest) next =>
      match exec clock cell atomic heap with
      | some (answer, heap) =>
          (⟨.request { task with progress := .inside effect cell (rest answer) next },
            recallCount counted cell atomic⟩, heap)
      | none => (⟨.request task, counted⟩, heap)
  | .inside effect _ (.done result) next =>
      (⟨.request { task with
        events := task.events ++ [effect.event result]
        progress := .ready (next result) }, counted⟩, heap)
  | .ready (.done _) | .dropped => (⟨.request task, counted⟩, heap)

def advanceProbe (clock : Nat) (counted : Option BreakerId) (task : ProbeTask) (heap : Heap) :
    Task × Heap :=
  match task.progress with
  | .reporting status (.perform atomic rest) =>
      match exec clock task.upstream.breaker atomic heap with
      | some (answer, heap) =>
          (⟨.probe { task with progress := .reporting status (rest answer) },
            recallCount counted task.upstream.breaker atomic⟩, heap)
      | none => (⟨.probe task, counted⟩, heap)
  | .reporting _ (.done _) | .asking _ => (⟨.probe task, counted⟩, heap)

def advanceTask (clock : Nat) (task : Task) (heap : Heap) : Task × Heap :=
  match task.work with
  | .request request => advanceRequest clock task.counted request heap
  | .probe probe => advanceProbe clock task.counted probe heap
  | .gauges cell (.perform atomic rest) =>
      match exec clock cell atomic heap with
      | some (answer, heap) =>
          (⟨.gauges cell (rest answer), recallCount task.counted cell atomic⟩, heap)
      | none => (task, heap)
  | .gauges _ (.done _) => (task, heap)

def answerTask (task : Task) (ending : Ending) : Task :=
  match task.work with
  | .request request =>
      match request.progress with
      | .ready (.perform (.select sent) next) =>
          { task with work := .request { request with
            events := request.events ++ [.select sent ending]
            progress := .ready (next ending) } }
      | _ => task
  | _ => task

def readTask (task : Task) (state : BodyState) : Task :=
  match task.work with
  | .request request =>
      match request.progress with
      | .ready (.perform .bodyState next) =>
          { task with work := .request { request with
            events := request.events ++ [.bodyState state]
            progress := .ready (next state) } }
      | _ => task
  | _ => task

def hangUpTask (task : Task) : Task :=
  match task.work with
  | .request request =>
      match request.progress with
      | .ready (.perform (.select sent) _) =>
          { task with work := .request { request with
            events := request.events ++ [.dropped sent]
            progress := .dropped } }
      | _ => task
  | _ => task

def probedTask (heap : Heap) (task : Task) (status : Option Nat) : Task :=
  match task.work with
  | .probe probe =>
      match probe.progress with
      | .asking _ =>
          { task with work := .probe { probe with
            progress := .reporting status
              (reportHealth (published heap probe.upstream.breaker) status) } }
      | .reporting _ _ => task
  | _ => task

/-- `publish_gauges`. -/
def gaugeTasks (table : RouteTable) (heap : Heap) : List Task :=
  table.upstreams.map fun upstream =>
    ⟨.gauges upstream.breaker (Breaker.setGauges (published heap upstream.breaker)), none⟩

def healthTasks (table : RouteTable) (heap : Heap) : List Task :=
  gaugeTasks table heap ++ (table.upstreams.filter (!·.healthDisabled)).map fun upstream =>
    ⟨.probe (.new upstream), none⟩

/-- Replace a task by what becomes of it. -/
def updateTask (proxy : Proxy) (index : Nat) (change : Task → Task) : Proxy :=
  { proxy with tasks := proxy.tasks.modify index change }

def step (http : Http) (proxy : Proxy) : Move → Proxy
  | .tick millis => { proxy with clock := proxy.clock + millis }
  | .arrive wrap connection req words =>
      { proxy with
        tasks := proxy.tasks ++
          [⟨.request (.new http wrap connection proxy.table req words), none⟩] }
  | .advance index =>
      match proxy.tasks[index]? with
      | none => proxy
      | some task =>
          let (task, heap) := advanceTask proxy.clock task proxy.heap
          { proxy with heap := heap, tasks := proxy.tasks.set index task }
  | .answer index ending => proxy.updateTask index (answerTask · ending)
  | .readBody index state => proxy.updateTask index (readTask · state)
  | .hangUp index => proxy.updateTask index hangUpTask
  | .healthTick => { proxy with tasks := proxy.tasks ++ healthTasks proxy.table proxy.heap }
  | .probed index status => proxy.updateTask index (probedTask proxy.heap · status)
  | .reload cfg =>
      match buildTable http cfg (some proxy.table) proxy.heap with
      | (.ok table, heap) =>
          { proxy with
            table := table
            heap := heap
            tasks := proxy.tasks ++ gaugeTasks table heap }
      | (.error _, heap) => { proxy with heap := heap }

/-- The table of the first config, before anything has happened. -/
def Starts (http : Http) (cfg : ConfigToml) (proxy : Proxy) : Prop :=
  buildTable http cfg none {} = (.ok proxy.table, proxy.heap) ∧
    proxy.tasks = gaugeTasks proxy.table proxy.heap

def run (http : Http) (proxy : Proxy) (moves : List Move) : Proxy := moves.foldl (step http) proxy

end Proxy

/-! ## Evidence against an upstream -/

/-- A wait that ended to the upstream's discredit. -/
def Ending.accuses (countsTimeout : Bool) : Ending → Bool
  | .timedOut => countsTimeout
  | .failed sources => !isBodyIdleTimeout sources && !isClientBodyError sources
  | .responded status _ => 502 ≤ status && status ≤ 504

def Event.isStalled (theta : Duration) : Event → Bool
  | .bodyState state => state.clientStalled theta
  | _ => false

/-- The request waited for the upstream, the wait ended to its discredit, and no stall of
the client excuses it. -/
def RequestTask.accuses (task : RequestTask) (cell : BreakerId) : Bool :=
  match task.events with
  | .tryAcquire upstream (some _) :: .select _ ending :: later =>
      upstream.breaker = cell && ending.accuses (task.req.countsTimeout task.wrap) &&
        !later.any (Event.isStalled (stallThreshold task.table))
  | _ => false

/-- The health check failed. -/
def ProbeTask.accuses (task : ProbeTask) (cell : BreakerId) : Bool :=
  match task.progress with
  | .reporting status _ =>
      task.upstream.breaker = cell && !isHealthy status && !task.upstream.healthDisabled
  | .asking _ => false

def Task.accuses (task : Task) (cell : BreakerId) : Bool :=
  match task.work with
  | .request request => request.accuses cell
  | .probe probe => probe.accuses cell
  | .gauges _ _ => false

end Ferryman.Server
