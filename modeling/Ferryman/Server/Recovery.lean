import Ferryman.Core.BreakerProperties
import Ferryman.Server.HostHeader
import Ferryman.Server.SystemStamps

/-!
# The end of an outage

Whatever has been done to a breaker, the next request after a quiet cooldown is
let through, and when it succeeds, the circuit is closed.
-/

set_option autoImplicit false

namespace Ferryman.Server

open Ferryman.Core Byte Bytes Program

namespace Proxy

/-! ## One request by itself -/

/-- The proxy at this time, as far as one request and one breaker go. -/
structure Shows (proxy : Proxy) (clock index : Nat) (progress : RequestProgress) (cell : BreakerId)
    (b : Breaker) : Prop where
  now : proxy.clock = clock
  task : ∃ request counted, proxy.tasks[index]? = some ⟨.request request, counted⟩ ∧
    request.progress = progress
  breaker : proxy.heap.breakers[cell]? = some b

/-- Only this task moves. -/
def alone (index count : Nat) : List Move := List.replicate count (.advance index)

section Alone

variable {http : Http} {proxy : Proxy} {clock index : Nat} {progress after : RequestProgress}
  {cell : BreakerId} {b changed : Breaker} {γ : Type} {effect : Effect γ}
  {next : γ → Program Effect Response}

theorem run_append (proxy : Proxy) (first second : List Move) :
    proxy.run http (first ++ second) = (proxy.run http first).run http second :=
  List.foldl_append

theorem Shows.step (shows : Shows proxy clock index progress cell b) (http : Http) {heap : Heap}
    (found : heap.breakers[cell]? = some changed)
    (advances : ∀ request counted, request.progress = progress → ∃ later recalled,
      advanceRequest clock counted request proxy.heap = (⟨.request later, recalled⟩, heap) ∧
        later.progress = after) :
    Shows (proxy.step http (.advance index)) clock index after cell changed := by
  obtain ⟨request, counted, isTask, isProgress⟩ := shows.task
  obtain ⟨later, recalled, advanced, isAfter⟩ := advances request counted isProgress
  obtain ⟨bound, -⟩ := List.getElem?_eq_some_iff.mp isTask
  rw [← shows.now] at advanced
  simp only [Proxy.step, isTask, advanceTask, advanced]
  exact ⟨shows.now, ⟨later, recalled, List.getElem?_set_self bound, isAfter⟩, found⟩

/-- An operation that nobody interrupts has its sequential effect. -/
theorem Shows.inside {left : Program Atomic γ}
    (shows : Shows proxy clock index (.inside effect cell left next) cell b) :
    ∃ count, Shows (proxy.run http (alone index count)) clock index
      (.ready (next (left.run (Atomic.exec clock) b).1)) cell
      (left.run (Atomic.exec clock) b).2 := by
  induction left generalizing proxy b with
  | done result =>
      refine ⟨1, shows.step http shows.breaker fun request counted isProgress => ?_⟩
      simp only [advanceRequest, isProgress]
      exact ⟨_, _, rfl, rfl⟩
  | perform atomic rest ih =>
      have executed : exec clock cell atomic proxy.heap =
          some ((Atomic.exec clock atomic b).1,
            proxy.heap.update cell fun _ => (Atomic.exec clock atomic b).2) := by
        rw [exec, shows.breaker]
        rfl
      have found : (proxy.heap.update cell fun _ => (Atomic.exec clock atomic b).2).breakers[cell]? =
          some (Atomic.exec clock atomic b).2 := by
        rw [getElem?_update_self, shows.breaker, Option.map_some]
      have stepped : Shows (proxy.step http (.advance index)) clock index
          (.inside effect cell (rest (Atomic.exec clock atomic b).1) next) cell
          (Atomic.exec clock atomic b).2 := by
        refine shows.step http found fun request counted isProgress => ?_
        simp only [advanceRequest, isProgress, executed]
        exact ⟨_, _, rfl, rfl⟩
      obtain ⟨count, later⟩ := ih _ stepped
      exact ⟨count + 1, later⟩

theorem Shows.operate {operation : Bool → Program Atomic γ}
    (shows : Shows proxy clock index (.ready (perform effect next)) cell b)
    (isOperation : effect.operation = some (cell, operation)) :
    ∃ count, Shows (proxy.run http (alone index count)) clock index
      (.ready (next ((operation b.published).run (Atomic.exec clock) b).1)) cell
      ((operation b.published).run (Atomic.exec clock) b).2 := by
  have isPublished : published proxy.heap cell = b.published := by
    rw [published, shows.breaker]
    rfl
  have begun : Shows (proxy.step http (.advance index)) clock index
      (.inside effect cell (operation b.published) next) cell b := by
    refine shows.step http shows.breaker fun request counted isProgress => ?_
    simp only [advanceRequest, isProgress, isOperation, isPublished]
    exact ⟨_, _, rfl, rfl⟩
  obtain ⟨count, later⟩ := begun.inside
  exact ⟨count + 1, later⟩

end Alone

/-! ## Other moves -/

section Others

variable {http : Http} {proxy : Proxy} {index : Nat} {task : Task}

theorem getElem?_add (found : proxy.tasks[index]? = some task) (more : List Task) :
    (proxy.tasks ++ more)[index]? = some task := by
  obtain ⟨bound, -⟩ := List.getElem?_eq_some_iff.mp found
  rw [List.getElem?_append_left bound, found]

theorem TaskStep.other {later : Proxy} {other : Nat} (steps : TaskStep proxy other later)
    (apart : some other ≠ some index) : later.tasks[index]? = proxy.tasks[index]? := by
  cases steps with
  | nothing => rfl
  | moved => exact List.getElem?_set_ne fun same => apart (congrArg some same)

theorem step_other {move : Move} (found : proxy.tasks[index]? = some task)
    (apart : move.task ≠ some index) : (proxy.step http move).tasks[index]? = some task := by
  cases move with
  | tick millis => exact found
  | arrive | healthTick => exact getElem?_add found _
  | advance other | answer other | readBody other | hangUp other | probed other =>
      rw [(step_task http rfl).other apart, found]
  | reload cfg =>
      simp only [Proxy.step]
      split
      · exact getElem?_add found _
      · exact found

theorem run_others {moves : List Move} (found : proxy.tasks[index]? = some task)
    (apart : ∀ move ∈ moves, move.task ≠ some index) :
    (proxy.run http moves).tasks[index]? = some task := by
  induction moves generalizing proxy with
  | nil => exact found
  | cons move moves ih =>
      exact ih (step_other found (apart move List.mem_cons_self)) fun other member =>
        apart other (List.mem_cons_of_mem _ member)

end Others

/-! ## Recovery -/

def stateOf (proxy : Proxy) (cell : BreakerId) : Option CircuitState :=
  proxy.heap.breakers[cell]?.map Breaker.state

/-- After a cooldown without any stamp, a breaker lets the next request through. -/
theorem tryAcquire_rested {clock : Nat} {b : Breaker}
    (rested : b.openedAtMillis + b.cooldownMillis ≤ clock) :
    ∃ admission, ((Breaker.tryAcquire b.published).run (Atomic.exec clock) b).1 = some admission ∧
      (b.state ≠ .closed → admission = .probe) := by
  have late : ¬clock - b.openedAtMillis < b.cooldownMillis := by omega
  rw [Breaker.run_tryAcquire]
  cases state : b.state with
  | closed => exact ⟨.normal, rfl, fun notClosed => absurd rfl notClosed⟩
  | «open» | halfOpen => exact ⟨.probe, by simp [late], fun _ => rfl⟩

theorem recordSuccess_probe (clock : Nat) (b : Breaker) :
    ((Breaker.recordSuccess b.published .probe).run (Atomic.exec clock) b).2.state = .closed := by
  rw [Breaker.run_recordSuccess]
  cases state : b.state with
  | closed => exact state
  | «open» | halfOpen => simp

section Recovery

variable {http : Http} {proxy : Proxy} {wrap : Wrap} {connection : Connection} {table : RouteTable}
  {req : Request} {words : UInt64 × UInt64} {selected : Selected} {uri : Uri}

theorem handleInner_routed
    (selects : selectRoute http table (identify table req words).2 = .ok selected) :
    handleInner http wrap connection table req words =
      perform (.tryAcquire selected.route.upstream) fun answer =>
        (match answer with
          | none => done (errorResponse 503 (ascii "upstream unavailable"))
          | some admission =>
              forward http wrap connection table (identify table req words).2 selected admission) >>=
          fun response => done (echo (identify table req words).1 response) := by
  simp only [handleInner, handleCore, selects]
  rfl

theorem forward_sends {admission : Admission} {rest : Response → Program Effect Response}
    (rebuilds : rebuildUri http req selected = .ok uri) :
    (forward http wrap connection table req selected admission >>= rest) =
      perform (.select (forwardedRequest connection table req selected uri)) fun ending =>
        conclude wrap table selected.route.upstream admission
          (req.isEndStream || wrap = .streaming) ending >>= rest := by
  simp only [forward, rebuilds]
  rfl

theorem conclude_passed {upstream : Upstream} {admission : Admission} {countsTimeout : Bool}
    {status : Nat} (fine : ¬(502 ≤ status ∧ status ≤ 504)) (headers : HeaderMap)
    (rest : Response → Program Effect Response) :
    (conclude wrap table upstream admission countsTimeout (.responded status headers) >>= rest) =
      perform (.recordSuccess upstream admission) fun _ =>
        rest ⟨status, stripHopByHop headers, .boxed⟩ := by
  simp only [conclude, if_neg fine]
  rfl

theorem Shows.arrived (proxy : Proxy) {cell : BreakerId} {b : Breaker}
    (found : proxy.heap.breakers[cell]? = some b) (http : Http) (millis : Nat) (wrap : Wrap)
    (connection : Connection) (req : Request) (words : UInt64 × UInt64) :
    Shows (proxy.run http [.tick millis, .arrive wrap connection req words])
      (proxy.clock + millis) proxy.tasks.length
      (.ready (handleInner http wrap connection proxy.table req words)) cell b := by
  refine ⟨rfl, ⟨.new http wrap connection proxy.table req words, none, ?_, rfl⟩, found⟩
  simp [Proxy.run, Proxy.step]

theorem Shows.answered {clock index : Nat} {sent : Request} {next : Ending → Program Effect Response}
    {cell : BreakerId} {b : Breaker}
    (shows : Shows proxy clock index (.ready (perform (.select sent) next)) cell b) (http : Http)
    (ending : Ending) :
    Shows (proxy.step http (.answer index ending)) clock index (.ready (next ending)) cell b := by
  obtain ⟨request, counted, isTask, isProgress⟩ := shows.task
  refine ⟨shows.now, ⟨{ request with
    events := request.events ++ [.select sent ending]
    progress := .ready (next ending) }, counted, ?_, rfl⟩, shows.breaker⟩
  simp [Proxy.step, updateTask, isTask, answerTask, isProgress]

theorem Shows.others {clock index : Nat} {progress : RequestProgress} {cell : BreakerId}
    {b : Breaker} (shows : Shows proxy clock index progress cell b)
    (stamped : Stamped (cell + 1) proxy) {moves : List Move}
    (apart : ∀ move ∈ moves, move.task ≠ some index) :
    ∃ later changed, Shows (proxy.run http moves) later index progress cell changed := by
  obtain ⟨request, counted, isTask, isProgress⟩ := shows.task
  have bound : cell < (proxy.run http moves).heap.breakers.length := (stamped.run moves).least
  exact ⟨_, _, rfl, ⟨request, counted, run_others isTask apart, isProgress⟩,
    List.getElem?_eq_getElem bound⟩

/-- The moves of one request, with a pause before it and others while it waits. -/
def visit (index millis : Nat) (arrival : Move) (front : Nat) (meanwhile : List Move)
    (ending : Ending) (back : Nat) : List Move :=
  [.tick millis, arrival] ++ (alone index front ++ (meanwhile ++
    ([.answer index ending] ++ alone index back)))

/-- The visit of a request that is routed to a breaker with no stamp in its cooldown. -/
theorem visit_shows {cell : BreakerId} {b : Breaker} {meanwhile : List Move}
    {millis status : Nat} {headers : HeaderMap} (stamped : Stamped (cell + 1) proxy)
    (found : proxy.heap.breakers[cell]? = some b) (quiet : b.cooldownMillis ≤ millis)
    (selects : selectRoute http proxy.table (identify proxy.table req words).2 = .ok selected)
    (isCell : selected.route.upstream.breaker = cell)
    (rebuilds : rebuildUri http (identify proxy.table req words).2 selected = .ok uri)
    (apart : ∀ move ∈ meanwhile, move.task ≠ some proxy.tasks.length)
    (fine : ¬(502 ≤ status ∧ status ≤ 504)) :
    ∃ front back clock admission waiting, (b.state ≠ .closed → admission = .probe) ∧
      Shows (proxy.run http (visit proxy.tasks.length millis (.arrive wrap connection req words)
          front meanwhile (.responded status headers) back)) clock proxy.tasks.length
        (.ready (done (echo (identify proxy.table req words).1
          ⟨status, stripHopByHop headers, .boxed⟩))) cell
        ((Breaker.recordSuccess waiting.published admission).run (Atomic.exec clock) waiting).2 := by
  subst isCell
  -- the request asks the breaker
  have arrived := Shows.arrived proxy found http millis wrap connection req words
  rw [handleInner_routed selects] at arrived
  obtain ⟨front, asked⟩ := @Shows.operate http _ _ _ _ _ _ _ _ _ arrived rfl
  have rested : b.openedAtMillis + b.cooldownMillis ≤ proxy.clock + millis :=
    Nat.add_le_add (stamped.heap _ b found) quiet
  obtain ⟨admission, admitted, isProbe⟩ := tryAcquire_rested rested
  rw [admitted] at asked
  simp only [forward_sends rebuilds] at asked
  -- it waits, and is answered
  obtain ⟨clock, waiting, waited⟩ := @Shows.others http _ _ _ _ _ _ asked
    ((stamped.run _).run _) meanwhile apart
  have answered := waited.answered http (.responded status headers)
  rw [conclude_passed fine] at answered
  obtain ⟨back, ended⟩ := @Shows.operate http _ _ _ _ _ _ _ _ _ answered rfl
  refine ⟨front, back, clock, admission, waiting, isProbe, ?_⟩
  rw [visit, run_append, run_append, run_append, run_append]
  exact ended

/-- Whatever has happened before, a request that comes when an upstream's cooldown has
passed without a move is let through. Whatever happens while it waits, the client gets
the upstream's answer, and an answer that is no gateway error closes the circuit. Its
own operations on the breaker run without a move of another task in between. -/
theorem outage_ends {cfg : ConfigToml} {before meanwhile : List Move} {reached : Proxy}
    {millis status : Nat} {headers : HeaderMap} (starts : Starts http cfg proxy)
    (isReached : proxy.run http before = reached)
    (selects : selectRoute http reached.table (identify reached.table req words).2 = .ok selected)
    (rebuilds : rebuildUri http (identify reached.table req words).2 selected = .ok uri)
    (quiet : ∀ b, reached.heap.breakers[selected.route.upstream.breaker]? = some b →
      b.cooldownMillis ≤ millis)
    (apart : ∀ move ∈ meanwhile, move.task ≠ some reached.tasks.length)
    (fine : ¬(502 ≤ status ∧ status ≤ 504)) :
    ∃ front back later task,
      later = reached.run http (visit reached.tasks.length millis (.arrive wrap connection req words)
        front meanwhile (.responded status headers) back) ∧
      later.tasks[reached.tasks.length]? = some task ∧
      task.response = some (echo (identify reached.table req words).1
        ⟨status, stripHopByHop headers, .boxed⟩) ∧
      (reached.stateOf selected.route.upstream.breaker ≠ some .closed →
        later.stateOf selected.route.upstream.breaker = some .closed) := by
  subst isReached
  have known := @Stamped.run http _ _ starts.stamped before
  generalize proxy.run http before = reached at *
  have isRoute : selected.route ∈ reached.table.routes :=
    List.mem_of_find?_eq_some (accepted_of_selectRoute selects).found
  have bound := known.coherent.inHeap _ isRoute
  have found := List.getElem?_eq_getElem bound
  have stamped : Stamped (selected.route.upstream.breaker + 1) reached :=
    ⟨bound, known.coherent, known.heap, known.tasks⟩
  obtain ⟨front, back, clock, admission, waiting, isProbe, shows⟩ :=
    @visit_shows http reached wrap connection req words selected uri _ _ meanwhile millis status headers
      stamped found (quiet _ found) selects rfl rebuilds apart fine
  obtain ⟨request, counted, isTask, isDone⟩ := shows.task
  refine ⟨front, back, _, _, rfl, isTask, ?_, fun notClosed => ?_⟩
  · simp only [Task.response, isDone]
  · rw [stateOf, found, Option.map_some, ne_eq, Option.some_inj] at notClosed
    rw [stateOf, shows.breaker, isProbe notClosed, Option.map_some, recordSuccess_probe]

end Recovery

/-! ## After a refusal -/

def refusing : Proxy := sternProxy.run plainHttp refusingMoves

/-- A health check fails while the request waits. -/
def failingCheck : List Move := [.healthTick, .probed 7 none] ++ alone 7 8

theorem stern_outage_ends :
    refusing.stateOf 0 = some .open ∧
    ∃ front back later task,
      later = refusing.run plainHttp (visit 4 30000 (.arrive .streaming localClient upload (0, 0))
        front failingCheck (.responded 200 {}) back) ∧
      later.tasks[4]? = some task ∧ task.response = some ⟨200, stripHopByHop {}, .boxed⟩ ∧
      later.stateOf 0 = some .closed := by
  have isOpen : refusing.stateOf 0 = some .open := by decide +kernel
  have quiet : (refusing.heap.breakers.all fun b => b.cooldownMillis ≤ 30000) = true := by
    decide +kernel
  have unnamed : identify refusing.table upload (0, 0) = (none, upload) := by decide +kernel
  have selects : selectRoute plainHttp refusing.table upload = .ok selectedApi := by decide +kernel
  have size : refusing.tasks.length = 4 := by decide +kernel
  obtain ⟨front, back, later, task, isLater, found, answered, closes⟩ :=
    @outage_ends plainHttp sternProxy .streaming localClient upload (0, 0) selectedApi rebuiltApi
      sternConfig refusingMoves failingCheck refusing 30000 200 {} sternProxy_starts rfl
      (by rw [unnamed]; exact selects) (by rw [unnamed]; exact rebuildUri_upload)
      (fun b isBreaker => by
        simpa using List.all_eq_true.mp quiet b (List.mem_of_getElem? isBreaker))
      (by rw [size]; decide) (by omega)
  rw [size] at isLater found
  rw [unnamed] at answered
  exact ⟨isOpen, front, back, later, task, isLater, found, answered, closes (by
    rw [show selectedApi.route.upstream.breaker = 0 from rfl, isOpen]
    simp)⟩

end Proxy

end Ferryman.Server
