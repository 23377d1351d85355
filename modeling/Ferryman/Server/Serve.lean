import Ferryman.Lib.Trace
import Ferryman.Server.Handler

/-!
# Serving and shutting down

The accept loop `serve` (`lib.rs`) with the tasks of its connections, the
shutdown future and the second signal of `main.rs`, and the admin endpoints
(`admin.rs`). One move is what one task does between two of its awaits, or
what the clients, the clock and the signals do. Instants are in nanoseconds.
-/

set_option autoImplicit false

namespace Ferryman.Server

open Ferryman.Core Byte Bytes

/-! ## Connections -/

def handshakeTimeout : Duration := .fromSecs 10

/-- What a connection task waits for. The deadline of the first request is gone once
it has passed with a request seen. -/
inductive Stage where
  | handshake (deadline : Nat)
  | serving (deadline : Option Nat) (seenRequest : Bool) (inFlight : Nat)
  | ended
deriving DecidableEq

/-- The time of the accept is for the proofs only. -/
structure ConnectionTask where
  accepted : Nat
  stage : Stage
deriving DecidableEq

namespace ConnectionTask

def serveConnection (task : ConnectionTask) (now : Nat) : ConnectionTask :=
  { task with stage := .serving (some (now + handshakeTimeout.nanos)) false 0 }

def new (tls : Bool) (now : Nat) : ConnectionTask :=
  let task : ConnectionTask := ⟨now, .handshake (now + handshakeTimeout.nanos)⟩
  if tls then task else task.serveConnection now

inductive Move where
  | handshakeDone
  | handshakeFailed
  | handshakeTimeout
  | request
  | response
  | closed
  | firstRequestDeadline
deriving DecidableEq

def setStage (task : ConnectionTask) (stage : Stage) : ConnectionTask :=
  { task with stage := stage }

/-- A move that is not possible changes nothing. -/
def step (task : ConnectionTask) (now : Nat) (move : Move) : ConnectionTask :=
  match task.stage, move with
  | .handshake _, .handshakeDone => task.serveConnection now
  | .handshake _, .handshakeFailed => task.setStage .ended
  | .handshake deadline, .handshakeTimeout =>
      if deadline ≤ now then task.setStage .ended else task
  | .serving deadline _ inFlight, .request => task.setStage (.serving deadline true (inFlight + 1))
  | .serving deadline seen inFlight, .response =>
      task.setStage (.serving deadline seen (inFlight - 1))
  -- the client may hang up on a request in flight
  | .serving _ _ _, .closed => task.setStage .ended
  | .serving (some deadline) seen inFlight, .firstRequestDeadline =>
      if deadline ≤ now then
        task.setStage (if seen then .serving none seen inFlight else .ended)
      else task
  | _, _ => task

end ConnectionTask

/-! ## The process -/

/-- The future that `serve` takes. Signals are seen from its first poll on. -/
inductive ShutdownFuture where
  | unpolled
  | waiting (signalled : Option Nat)
  | delaying (deadline : Nat)
  | resolved
deriving DecidableEq

/-- `second_signal` listens only after it was told of the first. -/
inductive SecondSignal where
  | idle (notified : Bool)
  | listening (signalled : Bool)
deriving DecidableEq

/-- `notify_one`. -/
def SecondSignal.notify : SecondSignal → SecondSignal
  | .idle _ => .idle true
  | .listening signalled => .listening signalled

inductive Exit where
  | killed
  | code (value : Nat)
deriving DecidableEq

/-- Where `main` is. Since when it accepts is for the proofs only. -/
inductive Phase where
  | accepting (since : Nat)
  | backingOff (deadline : Nat)
  | draining (deadline : Nat)
  | exited (exit : Exit)
deriving DecidableEq

def Phase.isOpen : Phase → Bool
  | .accepting _ | .backingOff _ => true
  | .draining _ | .exited _ => false

structure Process where
  now : Nat
  table : RouteTable
  tls : Bool
  phase : Phase
  shutdown : ShutdownFuture := .unpolled
  second : SecondSignal := .idle false
  draining : Bool := false
  /-- In the order of their accepts, with those that have ended. -/
  connections : List ConnectionTask := []
deriving DecidableEq

namespace Process

/-- The ports are bound, and nothing was polled yet. -/
def start (table : RouteTable) (tls : Bool) (now : Nat) : Process where
  now := now
  table := table
  tls := tls
  phase := .accepting now

/-- The listener is dropped, and the drain timeout is read at that moment. -/
def stopAccepting (process : Process) : Process :=
  { process with
    shutdown := .resolved
    phase := .draining (process.now + process.table.drainTimeout.nanos) }

/-- The loop polls the future between two accepts only. -/
def pollShutdown (process : Process) : Process :=
  match process.phase, process.shutdown with
  | .accepting _, .unpolled => { process with shutdown := .waiting none }
  | .accepting _, .waiting (some _) =>
      let process := { process with second := process.second.notify, draining := true }
      let delay := process.table.shutdownDelay.nanos
      if delay = 0 then process.stopAccepting
      else { process with shutdown := .delaying (process.now + delay) }
  | .accepting _, .delaying deadline =>
      if deadline ≤ process.now then process.stopAccepting else process
  | _, _ => process

def pollSecond (process : Process) : Process :=
  match process.second with
  | .idle true => { process with second := .listening false }
  | .listening true => { process with phase := .exited (.code 130) }
  | _ => process

/-- Before a handler is installed, a signal has its default action. Later it is kept for
whoever listens, and lost when nobody does. -/
def signal (process : Process) : Process :=
  match process.shutdown with
  | .unpolled => { process with phase := .exited .killed }
  | .waiting none => { process with shutdown := .waiting (some process.now) }
  | _ =>
      match process.second with
      | .listening _ => { process with second := .listening true }
      | .idle _ => process

def acceptBackoff : Nat := 100 * 10 ^ 6

def accept (process : Process) (succeeds : Bool) : Process :=
  match process.phase with
  | .accepting _ =>
      if succeeds then
        { process with
          connections := process.connections ++ [ConnectionTask.new process.tls process.now] }
      else { process with phase := .backingOff (process.now + acceptBackoff) }
  | _ => process

def backoffOver (process : Process) : Process :=
  match process.phase with
  | .backingOff deadline =>
      if deadline ≤ process.now then { process with phase := .accepting process.now } else process
  | _ => process

/-- No connection has a task any more. -/
def Drained (process : Process) : Prop := ∀ task ∈ process.connections, task.stage = .ended

instance (process : Process) : Decidable process.Drained :=
  inferInstanceAs (Decidable (∀ task ∈ process.connections, _ = _))

/-- `graceful.shutdown()` waits for the watcher of every connection, and each task holds
one from its start to its end. -/
def finishDrain (process : Process) : Process :=
  match process.phase with
  | .draining deadline =>
      if process.Drained ∨ deadline ≤ process.now then
        { process with phase := .exited (.code 0) }
      else process
  | _ => process

def stepConnection (process : Process) (index : Nat) (move : ConnectionTask.Move) : Process :=
  { process with
    connections := process.connections.modify index fun task => task.step process.now move }

/-! ## The admin endpoints -/

def contentType : HeaderName := ⟨ascii "content-type", by decide⟩

def plainText : HeaderValue := ⟨ascii "text/plain; charset=utf-8", by decide⟩

def metricsText : HeaderValue := ⟨ascii "text/plain; version=0.0.4", by decide⟩

def respond (status : Nat) (ctype : HeaderValue) (body : Bytes) : Response :=
  ⟨status, ⟨[(contentType, ctype)]⟩, .full body⟩

def adminRoute (method : Method) (path : Bytes) (metrics : Bytes) (draining : Bool) : Response :=
  if method ≠ .get ∧ method ≠ .head then respond 405 plainText (ascii "method not allowed\n")
  else if path = ascii "/metrics" then respond 200 metricsText metrics
  else if path = ascii "/healthz" ∨ path = ascii "/health" then respond 200 plainText (ascii "ok")
  else if path = ascii "/readyz" then
    if draining then respond 503 plainText (ascii "draining")
    else respond 200 plainText (ascii "ok")
  else respond 404 plainText (ascii "not found\n")

/-! ## Runs -/

inductive Move where
  | tick (nanos : Nat)
  | signal
  | reload (table : RouteTable)
  | pollShutdown
  | pollSecond
  | accept (succeeds : Bool)
  | backoffOver
  | finishDrain
  | connection (index : Nat) (move : ConnectionTask.Move)
  | admin (method : Method) (path : Bytes) (metrics : Bytes)
deriving DecidableEq

def isExited (process : Process) : Bool :=
  match process.phase with
  | .exited _ => true
  | _ => false

/-- What a move does to a process that runs. -/
def moved (process : Process) : Move → Process
  | .tick nanos => { process with now := process.now + nanos }
  | .signal => process.signal
  | .reload table => { process with table := table }
  | .pollShutdown => process.pollShutdown
  | .pollSecond => process.pollSecond
  | .accept succeeds => process.accept succeeds
  | .backoffOver => process.backoffOver
  | .finishDrain => process.finishDrain
  | .connection index move => process.stepConnection index move
  | .admin _ _ _ => process

def answer (process : Process) : Move → Option Response
  | .admin method path metrics => some (adminRoute method path metrics process.draining)
  | _ => none

def step (process : Process) (move : Move) : Option Response × Process :=
  if process.isExited then (none, process) else (process.answer move, process.moved move)

end Process

end Ferryman.Server
