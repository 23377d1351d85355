import Mathlib.Data.List.Basic
import Mathlib.Order.Basic

/-!
# The watch thread

The debounce loop of `Reloader::watch` (`reload.rs`). Events come over a channel
at any time. The thread takes its steps one at a time, and any time may pass and
any event may come between two of them; a delay between reading the clock and
the receive that follows counts as part of the wait. Times are nanoseconds.
-/

set_option autoImplicit false

namespace Ferryman.Server

namespace Watch

def debounce : Nat := 200 * 1000000

def maxCoalesce : Nat := 2 * 1000000000

def checkedSub (duration elapsed : Nat) : Option Nat :=
  if elapsed ≤ duration then some (duration - elapsed) else none

/-- What the thread is about to do or blocked in. `first` is the time the outer
receive returned, `deadline` the end of the wait of an inner one. -/
inductive Phase where
  | due
  | reloading
  | waiting
  | coalescing (first : Nat)
  | receiving (first deadline : Nat)
  | exited
deriving DecidableEq

inductive Entry where
  | sent
  | reloadStarted
  | woken (time : Nat)
  | receiveStarted (time deadline : Nat)
deriving DecidableEq

end Watch

/-- The channel and the thread. The thread starts with a reload. The log has its
newest entry first. -/
structure Watch where
  now : Nat
  queue : Nat := 0
  alive : Bool := true
  phase : Watch.Phase := .due
  log : List Watch.Entry := []
deriving DecidableEq

namespace Watch

/-- `advance` is the thread's own next step; the other three are the ways a
receive ends. -/
inductive Move where
  | tick (nanos : Nat)
  | event
  | drop
  | advance
  | receive
  | timeOut
  | disconnect
deriving DecidableEq

def record (watch : Watch) (entry : Entry) : Watch :=
  { watch with log := entry :: watch.log }

/-- The watcher's callback. Nothing is queued once the receiver is gone. -/
def send (watch : Watch) : Watch :=
  { watch.record .sent with
    queue := if watch.phase = .exited then watch.queue else watch.queue + 1 }

def advance (watch : Watch) : Watch :=
  match watch.phase with
  | .due => { watch.record .reloadStarted with phase := .reloading }
  | .reloading => { watch with phase := .waiting }
  | .coalescing first =>
      match checkedSub maxCoalesce (watch.now - first) with
      | some left =>
          let deadline := watch.now + min debounce left
          { watch.record (.receiveStarted watch.now deadline) with
            phase := .receiving first deadline }
      | none => { watch with phase := .due }
  | .waiting | .receiving _ _ | .exited => watch

def receive (watch : Watch) : Watch :=
  if watch.queue = 0 then watch
  else
    match watch.phase with
    | .waiting =>
        { watch.record (.woken watch.now) with
          queue := watch.queue - 1, phase := .coalescing watch.now }
    | .receiving first _ => { watch with queue := watch.queue - 1, phase := .coalescing first }
    | _ => watch

/-- A wait may end at its deadline even if an event has just come, which then
stays in the channel. -/
def timeOut (watch : Watch) : Watch :=
  match watch.phase with
  | .receiving _ deadline => if deadline ≤ watch.now then { watch with phase := .due } else watch
  | _ => watch

def disconnect (watch : Watch) : Watch :=
  if watch.alive = false ∧ watch.queue = 0 then
    match watch.phase with
    | .waiting | .receiving _ _ => { watch with phase := .exited }
    | _ => watch
  else watch

def step (watch : Watch) : Move → Watch
  | .tick nanos => { watch with now := watch.now + nanos }
  | .event => if watch.alive then watch.send else watch
  | .drop => { watch with alive := false }
  | .advance => watch.advance
  | .receive => watch.receive
  | .timeOut => watch.timeOut
  | .disconnect => watch.disconnect

def run (watch : Watch) (moves : List Move) : Watch :=
  moves.foldl step watch

end Watch

end Ferryman.Server
