import Ferryman.Server.Handler

/-!
# The upload and its timer

`RequestBody`, which hyper polls on the task of the upstream connection, and the
timer of `handle_core` (`proxy.rs`). The timer sees the upload only through the
flags of `BodyState` and through the end-of-body channel. A poll is one event here,
and is taken apart where its accesses race with the other tasks; the timer reads
one flag at a time. Instants are counted in nanoseconds.
-/

set_option autoImplicit false

namespace Ferryman.Server

open Ferryman.Core

/-! ## The request body -/

structure Flags where
  polled : Bool := false
  waitingOnClient : Bool := false
  stallSince : Nat := 0
  longestStall : Nat := 0
deriving DecidableEq

def Flags.stallEnded (flags : Flags) (nowMs : Nat) : Flags :=
  if flags.stallSince ≠ 0 then
    { flags with
      stallSince := 0
      longestStall := max flags.longestStall (nowMs + 1 - flags.stallSince) }
  else flags

/-- What the client's body answers to a poll. Trailers are skipped and the body is
polled again at once. -/
inductive InnerPoll where
  | pending
  | data (isEndStream : Bool)
  | failed
  | ended
  | trailers (next : InnerPoll)
deriving DecidableEq

/-- The answer after the trailers is that there is none yet. -/
def InnerPoll.isPending : InnerPoll → Bool
  | .pending => true
  | .trailers next => next.isPending
  | .data _ | .failed | .ended => false

inductive PollResult where
  | pending
  | data
  | failed
  | ended
  | bodyIdleTimeout
  | bodyTotalTimeout
deriving DecidableEq

/-- The end-of-body channel; when the message was sent is for the proofs only. -/
inductive EosChannel where
  | unsent
  | sent (time : Nat)
  | closed
deriving DecidableEq

structure RequestBody where
  idle : Duration
  deadline : Nat
  idleSleep : Option Nat := none
  totalSleep : Option Nat := none
  eos : EosChannel := .unsent
deriving DecidableEq

/-! ## The timer -/

/-- Where the timer is: asleep for a window, between its two reads at the end of
one, asleep after the end of the body, or waiting for good. -/
inductive Timer where
  | unstarted
  | window (start : Nat)
  | checking (start : Nat)
  | draining (start : Nat)
  | parked
  | fired
deriving DecidableEq

structure Poll where
  time : Nat
  result : PollResult
deriving DecidableEq

/-- An upload with its timer. The polls, newest first, are a history variable. -/
structure Upload where
  now : Nat
  origin : Nat
  alive : Bool := true
  body : RequestBody
  flags : Flags := {}
  timer : Timer := .unstarted
  polls : List Poll := []
deriving DecidableEq

namespace Upload

def nowMs (upload : Upload) : Nat := (upload.now - upload.origin) / 1000000

def setEos (upload : Upload) (eos : EosChannel) : Upload :=
  { upload with body := { upload.body with eos := eos } }

def sendEos (upload : Upload) : Upload :=
  match upload.body.eos with
  | .unsent => upload.setEos (.sent upload.now)
  | _ => upload

/-- `RequestBody::new`. -/
def new (idle total : Duration) (isEndStream : Bool) (now : Nat) : Upload :=
  let upload : Upload := { now, origin := now, body := { idle, deadline := now + total.nanos } }
  if isEndStream then upload.sendEos else upload

/-- The client has answered, so it is not waited for any more. -/
def clientAnswered (upload : Upload) : Upload :=
  { upload with flags := { upload.flags.stallEnded upload.nowMs with waitingOnClient := false } }

def clientPending (upload : Upload) : Upload :=
  { upload with
    body := { upload.body with
      idleSleep := some (upload.body.idleSleep.getD (upload.now + upload.body.idle.nanos)) }
    flags := { upload.flags with
      waitingOnClient := true
      stallSince := if upload.flags.stallSince = 0 then upload.nowMs + 1
        else upload.flags.stallSince } }

/-- A sleep is ready no earlier than its deadline; when it is polled, the runtime may
not have noticed yet. -/
def pollInner (upload : Upload) (idleReady totalReady : Bool) : InnerPoll → PollResult × Upload
  | .trailers next => upload.pollInner idleReady totalReady next
  | .data isEndStream =>
      let upload := { upload with body := { upload.body with idleSleep := none } }.clientAnswered
      (.data, if isEndStream then upload.sendEos else upload)
  | .failed => (.failed, upload.clientAnswered)
  | .ended => (.ended, upload.clientAnswered.sendEos)
  | .pending =>
      let upload := upload.clientPending
      if idleReady ∧ upload.body.idleSleep.getD 0 ≤ upload.now then (.bodyIdleTimeout, upload)
      else
        let upload := { upload with
          body := { upload.body with totalSleep := some upload.body.deadline } }
        if totalReady ∧ upload.body.deadline ≤ upload.now then (.bodyTotalTimeout, upload)
        else (.pending, upload)

def pollFrame (upload : Upload) (idleReady totalReady : Bool) (inner : InnerPoll) :
    PollResult × Upload :=
  let upload := { upload with flags := { upload.flags with polled := true } }
  if upload.body.deadline ≤ upload.now then (.bodyTotalTimeout, upload)
  else upload.pollInner idleReady totalReady inner

/-! ## Steps -/

/-- Time passes, hyper polls or drops the body, or the timer takes a step. Where the
timer waits for several things, any that is ready may win. -/
inductive Move where
  | tick (nanos : Nat)
  | poll (idleReady totalReady : Bool) (inner : InnerPoll)
  | drop
  | start
  | receive
  | windowEnd
  | readWaiting
  | drained
deriving DecidableEq

def poll (upload : Upload) (idleReady totalReady : Bool) (inner : InnerPoll) : Upload :=
  let (result, after) := upload.pollFrame idleReady totalReady inner
  { after with polls := ⟨upload.now, result⟩ :: after.polls }

def drop (upload : Upload) : Upload :=
  let upload := { upload with alive := false }
  match upload.body.eos with
  | .unsent => upload.setEos .closed
  | _ => upload

/-- The receiver is done: the body was sent to its end, or dropped before. -/
def receive (upload : Upload) : Upload :=
  match upload.body.eos with
  | .unsent => upload
  | .sent _ => { upload with timer := .draining upload.now }
  | .closed => { upload with timer := .parked }

/-- `polled.swap(false)`; a body that was polled gets another window. -/
def windowEnd (upload : Upload) (start : Nat) : Upload :=
  if upload.flags.polled then
    { upload with
      flags := { upload.flags with polled := false }
      timer := .window upload.now }
  else { upload with timer := .checking start }

def readWaiting (upload : Upload) : Upload :=
  { upload with
    timer := if upload.flags.waitingOnClient then .window upload.now else .fired }

def step (upstreamTimeout : Duration) (upload : Upload) : Move → Upload
  | .tick nanos => { upload with now := upload.now + nanos }
  | .poll idleReady totalReady inner =>
      if upload.alive then upload.poll idleReady totalReady inner else upload
  | .drop => upload.drop
  | .start =>
      match upload.timer with
      | .unstarted => { upload with timer := .window upload.now }
      | _ => upload
  | .receive =>
      match upload.timer with
      | .window _ => upload.receive
      | _ => upload
  | .windowEnd =>
      match upload.timer with
      | .window start =>
          if start + upstreamTimeout.nanos ≤ upload.now then upload.windowEnd start else upload
      | _ => upload
  | .readWaiting =>
      match upload.timer with
      | .checking _ => upload.readWaiting
      | _ => upload
  | .drained =>
      match upload.timer with
      | .draining start =>
          if start + upstreamTimeout.nanos ≤ upload.now then { upload with timer := .fired }
          else upload
      | _ => upload

def run (upstreamTimeout : Duration) (upload : Upload) (moves : List Move) : Upload :=
  moves.foldl (step upstreamTimeout) upload

/-! ## The stall check -/

/-- The two loads and the clock of `client_stalled`, each at its own moment. -/
def stallReading (first second third : Upload) : BodyState where
  stallSince := first.flags.stallSince
  longestStall := second.flags.longestStall
  nowMs := third.nowMs

end Upload

end Ferryman.Server
