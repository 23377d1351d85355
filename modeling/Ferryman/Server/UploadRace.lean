import Ferryman.Lib.Program
import Ferryman.Server.Upload

/-!
# A poll of the upload, write by write

`RequestBody::poll_frame` (`proxy.rs`) runs on the task of the upstream
connection, the timer and the stall check on the handler's. Here every access to
a shared flag is a move of its own, and time passes between any two of them.
-/

set_option autoImplicit false

namespace Ferryman.Server

open Ferryman.Core Program

/-! ## Accesses of a poll -/

/-- `clientAnswers` marks the moment at which the client's body is found ready with
data, an error or its end, and changes nothing. -/
inductive BodyEffect : Type → Type where
  | storePolled : BodyEffect Unit
  | pastDeadline : BodyEffect Bool
  | clientAnswers : BodyEffect Unit
  | clearIdleSleep : BodyEffect Unit
  | swapStallSince : BodyEffect Nat
  | nowMs : BodyEffect Nat
  | fetchMaxLongestStall (millis : Nat) : BodyEffect Unit
  | storeWaiting (waiting : Bool) : BodyEffect Unit
  | casStallSince (millis : Nat) : BodyEffect Unit
  | pollIdleSleep (ready : Bool) : BodyEffect Bool
  | pollTotalSleep (ready : Bool) : BodyEffect Bool
  | sendEos : BodyEffect Unit

def BodyEffect.exec : Handler BodyEffect Upload
  | _, .storePolled, upload => ((), { upload with flags := { upload.flags with polled := true } })
  | _, .pastDeadline, upload => (decide (upload.body.deadline ≤ upload.now), upload)
  | _, .clientAnswers, upload => ((), upload)
  | _, .clearIdleSleep, upload => ((), { upload with body := { upload.body with idleSleep := none } })
  | _, .swapStallSince, upload =>
      (upload.flags.stallSince, { upload with flags := { upload.flags with stallSince := 0 } })
  | _, .nowMs, upload => (upload.nowMs, upload)
  | _, .fetchMaxLongestStall millis, upload =>
      ((), { upload with
        flags := { upload.flags with longestStall := max upload.flags.longestStall millis } })
  | _, .storeWaiting waiting, upload =>
      ((), { upload with flags := { upload.flags with waitingOnClient := waiting } })
  | _, .casStallSince millis, upload =>
      ((), { upload with
        flags := { upload.flags with
          stallSince := if upload.flags.stallSince = 0 then millis else upload.flags.stallSince } })
  | _, .pollIdleSleep ready, upload =>
      let sleep := upload.body.idleSleep.getD (upload.now + upload.body.idle.nanos)
      (decide (ready ∧ sleep ≤ upload.now),
        { upload with body := { upload.body with idleSleep := some sleep } })
  | _, .pollTotalSleep ready, upload =>
      (decide (ready ∧ upload.body.deadline ≤ upload.now),
        { upload with body := { upload.body with totalSleep := some upload.body.deadline } })
  | _, .sendEos, upload => ((), upload.sendEos)

def BodyState.stallEnded : Program BodyEffect Unit := do
  let since ← lift .swapStallSince
  if since ≠ 0 then
    let nowMs ← lift .nowMs
    lift (.fetchMaxLongestStall (nowMs + 1 - since))
  else pure ()

namespace RequestBody

/-- The loop of `poll_frame`, where the client's body answers as told. -/
def pollInner (idleReady totalReady : Bool) : InnerPoll → Program BodyEffect PollResult
  | .trailers next => pollInner idleReady totalReady next
  | .data isEndStream => do
      lift .clientAnswers
      lift .clearIdleSleep
      BodyState.stallEnded
      lift (.storeWaiting false)
      if isEndStream then lift .sendEos else pure ()
      pure .data
  | .failed => do
      lift .clientAnswers
      BodyState.stallEnded
      lift (.storeWaiting false)
      pure .failed
  | .ended => do
      lift .clientAnswers
      BodyState.stallEnded
      lift (.storeWaiting false)
      lift .sendEos
      pure .ended
  | .pending => do
      lift (.storeWaiting true)
      let nowMs ← lift .nowMs
      lift (.casStallSince (nowMs + 1))
      if ← lift (.pollIdleSleep idleReady) then pure .bodyIdleTimeout
      else if ← lift (.pollTotalSleep totalReady) then pure .bodyTotalTimeout
      else pure .pending

def pollAsked (idleReady totalReady : Bool) (inner : InnerPoll) : Program BodyEffect PollResult := do
  if ← lift .pastDeadline then pure .bodyTotalTimeout
  else pollInner idleReady totalReady inner

def pollFrame (idleReady totalReady : Bool) (inner : InnerPoll) : Program BodyEffect PollResult := do
  lift .storePolled
  pollAsked idleReady totalReady inner

end RequestBody

/-! ## Polls that nothing interrupts -/

theorem stallEnded_run (upload : Upload) :
    BodyState.stallEnded.run BodyEffect.exec upload =
      ((), { upload with flags := upload.flags.stallEnded upload.nowMs }) := by
  by_cases idle : upload.flags.stallSince = 0
  · obtain ⟨now, origin, alive, body, ⟨polled, waiting, since, longest⟩, timer, polls⟩ := upload
    obtain rfl : since = 0 := idle
    rfl
  · simp [BodyState.stallEnded, BodyEffect.exec, Flags.stallEnded, idle, Upload.nowMs]

theorem pollInner_run (upload : Upload) (idleReady totalReady : Bool) (inner : InnerPoll) :
    (RequestBody.pollInner idleReady totalReady inner).run BodyEffect.exec upload =
      upload.pollInner idleReady totalReady inner := by
  induction inner with
  | trailers next ih => exact ih
  | failed =>
      simp only [RequestBody.pollInner, lift_bind, run_perform, run_bind, stallEnded_run]
      rfl
  | ended =>
      simp only [RequestBody.pollInner, lift_bind, run_perform, run_bind, stallEnded_run]
      rfl
  | data isEndStream =>
      simp only [RequestBody.pollInner, lift_bind, run_perform, run_bind, stallEnded_run]
      cases isEndStream <;> rfl
  | pending =>
      simp only [RequestBody.pollInner, lift_bind, run_perform, run_ite, BodyEffect.exec,
        decide_eq_true_eq]
      rfl

/-- A poll that runs from its first access to its last is the poll of `Upload`. -/
theorem pollFrame_run (upload : Upload) (idleReady totalReady : Bool) (inner : InnerPoll) :
    (RequestBody.pollFrame idleReady totalReady inner).run BodyEffect.exec upload =
      upload.pollFrame idleReady totalReady inner := by
  simp only [RequestBody.pollFrame, RequestBody.pollAsked, lift_bind, run_perform, run_ite,
    pollInner_run, BodyEffect.exec, decide_eq_true_eq]
  rfl

/-! ## The upload beside its other tasks -/

/-- A call of `poll_frame`: when it began with `polled`, when the client's body
answered it, and when and how it returned. -/
structure Span where
  began : Nat
  answered : Option Nat := none
  returned : Option Poll := none
deriving DecidableEq

/-- An upload with the call of `poll_frame` under way, if there is one. For the proofs
only: all calls, newest first, and the start of a stall which that call has taken out
of `stall_since` and whose length is not in `longest_stall` yet (0 for none). -/
structure UploadRace where
  upload : Upload
  call : Option (Program BodyEffect PollResult) := none
  spans : List Span := []
  taken : Nat := 0

def BodyEffect.observe (now : Nat) {β : Type} : BodyEffect β → Span → Span
  | .clientAnswers, span => { span with answered := some now }
  | _, span => span

def BodyEffect.takes {β : Type} : BodyEffect β → β → Nat → Nat
  | .swapStallSince, since, _ => since
  | .fetchMaxLongestStall _, _, _ => 0
  | _, _, taken => taken

namespace UploadRace

def resume (race : UploadRace) : Program BodyEffect PollResult → UploadRace
  | .done result =>
      { race with
        call := none
        spans := race.spans.modifyHead fun span =>
          { span with returned := some ⟨race.upload.now, result⟩ } }
  | .perform effect next => { race with call := some (.perform effect next) }

def perform (race : UploadRace) {β : Type} (effect : BodyEffect β)
    (next : β → Program BodyEffect PollResult) : UploadRace :=
  let (answer, after) := effect.exec race.upload
  { race with
    upload := after
    spans := race.spans.modifyHead (effect.observe race.upload.now)
    taken := effect.takes answer race.taken }.resume (next answer)

def advance (race : UploadRace) : UploadRace :=
  match race.call with
  | some (.perform effect next) => race.perform effect next
  | _ => race

/-- hyper calls `poll_frame`, which makes its first access at once. -/
def begin (race : UploadRace) (idleReady totalReady : Bool) (inner : InnerPoll) : UploadRace :=
  { race with
    call := some (RequestBody.pollFrame idleReady totalReady inner)
    spans := { began := race.upload.now } :: race.spans }.advance

def outside (upstreamTimeout : Duration) (race : UploadRace) (move : Upload.Move) : UploadRace :=
  { race with upload := race.upload.step upstreamTimeout move }

/-- As in `Upload.Move`, with a poll in several moves. -/
inductive Move where
  | tick (nanos : Nat)
  | begin (idleReady totalReady : Bool) (inner : InnerPoll)
  | advance
  | drop
  | start
  | receive
  | windowEnd
  | readWaiting
  | drained
deriving DecidableEq

/-- There is one call at a time, and the body is not dropped under it. -/
def step (upstreamTimeout : Duration) (race : UploadRace) : Move → UploadRace
  | .tick nanos => race.outside upstreamTimeout (.tick nanos)
  | .begin idleReady totalReady inner =>
      if race.upload.alive ∧ race.call.isNone then race.begin idleReady totalReady inner else race
  | .advance => race.advance
  | .drop => if race.call.isNone then race.outside upstreamTimeout .drop else race
  | .start => race.outside upstreamTimeout .start
  | .receive => race.outside upstreamTimeout .receive
  | .windowEnd => race.outside upstreamTimeout .windowEnd
  | .readWaiting => race.outside upstreamTimeout .readWaiting
  | .drained => race.outside upstreamTimeout .drained

def run (upstreamTimeout : Duration) (race : UploadRace) (moves : List Move) : UploadRace :=
  moves.foldl (step upstreamTimeout) race

theorem run_append (upstreamTimeout : Duration) (race : UploadRace) (moves later : List Move) :
    race.run upstreamTimeout (moves ++ later) =
      (race.run upstreamTimeout moves).run upstreamTimeout later :=
  List.foldl_append

/-! A poll that no other move interrupts is the one of `Upload`. -/

theorem resume_through (upstreamTimeout : Duration) (race : UploadRace)
    (program : Program BodyEffect PollResult) :
    ∃ count,
      ((race.resume program).run upstreamTimeout (List.replicate count .advance)).call = none ∧
      ((race.resume program).run upstreamTimeout (List.replicate count .advance)).upload =
        (program.run BodyEffect.exec race.upload).2 := by
  induction program generalizing race with
  | done result => exact ⟨0, rfl, rfl⟩
  | perform effect next ih =>
      obtain ⟨count, returned, same⟩ := ih (effect.exec race.upload).1
        { race with
          call := some (.perform effect next)
          upload := (effect.exec race.upload).2
          spans := race.spans.modifyHead (effect.observe race.upload.now)
          taken := effect.takes (effect.exec race.upload).1 race.taken }
      exact ⟨count + 1, returned, same⟩

theorem begin_through (upstreamTimeout : Duration) (race : UploadRace)
    (idleReady totalReady : Bool) (inner : InnerPoll) :
    ∃ count, ((race.begin idleReady totalReady inner).run upstreamTimeout
        (List.replicate count .advance)).call = none ∧
      ((race.begin idleReady totalReady inner).run upstreamTimeout
          (List.replicate count .advance)).upload =
        (race.upload.pollFrame idleReady totalReady inner).2 := by
  rw [← pollFrame_run]
  exact resume_through upstreamTimeout _ (RequestBody.pollAsked idleReady totalReady inner)

/-! ## Who is to blame -/

/-- The end of the body was signalled at least a timeout ago. -/
def SentInTime (upstreamTimeout : Duration) (race : UploadRace) : Prop :=
  ∃ time, race.upload.body.eos = .sent time ∧ time + upstreamTimeout.nanos ≤ race.upload.now

/-- Before the end of the body, a whole timeout has passed in which no poll began, and
the last poll before it, if any, had not been left pending when it was over. -/
def QuietWindow (upstreamTimeout : Duration) (race : UploadRace) : Prop :=
  ∃ start later earlier, race.spans = later ++ earlier ∧
    start + upstreamTimeout.nanos ≤ race.upload.now ∧
    (∀ span ∈ earlier, span.began ≤ start) ∧
    (∀ span ∈ later, start + upstreamTimeout.nanos ≤ span.began) ∧
    (∀ span ∈ earlier.head?, ∀ time, span.returned = some ⟨time, .pending⟩ →
      start + upstreamTimeout.nanos ≤ time) ∧
    ∀ time, race.upload.body.eos = .sent time → start + upstreamTimeout.nanos ≤ time

/-- In this history, up to the given instant, a poll was left pending for `theta`: the
client answered that much later, or not at all. -/
def LeftPending (theta : Duration) : Nat → List Span → Prop
  | _, [] => False
  | instant, span :: earlier =>
      match span.answered with
      | some time => LeftPending theta time earlier
      | none =>
          (∃ time, span.returned = some ⟨time, .pending⟩ ∧ time + theta.nanos ≤ instant) ∨
            LeftPending theta instant earlier

/-! ## Reads that go wrong -/

end UploadRace

def Timer.checkingSince : Timer → Option Nat
  | .checking start => some start
  | _ => none

def Timer.windowSince : Timer → Option Nat
  | .window start => some start
  | _ => none

def EosChannel.sentAt : EosChannel → Option Nat
  | .sent time => some time
  | _ => none

namespace UploadRace

/-- The call under way is about to store that the client is not waited for. -/
def clearsWaiting (race : UploadRace) : Bool :=
  match race.call with
  | some (.perform (.storeWaiting false) _) => true
  | _ => false

/-- Between the timer's two reads, no poll that began after the window clears the flag
of a client that was waited for. When the timer ends a window without a poll, the end
of the body was not signalled inside it, as a poll begun before it can do. -/
def Calm (upstreamTimeout : Duration) (race : UploadRace) : Move → Prop
  | .advance =>
      ∀ start ∈ race.upload.timer.checkingSince, race.clearsWaiting = true →
        race.upload.flags.waitingOnClient = true → ∀ span ∈ race.spans.head?,
          span.began < start + upstreamTimeout.nanos
  | .windowEnd =>
      ∀ start ∈ race.upload.timer.windowSince, race.upload.flags.polled = false →
        start + upstreamTimeout.nanos ≤ race.upload.now →
          ∀ time ∈ race.upload.body.eos.sentAt,
            time ≤ start ∨ start + upstreamTimeout.nanos ≤ time
  | _ => True

instance (upstreamTimeout : Duration) (race : UploadRace) :
    (move : Move) → Decidable (race.Calm upstreamTimeout move)
  | .advance => inferInstanceAs (Decidable (∀ start ∈ race.upload.timer.checkingSince, _))
  | .windowEnd => inferInstanceAs (Decidable (∀ start ∈ race.upload.timer.windowSince, _))
  | .tick _ | .begin _ _ _ | .drop | .start | .receive | .readWaiting | .drained => isTrue trivial

def CalmRun (upstreamTimeout : Duration) : UploadRace → List Move → Prop
  | _, [] => True
  | race, move :: moves =>
      race.Calm upstreamTimeout move ∧
        CalmRun upstreamTimeout (race.step upstreamTimeout move) moves

instance decidableCalmRun (upstreamTimeout : Duration) :
    (race : UploadRace) → (moves : List Move) → Decidable (race.CalmRun upstreamTimeout moves)
  | _, [] => isTrue trivial
  | race, move :: moves =>
      have : Decidable ((race.step upstreamTimeout move).CalmRun upstreamTimeout moves) :=
        decidableCalmRun upstreamTimeout _ moves
      inferInstanceAs (Decidable (race.Calm upstreamTimeout move ∧ _))

/-- `client_stalled` loads `stall_since` in the first state and `longest_stall` in the
second, and finds a stall in neither: one call has taken it out of the first and not
put its length into the second. -/
def MissesStall (first second : UploadRace) : Prop :=
  first.taken ≠ 0 ∧ second.taken ≠ 0 ∧ second.spans = first.spans

instance (first second : UploadRace) : Decidable (first.MissesStall second) :=
  inferInstanceAs (Decidable (_ ∧ _))

end UploadRace

end Ferryman.Server
