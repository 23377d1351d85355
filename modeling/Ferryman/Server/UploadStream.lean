import Ferryman.Server.UploadProperties

/-!
# The stream of an upload

`RequestBody` (`proxy.rs`) hands the client's frames on. Nothing of the body is
lost, repeated or reordered, trailers are left out, the end is signalled only
when all of it went out, and the two deadlines of the client are kept.
-/

set_option autoImplicit false

namespace Ferryman.Server

open Ferryman.Core Bytes

/-! ## The client's body -/

inductive Frame where
  | data (bytes : Bytes)
  | trailers (fields : HeaderMap)
deriving DecidableEq

/-- What a poll of hyper's `Incoming` finds. -/
inductive Arrival where
  | pending
  | frame (frame : Frame)
  | failed
deriving DecidableEq

def Arrival.dataFrame : Arrival → Option Frame
  | .frame (.data bytes) => some (.data bytes)
  | _ => none

def dataFrames (arrivals : List Arrival) : List Frame := arrivals.filterMap Arrival.dataFrame

/-- An upload with the polls that are left of the client's body, after which there is
nothing more, and the frames that were handed on. -/
structure Relay where
  upload : Upload
  arrivals : List Arrival
  forwarded : List Frame := []
deriving DecidableEq

/-- `Upload.Move`, where the client's body itself tells what a poll finds. -/
inductive RelayMove where
  | tick (nanos : Nat)
  | poll (idleReady totalReady : Bool)
  | drop
  | start
  | receive
  | windowEnd
  | readWaiting
  | drained
deriving DecidableEq

def RelayMove.onUpload (inner : InnerPoll) : RelayMove → Upload.Move
  | .tick nanos => .tick nanos
  | .poll idleReady totalReady => .poll idleReady totalReady inner
  | .drop => .drop
  | .start => .start
  | .receive => .receive
  | .windowEnd => .windowEnd
  | .readWaiting => .readWaiting
  | .drained => .drained

/-- The body has ended, or its last frame tells so. -/
def InnerPoll.ends : InnerPoll → Bool
  | .ended => true
  | .data isEndStream => isEndStream
  | .trailers next => next.ends
  | .pending | .failed => false

def InnerPoll.isData : InnerPoll → Bool
  | .data _ => true
  | .trailers next => next.isData
  | .pending | .failed | .ended => false

namespace Upload

/-- What a move other than a poll leaves alone. -/
structure Unread (before after : Upload) : Prop where
  polls : after.polls = before.polls
  idle : after.body.idle = before.body.idle
  deadline : after.body.deadline = before.body.deadline
  idleSleep : after.body.idleSleep = before.body.idleSleep
  eos : ∀ time, after.body.eos = .sent time ↔ before.body.eos = .sent time
  draining : ∀ start, after.timer = .draining start →
    before.timer = .draining start ∨ ∃ time, before.body.eos = .sent time

theorem Unread.refl (upload : Upload) : Unread upload upload :=
  ⟨rfl, rfl, rfl, rfl, fun _ => .rfl, fun _ => .inl⟩

theorem unread_of_timer (upload : Upload) {timer : Timer} (awake : ∀ start, timer ≠ .draining start) :
    Unread upload { upload with timer := timer } :=
  ⟨rfl, rfl, rfl, rfl, fun _ => .rfl, fun start isDraining => absurd isDraining (awake start)⟩

theorem unread_step (upstreamTimeout : Duration) (upload : Upload) {move : Move}
    (noPoll : ∀ idleReady totalReady inner, move ≠ .poll idleReady totalReady inner) :
    Unread upload (upload.step upstreamTimeout move) := by
  cases move with
  | tick nanos => exact ⟨rfl, rfl, rfl, rfl, fun _ => .rfl, fun _ => .inl⟩
  | poll idleReady totalReady inner => exact absurd rfl (noPoll _ _ _)
  | drop =>
      simp only [step, drop]
      split
      · next unsent => exact ⟨rfl, rfl, rfl, rfl, by simp [setEos, unsent], fun _ => .inl⟩
      · exact ⟨rfl, rfl, rfl, rfl, fun _ => .rfl, fun _ => .inl⟩
  | start =>
      simp only [step]
      split
      · exact unread_of_timer upload (by simp)
      · exact .refl upload
  | receive =>
      simp only [step, receive]
      split
      · split
        · exact .refl upload
        · next time sent => exact ⟨rfl, rfl, rfl, rfl, fun _ => .rfl, fun _ _ => .inr ⟨time, sent⟩⟩
        · exact unread_of_timer upload (by simp)
      · exact .refl upload
  | windowEnd =>
      simp only [step, windowEnd]
      split
      · split
        · split
          · exact ⟨rfl, rfl, rfl, rfl, fun _ => .rfl, by simp⟩
          · exact unread_of_timer upload (by simp)
        · exact .refl upload
      · exact .refl upload
  | readWaiting =>
      simp only [step, readWaiting]
      split
      · exact unread_of_timer upload (by intro start; split <;> simp)
      · exact .refl upload
  | drained =>
      simp only [step]
      split
      · split
        · exact unread_of_timer upload (by simp)
        · exact .refl upload
      · exact .refl upload

end Upload

namespace Relay

section Stream

variable (isEndStream : List Arrival → Bool)

/-- The loop of `poll_frame`: what it found, the frame to hand on and what is left. -/
def pollIncoming : List Arrival → InnerPoll × Option Frame × List Arrival
  | [] => (.ended, none, [])
  | .pending :: rest => (.pending, none, rest)
  | .failed :: rest => (.failed, none, rest)
  | .frame (.data bytes) :: rest => (.data (isEndStream rest), some (.data bytes), rest)
  | .frame (.trailers _) :: rest =>
      let (inner, frame, left) := pollIncoming rest
      (.trailers inner, frame, left)

def new (idle total : Duration) (arrivals : List Arrival) (now : Nat) : Relay where
  upload := Upload.new idle total (isEndStream arrivals) now
  arrivals := arrivals

/-- Past the deadline the client's body is not polled any more. -/
def step (upstreamTimeout : Duration) (relay : Relay) (move : RelayMove) : Relay :=
  let (inner, frame, left) := pollIncoming isEndStream relay.arrivals
  let upload := relay.upload.step upstreamTimeout (move.onUpload inner)
  match move with
  | .poll _ _ =>
      if relay.upload.alive ∧ relay.upload.now < relay.upload.body.deadline then
        ⟨upload, left, relay.forwarded ++ frame.toList⟩
      else { relay with upload := upload }
  | _ => { relay with upload := upload }

def run (upstreamTimeout : Duration) (relay : Relay) (moves : List RelayMove) : Relay :=
  moves.foldl (step isEndStream upstreamTimeout) relay

end Stream

/-! ## One poll -/

theorem pollInner_eos (upload : Upload) (idleReady totalReady : Bool) {inner : InnerPoll}
    (goesOn : inner.ends = false) :
    (upload.pollInner idleReady totalReady inner).2.body.eos = upload.body.eos := by
  induction inner with
  | pending =>
      simp only [Upload.pollInner]
      split
      · rfl
      · split <;> rfl
  | data isEndStream =>
      cases goesOn
      rfl
  | failed => rfl
  | ended => cases goesOn
  | trailers next ih => exact ih goesOn

theorem pollInner_data (upload : Upload) (idleReady totalReady : Bool) (inner : InnerPoll) :
    (upload.pollInner idleReady totalReady inner).1 = .data ↔ inner.isData = true := by
  induction inner with
  | pending =>
      simp only [Upload.pollInner, InnerPoll.isData]
      split
      · simp
      · split <;> simp
  | data isEndStream => simp [Upload.pollInner, InnerPoll.isData]
  | failed => simp [Upload.pollInner, InnerPoll.isData]
  | ended => simp [Upload.pollInner, InnerPoll.isData]
  | trailers next ih => exact ih

section Poll

variable {isEndStream : List Arrival → Bool}

theorem pollIncoming_frames (arrivals : List Arrival) :
    (pollIncoming isEndStream arrivals).2.1.toList ++
        dataFrames (pollIncoming isEndStream arrivals).2.2 = dataFrames arrivals ∧
      (pollIncoming isEndStream arrivals).1.isData =
        (pollIncoming isEndStream arrivals).2.1.isSome := by
  fun_induction pollIncoming isEndStream arrivals with
  | case1 | case2 | case3 | case4 => exact ⟨rfl, rfl⟩
  | case5 fields rest inner frame left polled ih =>
      rw [polled] at ih
      exact ih

theorem pollIncoming_ends
    (truthful : ∀ arrivals, isEndStream arrivals = true → arrivals = []) {arrivals : List Arrival}
    (ends : (pollIncoming isEndStream arrivals).1.ends = true) :
    (pollIncoming isEndStream arrivals).2.2 = [] := by
  fun_induction pollIncoming isEndStream arrivals with
  | case1 => rfl
  | case2 | case3 => cases ends
  | case4 bytes rest => exact truthful rest ends
  | case5 fields rest inner frame left polled ih =>
      rw [polled] at ih
      exact ih ends

end Poll

/-! ## Whole uploads -/

def dataPolls (upload : Upload) : Nat := upload.polls.countP fun poll => poll.result = .data

structure Faithful (body : List Frame) (relay : Relay) : Prop where
  kept : relay.forwarded ++ dataFrames relay.arrivals = body
  counted : relay.forwarded.length = dataPolls relay.upload
  signalled : ∀ time, relay.upload.body.eos = .sent time → dataFrames relay.arrivals = []
  draining : ∀ start, relay.upload.timer = .draining start →
    ∃ time, relay.upload.body.eos = .sent time

section Runs

variable {isEndStream : List Arrival → Bool} {upstreamTimeout : Duration} {body : List Frame}
  {relay : Relay}

theorem Faithful.unread (faithful : Faithful body relay) {upload : Upload}
    (unread : relay.upload.Unread upload) :
    Faithful body { relay with upload := upload } where
  kept := faithful.kept
  counted := by
    rw [dataPolls, unread.polls]
    exact faithful.counted
  signalled := fun time sent => faithful.signalled time ((unread.eos time).mp sent)
  draining := by
    intro start isDraining
    have sent : ∃ time, relay.upload.body.eos = .sent time := by
      cases unread.draining start isDraining with
      | inl already => exact faithful.draining start already
      | inr sent => exact sent
    obtain ⟨time, sent⟩ := sent
    exact ⟨time, (unread.eos time).mpr sent⟩

/-- Past the deadline a poll hands nothing on. -/
theorem Faithful.expired (faithful : Faithful body relay) {idleReady totalReady : Bool}
    {inner : InnerPoll} (late : relay.upload.body.deadline ≤ relay.upload.now) :
    Faithful body { relay with upload := relay.upload.poll idleReady totalReady inner } := by
  have expires : relay.upload.poll idleReady totalReady inner =
      { relay.upload with
        flags := { relay.upload.flags with polled := true }
        polls := ⟨relay.upload.now, .bodyTotalTimeout⟩ :: relay.upload.polls } := by
    simp only [Upload.poll, Upload.pollFrame]
    rw [if_pos late]
  rw [expires]
  exact ⟨faithful.kept, faithful.counted, faithful.signalled, faithful.draining⟩

theorem Faithful.poll (truthful : ∀ arrivals, isEndStream arrivals = true → arrivals = [])
    (faithful : Faithful body relay) {idleReady totalReady : Bool}
    (inTime : relay.upload.now < relay.upload.body.deadline) :
    Faithful body
      ⟨relay.upload.poll idleReady totalReady (pollIncoming isEndStream relay.arrivals).1,
        (pollIncoming isEndStream relay.arrivals).2.2,
        relay.forwarded ++ (pollIncoming isEndStream relay.arrivals).2.1.toList⟩ := by
  obtain ⟨frames, isData⟩ := @pollIncoming_frames isEndStream relay.arrivals
  have ends := @pollIncoming_ends isEndStream truthful relay.arrivals
  generalize pollIncoming isEndStream relay.arrivals = found at frames isData ends ⊢
  obtain ⟨inner, frame, left⟩ := found
  dsimp only at frames isData ends ⊢
  let marked : Upload := { relay.upload with flags := { relay.upload.flags with polled := true } }
  have polled := Upload.pollInner_polled marked idleReady totalReady inner
  have polls : relay.upload.poll idleReady totalReady inner =
      { (marked.pollInner idleReady totalReady inner).2 with
        polls := ⟨relay.upload.now, (marked.pollInner idleReady totalReady inner).1⟩ ::
          (marked.pollInner idleReady totalReady inner).2.polls } := by
    simp only [Upload.poll, Upload.pollFrame]
    rw [if_neg (Nat.not_le_of_lt inTime)]
  obtain ⟨result, seen⟩ := relay.upload.poll_polled idleReady totalReady inner
  rw [polls] at seen ⊢
  constructor
  case kept =>
      rw [List.append_assoc, frames]
      exact faithful.kept
  case counted =>
      have delivered := pollInner_data marked idleReady totalReady inner
      rw [isData] at delivered
      simp only [List.length_append, faithful.counted, dataPolls, polled.polls, List.countP_cons,
        delivered, decide_eq_true_eq, marked]
      cases frame <;> rfl
  case signalled =>
      intro time sent
      cases isLast : inner.ends with
      | true => rw [ends isLast]; rfl
      | false =>
          have before := (pollInner_eos marked idleReady totalReady isLast).symm.trans sent
          have nothing := faithful.signalled time before
          rw [← frames] at nothing
          exact (List.append_eq_nil_iff.mp nothing).2
  case draining =>
      intro start isDraining
      obtain ⟨time, sent⟩ := faithful.draining start (seen.timer.symm.trans isDraining)
      exact ⟨time, seen.sent sent⟩

theorem Faithful.step (truthful : ∀ arrivals, isEndStream arrivals = true → arrivals = [])
    (faithful : Faithful body relay) (move : RelayMove) :
    Faithful body (relay.step isEndStream upstreamTimeout move) := by
  cases move with
  | poll idleReady totalReady =>
      simp only [Relay.step, RelayMove.onUpload, Upload.step]
      cases alive : relay.upload.alive with
      | false => simpa using faithful
      | true =>
          by_cases inTime : relay.upload.now < relay.upload.body.deadline
          · simpa [inTime] using faithful.poll truthful inTime
          · simpa [inTime] using faithful.expired (Nat.le_of_not_lt inTime)
  | tick | drop | start | receive | windowEnd | readWaiting | drained =>
      exact faithful.unread (Upload.unread_step _ _ (by simp [RelayMove.onUpload]))

theorem Faithful.run (truthful : ∀ arrivals, isEndStream arrivals = true → arrivals = [])
    (faithful : Faithful body relay) (moves : List RelayMove) :
    Faithful body (relay.run isEndStream upstreamTimeout moves) := by
  induction moves generalizing relay with
  | nil => exact faithful
  | cons move moves ih => exact ih (faithful.step truthful move)

theorem Faithful.complete (faithful : Faithful body relay) {time : Nat}
    (sent : relay.upload.body.eos = .sent time) : relay.forwarded = body := by
  have kept := faithful.kept
  rwa [faithful.signalled time sent, List.append_nil] at kept

theorem faithful_new (truthful : ∀ arrivals, isEndStream arrivals = true → arrivals = [])
    (idle total : Duration) (arrivals : List Arrival) (now : Nat) :
    Faithful (dataFrames arrivals) (new isEndStream idle total arrivals now) := by
  unfold new Upload.new
  cases ends : isEndStream arrivals with
  | false => exact ⟨rfl, rfl, by simp, by simp⟩
  | true =>
      rw [truthful arrivals ends]
      exact ⟨rfl, rfl, fun _ _ => rfl, by simp [Upload.sendEos, Upload.setEos]⟩

end Runs

/-- Whatever happens to an upload, what was handed on is the data of the client's body so
far, frame by frame and without trailers. The end of the body is signalled, and the
timeout of the upstream runs, only when all of it was handed on. -/
theorem upload_relays_body {isEndStream : List Arrival → Bool}
    (truthful : ∀ arrivals, isEndStream arrivals = true → arrivals = [])
    (idle total upstreamTimeout : Duration) (arrivals : List Arrival) (now : Nat)
    (moves : List RelayMove) :
    let relay := (new isEndStream idle total arrivals now).run isEndStream upstreamTimeout moves
    relay.forwarded ++ dataFrames relay.arrivals = dataFrames arrivals ∧
    relay.forwarded.length = dataPolls relay.upload ∧
    (∀ time, relay.upload.body.eos = .sent time → relay.forwarded = dataFrames arrivals) ∧
    ∀ start, relay.upload.timer = .draining start → relay.forwarded = dataFrames arrivals := by
  have faithful : Faithful (dataFrames arrivals)
      ((new isEndStream idle total arrivals now).run isEndStream upstreamTimeout moves) :=
    (faithful_new truthful idle total arrivals now).run truthful moves
  refine ⟨faithful.kept, faithful.counted, fun _ => faithful.complete, fun start isDraining => ?_⟩
  obtain ⟨time, sent⟩ := faithful.draining start isDraining
  exact faithful.complete sent

/-- Two frames and trailers, with a pause between the frames. -/
def pausedBody : List Arrival :=
  [.frame (.data (ascii "ab")), .pending, .frame (.data (ascii "c")), .frame (.trailers {})]

def pausedRelay : Relay :=
  (new List.isEmpty (.fromSecs 2) (.fromSecs 60) pausedBody 0).run List.isEmpty (.fromSecs 5)
    [.start, .poll true true, .poll true true, .poll true true, .poll true true, .receive]

theorem paused_body_relayed :
    pausedRelay.upload.timer = .draining 0 ∧ pausedRelay.forwarded = dataFrames pausedBody := by
  have draining : pausedRelay.upload.timer = .draining 0 := by decide +kernel
  have relays := upload_relays_body (fun _ => List.isEmpty_iff.mp) (.fromSecs 2) (.fromSecs 60)
    (.fromSecs 5) pausedBody 0
    [.start, .poll true true, .poll true true, .poll true true, .poll true true, .receive]
  exact ⟨draining, relays.2.2.2 0 draining⟩

end Relay

/-! ## The deadlines of the client -/

namespace Upload

/-- Since when a client is waited for without a break. Only data ends the wait. -/
def waitingSince : List Poll → Option Nat
  | [] => none
  | ⟨time, result⟩ :: earlier =>
      match result with
      | .data => none
      | .pending | .bodyIdleTimeout => some ((waitingSince earlier).getD time)
      | .failed | .ended | .bodyTotalTimeout => waitingSince earlier

/-- The runtime notices at once that a sleep is over. -/
def Move.isPrompt : Move → Bool
  | .poll idleReady _ _ => idleReady
  | _ => true

/-- What the result of a poll says about the deadlines. -/
structure OnTime (idle : Duration) (deadline : Nat) (prompt : Prop) (poll : Poll)
    (earlier : List Poll) : Prop where
  totalTimeout : poll.result = .bodyTotalTimeout ↔ deadline ≤ poll.time
  idleTimeout : poll.result = .bodyIdleTimeout →
    ∃ since, waitingSince (poll :: earlier) = some since ∧ since + idle.nanos ≤ poll.time
  pending : prompt → poll.result = .pending →
    ∃ since, waitingSince (poll :: earlier) = some since ∧ poll.time < since + idle.nanos

def Punctual (idle : Duration) (deadline : Nat) (prompt : Prop) : List Poll → Prop
  | [] => True
  | poll :: earlier =>
      OnTime idle deadline prompt poll earlier ∧ Punctual idle deadline prompt earlier

structure Clocked (idle : Duration) (deadline : Nat) (prompt : Prop) (upload : Upload) : Prop where
  sameIdle : upload.body.idle = idle
  sameDeadline : upload.body.deadline = deadline
  sleep : upload.body.idleSleep = (waitingSince upload.polls).map (· + idle.nanos)
  punctual : Punctual idle deadline prompt upload.polls

section Deadlines

variable {idle : Duration} {deadline : Nat} {prompt : Prop} {upload : Upload}
  {upstreamTimeout : Duration}

/-- All that a poll before the deadline does to the sleeps. -/
theorem pollInner_sleep (idleReady totalReady : Bool) (inner : InnerPoll)
    (inTime : upload.now < upload.body.deadline) :
    let (result, after) := upload.pollInner idleReady totalReady inner
    let slept := upload.body.idleSleep.getD (upload.now + upload.body.idle.nanos)
    after.polls = upload.polls ∧ after.body.idle = upload.body.idle ∧
    after.body.deadline = upload.body.deadline ∧
    (result = .data ∧ after.body.idleSleep = none ∨
      (result = .failed ∨ result = .ended) ∧ after.body.idleSleep = upload.body.idleSleep ∨
      result = .bodyIdleTimeout ∧ after.body.idleSleep = some slept ∧ slept ≤ upload.now ∨
      result = .pending ∧ after.body.idleSleep = some slept ∧
        (idleReady = true → upload.now < slept)) := by
  have signalled : ∀ upload : Upload, upload.sendEos.polls = upload.polls ∧
      upload.sendEos.body.idle = upload.body.idle ∧
      upload.sendEos.body.deadline = upload.body.deadline ∧
      upload.sendEos.body.idleSleep = upload.body.idleSleep := by
    intro upload
    unfold sendEos setEos
    split <;> exact ⟨rfl, rfl, rfl, rfl⟩
  induction inner with
  | trailers next ih => exact ih
  | failed => exact ⟨rfl, rfl, rfl, .inr (.inl ⟨.inl rfl, rfl⟩)⟩
  | ended =>
      obtain ⟨polls, sameIdle, sameDeadline, sleep⟩ := signalled upload.clientAnswered
      exact ⟨polls, sameIdle, sameDeadline, .inr (.inl ⟨.inr rfl, sleep⟩)⟩
  | data isEndStream =>
      cases isEndStream with
      | false => exact ⟨rfl, rfl, rfl, .inl ⟨rfl, rfl⟩⟩
      | true =>
          obtain ⟨polls, sameIdle, sameDeadline, sleep⟩ := signalled
            { upload with body := { upload.body with idleSleep := none } }.clientAnswered
          exact ⟨polls, sameIdle, sameDeadline, .inl ⟨rfl, sleep⟩⟩
  | pending =>
      have early : ¬upload.body.deadline ≤ upload.now := Nat.not_le_of_lt inTime
      simp only [Upload.pollInner, clientPending, early, and_false, if_false]
      split
      · next due => exact ⟨rfl, rfl, rfl, .inr (.inr (.inl ⟨rfl, rfl, due.2⟩))⟩
      · next notDue =>
        refine ⟨rfl, rfl, rfl, .inr (.inr (.inr ⟨rfl, rfl, fun isReady => ?_⟩))⟩
        exact Nat.lt_of_not_le fun due => notDue ⟨isReady, due⟩

theorem Clocked.poll (clocked : Clocked idle deadline prompt upload) {idleReady totalReady : Bool}
    (ready : prompt → idleReady = true) (inner : InnerPoll) :
    Clocked idle deadline prompt (upload.poll idleReady totalReady inner) := by
  obtain ⟨rfl, rfl, sleep, punctual⟩ := clocked
  simp only [Upload.poll, pollFrame]
  split
  · next late =>
    exact ⟨rfl, rfl, sleep, ⟨by simpa using late, by simp, by simp⟩, punctual⟩
  · next inTime =>
    have inTime := Nat.lt_of_not_le inTime
    have polled := @pollInner_sleep { upload with flags := { upload.flags with polled := true } }
      idleReady totalReady inner inTime
    generalize Upload.pollInner _ idleReady totalReady inner = found at polled ⊢
    obtain ⟨result, after⟩ := found
    obtain ⟨polls, sameIdle, sameDeadline, outcome⟩ := polled
    let since := (waitingSince upload.polls).getD upload.now
    have slept : upload.body.idleSleep.getD (upload.now + upload.body.idle.nanos) =
        since + upload.body.idle.nanos := by
      simp only [sleep, since]
      cases waitingSince upload.polls <;> rfl
    have notLate : ∀ result : PollResult, result ≠ .bodyTotalTimeout →
        (result = .bodyTotalTimeout ↔ upload.body.deadline ≤ upload.now) := fun _ other =>
      ⟨fun isTotal => absurd isTotal other, fun late => absurd late (Nat.not_le_of_lt inTime)⟩
    dsimp only at polls outcome ⊢
    rw [slept] at outcome
    rcases outcome with ⟨rfl, sleeps⟩ | ⟨isOver, sleeps⟩ | ⟨rfl, sleeps, due⟩ | ⟨rfl, sleeps, early⟩
    · refine ⟨sameIdle, sameDeadline, sleeps, ?_, polls ▸ punctual⟩
      exact ⟨notLate _ (by simp), by simp, by simp⟩
    · rcases isOver with rfl | rfl <;>
        · refine ⟨sameIdle, sameDeadline, ?_, ?_, polls ▸ punctual⟩
          · rw [polls]
            exact sleeps.trans sleep
          · exact ⟨notLate _ (by simp), by simp, by simp⟩
    · refine ⟨sameIdle, sameDeadline, ?_, ?_, polls ▸ punctual⟩
      · rw [polls]
        exact sleeps
      · rw [polls]
        exact ⟨notLate _ (by simp), fun _ => ⟨since, rfl, due⟩, by simp⟩
    · refine ⟨sameIdle, sameDeadline, ?_, ?_, polls ▸ punctual⟩
      · rw [polls]
        exact sleeps
      · rw [polls]
        exact ⟨notLate _ (by simp), by simp, fun isPrompt _ => ⟨since, rfl, early (ready isPrompt)⟩⟩

theorem Clocked.unread (clocked : Clocked idle deadline prompt upload) {after : Upload}
    (unread : Unread upload after) : Clocked idle deadline prompt after where
  sameIdle := unread.idle.trans clocked.sameIdle
  sameDeadline := unread.deadline.trans clocked.sameDeadline
  sleep := by
    rw [unread.idleSleep, unread.polls]
    exact clocked.sleep
  punctual := by
    rw [unread.polls]
    exact clocked.punctual

theorem Clocked.step (clocked : Clocked idle deadline prompt upload) {move : Move}
    (isPrompt : prompt → move.isPrompt = true) :
    Clocked idle deadline prompt (upload.step upstreamTimeout move) := by
  cases move with
  | poll idleReady totalReady inner =>
      simp only [Upload.step]
      split
      · exact clocked.poll isPrompt inner
      · exact clocked
  | tick | drop | start | receive | windowEnd | readWaiting | drained =>
      exact clocked.unread (unread_step _ _ (by simp))

theorem Clocked.run {moves : List Move} (clocked : Clocked idle deadline prompt upload)
    (isPrompt : prompt → ∀ move ∈ moves, move.isPrompt = true) :
    Clocked idle deadline prompt (upload.run upstreamTimeout moves) := by
  induction moves generalizing upload with
  | nil => exact clocked
  | cons move moves ih =>
      refine ih (clocked.step fun holds => isPrompt holds move List.mem_cons_self) fun holds => ?_
      exact fun later member => isPrompt holds later (List.mem_cons_of_mem _ member)

theorem clocked_new (idle total : Duration) (isEndStream : Bool) (now : Nat) :
    Clocked idle (now + total.nanos) prompt (new idle total isEndStream now) := by
  cases isEndStream with
  | false => exact ⟨rfl, rfl, rfl, trivial⟩
  | true => exact ⟨rfl, rfl, rfl, trivial⟩

theorem Punctual.onTime {later earlier : List Poll} {poll : Poll}
    (punctual : Punctual idle deadline prompt (later ++ poll :: earlier)) :
    OnTime idle deadline prompt poll earlier := by
  induction later with
  | nil => exact punctual.1
  | cons _ later ih => exact ih punctual.2

/-- An upload fails with a total timeout exactly at the polls from its deadline on, and
with an idle timeout only where the client was waited for that long without data. When
sleeps are noticed at once, no poll is left pending for longer. -/
theorem upload_deadlines (idle total upstreamTimeout : Duration) (isEndStream : Bool) (now : Nat)
    (moves : List Move) {later earlier : List Poll} {poll : Poll}
    (polls : ((new idle total isEndStream now).run upstreamTimeout moves).polls =
      later ++ poll :: earlier) :
    OnTime idle (now + total.nanos) (∀ move ∈ moves, move.isPrompt = true) poll earlier := by
  have clocked : Clocked idle (now + total.nanos) (∀ move ∈ moves, move.isPrompt = true)
      ((new idle total isEndStream now).run upstreamTimeout moves) :=
    (clocked_new idle total isEndStream now).run fun isPrompt => isPrompt
  have punctual := clocked.punctual
  rw [polls] at punctual
  exact punctual.onTime

end Deadlines

/-- A client that says nothing for two seconds. -/
def silentMoves : List Move :=
  [.poll true true .pending, .tick 2000000000, .poll true true .pending]

theorem silent_upload_on_time :
    OnTime (.fromSecs 2) 60000000000 (∀ move ∈ silentMoves, move.isPrompt = true)
      ⟨2000000000, .bodyIdleTimeout⟩ [⟨0, .pending⟩] :=
  @upload_deadlines (.fromSecs 2) (.fromSecs 60) (.fromSecs 5) false 0 silentMoves [] _ _
    (by decide)

end Upload

end Ferryman.Server
