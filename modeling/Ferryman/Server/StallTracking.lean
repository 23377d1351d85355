import Ferryman.Lib.Stretches
import Ferryman.Server.Blame

/-!
# Stall tracking is exact

The two stall registers of an upload track the stretches in which its polls
found nothing from the client. A stretch starts at the first poll that finds the
client's body pending, whether it then returns pending or one of the body's own
timeouts, and lasts to the next data, end or error of the client's body.
-/

set_option autoImplicit false

namespace Ferryman.Server

open Ferryman.Core

/-- What a poll finds: the client's body pending, or an answer of it. -/
def InnerPoll.markKind (inner : InnerPoll) : MarkKind :=
  if inner.isPending then .opens else .closes

namespace Upload

def clientStalled (upload : Upload) (theta : Duration) : Bool :=
  (stallReading upload upload upload).clientStalled theta

def stallTracker (upload : Upload) : Stretch.Tracker :=
  ⟨upload.flags.stallSince, upload.flags.longestStall⟩

/-- The mark of a move. Past its deadline the body does not ask the client's any more. -/
def marks (upload : Upload) : Move → List Mark
  | .poll _ _ inner =>
      if upload.alive ∧ upload.now < upload.body.deadline then
        [⟨upload.nowMs, inner.markKind⟩]
      else []
  | .tick _ | .drop | .start | .receive | .windowEnd | .readWaiting | .drained => []

/-- The marks of a run, the newest first. -/
def stallHistory (upstreamTimeout : Duration) : Upload → List Move → List Mark
  | _, [] => []
  | upload, move :: moves =>
      stallHistory upstreamTimeout (upload.step upstreamTimeout move) moves ++ upload.marks move

/-! ## Each poll marks -/

theorem clientAnswered_tracker (upload : Upload) :
    upload.clientAnswered.stallTracker = upload.stallTracker.mark ⟨upload.nowMs, .closes⟩ := by
  by_cases idle : upload.flags.stallSince = 0
  · simp [clientAnswered, stallTracker, Stretch.Tracker.mark, Flags.stallEnded, idle]
  · simp [clientAnswered, stallTracker, Stretch.Tracker.mark, Flags.stallEnded, idle]

theorem sendEos_tracker (upload : Upload) : upload.sendEos.stallTracker = upload.stallTracker := by
  unfold sendEos
  split <;> rfl

theorem pollInner_tracker (upload : Upload) (idleReady totalReady : Bool) (inner : InnerPoll) :
    (upload.pollInner idleReady totalReady inner).2.stallTracker =
      upload.stallTracker.mark ⟨upload.nowMs, inner.markKind⟩ := by
  induction inner with
  | trailers next ih => exact ih
  | failed => exact clientAnswered_tracker upload
  | ended => exact (sendEos_tracker _).trans (clientAnswered_tracker upload)
  | data isEndStream =>
      cases isEndStream with
      | false => exact clientAnswered_tracker _
      | true => exact (sendEos_tracker _).trans (clientAnswered_tracker _)
  | pending =>
      simp only [pollInner]
      split
      · rfl
      · split <;> rfl

theorem pollFrame_tracker (upload : Upload) (idleReady totalReady : Bool) (inner : InnerPoll) :
    (upload.pollFrame idleReady totalReady inner).2.stallTracker =
      if upload.now < upload.body.deadline then
        upload.stallTracker.mark ⟨upload.nowMs, inner.markKind⟩
      else upload.stallTracker := by
  unfold pollFrame
  dsimp only
  split
  · next past => rw [if_neg (Nat.not_lt.mpr past)]; rfl
  · next asks =>
    rw [if_pos (Nat.not_le.mp asks)]
    exact pollInner_tracker { upload with flags := { upload.flags with polled := true } }
      idleReady totalReady inner

theorem drop_tracker (upload : Upload) : upload.drop.stallTracker = upload.stallTracker := by
  unfold drop
  dsimp only
  split <;> rfl

theorem receive_tracker (upload : Upload) : upload.receive.stallTracker = upload.stallTracker := by
  unfold receive
  split <;> rfl

theorem windowEnd_tracker (upload : Upload) (start : Nat) :
    (upload.windowEnd start).stallTracker = upload.stallTracker := by
  unfold windowEnd
  split <;> rfl

/-- A move that is no poll leaves the registers alone. -/
theorem step_tracker (upstreamTimeout : Duration) (upload : Upload) (move : Move) :
    (upload.step upstreamTimeout move).stallTracker =
      (upload.marks move).foldr (fun mark tracker => tracker.mark mark) upload.stallTracker := by
  cases move with
  | tick nanos => rfl
  | poll idleReady totalReady inner =>
      cases alive : upload.alive with
      | false => simp [step, marks, alive]
      | true =>
          have polled := pollFrame_tracker upload idleReady totalReady inner
          simp only [step, alive, if_true, marks, true_and]
          change (upload.pollFrame idleReady totalReady inner).2.stallTracker = _
          rw [polled]
          split <;> rfl
  | drop => exact drop_tracker upload
  | start =>
      simp only [step]
      split <;> rfl
  | receive =>
      simp only [step]
      split
      · exact receive_tracker upload
      · rfl
  | windowEnd =>
      simp only [step]
      split
      · split
        · exact windowEnd_tracker upload _
        · rfl
      · rfl
  | readWaiting =>
      simp only [step]
      split <;> rfl
  | drained =>
      simp only [step]
      split
      · split <;> rfl
      · rfl

theorem run_tracker (upstreamTimeout : Duration) (upload : Upload) (moves : List Move) :
    (upload.run upstreamTimeout moves).stallTracker =
      (stallHistory upstreamTimeout upload moves).foldr (fun mark tracker => tracker.mark mark)
        upload.stallTracker := by
  induction moves generalizing upload with
  | nil => rfl
  | cons move moves ih =>
      rw [stallHistory, List.foldr_append, ← step_tracker]
      exact ih _

theorem clientStalled_eq (upload : Upload) (theta : Duration) :
    upload.clientStalled theta =
      upload.stallTracker.reached upload.nowMs (theta.asMillis % 2 ^ 64) := rfl

/-! ## The verdict stays -/

theorem marks_now {upload : Upload} {move : Move} :
    ∀ mark ∈ upload.marks move, upload.nowMs ≤ mark.time := by
  cases move with
  | poll idleReady totalReady inner =>
      simp only [marks]
      split
      · simp
      · simp
  | _ => simp [marks]

theorem nowMs_step (upstreamTimeout : Duration) (upload : Upload) (move : Move) :
    upload.nowMs ≤ (upload.step upstreamTimeout move).nowMs := by
  have older := @older_step upstreamTimeout upload move
  rw [nowMs, nowMs, older.origin]
  exact Nat.div_le_div_right (Nat.sub_le_sub_right older.now _)

theorem clientStalled_step {upstreamTimeout theta : Duration} {upload : Upload} (move : Move)
    (stalled : upload.clientStalled theta = true) :
    (upload.step upstreamTimeout move).clientStalled theta = true := by
  rw [clientStalled_eq] at stalled ⊢
  rw [step_tracker]
  exact Stretch.reached_later (Stretch.reached_marks stalled marks_now)
    (nowMs_step upstreamTimeout upload move)

theorem clientStalled_run {upstreamTimeout theta : Duration} {upload : Upload} (moves : List Move)
    (stalled : upload.clientStalled theta = true) :
    (upload.run upstreamTimeout moves).clientStalled theta = true := by
  induction moves generalizing upload with
  | nil => exact stalled
  | cons move moves ih => exact ih (clientStalled_step move stalled)

/-! ## Exactness -/

/-- For every schedule of polls and every threshold from a millisecond up to what
64 bits hold, the verdict is whether a stretch lasted that long on the floored
millisecond clock, and it is never taken back. -/
theorem clientStalled_exact (idle total upstreamTimeout theta : Duration) (isEndStream : Bool)
    (start : Nat) (moves : List Move) (positive : 1 ≤ theta.asMillis)
    (fits : theta.asMillis < 2 ^ 64) :
    (((new idle total isEndStream start).run upstreamTimeout moves).clientStalled theta = true ↔
      Stretch.Lasted (stallHistory upstreamTimeout (new idle total isEndStream start) moves)
        ((new idle total isEndStream start).run upstreamTimeout moves).nowMs theta.asMillis) ∧
    ∀ more, ((new idle total isEndStream start).run upstreamTimeout moves).clientStalled theta = true →
      ((new idle total isEndStream start).run upstreamTimeout (moves ++ more)).clientStalled theta =
        true := by
  have fresh : (new idle total isEndStream start).stallTracker = {} := by
    cases isEndStream <;> rfl
  constructor
  · rw [clientStalled_eq, Nat.mod_eq_of_lt fits, run_tracker, fresh]
    exact Stretch.reached_iff positive
  · intro more stalled
    rw [run_append]
    exact clientStalled_run more stalled

def pausedMoves : List Move :=
  [.poll false false .pending, .tick 400000000, .poll false false .pending, .tick 700000000,
    .poll false false (.trailers (.data false))]

/-- A pause from millisecond 0 on, polled twice, counts as one stretch of 1.1 s. -/
theorem pausedMoves_lasted :
    Stretch.Lasted (stallHistory (.fromSecs 30) (new (.fromSecs 2) (.fromSecs 60) false 0) pausedMoves)
      1100 1000 := by
  have exactly := (clientStalled_exact (.fromSecs 2) (.fromSecs 60) (.fromSecs 30) (.fromSecs 1)
    false 0 pausedMoves (by decide +kernel) (by decide +kernel)).1
  exact exactly.mp (by decide +kernel)

/-! ## By results alone -/

/-- The marks that the results of the polls suggest: pending opens a stretch, data,
end and errors of the client's body close it, and the body's own timeouts do neither. -/
def resultMarks (upload : Upload) : List Mark :=
  upload.polls.filterMap fun poll =>
    let time := (poll.time - upload.origin) / 1000000
    match poll.result with
    | .pending => some ⟨time, .opens⟩
    | .data | .failed | .ended => some ⟨time, .closes⟩
    | .bodyIdleTimeout | .bodyTotalTimeout => none

def ExactByResults (upload : Upload) (theta : Duration) : Prop :=
  upload.clientStalled theta = true ↔
    Stretch.Lasted upload.resultMarks upload.nowMs theta.asMillis

def freshUpload : Upload := new (.fromSecs 2) (.fromSecs 60) false 0

/-- As many milliseconds as 125 times what 64 bits hold. -/
def endlessTheta : Duration := .fromSecs 2305843009213693952

def erredUpload : Upload :=
  freshUpload.run (.fromSecs 30)
    [.poll false false .pending, .tick 500000000, .poll false false .failed, .tick 2500000000,
      .poll true false .pending, .tick 1000000000]

/-- A threshold that 64 bits do not hold is truncated to 0 and met at once. A poll
that reports the idle timeout, with no stretch open, opens one. -/
theorem not_exact_by_results :
    ¬ExactByResults freshUpload endlessTheta ∧ ¬ExactByResults erredUpload (.fromSecs 1) := by
  constructor
  · intro exactly
    have lasted := exactly.mp (by decide +kernel)
    rw [← Stretch.reached_iff (by decide +kernel)] at lasted
    revert lasted
    decide +kernel
  · intro exactly
    have lasted := exactly.mp (by decide +kernel)
    rw [← Stretch.reached_iff (by decide +kernel)] at lasted
    revert lasted
    decide +kernel

end Upload

end Ferryman.Server
