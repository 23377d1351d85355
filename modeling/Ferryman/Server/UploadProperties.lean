import Ferryman.Server.Upload

/-!
# Steps of an upload

What a whole poll changes, what the other steps leave alone, and what only grows.
-/

set_option autoImplicit false

namespace Ferryman.Server

open Ferryman.Core

namespace Upload

/-! ## What a poll does -/

/-- All that can be noticed of a poll from outside, with the history after it. -/
structure Polled (before after : Upload) (history : List Poll) : Prop where
  now : after.now = before.now
  origin : after.origin = before.origin
  timer : after.timer = before.timer
  polls : after.polls = history
  eos : after.body.eos = before.body.eos ∨
    before.body.eos = .unsent ∧ after.body.eos = .sent before.now
  longestStall : before.flags.longestStall ≤ after.flags.longestStall

theorem sendEos_eq (upload : Upload) :
    upload.sendEos = upload ∨
      upload.body.eos = .unsent ∧ upload.sendEos = upload.setEos (.sent upload.now) := by
  unfold sendEos
  split
  · next unsent => exact .inr ⟨unsent, rfl⟩
  · exact .inl rfl

theorem sendEos_flags (upload : Upload) : upload.sendEos.flags = upload.flags := by
  unfold sendEos
  split <;> rfl

theorem sendEos_now (upload : Upload) : upload.sendEos.now = upload.now := by
  unfold sendEos
  split <;> rfl

theorem sendEos_origin (upload : Upload) : upload.sendEos.origin = upload.origin := by
  unfold sendEos
  split <;> rfl

theorem Polled.sendEos {before after : Upload} {history : List Poll}
    (polled : Polled before after history) : Polled before after.sendEos history := by
  cases after.sendEos_eq with
  | inl same => rwa [same]
  | inr sendsNow =>
      obtain ⟨unsent, sends⟩ := sendsNow
      have wasUnsent : before.body.eos = .unsent := by
        cases polled.eos with
        | inl same => exact same.symm.trans unsent
        | inr sentNow =>
            obtain ⟨wasUnsent, -⟩ := sentNow
            exact wasUnsent
      rw [sends]
      exact { polled with eos := .inr ⟨wasUnsent, congrArg EosChannel.sent polled.now⟩ }

theorem stallEnded_longestStall (flags : Flags) (nowMs : Nat) :
    flags.longestStall ≤ (flags.stallEnded nowMs).longestStall := by
  unfold Flags.stallEnded
  split
  · exact Nat.le_max_left _ _
  · exact Nat.le_refl _

theorem clientAnswered_polled (upload : Upload) :
    Polled upload upload.clientAnswered upload.polls :=
  ⟨rfl, rfl, rfl, rfl, .inl rfl, stallEnded_longestStall _ _⟩

theorem pollInner_polled (upload : Upload) (idleReady totalReady : Bool) (inner : InnerPoll) :
    Polled upload (upload.pollInner idleReady totalReady inner).2 upload.polls := by
  induction inner with
  | trailers next ih => exact ih
  | failed => exact upload.clientAnswered_polled
  | ended => exact upload.clientAnswered_polled.sendEos
  | data isEndStream =>
      have answered : Polled upload
          { upload with body := { upload.body with idleSleep := none } }.clientAnswered
          upload.polls :=
        { clientAnswered_polled _ with }
      cases isEndStream with
      | false => exact answered
      | true => exact answered.sendEos
  | pending =>
      simp only [pollInner]
      split
      · exact ⟨rfl, rfl, rfl, rfl, .inl rfl, Nat.le_refl _⟩
      · split <;> exact ⟨rfl, rfl, rfl, rfl, .inl rfl, Nat.le_refl _⟩

theorem pollFrame_polled (upload : Upload) (idleReady totalReady : Bool) (inner : InnerPoll) :
    Polled upload (upload.pollFrame idleReady totalReady inner).2 upload.polls := by
  unfold pollFrame
  dsimp only
  split
  · exact ⟨rfl, rfl, rfl, rfl, .inl rfl, Nat.le_refl _⟩
  · have inside := pollInner_polled { upload with flags := { upload.flags with polled := true } }
      idleReady totalReady inner
    exact { inside with }

theorem poll_polled (upload : Upload) (idleReady totalReady : Bool) (inner : InnerPoll) :
    ∃ result, Polled upload (upload.poll idleReady totalReady inner)
      (⟨upload.now, result⟩ :: upload.polls) := by
  have polled := pollFrame_polled upload idleReady totalReady inner
  exact ⟨_, { polled with polls := congrArg (List.cons _) polled.polls }⟩

theorem Polled.sent {before after : Upload} {history : List Poll}
    (polled : Polled before after history) {time : Nat} (sent : before.body.eos = .sent time) :
    after.body.eos = .sent time := by
  cases polled.eos with
  | inl same => exact same.trans sent
  | inr sentNow =>
      obtain ⟨unsent, -⟩ := sentNow
      rw [sent] at unsent
      cases unsent

/-! ## What a step does -/

section Steps

variable {upstreamTimeout : Duration}

/-- What the clock, the drop of the body and the timer leave alone. -/
structure Aside (before after : Upload) : Prop where
  now : before.now ≤ after.now
  origin : after.origin = before.origin
  waiting : after.flags.waitingOnClient = before.flags.waitingOnClient
  stallSince : after.flags.stallSince = before.flags.stallSince
  longestStall : after.flags.longestStall = before.flags.longestStall
  sent : ∀ time, after.body.eos = .sent time ↔ before.body.eos = .sent time

theorem Aside.refl (upload : Upload) : Aside upload upload :=
  ⟨Nat.le_refl _, rfl, rfl, rfl, rfl, fun _ => .rfl⟩

theorem step_aside (upload : Upload) {move : Move}
    (notPoll : ∀ idleReady totalReady inner, move ≠ .poll idleReady totalReady inner) :
    Aside upload (upload.step upstreamTimeout move) := by
  cases move with
  | poll idleReady totalReady inner => exact absurd rfl (notPoll idleReady totalReady inner)
  | tick nanos => exact ⟨Nat.le_add_right _ _, rfl, rfl, rfl, rfl, fun _ => .rfl⟩
  | drop =>
      simp only [Upload.step, Upload.drop]
      split
      · next unsent =>
        refine ⟨Nat.le_refl _, rfl, rfl, rfl, rfl, fun time => ?_⟩
        simp only [Upload.setEos, reduceCtorEq, false_iff]
        exact fun sent => nomatch unsent.symm.trans sent
      · exact ⟨Nat.le_refl _, rfl, rfl, rfl, rfl, fun _ => .rfl⟩
  | start =>
      simp only [Upload.step]
      split <;> exact ⟨Nat.le_refl _, rfl, rfl, rfl, rfl, fun _ => .rfl⟩
  | receive =>
      simp only [Upload.step, Upload.receive]
      split
      · split <;> exact ⟨Nat.le_refl _, rfl, rfl, rfl, rfl, fun _ => .rfl⟩
      · exact .refl upload
  | windowEnd =>
      simp only [Upload.step, Upload.windowEnd]
      split
      · split
        · split <;> exact ⟨Nat.le_refl _, rfl, rfl, rfl, rfl, fun _ => .rfl⟩
        · exact .refl upload
      · exact .refl upload
  | readWaiting =>
      simp only [Upload.step, Upload.readWaiting]
      split <;> exact ⟨Nat.le_refl _, rfl, rfl, rfl, rfl, fun _ => .rfl⟩
  | drained =>
      simp only [Upload.step]
      split
      · split <;> exact ⟨Nat.le_refl _, rfl, rfl, rfl, rfl, fun _ => .rfl⟩
      · exact .refl upload

/-- What only grows. -/
structure Older (before after : Upload) : Prop where
  now : before.now ≤ after.now
  origin : after.origin = before.origin
  longestStall : before.flags.longestStall ≤ after.flags.longestStall

theorem Aside.older {before after : Upload} (aside : Aside before after) : Older before after :=
  ⟨aside.now, aside.origin, aside.longestStall.ge⟩

theorem older_step (upload : Upload) (move : Move) :
    Older upload (upload.step upstreamTimeout move) := by
  cases move with
  | poll idleReady totalReady inner =>
      simp only [Upload.step]
      split
      · obtain ⟨result, polled⟩ := upload.poll_polled idleReady totalReady inner
        exact ⟨polled.now.ge, polled.origin, polled.longestStall⟩
      · exact (Aside.refl upload).older
  | tick | drop | start | receive | windowEnd | readWaiting | drained =>
      exact (upload.step_aside (by simp)).older

theorem run_append (upload : Upload) (moves later : List Move) :
    upload.run upstreamTimeout (moves ++ later) =
      (upload.run upstreamTimeout moves).run upstreamTimeout later :=
  List.foldl_append

end Steps

end Upload

end Ferryman.Server
