import Ferryman.Lib.Walks
import Ferryman.Server.UploadRace

/-!
# One move of an upload and its tasks

A call of `poll_frame` passes through a few phases. What holds of the upload in
every phase, and between two calls, is proved from single accesses.
-/

set_option autoImplicit false

namespace Ferryman.Server

open Ferryman.Core Program

/-! ## Where a poll stands -/

inductive PollPhase where
  | asking
  | answered
  | swapped (since : Nat)
  | measured (millis : Nat)
  | settled
  | cleared
  | waiting
  | noted (millis : Nat)
  | marked
deriving DecidableEq

inductive PollMove : {γ : Type} → PollPhase → BodyEffect γ → γ → PollPhase → Prop
  | late (past : Bool) : PollMove .asking .pastDeadline past .asking
  | answers : PollMove .asking .clientAnswers () .answered
  | disarms : PollMove .answered .clearIdleSleep () .answered
  | noStall : PollMove .answered .swapStallSince 0 .settled
  | takes {since : Nat} (stalled : since ≠ 0) :
      PollMove .answered .swapStallSince since (.swapped since)
  | measures (since millis : Nat) :
      PollMove (.swapped since) .nowMs millis (.measured (millis + 1 - since))
  | records (millis : Nat) :
      PollMove (.measured millis) (.fetchMaxLongestStall millis) () .settled
  | clears : PollMove .settled (.storeWaiting false) () .cleared
  | signals : PollMove .cleared .sendEos () .cleared
  | waits : PollMove .asking (.storeWaiting true) () .waiting
  | notes (millis : Nat) : PollMove .waiting .nowMs millis (.noted millis)
  | marks (millis : Nat) : PollMove (.noted millis) (.casStallSince (millis + 1)) () .marked
  | idle (ready expired : Bool) : PollMove .marked (.pollIdleSleep ready) expired .marked
  | total (ready expired : Bool) : PollMove .marked (.pollTotalSleep ready) expired .marked

def pollAutomaton : Automaton BodyEffect PollPhase where
  possible := fun _ _ => True
  moves := PollMove

/-- Only a poll that marked a stall returns pending. -/
inductive PollEnds : PollPhase → PollResult → Prop
  | late : PollEnds .asking .bodyTotalTimeout
  | answered {result : PollResult} (ready : result ≠ .pending) : PollEnds .cleared result
  | unanswered (result : PollResult) : PollEnds .marked result

section Walks

variable (idleReady totalReady : Bool)

theorem stallEnded_walks :
    BodyState.stallEnded.Walks pollAutomaton (fun phase _ => phase = .settled) .answered := by
  simp only [BodyState.stallEnded, lift_bind]
  intro since _
  by_cases stalled : since = 0
  · subst stalled
    exact ⟨_, .noStall, rfl⟩
  · refine ⟨_, .takes stalled, ?_⟩
    dsimp only
    rw [if_pos stalled]
    exact fun millis _ => ⟨_, .measures since millis, fun _ _ => ⟨_, .records _, rfl⟩⟩

theorem pollInner_walks (inner : InnerPoll) :
    (RequestBody.pollInner idleReady totalReady inner).Walks pollAutomaton PollEnds .asking := by
  induction inner with
  | trailers next ih => exact ih
  | data isEndStream =>
      refine fun _ _ => ⟨_, .answers, fun _ _ => ⟨_, .disarms, ?_⟩⟩
      refine stallEnded_walks.bind fun phase _ settled => ?_
      subst settled
      refine fun _ _ => ⟨_, .clears, ?_⟩
      cases isEndStream with
      | false => exact .answered (by simp)
      | true => exact fun _ _ => ⟨_, .signals, .answered (by simp)⟩
  | failed =>
      refine fun _ _ => ⟨_, .answers, stallEnded_walks.bind fun phase _ settled => ?_⟩
      subst settled
      exact fun _ _ => ⟨_, .clears, .answered (by simp)⟩
  | ended =>
      refine fun _ _ => ⟨_, .answers, stallEnded_walks.bind fun phase _ settled => ?_⟩
      subst settled
      exact fun _ _ => ⟨_, .clears, fun _ _ => ⟨_, .signals, .answered (by simp)⟩⟩
  | pending =>
      refine fun _ _ => ⟨_, .waits, fun millis _ => ⟨_, .notes millis, fun _ _ => ?_⟩⟩
      refine ⟨_, .marks millis, fun idleExpired _ => ⟨_, .idle idleReady idleExpired, ?_⟩⟩
      cases idleExpired with
      | true => exact .unanswered _
      | false =>
          refine fun totalExpired _ => ⟨_, .total totalReady totalExpired, ?_⟩
          cases totalExpired <;> exact .unanswered _

theorem pollAsked_walks (inner : InnerPoll) :
    (RequestBody.pollAsked idleReady totalReady inner).Walks pollAutomaton PollEnds .asking := by
  intro past _
  refine ⟨_, .late past, ?_⟩
  cases past with
  | true => exact .late
  | false => exact pollInner_walks idleReady totalReady inner

end Walks

namespace UploadRace

/-- The state after an access, before the call goes on. -/
def accessed (race : UploadRace) {β : Type} (effect : BodyEffect β) : UploadRace :=
  { race with
    upload := (effect.exec race.upload).2
    spans := race.spans.modifyHead (effect.observe race.upload.now)
    taken := effect.takes (effect.exec race.upload).1 race.taken }

/-- The state at the start of a poll. -/
def entered (race : UploadRace) : UploadRace :=
  { race with
    upload := { race.upload with flags := { race.upload.flags with polled := true } }
    spans := { began := race.upload.now } :: race.spans }

/-- The moves of the other tasks. -/
def Move.outer : Move → Option Upload.Move
  | .tick nanos => some (.tick nanos)
  | .begin _ _ _ => none
  | .advance => none
  | .drop => some .drop
  | .start => some .start
  | .receive => some .receive
  | .windowEnd => some .windowEnd
  | .readWaiting => some .readWaiting
  | .drained => some .drained

variable (upstreamTimeout : Duration)

inductive Stepped (race : UploadRace) : Move → UploadRace → Prop
  | idle (move : Move) : Stepped race move race
  | outer {move : Move} {outer : Upload.Move} (isOuter : move.outer = some outer)
      (free : outer = .drop → race.call = none) :
      Stepped race move (race.outside upstreamTimeout outer)
  | begun (idleReady totalReady : Bool) (inner : InnerPoll) (free : race.call = none) :
      Stepped race (.begin idleReady totalReady inner)
        (race.entered.resume (RequestBody.pollAsked idleReady totalReady inner))
  | performed {β : Type} {effect : BodyEffect β} {next : β → Program BodyEffect PollResult}
      (call : race.call = some (.perform effect next)) :
      Stepped race .advance ((race.accessed effect).resume (next (effect.exec race.upload).1))

theorem step_stepped (race : UploadRace) (move : Move) :
    Stepped upstreamTimeout race move (race.step upstreamTimeout move) := by
  cases move with
  | tick nanos => exact .outer rfl (by simp)
  | start => exact .outer rfl (by simp)
  | receive => exact .outer rfl (by simp)
  | windowEnd => exact .outer rfl (by simp)
  | readWaiting => exact .outer rfl (by simp)
  | drained => exact .outer rfl (by simp)
  | drop =>
      simp only [step]
      split
      · next free => exact .outer rfl fun _ => Option.isNone_iff_eq_none.mp free
      · exact .idle _
  | begin idleReady totalReady inner =>
      simp only [step]
      split
      · next ready => exact .begun idleReady totalReady inner (Option.isNone_iff_eq_none.mp ready.2)
      · exact .idle _
  | advance =>
      simp only [step, advance]
      split
      · next call => exact .performed call
      · exact .idle _

/-! ## Invariants of calls -/

/-- Between two calls the one invariant holds, and in a call the one of its phase. -/
def Follows (busy : UploadRace → PollPhase → Prop) (idle : UploadRace → Prop)
    (race : UploadRace) : Prop :=
  (race.call = none → idle race) ∧
    ∀ program ∈ race.call, ∃ phase, program.Walks pollAutomaton PollEnds phase ∧ busy race phase

/-- What a phase says is kept by every access and by the return. -/
structure Carries (busy : UploadRace → PollPhase → Prop) (idle : UploadRace → Prop) : Prop where
  anyCall : ∀ {race : UploadRace} {phase : PollPhase}
    (call : Option (Program BodyEffect PollResult)),
    busy race phase → busy { race with call := call } phase
  accessed : ∀ {race : UploadRace} {phase later : PollPhase} {β : Type} {effect : BodyEffect β},
    busy race phase → PollMove phase effect (effect.exec race.upload).1 later →
      busy (race.accessed effect) later
  returned : ∀ {race : UploadRace} {phase : PollPhase} {result : PollResult},
    busy race phase → PollEnds phase result → idle (race.resume (.done result))

variable {upstreamTimeout : Duration} {busy : UploadRace → PollPhase → Prop}
  {idle : UploadRace → Prop} (carries : Carries busy idle) {race : UploadRace}

include carries

theorem Carries.resume {phase : PollPhase} {program : Program BodyEffect PollResult}
    (walks : program.Walks pollAutomaton PollEnds phase) (isBusy : busy race phase) :
    Follows busy idle (race.resume program) := by
  cases program with
  | done result => exact ⟨fun _ => carries.returned isBusy walks, by simp [UploadRace.resume]⟩
  | perform effect next =>
      refine ⟨by simp [UploadRace.resume], fun program isCall => ?_⟩
      obtain rfl := Option.some.inj isCall
      exact ⟨phase, walks, carries.anyCall _ isBusy⟩

theorem Carries.step (follows : Follows busy idle race) (move : Move)
    (outer : ∀ other, move.outer = some other → (other = .drop → race.call = none) →
      Follows busy idle (race.outside upstreamTimeout other))
    (enters : idle race → busy race.entered .asking) :
    Follows busy idle (race.step upstreamTimeout move) := by
  have stepped := step_stepped upstreamTimeout race move
  generalize race.step upstreamTimeout move = next at stepped
  cases stepped with
  | idle => exact follows
  | outer isOuter free => exact outer _ isOuter free
  | begun idleReady totalReady inner free =>
      exact carries.resume (pollAsked_walks idleReady totalReady inner) (enters (follows.1 free))
  | performed call =>
      obtain ⟨phase, walks, isBusy⟩ := follows.2 _ call
      obtain ⟨later, moved, continues⟩ := walks _ trivial
      exact carries.resume continues (carries.accessed isBusy moved)

end UploadRace

end Ferryman.Server
