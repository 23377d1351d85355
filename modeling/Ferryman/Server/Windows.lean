import Ferryman.Server.UploadProperties
import Ferryman.Server.UploadRaceSteps

/-!
# What the timer's flags tell

The timer fires only a timeout after the end of the body, or after a window in
which the upstream did not read. Calls of `poll_frame` may defeat it in two ways:
one that comes between its two reads, and one that was under way when the window
began.
-/

set_option autoImplicit false

namespace Ferryman.Server

open Ferryman.Core Program

/-! ## The flag of a waiting client -/

def PollPhase.awaits : PollPhase → Bool
  | .waiting | .noted _ | .marked => true
  | .asking | .answered | .swapped _ | .measured _ | .settled | .cleared => false

theorem BodyEffect.observe_began {β : Type} (effect : BodyEffect β) (now : Nat) (span : Span) :
    (effect.observe now span).began = span.began := by
  cases effect <;> rfl

theorem BodyEffect.observe_returned {β : Type} (effect : BodyEffect β) (now : Nat) (span : Span) :
    (effect.observe now span).returned = span.returned := by
  cases effect <;> rfl

namespace UploadRace

theorem outer_aside {upstreamTimeout : Duration} (upload : Upload) {move : Move}
    {outer : Upload.Move} (isOuter : move.outer = some outer) :
    Upload.Aside upload (upload.step upstreamTimeout outer) := by
  cases move <;> cases isOuter <;> exact upload.step_aside (by simp)

/-- Once a call has found the client pending, the flag says so until it returns. -/
def Shows (race : UploadRace) (phase : PollPhase) : Prop :=
  (∀ span ∈ race.spans.head?, span.returned = none) ∧
    (phase.awaits = true → race.upload.flags.waitingOnClient = true)

/-- A client that was left waiting is shown. -/
def Shown (race : UploadRace) : Prop :=
  ∀ span ∈ race.spans.head?, ∀ time, span.returned = some ⟨time, .pending⟩ →
    race.upload.flags.waitingOnClient = true

theorem carries_shown : Carries Shows Shown := by
  constructor
  case anyCall => exact fun _ shows => shows
  case accessed =>
      intro race phase later β effect shows moved
      constructor
      · intro span isHead
        rw [accessed, List.head?_modifyHead, Option.mem_map] at isHead
        obtain ⟨old, wasHead, rfl⟩ := isHead
        rw [BodyEffect.observe_returned]
        exact shows.1 old wasHead
      · intro awaits
        generalize (effect.exec race.upload).1 = answer at moved
        cases moved with
        | waits => rfl
        | notes | marks | idle | total => exact shows.2 rfl
        | late | answers | disarms | noStall | takes | measures | records | clears | signals =>
            cases awaits
  case returned =>
      intro race phase result shows ends span isHead time isPending
      rw [resume, List.head?_modifyHead, Option.mem_map] at isHead
      obtain ⟨old, -, rfl⟩ := isHead
      obtain rfl : result = .pending := congrArg Poll.result (Option.some.inj isPending)
      cases ends with
      | answered ready => exact absurd rfl ready
      | unanswered => exact shows.2 rfl

theorem Follows.shown {race : UploadRace} (follows : Follows Shows Shown race) : race.Shown := by
  cases call : race.call with
  | none => exact follows.1 call
  | some program =>
      obtain ⟨phase, -, shows⟩ := follows.2 program call
      intro span isHead time isPending
      rw [shows.1 span isHead] at isPending
      cases isPending

section Timer

variable {upstreamTimeout : Duration} {race : UploadRace}

theorem Follows.shows_step (follows : Follows Shows Shown race) (move : Move) :
    Follows Shows Shown (race.step upstreamTimeout move) := by
  refine carries_shown.step follows move (fun other isOuter _ => ?_) fun _ =>
    ⟨?_, by simp [PollPhase.awaits]⟩
  · have aside := @outer_aside upstreamTimeout race.upload move other isOuter
    simp only [Follows, Shown, Shows, outside, aside.waiting]
    exact follows
  · intro span isHead
    obtain rfl := Option.some.inj isHead
    rfl

/-! ## Windows -/

/-- A window is over and was quiet, but the timer has not looked yet whether the client
was waited for. -/
structure Waited (upstreamTimeout : Duration) (start : Nat) (race : UploadRace) : Prop where
  elapsed : start + upstreamTimeout.nanos ≤ race.upload.now
  quiet : ∃ later earlier, race.spans = later ++ earlier ∧
    (∀ span ∈ earlier, span.began ≤ start) ∧
    (∀ span ∈ later, start + upstreamTimeout.nanos ≤ span.began) ∧
    (race.upload.flags.waitingOnClient = false →
      ∀ span ∈ earlier.head?, ∀ time, span.returned ≠ some ⟨time, .pending⟩)
  signal : ∀ time, race.upload.body.eos = .sent time →
    time ≤ start ∨ start + upstreamTimeout.nanos ≤ time

def TimerSound (upstreamTimeout : Duration) (race : UploadRace) : Timer → Prop
  | .unstarted | .parked => True
  | .window start => race.upload.flags.polled = false → ∀ span ∈ race.spans, span.began ≤ start
  | .checking start => Waited upstreamTimeout start race
  | .draining start => ∃ time, race.upload.body.eos = .sent time ∧ time ≤ start
  | .fired => SentInTime upstreamTimeout race ∨ QuietWindow upstreamTimeout race

structure Sound (upstreamTimeout : Duration) (race : UploadRace) : Prop where
  past : ∀ span ∈ race.spans, span.began ≤ race.upload.now
  signal : ∀ time, race.upload.body.eos = .sent time → time ≤ race.upload.now
  shows : Follows Shows Shown race
  timer : TimerSound upstreamTimeout race race.upload.timer

/-! ### A call begins -/

theorem TimerSound.entered {timer : Timer} (sound : TimerSound upstreamTimeout race timer) :
    TimerSound upstreamTimeout race.entered timer := by
  cases timer with
  | unstarted | parked => trivial
  | window start => exact fun unpolled => nomatch unpolled
  | checking start =>
      obtain ⟨elapsed, ⟨later, earlier, split, before, since, answered⟩, signal⟩ := sound
      refine ⟨elapsed, ⟨_ :: later, earlier, congrArg _ split, before, ?_, answered⟩, signal⟩
      exact List.forall_mem_cons.mpr ⟨elapsed, since⟩
  | draining start => exact sound
  | fired =>
      cases sound with
      | inl inTime => exact .inl inTime
      | inr quiet =>
          obtain ⟨start, later, earlier, split, elapsed, before, since, rest⟩ := quiet
          refine .inr ⟨start, _ :: later, earlier, congrArg _ split, elapsed, before, ?_, rest⟩
          exact List.forall_mem_cons.mpr ⟨elapsed, since⟩

/-! ### A call goes on -/

/-- What the timer can notice of an access. -/
structure Acted (before after : UploadRace) : Prop where
  now : after.upload.now = before.upload.now
  timer : after.upload.timer = before.upload.timer
  polled : after.upload.flags.polled = false → before.upload.flags.polled = false
  waiting : after.upload.flags.waitingOnClient = false →
    before.upload.flags.waitingOnClient = false ∨ before.clearsWaiting = true
  sent : ∀ time, before.upload.body.eos = .sent time → after.upload.body.eos = .sent time
  signal : ∀ time, after.upload.body.eos = .sent time →
    before.upload.body.eos = .sent time ∨ time = before.upload.now
  spans : ∃ record : Span → Span, after.spans = before.spans.modifyHead record ∧
    (∀ span, (record span).began = span.began) ∧
    ∀ span poll, (record span).returned = some poll →
      span.returned = some poll ∨ poll.time = before.upload.now

theorem accessed_acted {β : Type} {effect : BodyEffect β} {next : β → Program BodyEffect PollResult}
    (call : race.call = some (.perform effect next)) : Acted race (race.accessed effect) := by
  have spans : ∃ record : Span → Span,
      (race.accessed effect).spans = race.spans.modifyHead record ∧
      (∀ span, (record span).began = span.began) ∧
      ∀ span poll, (record span).returned = some poll →
        span.returned = some poll ∨ poll.time = race.upload.now := by
    refine ⟨effect.observe race.upload.now, rfl, effect.observe_began _, fun span poll returned => ?_⟩
    rw [BodyEffect.observe_returned] at returned
    exact .inl returned
  cases effect with
  | storePolled =>
      exact ⟨rfl, rfl, fun unpolled => (nomatch unpolled), .inl, fun _ => id, fun _ => .inl, spans⟩
  | storeWaiting waiting =>
      refine ⟨rfl, rfl, id, fun notWaiting => .inr ?_, fun _ => id, fun _ => .inl, spans⟩
      obtain rfl : waiting = false := notWaiting
      rw [clearsWaiting, call]
  | sendEos =>
      simp only [accessed, BodyEffect.exec] at spans ⊢
      cases race.upload.sendEos_eq with
      | inl same =>
          rw [same]
          exact ⟨rfl, rfl, id, .inl, fun _ => id, fun _ => .inl, spans⟩
      | inr sendsNow =>
          obtain ⟨unsent, sends⟩ := sendsNow
          rw [sends]
          refine ⟨rfl, rfl, id, .inl, fun time sent => ?_, fun time sent => ?_, spans⟩
          · rw [unsent] at sent
            cases sent
          · exact .inr (EosChannel.sent.inj sent).symm
  | pastDeadline | clientAnswers | clearIdleSleep | swapStallSince | nowMs | fetchMaxLongestStall
  | casStallSince | pollIdleSleep | pollTotalSleep =>
      exact ⟨rfl, rfl, id, .inl, fun _ => id, fun _ => .inl, spans⟩

theorem Acted.resume {after : UploadRace} (acted : Acted race after)
    (program : Program BodyEffect PollResult) : Acted race (after.resume program) := by
  cases program with
  | perform effect next => exact { acted with }
  | done result =>
      obtain ⟨record, recorded, began, returned⟩ := acted.spans
      refine { acted with spans := ⟨fun span =>
        { record span with returned := some ⟨after.upload.now, result⟩ }, ?_, began, ?_⟩ }
      · rw [UploadRace.resume, recorded]
        exact List.modifyHead_modifyHead
      · intro span poll isNew
        obtain rfl := Option.some.inj isNew
        exact .inr acted.now

theorem performed_acted {β : Type} {effect : BodyEffect β} {next : β → Program BodyEffect PollResult}
    (call : race.call = some (.perform effect next)) :
    Acted race ((race.accessed effect).resume (next (effect.exec race.upload).1)) :=
  (accessed_acted call).resume _

/-- Recording what a call does changes the newest entry alone. -/
theorem modifyHead_split {record : Span → Span} {spans later earlier : List Span}
    (split : spans = later ++ earlier) :
    (later = [] ∧ spans.modifyHead record = earlier.modifyHead record) ∨
      ∃ span rest, later = span :: rest ∧ spans.modifyHead record = (record span :: rest) ++ earlier := by
  subst split
  cases later with
  | nil => exact .inl ⟨rfl, rfl⟩
  | cons span rest => exact .inr ⟨span, rest, rfl, rfl⟩

theorem forall_began (bound : Nat → Prop) {record : Span → Span} {spans : List Span}
    (began : ∀ span, (record span).began = span.began) (all : ∀ span ∈ spans, bound span.began) :
    ∀ span ∈ spans.modifyHead record, bound span.began := by
  cases spans with
  | nil => exact all
  | cons head rest =>
      rw [List.modifyHead_cons, List.forall_mem_cons, began]
      exact List.forall_mem_cons.mp all

section Acted

variable {after : UploadRace} (acts : Acted race after)

include acts

theorem Waited.acted {start : Nat} (waited : Waited upstreamTimeout start race)
    (shown : after.Shown)
    (calm : race.clearsWaiting = true → race.upload.flags.waitingOnClient = true →
      ∀ span ∈ race.spans.head?, span.began < start + upstreamTimeout.nanos) :
    Waited upstreamTimeout start after := by
  obtain ⟨elapsed, ⟨later, earlier, split, before, since, answered⟩, signal⟩ := waited
  obtain ⟨record, recorded, began, -⟩ := acts.spans
  constructor
  case elapsed => rwa [acts.now]
  case signal =>
      intro time sent
      cases acts.signal time sent with
      | inl known => exact signal time known
      | inr isNow =>
          subst isNow
          exact .inr elapsed
  case quiet =>
      rcases modifyHead_split split with ⟨rfl, isEarlier⟩ | ⟨span, rest, rfl, isLater⟩
      · -- the call began before the window
        rw [isEarlier] at recorded
        refine ⟨[], earlier.modifyHead record, recorded, forall_began (· ≤ start) began before, by simp, ?_⟩
        intro notWaiting span isHead time isPending
        rw [shown span (recorded ▸ isHead) time isPending] at notWaiting
        cases notWaiting
      · rw [isLater] at recorded
        refine ⟨_, earlier, recorded, before, ?_, fun notWaiting => answered ?_⟩
        · rw [List.forall_mem_cons, began]
          exact List.forall_mem_cons.mp since
        · cases acts.waiting notWaiting with
          | inl wasNot => exact wasNot
          | inr clears =>
              by_contra waiting
              have early := calm clears (by simpa using waiting) span (by simp [split])
              exact absurd (since span List.mem_cons_self) (Nat.not_le.mpr early)

theorem QuietWindow.acted (quiet : QuietWindow upstreamTimeout race) :
    QuietWindow upstreamTimeout after := by
  obtain ⟨start, later, earlier, split, elapsed, before, since, answered, signal⟩ := quiet
  obtain ⟨record, recorded, began, returned⟩ := acts.spans
  have unsignalled : ∀ time, after.upload.body.eos = .sent time →
      start + upstreamTimeout.nanos ≤ time := by
    intro time sent
    cases acts.signal time sent with
    | inl known => exact signal time known
    | inr isNow =>
        subst isNow
        exact elapsed
  rcases modifyHead_split split with ⟨rfl, isEarlier⟩ | ⟨span, rest, rfl, isLater⟩
  · rw [isEarlier] at recorded
    refine ⟨start, [], earlier.modifyHead record, recorded, acts.now.symm ▸ elapsed,
      forall_began (· ≤ start) began before, by simp, ?_, unsignalled⟩
    intro span isHead time isPending
    rw [List.head?_modifyHead, Option.mem_map] at isHead
    obtain ⟨old, wasHead, rfl⟩ := isHead
    cases returned old _ isPending with
    | inl wasPending => exact answered old wasHead time wasPending
    | inr isNow => exact elapsed.trans (Nat.le_of_eq isNow.symm)
  · rw [isLater] at recorded
    refine ⟨start, _, earlier, recorded, acts.now.symm ▸ elapsed, before, ?_, answered, unsignalled⟩
    rw [List.forall_mem_cons, began]
    exact List.forall_mem_cons.mp since

theorem TimerSound.acted {timer : Timer} (sound : TimerSound upstreamTimeout race timer)
    (shown : after.Shown)
    (calm : ∀ start ∈ timer.checkingSince, race.clearsWaiting = true →
      race.upload.flags.waitingOnClient = true →
        ∀ span ∈ race.spans.head?, span.began < start + upstreamTimeout.nanos) :
    TimerSound upstreamTimeout after timer := by
  cases timer with
  | unstarted | parked => trivial
  | window start =>
      obtain ⟨record, recorded, began, -⟩ := acts.spans
      intro unpolled
      rw [recorded]
      exact forall_began (· ≤ start) began (sound (acts.polled unpolled))
  | checking start => exact Waited.acted acts sound shown (calm start rfl)
  | draining start =>
      obtain ⟨time, sent, early⟩ := sound
      exact ⟨time, acts.sent time sent, early⟩
  | fired =>
      cases sound with
      | inl inTime =>
          obtain ⟨time, sent, due⟩ := inTime
          exact .inl ⟨time, acts.sent time sent, acts.now.symm ▸ due⟩
      | inr quiet => exact .inr (QuietWindow.acted acts quiet)

end Acted

/-! ### The other tasks -/

theorem TimerSound.tick {timer : Timer} (sound : TimerSound upstreamTimeout race timer)
    (nanos : Nat) : TimerSound upstreamTimeout (race.outside upstreamTimeout (.tick nanos)) timer := by
  have later : race.upload.now ≤ race.upload.now + nanos := Nat.le_add_right _ _
  cases timer with
  | unstarted | parked => trivial
  | window start | draining start => exact sound
  | checking start =>
      obtain ⟨elapsed, quiet, signal⟩ := sound
      exact ⟨elapsed.trans later, quiet, signal⟩
  | fired =>
      cases sound with
      | inl inTime =>
          obtain ⟨time, sent, due⟩ := inTime
          exact .inl ⟨time, sent, due.trans later⟩
      | inr quiet =>
          obtain ⟨start, late, early, split, elapsed, rest⟩ := quiet
          exact .inr ⟨start, late, early, split, elapsed.trans later, rest⟩

/-- The timer's judgement depends on the flags and not on what else the body holds. -/
theorem TimerSound.congr {other : UploadRace} {timer : Timer}
    (sound : TimerSound upstreamTimeout race timer) (now : other.upload.now = race.upload.now)
    (flags : other.upload.flags = race.upload.flags) (spans : other.spans = race.spans)
    (eos : ∀ time, other.upload.body.eos = .sent time ↔ race.upload.body.eos = .sent time) :
    TimerSound upstreamTimeout other timer := by
  cases timer with
  | unstarted | parked => trivial
  | window start =>
      simp only [TimerSound, flags, spans]
      exact sound
  | draining start =>
      simp only [TimerSound, eos]
      exact sound
  | fired =>
      simp only [TimerSound, SentInTime, QuietWindow, now, spans, eos]
      exact sound
  | checking start =>
      obtain ⟨elapsed, quiet, signal⟩ := sound
      exact ⟨now.symm ▸ elapsed, by rwa [spans, flags], fun time sent => signal time ((eos time).mp sent)⟩

theorem Sound.past_step (sound : Sound upstreamTimeout race) (move : Move) :
    ∀ span ∈ (race.step upstreamTimeout move).spans,
      span.began ≤ (race.step upstreamTimeout move).upload.now := by
  have stepped := step_stepped upstreamTimeout race move
  generalize race.step upstreamTimeout move = next at stepped
  cases stepped with
  | idle => exact sound.past
  | outer isOuter =>
      have aside := @outer_aside upstreamTimeout race.upload move _ isOuter
      exact fun span member => (sound.past span member).trans aside.now
  | begun => exact List.forall_mem_cons.mpr ⟨Nat.le_refl _, sound.past⟩
  | performed call =>
      have acts := performed_acted call
      obtain ⟨record, recorded, began, -⟩ := acts.spans
      rw [recorded, acts.now]
      exact forall_began (· ≤ race.upload.now) began sound.past

theorem Sound.signal_step (sound : Sound upstreamTimeout race) (move : Move) {time : Nat}
    (sent : (race.step upstreamTimeout move).upload.body.eos = .sent time) :
    time ≤ (race.step upstreamTimeout move).upload.now := by
  have stepped := step_stepped upstreamTimeout race move
  generalize race.step upstreamTimeout move = next at stepped sent
  cases stepped with
  | idle => exact sound.signal time sent
  | outer isOuter =>
      have aside := @outer_aside upstreamTimeout race.upload move _ isOuter
      exact (sound.signal time ((aside.sent time).mp sent)).trans aside.now
  | begun => exact sound.signal time sent
  | performed call =>
      have acts := performed_acted call
      rw [acts.now]
      cases acts.signal time sent with
      | inl known => exact sound.signal time known
      | inr isNow => exact isNow.le

theorem Sound.windowEnd (sound : Sound upstreamTimeout race)
    (calm : race.Calm upstreamTimeout .windowEnd) :
    TimerSound upstreamTimeout (race.outside upstreamTimeout .windowEnd)
      (race.outside upstreamTimeout .windowEnd).upload.timer := by
  have known := sound.timer
  simp only [outside, Upload.step]
  split
  · next start inWindow =>
    split
    · next elapsed =>
      simp only [Upload.windowEnd]
      split
      · exact fun _ => sound.past
      · next polled =>
        have unpolled : race.upload.flags.polled = false := by simpa using polled
        rw [inWindow] at known
        refine ⟨elapsed, ⟨[], race.spans, rfl, known unpolled, by simp, ?_⟩, ?_⟩
        · intro notWaiting span isHead time isPending
          rw [sound.shows.shown span isHead time isPending] at notWaiting
          cases notWaiting
        · intro time sent
          refine calm start ?_ unpolled elapsed time ?_
          · rw [inWindow]; rfl
          · rw [sent]; rfl
    · exact known
  · exact known

theorem Sound.readWaiting (sound : Sound upstreamTimeout race) :
    TimerSound upstreamTimeout (race.outside upstreamTimeout .readWaiting)
      (race.outside upstreamTimeout .readWaiting).upload.timer := by
  have known := sound.timer
  simp only [outside, Upload.step]
  split
  · next start checking =>
    rw [checking] at known
    obtain ⟨elapsed, ⟨later, earlier, split, before, since, answered⟩, signal⟩ := known
    simp only [Upload.readWaiting]
    split
    · exact fun _ => sound.past
    · next waiting =>
      by_cases early : ∃ time, race.upload.body.eos = .sent time ∧ time ≤ start
      · obtain ⟨time, sent, early⟩ := early
        exact .inl ⟨time, sent, (Nat.add_le_add_right early _).trans elapsed⟩
      · refine .inr ⟨start, later, earlier, split, elapsed, before, since, ?_, ?_⟩
        · intro span isHead time isPending
          exact absurd isPending (answered (by simpa using waiting) span isHead time)
        · exact fun time sent => (signal time sent).resolve_left fun le => early ⟨time, sent, le⟩
  · exact known

theorem Sound.drop (sound : Sound upstreamTimeout race) :
    TimerSound upstreamTimeout (race.outside upstreamTimeout .drop)
      (race.outside upstreamTimeout .drop).upload.timer := by
  have sent := (@outer_aside upstreamTimeout race.upload .drop _ rfl).sent
  obtain ⟨timer, now, flags⟩ : (race.upload.step upstreamTimeout .drop).timer = race.upload.timer ∧
      (race.upload.step upstreamTimeout .drop).now = race.upload.now ∧
      (race.upload.step upstreamTimeout .drop).flags = race.upload.flags := by
    simp only [Upload.step, Upload.drop]
    split <;> exact ⟨rfl, rfl, rfl⟩
  simp only [outside, timer]
  exact sound.timer.congr now flags rfl sent

theorem Sound.drained (sound : Sound upstreamTimeout race) :
    TimerSound upstreamTimeout (race.outside upstreamTimeout .drained)
      (race.outside upstreamTimeout .drained).upload.timer := by
  have known := sound.timer
  simp only [outside, Upload.step]
  split
  · next start draining =>
    split
    · next elapsed =>
      rw [draining] at known
      obtain ⟨time, sent, early⟩ := known
      exact .inl ⟨time, sent, (Nat.add_le_add_right early _).trans elapsed⟩
    · exact known
  · exact known

theorem Sound.timer_step (sound : Sound upstreamTimeout race) {move : Move}
    (calm : race.Calm upstreamTimeout move) (shown : (race.step upstreamTimeout move).Shown) :
    TimerSound upstreamTimeout (race.step upstreamTimeout move)
      (race.step upstreamTimeout move).upload.timer := by
  have known := sound.timer
  cases move with
  | tick nanos => exact known.tick nanos
  | windowEnd => exact sound.windowEnd calm
  | readWaiting => exact sound.readWaiting
  | begin idleReady totalReady inner =>
      simp only [step]
      split
      · exact known.entered.congr rfl rfl rfl fun _ => .rfl
      · exact known
  | advance =>
      have stepped := step_stepped upstreamTimeout race .advance
      generalize race.step upstreamTimeout .advance = next at stepped shown
      cases stepped with
      | idle => exact known
      | outer isOuter => cases isOuter
      | performed call =>
          have acts := performed_acted call
          rw [acts.timer]
          exact known.acted acts shown calm
  | drop =>
      simp only [step]
      split
      · exact sound.drop
      · exact known
  | drained => exact sound.drained
  | start =>
      simp only [step, outside, Upload.step]
      split
      · exact fun _ => sound.past
      · exact known
  | receive =>
      simp only [step, outside, Upload.step]
      split
      · simp only [Upload.receive]
        split
        · exact known
        · next time sent => exact ⟨time, sent, sound.signal time sent⟩
        · trivial
      · exact known

theorem Sound.step (sound : Sound upstreamTimeout race) {move : Move}
    (calm : race.Calm upstreamTimeout move) :
    Sound upstreamTimeout (race.step upstreamTimeout move) where
  past := sound.past_step move
  signal := fun _ => sound.signal_step move
  shows := sound.shows.shows_step move
  timer := sound.timer_step calm (sound.shows.shows_step move).shown

theorem Sound.run {moves : List Move} (sound : Sound upstreamTimeout race)
    (calm : CalmRun upstreamTimeout race moves) :
    Sound upstreamTimeout (race.run upstreamTimeout moves) := by
  induction moves generalizing race with
  | nil => exact sound
  | cons move moves ih => exact ih (sound.step calm.1) calm.2

theorem sound_new (idle total : Duration) (isEndStream : Bool) (now : Nat) :
    Sound upstreamTimeout ⟨Upload.new idle total isEndStream now, none, [], 0⟩ where
  past := by simp
  signal := by
    intro time sent
    cases isEndStream with
    | false => cases sent
    | true =>
        cases sent
        exact Nat.le_refl _
  shows := ⟨fun _ => by simp [Shown], by simp⟩
  timer := by cases isEndStream <;> trivial

/-- The timer has a reason when it fires. -/
theorem fired_reason {moves : List Move} (sound : Sound upstreamTimeout race)
    (calm : CalmRun upstreamTimeout race moves)
    (fired : (race.run upstreamTimeout moves).upload.timer = .fired) :
    SentInTime upstreamTimeout (race.run upstreamTimeout moves) ∨
      QuietWindow upstreamTimeout (race.run upstreamTimeout moves) := by
  have known := (sound.run calm).timer
  rwa [fired] at known

end Timer

end UploadRace

end Ferryman.Server
