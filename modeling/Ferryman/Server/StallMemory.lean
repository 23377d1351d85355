import Ferryman.Server.Windows

/-!
# What the stall registers remember

The two registers remember every stall of the client, except while a call has
taken one out of the first and not put its length into the second.
-/

set_option autoImplicit false

namespace Ferryman.Server

open Ferryman.Core Program

namespace UploadRace

/-! ## Stalls in the history -/

/-- What the stall flags say about a stall of `theta`, seen at the given instant. -/
def StallSeen (theta : Duration) (upload : Upload) (instant : Nat) : Prop :=
  theta.asMillis ≤ upload.flags.longestStall ∨
    upload.flags.stallSince ≠ 0 ∧
      theta.asMillis ≤ (instant - upload.origin) / 1000000 + 1 - upload.flags.stallSince

section Stalls

variable {upstreamTimeout theta : Duration} {race : UploadRace}

theorem StallSeen.later {upload : Upload} {instant later : Nat}
    (seen : StallSeen theta upload instant) (isLater : instant ≤ later) :
    StallSeen theta upload later := by
  refine seen.imp_right fun goesOn => ⟨goesOn.1, goesOn.2.trans ?_⟩
  exact Nat.sub_le_sub_right
    (Nat.succ_le_succ (Nat.div_le_div_right (Nat.sub_le_sub_right isLater _))) _

theorem StallSeen.aside {before after : Upload} {instant : Nat}
    (seen : StallSeen theta before instant) (aside : Upload.Aside before after) :
    StallSeen theta after instant := by
  rwa [StallSeen, aside.longestStall, aside.stallSince, aside.origin]

theorem leftPending_answered {span : Span} {earlier : List Span} {time instant : Nat}
    (answered : span.answered = some time) :
    LeftPending theta instant (span :: earlier) ↔ LeftPending theta time earlier := by
  rw [LeftPending, answered]

theorem leftPending_unanswered {span : Span} {earlier : List Span} {instant : Nat}
    (unanswered : span.answered = none) :
    LeftPending theta instant (span :: earlier) ↔
      (∃ time, span.returned = some ⟨time, .pending⟩ ∧ time + theta.nanos ≤ instant) ∨
        LeftPending theta instant earlier := by
  rw [LeftPending, unanswered]

/-- A call that has not returned was not left pending. -/
theorem leftPending_asking {span : Span} {earlier : List Span} {instant : Nat}
    (unanswered : span.answered = none) (unreturned : span.returned = none) :
    LeftPending theta instant (span :: earlier) ↔ LeftPending theta instant earlier := by
  simp [leftPending_unanswered unanswered, unreturned]

/-- Whole milliseconds lose nothing of a stall whose length is rounded down too. -/
theorem millis_apart {origin time instant : Nat} (begun : origin ≤ time)
    (apart : time + theta.nanos ≤ instant) :
    (time - origin) / 1000000 + theta.asMillis ≤ (instant - origin) / 1000000 := by
  have millis : theta.asMillis = theta.nanos / 1000000 := rfl
  omega

/-! ## What each phase knows -/

structure Clocked (upload : Upload) : Prop where
  begun : upload.origin ≤ upload.now
  since : upload.flags.stallSince ≤ upload.nowMs + 1

theorem Clocked.aside {before after : Upload} (clocked : Clocked before)
    (aside : Upload.Aside before after) : before.nowMs ≤ after.nowMs ∧ Clocked after := by
  have later : before.nowMs ≤ after.nowMs := by
    rw [Upload.nowMs, Upload.nowMs, aside.origin]
    exact Nat.div_le_div_right (Nat.sub_le_sub_right aside.now _)
  refine ⟨later, ?_, ?_⟩
  · rw [aside.origin]
    exact clocked.begun.trans aside.now
  · rw [aside.stallSince]
    exact clocked.since.trans (Nat.succ_le_succ later)

/-- The flags show every stall of `theta` in the history, now and later. -/
def AllSeen (theta : Duration) (upload : Upload) (spans : List Span) : Prop :=
  ∀ instant, upload.now ≤ instant → LeftPending theta instant spans →
    StallSeen theta upload instant

theorem AllSeen.aside {before after : Upload} {spans : List Span}
    (seen : AllSeen theta before spans) (aside : Upload.Aside before after) :
    AllSeen theta after spans :=
  fun instant late left => (seen instant (aside.now.trans late) left).aside aside

/-- The newest call has not heard from the client yet. -/
def Unanswered (theta : Duration) (race : UploadRace) (span : Span) (earlier : List Span) : Prop :=
  race.taken = 0 ∧ span.answered = none ∧ AllSeen theta race.upload earlier

/-- The client has answered in the newest call, and a stall of `theta` that this ended
is kept somewhere. -/
def Answered (theta : Duration) (race : UploadRace) (span : Span) (earlier : List Span)
    (kept : Nat → Prop) : Prop :=
  ∃ time, span.answered = some time ∧ time ≤ race.upload.now ∧
    (LeftPending theta time earlier → kept time)

def Knows (theta : Duration) (race : UploadRace) (span : Span) (earlier : List Span) :
    PollPhase → Prop
  | .asking | .waiting => Unanswered theta race span earlier
  | .noted millis => Unanswered theta race span earlier ∧ millis ≤ race.upload.nowMs
  | .marked => Unanswered theta race span earlier ∧ race.upload.flags.stallSince ≠ 0
  | .answered => race.taken = 0 ∧ Answered theta race span earlier (StallSeen theta race.upload)
  | .swapped since =>
      race.taken ≠ 0 ∧ Answered theta race span earlier fun time =>
        theta.asMillis ≤ race.upload.flags.longestStall ∨
          theta.asMillis ≤ (time - race.upload.origin) / 1000000 + 1 - since
  | .measured millis =>
      race.taken ≠ 0 ∧ Answered theta race span earlier fun _ =>
        theta.asMillis ≤ race.upload.flags.longestStall ∨ theta.asMillis ≤ millis
  | .settled | .cleared =>
      race.taken = 0 ∧ Answered theta race span earlier fun _ =>
        theta.asMillis ≤ race.upload.flags.longestStall

structure Recalls (theta : Duration) (race : UploadRace) (phase : PollPhase) : Prop where
  clocked : Clocked race.upload
  knows : ∃ span earlier, race.spans = span :: earlier ∧ span.returned = none ∧
    Knows theta race span earlier phase

structure Remembers (theta : Duration) (race : UploadRace) : Prop where
  clocked : Clocked race.upload
  settled : race.taken = 0
  seen : AllSeen theta race.upload race.spans

/-! ## Accesses and returns -/

theorem Answered.later {span : Span} {earlier : List Span} {kept kept' : Nat → Prop}
    {after : UploadRace} (answered : Answered theta race span earlier kept)
    (later : race.upload.now ≤ after.upload.now) (keeps : ∀ time, kept time → kept' time) :
    Answered theta after span earlier kept' := by
  obtain ⟨time, isTime, past, isKept⟩ := answered
  exact ⟨time, isTime, past.trans later, fun left => keeps time (isKept left)⟩

theorem Clocked.sendEos {upload : Upload} (clocked : Clocked upload) : Clocked upload.sendEos := by
  constructor
  · rw [upload.sendEos_origin, upload.sendEos_now]
    exact clocked.begun
  · rw [Upload.nowMs, upload.sendEos_flags, upload.sendEos_origin, upload.sendEos_now]
    exact clocked.since

/-- A call marks the start of a stall, unless one goes on. -/
theorem casStallSince_marks {upload : Upload} {spans : List Span} {millis : Nat}
    (clocked : Clocked upload) (seen : AllSeen theta upload spans) (past : millis ≤ upload.nowMs) :
    Clocked ((BodyEffect.casStallSince (millis + 1)).exec upload).2 ∧
      AllSeen theta ((BodyEffect.casStallSince (millis + 1)).exec upload).2 spans ∧
      ((BodyEffect.casStallSince (millis + 1)).exec upload).2.flags.stallSince ≠ 0 := by
  have isSince : ((BodyEffect.casStallSince (millis + 1)).exec upload).2.flags.stallSince =
      if upload.flags.stallSince = 0 then millis + 1 else upload.flags.stallSince := rfl
  refine ⟨⟨clocked.begun, ?_⟩, fun instant late left => ?_, ?_⟩
  · rw [isSince]
    split
    · exact Nat.succ_le_succ past
    · exact clocked.since
  · refine (seen instant late left).imp_right fun goesOn => ?_
    rw [isSince, if_neg goesOn.1]
    exact goesOn
  · rw [isSince]
    split
    · exact Nat.succ_ne_zero _
    · assumption

theorem AllSeen.returned {span : Span} {earlier : List Span} {upload : Upload} {result : PollResult}
    (seen : AllSeen theta upload earlier) (clocked : Clocked upload)
    (unanswered : span.answered = none)
    (ongoing : result = .pending → upload.flags.stallSince ≠ 0) :
    AllSeen theta upload ({ span with returned := some ⟨upload.now, result⟩ } :: earlier) := by
  intro instant late left
  rw [leftPending_unanswered (by exact unanswered)] at left
  cases left with
  | inr before => exact seen instant late before
  | inl now =>
      obtain ⟨time, isPoll, apart⟩ := now
      obtain ⟨rfl, rfl⟩ := Poll.mk.inj (Option.some.inj isPoll)
      -- the stall began with this call or with an earlier one
      have long := millis_apart clocked.begun apart
      have since := clocked.since
      refine .inr ⟨ongoing rfl, ?_⟩
      unfold Upload.nowMs at since
      omega

theorem Recalls.returned {phase : PollPhase} {result : PollResult} (recalls : Recalls theta race phase)
    (ends : PollEnds phase result) : Remembers theta (race.resume (.done result)) := by
  obtain ⟨clocked, span, earlier, isSpans, unreturned, knows⟩ := recalls
  have recorded : (race.resume (.done result)).spans =
      { span with returned := some ⟨race.upload.now, result⟩ } :: earlier := by
    rw [resume, isSpans]
    rfl
  cases ends with
  | late =>
      obtain ⟨settled, unanswered, seen⟩ := knows
      refine ⟨clocked, settled, ?_⟩
      rw [recorded]
      exact seen.returned clocked unanswered (by simp)
  | unanswered =>
      obtain ⟨⟨settled, unanswered, seen⟩, ongoing⟩ := knows
      refine ⟨clocked, settled, ?_⟩
      rw [recorded]
      exact seen.returned clocked unanswered fun _ => ongoing
  | answered ready =>
      obtain ⟨settled, time, answered, -, kept⟩ := knows
      refine ⟨clocked, settled, fun instant _ left => ?_⟩
      rw [recorded, leftPending_answered (by exact answered)] at left
      exact .inl (kept left)

theorem Recalls.accessed {phase later : PollPhase} {β : Type} {effect : BodyEffect β}
    (recalls : Recalls theta race phase)
    (moved : PollMove phase effect (effect.exec race.upload).1 later) :
    Recalls theta (race.accessed effect) later := by
  obtain ⟨clocked, span, earlier, isSpans, unreturned, knows⟩ := recalls
  have isSpans' : (race.accessed effect).spans =
      effect.observe race.upload.now span :: earlier := by
    rw [UploadRace.accessed, isSpans]
    rfl
  have unreturned' := (effect.observe_returned race.upload.now span).trans unreturned
  generalize answered : (effect.exec race.upload).1 = answer at moved
  cases moved with
  | late past =>
      exact ⟨clocked, _, _, isSpans', unreturned', knows⟩
  | answers =>
      obtain ⟨settled, -, seen⟩ := knows
      exact ⟨clocked, _, _, isSpans', unreturned', settled, race.upload.now, rfl, Nat.le_refl _,
        seen _ (Nat.le_refl _)⟩
  | disarms => exact ⟨⟨clocked.begun, clocked.since⟩, _, _, isSpans', unreturned', knows⟩
  | noStall =>
      obtain ⟨settled, time, isTime, past, kept⟩ := knows
      refine ⟨⟨clocked.begun, Nat.zero_le _⟩, _, _, isSpans', unreturned', answered, time, isTime,
        past, fun left => ?_⟩
      exact (kept left).resolve_right fun goesOn => goesOn.1 answered
  | takes stalled =>
      obtain ⟨settled, time, isTime, past, kept⟩ := knows
      refine ⟨⟨clocked.begun, Nat.zero_le _⟩, _, _, isSpans', unreturned', ?_, time, isTime, past,
        fun left => ?_⟩
      · exact fun isNone => stalled (answered.symm.trans isNone)
      · exact (kept left).imp_right fun goesOn => answered ▸ goesOn.2
  | measures since millis =>
      obtain ⟨owing, time, isTime, past, kept⟩ := knows
      obtain rfl : race.upload.nowMs = millis := answered
      refine ⟨clocked, _, _, isSpans', unreturned', owing, time, isTime, past, fun left => ?_⟩
      refine (kept left).imp_right fun long => long.trans (Nat.sub_le_sub_right ?_ _)
      exact Nat.succ_le_succ (Nat.div_le_div_right (Nat.sub_le_sub_right past _))
  | records millis =>
      obtain ⟨owing, time, isTime, past, kept⟩ := knows
      refine ⟨⟨clocked.begun, clocked.since⟩, _, _, isSpans', unreturned', rfl, time, isTime, past,
        fun left => ?_⟩
      cases kept left with
      | inl finished => exact finished.trans (Nat.le_max_left _ _)
      | inr measured => exact measured.trans (Nat.le_max_right _ _)
  | clears => exact ⟨⟨clocked.begun, clocked.since⟩, _, _, isSpans', unreturned', knows⟩
  | signals =>
      obtain ⟨settled, answered⟩ := knows
      refine ⟨clocked.sendEos, _, _, isSpans', unreturned', settled,
        answered.later race.upload.sendEos_now.ge fun _ finished => ?_⟩
      exact finished.trans_eq (congrArg Flags.longestStall race.upload.sendEos_flags).symm
  | waits =>
      exact ⟨⟨clocked.begun, clocked.since⟩, _, _, isSpans', unreturned', knows⟩
  | notes millis =>
      exact ⟨clocked, _, _, isSpans', unreturned', knows, Nat.le_of_eq answered.symm⟩
  | marks millis =>
      obtain ⟨⟨settled, unanswered, seen⟩, past⟩ := knows
      obtain ⟨clocked', seen', ongoing⟩ := casStallSince_marks clocked seen past
      exact ⟨clocked', _, _, isSpans', unreturned', ⟨settled, unanswered, seen'⟩, ongoing⟩
  | idle ready expired =>
      exact ⟨⟨clocked.begun, clocked.since⟩, _, _, isSpans', unreturned', knows⟩
  | total ready expired =>
      exact ⟨⟨clocked.begun, clocked.since⟩, _, _, isSpans', unreturned', knows⟩

theorem carries_memory : Carries (Recalls theta) (Remembers theta) where
  anyCall := fun _ recalls => ⟨recalls.clocked, recalls.knows⟩
  accessed := Recalls.accessed
  returned := Recalls.returned

/-! ## Runs -/

theorem Knows.aside {span : Span} {earlier : List Span} {phase : PollPhase} {after : Upload}
    (knows : Knows theta race span earlier phase) (aside : Upload.Aside race.upload after)
    (clocks : race.upload.nowMs ≤ after.nowMs) :
    Knows theta { race with upload := after } span earlier phase := by
  cases phase with
  | asking | waiting => exact ⟨knows.1, knows.2.1, knows.2.2.aside aside⟩
  | noted millis =>
      obtain ⟨⟨settled, unanswered, seen⟩, past⟩ := knows
      exact ⟨⟨settled, unanswered, seen.aside aside⟩, past.trans clocks⟩
  | marked =>
      obtain ⟨⟨settled, unanswered, seen⟩, ongoing⟩ := knows
      exact ⟨⟨settled, unanswered, seen.aside aside⟩, aside.stallSince.symm ▸ ongoing⟩
  | answered =>
      exact ⟨knows.1, knows.2.later aside.now fun _ seen => seen.aside aside⟩
  | swapped since =>
      refine ⟨knows.1, knows.2.later aside.now fun time => ?_⟩
      simp only [aside.longestStall, aside.origin]
      exact id
  | measured | settled | cleared =>
      refine ⟨knows.1, knows.2.later aside.now fun time => ?_⟩
      simp only [aside.longestStall]
      exact id

/-- The flags and the history belong together in a call and between two. -/
def Mindful (theta : Duration) (race : UploadRace) : Prop :=
  Follows (Recalls theta) (Remembers theta) race

theorem Mindful.step (mindful : Mindful theta race) (move : Move) :
    Mindful theta (race.step upstreamTimeout move) := by
  refine carries_memory.step mindful move (fun other isOuter _ => ?_) fun remembers => ?_
  · have aside := @outer_aside upstreamTimeout race.upload move other isOuter
    constructor
    · intro free
      obtain ⟨clocked, settled, seen⟩ := mindful.1 free
      exact ⟨(clocked.aside aside).2, settled, seen.aside aside⟩
    · intro program isCall
      obtain ⟨phase, walks, ⟨clocked, span, earlier, isSpans, unreturned, knows⟩⟩ :=
        mindful.2 program isCall
      exact ⟨phase, walks, (clocked.aside aside).2, span, earlier, isSpans, unreturned,
        knows.aside aside (clocked.aside aside).1⟩
  · exact ⟨⟨remembers.clocked.begun, remembers.clocked.since⟩, _, _, rfl, rfl,
      remembers.settled, rfl, remembers.seen⟩

theorem Mindful.run (mindful : Mindful theta race) (moves : List Move) :
    Mindful theta (race.run upstreamTimeout moves) := by
  induction moves generalizing race with
  | nil => exact mindful
  | cons move moves ih => exact ih (mindful.step move)

theorem mindful_new (idle total : Duration) (isEndStream : Bool) (now : Nat) :
    Mindful theta ⟨Upload.new idle total isEndStream now, none, [], 0⟩ := by
  refine ⟨fun _ => ⟨?_, rfl, fun _ _ left => left.elim⟩, by simp⟩
  cases isEndStream <;> exact ⟨Nat.le_refl _, Nat.zero_le _⟩

theorem resume_upload (program : Program BodyEffect PollResult) :
    (race.resume program).upload = race.upload := by
  cases program <;> rfl

theorem exec_older {β : Type} (effect : BodyEffect β) (upload : Upload) :
    Upload.Older upload (effect.exec upload).2 := by
  cases effect with
  | sendEos =>
      exact ⟨upload.sendEos_now.ge, upload.sendEos_origin,
        (congrArg Flags.longestStall upload.sendEos_flags).ge⟩
  | fetchMaxLongestStall millis => exact ⟨Nat.le_refl _, rfl, Nat.le_max_left _ _⟩
  | storePolled | pastDeadline | clientAnswers | clearIdleSleep | swapStallSince | nowMs
  | storeWaiting | casStallSince | pollIdleSleep | pollTotalSleep =>
      exact ⟨Nat.le_refl _, rfl, Nat.le_refl _⟩

theorem older_step (race : UploadRace) (move : Move) :
    Upload.Older race.upload (race.step upstreamTimeout move).upload := by
  have stepped := step_stepped upstreamTimeout race move
  generalize race.step upstreamTimeout move = next at stepped
  cases stepped with
  | idle => exact ⟨Nat.le_refl _, rfl, Nat.le_refl _⟩
  | begun => exact ⟨Nat.le_refl _, rfl, Nat.le_refl _⟩
  | outer isOuter =>
      have aside := @outer_aside upstreamTimeout race.upload move _ isOuter
      exact aside.older
  | performed call =>
      rw [resume_upload]
      exact exec_older _ race.upload

theorem older_run (race : UploadRace) (moves : List Move) :
    Upload.Older race.upload (race.run upstreamTimeout moves).upload := by
  induction moves generalizing race with
  | nil => exact ⟨Nat.le_refl _, rfl, Nat.le_refl _⟩
  | cons move moves ih =>
      have first := @older_step upstreamTimeout race move
      have rest := ih (race.step upstreamTimeout move)
      exact ⟨first.now.trans rest.now, rest.origin.trans first.origin,
        first.longestStall.trans rest.longestStall⟩

/-! ## The stall check -/

theorem Mindful.seen (mindful : Mindful theta race)
    (left : LeftPending theta race.upload.now race.spans) :
    StallSeen theta race.upload race.upload.now ∨ race.taken ≠ 0 := by
  cases isCall : race.call with
  | none => exact .inl ((mindful.1 isCall).seen _ (Nat.le_refl _) left)
  | some program =>
      obtain ⟨phase, -, -, span, earlier, isSpans, unreturned, knows⟩ := mindful.2 program isCall
      rw [isSpans] at left
      have seen_of (unanswered : Unanswered theta race span earlier) :
          StallSeen theta race.upload race.upload.now := by
        rw [leftPending_asking unanswered.2.1 unreturned] at left
        exact unanswered.2.2 _ (Nat.le_refl _) left
      cases phase with
      | asking | waiting => exact .inl (seen_of knows)
      | noted | marked => exact .inl (seen_of knows.1)
      | swapped | measured => exact .inr knows.1
      | answered =>
          obtain ⟨-, time, answered, past, kept⟩ := knows
          rw [leftPending_answered answered] at left
          exact .inl ((kept left).later past)
      | settled | cleared =>
          obtain ⟨-, time, answered, -, kept⟩ := knows
          rw [leftPending_answered answered] at left
          exact .inl (.inl (kept left))

/-- A stall that a call has taken out of the one register is on its way until its
length is in the other. -/
theorem Mindful.owed_step (mindful : Mindful theta race) (move : Move) (owed : race.taken ≠ 0)
    {instant : Nat} (left : LeftPending theta instant race.spans) :
    ((race.step upstreamTimeout move).taken ≠ 0 ∧
        (race.step upstreamTimeout move).spans = race.spans) ∨
      theta.asMillis ≤ (race.step upstreamTimeout move).upload.flags.longestStall := by
  have stepped := step_stepped upstreamTimeout race move
  generalize race.step upstreamTimeout move = next at stepped
  cases stepped with
  | idle => exact .inl ⟨owed, rfl⟩
  | outer => exact .inl ⟨owed, rfl⟩
  | begun idleReady totalReady inner free => exact absurd (mindful.1 free).settled owed
  | @performed β effect resumed call =>
      obtain ⟨phase, walks, recalls⟩ := mindful.2 _ call
      obtain ⟨-, span, earlier, isSpans, unreturned, knows⟩ := recalls
      obtain ⟨later, moved, continues⟩ := walks (effect.exec race.upload).1 trivial
      generalize (effect.exec race.upload).1 = answer at moved continues
      cases phase with
      | asking | waiting | answered | settled | cleared => exact absurd knows.1 owed
      | noted | marked => exact absurd knows.1.1 owed
      | swapped since =>
          cases moved with
          | measures since millis =>
              have same : (race.accessed .nowMs).spans = race.spans := by
                rw [accessed, isSpans]
                rfl
              generalize resumed millis = program at continues
              cases program with
              | done result => cases continues
              | perform effect following => exact .inl ⟨owed, same⟩
      | measured millis =>
          obtain ⟨-, time, answered, -, kept⟩ := knows
          rw [isSpans, leftPending_answered answered] at left
          cases moved with
          | records =>
              rw [resume_upload]
              refine .inr ?_
              cases kept left with
              | inl finished => exact finished.trans (Nat.le_max_left _ _)
              | inr measured => exact measured.trans (Nat.le_max_right _ _)

theorem Mindful.owed_run (mindful : Mindful theta race) (moves : List Move) (owed : race.taken ≠ 0)
    {instant : Nat} (left : LeftPending theta instant race.spans) :
    ((race.run upstreamTimeout moves).taken ≠ 0 ∧
        (race.run upstreamTimeout moves).spans = race.spans) ∨
      theta.asMillis ≤ (race.run upstreamTimeout moves).upload.flags.longestStall := by
  induction moves generalizing race with
  | nil => exact .inl ⟨owed, rfl⟩
  | cons move moves ih =>
      cases @owed_step upstreamTimeout theta race mindful move owed instant left with
      | inr recorded => exact .inr (recorded.trans (older_run _ moves).longestStall)
      | inl stillOwed =>
          obtain ⟨owed, same⟩ := stillOwed
          rw [← same] at left ⊢
          exact ih (mindful.step move) owed left

/-- A stall check whose two loads do not miss the stall between them finds it. -/
theorem Mindful.reading (mindful : Mindful theta race) (second third : List Move)
    (left : LeftPending theta race.upload.now race.spans)
    (untorn : ¬ race.MissesStall (race.run upstreamTimeout second)) :
    (Upload.stallReading race.upload (race.run upstreamTimeout second).upload
      ((race.run upstreamTimeout second).run upstreamTimeout third).upload).clientStalled theta =
        true := by
  have older := @older_run upstreamTimeout race second
  have older' := @older_run upstreamTimeout (race.run upstreamTimeout second) third
  generalize ((race.run upstreamTimeout second).run upstreamTimeout third).upload = last at older' ⊢
  have truncated : theta.asMillis % 2 ^ 64 ≤ theta.asMillis := Nat.mod_le _ _
  simp only [BodyState.clientStalled, Upload.stallReading, Bool.or_eq_true, Bool.and_eq_true]
  have found_of (recorded : theta.asMillis ≤
      (race.run upstreamTimeout second).upload.flags.longestStall) :
      theta.asMillis % 2 ^ 64 ≤ (race.run upstreamTimeout second).upload.flags.longestStall :=
    truncated.trans recorded
  rcases mindful.seen left with (finished | ⟨ongoing, long⟩) | owed
  · exact .inl (decide_eq_true (found_of (finished.trans older.longestStall)))
  · have later : (race.upload.now - race.upload.origin) / 1000000 ≤ last.nowMs := by
      rw [Upload.nowMs, older'.origin, older.origin]
      exact Nat.div_le_div_right (Nat.sub_le_sub_right (older.now.trans older'.now) _)
    have longer : theta.asMillis ≤ last.nowMs + 1 - race.upload.flags.stallSince :=
      long.trans (Nat.sub_le_sub_right (Nat.succ_le_succ later) _)
    exact .inr ⟨decide_eq_true ongoing, decide_eq_true (truncated.trans longer)⟩
  · cases mindful.owed_run second owed left with
    | inl stillOwed => exact absurd ⟨owed, stillOwed⟩ untorn
    | inr recorded => exact .inl (decide_eq_true (found_of recorded))

end Stalls

end UploadRace

end Ferryman.Server
