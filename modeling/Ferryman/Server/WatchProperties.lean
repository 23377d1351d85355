import Ferryman.Server.Watch
import Mathlib.Data.List.Count

/-!
# No event is lost

Every event that is sent after the last reload started is still in the channel
whenever the thread is in a reload or waits for the next event. In the inner
loop nothing of the kind holds, and need not: a reload follows it. The loop
starts no receive once the cap is exceeded.
-/

set_option autoImplicit false

namespace Ferryman.Server

namespace Watch

/-- The events sent since the last reload started. -/
def unhandled : List Entry → Nat
  | [] => 0
  | .sent :: log => unhandled log + 1
  | .reloadStarted :: _ => 0
  | .woken _ :: log | .receiveStarted _ _ :: log => unhandled log

/-- When the outer receive last returned. -/
def lastWoken : List Entry → Option Nat
  | [] => none
  | .woken time :: _ => some time
  | .sent :: log | .reloadStarted :: log | .receiveStarted _ _ :: log => lastWoken log

/-- A reload started after every event. -/
def AllHandled (log : List Entry) : Prop :=
  ∀ later earlier, log = later ++ .sent :: earlier → .reloadStarted ∈ later

/-- An inner receive started within the cap, counted from the event that woke the
thread, and its wait ends within the cap. -/
def WithinCap (log : List Entry) (time deadline : Nat) : Prop :=
  ∃ first, lastWoken log = some first ∧ first ≤ time ∧ time - first ≤ maxCoalesce ∧
    deadline - first ≤ maxCoalesce

def Capped (log : List Entry) : Prop :=
  ∀ later time deadline earlier, log = later ++ .receiveStarted time deadline :: earlier →
    WithinCap earlier time deadline

theorem allHandled_of_unhandled {log : List Entry} (none : unhandled log = 0) : AllHandled log := by
  induction log with
  | nil =>
      intro later earlier split
      simp at split
  | cons entry log ih =>
      intro later earlier split
      cases later with
      | nil =>
          obtain ⟨rfl, -⟩ := List.cons.inj split
          simp [unhandled] at none
      | cons newest later =>
          obtain ⟨rfl, rest⟩ := List.cons.inj split
          cases entry with
          | sent => simp [unhandled] at none
          | reloadStarted => exact List.mem_cons_self
          | woken time => exact List.mem_cons_of_mem _ (ih none later earlier rest)
          | receiveStarted time deadline => exact List.mem_cons_of_mem _ (ih none later earlier rest)

theorem capped_nil : Capped [] := by
  intro later time deadline earlier split
  simp at split

theorem Capped.cons {log : List Entry} (capped : Capped log) {entry : Entry}
    (newest : ∀ time deadline, entry = .receiveStarted time deadline →
      WithinCap log time deadline) :
    Capped (entry :: log) := by
  intro later time deadline earlier split
  cases later with
  | nil =>
      obtain ⟨same, rfl⟩ := List.cons.inj split
      exact newest time deadline same
  | cons _ later => exact capped later time deadline earlier (List.cons.inj split).2

/-! ## The invariant -/

/-- The thread is in the inner loop, woken at `first`. -/
def InLoop (watch : Watch) (first : Nat) : Prop :=
  watch.phase = .coalescing first ∨ ∃ deadline, watch.phase = .receiving first deadline

structure Inv (watch : Watch) : Prop where
  queued : watch.phase = .reloading ∨ watch.phase = .waiting →
    unhandled watch.log ≤ watch.queue
  awake : ∀ first, watch.InLoop first → lastWoken watch.log = some first ∧ first ≤ watch.now
  capped : Capped watch.log

theorem inv_start (now : Nat) : Inv { now := now } where
  queued := by simp
  awake := by simp [InLoop]
  capped := capped_nil

namespace Inv

variable {watch : Watch} (inv : Inv watch)

include inv

theorem tick (nanos : Nat) : Inv { watch with now := watch.now + nanos } where
  queued := inv.queued
  awake first inLoop :=
    ⟨(inv.awake first inLoop).1, Nat.le_add_right_of_le (inv.awake first inLoop).2⟩
  capped := inv.capped

theorem send : Inv watch.send where
  queued settled := by
    have bound := inv.queued settled
    have running : watch.phase ≠ .exited := by
      rcases settled with settled | settled <;> simp [Watch.send, record] at settled <;> simp [settled]
    simp only [Watch.send, record, unhandled, if_neg running]
    omega
  awake first inLoop := inv.awake first inLoop
  capped := inv.capped.cons (by simp)

theorem advance : Inv watch.advance := by
  unfold Watch.advance
  split
  · exact ⟨fun _ => Nat.zero_le _, by simp [InLoop], inv.capped.cons (by simp)⟩
  · next phase => exact ⟨fun _ => inv.queued (.inl phase), by simp [InLoop], inv.capped⟩
  · next first phase =>
    obtain ⟨woken, past⟩ := inv.awake first (.inl phase)
    split
    · next left admitted =>
      obtain ⟨within, rfl⟩ : watch.now - first ≤ maxCoalesce ∧
          maxCoalesce - (watch.now - first) = left := by
        unfold checkedSub at admitted
        split at admitted
        · next within => exact ⟨within, Option.some.inj admitted⟩
        · cases admitted
      refine ⟨by simp, ?_, inv.capped.cons ?_⟩
      · intro other inLoop
        obtain rfl : other = first := by simpa [InLoop, eq_comm] using inLoop
        exact ⟨woken, past⟩
      · intro time deadline same
        obtain ⟨rfl, rfl⟩ := Entry.receiveStarted.inj same
        exact ⟨first, woken, past, within, by omega⟩
    · exact ⟨by simp, by simp [InLoop], inv.capped⟩
  · exact inv
  · exact inv
  · exact inv

theorem receive : Inv watch.receive := by
  unfold Watch.receive
  split
  · exact inv
  · split
    · refine ⟨by simp, ?_, inv.capped.cons (by simp)⟩
      intro first inLoop
      obtain rfl : first = watch.now := by simpa [InLoop, eq_comm] using inLoop
      exact ⟨rfl, Nat.le_refl _⟩
    · next first deadline phase =>
      refine ⟨by simp, ?_, inv.capped⟩
      intro other inLoop
      obtain rfl : other = first := by simpa [InLoop, eq_comm] using inLoop
      exact inv.awake other (.inr ⟨deadline, phase⟩)
    · exact inv

theorem timeOut : Inv watch.timeOut := by
  unfold Watch.timeOut
  split
  · split
    · exact ⟨by simp, by simp [InLoop], inv.capped⟩
    · exact inv
  · exact inv

theorem disconnect : Inv watch.disconnect := by
  unfold Watch.disconnect
  split
  · split
    · exact ⟨by simp, by simp [InLoop], inv.capped⟩
    · exact ⟨by simp, by simp [InLoop], inv.capped⟩
    · exact inv
  · exact inv

theorem step (move : Move) : Inv (watch.step move) := by
  cases move with
  | tick nanos => exact inv.tick nanos
  | event =>
      rw [Watch.step]
      split
      · exact inv.send
      · exact inv
  | drop => exact ⟨inv.queued, inv.awake, inv.capped⟩
  | advance => exact inv.advance
  | receive => exact inv.receive
  | timeOut => exact inv.timeOut
  | disconnect => exact inv.disconnect

theorem run (moves : List Move) : Inv (watch.run moves) := by
  induction moves generalizing watch with
  | nil => exact inv
  | cons move moves ih => exact ih (inv.step move)

end Inv

/-! ## Past the cap -/

/-- The cap is exceeded and the reload that follows has not started. -/
def PastCap (watch : Watch) (first : Nat) : Prop :=
  first + maxCoalesce < watch.now ∧
    (watch.InLoop first ∨ watch.phase = .due ∨ watch.phase = .exited)

/-- Only events were logged, or a reload started before anything else was. -/
def UpToReload (added : List Entry) : Prop :=
  (∀ entry ∈ added, entry = .sent) ∨
    ∃ later sends, added = later ++ .reloadStarted :: sends ∧ ∀ entry ∈ sends, entry = .sent

theorem UpToReload.afterEvent {added : List Entry} (upTo : UpToReload added) :
    UpToReload (added ++ [.sent]) := by
  cases upTo with
  | inl sends =>
      left
      intro entry member
      cases List.mem_append.mp member with
      | inl earlier => exact sends entry earlier
      | inr last => exact List.mem_singleton.mp last
  | inr started =>
      obtain ⟨later, sends, rfl, onlySends⟩ := started
      refine .inr ⟨later, sends ++ [.sent], by simp, ?_⟩
      intro entry member
      cases List.mem_append.mp member with
      | inl earlier => exact onlySends entry earlier
      | inr last => exact List.mem_singleton.mp last

theorem step_log (watch : Watch) (move : Move) :
    ∃ added, (watch.step move).log = added ++ watch.log := by
  cases move with
  | tick nanos => exact ⟨[], rfl⟩
  | event =>
      simp only [step]
      split
      · exact ⟨[.sent], rfl⟩
      · exact ⟨[], rfl⟩
  | drop => exact ⟨[], rfl⟩
  | advance =>
      simp only [step, advance]
      split
      · exact ⟨[.reloadStarted], rfl⟩
      · exact ⟨[], rfl⟩
      · split
        · exact ⟨[_], rfl⟩
        · exact ⟨[], rfl⟩
      all_goals exact ⟨[], rfl⟩
  | receive =>
      simp only [step, receive]
      split
      · exact ⟨[], rfl⟩
      · split
        · exact ⟨[_], rfl⟩
        all_goals exact ⟨[], rfl⟩
  | timeOut =>
      simp only [step, timeOut]
      split
      · split <;> exact ⟨[], rfl⟩
      · exact ⟨[], rfl⟩
  | disconnect =>
      simp only [step, disconnect]
      split
      · split <;> exact ⟨[], rfl⟩
      · exact ⟨[], rfl⟩

theorem run_log (watch : Watch) (moves : List Move) :
    ∃ added, (watch.run moves).log = added ++ watch.log := by
  induction moves generalizing watch with
  | nil => exact ⟨[], rfl⟩
  | cons move moves ih =>
      obtain ⟨first, logged⟩ := watch.step_log move
      obtain ⟨rest, later⟩ := ih (watch.step move)
      refine ⟨rest ++ first, ?_⟩
      rw [List.append_assoc, ← logged]
      exact later

/-- What a step past the cap can do: wait on, take an event, or start the reload. -/
def StepsPastCap (first : Nat) (before after : Watch) : Prop :=
  (PastCap after first ∧ (after.log = before.log ∨ after.log = .sent :: before.log)) ∨
    after.log = .reloadStarted :: before.log

namespace PastCap

variable {watch : Watch} {first : Nat} (pastCap : PastCap watch first)

include pastCap

theorem stays : StepsPastCap first watch watch :=
  .inl ⟨pastCap, .inl rfl⟩

theorem moved {phase : Phase} {queue : Nat}
    (place : phase = .coalescing first ∨ phase = .due ∨ phase = .exited) :
    StepsPastCap first watch { watch with phase := phase, queue := queue } := by
  refine .inl ⟨⟨pastCap.1, ?_⟩, .inl rfl⟩
  rcases place with coalescing | due | exited
  · exact .inl (.inl coalescing)
  · exact .inr (.inl due)
  · exact .inr (.inr exited)

/-- The test of the inner loop fails. -/
theorem advance : StepsPastCap first watch watch.advance := by
  obtain ⟨late, (coalescing | ⟨deadline, receiving⟩) | due | exited⟩ := id pastCap
  · have exceeded : checkedSub maxCoalesce (watch.now - first) = none := if_neg (by omega)
    have leaves : watch.advance = { watch with phase := .due } := by
      simp [Watch.advance, coalescing, exceeded]
    rw [leaves]
    exact pastCap.moved (.inr (.inl rfl))
  · have same : watch.advance = watch := by simp [Watch.advance, receiving]
    rw [same]
    exact pastCap.stays
  · have starts : watch.advance.log = .reloadStarted :: watch.log := by
      simp [Watch.advance, due, record]
    exact .inr starts
  · have same : watch.advance = watch := by simp [Watch.advance, exited]
    rw [same]
    exact pastCap.stays

theorem receive : StepsPastCap first watch watch.receive := by
  unfold Watch.receive
  split
  · exact pastCap.stays
  · split
    · next waiting =>
      obtain ⟨-, (coalescing | ⟨deadline, receiving⟩) | due | exited⟩ := pastCap <;> simp_all
    · next other deadline receiving =>
      have same : other = first := by
        obtain ⟨-, (coalescing | ⟨deadline, receiving⟩) | due | exited⟩ := pastCap <;> simp_all
      rw [same]
      exact pastCap.moved (.inl rfl)
    · exact pastCap.stays

theorem timeOut : StepsPastCap first watch watch.timeOut := by
  unfold Watch.timeOut
  split
  · split
    · exact pastCap.moved (.inr (.inl rfl))
    · exact pastCap.stays
  · exact pastCap.stays

theorem disconnect : StepsPastCap first watch watch.disconnect := by
  unfold Watch.disconnect
  split
  · split
    · exact pastCap.moved (.inr (.inr rfl))
    · exact pastCap.moved (.inr (.inr rfl))
    · exact pastCap.stays
  · exact pastCap.stays

theorem step (move : Move) : StepsPastCap first watch (watch.step move) := by
  cases move with
  | tick nanos => exact .inl ⟨⟨Nat.lt_add_right nanos pastCap.1, pastCap.2⟩, .inl rfl⟩
  | event =>
      rw [Watch.step]
      split
      · exact .inl ⟨pastCap, .inr rfl⟩
      · exact pastCap.stays
  | drop => exact .inl ⟨pastCap, .inl rfl⟩
  | advance => exact pastCap.advance
  | receive => exact pastCap.receive
  | timeOut => exact pastCap.timeOut
  | disconnect => exact pastCap.disconnect

end PastCap

theorem PastCap.run {watch : Watch} {first : Nat} (pastCap : PastCap watch first)
    (moves : List Move) :
    ∃ added, (watch.run moves).log = added ++ watch.log ∧ UpToReload added := by
  induction moves generalizing watch with
  | nil => exact ⟨[], rfl, .inl (by simp)⟩
  | cons move moves ih =>
      cases pastCap.step move with
      | inl stays =>
          obtain ⟨pastCap, logged⟩ := stays
          obtain ⟨added, later, upTo⟩ := ih pastCap
          cases logged with
          | inl same => exact ⟨added, later.trans (by rw [same]), upTo⟩
          | inr sent => exact ⟨added ++ [.sent], later.trans (by rw [sent]; simp), upTo.afterEvent⟩
      | inr started =>
          obtain ⟨added, later⟩ := (watch.step move).run_log moves
          refine ⟨added ++ [.reloadStarted], later.trans (by rw [started]; simp), ?_⟩
          exact .inr ⟨added, [], rfl, by simp⟩

/-- Over every run of the watch thread. Blocked in the outer receive with an
empty channel, it has started a reload after every event. Every inner receive
starts, and its wait ends, within `maxCoalesce` of the event that woke the
thread; once more time has passed, whatever comes, no further receive starts
before the next reload. -/
theorem watch_loses_no_event (now : Nat) (moves : List Move) :
    ((run { now := now } moves).phase = .waiting → (run { now := now } moves).queue = 0 →
      AllHandled (run { now := now } moves).log) ∧
    Capped (run { now := now } moves).log ∧
    ∀ first more, (run { now := now } moves).InLoop first →
      first + maxCoalesce < (run { now := now } moves).now →
      ∃ added, (run { now := now } (moves ++ more)).log = added ++ (run { now := now } moves).log ∧
        UpToReload added := by
  have inv := (inv_start now).run moves
  refine ⟨fun waiting empty => ?_, inv.capped, fun first more inLoop late => ?_⟩
  · have bound := inv.queued (.inr waiting)
    rw [empty] at bound
    exact allHandled_of_unhandled (Nat.le_zero.mp bound)
  · have pastCap : PastCap (run { now := now } moves) first := ⟨late, .inl inLoop⟩
    obtain ⟨added, later, upTo⟩ := pastCap.run more
    refine ⟨added, ?_, upTo⟩
    rw [← later, run, run, run, List.foldl_append]

-- at the cap itself one more receive starts, with no time to wait; the event that comes then
-- stays in the channel, and the thread is not blocked when it waits again
example :
    let watch := run { now := 0 }
      [.advance, .advance, .event, .receive, .tick maxCoalesce, .advance, .event, .timeOut,
        .advance, .advance]
    watch.phase = .waiting ∧ watch.queue = 1 ∧
      Entry.receiveStarted maxCoalesce maxCoalesce ∈ watch.log := by decide

end Watch

end Ferryman.Server
