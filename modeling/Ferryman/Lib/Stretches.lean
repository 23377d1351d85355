import Mathlib.Data.List.Basic
import Mathlib.Order.MinMax

/-!
# Stretches of a history

A history of marks, the newest first, each with a time. A stretch is opened by
a mark when none is open, is not touched by further marks that open, and lasts
to the next mark that closes. A tracker with two registers, the start of the
open stretch plus one and the length of the longest closed one, knows whether
any stretch has reached a given length.
-/

set_option autoImplicit false

namespace Ferryman

inductive MarkKind where
  | opens
  | closes
deriving DecidableEq

structure Mark where
  time : Nat
  kind : MarkKind
deriving DecidableEq

namespace Stretch

/-- Every mark that opens is followed by one that closes. -/
def Settled (marks : List Mark) : Prop :=
  ∀ recent time earlier, marks = recent ++ ⟨time, .opens⟩ :: earlier →
    ∃ mark ∈ recent, mark.kind = .closes

/-- The stretch opened at `start` has not been closed. -/
def Running (marks : List Mark) (start : Nat) : Prop :=
  ∃ recent earlier, marks = recent ++ ⟨start, .opens⟩ :: earlier ∧ Settled earlier ∧
    ∀ mark ∈ recent, mark.kind = .opens

def Ended (marks : List Mark) (start stop : Nat) : Prop :=
  ∃ recent earlier, marks = recent ++ ⟨stop, .closes⟩ :: earlier ∧ Running earlier start

/-- Some stretch lasted at least that long, where an open one lasts to `now`. -/
def Lasted (marks : List Mark) (now length : Nat) : Prop :=
  (∃ start stop, Ended marks start stop ∧ length ≤ stop - start) ∨
    ∃ start, Running marks start ∧ length ≤ now - start

structure Tracker where
  since : Nat := 0
  longest : Nat := 0
deriving DecidableEq

def Tracker.mark (tracker : Tracker) (mark : Mark) : Tracker :=
  match mark.kind with
  | .opens =>
      { tracker with since := if tracker.since = 0 then mark.time + 1 else tracker.since }
  | .closes =>
      if tracker.since ≠ 0 then
        { since := 0, longest := max tracker.longest (mark.time + 1 - tracker.since) }
      else tracker

def Tracker.reached (tracker : Tracker) (now length : Nat) : Bool :=
  length ≤ tracker.longest || (tracker.since ≠ 0 && length ≤ now + 1 - tracker.since)

def track (marks : List Mark) : Tracker :=
  marks.foldr (fun mark tracker => tracker.mark mark) {}

/-! ## The registers -/

theorem track_opens (time : Nat) (marks : List Mark) :
    track (⟨time, .opens⟩ :: marks) =
      { track marks with
        since := if (track marks).since = 0 then time + 1 else (track marks).since } := rfl

theorem track_closes (time : Nat) (marks : List Mark) :
    (track (⟨time, .closes⟩ :: marks)).since = 0 ∧
      (track (⟨time, .closes⟩ :: marks)).longest =
        if (track marks).since = 0 then (track marks).longest
        else max (track marks).longest (time + 1 - (track marks).since) := by
  have unfolded : track (⟨time, .closes⟩ :: marks) = (track marks).mark ⟨time, .closes⟩ := rfl
  rw [unfolded, Tracker.mark]
  by_cases idle : (track marks).since = 0
  · simp [idle]
  · simp [idle]

theorem settled_iff {marks : List Mark} : Settled marks ↔ (track marks).since = 0 := by
  cases marks with
  | nil => exact ⟨fun _ => rfl, fun _ recent time earlier split => by simp at split⟩
  | cons mark marks =>
      obtain ⟨time, kind⟩ := mark
      cases kind with
      | opens =>
          constructor
          · intro settled
            obtain ⟨mark, member, -⟩ := settled [] time marks rfl
            cases member
          · intro idle
            rw [track_opens] at idle
            simp only at idle
            split at idle
            · cases idle
            · next busy => exact absurd idle busy
      | closes =>
          refine ⟨fun _ => (track_closes time marks).1, fun _ recent other earlier split => ?_⟩
          cases recent with
          | nil => simp at split
          | cons newest recent =>
              obtain ⟨rfl, -⟩ := List.cons.inj split
              exact ⟨_, List.mem_cons_self, rfl⟩

theorem running_cons_opens {time start : Nat} {marks : List Mark} :
    Running (⟨time, .opens⟩ :: marks) start ↔
      Running marks start ∨ (Settled marks ∧ start = time) := by
  constructor
  · intro running
    obtain ⟨recent, earlier, split, settled, allOpen⟩ := running
    cases recent with
    | nil =>
        obtain ⟨same, rfl⟩ := List.cons.inj split
        exact .inr ⟨settled, (congrArg Mark.time same).symm⟩
    | cons newest recent =>
        obtain ⟨-, rfl⟩ := List.cons.inj split
        exact .inl ⟨recent, earlier, rfl, settled, (List.forall_mem_cons.mp allOpen).2⟩
  · intro running
    cases running with
    | inl running =>
        obtain ⟨recent, earlier, rfl, settled, allOpen⟩ := running
        exact ⟨⟨time, .opens⟩ :: recent, earlier, rfl, settled,
          List.forall_mem_cons.mpr ⟨rfl, allOpen⟩⟩
    | inr opened =>
        obtain ⟨settled, rfl⟩ := opened
        exact ⟨[], marks, rfl, settled, by simp⟩

theorem not_running_cons_closes {time start : Nat} {marks : List Mark} :
    ¬Running (⟨time, .closes⟩ :: marks) start := by
  intro running
  obtain ⟨recent, earlier, split, -, allOpen⟩ := running
  cases recent with
  | nil => simp at split
  | cons newest recent =>
      obtain ⟨rfl, -⟩ := List.cons.inj split
      have opens := allOpen _ List.mem_cons_self
      cases opens

theorem running_iff {marks : List Mark} {start : Nat} :
    Running marks start ↔ (track marks).since = start + 1 := by
  induction marks with
  | nil => simp [Running, track]
  | cons mark marks ih =>
      obtain ⟨time, kind⟩ := mark
      cases kind with
      | opens =>
          rw [running_cons_opens, ih, settled_iff, track_opens]
          by_cases idle : (track marks).since = 0
          · simp [idle, eq_comm]
          · simp [idle]
      | closes =>
          have idle := (track_closes time marks).1
          refine ⟨fun running => absurd running not_running_cons_closes, fun busy => ?_⟩
          rw [idle] at busy
          cases busy

theorem ended_cons {mark : Mark} {marks : List Mark} {start stop : Nat} :
    Ended (mark :: marks) start stop ↔
      Ended marks start stop ∨ (mark = ⟨stop, .closes⟩ ∧ Running marks start) := by
  constructor
  · intro ended
    obtain ⟨recent, earlier, split, running⟩ := ended
    cases recent with
    | nil =>
        obtain ⟨same, rfl⟩ := List.cons.inj split
        exact .inr ⟨same, running⟩
    | cons newest recent =>
        obtain ⟨-, rfl⟩ := List.cons.inj split
        exact .inl ⟨recent, earlier, rfl, running⟩
  · intro ended
    cases ended with
    | inl ended =>
        obtain ⟨recent, earlier, rfl, running⟩ := ended
        exact ⟨mark :: recent, earlier, rfl, running⟩
    | inr ended =>
        obtain ⟨rfl, running⟩ := ended
        exact ⟨[], marks, rfl, running⟩

theorem longest_iff {marks : List Mark} {length : Nat} (positive : 1 ≤ length) :
    length ≤ (track marks).longest ↔
      ∃ start stop, Ended marks start stop ∧ length ≤ stop - start := by
  induction marks with
  | nil =>
      refine ⟨fun below => absurd (Nat.le_trans positive below) (by decide), fun found => ?_⟩
      obtain ⟨start, stop, ⟨recent, earlier, split, -⟩, -⟩ := found
      simp at split
  | cons mark marks ih =>
      obtain ⟨time, kind⟩ := mark
      simp only [ended_cons]
      cases kind with
      | opens =>
          rw [track_opens, ih]
          simp
      | closes =>
          rw [(track_closes time marks).2]
          constructor
          · intro reached
            split at reached
            · obtain ⟨start, stop, ended, long⟩ := ih.mp reached
              exact ⟨start, stop, .inl ended, long⟩
            · next busy =>
              cases le_max_iff.mp reached with
              | inl old =>
                  obtain ⟨start, stop, ended, long⟩ := ih.mp old
                  exact ⟨start, stop, .inl ended, long⟩
              | inr new =>
                  obtain ⟨start, opened⟩ := Nat.exists_eq_succ_of_ne_zero busy
                  refine ⟨start, time, .inr ⟨rfl, running_iff.mpr opened⟩, ?_⟩
                  omega
          · intro found
            obtain ⟨start, stop, ended, long⟩ := found
            cases ended with
            | inl older =>
                have old := ih.mpr ⟨start, stop, older, long⟩
                split
                · exact old
                · exact Nat.le_trans old (Nat.le_max_left _ _)
            | inr newest =>
                obtain ⟨same, running⟩ := newest
                obtain rfl : time = stop := congrArg Mark.time same
                have opened := running_iff.mp running
                rw [if_neg (by omega), opened]
                exact Nat.le_trans (by omega) (Nat.le_max_right _ _)

/-- The tracker tells exactly whether some stretch lasted that long. -/
theorem reached_iff {marks : List Mark} {now length : Nat} (positive : 1 ≤ length) :
    (track marks).reached now length = true ↔ Lasted marks now length := by
  simp only [Tracker.reached, Bool.or_eq_true, Bool.and_eq_true, decide_eq_true_eq, Lasted,
    longest_iff positive]
  refine or_congr Iff.rfl ?_
  constructor
  · intro current
    obtain ⟨busy, long⟩ := current
    obtain ⟨start, opened⟩ := Nat.exists_eq_succ_of_ne_zero busy
    exact ⟨start, running_iff.mpr opened, by omega⟩
  · intro found
    obtain ⟨start, running, long⟩ := found
    have opened := running_iff.mp running
    exact ⟨by omega, by omega⟩

theorem reached_later {tracker : Tracker} {now later length : Nat}
    (reached : tracker.reached now length = true) (after : now ≤ later) :
    tracker.reached later length = true := by
  simp only [Tracker.reached, Bool.or_eq_true, Bool.and_eq_true, decide_eq_true_eq] at reached ⊢
  cases reached with
  | inl old => exact .inl old
  | inr running => exact .inr ⟨running.1, by omega⟩

theorem reached_mark {tracker : Tracker} {now length : Nat} {mark : Mark}
    (reached : tracker.reached now length = true) (ordered : now ≤ mark.time) :
    (tracker.mark mark).reached now length = true := by
  obtain ⟨time, kind⟩ := mark
  simp only [Tracker.reached, Bool.or_eq_true, Bool.and_eq_true, decide_eq_true_eq] at reached ⊢
  cases kind with
  | opens =>
      simp only [Tracker.mark]
      cases reached with
      | inl old => exact .inl old
      | inr running =>
          rw [if_neg running.1]
          exact .inr running
  | closes =>
      simp only [Tracker.mark]
      cases reached with
      | inl old =>
          split
          · exact .inl (Nat.le_trans old (Nat.le_max_left _ _))
          · exact .inl old
      | inr running =>
          rw [if_pos running.1]
          simp only at ordered
          exact .inl (Nat.le_trans (by omega) (Nat.le_max_right _ _))

/-- A length once reached stays reached, whatever is marked from then on. -/
theorem reached_marks {tracker : Tracker} {now length : Nat} {marks : List Mark}
    (reached : tracker.reached now length = true) (ordered : ∀ mark ∈ marks, now ≤ mark.time) :
    (marks.foldr (fun mark tracker => tracker.mark mark) tracker).reached now length = true := by
  induction marks with
  | nil => exact reached
  | cons mark marks ih =>
      obtain ⟨newest, others⟩ := List.forall_mem_cons.mp ordered
      exact reached_mark (ih others) newest

end Stretch

end Ferryman
