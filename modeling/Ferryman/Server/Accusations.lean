import Ferryman.Server.System

/-!
# Why a request reports a failure

A request reports a failure as the last thing it does, after a wait that ended to
the discredit of the upstream.
-/

set_option autoImplicit false

namespace Ferryman.Server

open Ferryman.Core Byte Bytes Program

/-! ## What a request still does -/

/-- Whatever the program does next continues the events of the request. -/
def RequestTask.Continues (http : Http) (task : RequestTask) (program : Program Effect Response) :
    Prop :=
  ∀ later ended, Path observer program later ended →
    Path observer (handleInner http task.wrap task.connection task.table task.req task.words)
      (task.events ++ later) ended

theorem exists_path (program : Program Effect Response) :
    ∃ later ended, Path observer program later ended := by
  induction program with
  | done result => exact ⟨[], _, .finished⟩
  | @perform γ effect next ih =>
      have answers : ∀ _ : γ, ∃ later ended, Path observer (perform effect next) later ended := by
        intro answer
        obtain ⟨later, ended, path⟩ := ih answer
        exact ⟨_, _, .answered answer path⟩
      cases effect with
      | tryAcquire => exact answers none
      | recordSuccess | recordFailure | release => exact answers ()
      | select => exact answers .timedOut
      | bodyState => exact answers ⟨0, 0, 0⟩

theorem isEndStream_identify (table : RouteTable) (req : Request) (words : UInt64 × UInt64) :
    (identify table req words).2.isEndStream = req.isEndStream := by
  unfold identify
  split <;> rfl

/-- The only entry of a kind, when it comes last, splits a list in one way. -/
theorem split_at_last {α : Type} {kind : α → Prop} {entries front back : List α} {last found : α}
    (others : ∀ entry ∈ entries, ¬kind entry) (isKind : kind found)
    (split : entries ++ [last] = front ++ found :: back) :
    front = entries ∧ found = last ∧ back = [] := by
  induction entries generalizing front with
  | nil =>
      cases front with
      | nil =>
          obtain ⟨rfl, rfl⟩ := List.cons.inj split
          exact ⟨rfl, rfl, rfl⟩
      | cons entry front => simp at split
  | cons entry entries ih =>
      cases front with
      | nil =>
          obtain ⟨rfl, -⟩ := List.cons.inj split
          exact absurd isKind (others _ List.mem_cons_self)
      | cons first front =>
          obtain ⟨rfl, rest⟩ := List.cons.inj split
          obtain ⟨rfl, rfl, rfl⟩ := ih (fun other member =>
            others other (List.mem_cons_of_mem _ member)) rest
          exact ⟨rfl, rfl, rfl⟩

def Event.IsFailure (event : Event) : Prop := ∃ upstream admission, event = .recordFailure upstream admission

/-- The events before a report of failure, and why it is made. -/
def Accusing (countsTimeout : Bool) (theta : Duration) (upstream : Upstream) (front : List Event) :
    Prop :=
  ∃ admission sent ending later,
    front = .tryAcquire upstream (some admission) :: .select sent ending :: later ∧
      ending.accuses countsTimeout = true ∧ later.any (Event.isStalled theta) = false ∧
      ∀ event ∈ later, ¬event.IsFailure

section Failures

variable {http : Http} {wrap : Wrap} {connection : Connection} {table : RouteTable} {req : Request}
  {upstream other : Upstream} {admission ticket : Admission}

theorem not_isFailure_bodyState (state : BodyState) : ¬(Event.bodyState state).IsFailure := by
  intro failure
  obtain ⟨upstream, admission, same⟩ := failure
  cases same

theorem Verdict.failure {later front back : List Event}
    (verdict : Verdict wrap table upstream admission later)
    (split : later = front ++ .recordFailure other ticket :: back) :
    back = [] ∧ other = upstream ∧ front.any (Event.isStalled (stallThreshold table)) = false ∧
      ∀ event ∈ front, ¬event.IsFailure := by
  cases verdict with
  | untracked =>
      obtain ⟨rfl, same, rfl⟩ := @split_at_last Event Event.IsFailure [] front back _ _ (by simp)
        ⟨other, ticket, rfl⟩ split
      cases same
      exact ⟨rfl, rfl, rfl, by simp⟩
  | @blamed state _ notStalled =>
      obtain ⟨rfl, same, rfl⟩ := @split_at_last Event Event.IsFailure [.bodyState state] front back
        _ _ (by simp [not_isFailure_bodyState]) ⟨other, ticket, rfl⟩ split
      cases same
      exact ⟨rfl, rfl, by simp [Event.isStalled, notStalled], by simp [not_isFailure_bodyState]⟩
  | spared =>
      have member : Event.recordFailure other ticket ∈
          front ++ .recordFailure other ticket :: back := by simp
      simp [← split] at member

theorem Conclusion.failure {countsTimeout : Bool} {ending : Ending} {later front back : List Event}
    {response : Response}
    (conclusion : Conclusion wrap table upstream admission countsTimeout ending later response)
    (split : later = front ++ .recordFailure other ticket :: back) :
    back = [] ∧ other = upstream ∧ ending.accuses countsTimeout = true ∧
      front.any (Event.isStalled (stallThreshold table)) = false ∧
      ∀ event ∈ front, ¬event.IsFailure := by
  have member : Event.recordFailure other ticket ∈ later := by simp [split]
  cases conclusion with
  | timedOut =>
      cases countsTimeout with
      | false => simp at member
      | true =>
          obtain ⟨rfl, same, rfl⟩ := @split_at_last Event Event.IsFailure [] front back _ _ (by simp)
            ⟨other, ticket, rfl⟩ split
          cases same
          exact ⟨rfl, rfl, rfl, rfl, by simp⟩
  | bodyTimeout | bodyError | passed => simp at member
  | failed notIdle notClient verdict =>
      obtain ⟨isLast, same, notStalled, others⟩ := verdict.failure split
      exact ⟨isLast, same, by simp [Ending.accuses, notIdle, notClient], notStalled, others⟩
  | gateway inRange verdict =>
      obtain ⟨isLast, same, notStalled, others⟩ := verdict.failure split
      exact ⟨isLast, same, by simpa [Ending.accuses] using inRange, notStalled, others⟩

/-- A failure is the last thing that a run reports, and the wait before it accuses. -/
theorem HandlerRun.failure {events front back : List Event} {ended : Option Response}
    (run : HandlerRun http wrap connection table req events ended)
    (split : events = front ++ .recordFailure upstream admission :: back) :
    back = [] ∧ Accusing (req.countsTimeout wrap) (stallThreshold table) upstream front := by
  have member : Event.recordFailure upstream admission ∈ events := by simp [split]
  cases run with
  | turnedAway | unavailable | unbuilt | hungUp => simp at member
  | @answered selected uri ticket ending later response _ _ conclusion =>
      cases front with
      | nil => cases split
      | cons first front =>
          obtain ⟨rfl, rest⟩ := List.cons.inj split
          cases front with
          | nil => cases rest
          | cons second front =>
              obtain ⟨rfl, tail⟩ := List.cons.inj rest
              obtain ⟨isLast, rfl, accuses, notStalled, others⟩ := conclusion.failure tail
              exact ⟨isLast, ticket, _, ending, front, rfl, accuses, notStalled, others⟩

end Failures

/-! ## Requests under way -/

section Requests

variable {http : Http} {task : RequestTask} {program : Program Effect Response}

theorem RequestTask.Continues.run (continues : task.Continues http program) {later : List Event}
    {ended : Option Response} (path : Path observer program later ended) :
    ∃ inner, HandlerRun http task.wrap task.connection task.table
      (identify task.table task.req task.words).2 (task.events ++ later) inner ∧
        ended = inner.map (echo (identify task.table task.req task.words).1) :=
  handleInner_path_iff.mp (continues later ended path)

theorem countsTimeout_identify (table : RouteTable) (req : Request) (words : UInt64 × UInt64)
    (wrap : Wrap) :
    (identify table req words).2.countsTimeout wrap = req.countsTimeout wrap := by
  rw [Request.countsTimeout, isEndStream_identify, Request.countsTimeout]

/-- A request that is about to report a failure accuses the upstream. -/
theorem RequestTask.Continues.accusing {upstream : Upstream} {admission : Admission}
    {next : Unit → Program Effect Response}
    (continues : task.Continues http (perform (.recordFailure upstream admission) next)) :
    Accusing (task.req.countsTimeout task.wrap) (stallThreshold task.table) upstream task.events := by
  obtain ⟨later, ended, path⟩ := exists_path (next ())
  obtain ⟨inner, run, -⟩ := continues.run (.answered () path)
  rw [← countsTimeout_identify task.table task.req task.words task.wrap]
  exact (run.failure rfl).2

/-- Nothing follows the report of a failure. -/
theorem RequestTask.Continues.done_of_failure {upstream : Upstream} {admission : Admission}
    {front : List Event} (continues : task.Continues http program)
    (reported : task.events = front ++ [.recordFailure upstream admission]) :
    ∃ response, program = done response := by
  obtain ⟨later, ended, path⟩ := exists_path program
  obtain ⟨inner, run, -⟩ := continues.run path
  rw [reported, List.append_assoc] at run
  obtain ⟨rfl, -⟩ := run.failure rfl
  cases program with
  | done response => exact ⟨response, rfl⟩
  | perform effect next => cases path

end Requests

end Ferryman.Server
