import Ferryman.Server.ServeTimes

/-!
# Connections without a request

The deadline of the first request ends connections that have had none, and no
others. When every task is run within a slack after what it waits for, such a
connection is gone soon after its grace.
-/

set_option autoImplicit false

namespace Ferryman.Server

open Ferryman.Core

namespace ConnectionTask

def serves (task : ConnectionTask) : Bool :=
  match task.stage with
  | .serving _ _ _ => true
  | .handshake _ | .ended => false

/-- How long a connection may stay without a request: one timeout for it, and one more
with its lateness for the handshake. -/
def grace (tls : Bool) (slack : Nat) : Nat :=
  handshakeTimeout.nanos + if tls then handshakeTimeout.nanos + slack else 0

/-- The flag of a task says whether it has had a request, and so does a deadline that
passed. -/
def Told (requested : Prop) (task : ConnectionTask) : Prop :=
  match task.stage with
  | .handshake _ => ¬requested
  | .serving deadline seen _ => (seen = true ↔ requested) ∧ (deadline = none → requested)
  | .ended => True

/-- The deadlines of a task. -/
def Punctual (tls : Bool) (slack : Nat) (task : ConnectionTask) : Prop :=
  match task.stage with
  | .handshake deadline => tls = true ∧ deadline ≤ task.accepted + handshakeTimeout.nanos
  | .serving deadline _ _ => ∀ time, deadline = some time → time ≤ task.accepted + grace tls slack
  | .ended => True

variable {tls : Bool} {slack now : Nat} {task : ConnectionTask} {requested : Prop}

theorem told_new (unrequested : ¬requested) : Told requested (new tls now) := by
  cases tls with
  | true => exact unrequested
  | false => exact ⟨iff_of_false nofun unrequested, nofun⟩

theorem punctual_new : Punctual tls slack (new tls now) := by
  cases tls with
  | true => exact ⟨rfl, Nat.le_refl _⟩
  | false => simp [Punctual, new, ConnectionTask.serveConnection, grace]

theorem Told.step (told : Told requested task) (move : Move) :
    Told (requested ∨ (move = .request ∧ task.serves = true)) (task.step now move) := by
  have kept : move ≠ .request →
      Told (requested ∨ (move = .request ∧ task.serves = true)) task := by
    intro other
    simpa [other] using told
  unfold ConnectionTask.step
  split
  · next waits =>
    simp only [Told, waits] at told
    exact ⟨by simp [told], by simp⟩
  · trivial
  · split
    · trivial
    · exact kept (by simp)
  · next serves => simp [Told, setStage, ConnectionTask.serves, serves]
  · next serves =>
    simp only [Told, serves] at told
    simpa [Told, setStage] using told
  · trivial
  · next seen inFlight serves =>
    simp only [Told, serves] at told
    split
    · cases seen with
      | false => trivial
      | true => exact ⟨iff_of_true rfl (.inl (told.1.mp rfl)), fun _ => .inl (told.1.mp rfl)⟩
    · exact kept (by simp)
  · next requests _ _ _ =>
    -- a request reaches only a connection that is served
    refine Decidable.byCases (fun asks => ?_) kept
    cases stage : task.stage with
    | handshake deadline => simpa [Told, stage, ConnectionTask.serves] using told
    | serving deadline seen inFlight => exact (requests _ _ _ stage asks).elim
    | ended => simp [Told, stage]

theorem Punctual.step (punctual : Punctual tls slack task)
    (onTime : ∀ due, task.dueAt .handshakeTimeout = some due → now ≤ due + slack) (move : Move) :
    Punctual tls slack (task.step now move) := by
  unfold ConnectionTask.step
  split
  · next deadline waits =>
    have late := onTime deadline (by simp only [dueAt, waits])
    simp only [Punctual, waits] at punctual
    obtain ⟨secured, early⟩ := punctual
    intro time same
    cases same
    simp only [grace, secured, if_true, ConnectionTask.serveConnection]
    omega
  · trivial
  · split
    · trivial
    · exact punctual
  · next serves =>
    simp only [Punctual, serves] at punctual
    exact punctual
  · next serves =>
    simp only [Punctual, serves] at punctual
    exact punctual
  · trivial
  · next seen inFlight serves =>
    split
    · cases seen with
      | false => trivial
      | true => simp [Punctual, setStage]
    · exact punctual
  · exact punctual

/-- The deadline of the first request ends only a connection that never had one. -/
theorem Told.unrequested (told : Told requested task) (live : task.stage ≠ .ended)
    (ends : (task.step now .firstRequestDeadline).stage = .ended) : ¬requested := by
  cases stage : task.stage with
  | handshake deadline => simp [ConnectionTask.step, stage] at ends
  | serving deadline seen inFlight =>
      simp only [Told, stage] at told
      rw [← told.1]
      rintro rfl
      cases deadline with
      | none => simp [ConnectionTask.step, stage] at ends
      | some time =>
          simp only [ConnectionTask.step, stage, setStage, if_true] at ends
          split at ends
          · cases ends
          · exact live ends
  | ended => exact absurd stage live

/-- A task whose sleeps end in time has had a request, or ended, by the end of its grace. -/
theorem Punctual.now_le (punctual : Punctual tls slack task) (told : Told requested task)
    (live : task.stage ≠ .ended) (unrequested : ¬requested)
    (onTime : ∀ move due, task.dueAt move = some due → now ≤ due + slack) :
    now ≤ task.accepted + grace tls slack + slack := by
  cases stage : task.stage with
  | handshake deadline =>
      have late := onTime .handshakeTimeout deadline (by simp only [dueAt, stage])
      simp only [Punctual, stage] at punctual
      simp only [grace, punctual.1, if_true]
      omega
  | serving deadline seen inFlight =>
      simp only [Punctual, stage] at punctual
      simp only [Told, stage] at told
      cases deadline with
      | none => exact absurd (told.2 rfl) unrequested
      | some time =>
          have late := onTime .firstRequestDeadline time (by simp only [dueAt, stage])
          have early := punctual time rfl
          omega
  | ended => exact absurd stage live

end ConnectionTask

namespace Process

/-! ## What one move does to the connections -/

inductive Connects (process : Process) : Move → List ConnectionTask → Prop where
  | same {move : Move} : (∀ index inner, move ≠ .connection index inner) →
      Connects process move process.connections
  | accepted : Connects process (.accept true)
      (process.connections ++ [ConnectionTask.new process.tls process.now])
  | moved (index : Nat) (inner : ConnectionTask.Move) :
      Connects process (.connection index inner)
        (process.connections.modify index fun task => task.step process.now inner)

theorem connects (process : Process) (move : Move) :
    Connects process move (process.moved move).connections ∧
      (process.moved move).tls = process.tls := by
  have same : ∀ {next : Process} {move : Move}, next.connections = process.connections →
      next.tls = process.tls → (∀ index inner, move ≠ .connection index inner) →
      Connects process move next.connections ∧ next.tls = process.tls := by
    intro next move connections tls other
    exact ⟨connections ▸ .same other, tls⟩
  cases move with
  | tick | reload | admin => exact same rfl rfl nofun
  | signal =>
      change Connects process .signal process.signal.connections ∧ process.signal.tls = process.tls
      unfold Process.signal
      split
      · exact same rfl rfl nofun
      · exact same rfl rfl nofun
      · split <;> exact same rfl rfl nofun
  | pollShutdown =>
      change Connects process .pollShutdown process.pollShutdown.connections ∧
        process.pollShutdown.tls = process.tls
      unfold Process.pollShutdown
      split
      · exact same rfl rfl nofun
      · dsimp only
        split <;> exact same rfl rfl nofun
      · split <;> exact same rfl rfl nofun
      · exact same rfl rfl nofun
  | pollSecond =>
      change Connects process .pollSecond process.pollSecond.connections ∧
        process.pollSecond.tls = process.tls
      unfold Process.pollSecond
      split <;> exact same rfl rfl nofun
  | accept succeeds =>
      change Connects process (.accept succeeds) (process.accept succeeds).connections ∧
        (process.accept succeeds).tls = process.tls
      unfold Process.accept
      split
      · cases succeeds with
        | true => exact ⟨.accepted, rfl⟩
        | false => exact same rfl rfl nofun
      · exact same rfl rfl nofun
  | backoffOver =>
      change Connects process .backoffOver process.backoffOver.connections ∧
        process.backoffOver.tls = process.tls
      unfold Process.backoffOver
      split
      · split <;> exact same rfl rfl nofun
      · exact same rfl rfl nofun
  | finishDrain =>
      change Connects process .finishDrain process.finishDrain.connections ∧
        process.finishDrain.tls = process.tls
      unfold Process.finishDrain
      split
      · split <;> exact same rfl rfl nofun
      · exact same rfl rfl nofun
  | connection index inner => exact ⟨.moved index inner, rfl⟩

/-! ## Requests on a connection -/

/-- The client sent a request on a connection that was served. -/
def Requested (history : List Moment) (index : Nat) : Prop :=
  ∃ moment ∈ history, moment.before.isExited = false ∧ moment.input = .connection index .request ∧
    ∃ task ∈ moment.before.connections[index]?, task.serves = true

section Requests

variable {history : List Moment} {moment : Moment} {index : Nat}

theorem requested_append :
    Requested (history ++ [moment]) index ↔ Requested history index ∨
      (moment.before.isExited = false ∧ moment.input = .connection index .request ∧
        ∃ task ∈ moment.before.connections[index]?, task.serves = true) := by
  simp only [Requested, List.mem_append, List.mem_singleton, or_and_right, exists_or,
    exists_eq_left]

theorem requested_append_of_ne (other : moment.input ≠ .connection index .request) :
    Requested (history ++ [moment]) index ↔ Requested history index := by
  simp [requested_append, other]

/-- The flags of all tasks are true to the history, and no connection has had a request
before its accept. -/
structure Tells (history : List Moment) (process : Process) : Prop where
  told : ∀ (index : Nat) (task : ConnectionTask), process.connections[index]? = some task →
    task.Told (Requested history index)
  unaccepted : ∀ index, process.connections.length ≤ index → ¬Requested history index

theorem Tells.told_step {process : Process} (tells : Tells history process) (move : Move)
    (runs : process.isExited = false) (index : Nat) (task : ConnectionTask)
    (found : (process.moved move).connections[index]? = some task) :
    task.Told (Requested (history ++ [Step.take Process.step process move]) index) := by
  have changed := (connects process move).1
  generalize (process.moved move).connections = after at changed found
  cases changed with
  | @same move other =>
      rw [requested_append_of_ne (other index _)]
      exact tells.told index task found
  | accepted =>
      rw [requested_append_of_ne fun same => by cases same]
      cases Nat.lt_or_ge index process.connections.length with
      | inl earlier =>
          rw [List.getElem?_append_left earlier] at found
          exact tells.told index task found
      | inr beyond =>
          rw [List.getElem?_append_right beyond] at found
          have isNew := List.mem_singleton.mp (List.mem_of_getElem? found)
          subst isNew
          exact ConnectionTask.told_new (tells.unaccepted index beyond)
  | moved moving inner =>
      rw [List.getElem?_modify] at found
      obtain ⟨old, isOld, rfl⟩ := Option.map_eq_some_iff.mp found
      have told := tells.told index old isOld
      split
      · next here =>
        subst here
        have stepped : ConnectionTask.Told _ (old.step process.now inner) := told.step inner
        have same : Requested (history ++ [Step.take Process.step process
            (.connection moving inner)]) moving ↔
            Requested history moving ∨ (inner = .request ∧ old.serves = true) := by
          simp [requested_append, Step.take, runs, isOld]
        rw [same]
        exact stepped
      · next elsewhere =>
        rw [requested_append_of_ne fun same => elsewhere (by cases same; rfl)]
        exact told

/-- Connections are numbered as they come. -/
theorem moved_unaccepted {process : Process} {move : Move} {index : Nat}
    (beyond : (process.moved move).connections.length ≤ index) :
    process.connections.length ≤ index := by
  have changed := (connects process move).1
  generalize (process.moved move).connections = after at changed beyond
  cases changed with
  | same => exact beyond
  | accepted =>
      rw [List.length_append] at beyond
      exact (Nat.le_add_right _ _).trans beyond
  | moved => rwa [List.length_modify] at beyond

theorem Tells.step {process : Process} (tells : Tells history process) (move : Move) :
    Tells (history ++ [Step.take Process.step process move]) (process.step move).2 := by
  cases exited : process.isExited with
  | true =>
      have unchanged : (process.step move).2 = process := by simp [Process.step, exited]
      have same : ∀ index, Requested (history ++ [Step.take Process.step process move]) index ↔
          Requested history index := by
        intro index
        simp [requested_append, Step.take, exited]
      rw [unchanged]
      constructor
      · intro index task found
        rw [same]
        exact tells.told index task found
      · exact fun index beyond => (same index).not.mpr (tells.unaccepted index beyond)
  | false =>
      have isAfter : (process.step move).2.connections = (process.moved move).connections := by
        simp [Process.step, exited]
      constructor
      · rw [isAfter]
        exact tells.told_step move exited
      · intro index beyond requested
        rw [isAfter] at beyond
        have outside := moved_unaccepted beyond
        cases requested_append.mp requested with
        | inl earlier => exact tells.unaccepted index outside earlier
        | inr now =>
            obtain ⟨-, -, task, found, -⟩ := now
            have inside := (List.getElem?_eq_some_iff.mp found).1
            exact absurd inside (Nat.not_lt.mpr outside)

theorem tells_reach (table : RouteTable) (tls : Bool) (now : Nat) (moves : List Move) :
    Tells (trace Process.step (start table tls now) moves)
      (reach Process.step (start table tls now) moves) := by
  have begins : Tells [] (start table tls now) := by
    constructor
    · intro index task found
      cases found
    · intro index _ requested
      obtain ⟨moment, member, -⟩ := requested
      cases member
  exact trace_induction begins fun history process move _ tells => tells.step move

end Requests

/-! ## Deadlines of all connections -/

def Attends (slack : Nat) (process : Process) : Prop :=
  ∀ task ∈ process.connections, task.Punctual process.tls slack

section Deadlines

variable {slack : Nat} {process first : Process}

theorem Attends.step (attends : Attends slack process) (timely : Timely slack process)
    (move : Move) : Attends slack (process.step move).2 := by
  cases exited : process.isExited with
  | true => simpa [Process.step, exited] using attends
  | false =>
      obtain ⟨changed, sameTls⟩ := connects process move
      have isAfter : (process.step move).2 = process.moved move := by simp [Process.step, exited]
      rw [isAfter, Attends, sameTls]
      generalize (process.moved move).connections = after at changed
      intro task member
      cases changed with
      | same => exact attends task member
      | accepted =>
          cases List.mem_append.mp member with
          | inl old => exact attends task old
          | inr new =>
              rw [List.mem_singleton.mp new]
              exact ConnectionTask.punctual_new
      | moved index inner =>
          obtain ⟨place, found⟩ := List.mem_iff_getElem?.mp member
          rw [List.getElem?_modify] at found
          obtain ⟨old, isOld, rfl⟩ := Option.map_eq_some_iff.mp found
          have punctual := attends old (List.mem_of_getElem? isOld)
          split
          · refine punctual.step (fun due sleeps => ?_) inner
            exact timely _ _ (dueAt_connection exited isOld sleeps)
          · exact punctual

theorem Attends.reach {moves : List Move} (attends : Attends slack first)
    (timely : ∀ front, front <+: moves → Timely slack (reach Process.step first front)) :
    Attends slack (reach Process.step first moves) := by
  induction moves generalizing first with
  | nil => exact attends
  | cons move moves ih =>
      refine ih (attends.step (timely [] (List.nil_prefix)) move) fun front isPrefix => ?_
      exact timely (move :: front) (List.cons_prefix_cons.mpr ⟨rfl, isPrefix⟩)

theorem tls_step (process : Process) (move : Move) : (process.step move).2.tls = process.tls := by
  unfold Process.step
  split
  · rfl
  · exact (connects process move).2

theorem tls_reach (process : Process) (moves : List Move) :
    (Ferryman.reach Process.step process moves).tls = process.tls := by
  induction moves generalizing process with
  | nil => rfl
  | cons move moves ih => exact (ih _).trans (tls_step process move)

/-- When every task is run within the slack after what it waits for, no connection stays
without a request for longer than its grace. The deadline of the first request ends no
connection that has had one. -/
theorem silent_connections_close {table : RouteTable} {tls : Bool} {now index : Nat}
    {moves : List Move} {task : ConnectionTask}
    (isProcess : process = reach Process.step (start table tls now) moves)
    (runs : process.isExited = false) (found : process.connections[index]? = some task)
    (live : task.stage ≠ .ended) :
    (∀ slack, (∀ front, front <+: moves → Prompt slack (start table tls now) front) →
      ¬Requested (trace Process.step (start table tls now) moves) index →
        process.now ≤ task.accepted + ConnectionTask.grace tls slack + slack) ∧
    ((task.step process.now .firstRequestDeadline).stage = .ended →
      ¬Requested (trace Process.step (start table tls now) moves) index) := by
  subst isProcess
  have told := (tells_reach table tls now moves).told index task found
  refine ⟨fun slack prompt unrequested => ?_, told.unrequested live⟩
  have timely := fun front isPrefix => (prompt front isPrefix).timely
  have empty : Attends slack (start table tls now) := fun _ member => by cases member
  have punctual := (empty.reach timely) task (List.mem_of_getElem? found)
  rw [tls_reach] at punctual
  refine punctual.now_le told live unrequested fun inner due sleeps => ?_
  exact timely moves List.prefix_rfl _ _ (dueAt_connection runs found sleeps)

end Deadlines

/-! ## A client that says nothing -/

/-- Its deadline has passed a millisecond ago. -/
def silentMoves : List Move := [.accept true, .tick (10 ^ 10 + 10 ^ 6)]

def silent : Process := reach Process.step (start patientTable false 0) silentMoves

theorem silent_client_closes :
    ∃ task ∈ silent.connections[0]?, task.stage ≠ .ended ∧
      (task.step silent.now .firstRequestDeadline).stage = .ended ∧
      ¬Requested (trace Process.step (start patientTable false 0) silentMoves) 0 ∧
      silent.now ≤ task.accepted + ConnectionTask.grace false (10 ^ 6) + 10 ^ 6 := by
  obtain ⟨task, found, live, ends⟩ : ∃ task ∈ silent.connections[0]?, task.stage ≠ .ended ∧
      (task.step silent.now .firstRequestDeadline).stage = .ended := by decide +kernel
  have timely : ∀ front ∈ silentMoves.inits,
      Timely (10 ^ 6) (reach Process.step (start patientTable false 0) front) := by decide +kernel
  obtain ⟨bounded, unrequested⟩ := silent_connections_close (rfl : silent = _)
    (by decide +kernel) found live
  refine ⟨task, found, live, ends, unrequested ends, ?_⟩
  refine bounded (10 ^ 6) (fun front isPrefix => ?_) (unrequested ends)
  exact (timely front ((List.mem_inits _ _).mpr isPrefix)).prompt

end Process

end Ferryman.Server
