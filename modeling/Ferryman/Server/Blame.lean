import Ferryman.Server.StallMemory
import Ferryman.Server.Tickets

/-!
# When the upstream is blamed

A failure is recorded on the upstream's breaker only for a reason that the client
did not give, unless a read of the upload's flags goes wrong.
-/

set_option autoImplicit false

namespace Ferryman.Server

open Ferryman.Core Byte Bytes Program

/-! ## Verdicts of the handler -/

/-- A request that failed, or was answered, in a way that speaks against the upstream. -/
def Ending.Suspicious : Ending → Prop
  | .timedOut => False
  | .failed sources => isBodyIdleTimeout sources = false ∧ isClientBodyError sources = false
  | .responded status _ => 502 ≤ status ∧ status ≤ 504

/-- The request failed by the client's fault. -/
def Ending.ClientFault : Ending → Prop
  | .failed sources => isBodyIdleTimeout sources = true ∨ isClientBodyError sources = true
  | _ => False

inductive Concludes (table : RouteTable) (upstream : Upstream) (admission : Admission) :
    Ending → List Event → Prop where
  | timedOut : Concludes table upstream admission .timedOut [.recordFailure upstream admission]
  | clientFault {ending : Ending} : ending.ClientFault →
      Concludes table upstream admission ending [.release upstream admission]
  | blamed {ending : Ending} {state : BodyState} : ending.Suspicious →
      state.clientStalled (stallThreshold table) = false →
      Concludes table upstream admission ending
        [.bodyState state, .recordFailure upstream admission]
  | spared {ending : Ending} {state : BodyState} : ending.Suspicious →
      state.clientStalled (stallThreshold table) = true →
      Concludes table upstream admission ending [.bodyState state, .release upstream admission]
  | succeeded {status : Nat} {headers : HeaderMap} : ¬ (502 ≤ status ∧ status ≤ 504) →
      Concludes table upstream admission (.responded status headers)
        [.recordSuccess upstream admission]

section Paths

variable {http : Http} {connection : Connection} {table : RouteTable} {req : Request}
  {upstream : Upstream} {admission : Admission} {events : List Event}

theorem answered_path {α : Type} {effect : Effect α} {rest : α → Program Effect Response}
    {ended : Option Response} (path : Path observer (perform effect rest) events ended)
    (silent : effect.drop = none) :
    ∃ answer later, events = effect.event answer :: later ∧
      Path observer (rest answer) later ended := by
  cases path_perform.mp path with
  | inl waiting =>
      obtain ⟨event, waits, -⟩ := waiting
      exact absurd (silent.symm.trans waits) (by simp)
  | inr answered => exact answered

theorem settled_path {effect : Effect Unit} {response : Response} {ended : Option Response}
    (path : Path observer (perform effect fun _ => done response) events ended)
    (silent : effect.drop = none) : events = [effect.event ()] := by
  obtain ⟨answer, later, rfl, rest⟩ := answered_path path silent
  obtain ⟨rfl, -⟩ := path_done.mp rest
  rfl

theorem blameUpstream_eq (response : Response) :
    (blameUpstream .streaming table upstream admission >>= fun _ => done response) =
      perform .bodyState fun state =>
        if state.clientStalled (stallThreshold table) then
          perform (.release upstream admission) fun _ => done response
        else perform (.recordFailure upstream admission) fun _ => done response := by
  refine congrArg (perform Effect.bodyState) (funext fun state => ?_)
  show ((if state.clientStalled (stallThreshold table) then lift _ else lift _) >>= _) = _
  split <;> rfl

theorem blame_concludes {ending : Ending} {response : Response} {ended : Option Response}
    (suspicious : ending.Suspicious)
    (path : Path observer (blameUpstream .streaming table upstream admission >>= fun _ =>
      done response) events ended) :
    Concludes table upstream admission ending events := by
  rw [blameUpstream_eq] at path
  obtain ⟨state, later, rfl, rest⟩ := answered_path path rfl
  split at rest
  · next stalled =>
    obtain rfl := settled_path rest rfl
    exact .spared suspicious stalled
  · next notStalled =>
    obtain rfl := settled_path rest rfl
    exact .blamed suspicious (by simpa using notStalled)

theorem conclude_concludes {ending : Ending} {ended : Option Response}
    (path : Path observer (conclude .streaming table upstream admission true ending) events
      ended) :
    Concludes table upstream admission ending events := by
  cases ending with
  | timedOut =>
      obtain rfl := settled_path path rfl
      exact .timedOut
  | failed sources =>
      simp only [conclude] at path
      split at path
      · next idle =>
        obtain rfl := settled_path path rfl
        exact .clientFault (.inl idle)
      · next notIdle =>
        split at path
        · next fromClient =>
          obtain rfl := settled_path path rfl
          exact .clientFault (.inr fromClient)
        · next notClient =>
          exact blame_concludes ⟨by simpa using notIdle, by simpa using notClient⟩ path
  | responded status headers =>
      simp only [conclude] at path
      split at path
      · next gateway => exact blame_concludes gateway path
      · next fine =>
        obtain rfl := settled_path path rfl
        exact .succeeded fine

/-- A run either says nothing about the upstream, or waits for it and draws a
conclusion. -/
theorem handleCore_path {ended : Option Response}
    (path : Path observer (handleCore http .streaming connection table req) events ended) :
    (∀ event ∈ events, (∀ upstream admission, event ≠ .recordFailure upstream admission) ∧
      ∀ sent ending, event ≠ .select sent ending) ∨
    ∃ upstream admission sent ending later, Concludes table upstream admission ending later ∧
      events = .tryAcquire upstream (some admission) :: .select sent ending :: later := by
  simp only [handleCore] at path
  split at path
  · obtain ⟨rfl, -⟩ := path_done.mp path
    exact .inl (by simp)
  · next selected isSelected =>
    obtain ⟨answer, later, rfl, rest⟩ := answered_path path rfl
    cases answer with
    | none =>
        obtain ⟨rfl, -⟩ := path_done.mp rest
        exact .inl (by simp [Effect.event])
    | some admission =>
        simp only [forward] at rest
        split at rest
        · obtain rfl := settled_path rest rfl
          exact .inl (by simp [Effect.event])
        · cases path_perform.mp rest with
          | inl dropped =>
              obtain ⟨event, drops, rfl, -⟩ := dropped
              obtain rfl := Option.some.inj drops
              exact .inl (by simp [Effect.event])
          | inr ended =>
              obtain ⟨ending, after, rfl, inner⟩ := ended
              simp only [decide_true, Bool.or_true] at inner
              exact .inr ⟨_, admission, _, ending, after, conclude_concludes inner, rfl⟩

end Paths

/-! ## The upload beside the handler -/

/-- A run of the upload that goes with a run of the handler: the timer has fired when
it ends the wait, and the stall check reads the flags afterwards. -/
structure Beside (upstreamTimeout : Duration) (start : UploadRace)
    (waiting first second third : List UploadRace.Move) (events : List Event) : Prop where
  timedOut : ∀ sent, .select sent .timedOut ∈ events →
    (start.run upstreamTimeout waiting).upload.timer = .fired
  stall : ∀ state, .bodyState state ∈ events →
    state = Upload.stallReading (start.run upstreamTimeout (waiting ++ first)).upload
      (start.run upstreamTimeout (waiting ++ first ++ second)).upload
      (start.run upstreamTimeout (waiting ++ first ++ second ++ third)).upload

/-- The reasons for which a failure may be recorded. -/
inductive Blamed (table : RouteTable) (events : List Event) (ended checked : UploadRace) : Prop where
  | noResponse (sent : Request) : .select sent .timedOut ∈ events →
      ended.SentInTime table.upstreamTimeout → Blamed table events ended checked
  | notReading (sent : Request) : .select sent .timedOut ∈ events →
      ended.QuietWindow table.upstreamTimeout → Blamed table events ended checked
  | failed (sent : Request) (ending : Ending) : .select sent ending ∈ events →
      ending.Suspicious →
      ¬ UploadRace.LeftPending (stallThreshold table) checked.upload.now checked.spans →
      Blamed table events ended checked

/-- The body of an admitted request. -/
def uploadOf (table : RouteTable) (req : Request) (now : Nat) : UploadRace where
  upload := .new table.requestBodyIdleTimeout table.requestBodyTimeout req.isEndStream now

theorem Ending.Suspicious.not_clientFault {ending : Ending} (suspicious : ending.Suspicious) :
    ¬ ending.ClientFault := by
  cases ending with
  | timedOut => exact suspicious.elim
  | responded status headers => exact id
  | failed sources =>
      intro fault
      cases fault with
      | inl idle =>
          rw [suspicious.1] at idle
          cases idle
      | inr fromClient =>
          rw [suspicious.2] at fromClient
          cases fromClient

section Reasons

variable {table : RouteTable} {upstream : Upstream} {admission : Admission} {ending : Ending}
  {events : List Event}

theorem Concludes.select_notMem (concludes : Concludes table upstream admission ending events)
    (sent : Request) (other : Ending) : .select sent other ∉ events := by
  cases concludes <;> simp

theorem Concludes.released (concludes : Concludes table upstream admission ending events)
    (fault : ending.ClientFault) : events = [.release upstream admission] := by
  cases concludes with
  | timedOut => exact fault.elim
  | clientFault _ => rfl
  | blamed suspicious _ => exact absurd fault suspicious.not_clientFault
  | spared suspicious _ => exact absurd fault suspicious.not_clientFault
  | succeeded _ => exact fault.elim

/-- What it takes to record a failure. -/
theorem Concludes.recorded (concludes : Concludes table upstream admission ending events)
    {other : Upstream} {ticket : Admission} (recorded : .recordFailure other ticket ∈ events) :
    ending = .timedOut ∨ ending.Suspicious ∧ ∃ state, .bodyState state ∈ events ∧
      state.clientStalled (stallThreshold table) = false := by
  cases concludes with
  | timedOut => exact .inl rfl
  | clientFault _ => simp at recorded
  | blamed suspicious notStalled => exact .inr ⟨suspicious, _, List.mem_cons_self, notStalled⟩
  | spared _ _ => simp at recorded
  | succeeded _ => simp at recorded

end Reasons

/-- In every run in which no read of the flags goes wrong, a failure is recorded only
a timeout after the end of the body, after a window in which the upstream did not
read, or on an error or gateway status without a stall of the client. A request that
fails by the client's fault releases its ticket. -/
theorem blame_has_reason {http : Http} {connection : Connection} {table : RouteTable}
    {req : Request} {events : List Event} {result : Option Response} {now : Nat}
    {waiting first second third : List UploadRace.Move}
    (path : Path observer (handleCore http .streaming connection table req) events result)
    (beside : Beside table.upstreamTimeout (uploadOf table req now) waiting first second third
      events)
    (calm : (uploadOf table req now).CalmRun table.upstreamTimeout waiting)
    (untorn : ∀ state, .bodyState state ∈ events →
      ¬ ((uploadOf table req now).run table.upstreamTimeout (waiting ++ first)).MissesStall
        ((uploadOf table req now).run table.upstreamTimeout (waiting ++ first ++ second))) :
    (∀ upstream admission, .recordFailure upstream admission ∈ events →
      Blamed table events ((uploadOf table req now).run table.upstreamTimeout waiting)
        ((uploadOf table req now).run table.upstreamTimeout (waiting ++ first))) ∧
    ∀ sent ending, .select sent ending ∈ events → ending.ClientFault →
      (∀ upstream admission, .recordFailure upstream admission ∉ events) ∧
        ∃ upstream admission, .tryAcquire upstream (some admission) ∈ events ∧
          .release upstream admission ∈ events := by
  rcases handleCore_path path with
    silent | ⟨upstream, admission, sent, ending, later, concludes, rfl⟩
  · constructor
    · intro upstream admission recorded
      exact absurd rfl ((silent _ recorded).1 upstream admission)
    · intro sent ending selected
      exact absurd rfl ((silent _ selected).2 sent ending)
  have selected : .select sent ending ∈
      Event.tryAcquire upstream (some admission) :: .select sent ending :: later := by simp
  constructor
  · intro other ticket recorded
    have inLater : .recordFailure other ticket ∈ later := by simpa using recorded
    cases concludes.recorded inLater with
    | inl same =>
        subst same
        have fired := beside.timedOut sent selected
        cases UploadRace.fired_reason (UploadRace.sound_new _ _ _ _) calm fired with
        | inl due => exact .noResponse sent selected due
        | inr quiet => exact .notReading sent selected quiet
    | inr suspected =>
        obtain ⟨suspicious, state, read, notStalled⟩ := suspected
        refine .failed sent ending selected suspicious fun left => ?_
        have mindful : UploadRace.Mindful (stallThreshold table)
            ((uploadOf table req now).run table.upstreamTimeout (waiting ++ first)) :=
          (UploadRace.mindful_new _ _ _ _).run _
        have isReading := beside.stall state (by simp [read])
        have isWhole := untorn state (by simp [read])
        rw [UploadRace.run_append _ _ (waiting ++ first) second] at isWhole
        rw [isReading, UploadRace.run_append _ _ (waiting ++ first ++ second) third,
          UploadRace.run_append _ _ (waiting ++ first) second,
          mindful.reading second third left isWhole] at notStalled
        cases notStalled
  · intro other ending' isSelected fault
    obtain ⟨rfl, rfl⟩ : other = sent ∧ ending' = ending := by
      simpa [concludes.select_notMem] using isSelected
    obtain rfl := concludes.released fault
    exact ⟨by simp, upstream, admission, by simp, by simp⟩

/-! ## A slow upload under a short timeout -/

/-- The upstream has a second to answer, the client half a minute to go on. -/
def impatientTable : RouteTable :=
  (buildTable plainHttp { apiConfig with upstreamTimeoutSecs := 1 } none {}).1.toOption.getD
    (RouteTable.new [] (.fromSecs 0))

def timedOutEvents : List Event :=
  [.tryAcquire apiRoute.upstream (some .probe),
    .select (forwardedRequest localClient impatientTable upload selectedApi rebuiltApi) .timedOut,
    .recordFailure apiRoute.upstream .probe]

theorem timedOut_path :
    Path observer (handleCore plainHttp .streaming localClient impatientTable upload) timedOutEvents
      (some (errorResponse 504 (ascii "upstream timeout"))) := by
  have selects : selectRoute plainHttp impatientTable upload = .ok selectedApi := by decide +kernel
  exact path_answered selects rebuildUri_upload (.answered () .finished)

def uploadAfter (moves : List UploadRace.Move) : UploadRace :=
  (uploadOf impatientTable upload 0).run impatientTable.upstreamTimeout moves

/-- A poll that nothing interrupts. -/
def wholePoll (inner : InnerPoll) : List UploadRace.Move :=
  .begin false false inner :: List.replicate 7 .advance

/-- One poll, a window in which it was, one in which none was, and what happens
between the timer's reads. -/
def twoWindows (polled : InnerPoll) (between : List UploadRace.Move) : List UploadRace.Move :=
  [.start] ++ wholePoll polled ++ [.tick 1000000000, .windowEnd, .tick 1000000000, .windowEnd] ++
    between ++ [.readWaiting]

theorem timedOut_beside {moves : List UploadRace.Move}
    (fired : (uploadAfter moves).upload.timer = .fired) :
    Beside impatientTable.upstreamTimeout (uploadOf impatientTable upload 0) moves [] [] []
      timedOutEvents :=
  ⟨fun _ _ => fired, by simp [timedOutEvents]⟩

theorem unread_upload_is_blamed :
    Blamed impatientTable timedOutEvents (uploadAfter (twoWindows (.data false) []))
      (uploadAfter (twoWindows (.data false) [] ++ [])) := by
  have fired : (uploadAfter (twoWindows (.data false) [])).upload.timer = .fired := by
    decide +kernel
  have calm : (uploadOf impatientTable upload 0).CalmRun impatientTable.upstreamTimeout
      (twoWindows (.data false) []) := by
    decide +kernel
  exact (blame_has_reason timedOut_path (timedOut_beside fired) calm (by simp [timedOutEvents])).1
    apiRoute.upstream .probe (by simp [timedOutEvents])

/-! ### Three reads that go wrong -/

/-- A failure is recorded in a run of the handler beside this one of the upload, and
nothing speaks against the upstream. -/
def BlamedUnfairly (waiting first second : List UploadRace.Move) (events : List Event) : Prop :=
  Beside impatientTable.upstreamTimeout (uploadOf impatientTable upload 0) waiting first second []
      events ∧
    (∃ response, Path observer (handleCore plainHttp .streaming localClient impatientTable upload)
      events (some response)) ∧
    .recordFailure apiRoute.upstream .probe ∈ events ∧
    ¬ Blamed impatientTable events (uploadAfter waiting) (uploadAfter (waiting ++ first))

theorem timedOut_unfairly {moves : List UploadRace.Move}
    (fired : (uploadAfter moves).upload.timer = .fired)
    (unsent : ¬ (uploadAfter moves).SentInTime impatientTable.upstreamTimeout)
    (busy : ¬ (uploadAfter moves).QuietWindow impatientTable.upstreamTimeout) :
    BlamedUnfairly moves [] [] timedOutEvents := by
  refine ⟨timedOut_beside fired, ⟨_, timedOut_path⟩, by simp [timedOutEvents], fun blamed => ?_⟩
  cases blamed with
  | noResponse _ _ due => exact unsent due
  | notReading _ _ quiet => exact busy quiet
  | failed _ ending selected suspicious _ =>
      obtain rfl : ending = .timedOut := by
        simp only [timedOutEvents, List.mem_cons, List.not_mem_nil, Event.select.injEq,
          reduceCtorEq, or_false, false_or] at selected
        exact selected.2
      exact suspicious

/-- The client keeps the body waiting for a window and goes on between the timer's two
reads. -/
def slowThenRacing : List UploadRace.Move := twoWindows .pending (wholePoll (.data false))

theorem slowThenRacing_unfair : BlamedUnfairly slowThenRacing [] [] timedOutEvents := by
  have unsent : (uploadAfter slowThenRacing).upload.body.eos = .unsent := by decide +kernel
  refine timedOut_unfairly (by decide +kernel) ?_ ?_
  · intro due
    obtain ⟨time, sent, -⟩ := due
    rw [unsent] at sent
    cases sent
  · have timeout : impatientTable.upstreamTimeout.nanos = 1000000000 := by decide +kernel
    have now : (uploadAfter slowThenRacing).upload.now = 2000000000 := by decide +kernel
    have spans : (uploadAfter slowThenRacing).spans =
        [⟨2000000000, some 2000000000, some ⟨2000000000, .data⟩⟩, ⟨0, none, some ⟨0, .pending⟩⟩] := by
      decide +kernel
    intro quiet
    obtain ⟨start, later, earlier, split, elapsed, before, since, answered, -⟩ := quiet
    rw [spans] at split
    rw [now, timeout] at elapsed
    rw [timeout] at since answered
    rcases later with _ | ⟨first, _ | ⟨second, later⟩⟩
    · obtain rfl : _ = earlier := split
      have early : 2000000000 ≤ start := before _ List.mem_cons_self
      omega
    · obtain ⟨-, rfl⟩ := List.cons.inj split
      have late : start + 1000000000 ≤ 0 := answered ⟨0, none, some ⟨0, .pending⟩⟩ rfl 0 rfl
      omega
    · obtain ⟨-, rest⟩ := List.cons.inj split
      obtain ⟨rfl, -⟩ := List.cons.inj rest
      have late : start + 1000000000 ≤ 0 := since ⟨0, none, some ⟨0, .pending⟩⟩ (by simp)
      omega

/-- A poll begins before the window and signals the end of the body inside it, and the
timer's task runs only when the window is over. -/
def endedUnseen : List UploadRace.Move :=
  [.start, .tick 900000000, .begin false false .ended, .tick 100000000, .windowEnd,
    .tick 500000000] ++ List.replicate 5 .advance ++ [.tick 500000000, .windowEnd, .readWaiting]

theorem endedUnseen_unfair : BlamedUnfairly endedUnseen [] [] timedOutEvents := by
  have timeout : impatientTable.upstreamTimeout.nanos = 1000000000 := by decide +kernel
  have now : (uploadAfter endedUnseen).upload.now = 2000000000 := by decide +kernel
  have isSent : (uploadAfter endedUnseen).upload.body.eos = .sent 1500000000 := by decide +kernel
  refine timedOut_unfairly (by decide +kernel) ?_ ?_
  · intro due
    obtain ⟨time, sent, due⟩ := due
    obtain rfl := EosChannel.sent.inj (isSent.symm.trans sent)
    rw [timeout, now] at due
    omega
  · have spans : (uploadAfter endedUnseen).spans =
        [⟨900000000, some 1500000000, some ⟨1500000000, .ended⟩⟩] := by
      decide +kernel
    intro quiet
    obtain ⟨start, later, earlier, split, -, before, since, -, signal⟩ := quiet
    have inside := signal _ isSent
    rw [spans] at split
    rw [timeout] at since inside
    rcases later with _ | ⟨first, later⟩
    · obtain rfl : _ = earlier := split
      have early : 900000000 ≤ start := before _ List.mem_cons_self
      omega
    · obtain ⟨rfl, -⟩ := List.cons.inj split
      have late : start + 1000000000 ≤ 900000000 := since _ List.mem_cons_self
      omega

/-- The client keeps the body waiting for longer than a second, and goes on. -/
def stalledUpload : List UploadRace.Move :=
  wholePoll .pending ++ [.tick 1500000000, .begin false false (.data false)] ++
    List.replicate 3 .advance

def gatewayEvents : List Event :=
  [.tryAcquire apiRoute.upstream (some .probe),
    .select (forwardedRequest localClient impatientTable upload selectedApi rebuiltApi)
      (.responded 502 {}),
    .bodyState ⟨0, 0, 1500⟩, .recordFailure apiRoute.upstream .probe]

theorem gateway_path :
    Path observer (handleCore plainHttp .streaming localClient impatientTable upload) gatewayEvents
      (some ⟨502, stripHopByHop {}, .boxed⟩) := by
  have selects : selectRoute plainHttp impatientTable upload = .ok selectedApi := by decide +kernel
  exact path_answered selects rebuildUri_upload
    (.answered (⟨0, 0, 1500⟩ : BodyState) (.answered () .finished))

/-- The upstream answers 502, and the poll that finds the client's data is suspended
while the handler reads both stall registers. -/
theorem stalledUpload_unfair : BlamedUnfairly stalledUpload [.advance] [] gatewayEvents := by
  refine ⟨⟨?_, ?_⟩, ⟨_, gateway_path⟩, by simp [gatewayEvents], fun blamed => ?_⟩
  · intro sent selected
    simp [gatewayEvents] at selected
  · intro state read
    obtain rfl : state = ⟨0, 0, 1500⟩ := by simpa [gatewayEvents] using read
    decide +kernel
  · have theta : (stallThreshold impatientTable).nanos = 1000000000 := by decide +kernel
    have spans : (uploadAfter (stalledUpload ++ [.advance])).spans =
        [⟨1500000000, some 1500000000, none⟩, ⟨0, none, some ⟨0, .pending⟩⟩] := by
      decide +kernel
    cases blamed with
    | noResponse sent selected | notReading sent selected => simp [gatewayEvents] at selected
    | failed _ _ _ _ notLeft =>
        refine notLeft ?_
        rw [spans]
        exact .inl ⟨0, rfl, by rw [theta]; decide⟩

/-- Each of the three runs blames the upstream without a reason. -/
theorem slow_client_is_blamed :
    BlamedUnfairly slowThenRacing [] [] timedOutEvents ∧
      BlamedUnfairly endedUnseen [] [] timedOutEvents ∧
      BlamedUnfairly stalledUpload [.advance] [] gatewayEvents :=
  ⟨slowThenRacing_unfair, endedUnseen_unfair, stalledUpload_unfair⟩

end Ferryman.Server
