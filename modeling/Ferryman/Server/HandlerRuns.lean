import Ferryman.Server.Blame

/-!
# Every run of the handler

What a run of `handleCore` can look like, for both handlers, is said once as a
relation between the events and the response. The results about requests in
flight split on its constructors.
-/

set_option autoImplicit false

namespace Ferryman.Server

open Ferryman.Core Byte Bytes Program

/-- What is reported to the breaker about an ending that speaks against the
upstream. Only a tracked body tells whether the client stalled. -/
inductive Verdict (wrap : Wrap) (table : RouteTable) (upstream : Upstream)
    (admission : Admission) : List Event → Prop where
  | untracked : wrap = .legacy →
      Verdict wrap table upstream admission [.recordFailure upstream admission]
  | blamed {state : BodyState} : wrap = .streaming →
      state.clientStalled (stallThreshold table) = false →
      Verdict wrap table upstream admission [.bodyState state, .recordFailure upstream admission]
  | spared {state : BodyState} : wrap = .streaming →
      state.clientStalled (stallThreshold table) = true →
      Verdict wrap table upstream admission [.bodyState state, .release upstream admission]

/-- How a wait that ended is reported and answered. -/
inductive Conclusion (wrap : Wrap) (table : RouteTable) (upstream : Upstream)
    (admission : Admission) (countsTimeout : Bool) : Ending → List Event → Response → Prop where
  | timedOut : Conclusion wrap table upstream admission countsTimeout .timedOut
      (if countsTimeout then [.recordFailure upstream admission] else [])
      (errorResponse 504 (ascii "upstream timeout"))
  | bodyTimeout {sources : List ErrorSource} : isBodyIdleTimeout sources = true →
      Conclusion wrap table upstream admission countsTimeout (.failed sources)
        [.release upstream admission] (errorResponse 408 (ascii "request body timeout"))
  | bodyError {sources : List ErrorSource} : isBodyIdleTimeout sources = false →
      isClientBodyError sources = true →
      Conclusion wrap table upstream admission countsTimeout (.failed sources)
        [.release upstream admission] (errorResponse 400 (ascii "request body error"))
  | failed {sources : List ErrorSource} {later : List Event} :
      isBodyIdleTimeout sources = false → isClientBodyError sources = false →
      Verdict wrap table upstream admission later →
      Conclusion wrap table upstream admission countsTimeout (.failed sources) later
        (errorResponse 502 (ascii "bad gateway"))
  | gateway {status : Nat} {headers : HeaderMap} {later : List Event} :
      502 ≤ status ∧ status ≤ 504 → Verdict wrap table upstream admission later →
      Conclusion wrap table upstream admission countsTimeout (.responded status headers) later
        ⟨status, stripHopByHop headers, .boxed⟩
  | passed {status : Nat} {headers : HeaderMap} : ¬(502 ≤ status ∧ status ≤ 504) →
      Conclusion wrap table upstream admission countsTimeout (.responded status headers)
        [.recordSuccess upstream admission] ⟨status, stripHopByHop headers, .boxed⟩

/-- What the timeout of a request counts for. -/
def Request.countsTimeout (req : Request) (wrap : Wrap) : Bool :=
  req.isEndStream || wrap = .streaming

/-- The events of a run and its response, if the client waited for it. -/
inductive HandlerRun (http : Http) (wrap : Wrap) (connection : Connection) (table : RouteTable)
    (req : Request) : List Event → Option Response → Prop where
  | turnedAway {response : Response} : selectRoute http table req = .error response →
      HandlerRun http wrap connection table req [] (some response)
  | unavailable {selected : Selected} : selectRoute http table req = .ok selected →
      HandlerRun http wrap connection table req [.tryAcquire selected.route.upstream none]
        (some (errorResponse 503 (ascii "upstream unavailable")))
  | unbuilt {selected : Selected} {response : Response} (admission : Admission) :
      selectRoute http table req = .ok selected → rebuildUri http req selected = .error response →
      HandlerRun http wrap connection table req
        [.tryAcquire selected.route.upstream (some admission),
          .release selected.route.upstream admission] (some response)
  | hungUp {selected : Selected} {uri : Uri} (admission : Admission) :
      selectRoute http table req = .ok selected → rebuildUri http req selected = .ok uri →
      HandlerRun http wrap connection table req
        [.tryAcquire selected.route.upstream (some admission),
          .dropped (forwardedRequest connection table req selected uri)] none
  | answered {selected : Selected} {uri : Uri} {admission : Admission} {ending : Ending}
      {later : List Event} {response : Response} :
      selectRoute http table req = .ok selected → rebuildUri http req selected = .ok uri →
      Conclusion wrap table selected.route.upstream admission (req.countsTimeout wrap) ending later
        response →
      HandlerRun http wrap connection table req
        (.tryAcquire selected.route.upstream (some admission) ::
          .select (forwardedRequest connection table req selected uri) ending :: later)
        (some response)

section Runs

variable {http : Http} {wrap : Wrap} {connection : Connection} {table : RouteTable} {req : Request}
  {upstream : Upstream} {admission : Admission} {events : List Event} {ended : Option Response}

theorem reported_path {effect : Effect Unit} {response : Response} (silent : effect.drop = none) :
    Path observer (perform effect fun _ => done response) events ended ↔
      events = [effect.event ()] ∧ ended = some response := by
  constructor
  · intro path
    obtain ⟨answer, later, rfl, rest⟩ := answered_path path silent
    obtain ⟨rfl, rfl⟩ := path_done.mp rest
    exact ⟨rfl, rfl⟩
  · intro seen
    obtain ⟨rfl, rfl⟩ := seen
    exact .answered () .finished

theorem verdict_path {response : Response} :
    Path observer (blameUpstream wrap table upstream admission >>= fun _ => done response) events
        ended ↔
      Verdict wrap table upstream admission events ∧ ended = some response := by
  cases wrap with
  | legacy =>
      refine (@reported_path events ended (.recordFailure upstream admission) response rfl).trans ?_
      refine and_congr_left fun _ => ⟨?_, ?_⟩
      · intro same
        subst same
        exact .untracked rfl
      · intro verdict
        cases verdict with
        | untracked => rfl
        | blamed isStreaming => cases isStreaming
        | spared isStreaming => cases isStreaming
  | streaming =>
      rw [blameUpstream_eq]
      constructor
      · intro path
        obtain ⟨state, later, rfl, rest⟩ := answered_path path rfl
        split at rest
        · next stalled =>
          obtain ⟨rfl, rfl⟩ := (reported_path rfl).mp rest
          exact ⟨.spared rfl stalled, rfl⟩
        · next notStalled =>
          obtain ⟨rfl, rfl⟩ := (reported_path rfl).mp rest
          exact ⟨.blamed rfl (by simpa using notStalled), rfl⟩
      · intro seen
        obtain ⟨verdict, rfl⟩ := seen
        cases verdict with
        | untracked isLegacy => cases isLegacy
        | @blamed state _ notStalled =>
            refine .answered state ?_
            rw [if_neg (by simp [notStalled])]
            exact .answered () .finished
        | @spared state _ stalled =>
            refine .answered state ?_
            rw [if_pos stalled]
            exact .answered () .finished

theorem conclusion_path {countsTimeout : Bool} {ending : Ending} :
    Path observer (conclude wrap table upstream admission countsTimeout ending) events ended ↔
      ∃ response, ended = some response ∧
        Conclusion wrap table upstream admission countsTimeout ending events response := by
  constructor
  · intro path
    cases ending with
    | timedOut =>
        cases countsTimeout with
        | true =>
            obtain ⟨rfl, rfl⟩ := (reported_path rfl).mp path
            exact ⟨_, rfl, .timedOut⟩
        | false =>
            obtain ⟨rfl, rfl⟩ := path_done.mp path
            exact ⟨_, rfl, .timedOut⟩
    | failed sources =>
        simp only [conclude] at path
        split at path
        · next idle =>
          obtain ⟨rfl, rfl⟩ := (reported_path rfl).mp path
          exact ⟨_, rfl, .bodyTimeout idle⟩
        · next notIdle =>
          rw [Bool.not_eq_true] at notIdle
          split at path
          · next fromClient =>
            obtain ⟨rfl, rfl⟩ := (reported_path rfl).mp path
            exact ⟨_, rfl, .bodyError notIdle fromClient⟩
          · next notClient =>
            obtain ⟨verdict, rfl⟩ := verdict_path.mp path
            exact ⟨_, rfl, .failed notIdle (by simpa using notClient) verdict⟩
    | responded status headers =>
        simp only [conclude] at path
        split at path
        · next gateway =>
          obtain ⟨verdict, rfl⟩ := verdict_path.mp path
          exact ⟨_, rfl, .gateway gateway verdict⟩
        · next fine =>
          obtain ⟨rfl, rfl⟩ := (reported_path rfl).mp path
          exact ⟨_, rfl, .passed fine⟩
  · intro seen
    obtain ⟨response, rfl, conclusion⟩ := seen
    cases conclusion with
    | timedOut =>
        cases countsTimeout with
        | true => exact .answered () .finished
        | false => exact .finished
    | bodyTimeout idle =>
        simp only [conclude, idle, if_true]
        exact .answered () .finished
    | bodyError notIdle fromClient =>
        simp only [conclude, notIdle, fromClient, Bool.false_eq_true, if_false, if_true]
        exact .answered () .finished
    | failed notIdle notClient verdict =>
        simp only [conclude, notIdle, notClient, Bool.false_eq_true, if_false]
        exact verdict_path.mpr ⟨verdict, rfl⟩
    | gateway gateway verdict =>
        simp only [conclude, if_pos gateway]
        exact verdict_path.mpr ⟨verdict, rfl⟩
    | passed fine =>
        simp only [conclude, if_neg fine]
        exact .answered () .finished

/-! ## Responses of the proxy itself -/

/-- Made here with one of these statuses, not by an upstream. -/
def Response.IsLocal (response : Response) (statuses : List Nat) : Prop :=
  ∃ status ∈ statuses, ∃ text, response = errorResponse status text

theorem isLocal_of_throw {α : Type} {statuses : List Nat} {status : Nat} {text : Bytes}
    {response : Response}
    (same : (throw (errorResponse status text) : Except Response α) = .error response)
    (member : status ∈ statuses) : response.IsLocal statuses := by
  obtain rfl := Except.error.inj same
  exact ⟨status, member, text, rfl⟩

theorem selectRoute_error_isLocal {response : Response}
    (refused : selectRoute http table req = .error response) :
    response.IsLocal [200, 400, 404, 501] := by
  simp only [selectRoute] at refused
  split at refused
  · exact isLocal_of_throw refused (by simp)
  split at refused
  · exact isLocal_of_throw refused (by simp)
  split at refused
  · exact isLocal_of_throw refused (by simp)
  split at refused
  · exact isLocal_of_throw refused (by simp)
  next route _ =>
  have upgrades : ∀ strip, (if wantsUpgrade req.headers ∨ req.method = .connect then
        throw (errorResponse 501 (ascii "protocol upgrades are not supported"))
      else (pure ⟨route, strip⟩ : Except Response Selected)) = .error response →
      response.IsLocal [200, 400, 404, 501] := by
    intro strip ends
    split at ends
    · exact isLocal_of_throw ends (by simp)
    · cases ends
  split at refused
  · cases path : route.strippedPath req.uri.path with
    | none =>
        simp only [path] at refused
        exact @isLocal_of_throw Selected _ 400 _ _ refused (by simp)
    | some stripped =>
        simp only [path] at refused
        exact upgrades _ refused
  · exact upgrades none refused

theorem rebuildUri_error_isLocal {selected : Selected} {response : Response}
    (fails : rebuildUri http req selected = .error response) : response.IsLocal [400, 502] := by
  have assembled : ∀ pathAndQuery,
      ((http.fromParts selected.route.upstream.uri.scheme selected.route.upstream.uri.authority
        pathAndQuery).mapError fun message =>
          errorResponse 502 (ascii "rebuilding upstream URI: " ++ message)) = .error response →
      response.IsLocal [400, 502] := by
    intro pathAndQuery failed
    cases built : http.fromParts selected.route.upstream.uri.scheme
        selected.route.upstream.uri.authority pathAndQuery with
    | ok uri => simp [built, Except.mapError] at failed
    | error message =>
        rw [built] at failed
        obtain rfl := Except.error.inj failed
        exact ⟨502, by simp, _, rfl⟩
  simp only [rebuildUri] at fails
  split at fails
  · next path _ stripped =>
    split at fails
    · exact assembled _ fails
    · obtain rfl := Except.error.inj fails
      exact ⟨400, by simp, _, rfl⟩
  · exact assembled _ fails

/-! ## The whole handler -/

/-- The paths through the handler are its runs. -/
theorem handleCore_path_iff :
    Path observer (handleCore http wrap connection table req) events ended ↔
      HandlerRun http wrap connection table req events ended := by
  constructor
  · intro path
    simp only [handleCore] at path
    split at path
    · next response refused =>
      obtain ⟨rfl, rfl⟩ := path_done.mp path
      exact .turnedAway refused
    · next selected selects =>
      obtain ⟨answer, later, rfl, rest⟩ := answered_path path rfl
      cases answer with
      | none =>
          obtain ⟨rfl, rfl⟩ := path_done.mp rest
          exact .unavailable selects
      | some admission =>
          simp only [forward] at rest
          split at rest
          · next response fails =>
            obtain ⟨rfl, rfl⟩ := (reported_path rfl).mp rest
            exact .unbuilt admission selects fails
          · next uri rebuilds =>
            cases path_perform.mp rest with
            | inl dropped =>
                obtain ⟨event, drops, rfl, rfl⟩ := dropped
                obtain rfl := Option.some.inj drops
                exact .hungUp admission selects rebuilds
            | inr finished =>
                obtain ⟨ending, after, rfl, inner⟩ := finished
                obtain ⟨response, rfl, conclusion⟩ := conclusion_path.mp inner
                exact .answered selects rebuilds conclusion
  · intro run
    cases run with
    | turnedAway refused =>
        rw [handleCore, refused]
        exact .finished
    | unavailable selects =>
        rw [handleCore, selects]
        exact .answered none .finished
    | unbuilt admission selects fails =>
        rw [handleCore, selects]
        refine .answered (some admission) ?_
        simp only [Program.bind, forward, fails]
        exact .answered () .finished
    | hungUp admission selects rebuilds => exact path_dropped selects rebuilds admission
    | answered selects rebuilds conclusion =>
        exact path_answered selects rebuilds (conclusion_path.mpr ⟨_, rfl, conclusion⟩)

end Runs

end Ferryman.Server
