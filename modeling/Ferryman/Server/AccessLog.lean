import Ferryman.Lib.Logging
import Ferryman.Server.RequestIds

/-!
# Metrics and the access log

The handler with its calls of `record` (`proxy.rs`). Every request that gets a
response is counted once, under labels that the table alone decides, and the
host, the path and the request id that a client gets into the log are harmless.
-/

set_option autoImplicit false

namespace Ferryman.Server

open Ferryman.Core Byte Bytes Program

/-! ## What is recorded -/

structure Record where
  route : Bytes
  upstream : Bytes
  status : Nat
  bytesOut : Option Nat := none
deriving DecidableEq

/-- `str::parse::<u64>`. -/
def parseU64 (text : Bytes) : Option Nat :=
  let digits := match text with
    | 0x2B :: rest => rest
    | _ => text
  parseWith (readNumber 10 (2 ^ 64) none true) digits

def contentLength : HeaderName := ⟨ascii "content-length", by decide⟩

def announcedLength (headers : HeaderMap) : Option Nat := do
  let value ← headers.get contentLength
  let text ← value.toStr
  parseU64 text

/-! ## The handler with its records -/

def unrouted (status : Nat) : Record := ⟨ascii "none", ascii "none", status, none⟩

def routed (route : Route) (status : Nat) : Record :=
  ⟨route.pathPrefix, route.upstream.name, status, none⟩

/-- `selectRoute`, with the record of each response. -/
def recordedRoute (http : Http) (table : RouteTable) (req : Request) :
    Except (Record × Response) Selected := do
  let path := req.uri.path
  if table.localHealthPath = some path ∧ (req.method = .get ∨ req.method = .head) then
    throw (⟨ascii "local_health", ascii "none", 200, none⟩,
      errorResponse 200 (if req.method = .head then [] else ascii "ok"))
  else if badPathNormalized path || ambiguousRoute table path then
    throw (unrouted 400, badPathResponse)
  else if badHost http req.headers req.uri req.version then
    throw (unrouted 400, errorResponse 400 (ascii "bad host\n"))
  else
    match table.lookup path with
    | none => throw (unrouted 404, errorResponse 404 (ascii "no route"))
    | some route =>
        let strip ←
          if route.stripPrefix then
            match route.strippedPath path with
            | some stripped => pure (some (stripped, route.strippedPrefix))
            | none => throw (unrouted 400, badPathResponse)
          else pure none
        if wantsUpgrade req.headers ∨ req.method = .connect then
          throw (routed route 501,
            errorResponse 501 (ascii "protocol upgrades are not supported"))
        else pure ⟨route, strip⟩

/-- `rebuildUri`, with the record of each response. -/
def recordedUri (http : Http) (req : Request) (selected : Selected) :
    Except (Record × Response) Uri := do
  let upstream := selected.route.upstream.uri
  let pathAndQuery ←
    match selected.strip with
    | some (path, _) =>
        let text :=
          match req.uri.query with
          | some query => path ++ 0x3F :: query
          | none => path
        match http.parsePathAndQuery text with
        | some parsed => pure (some parsed)
        | none => throw (routed selected.route 400, badPathResponse)
    | none => pure req.uri.pathAndQuery
  (http.fromParts upstream.scheme upstream.authority pathAndQuery).mapError fun message =>
    (routed selected.route 502, errorResponse 502 (ascii "rebuilding upstream URI: " ++ message))

abbrev Recorded := Logged Effect Record

def recordedConclude (wrap : Wrap) (table : RouteTable) (route : Route) (admission : Admission)
    (countsTimeout : Bool) : Ending → Program Recorded Response
  | .timedOut => do
      if countsTimeout then (lift (.recordFailure route.upstream admission)).silent else pure ()
      write (routed route 504)
      pure (errorResponse 504 (ascii "upstream timeout"))
  | .failed sources =>
      if isBodyIdleTimeout sources then do
        (lift (.release route.upstream admission)).silent
        write (routed route 408)
        pure (errorResponse 408 (ascii "request body timeout"))
      else if isClientBodyError sources then do
        (lift (.release route.upstream admission)).silent
        write (routed route 400)
        pure (errorResponse 400 (ascii "request body error"))
      else do
        (blameUpstream wrap table route.upstream admission).silent
        write (routed route 502)
        pure (errorResponse 502 (ascii "bad gateway"))
  | .responded status headers => do
      if 502 ≤ status ∧ status ≤ 504 then (blameUpstream wrap table route.upstream admission).silent
      else (lift (.recordSuccess route.upstream admission)).silent
      write { routed route status with bytesOut := announcedLength headers }
      pure ⟨status, stripHopByHop headers, .boxed⟩

def recordedForward (http : Http) (wrap : Wrap) (connection : Connection) (table : RouteTable)
    (req : Request) (selected : Selected) (admission : Admission) : Program Recorded Response :=
  let countsTimeout := req.isEndStream || wrap = .streaming
  match recordedUri http req selected with
  | .error (record, response) => do
      (lift (.release selected.route.upstream admission)).silent
      write record
      pure response
  | .ok uri => do
      let ending ← (lift (.select (forwardedRequest connection table req selected uri))).silent
      recordedConclude wrap table selected.route admission countsTimeout ending

def recordedCore (http : Http) (wrap : Wrap) (connection : Connection) (table : RouteTable)
    (req : Request) : Program Recorded Response :=
  match recordedRoute http table req with
  | .error (record, response) => do
      write record
      pure response
  | .ok selected => do
      match ← (lift (.tryAcquire selected.route.upstream)).silent with
      | none =>
          write (routed selected.route 503)
          pure (errorResponse 503 (ascii "upstream unavailable"))
      | some admission => recordedForward http wrap connection table req selected admission

/-- `handle_inner`, with the records of the handler. -/
def recordedInner (http : Http) (wrap : Wrap) (connection : Connection) (table : RouteTable)
    (req : Request) (words : UInt64 × UInt64) : Program Recorded Response := do
  let (id, req) := identify table req words
  let response ← recordedCore http wrap connection table req
  pure (echo id response)

/-! ## The log line -/

def maxLoggedPath : Nat := 512

def sanitize (text : Bytes) (limit : Nat) : Bytes :=
  (text.take limit).map fun c => if isGraphic c then c else 0x3F

structure AccessInfo where
  method : Method
  host : Bytes
  path : Bytes
  version : Version
  peer : IpAddr
  proto : Proto
  requestId : Option Bytes

/-- The id that is logged: the assigned one, or the client's own where it is valid. -/
def loggedId (table : RouteTable) (req : Request) (words : UInt64 × UInt64) : Option Bytes :=
  if table.requestId then (identify table req words).1.map HeaderValue.bytes
  else if table.accessLog then
    ((req.headers.get xRequestId).filter validRequestId).map HeaderValue.bytes
  else none

def accessInfo (connection : Connection) (table : RouteTable) (req : Request)
    (words : UInt64 × UInt64) : Option AccessInfo :=
  if table.accessLog then
    some {
      method := req.method
      host := match req.uri.authority with
        | some authority => sanitize authority.text 255
        | none =>
            match (identify table req words).2.headers.get host with
            | some value => sanitize value.bytes 255
            | none => ascii "-"
      path := sanitize req.uri.path maxLoggedPath
      version := req.version
      peer := connection.peer
      proto := connection.proto
      requestId := loggedId table req words }
  else none

/-! ## Without the records -/

section Erase

variable {http : Http} {wrap : Wrap} {connection : Connection} {table : RouteTable} {req : Request}

theorem selectRoute_eq (http : Http) (table : RouteTable) (req : Request) :
    selectRoute http table req = (recordedRoute http table req).mapError Prod.snd := by
  have upgrades : ∀ route strip,
      (if wantsUpgrade req.headers ∨ req.method = .connect then
        throw (errorResponse 501 (ascii "protocol upgrades are not supported"))
      else (pure ⟨route, strip⟩ : Except Response Selected)) =
      (if wantsUpgrade req.headers ∨ req.method = .connect then
        throw (routed route 501, errorResponse 501 (ascii "protocol upgrades are not supported"))
      else (pure ⟨route, strip⟩ : Except (Record × Response) Selected)).mapError Prod.snd := by
    intro route strip
    split <;> rfl
  simp only [selectRoute, recordedRoute]
  split
  · rfl
  split
  · rfl
  split
  · rfl
  cases table.lookup req.uri.path with
  | none => rfl
  | some route =>
      cases strips : route.stripPrefix with
      | false =>
          simp only [strips]
          exact upgrades route none
      | true =>
          simp only [strips]
          cases route.strippedPath req.uri.path with
          | none => rfl
          | some stripped => exact upgrades route _

theorem rebuildUri_eq (http : Http) (req : Request) (selected : Selected) :
    rebuildUri http req selected = (recordedUri http req selected).mapError Prod.snd := by
  have assembled : ∀ pathAndQuery,
      ((http.fromParts selected.route.upstream.uri.scheme selected.route.upstream.uri.authority
        pathAndQuery).mapError fun message =>
          errorResponse 502 (ascii "rebuilding upstream URI: " ++ message)) =
      ((http.fromParts selected.route.upstream.uri.scheme selected.route.upstream.uri.authority
        pathAndQuery).mapError fun message => (routed selected.route 502,
          errorResponse 502 (ascii "rebuilding upstream URI: " ++ message))).mapError Prod.snd := by
    intro pathAndQuery
    cases http.fromParts selected.route.upstream.uri.scheme
      selected.route.upstream.uri.authority pathAndQuery <;> rfl
  simp only [rebuildUri, recordedUri]
  cases selected.strip with
  | none => exact assembled _
  | some stripped =>
      dsimp only
      generalize http.parsePathAndQuery _ = parsed
      cases parsed with
      | none => rfl
      | some pathAndQuery => exact assembled _

theorem erase_recordedConclude (route : Route) (admission : Admission) (countsTimeout : Bool)
    (ending : Ending) :
    (recordedConclude wrap table route admission countsTimeout ending).erase =
      conclude wrap table route.upstream admission countsTimeout ending := by
  cases ending with
  | timedOut => cases countsTimeout <;> rfl
  | failed sources =>
      simp only [recordedConclude, conclude]
      split
      · rfl
      split
      · rfl
      · simp
  | responded status headers =>
      simp only [recordedConclude, conclude]
      split <;> simp

theorem erase_recordedForward (selected : Selected) (admission : Admission) :
    (recordedForward http wrap connection table req selected admission).erase =
      forward http wrap connection table req selected admission := by
  unfold recordedForward forward
  rw [rebuildUri_eq]
  cases recordedUri http req selected with
  | error refused => rfl
  | ok uri => simp [Except.mapError, erase_recordedConclude]

theorem erase_recordedCore :
    (recordedCore http wrap connection table req).erase =
      handleCore http wrap connection table req := by
  unfold recordedCore handleCore
  rw [selectRoute_eq]
  cases recordedRoute http table req with
  | error refused => rfl
  | ok selected =>
      refine congrArg (perform _) (funext fun answer => ?_)
      cases answer with
      | none => rfl
      | some admission => exact erase_recordedForward selected admission

end Erase

/-! ## Exactly one record -/

/-- The label pairs of the metrics. A request chooses among them, it cannot add any. -/
def labels (table : RouteTable) : List (Bytes × Bytes) :=
  (ascii "none", ascii "none") :: (ascii "local_health", ascii "none") ::
    table.routes.map fun route => (route.pathPrefix, route.upstream.name)

/-- The head of the upstream's response. -/
def Event.received : Event → Option HeaderMap
  | .select _ (.responded _ headers) => some headers
  | _ => none

/-- A record that belongs to the events and the response of a run. -/
structure Fits (table : RouteTable) (events : List Event) (response : Response)
    (record : Record) : Prop where
  status : record.status = response.status
  labels : (record.route, record.upstream) ∈ labels table
  upstream : ∀ upstream answer, .tryAcquire upstream answer ∈ events →
    record.upstream = upstream.name
  bytesOut : record.bytesOut = (events.filterMap Event.received).head?.bind announcedLength

section Once

variable {http : Http} {wrap : Wrap} {connection : Connection} {table : RouteTable} {req : Request}

theorem fits_local {response : Response} {record : Record}
    (status : record.status = response.status)
    (label : (record.route, record.upstream) ∈ labels table) (unknown : record.bytesOut = none) :
    Fits table [] response record :=
  ⟨status, label, fun _ _ acquired => absurd acquired List.not_mem_nil, unknown⟩

theorem mem_labels_of_route {route : Route} (known : route ∈ table.routes) :
    (route.pathPrefix, route.upstream.name) ∈ labels table :=
  List.mem_cons_of_mem _ (List.mem_cons_of_mem _ (List.mem_map_of_mem known))

/-- Whatever the breaker is told at the end, the record is that of the route. -/
theorem fits_routed {route : Route} {answer : Option Admission} {later : List Event}
    {response : Response} {bytesOut : Option Nat} (known : route ∈ table.routes)
    (reports : ∀ upstream answer, .tryAcquire upstream answer ∉ later)
    (announced : bytesOut = (later.filterMap Event.received).head?.bind announcedLength) :
    Fits table (.tryAcquire route.upstream answer :: later) response
      { routed route response.status with bytesOut := bytesOut } where
  status := rfl
  labels := mem_labels_of_route known
  upstream := by
    intro upstream other acquired
    cases List.mem_cons.mp acquired with
    | inl same =>
        cases same
        rfl
    | inr later => exact absurd later (reports upstream other)
  bytesOut := announced

/-- A route of the table, or a response with its record. -/
def Decides (table : RouteTable) : Except (Record × Response) Selected → Prop
  | .ok selected => selected.route ∈ table.routes
  | .error (record, response) => Fits table [] response record

theorem decides_recordedRoute : Decides table (recordedRoute http table req) := by
  have unlabelled : (ascii "none", ascii "none") ∈ labels table := List.mem_cons_self
  have isHealth : (ascii "local_health", ascii "none") ∈ labels table :=
    List.mem_cons_of_mem _ List.mem_cons_self
  simp only [recordedRoute]
  split
  · exact fits_local rfl isHealth rfl
  split
  · exact fits_local rfl unlabelled rfl
  split
  · exact fits_local rfl unlabelled rfl
  cases found : table.lookup req.uri.path with
  | none => exact fits_local rfl unlabelled rfl
  | some route =>
      have known : route ∈ table.routes := List.mem_of_find?_eq_some found
      have upgrades : ∀ strip,
          Decides table (if wantsUpgrade req.headers ∨ req.method = .connect then
            throw (routed route 501,
              errorResponse 501 (ascii "protocol upgrades are not supported"))
          else pure ⟨route, strip⟩) := by
        intro strip
        split
        · exact fits_local rfl (mem_labels_of_route known) rfl
        · exact known
      cases strips : route.stripPrefix with
      | false =>
          simp only [strips]
          exact upgrades none
      | true =>
          simp only [strips]
          cases route.strippedPath req.uri.path with
          | none => exact fits_local rfl unlabelled rfl
          | some stripped => exact upgrades _

theorem recordedUri_error {selected : Selected} {record : Record} {response : Response}
    (fails : recordedUri http req selected = .error (record, response)) :
    record = routed selected.route response.status := by
  have assembled : ∀ pathAndQuery,
      ((http.fromParts selected.route.upstream.uri.scheme selected.route.upstream.uri.authority
        pathAndQuery).mapError fun message => (routed selected.route 502,
          errorResponse 502 (ascii "rebuilding upstream URI: " ++ message))) =
            .error (record, response) →
      record = routed selected.route response.status := by
    intro pathAndQuery failed
    cases built : http.fromParts selected.route.upstream.uri.scheme
        selected.route.upstream.uri.authority pathAndQuery with
    | ok uri =>
        rw [built] at failed
        cases failed
    | error message =>
        rw [built] at failed
        cases failed
        rfl
  simp only [recordedUri] at fails
  cases strip : selected.strip with
  | none =>
      rw [strip] at fails
      exact assembled _ fails
  | some stripped =>
      rw [strip] at fails
      dsimp only at fails
      generalize http.parsePathAndQuery _ = parsed at fails
      cases parsed with
      | none =>
          cases fails
          rfl
      | some pathAndQuery => exact assembled _ fails

/-- Events that neither ask the breaker nor bring a response. -/
def Reports (events : List Event) : Prop :=
  (∀ upstream answer, .tryAcquire upstream answer ∉ events) ∧
    events.filterMap Event.received = []

theorem reports_of_blame {upstream : Upstream} {admission : Admission} {events : List Event}
    (path : Path observer (blameUpstream wrap table upstream admission) events (some ())) :
    Reports events := by
  have judged := verdict_path.mp
    (path_map.mpr ⟨some (), path, show some (errorResponse 502 []) = _ from rfl⟩)
  cases judged.1 with
  | untracked | blamed | spared => simp [Reports, Event.received]

theorem fits_answered {route : Route} (known : route ∈ table.routes) {admission : Admission}
    {sent : Request} {ending : Ending} {later : List Event} (reports : Reports later)
    {response : Response} {bytesOut : Option Nat}
    (announced : bytesOut = (Event.received (.select sent ending)).bind announcedLength) :
    Fits table (.tryAcquire route.upstream (some admission) :: .select sent ending :: later)
      response { routed route response.status with bytesOut := bytesOut } := by
  refine fits_routed known ?_ ?_
  · simpa using reports.1
  · rw [announced, List.filterMap_cons, reports.2]
    cases Event.received (.select sent ending) <;> rfl

theorem logsOnce_recordedConclude {route : Route} (known : route ∈ table.routes)
    (admission : Admission) (countsTimeout : Bool) (sent : Request) (ending : Ending) :
    LogsOnce observer
      (fun events => Fits table
        (.tryAcquire route.upstream (some admission) :: .select sent ending :: events))
      (recordedConclude wrap table route admission countsTimeout ending) := by
  have released : Reports [.release route.upstream admission] := by
    simp [Reports, Event.received]
  cases ending with
  | timedOut =>
      cases countsTimeout with
      | false => exact logsOnce_write (fits_answered known ⟨by simp, rfl⟩ rfl)
      | true =>
          refine logsOnce_act fun _ => logsOnce_write ?_
          exact fits_answered known (by simp [Reports, Event.received, observer, Effect.event]) rfl
  | failed sources =>
      simp only [recordedConclude]
      split
      · refine logsOnce_act fun _ => logsOnce_write ?_
        exact fits_answered known released rfl
      split
      · refine logsOnce_act fun _ => logsOnce_write ?_
        exact fits_answered known released rfl
      · refine logsOnce_silent_bind fun events _ path => logsOnce_write ?_
        rw [List.append_nil]
        exact fits_answered known (reports_of_blame path) rfl
  | responded status headers =>
      simp only [recordedConclude]
      split
      · refine logsOnce_silent_bind fun events _ path => logsOnce_write ?_
        rw [List.append_nil]
        exact fits_answered known (reports_of_blame path) rfl
      · refine logsOnce_act fun _ => logsOnce_write ?_
        exact fits_answered known (by simp [Reports, Event.received, observer, Effect.event]) rfl

theorem logsOnce_recordedForward {selected : Selected} (known : selected.route ∈ table.routes)
    (admission : Admission) :
    LogsOnce observer
      (fun events => Fits table
        (.tryAcquire selected.route.upstream (some admission) :: events))
      (recordedForward http wrap connection table req selected admission) := by
  unfold recordedForward
  cases built : recordedUri http req selected with
  | error refused =>
      obtain ⟨record, response⟩ := refused
      rw [recordedUri_error built]
      refine logsOnce_act fun answer => logsOnce_write ?_
      exact fits_routed known (by simp [observer, Effect.event]) rfl
  | ok uri =>
      refine logsOnce_act fun ending => ?_
      exact logsOnce_recordedConclude known admission _ _ ending

theorem logsOnce_recordedCore :
    LogsOnce observer (Fits table) (recordedCore http wrap connection table req) := by
  have spec := @decides_recordedRoute http table req
  unfold recordedCore
  cases selects : recordedRoute http table req with
  | error refused =>
      rw [selects] at spec
      exact logsOnce_write spec
  | ok selected =>
      rw [selects] at spec
      refine logsOnce_act fun answer => ?_
      cases answer with
      | none => exact logsOnce_write (fits_routed spec (by simp) rfl)
      | some admission => exact logsOnce_recordedForward spec admission

theorem recordedInner_eq {words : UInt64 × UInt64} :
    recordedInner http wrap connection table req words =
      recordedCore http wrap connection table (identify table req words).2 >>= fun response =>
        done (echo (identify table req words).1 response) := by
  rw [recordedInner]
  rfl

theorem logsOnce_recordedInner {words : UInt64 × UInt64} :
    LogsOnce observer (Fits table) (recordedInner http wrap connection table req words) := by
  rw [recordedInner_eq]
  refine logsOnce_map logsOnce_recordedCore fun events response record fits => ?_
  exact ⟨fits.status.trans (echo_status _ _).symm, fits.labels, fits.upstream, fits.bytesOut⟩

theorem erase_recordedInner {words : UInt64 × UInt64} :
    (recordedInner http wrap connection table req words).erase =
      handleInner http wrap connection table req words := by
  rw [recordedInner_eq, erase_bind, erase_recordedCore]
  rfl

theorem sanitize_safe (text : Bytes) (limit : Nat) :
    (sanitize text limit).length ≤ limit ∧ (sanitize text limit).all isGraphic = true := by
  constructor
  · rw [sanitize, List.length_map]
    exact List.length_take_le limit text
  · refine List.all_eq_true.mpr fun c member => ?_
    obtain ⟨raw, -, rfl⟩ := List.mem_map.mp member
    split
    · assumption
    · decide

/-- Host, path and request id are short and cannot break out of their line. -/
structure AccessInfo.IsSafe (info : AccessInfo) : Prop where
  host : info.host.length ≤ 255 ∧ info.host.all isGraphic = true
  path : info.path.length ≤ maxLoggedPath ∧ info.path.all isGraphic = true
  requestId : ∀ id, info.requestId = some id →
    id ≠ [] ∧ id.length ≤ maxRequestId ∧ id.all isGraphic = true

theorem validRequestId_iff {value : HeaderValue} :
    validRequestId value = true ↔
      value.bytes ≠ [] ∧ value.bytes.length ≤ maxRequestId ∧ value.bytes.all isGraphic = true := by
  simp [validRequestId, and_assoc]

theorem loggedId_valid {words : UInt64 × UInt64} {id : Bytes}
    (logged : loggedId table req words = some id) :
    ∃ value : HeaderValue, validRequestId value = true ∧ value.bytes = id := by
  unfold loggedId at logged
  split at logged
  · next isOn =>
    simp only [identify, isOn, if_true, Option.map_some, Option.some.injEq] at logged
    exact ⟨_, (ensureRequestId_spec req.headers words).1, logged⟩
  split at logged
  · obtain ⟨value, kept, rfl⟩ := Option.map_eq_some_iff.mp logged
    exact ⟨value, (Option.filter_eq_some_iff.mp kept).2, rfl⟩
  · cases logged

theorem accessInfo_safe {words : UInt64 × UInt64} {info : AccessInfo}
    (logged : accessInfo connection table req words = some info) : info.IsSafe := by
  unfold accessInfo at logged
  split at logged
  · cases logged
    refine ⟨?_, sanitize_safe _ _, fun id isId => ?_⟩
    · dsimp only
      split
      · exact sanitize_safe _ _
      split
      · exact sanitize_safe _ _
      · decide
    · obtain ⟨value, valid, rfl⟩ := loggedId_valid isId
      exact validRequestId_iff.mp valid
  · cases logged

/-- Without `access_log`, only the metrics get the records. -/
def logLines (info : Option AccessInfo) (records : List Record) : List (AccessInfo × Record) :=
  match info with
  | some info => records.map fun record => (info, record)
  | none => []

/-- The records do not change what the handler does. Every response is recorded once,
with its status and under labels of the table that name the upstream whose breaker was
asked, and a request that the client gave up leaves no record. Host, path and request
id are safe to write in every line of the access log. -/
theorem every_response_recorded_once {words : UInt64 × UInt64} {seen : List (Event ⊕ Record)}
    {ended : Option Response}
    (path : Path observer.logged (recordedInner http wrap connection table req words) seen ended) :
    Path observer (handleInner http wrap connection table req words) (unlogged seen) ended ∧
    (∀ response, ended = some response →
      ∃ record, entries seen = [record] ∧ Fits table (unlogged seen) response record) ∧
    (ended = none → entries seen = []) ∧
    ∀ line ∈ logLines (accessInfo connection table req words) (entries seen), line.1.IsSafe := by
  have once := logsOnce_recordedInner seen ended path
  refine ⟨?_, ?_, ?_, fun line member => ?_⟩
  · rw [← erase_recordedInner]
    exact path_erase.mpr ⟨seen, rfl, path⟩
  · rintro response rfl
    exact once
  · rintro rfl
    exact once
  · unfold logLines at member
    split at member
    · next info logged =>
      obtain ⟨record, -, rfl⟩ := List.mem_map.mp member
      exact accessInfo_safe logged
    · cases member

end Once

/-! ## A logged upload -/

def loggingTable : RouteTable := { apiTable with accessLog := true }

theorem upload_recorded_once :
    ∃ (seen : List (Event ⊕ Record)) (response : Response),
      Path observer.logged
        (recordedInner plainHttp .streaming localClient loggingTable upload (0, 0)) seen
        (some response) ∧
      ∃ record, entries seen = [record] ∧ Fits loggingTable (unlogged seen) response record := by
  have plain := @path_accepted loggingTable upload upload (0, 0) {} rfl (by decide +kernel)
    (by decide +kernel)
  rw [← erase_recordedInner] at plain
  obtain ⟨seen, -, path⟩ := path_erase.mp plain
  exact ⟨seen, _, path, (every_response_recorded_once path).2.1 _ rfl⟩

end Ferryman.Server
