import Ferryman.Core.Ambiguity
import Ferryman.Server.Forwarded

/-!
# The request handler

The shared core of both handlers (`proxy.rs`): choose a route, take a ticket of
the upstream's breaker, rewrite the request, wait for the upstream or the timer
and settle the ticket. Metrics, spans and the access log are not part of the
model.
-/

set_option autoImplicit false

namespace Ferryman.Server

open Ferryman.Core Byte Bytes

/-! ## Requests and responses -/

inductive Method where
  | get
  | head
  | connect
  | other (name : Bytes)
deriving DecidableEq

structure Request where
  method : Method
  uri : Uri
  version : Version
  headers : HeaderMap
  isEndStream : Bool
deriving DecidableEq

inductive ResponseBody where
  | full (text : Bytes)
  | boxed
deriving DecidableEq

structure Response where
  status : Nat
  headers : HeaderMap
  body : ResponseBody
deriving DecidableEq

def errorResponse (status : Nat) (body : Bytes) : Response := ⟨status, {}, .full body⟩

/-- `handle_streaming` tracks the end of the request body, the deprecated `handle`
does not. -/
inductive Wrap where
  | streaming
  | legacy
deriving DecidableEq

/-! ## Before admission -/

def plainAuthority (http : Http) (text : Bytes) : Bool :=
  if text = ascii "*" || (text.any fun c => c == 0x40 || c == comma || c == slash || 0x80 ≤ c) then
    false
  else if !http.isAuthority text then false
  else if colon ∈ text then
    -- what follows the last colon, which may also stand inside `[v6]`
    let port := (text.reverse.takeWhile (· ≠ colon)).reverse
    if closeBracket ∈ port then true
    else
      port ≠ [] && port.all isDigit && (parseWith (readNumber 10 65536 none true) port).isSome
  else true

def badHost (http : Http) (headers : HeaderMap) (uri : Uri) (version : Version) : Bool :=
  match headers.getAll host with
  | [] => uri.authority.isNone && version = .http11
  | [value] => uri.authority.isNone && !plainAuthority http value.bytes
  | _ => true

def wantsUpgrade (headers : HeaderMap) : Bool :=
  match headers.get upgrade with
  | some value => value.bytes.map toLower ≠ ascii "h2c"
  | none => false

/-- A route and, where its prefix is to be stripped, the path to send and the
stripped prefix. -/
structure Selected where
  route : Route
  strip : Option (Bytes × Bytes)
deriving DecidableEq

def badPathResponse : Response := errorResponse 400 (ascii "bad path\n")

def selectRoute (http : Http) (table : RouteTable) (req : Request) : Except Response Selected := do
  let path := req.uri.path
  -- before any other check: no upstream is asked
  if table.localHealthPath = some path ∧ (req.method = .get ∨ req.method = .head) then
    throw (errorResponse 200 (if req.method = .head then [] else ascii "ok"))
  else if badPathNormalized path || ambiguousRoute table path then throw badPathResponse
  else if badHost http req.headers req.uri req.version then
    throw (errorResponse 400 (ascii "bad host\n"))
  else
    match table.lookup path with
    | none => throw (errorResponse 404 (ascii "no route"))
    | some route =>
        -- on the normalised path, and checked once more
        let strip ←
          if route.stripPrefix then
            match route.strippedPath path with
            | some stripped => pure (some (stripped, route.strippedPrefix))
            | none => throw badPathResponse
          else pure none
        if wantsUpgrade req.headers ∨ req.method = .connect then
          throw (errorResponse 501 (ascii "protocol upgrades are not supported"))
        else pure ⟨route, strip⟩

/-! ## The forwarded request -/

/-- The URI of the upstream with the path and query to send. A path that does
not parse is the client's fault. -/
def rebuildUri (http : Http) (req : Request) (selected : Selected) : Except Response Uri := do
  let upstream := selected.route.upstream.uri
  let pathAndQuery ←
    match selected.strip with
    | some (path, _) =>
        let text :=
          match req.uri.query with
          | some query => path ++ 0x3F :: query
          | none => path
        match http.parsePathAndQuery text with
        | some parsed => pure (some parsed)
        | none => throw badPathResponse
    | none => pure req.uri.pathAndQuery
  (http.fromParts upstream.scheme upstream.authority pathAndQuery).mapError fun message =>
    errorResponse 502 (ascii "rebuilding upstream URI: " ++ message)

structure Connection where
  peer : IpAddr
  proto : Proto

def forwarding (connection : Connection) (table : RouteTable) (req : Request)
    (selected : Selected) : Forwarding where
  version := req.version
  uri := req.uri
  upstreamUri := selected.route.upstream.uri
  rewriteHost := selected.route.rewriteHost
  peer := connection.peer
  proto := connection.proto
  policy := ⟨table.trustedProxies, table.forwardedHeader, table.xffMode⟩
  strippedPrefix := selected.strip.map Prod.snd

def forwardedRequest (connection : Connection) (table : RouteTable) (req : Request)
    (selected : Selected) (uri : Uri) : Request :=
  { req with
    uri := uri
    version := .http11
    headers := rewriteHeaders (forwarding connection table req selected) req.headers }

/-! ## Waiting for the upstream -/

inductive ErrorSource where
  | bodyIdleTimeout
  | bodyTotalTimeout
  | hyper (isUser : Bool)
  | other
deriving DecidableEq

/-- How the wait for the upstream ends: the timer fires, the client library
fails, or a response head arrives. -/
inductive Ending where
  | timedOut
  | failed (sources : List ErrorSource)
  | responded (status : Nat) (headers : HeaderMap)
deriving DecidableEq

def isBodyIdleTimeout (sources : List ErrorSource) : Bool :=
  sources.any fun source => source = .bodyIdleTimeout || source = .bodyTotalTimeout

def isClientBodyError (sources : List ErrorSource) : Bool := sources.contains (.hyper true)

/-- What the handler reads of the upload: the start of the current stall (0 for
none), the longest finished one and the clock. -/
structure BodyState where
  stallSince : Nat
  longestStall : Nat
  nowMs : Nat
deriving DecidableEq

def BodyState.clientStalled (state : BodyState) (theta : Duration) : Bool :=
  let t := theta.asMillis % 2 ^ 64
  t ≤ state.longestStall ||
    (state.stallSince ≠ 0 && t ≤ state.nowMs + 1 - state.stallSince)

def stallThreshold (table : RouteTable) : Duration :=
  let half := table.requestBodyIdleTimeout.nanos / 2
  ⟨min half (10 ^ 9), Nat.lt_of_le_of_lt (Nat.min_le_right _ _) (by decide)⟩

inductive Effect : Type → Type where
  | tryAcquire (upstream : Upstream) : Effect (Option Admission)
  | recordSuccess (upstream : Upstream) (admission : Admission) : Effect Unit
  | recordFailure (upstream : Upstream) (admission : Admission) : Effect Unit
  | release (upstream : Upstream) (admission : Admission) : Effect Unit
  | select (sent : Request) : Effect Ending
  | bodyState : Effect BodyState

open Program

def clientStalled (wrap : Wrap) (table : RouteTable) : Program Effect Bool :=
  match wrap with
  | .legacy => pure false
  | .streaming => do
      let state ← lift .bodyState
      pure (state.clientStalled (stallThreshold table))

def blameUpstream (wrap : Wrap) (table : RouteTable) (upstream : Upstream)
    (admission : Admission) : Program Effect Unit := do
  if ← clientStalled wrap table then lift (.release upstream admission)
  else lift (.recordFailure upstream admission)

def conclude (wrap : Wrap) (table : RouteTable) (upstream : Upstream) (admission : Admission)
    (countsTimeout : Bool) : Ending → Program Effect Response
  | .timedOut => do
      if countsTimeout then lift (.recordFailure upstream admission) else pure ()
      pure (errorResponse 504 (ascii "upstream timeout"))
  | .failed sources =>
      if isBodyIdleTimeout sources then do
        lift (.release upstream admission)
        pure (errorResponse 408 (ascii "request body timeout"))
      else if isClientBodyError sources then do
        lift (.release upstream admission)
        pure (errorResponse 400 (ascii "request body error"))
      else do
        blameUpstream wrap table upstream admission
        pure (errorResponse 502 (ascii "bad gateway"))
  | .responded status headers => do
      if 502 ≤ status ∧ status ≤ 504 then blameUpstream wrap table upstream admission
      else lift (.recordSuccess upstream admission)
      pure ⟨status, stripHopByHop headers, .boxed⟩

def forward (http : Http) (wrap : Wrap) (connection : Connection) (table : RouteTable)
    (req : Request) (selected : Selected) (admission : Admission) : Program Effect Response :=
  let upstream := selected.route.upstream
  -- only with a tracked body is a timeout known to be the upstream's fault
  let countsTimeout := req.isEndStream || wrap = .streaming
  match rebuildUri http req selected with
  | .error response => do
      lift (.release upstream admission)
      pure response
  | .ok uri => do
      let ending ← lift (.select (forwardedRequest connection table req selected uri))
      conclude wrap table upstream admission countsTimeout ending

def handleCore (http : Http) (wrap : Wrap) (connection : Connection) (table : RouteTable)
    (req : Request) : Program Effect Response :=
  match selectRoute http table req with
  | .error response => pure response
  | .ok selected => do
      match ← lift (.tryAcquire selected.route.upstream) with
      | none => pure (errorResponse 503 (ascii "upstream unavailable"))
      | some admission => forward http wrap connection table req selected admission

/-! ## Runs of the handler -/

inductive Event where
  | tryAcquire (upstream : Upstream) (answer : Option Admission)
  | recordSuccess (upstream : Upstream) (admission : Admission)
  | recordFailure (upstream : Upstream) (admission : Admission)
  | release (upstream : Upstream) (admission : Admission)
  | select (sent : Request) (ending : Ending)
  | dropped (sent : Request)
  | bodyState (state : BodyState)
deriving DecidableEq

def Effect.event : {γ : Type} → Effect γ → γ → Event
  | _, .tryAcquire upstream, answer => .tryAcquire upstream answer
  | _, .recordSuccess upstream admission, _ => .recordSuccess upstream admission
  | _, .recordFailure upstream admission, _ => .recordFailure upstream admission
  | _, .release upstream admission, _ => .release upstream admission
  | _, .select sent, ending => .select sent ending
  | _, .bodyState, state => .bodyState state

/-- The handler awaits at the `select` only, so its future can be dropped there. -/
def Effect.drop : {γ : Type} → Effect γ → Option Event
  | _, .select sent => some (.dropped sent)
  | _, _ => none

def observer : Observer Effect Event where
  observe := Effect.event
  abandon := Effect.drop

end Ferryman.Server
