import Ferryman.Core.Route

/-!
# Building the routing table

`build_table` (`config.rs`) from a parsed config file. The maps of the source
are association lists with one entry per key.
-/

set_option autoImplicit false

namespace Ferryman.Core

open Byte Bytes

structure RouteToml where
  pathPrefix : Bytes
  upstream : Bytes
  cooldownSecs : Option UInt64 := none
  healthPath : Option Bytes := none
  healthDisabled : Bool := false
  rewriteHost : Bool := false
  stripPrefix : Bool := false
deriving DecidableEq

structure ConfigToml where
  healthIntervalSecs : UInt64 := 5
  defaultCooldownSecs : UInt64 := 30
  failureThreshold : UInt32 := 3
  upstreamTimeoutSecs : UInt64 := 30
  keepaliveTimeoutSecs : UInt64 := 10
  trustedProxies : List Bytes := []
  requestBodyIdleTimeoutSecs : UInt64 := 30
  requestBodyTimeoutSecs : UInt64 := 300
  localHealthPath : Option Bytes := none
  drainTimeoutSecs : UInt64 := 25
  shutdownDelaySecs : UInt64 := 0
  forwardedHeader : Bool := false
  xff : XffMode := .append
  accessLog : Bool := false
  requestId : Bool := false
  routes : List RouteToml
deriving DecidableEq

def maxSecs : UInt64 := 86400

def showSecs (secs : UInt64) : Bytes := showNumber 10 secs.toNat

def tooLong (secs : UInt64) : Bytes :=
  ascii "must be <= " ++ showSecs maxSecs ++ ascii ", got " ++ showSecs secs

/-! ## Top-level keys -/

def validateSecs (key : String) (secs : UInt64) : Except Error Unit :=
  if secs = 0 then .error (.invalidConfig (ascii key) (ascii "must be >= 1"))
  else if secs > maxSecs then .error (.invalidConfig (ascii key) (tooLong secs))
  else .ok ()

def isPlainPath (http : Http) (path : Bytes) : Bool :=
  startsWith path "/" && !(path.contains 0x3F || path.contains 0x23) &&
    (http.parsePathAndQuery path).isSome

def validateLocalHealthPath (http : Http) (cfg : ConfigToml) : Except Error Unit :=
  let bad (reason : Bytes) : Error := .invalidConfig (ascii "local_health_path") reason
  match cfg.localHealthPath with
  | none => .ok ()
  | some path =>
      if !isPlainPath http path then
        .error (bad (debugText path ++ ascii " must start with '/' and contain no '?' or '#'"))
      else if badPath path then
        .error (bad (debugText path ++ ascii " is not an acceptable request path"))
      else
        match cfg.routes.find? (·.pathPrefix = path) with
        | some route =>
            .error (bad (debugText path ++ ascii " equals the prefix of route " ++
              debugText route.pathPrefix ++ ascii " and would shadow it"))
        | none => .ok ()

/-- Everything that is checked before the routes. -/
def validateGlobals (http : Http) (cfg : ConfigToml) : Except Error TrustedProxies := do
  reject (cfg.failureThreshold < 1) (.invalidConfig (ascii "failure_threshold")
    (ascii "must be >= 1, got " ++ showNumber 10 cfg.failureThreshold.toNat))
  validateSecs "health_interval_secs" cfg.healthIntervalSecs
  validateSecs "upstream_timeout_secs" cfg.upstreamTimeoutSecs
  validateSecs "default_cooldown_secs" cfg.defaultCooldownSecs
  validateSecs "keepalive_timeout_secs" cfg.keepaliveTimeoutSecs
  validateSecs "request_body_idle_timeout_secs" cfg.requestBodyIdleTimeoutSecs
  validateSecs "request_body_timeout_secs" cfg.requestBodyTimeoutSecs
  validateSecs "drain_timeout_secs" cfg.drainTimeoutSecs
  reject (cfg.shutdownDelaySecs > maxSecs)
    (.invalidConfig (ascii "shutdown_delay_secs") (tooLong cfg.shutdownDelaySecs))
  validateLocalHealthPath http cfg
  TrustedProxies.parse cfg.trustedProxies

/-! ## Routes -/

/-- A prefix is absolute, ASCII, in normal form and free of anything that an
upstream may read as a separator or as parameters. -/
def validatePrefix (pathPrefix : Bytes) : Except Error Unit :=
  let isAscii := pathPrefix.all (· < 0x80)
  let upper := pathPrefix.map toUpper
  if !startsWith pathPrefix "/" then .error (.invalidPrefix pathPrefix)
  else if !isAscii || normalize pathPrefix ≠ pathPrefix then
    .error (.nonCanonicalPrefix pathPrefix
      (if isAscii then normalize pathPrefix
        else ascii "ASCII only (percent-encode non-ASCII bytes)"))
  else if pathPrefix.contains semicolon || pathPrefix.contains backslash ||
      containsText upper "%2F" || containsText upper "%5C" then
    .error (.nonCanonicalPrefix pathPrefix
      (ascii "prefixes may not contain ';', '\\', %2F or %5C (such requests are rejected as ambiguous)"))
  else .ok ()

def validateUpstream (http : Http) (r : RouteToml) : Except Error Uri :=
  let bad (reason : Bytes) (source : Option Bytes) : Error :=
    .invalidUpstream r.pathPrefix r.upstream reason source
  let shown := debugText r.upstream
  match http.parseUri r.upstream with
  | .error e => .error (bad (ascii "invalid upstream URI " ++ shown) (some e))
  | .ok uri =>
      match uri.scheme with
      | none =>
          .error (bad (ascii "upstream " ++ shown ++
            ascii " has no scheme (expected e.g. http://host:port)") none)
      | some scheme =>
          if scheme ≠ ascii "http" then
            -- the dash is U+2014
            .error (bad (ascii "upstream " ++ shown ++ ascii " has scheme " ++ debugText scheme ++
              space :: 0xE2 :: 0x80 :: 0x94 :: ascii " https upstreams are not supported") none)
          else if uri.host.all fun host => host.all fun c => c == openBracket || c == closeBracket then
            .error (bad (ascii "upstream " ++ shown ++ ascii " has no host") none)
          else
            match uri.pathAndQuery with
            | none => .ok uri
            | some pq =>
                if pq.query.isSome then
                  .error (bad (ascii "upstream " ++ shown ++
                    ascii " must not include a query string") none)
                else if pq.path ≠ [] ∧ pq.path ≠ ascii "/" then
                  .error (bad (ascii "upstream " ++ shown ++ ascii " must not include a path (got " ++
                    debugText pq.path ++ ascii ")") none)
                else .ok uri

structure ValidatedRoute where
  pathPrefix : Bytes
  uri : Uri
  name : Bytes
  cooldown : Duration
  breaker : BreakerConfig
  healthPath : Bytes
  healthDisabled : Bool
  rewriteHost : Bool
  stripPrefix : Bool

structure Validation where
  seenPrefixes : List Bytes := []
  cooldownByName : List (Bytes × Duration) := []
  healthByName : List (Bytes × Bytes × Bool) := []

def entryOr {α : Type} (key : Bytes) (value : α) (entries : List (Bytes × α)) :
    α × List (Bytes × α) :=
  match entries.lookup key with
  | some first => (first, entries)
  | none => (value, (key, value) :: entries)

def showBool (flag : Bool) : Bytes := if flag then ascii "true" else ascii "false"

def validateHealthPath (http : Http) (r : RouteToml) : Except Error Unit :=
  match r.healthPath with
  | none => .ok ()
  | some path =>
      if isPlainPath http path then .ok () else .error (.invalidHealthPath r.pathPrefix path)

def validateRoute (http : Http) (cfg : ConfigToml) (seen : Validation) (r : RouteToml) :
    Except Error (ValidatedRoute × Validation) := do
  validatePrefix r.pathPrefix
  reject (seen.seenPrefixes.contains r.pathPrefix = true) (.duplicatePrefix r.pathPrefix)
  let uri ← validateUpstream http r
  let name := upstreamName uri
  let cooldown := Duration.fromSecs (r.cooldownSecs.getD cfg.defaultCooldownSecs)
  reject (cooldown.nanos = 0) (.invalidCooldown r.pathPrefix (ascii "must be >= 1"))
  reject (cooldown.asSecs > maxSecs.toNat) (.invalidCooldown r.pathPrefix
    (ascii "must be <= " ++ showSecs maxSecs ++ ascii ", got " ++ showNumber 10 cooldown.asSecs))
  let breaker : BreakerConfig :=
    { cooldown := cooldown, failureThreshold := cfg.failureThreshold }
  breaker.validate.mapError fun
    | .invalidBreakerConfig reason _ => .invalidBreakerConfig reason (some name)
    | error => error
  let (firstCooldown, cooldownByName) := entryOr name cooldown seen.cooldownByName
  reject (firstCooldown ≠ cooldown)
    (.conflictingCooldown r.pathPrefix name cooldown.asSecs firstCooldown.asSecs)
  validateHealthPath http r
  let health := (r.healthPath.getD (ascii "/health"), r.healthDisabled)
  let (firstHealth, healthByName) := entryOr name health seen.healthByName
  reject (firstHealth.1 ≠ health.1)
    (.conflictingHealth r.pathPrefix name (ascii "health_path") health.1 firstHealth.1)
  reject (firstHealth.2 ≠ health.2)
    (.conflictingHealth r.pathPrefix name (ascii "health_disabled")
      (showBool health.2) (showBool firstHealth.2))
  pure (
    { pathPrefix := r.pathPrefix, uri, name, cooldown, breaker, healthPath := health.1,
      healthDisabled := health.2, rewriteHost := r.rewriteHost, stripPrefix := r.stripPrefix },
    { seenPrefixes := r.pathPrefix :: seen.seenPrefixes, cooldownByName, healthByName })

def validateRoutes (http : Http) (cfg : ConfigToml) :
    Validation → List RouteToml → Except Error (List ValidatedRoute)
  | _, [] => .ok []
  | seen, r :: rest => do
      let (validated, seen) ← validateRoute http cfg seen r
      let others ← validateRoutes http cfg seen rest
      pure (validated :: others)

/-! ## Installing -/

/-- The upstream of one route: shared with an earlier route, taken over from the
previous table, or new. -/
def acquireUpstream (cfg : ConfigToml) (prevUpstreams : List Upstream)
    (byName : List (Bytes × Upstream)) (route : ValidatedRoute) (heap : Heap) :
    Except Error Upstream × Heap :=
  match byName.lookup route.name with
  | some upstream => (.ok upstream, heap)
  | none =>
      match prevUpstreams.find? (·.name = route.name) with
      | some previous =>
          let (upstream, heap) := previous.reuse route.cooldown cfg.failureThreshold
            (some route.healthPath) route.healthDisabled heap
          (.ok upstream, heap)
      | none =>
          let (created, heap) := Upstream.new route.uri route.breaker heap
          (created.map (·.withHealth (some route.healthPath) route.healthDisabled), heap)

def installRoutes (cfg : ConfigToml) (prevUpstreams : List Upstream) :
    List (Bytes × Upstream) → List ValidatedRoute → Heap → Except Error (List Route) × Heap
  | _, [], heap => (.ok [], heap)
  | byName, route :: rest, heap =>
      match acquireUpstream cfg prevUpstreams byName route heap with
      | (.error error, heap) => (.error error, heap)
      | (.ok upstream, heap) =>
          let byName := if (byName.lookup route.name).isSome then byName
            else (route.name, upstream) :: byName
          let (routes, heap) := installRoutes cfg prevUpstreams byName rest heap
          let installed : Route :=
            { pathPrefix := route.pathPrefix, upstream := upstream
              rewriteHost := route.rewriteHost, stripPrefix := route.stripPrefix }
          (routes.map (installed :: ·), heap)

/-- Build a table; upstreams that `prev` also has keep their breakers. -/
def buildTable (http : Http) (cfg : ConfigToml) (prev : Option RouteTable) (heap : Heap) :
    Except Error RouteTable × Heap :=
  let validated := do
    let trusted ← validateGlobals http cfg
    let routes ← validateRoutes http cfg {} cfg.routes
    pure (trusted, routes)
  match validated with
  | .error error => (.error error, heap)
  | .ok (trusted, validated) =>
      let prevUpstreams := (prev.map RouteTable.upstreams).getD []
      let (routes, heap) := installRoutes cfg prevUpstreams [] validated heap
      (routes.map fun routes =>
        { RouteTable.new routes (.fromSecs cfg.upstreamTimeoutSecs) with
          keepaliveTimeout := .fromSecs cfg.keepaliveTimeoutSecs
          requestBodyIdleTimeout := .fromSecs cfg.requestBodyIdleTimeoutSecs
          requestBodyTimeout := .fromSecs cfg.requestBodyTimeoutSecs
          drainTimeout := .fromSecs cfg.drainTimeoutSecs
          shutdownDelay := .fromSecs cfg.shutdownDelaySecs
          trustedProxies := trusted
          forwardedHeader := cfg.forwardedHeader
          xffMode := cfg.xff
          accessLog := cfg.accessLog
          requestId := cfg.requestId
          localHealthPath := cfg.localHealthPath }, heap)

end Ferryman.Core
