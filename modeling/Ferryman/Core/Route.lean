import Ferryman.Core.Breaker
import Ferryman.Core.Path
import Ferryman.Core.Proxies
import Ferryman.Core.Uri
import Mathlib.Data.List.Sort

/-!
# Routes

Upstreams, routes and the routing table (`route.rs`). Breakers are shared, so
an upstream holds the address of its breaker in a heap.
-/

set_option autoImplicit false

namespace Ferryman.Core

open Byte

/-! ## Shared breakers -/

abbrev BreakerId := Nat

structure Heap where
  breakers : List Breaker := []
deriving DecidableEq

namespace Heap

def alloc (heap : Heap) (b : Breaker) : BreakerId × Heap :=
  (heap.breakers.length, ⟨heap.breakers ++ [b]⟩)

def update (heap : Heap) (id : BreakerId) (operation : Breaker → Breaker) : Heap :=
  ⟨heap.breakers.modify id operation⟩

end Heap

/-! ## Upstreams -/

structure Upstream where
  uri : Uri
  name : Bytes
  breaker : BreakerId
  healthPath : Option Bytes
  healthDisabled : Bool
deriving DecidableEq

/-- Host names are case-insensitive; the port defaults from the scheme. -/
def upstreamName (uri : Uri) : Bytes :=
  let host := (uri.host.getD []).map toLower
  let port := (uri.port.map UInt16.toNat).getD
    (if uri.scheme = some (ascii "https") then 443 else 80)
  host ++ colon :: showNumber 10 port

namespace Upstream

def new (uri : Uri) (config : BreakerConfig) (heap : Heap) : Except Error Upstream × Heap :=
  let name := upstreamName uri
  match Breaker.forUpstream name config with
  | .error error => (.error error, heap)
  | .ok breaker =>
      let (id, heap) := heap.alloc breaker
      (.ok ⟨uri, name, id, none, false⟩, heap)

def withHealth (upstream : Upstream) (path : Option Bytes) (disabled : Bool) : Upstream :=
  { upstream with healthPath := path, healthDisabled := disabled }

def reuse (upstream : Upstream) (cooldown : Duration) (failureThreshold : UInt32)
    (healthPath : Option Bytes) (healthDisabled : Bool) (heap : Heap) : Upstream × Heap :=
  let reconfigured := heap.update upstream.breaker fun b =>
    ((Breaker.reconfigure cooldown failureThreshold).run (Atomic.exec 0) b).2
  (upstream.withHealth healthPath healthDisabled, reconfigured)

end Upstream

/-! ## Routes -/

structure Route where
  pathPrefix : Bytes
  upstream : Upstream
  rewriteHost : Bool := false
  stripPrefix : Bool := false
deriving DecidableEq

namespace Route

def strippedPrefix (route : Route) : Bytes := route.pathPrefix.rdropWhile (· == slash)

/-- What follows the prefix on the normalised path, checked once more. -/
def strippedPath (route : Route) (rawPath : Bytes) : Option Bytes :=
  let stripped := route.strippedPrefix
  if stripped = [] then some rawPath
  else
    let norm := normalize rawPath
    if stripped.isPrefixOf norm then
      let rest := norm.drop stripped.length
      let out := if rest = [] then [slash] else rest
      if Bytes.startsWith out "/" && !badPath out then some out else none
    else none

end Route

inductive XffMode where
  | append
  | replace
deriving DecidableEq

structure RouteTable where
  routes : List Route
  upstreamTimeout : Duration
  keepaliveTimeout : Duration := .fromSecs 10
  requestBodyIdleTimeout : Duration := .fromSecs 30
  requestBodyTimeout : Duration := .fromSecs 300
  drainTimeout : Duration := .fromSecs 25
  shutdownDelay : Duration := .fromSecs 0
  trustedProxies : TrustedProxies := {}
  forwardedHeader : Bool := false
  xffMode : XffMode := .append
  localHealthPath : Option Bytes := none
  accessLog : Bool := false
  requestId : Bool := false
deriving DecidableEq

/-- A prefix that ends in `/` matches whatever starts with it, any other only on
a segment boundary. -/
def prefixMatches (pathPrefix path : Bytes) : Bool :=
  if pathPrefix.getLast? = some slash then pathPrefix.isPrefixOf path
  else if !pathPrefix.isPrefixOf path then false
  else
    match path[pathPrefix.length]? with
    | none => true
    | some c => c == slash

namespace RouteTable

/-- Longer prefixes come first; the sort is stable. -/
def new (routes : List Route) (upstreamTimeout : Duration) : RouteTable where
  routes := routes.insertionSort fun first second =>
    second.pathPrefix.length ≤ first.pathPrefix.length
  upstreamTimeout := upstreamTimeout

def lookup (table : RouteTable) (path : Bytes) : Option Route :=
  let path := normalize path
  table.routes.find? fun route => prefixMatches route.pathPrefix path

def upstreams (table : RouteTable) : List Upstream :=
  (table.routes.foldl (fun (seen, found) route =>
    if route.upstream.name ∈ seen then (seen, found)
    else (route.upstream.name :: seen, found ++ [route.upstream]))
    (([] : List Bytes), ([] : List Upstream))).2

end RouteTable

end Ferryman.Core
