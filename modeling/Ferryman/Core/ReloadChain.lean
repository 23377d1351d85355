import Ferryman.Core.Install

/-!
# Chains of reloads

Breakers are told apart by the names of their upstreams in every table that a
chain of reloads reaches, whatever the traffic in between does to them.
-/

set_option autoImplicit false

namespace Ferryman.Core

open Byte Bytes

/-! ## One build -/

/-- Every route of a table comes from a route of its config and has the upstream
that was installed for the name. -/
structure BuiltFrom (http : Http) (cfg : ConfigToml) (prevUpstreams : List Upstream) (heap : Heap)
    (settings : Bytes → Duration) (byName : List (Bytes × Upstream)) (table : RouteTable)
    (after : Heap) : Prop where
  routes : ∀ route ∈ table.routes, ∃ r ∈ cfg.routes, ∃ validated, Validates http cfg r validated ∧
    validated.cooldown = settings validated.name ∧
    byName.lookup validated.name = some route.upstream ∧
    route = installed validated route.upstream
  installing : Placed prevUpstreams heap →
    Installing cfg prevUpstreams heap settings byName after

theorem BuiltFrom.known {http : Http} {cfg : ConfigToml} {prevUpstreams : List Upstream}
    {heap after : Heap} {settings : Bytes → Duration} {byName : List (Bytes × Upstream)}
    {table : RouteTable}
    (built : BuiltFrom http cfg prevUpstreams heap settings byName table after)
    (installing : Installing cfg prevUpstreams heap settings byName after) :
    ∀ route ∈ table.routes, byName.lookup route.upstream.name = some route.upstream := by
  intro route member
  obtain ⟨-, -, validated, -, -, isKnown, -⟩ := built.routes route member
  rwa [installing.named isKnown]

def settingsOf (validated : List ValidatedRoute) (name : Bytes) : Duration :=
  ((validated.find? (·.name = name)).map ValidatedRoute.cooldown).getD (.fromSecs 0)

theorem cooldown_eq_settingsOf {validated : List ValidatedRoute}
    (consistent : validated.Pairwise fun first second =>
      first.name = second.name → SameSettings first second) :
    ∀ route ∈ validated, route.cooldown = settingsOf validated route.name := by
  intro route member
  obtain ⟨first, isFirst⟩ : ∃ first, validated.find? (·.name = route.name) = some first := by
    rw [← Option.isSome_iff_exists, List.find?_isSome]
    exact ⟨route, member, by simp⟩
  have sameName : route.name = first.name := by simpa [eq_comm] using List.find?_some isFirst
  rw [settingsOf, isFirst]
  exact (sameSettings_of_name consistent member (List.mem_of_find?_eq_some isFirst) sameName).1

theorem buildTable_builtFrom {http : Http} {cfg : ConfigToml} {prev : Option RouteTable}
    {heap after : Heap} {table : RouteTable}
    (built : buildTable http cfg prev heap = (.ok table, after)) :
    ∃ settings byName, BuiltFrom http cfg ((prev.map RouteTable.upstreams).getD []) heap settings
      byName table after := by
  obtain ⟨trusted, validated, routes, checked, shape, rfl⟩ := buildTable_eq_ok built
  have accepted := (validateConfig_eq_ok.mp checked).2
  have valid := validateRoutes_eq_ok accepted
  have installable := validateRoutes_installable accepted
  have cooldowns := cooldown_eq_settingsOf valid.consistent
  obtain ⟨routes', shape', each⟩ := @installRoutes_eq cfg
    ((prev.map RouteTable.upstreams).getD []) [] validated installable heap
  obtain ⟨sameRoutes, rfl⟩ := Prod.mk.inj (shape.symm.trans shape')
  obtain rfl := Except.ok.inj sameRoutes
  refine ⟨settingsOf validated, _, ?_, fun placed =>
    Installing.run placed installable cooldowns .initial⟩
  intro route member
  obtain ⟨checkedRoute, isChecked, upstream, known, rfl⟩ :=
    exists_of_forall₂ each.flip ((tableOf_perm cfg trusted routes).subset member)
  obtain ⟨r, inConfig, validates⟩ := exists_of_forall₂ valid.each.flip isChecked
  exact ⟨r, inConfig, checkedRoute, validates, cooldowns _ isChecked, known, rfl⟩

/-! ## Tables that share breakers by name -/

structure Coherent (table : RouteTable) (heap : Heap) : Prop where
  inHeap : ∀ route ∈ table.routes, route.upstream.breaker < heap.breakers.length
  named : ∀ route ∈ table.routes, route.upstream.name = upstreamName route.upstream.uri
  shares : ∀ first ∈ table.routes, ∀ second ∈ table.routes,
    first.upstream.breaker = second.upstream.breaker ↔
      first.upstream.name = second.upstream.name

theorem Coherent.placed {table : RouteTable} {heap : Heap} (coherent : Coherent table heap) :
    Placed table.upstreams heap where
  inHeap upstream member := by
    obtain ⟨route, isRoute, rfl⟩ := mem_upstreams member
    exact coherent.inHeap route isRoute
  apart first isFirst second isSecond same := by
    obtain ⟨route, isRoute, rfl⟩ := mem_upstreams isFirst
    obtain ⟨route', isRoute', rfl⟩ := mem_upstreams isSecond
    exact (coherent.shares route isRoute route' isRoute').mp same

/-- What is known of the tables a build starts from: none, or one that shares
breakers by name. -/
def CoherentPrev (prev : Option RouteTable) (heap : Heap) : Prop :=
  ∀ table ∈ prev, Coherent table heap

theorem CoherentPrev.placed {prev : Option RouteTable} {heap : Heap}
    (coherent : CoherentPrev prev heap) : Placed ((prev.map RouteTable.upstreams).getD []) heap := by
  cases prev with
  | none => exact ⟨by simp, by simp⟩
  | some table => exact (coherent table rfl).placed

theorem CoherentPrev.named {prev : Option RouteTable} {heap : Heap}
    (coherent : CoherentPrev prev heap) {upstream : Upstream}
    (member : upstream ∈ (prev.map RouteTable.upstreams).getD []) :
    upstream.name = upstreamName upstream.uri := by
  cases prev with
  | none => simp at member
  | some table =>
      obtain ⟨route, isRoute, rfl⟩ := mem_upstreams member
      exact (coherent table rfl).named route isRoute

theorem buildTable_shares {http : Http} {cfg : ConfigToml} {prev : Option RouteTable}
    {heap after : Heap} {table : RouteTable}
    (built : buildTable http cfg prev heap = (.ok table, after))
    (placed : Placed ((prev.map RouteTable.upstreams).getD []) heap) {first second : Route}
    (isFirst : first ∈ table.routes) (isSecond : second ∈ table.routes) :
    first.upstream.breaker = second.upstream.breaker ↔
      first.upstream.name = second.upstream.name := by
  obtain ⟨settings, byName, builtFrom⟩ := buildTable_builtFrom built
  have installing := builtFrom.installing placed
  have knownFirst := builtFrom.known installing first isFirst
  have knownSecond := builtFrom.known installing second isSecond
  refine ⟨installing.apart knownFirst knownSecond, fun same => ?_⟩
  rw [same, knownSecond] at knownFirst
  rw [Option.some.inj knownFirst]

theorem buildTable_coherent {http : Http} {cfg : ConfigToml} {prev : Option RouteTable}
    {heap after : Heap} {table : RouteTable} (coherent : CoherentPrev prev heap)
    (built : buildTable http cfg prev heap = (.ok table, after)) : Coherent table after := by
  obtain ⟨settings, byName, builtFrom⟩ := buildTable_builtFrom built
  have installing := builtFrom.installing coherent.placed
  have known := builtFrom.known installing
  constructor
  case inHeap =>
      exact fun route member => (installing.breaker_bound coherent.placed (known route member)).1
  case named =>
      intro route member
      cases found : ((prev.map RouteTable.upstreams).getD []).find?
          (·.name = route.upstream.name) with
      | some previous =>
          obtain ⟨-, sameUri, -⟩ := installing.reused (known route member) found
          have sameName : previous.name = route.upstream.name := by
            simpa using List.find?_some found
          rw [sameUri, ← coherent.named (List.mem_of_find?_eq_some found), sameName]
      | none => exact (installing.fresh (known route member) found).2.1.symm
  case shares =>
      exact fun first isFirst second isSecond =>
        buildTable_shares built coherent.placed isFirst isSecond

/-! ## What a reload does -/

theorem validateUpstream_parses {http : Http} {r : RouteToml} {uri : Uri}
    (accepted : validateUpstream http r = .ok uri) : http.parseUri r.upstream = .ok uri := by
  unfold validateUpstream at accepted
  cases parsed : http.parseUri r.upstream with
  | error => simp [parsed] at accepted
  | ok found =>
      simp only [parsed] at accepted
      cases scheme : found.scheme with
      | none => simp [scheme] at accepted
      | some text =>
          simp only [scheme] at accepted
          split at accepted
          · cases accepted
          · split at accepted
            · cases accepted
            · cases pq : found.pathAndQuery with
              | none => simpa [pq] using accepted
              | some parts =>
                  simp only [pq] at accepted
                  split at accepted
                  · cases accepted
                  · split at accepted
                    · cases accepted
                    · simpa using accepted

theorem asMillis_of_bounded {secs : UInt64} (bounded : secs.toNat ≤ maxSecs.toNat) :
    (Duration.fromSecs secs).asMillis % 2 ^ 64 = 1000 * secs.toNat := by
  have limit : maxSecs.toNat = 86400 := rfl
  simp only [Duration.fromSecs, Duration.asMillis]
  omega

/-- The breaker of a route has the settings of the config. -/
structure Configured (http : Http) (cfg : ConfigToml) (route : Route) (b : Breaker) : Prop where
  source : ∃ r ∈ cfg.routes, r.pathPrefix = route.pathPrefix ∧
    (∃ uri, http.parseUri r.upstream = .ok uri ∧ route.upstream.name = upstreamName uri) ∧
    b.cooldownMillis = 1000 * (r.cooldownSecs.getD cfg.defaultCooldownSecs).toNat
  threshold : b.failureThreshold = cfg.failureThreshold.toNat

/-- How the breakers behind the routes of a new table relate to those before it. -/
structure Reloaded (http : Http) (cfg : ConfigToml) (oldRoutes : List Route) (before : Heap)
    (table : RouteTable) (after : Heap) : Prop where
  kept : ∀ new ∈ table.routes, ∀ old ∈ oldRoutes, old.upstream.name = new.upstream.name →
    new.upstream.breaker = old.upstream.breaker ∧ ∃ b b',
      before.breakers[old.upstream.breaker]? = some b ∧
      after.breakers[new.upstream.breaker]? = some b' ∧ Configured http cfg new b' ∧
      b'.state = b.state ∧ b'.consecutiveFailures = b.consecutiveFailures ∧
      b'.openedAtMillis = b.openedAtMillis ∧ b'.rearmedAtMillis = b.rearmedAtMillis
  fresh : ∀ new ∈ table.routes, (∀ old ∈ oldRoutes, old.upstream.name ≠ new.upstream.name) →
    before.breakers.length ≤ new.upstream.breaker ∧ ∃ b,
      after.breakers[new.upstream.breaker]? = some b ∧ Configured http cfg new b ∧
      b.state = .closed ∧ b.consecutiveFailures = 0 ∧ b.openedAtMillis = 0 ∧
      b.rearmedAtMillis = u64Max

theorem prev_find? (prev : Option RouteTable) (name : Bytes) :
    ((prev.map RouteTable.upstreams).getD []).find? (·.name = name) =
      (((prev.map RouteTable.routes).getD []).find? (·.upstream.name = name)).map
        Route.upstream := by
  cases prev with
  | none => rfl
  | some table => exact find?_upstreams table name

theorem BuiltFrom.configured {http : Http} {cfg : ConfigToml} {prevUpstreams : List Upstream}
    {heap after : Heap} {settings : Bytes → Duration} {byName : List (Bytes × Upstream)}
    {table : RouteTable}
    (built : BuiltFrom http cfg prevUpstreams heap settings byName table after)
    (installing : Installing cfg prevUpstreams heap settings byName after) {route : Route}
    (member : route ∈ table.routes) {b : Breaker}
    (millis : b.cooldownMillis = (settings route.upstream.name).asMillis % 2 ^ 64)
    (threshold : b.failureThreshold = cfg.failureThreshold.toNat) :
    Configured http cfg route b := by
  obtain ⟨r, inConfig, validated, valid, cooldown, known, shape⟩ := built.routes route member
  have sameName := installing.named known
  refine ⟨⟨r, inConfig, ?_, ?_, ?_⟩, threshold⟩
  · rw [shape, installed, valid.pathPrefix]
  · exact ⟨validated.uri, validateUpstream_parses valid.uri, sameName.trans valid.name⟩
  · rw [millis, sameName, ← cooldown, valid.cooldown, asMillis_of_bounded valid.bounded]

theorem buildTable_reloaded {http : Http} {cfg : ConfigToml} {prev : Option RouteTable}
    {heap after : Heap} {table : RouteTable} (coherent : CoherentPrev prev heap)
    (built : buildTable http cfg prev heap = (.ok table, after)) :
    Reloaded http cfg ((prev.map RouteTable.routes).getD []) heap table after := by
  obtain ⟨settings, byName, builtFrom⟩ := buildTable_builtFrom built
  have installing := builtFrom.installing coherent.placed
  have known := builtFrom.known installing
  constructor
  case kept =>
      intro new member old isOld sameName
      obtain ⟨previous, found⟩ : ∃ previous, ((prev.map RouteTable.routes).getD []).find?
          (·.upstream.name = new.upstream.name) = some previous := by
        rw [← Option.isSome_iff_exists, List.find?_isSome]
        exact ⟨old, isOld, by simpa using sameName⟩
      have isPrevious := List.mem_of_find?_eq_some found
      have previousName : previous.upstream.name = new.upstream.name := by
        simpa using List.find?_some found
      obtain ⟨sameBreaker, -, cell⟩ := installing.reused (known new member)
        ((prev_find? prev _).trans (congrArg (Option.map Route.upstream) found))
      have coherentPrev : ∀ first ∈ (prev.map RouteTable.routes).getD [],
          first.upstream.breaker < heap.breakers.length ∧
          (first.upstream.name = old.upstream.name →
            first.upstream.breaker = old.upstream.breaker) := by
        cases prev with
        | none => simp
        | some table =>
            exact fun first isFirst => ⟨(coherent table rfl).inHeap first isFirst,
              ((coherent table rfl).shares first isFirst old isOld).mpr⟩
      have sameOld := (coherentPrev previous isPrevious).2 (previousName.trans sameName.symm)
      have inside := (coherentPrev old isOld).1
      refine ⟨sameBreaker.trans sameOld, heap.breakers[old.upstream.breaker],
        reconfigured (settings new.upstream.name) cfg.failureThreshold
          heap.breakers[old.upstream.breaker], List.getElem?_eq_getElem inside, ?_,
        builtFrom.configured installing member rfl rfl, rfl, rfl, rfl, rfl⟩
      rw [sameBreaker, cell, sameOld, List.getElem?_eq_getElem inside, Option.map_some]
  case fresh =>
      intro new member isNew
      have absent : ((prev.map RouteTable.routes).getD []).find?
          (·.upstream.name = new.upstream.name) = none :=
        List.find?_eq_none.mpr fun old isOld => by simpa using isNew old isOld
      obtain ⟨above, -, cell⟩ := installing.fresh (known new member)
        ((prev_find? prev _).trans (congrArg (Option.map Route.upstream) absent))
      exact ⟨above, _, cell, builtFrom.configured installing member rfl rfl, rfl, rfl, rfl, rfl⟩

/-! ## Chains -/

structure Live where
  table : RouteTable
  heap : Heap

/-- A reload, or an operation on one breaker through whatever table it was found in. -/
inductive ChainEvent where
  | reload (cfg : ConfigToml)
  | operate (id : BreakerId) (operation : Breaker → Breaker)

def Live.step (http : Http) (live : Live) : ChainEvent → Live
  | .reload cfg =>
      match buildTable http cfg (some live.table) live.heap with
      | (.ok table, heap) => ⟨table, heap⟩
      | (.error _, heap) => ⟨live.table, heap⟩
  | .operate id operation => ⟨live.table, live.heap.update id operation⟩

def Live.run (http : Http) (live : Live) (events : List ChainEvent) : Live :=
  events.foldl (Live.step http) live

theorem Live.step_error {http : Http} {live : Live} {cfg : ConfigToml} {error : Error}
    (rejected : (buildTable http cfg (some live.table) live.heap).1 = .error error) :
    live.step http (.reload cfg) = live := by
  rw [Live.step]
  split
  · next built =>
    rw [built] at rejected
    cases rejected
  · next built => rw [(buildTable_rejects built).2]

theorem Live.step_ok {http : Http} {live : Live} {cfg : ConfigToml} {table : RouteTable}
    {after : Heap} (built : buildTable http cfg (some live.table) live.heap = (.ok table, after)) :
    live.step http (.reload cfg) = ⟨table, after⟩ := by
  rw [Live.step, built]

theorem Live.coherent_step {http : Http} {live : Live} (coherent : Coherent live.table live.heap)
    (event : ChainEvent) : Coherent (live.step http event).table (live.step http event).heap := by
  cases event with
  | reload cfg =>
      have coherentPrev : CoherentPrev (some live.table) live.heap := by
        intro table same
        cases same
        exact coherent
      rcases built : buildTable http cfg (some live.table) live.heap with ⟨_ | table, after⟩
      · rw [Live.step_error (congrArg Prod.fst built)]
        exact coherent
      · rw [Live.step_ok built]
        exact buildTable_coherent coherentPrev built
  | operate id operation =>
      refine ⟨fun route member => ?_, coherent.named, coherent.shares⟩
      simpa [Live.step, Heap.update] using coherent.inHeap route member

theorem Live.coherent_run {http : Http} {live : Live} (coherent : Coherent live.table live.heap)
    (events : List ChainEvent) :
    Coherent (live.run http events).table (live.run http events).heap := by
  induction events generalizing live with
  | nil => exact coherent
  | cons event events ih => exact ih (Live.coherent_step coherent event)

/-- The breaker that a table has for a name. -/
def BreakerOf (table : RouteTable) (name : Bytes) (id : BreakerId) : Prop :=
  ∃ route ∈ table.routes, route.upstream.name = name ∧ route.upstream.breaker = id

theorem Live.breakerOf_step {http : Http} {live : Live} (coherent : Coherent live.table live.heap)
    {event : ChainEvent} {name : Bytes} (present : ∃ id, BreakerOf live.table name id)
    (remains : ∃ id, BreakerOf (live.step http event).table name id) (id : BreakerId) :
    BreakerOf live.table name id ↔ BreakerOf (live.step http event).table name id := by
  cases event with
  | operate _ _ => rfl
  | reload cfg =>
      rcases built : buildTable http cfg (some live.table) live.heap with ⟨_ | table, after⟩
      · rw [Live.step_error (congrArg Prod.fst built)]
      · rw [Live.step_ok built] at remains ⊢
        have coherentPrev : CoherentPrev (some live.table) live.heap := by
          intro table same
          cases same
          exact coherent
        have reloaded := buildTable_reloaded coherentPrev built
        obtain ⟨-, old, isOld, oldName, -⟩ := present
        obtain ⟨-, new, isNew, newName, -⟩ := remains
        constructor
        · intro listed
          obtain ⟨route, member, named, rfl⟩ := listed
          exact ⟨new, isNew, newName,
            (reloaded.kept new isNew route member (named.trans newName.symm)).1⟩
        · intro listed
          obtain ⟨route, member, named, rfl⟩ := listed
          exact ⟨old, isOld, oldName,
            ((reloaded.kept route member old isOld (oldName.trans named.symm)).1).symm⟩

theorem Live.breakerOf_run {http : Http} {live : Live} (coherent : Coherent live.table live.heap)
    {events : List ChainEvent} {name : Bytes}
    (remains : ∀ count, ∃ id, BreakerOf (live.run http (events.take count)).table name id)
    (id : BreakerId) :
    BreakerOf live.table name id ↔ BreakerOf (live.run http events).table name id := by
  induction events generalizing live with
  | nil => rfl
  | cons event events ih =>
      have here := remains 0
      have next := remains 1
      rw [Live.breakerOf_step coherent here next id]
      exact ih (Live.coherent_step coherent event) fun count => remains (count + 1)

/-- What happens to a breaker of the live table can be seen in its cell. -/
theorem Live.operated {http : Http} {live : Live} (coherent : Coherent live.table live.heap)
    {name : Bytes} {id : BreakerId} (listed : BreakerOf live.table name id)
    (operation : Breaker → Breaker) :
    ∃ b, live.heap.breakers[id]? = some b ∧
      (live.step http (.operate id operation)).heap.breakers[id]? = some (operation b) ∧
      BreakerOf (live.step http (.operate id operation)).table name id := by
  have inHeap : id < live.heap.breakers.length := by
    obtain ⟨route, member, -, rfl⟩ := listed
    exact coherent.inHeap route member
  refine ⟨live.heap.breakers[id], List.getElem?_eq_getElem inHeap, ?_, listed⟩
  simp only [Live.step, getElem?_update_self, List.getElem?_eq_getElem inHeap,
    Option.map_some]

/-- In every table of a chain of reloads, routes share a breaker iff their upstreams
have the same name. A rejected config changes nothing; an accepted one keeps the
breaker of every name that stays, with its runtime state, and closes a fresh one
for every other. A name that is never dropped keeps one breaker throughout, so that
what is done through an upstream of an older table happens to the breaker of the
current one. -/
theorem breakers_follow_names {http : Http} {cfg₀ : ConfigToml} {heap₀ heap : Heap}
    {table₀ : RouteTable} (started : buildTable http cfg₀ none heap₀ = (.ok table₀, heap))
    (events : List ChainEvent) :
    Reloaded http cfg₀ [] heap₀ table₀ heap ∧
    (∀ first ∈ (Live.run http ⟨table₀, heap⟩ events).table.routes,
      ∀ second ∈ (Live.run http ⟨table₀, heap⟩ events).table.routes,
        first.upstream.breaker = second.upstream.breaker ↔
          upstreamName first.upstream.uri = upstreamName second.upstream.uri) ∧
    (∀ cfg error, (buildTable http cfg (some (Live.run http ⟨table₀, heap⟩ events).table)
        (Live.run http ⟨table₀, heap⟩ events).heap).1 = .error error →
      (Live.run http ⟨table₀, heap⟩ events).step http (.reload cfg) =
        Live.run http ⟨table₀, heap⟩ events) ∧
    (∀ cfg table after, buildTable http cfg (some (Live.run http ⟨table₀, heap⟩ events).table)
        (Live.run http ⟨table₀, heap⟩ events).heap = (.ok table, after) →
      (Live.run http ⟨table₀, heap⟩ events).step http (.reload cfg) = ⟨table, after⟩ ∧
        Reloaded http cfg (Live.run http ⟨table₀, heap⟩ events).table.routes
          (Live.run http ⟨table₀, heap⟩ events).heap table after) ∧
    ∀ name later, (∀ count, ∃ id, BreakerOf
        ((Live.run http ⟨table₀, heap⟩ events).run http (later.take count)).table name id) →
      (∀ id, BreakerOf (Live.run http ⟨table₀, heap⟩ events).table name id ↔
        BreakerOf ((Live.run http ⟨table₀, heap⟩ events).run http later).table name id) ∧
      ∀ old ∈ (Live.run http ⟨table₀, heap⟩ events).table.routes, old.upstream.name = name →
        ∀ current, current = (Live.run http ⟨table₀, heap⟩ events).run http later →
          ∀ operation recorded,
            recorded = current.step http (.operate old.upstream.breaker operation) →
            ∀ new ∈ recorded.table.routes, new.upstream.name = name →
              ∃ b, current.heap.breakers[new.upstream.breaker]? = some b ∧
                recorded.heap.breakers[new.upstream.breaker]? = some (operation b) := by
  have noPrev : CoherentPrev none heap₀ := by rintro table ⟨⟩
  have coherent := @Live.coherent_run http ⟨table₀, heap⟩ (buildTable_coherent noPrev started) events
  refine ⟨buildTable_reloaded noPrev started, ?_, fun cfg error => Live.step_error,
    fun cfg table after built => ⟨Live.step_ok built, ?_⟩, fun name later remains =>
      ⟨Live.breakerOf_run coherent remains, ?_⟩⟩
  · intro first isFirst second isSecond
    rw [coherent.shares first isFirst second isSecond, coherent.named first isFirst,
      coherent.named second isSecond]
  · refine @buildTable_reloaded http cfg (some _) _ _ _ ?_ built
    intro table same
    cases same
    exact coherent
  · rintro old isOld isName current rfl operation recorded rfl new isNew sameName
    have coherentNow := @Live.coherent_run http _ coherent later
    have listed := (Live.breakerOf_run coherent remains _).mp ⟨old, isOld, isName, rfl⟩
    obtain ⟨b, found, done, stays⟩ := @Live.operated http _ coherentNow _ _ listed operation
    -- both routes are of the current table, and of one name
    have same : new.upstream.breaker = old.upstream.breaker := by
      obtain ⟨route, member, named, isCell⟩ := stays
      rw [← isCell]
      exact (coherentNow.shares new isNew route member).mpr (sameName.trans named.symm)
    exact ⟨b, same ▸ found, same ▸ done⟩

def sharedConfig : ConfigToml where
  routes := [
    { pathPrefix := ascii "/a", upstream := ascii "http://A.local" },
    { pathPrefix := ascii "/b", upstream := ascii "http://a.local:80" },
    { pathPrefix := ascii "/c", upstream := ascii "http://c.local" }]

/-- Both routes to the first upstream move, and its name is spelled otherwise. -/
def movedConfig : ConfigToml where
  routes := [
    { pathPrefix := ascii "/d", upstream := ascii "http://d.local" },
    { pathPrefix := ascii "/e", upstream := ascii "http://A.LOCAL:80" }]
  failureThreshold := 3

def sharedLive : Live :=
  match buildTable plainHttp sharedConfig none {} with
  | (.ok table, heap) => ⟨table, heap⟩
  | (.error _, heap) => ⟨RouteTable.new [] (.fromSecs 0), heap⟩

def failed (b : Breaker) : Breaker :=
  ((Breaker.recordFailure b.published .normal).run (Atomic.exec 0) b).2

/-- One failure is recorded; of the two reloads the first is rejected. -/
def movedEvents : List ChainEvent :=
  [.operate 0 failed, .reload { movedConfig with failureThreshold := 0 }, .reload movedConfig]

theorem sharedLive_built :
    buildTable plainHttp sharedConfig none {} = (.ok sharedLive.table, sharedLive.heap) := by
  have accepted : (buildTable plainHttp sharedConfig none {}).1.toOption.isSome = true := by
    decide +kernel
  unfold sharedLive
  rcases built : buildTable plainHttp sharedConfig none {} with ⟨_ | table, heap⟩
  · simp [built, Except.toOption] at accepted
  · rfl

/-- A second failure, recorded through the first table, is counted on the breaker that
the first one was counted on. -/
theorem shared_name_shares_breaker :
    ∃ old ∈ sharedLive.table.routes, old.pathPrefix = ascii "/a" ∧
    ∃ new ∈ (sharedLive.run plainHttp movedEvents).table.routes, new.pathPrefix = ascii "/e" ∧
    ∃ b, b.consecutiveFailures = 1 ∧
      ((sharedLive.run plainHttp movedEvents).step plainHttp
        (.operate old.upstream.breaker failed)).heap.breakers[new.upstream.breaker]? =
          some (failed b) := by
  have listed : ∀ front ∈ (movedEvents.drop 1).inits, ∃ route ∈ ((sharedLive.run plainHttp
      (movedEvents.take 1)).run plainHttp front).table.routes,
      route.upstream.name = ascii "a.local:80" := by decide +kernel
  have remains : ∀ count, ∃ id, BreakerOf ((sharedLive.run plainHttp
      (movedEvents.take 1)).run plainHttp ((movedEvents.drop 1).take count)).table
      (ascii "a.local:80") id := by
    intro count
    obtain ⟨route, member, named⟩ := listed _ ((List.mem_inits _ _).mpr (List.take_prefix _ _))
    exact ⟨_, route, member, named, rfl⟩
  obtain ⟨old, isOld, isFirst⟩ : ∃ old ∈ sharedLive.table.routes,
      old.pathPrefix = ascii "/a" ∧ old.upstream.name = ascii "a.local:80" := by decide +kernel
  obtain ⟨new, isNew, isMoved⟩ : ∃ new ∈ (sharedLive.run plainHttp movedEvents).table.routes,
      new.pathPrefix = ascii "/e" ∧ new.upstream.name = ascii "a.local:80" ∧
        ∃ b ∈ (sharedLive.run plainHttp movedEvents).heap.breakers[new.upstream.breaker]?,
          b.consecutiveFailures = 1 := by decide +kernel
  obtain ⟨-, -, -, -, follows⟩ := breakers_follow_names sharedLive_built (movedEvents.take 1)
  obtain ⟨isPrefix, isName, b, isBreaker, once⟩ := isMoved
  obtain ⟨same, found, recorded⟩ :=
    (follows _ _ remains).2 old isOld isFirst.2 _ rfl failed _ rfl new isNew isName
  obtain rfl := Option.some.inj (isBreaker.symm.trans found)
  exact ⟨old, isOld, isFirst.1, new, isNew, isPrefix, b, once, recorded⟩

end Ferryman.Core
