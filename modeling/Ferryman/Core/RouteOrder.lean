import Ferryman.Core.FreshTable
import Ferryman.Core.LongestPrefix
import Mathlib.Data.List.Perm.Basic

/-!
# The order of routes in the config

The checks run through the routes with maps of what was seen first, and the
lookup scans a table sorted by length only. Neither depends on the order in
which the config lists the routes.
-/

set_option autoImplicit false

namespace Ferryman.Core

open Byte Bytes

/-! ## One route, whatever came before -/

section OneRoute

variable {http : Http} {cfg : ConfigToml} {seen other after : Validation} {r : RouteToml}
  {validated : ValidatedRoute}

theorem entryOr_fst {α : Type} {key : Bytes} {value : α} {entries : List (Bytes × α)}
    (agrees : ∀ first, entries.lookup key = some first → first = value) :
    (entryOr key value entries).1 = value := by
  unfold entryOr
  cases found : entries.lookup key with
  | none => rfl
  | some first => exact agrees first found

/-- Earlier routes have nothing against this one. -/
structure Agrees (seen : Validation) (validated : ValidatedRoute) : Prop where
  unseen : validated.pathPrefix ∉ seen.seenPrefixes
  cooldown : ∀ first, seen.cooldownByName.lookup validated.name = some first →
    first = validated.cooldown
  health : ∀ first, seen.healthByName.lookup validated.name = some first →
    first = (validated.healthPath, validated.healthDisabled)

def Validation.remember (seen : Validation) (validated : ValidatedRoute) : Validation where
  seenPrefixes := validated.pathPrefix :: seen.seenPrefixes
  cooldownByName := (entryOr validated.name validated.cooldown seen.cooldownByName).2
  healthByName := (entryOr validated.name (validated.healthPath, validated.healthDisabled)
    seen.healthByName).2

/-- A route that passed after some routes passes after any others that agree with it. -/
theorem validateRoute_after (accepted : validateRoute http cfg seen r = .ok (validated, after))
    (agrees : Agrees other validated) :
    validateRoute http cfg other r = .ok (validated, other.remember validated) := by
  simp only [validateRoute, bind_eq_ok, reject_eq_ok, mapError_eq_ok, pure, Except.pure,
    Except.ok.injEq, Prod.mk.injEq] at accepted ⊢
  obtain ⟨_, canonical, _, _, uri, checkedUri, _, positive, _, inBounds, _, breakerValid, _,
    _, _, health, _, _, _, _, rfl, rfl⟩ := accepted
  have sameCooldown := entryOr_fst agrees.cooldown
  have sameHealth := entryOr_fst agrees.health
  refine ⟨(), canonical, (), by simpa using agrees.unseen, uri, checkedUri, (), positive, (),
    inBounds, (), breakerValid, (), ?_, (), health, (), ?_, (), ?_, rfl, rfl⟩
  · simpa using sameCooldown
  · simpa using congrArg Prod.fst sameHealth
  · simpa using congrArg Prod.snd sameHealth

theorem entryOr_lookup_cases {α : Type} {key name : Bytes} {value found : α}
    {entries : List (Bytes × α)} (isFound : (entryOr key value entries).2.lookup name = some found) :
    (name = key ∧ found = value) ∨ entries.lookup name = some found := by
  unfold entryOr at isFound
  cases known : entries.lookup key with
  | some first =>
      rw [known] at isFound
      exact .inr isFound
  | none =>
      rw [known] at isFound
      exact (lookup_cons_cases isFound).imp_right And.right

/-- A route that agrees with what was seen and with one more route agrees with both. -/
theorem Agrees.remember {next : ValidatedRoute} (agrees : Agrees seen next)
    (distinct : next.pathPrefix ≠ validated.pathPrefix)
    (consistent : validated.name = next.name → SameSettings validated next) :
    Agrees (seen.remember validated) next where
  unseen := by
    simp only [Validation.remember, List.mem_cons, not_or]
    exact ⟨distinct, agrees.unseen⟩
  cooldown := by
    intro first isFirst
    cases entryOr_lookup_cases isFirst with
    | inl same =>
        obtain ⟨sameName, rfl⟩ := same
        exact (consistent sameName.symm).1
    | inr earlier => exact agrees.cooldown first earlier
  health := by
    intro first isFirst
    cases entryOr_lookup_cases isFirst with
    | inl same =>
        obtain ⟨sameName, rfl⟩ := same
        obtain ⟨-, samePath, sameDisabled⟩ := consistent sameName.symm
        exact Prod.ext samePath sameDisabled
    | inr earlier => exact agrees.health first earlier

end OneRoute

/-! ## All routes -/

/-- The route passes on its own. -/
def Checks (http : Http) (cfg : ConfigToml) (r : RouteToml) (validated : ValidatedRoute) : Prop :=
  ∃ after, validateRoute http cfg {} r = .ok (validated, after)

/-- Routes pass together exactly if each passes on its own, no prefix occurs twice, and
routes of one name have one cooldown and one health check. -/
structure PassTogether (http : Http) (cfg : ConfigToml) (routes : List RouteToml)
    (validated : List ValidatedRoute) : Prop where
  each : List.Forall₂ (Checks http cfg) routes validated
  distinct : (validated.map ValidatedRoute.pathPrefix).Nodup
  consistent : validated.Pairwise fun first second =>
    first.name = second.name → SameSettings first second

section AllRoutes

variable {http : Http} {cfg : ConfigToml} {seen : Validation} {routes reordered : List RouteToml}
  {validated : List ValidatedRoute}

theorem validateRoutes_checks (accepted : validateRoutes http cfg seen routes = .ok validated) :
    List.Forall₂ (Checks http cfg) routes validated := by
  induction routes generalizing seen validated with
  | nil =>
      simp only [validateRoutes, Except.ok.injEq] at accepted
      subst accepted
      exact .nil
  | cons r routes ih =>
      simp only [validateRoutes, bind_eq_ok, pure, Except.pure, Except.ok.injEq] at accepted
      obtain ⟨⟨first, after⟩, acceptedFirst, others, acceptedRest, rfl⟩ := accepted
      have nothing : Agrees {} first := ⟨by simp, by simp, by simp⟩
      exact .cons ⟨_, validateRoute_after acceptedFirst nothing⟩ (ih acceptedRest)

theorem validateRoutes_of_passTogether (together : PassTogether http cfg routes validated)
    (agrees : ∀ route ∈ validated, Agrees seen route) :
    validateRoutes http cfg seen routes = .ok validated := by
  obtain ⟨each, distinct, consistent⟩ := together
  induction each generalizing seen with
  | nil => rfl
  | @cons r first routes rest checks each ih =>
      obtain ⟨after, accepted⟩ := checks
      rw [List.map_cons, List.nodup_cons] at distinct
      rw [List.pairwise_cons] at consistent
      rw [List.forall_mem_cons] at agrees
      have later : ∀ route ∈ rest, Agrees (seen.remember first) route := by
        intro route member
        refine (agrees.2 route member).remember (fun same => ?_) (consistent.1 route member)
        exact distinct.1 (same ▸ List.mem_map_of_mem member)
      simp only [validateRoutes, bind_eq_ok, pure, Except.pure, Except.ok.injEq]
      exact ⟨_, validateRoute_after accepted agrees.1, rest, ih later distinct.2 consistent.2, rfl⟩

theorem validateRoutes_iff :
    validateRoutes http cfg {} routes = .ok validated ↔
      PassTogether http cfg routes validated := by
  constructor
  · intro accepted
    have valid := validateRoutes_eq_ok accepted
    refine ⟨validateRoutes_checks accepted, ?_, valid.consistent⟩
    have samePrefixes := map_eq_of_forall₂ (valid.each.imp fun _ _ valid => valid.pathPrefix)
    exact samePrefixes ▸ valid.distinct
  · intro together
    exact validateRoutes_of_passTogether together fun _ _ => ⟨by simp, by simp, by simp⟩

theorem PassTogether.perm (together : PassTogether http cfg routes validated)
    (isPerm : reordered.Perm routes) :
    ∃ moved, moved.Perm validated ∧ PassTogether http cfg reordered moved := by
  obtain ⟨moved, each, movedPerm⟩ := List.perm_comp_forall₂ isPerm together.each
  refine ⟨moved, movedPerm, each, ?_, ?_⟩
  · exact (movedPerm.map _).nodup_iff.mpr together.distinct
  · refine (movedPerm.pairwise_iff ?_).mpr together.consistent
    exact fun consistent sameName => (consistent sameName.symm).symm

end AllRoutes

/-! ## The checks of a whole config -/

def ConfigToml.withRoutes (cfg : ConfigToml) (routes : List RouteToml) : ConfigToml :=
  { cfg with routes := routes }

section Config

variable {http : Http} {cfg : ConfigToml} {routes : List RouteToml}

theorem find?_pathPrefix (routes : List RouteToml) (path : Bytes) :
    (routes.find? (·.pathPrefix = path)).map RouteToml.pathPrefix =
      if path ∈ routes.map RouteToml.pathPrefix then some path else none := by
  cases found : routes.find? (·.pathPrefix = path) with
  | none =>
      rw [if_neg]
      · rfl
      · intro member
        obtain ⟨r, inRoutes, same⟩ := List.mem_map.mp member
        exact absurd same (by simpa using List.find?_eq_none.mp found r inRoutes)
  | some r =>
      have same : r.pathPrefix = path := by simpa using List.find?_some found
      rw [if_pos (List.mem_map.mpr ⟨r, List.mem_of_find?_eq_some found, same⟩), Option.map_some, same]

theorem validateLocalHealthPath_perm (isPerm : routes.Perm cfg.routes) :
    validateLocalHealthPath http (cfg.withRoutes routes) = validateLocalHealthPath http cfg := by
  unfold validateLocalHealthPath
  simp only [ConfigToml.withRoutes]
  cases cfg.localHealthPath with
  | none => rfl
  | some path =>
      have sameHit : (routes.find? (·.pathPrefix = path)).map RouteToml.pathPrefix =
          (cfg.routes.find? (·.pathPrefix = path)).map RouteToml.pathPrefix := by
        simp only [find?_pathPrefix, (isPerm.map _).mem_iff]
      cases found : routes.find? (·.pathPrefix = path) with
      | none =>
          rw [found, Option.map_none, eq_comm, Option.map_eq_none_iff] at sameHit
          simp only [found, sameHit]
      | some r =>
          rw [found, Option.map_some, eq_comm, Option.map_eq_some_iff] at sameHit
          obtain ⟨r', found', same⟩ := sameHit
          simp only [found, found', same]

theorem validateGlobals_perm (isPerm : routes.Perm cfg.routes) :
    validateGlobals http (cfg.withRoutes routes) = validateGlobals http cfg := by
  unfold validateGlobals
  rw [validateLocalHealthPath_perm isPerm]
  rfl

theorem validateRoutes_withRoutes (seen : Validation) (checked : List RouteToml) :
    validateRoutes http (cfg.withRoutes routes) seen checked =
      validateRoutes http cfg seen checked := by
  induction checked generalizing seen with
  | nil => rfl
  | cons r checked ih =>
      simp only [validateRoutes, ih]
      rfl

theorem validateConfig_perm {trusted : TrustedProxies} {validated : List ValidatedRoute}
    (isPerm : routes.Perm cfg.routes)
    (checked : validateConfig http cfg = .ok (trusted, validated)) :
    ∃ moved, moved.Perm validated ∧
      validateConfig http (cfg.withRoutes routes) = .ok (trusted, moved) := by
  obtain ⟨globals, accepted⟩ := validateConfig_eq_ok.mp checked
  obtain ⟨moved, movedPerm, together⟩ := (validateRoutes_iff.mp accepted).perm isPerm
  refine ⟨moved, movedPerm, validateConfig_eq_ok.mpr ⟨?_, ?_⟩⟩
  · rw [validateGlobals_perm isPerm]
    exact globals
  · rw [validateRoutes_withRoutes]
    exact validateRoutes_iff.mpr together

end Config

/-! ## What a route of the table says -/

/-- A route of the table has the settings of its own entry in the config, whatever
stands before it. -/
structure Describes (http : Http) (cfg : ConfigToml) (heap : Heap) (r : RouteToml)
    (route : Route) : Prop where
  pathPrefix : route.pathPrefix = r.pathPrefix
  name : ∃ uri, http.parseUri r.upstream = .ok uri ∧ route.upstream.name = upstreamName uri
  cooldown : ∃ b, heap.breakers[route.upstream.breaker]? = some b ∧
    b.cooldownMillis = 1000 * (r.cooldownSecs.getD cfg.defaultCooldownSecs).toNat
  healthPath : route.upstream.healthPath = some (r.healthPath.getD (ascii "/health"))
  healthDisabled : route.upstream.healthDisabled = r.healthDisabled
  rewriteHost : route.rewriteHost = r.rewriteHost
  stripPrefix : route.stripPrefix = r.stripPrefix

theorem Installing.cooldown {cfg : ConfigToml} {prevUpstreams : List Upstream} {start heap : Heap}
    {settings : Bytes → Duration} {byName : List (Bytes × Upstream)} {name : Bytes}
    {upstream : Upstream} (placed : Placed prevUpstreams start)
    (installing : Installing cfg prevUpstreams start settings byName heap)
    (known : byName.lookup name = some upstream) :
    ∃ b, heap.breakers[upstream.breaker]? = some b ∧
      b.cooldownMillis = (settings name).asMillis % 2 ^ 64 := by
  cases found : prevUpstreams.find? (·.name = name) with
  | none => exact ⟨_, (installing.fresh known found).2.2, rfl⟩
  | some previous =>
      obtain ⟨same, -, cell⟩ := installing.reused known found
      have inside := placed.inHeap previous (List.mem_of_find?_eq_some found)
      rw [List.getElem?_eq_getElem inside, Option.map_some] at cell
      exact ⟨_, by rw [same]; exact cell, rfl⟩

section Table

variable {http : Http} {cfg : ConfigToml} {prev : Option RouteTable} {heap after : Heap}
  {table : RouteTable}

/-- The health check of a route is the one of its own entry, although the upstream was
installed for the first entry of its name. -/
theorem route_health (built : (buildTable http cfg prev heap).1 = .ok table) {r : RouteToml}
    (inConfig : r ∈ cfg.routes) {route : Route} (member : route ∈ table.routes)
    (own : route.pathPrefix = r.pathPrefix) :
    route.upstream.healthPath = some (r.healthPath.getD (ascii "/health")) ∧
      route.upstream.healthDisabled = r.healthDisabled ∧ route.rewriteHost = r.rewriteHost ∧
      route.stripPrefix = r.stripPrefix := by
  obtain ⟨trusted, validated, -, checked, -, -⟩ := buildTable_eq_ok (Prod.ext built rfl)
  have valid := validateRoutes_eq_ok (validateConfig_eq_ok.mp checked).2
  obtain ⟨source, isSource, first, isFirst, same⟩ := route_settled checked built member
  obtain ⟨r', inConfig', validates⟩ := exists_of_forall₂ valid.each.flip isSource
  have samePrefix : route.pathPrefix = source.pathPrefix := congrArg Route.pathPrefix same
  obtain rfl := List.inj_on_of_nodup_map valid.distinct inConfig inConfig'
    (own.symm.trans (samePrefix.trans (Validates.pathPrefix validates)))
  have named : first.name = source.name := by simpa using List.find?_some isFirst
  obtain ⟨-, samePath, sameDisabled⟩ := sameSettings_of_name valid.consistent
    (List.mem_of_find?_eq_some isFirst) isSource named
  refine ⟨?_, ?_, ?_, ?_⟩
  · refine (congrArg (fun route => route.upstream.healthPath) same).trans ?_
    exact congrArg some (samePath.trans (Validates.healthPath validates))
  · refine (congrArg (fun route => route.upstream.healthDisabled) same).trans ?_
    exact sameDisabled.trans (Validates.healthDisabled validates)
  · exact (congrArg Route.rewriteHost same).trans (Validates.rewriteHost validates)
  · exact (congrArg Route.stripPrefix same).trans (Validates.stripPrefix validates)

variable (built : buildTable http cfg prev heap = (.ok table, after))
  (placed : Placed ((prev.map RouteTable.upstreams).getD []) heap)

include built placed

/-- Every route is described by an entry of the config. -/
theorem route_described {route : Route} (member : route ∈ table.routes) :
    ∃ r ∈ cfg.routes, Describes http cfg after r route := by
  obtain ⟨settings, byName, routes, installs⟩ := buildTable_builtFrom built
  have installing := installs placed
  obtain ⟨r, inConfig, validated, valid, cooldown, known, shape⟩ := routes route member
  have own : route.pathPrefix = r.pathPrefix := by rw [shape, installed, valid.pathPrefix]
  obtain ⟨healthPath, healthDisabled, rewriteHost, stripPrefix⟩ :=
    route_health (congrArg Prod.fst built) inConfig member own
  refine ⟨r, inConfig, own, ?_, ?_, healthPath, healthDisabled, rewriteHost, stripPrefix⟩
  · exact ⟨validated.uri, validateUpstream_parses valid.uri,
      (installing.named known).trans valid.name⟩
  · obtain ⟨b, cell, millis⟩ := installing.cooldown placed known
    refine ⟨b, cell, ?_⟩
    rw [millis, ← cooldown, valid.cooldown, asMillis_of_bounded valid.bounded]

end Table

/-! ## Two orders of one config -/

theorem Describes.withRoutes {http : Http} {cfg : ConfigToml} {routes : List RouteToml}
    {heap : Heap} {r : RouteToml} {route : Route}
    (describes : Describes http (cfg.withRoutes routes) heap r route) :
    Describes http cfg heap r route :=
  ⟨describes.pathPrefix, describes.name, describes.cooldown, describes.healthPath,
    describes.healthDisabled, describes.rewriteHost, describes.stripPrefix⟩

/-- Routes of two tables that treat a request alike. -/
structure Alike (heap heap' : Heap) (route route' : Route) : Prop where
  pathPrefix : route.pathPrefix = route'.pathPrefix
  name : route.upstream.name = route'.upstream.name
  cooldown : ∃ b b', heap.breakers[route.upstream.breaker]? = some b ∧
    heap'.breakers[route'.upstream.breaker]? = some b' ∧ b.cooldownMillis = b'.cooldownMillis
  healthPath : route.upstream.healthPath = route'.upstream.healthPath
  healthDisabled : route.upstream.healthDisabled = route'.upstream.healthDisabled
  rewriteHost : route.rewriteHost = route'.rewriteHost
  stripPrefix : route.stripPrefix = route'.stripPrefix

theorem Describes.alike {http : Http} {cfg : ConfigToml} {heap heap' : Heap} {r : RouteToml}
    {route route' : Route} (describes : Describes http cfg heap r route)
    (describes' : Describes http cfg heap' r route') : Alike heap heap' route route' := by
  obtain ⟨uri, parsed, name⟩ := describes.name
  obtain ⟨uri', parsed', name'⟩ := describes'.name
  obtain rfl := Except.ok.inj (parsed.symm.trans parsed')
  obtain ⟨b, cell, cooldown⟩ := describes.cooldown
  obtain ⟨b', cell', cooldown'⟩ := describes'.cooldown
  exact {
    pathPrefix := describes.pathPrefix.trans describes'.pathPrefix.symm
    name := name.trans name'.symm
    cooldown := ⟨b, b', cell, cell', cooldown.trans cooldown'.symm⟩
    healthPath := describes.healthPath.trans describes'.healthPath.symm
    healthDisabled := describes.healthDisabled.trans describes'.healthDisabled.symm
    rewriteHost := describes.rewriteHost.trans describes'.rewriteHost.symm
    stripPrefix := describes.stripPrefix.trans describes'.stripPrefix.symm }

theorem buildTable_accepts_iff {http : Http} {cfg : ConfigToml} {prev : Option RouteTable}
    {heap : Heap} :
    (∃ table, (buildTable http cfg prev heap).1 = .ok table) ↔
      ∃ trusted validated, validateConfig http cfg = .ok (trusted, validated) := by
  constructor
  · intro accepted
    obtain ⟨table, built⟩ := accepted
    obtain ⟨trusted, validated, -, checked, -⟩ := buildTable_eq_ok (Prod.ext built rfl)
    exact ⟨trusted, validated, checked⟩
  · intro accepted
    obtain ⟨trusted, validated, checked⟩ := accepted
    obtain ⟨table, after, built⟩ := buildTable_accepts checked prev heap
    exact ⟨table, congrArg Prod.fst built⟩

theorem validateConfig_perm_iff {http : Http} {cfg : ConfigToml} {routes : List RouteToml}
    (isPerm : routes.Perm cfg.routes) :
    (∃ trusted validated, validateConfig http (cfg.withRoutes routes) = .ok (trusted, validated)) ↔
      ∃ trusted validated, validateConfig http cfg = .ok (trusted, validated) := by
  constructor
  · intro accepted
    obtain ⟨trusted, validated, checked⟩ := accepted
    obtain ⟨moved, -, checkedAgain⟩ := validateConfig_perm isPerm.symm checked
    exact ⟨trusted, moved, checkedAgain⟩
  · intro accepted
    obtain ⟨trusted, validated, checked⟩ := accepted
    obtain ⟨moved, -, checkedAgain⟩ := validateConfig_perm isPerm checked
    exact ⟨trusted, moved, checkedAgain⟩

theorem counterpart {table other : RouteTable} {route : Route}
    (prefixes : table.routes.map Route.pathPrefix ⊆ other.routes.map Route.pathPrefix)
    (member : route ∈ table.routes) :
    ∃ route' ∈ other.routes, route'.pathPrefix = route.pathPrefix :=
  List.mem_map.mp (prefixes (List.mem_map_of_mem member))

section TwoOrders

variable {http : Http} {cfg : ConfigToml} {routes : List RouteToml} {prev : Option RouteTable}
  {heap after after' : Heap} {table table' : RouteTable} (isPerm : routes.Perm cfg.routes)
  (built : buildTable http cfg prev heap = (.ok table, after))
  (built' : buildTable http (cfg.withRoutes routes) prev heap = (.ok table', after'))
  (placed : Placed ((prev.map RouteTable.upstreams).getD []) heap)

include isPerm built built'

theorem prefixes_perm :
    (table'.routes.map Route.pathPrefix).Perm (table.routes.map Route.pathPrefix) := by
  have fromConfig := buildTable_prefixes_perm (congrArg Prod.fst built)
  have fromConfig' := buildTable_prefixes_perm (congrArg Prod.fst built')
  exact fromConfig'.trans ((isPerm.map RouteToml.pathPrefix).trans fromConfig.symm)

include placed

/-- Routes with one prefix have one entry in the config. -/
theorem alike_of_pathPrefix {route route' : Route} (member : route ∈ table.routes)
    (member' : route' ∈ table'.routes) (same : route.pathPrefix = route'.pathPrefix) :
    Alike after after' route route' := by
  obtain ⟨trusted, validated, -, checked, -, -⟩ := buildTable_eq_ok built
  have distinct := (validateRoutes_eq_ok (validateConfig_eq_ok.mp checked).2).distinct
  obtain ⟨r, inConfig, describes⟩ := route_described built placed member
  obtain ⟨r', inRoutes, describes'⟩ := route_described built' placed member'
  have inConfig' : r' ∈ cfg.routes := isPerm.subset inRoutes
  obtain rfl := List.inj_on_of_nodup_map distinct inConfig inConfig'
    (describes.pathPrefix.symm.trans (same.trans describes'.pathPrefix))
  exact describes.alike describes'.withRoutes

theorem lookup_alike (raw : Bytes) :
    Option.Rel (Alike after after') (table.lookup raw) (table'.lookup raw) := by
  have prefixes := prefixes_perm isPerm built built'
  cases found : table.lookup raw with
  | none =>
      have absent : table'.lookup raw = none := by
        rw [lookup_eq_none_iff] at found ⊢
        intro route' member'
        obtain ⟨route, member, same⟩ := counterpart prefixes.subset member'
        exact same ▸ found route member
      rw [absent]
      exact .none
  | some route =>
      have isLongest := longestMatch_of_lookup (congrArg Prod.fst built) found
      obtain ⟨route', member', same⟩ := counterpart prefixes.symm.subset isLongest.member
      have isLongest' : LongestMatch table' (normalize raw) route' := by
        refine ⟨member', same ▸ isLongest.isMatch, fun other isOther isMatch => ?_⟩
        obtain ⟨other', isOther', sameOther⟩ := counterpart prefixes.subset isOther
        rw [same, ← sameOther]
        exact isLongest.longest other' isOther' (sameOther ▸ isMatch)
      rw [lookup_of_longestMatch (congrArg Prod.fst built') isLongest']
      exact .some (alike_of_pathPrefix isPerm built built' placed isLongest.member member' same.symm)

end TwoOrders

/-- The order of the routes in the config decides neither whether it is accepted nor what
a lookup finds nor who shares a breaker. The breakers of the previous table are told apart
by name, as in every table that was built. -/
theorem route_order_irrelevant (http : Http) (cfg : ConfigToml) (routes : List RouteToml)
    (isPerm : routes.Perm cfg.routes) (prev : Option RouteTable) (heap : Heap) :
    ((∃ table, (buildTable http cfg prev heap).1 = .ok table) ↔
      ∃ table, (buildTable http (cfg.withRoutes routes) prev heap).1 = .ok table) ∧
    ∀ table table' after after', buildTable http cfg prev heap = (.ok table, after) →
      buildTable http (cfg.withRoutes routes) prev heap = (.ok table', after') →
      Placed ((prev.map RouteTable.upstreams).getD []) heap →
      (∀ raw, Option.Rel (Alike after after') (table.lookup raw) (table'.lookup raw)) ∧
      (table'.routes.map Route.pathPrefix).Perm (table.routes.map Route.pathPrefix) ∧
      ∀ first ∈ table.routes, ∀ second ∈ table.routes,
        ∀ first' ∈ table'.routes, ∀ second' ∈ table'.routes,
        first.pathPrefix = first'.pathPrefix → second.pathPrefix = second'.pathPrefix →
        (first.upstream.breaker = second.upstream.breaker ↔
          first'.upstream.breaker = second'.upstream.breaker) := by
  refine ⟨?_, fun table table' after after' built built' placed =>
    ⟨lookup_alike isPerm built built' placed, prefixes_perm isPerm built built', ?_⟩⟩
  · rw [buildTable_accepts_iff, buildTable_accepts_iff, validateConfig_perm_iff isPerm]
  · intro first isFirst second isSecond first' isFirst' second' isSecond' samePrefix samePrefix'
    have alike := alike_of_pathPrefix isPerm built built' placed isFirst isFirst' samePrefix
    have alike' := alike_of_pathPrefix isPerm built built' placed isSecond isSecond' samePrefix'
    rw [buildTable_shares built placed isFirst isSecond,
      buildTable_shares built' placed isFirst' isSecond', alike.name, alike'.name]

def sharedTable : RouteTable :=
  match (buildTable plainHttp sharedConfig none {}).1 with
  | .ok table => table
  | .error _ => RouteTable.new [] (.fromSecs 0)

def sharedHeap : Heap := (buildTable plainHttp sharedConfig none {}).2

def reversedTable : RouteTable :=
  match (buildTable plainHttp (sharedConfig.withRoutes sharedConfig.routes.reverse)
    (some sharedTable) sharedHeap).1 with
  | .ok table => table
  | .error _ => RouteTable.new [] (.fromSecs 0)

/-- A reload with the routes the other way round. -/
theorem reversed_routes_found_alike :
    (reversedTable.lookup (ascii "/b/x")).isSome = true ∧
      ∃ table heap heap', buildTable plainHttp sharedConfig (some sharedTable) sharedHeap =
        (.ok table, heap) ∧ Option.Rel (Alike heap heap') (table.lookup (ascii "/b/x"))
          (reversedTable.lookup (ascii "/b/x")) := by
  have first : buildTable plainHttp sharedConfig none {} = (.ok sharedTable, sharedHeap) := by
    refine Prod.ext ?_ rfl
    decide +kernel
  have reversed : (buildTable plainHttp (sharedConfig.withRoutes sharedConfig.routes.reverse)
      (some sharedTable) sharedHeap).1 = .ok reversedTable := by
    decide +kernel
  have nothing : CoherentPrev none {} := by
    intro table member
    cases member
  have coherent : CoherentPrev (some sharedTable) sharedHeap := by
    intro table same
    cases same
    exact buildTable_coherent nothing first
  have irrelevant := route_order_irrelevant plainHttp sharedConfig sharedConfig.routes.reverse
    (List.reverse_perm _) (some sharedTable) sharedHeap
  obtain ⟨table, built⟩ := irrelevant.1.mpr ⟨_, reversed⟩
  exact ⟨by decide +kernel, table, _, _, Prod.ext built rfl, (irrelevant.2 table reversedTable _ _
    (Prod.ext built rfl) (Prod.ext reversed rfl) coherent.placed).1 _⟩

end Ferryman.Core
