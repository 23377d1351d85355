import Ferryman.Core.Ambiguity
import Ferryman.Core.ReloadChain

/-!
# Tables without their breakers

What a build puts into a table, apart from the breakers: which upstream each
name gets, and where its URI comes from.
-/

set_option autoImplicit false

namespace Ferryman.Core

open Byte Bytes

def Upstream.forget (upstream : Upstream) : Upstream := { upstream with breaker := 0 }

def Route.forget (route : Route) : Route := { route with upstream := route.upstream.forget }

def RouteTable.forget (table : RouteTable) : RouteTable :=
  { table with routes := table.routes.map Route.forget }

theorem tableOf_forget (cfg : ConfigToml) (trusted : TrustedProxies) (routes : List Route) :
    (tableOf cfg trusted routes).forget = tableOf cfg trusted (routes.map Route.forget) := by
  have sorted := List.map_insertionSort
    (fun first second : Route => second.pathPrefix.length ≤ first.pathPrefix.length)
    (fun first second : Route => second.pathPrefix.length ≤ first.pathPrefix.length)
    Route.forget routes fun _ _ _ _ => Iff.rfl
  unfold RouteTable.forget tableOf RouteTable.new
  rw [← sorted]

theorem lookup_forget (table : RouteTable) (path : Bytes) :
    table.forget.lookup path = (table.lookup path).map Route.forget := by
  simp only [RouteTable.lookup, RouteTable.forget, List.find?_map]
  rfl

theorem pick_forget (table : RouteTable) (path : Bytes) :
    pick table.forget path = pick table path := by
  rw [pick, lookup_forget, pick, Option.map_map]
  rfl

theorem ambiguousRoute_forget (table : RouteTable) (path : Bytes) :
    ambiguousRoute table.forget path = ambiguousRoute table path := by
  simp only [ambiguousRoute, pick_forget]

/-! ## The upstream of a name -/

/-- The upstream that a build installs for the first route of a name. -/
def settledUpstream (prevUpstreams : List Upstream) (route : ValidatedRoute) : Upstream where
  uri := ((prevUpstreams.find? (·.name = route.name)).map Upstream.uri).getD route.uri
  name := route.name
  breaker := 0
  healthPath := some route.healthPath
  healthDisabled := route.healthDisabled

theorem takeOver_forget (cfg : ConfigToml) (prevUpstreams : List Upstream) (route : ValidatedRoute)
    (heap : Heap) :
    (takeOver cfg prevUpstreams route heap).1.forget = settledUpstream prevUpstreams route := by
  cases found : prevUpstreams.find? (·.name = route.name) with
  | some previous =>
      have named : previous.name = route.name := by simpa using List.find?_some found
      rw [takeOver_some found]
      simp [Upstream.forget, Upstream.withHealth, settledUpstream, found, named]
  | none =>
      rw [takeOver_none found]
      simp [Upstream.forget, settledUpstream, found]

theorem installUpstreams_forget {cfg : ConfigToml} {prevUpstreams : List Upstream}
    {byName : List (Bytes × Upstream)} {name : Bytes} (unknown : byName.lookup name = none)
    (routes : List ValidatedRoute) (heap : Heap) :
    ((installUpstreams cfg prevUpstreams byName routes heap).1.lookup name).map Upstream.forget =
      (routes.find? (·.name = name)).map (settledUpstream prevUpstreams) := by
  induction routes generalizing byName heap with
  | nil => simp [installUpstreams, unknown]
  | cons route rest ih =>
      rw [installUpstreams]
      by_cases same : route.name = name
      · subst same
        rw [unknown, List.find?_cons_of_pos (by simp)]
        simp only [Option.isSome_none, Bool.false_eq_true, if_false]
        rw [installUpstreams_keeps List.lookup_cons_self, Option.map_some, Option.map_some,
          takeOver_forget]
      · rw [List.find?_cons_of_neg (by simpa using same)]
        split
        · exact ih unknown heap
        · refine ih ?_ _
          rw [List.lookup_cons, beq_false_of_ne (Ne.symm same)]
          exact unknown

def RouteToml.uriNamed (http : Http) (name : Bytes) (r : RouteToml) : Option Uri :=
  match http.parseUri r.upstream with
  | .ok uri => if upstreamName uri = name then some uri else none
  | .error _ => none

/-- The URI that the config has for a name: the one of the first route of that name. -/
def configuredUri (http : Http) (cfg : ConfigToml) (name : Bytes) : Option Uri :=
  cfg.routes.findSome? (RouteToml.uriNamed http name)

theorem Validates.uriNamed {http : Http} {cfg : ConfigToml} {r : RouteToml}
    {route : ValidatedRoute} (valid : Validates http cfg r route) (name : Bytes) :
    r.uriNamed http name = if route.name = name then some route.uri else none := by
  rw [RouteToml.uriNamed, validateUpstream_parses valid.uri, valid.name]

theorem findSome_uriNamed {http : Http} {cfg : ConfigToml} {routes : List RouteToml}
    {validated : List ValidatedRoute} (each : List.Forall₂ (Validates http cfg) routes validated)
    (name : Bytes) :
    routes.findSome? (RouteToml.uriNamed http name) =
      (validated.find? (·.name = name)).map ValidatedRoute.uri := by
  induction each with
  | nil => rfl
  | @cons r route _ _ valid _ ih =>
      rw [List.findSome?_cons, valid.uriNamed]
      by_cases same : route.name = name
      · rw [if_pos same, List.find?_cons_of_pos (by simpa using same)]
        rfl
      · rw [if_neg same, List.find?_cons_of_neg (by simpa using same)]
        exact ih

/-! ## One config, built twice -/

/-- What two builds of one config have in common: the checked routes, and for each of
them the upstream that was installed for the first route of its name. -/
theorem buildTable_forget {http : Http} {cfg : ConfigToml} {prev : Option RouteTable} {heap : Heap}
    {table : RouteTable} {trusted : TrustedProxies} {validated : List ValidatedRoute}
    (checked : validateConfig http cfg = .ok (trusted, validated))
    (built : (buildTable http cfg prev heap).1 = .ok table) :
    ∃ routes, table.forget = tableOf cfg trusted routes ∧
      List.Forall₂ (fun route result => ∃ first, validated.find? (·.name = route.name) = some first ∧
        result = installed route
          (settledUpstream ((prev.map RouteTable.upstreams).getD []) first)) validated routes := by
  have installable := validateRoutes_installable (validateConfig_eq_ok.mp checked).2
  obtain ⟨routes, shape, each⟩ := @installRoutes_eq cfg ((prev.map RouteTable.upstreams).getD []) []
    validated installable heap
  rw [buildTable_of_ok checked, shape] at built
  obtain rfl := Except.ok.inj built
  refine ⟨routes.map Route.forget, tableOf_forget cfg trusted routes, ?_⟩
  rw [List.forall₂_map_right_iff]
  refine each.imp fun route result settled => ?_
  obtain ⟨upstream, known, rfl⟩ := settled
  have forgotten := @installUpstreams_forget cfg ((prev.map RouteTable.upstreams).getD []) []
    route.name rfl validated heap
  rw [known, Option.map_some, eq_comm, Option.map_eq_some_iff] at forgotten
  obtain ⟨first, isFirst, same⟩ := forgotten
  exact ⟨first, isFirst, by rw [same]; rfl⟩

/-- For every name of the config that the previous table has too, the previous table
has the URI that the config has. -/
def NoStaleUri (http : Http) (cfg : ConfigToml) (prev : RouteTable) : Prop :=
  ∀ name uri previous, configuredUri http cfg name = some uri →
    prev.upstreams.find? (·.name = name) = some previous → previous.uri = uri

/-- Routes of the config with one upstream name spell its URI in one way. -/
def OneSpelling (http : Http) (cfg : ConfigToml) : Prop :=
  ∀ r ∈ cfg.routes, ∀ r' ∈ cfg.routes, ∀ uri uri', http.parseUri r.upstream = .ok uri →
    http.parseUri r'.upstream = .ok uri' → upstreamName uri = upstreamName uri' → uri = uri'

/-- Every route has the URI of the config's route with its prefix. -/
def OwnUris (http : Http) (cfg : ConfigToml) (table : RouteTable) : Prop :=
  ∀ route ∈ table.routes, ∃ r ∈ cfg.routes, r.pathPrefix = route.pathPrefix ∧
    http.parseUri r.upstream = .ok route.upstream.uri

section Twice

variable {http : Http} {cfg : ConfigToml} {trusted : TrustedProxies}
  {validated : List ValidatedRoute} (checked : validateConfig http cfg = .ok (trusted, validated))

include checked

theorem configuredUri_eq (name : Bytes) :
    configuredUri http cfg name = (validated.find? (·.name = name)).map ValidatedRoute.uri :=
  findSome_uriNamed (validateRoutes_eq_ok (validateConfig_eq_ok.mp checked).2).each name

theorem route_settled {prev : Option RouteTable} {heap : Heap} {table : RouteTable}
    (built : (buildTable http cfg prev heap).1 = .ok table) {route : Route}
    (member : route ∈ table.routes) :
    ∃ own ∈ validated, ∃ first, validated.find? (·.name = own.name) = some first ∧
      route.forget = installed own
        (settledUpstream ((prev.map RouteTable.upstreams).getD []) first) := by
  obtain ⟨routes, shape, each⟩ := buildTable_forget checked built
  have forgotten : route.forget ∈ table.forget.routes := List.mem_map_of_mem member
  rw [shape] at forgotten
  obtain ⟨own, isOwn, first, isFirst, same⟩ :=
    exists_of_forall₂ each.flip ((tableOf_perm cfg trusted routes).subset forgotten)
  exact ⟨own, isOwn, first, isFirst, same⟩

theorem route_of_validated {prev : Option RouteTable} {heap : Heap} {table : RouteTable}
    (built : (buildTable http cfg prev heap).1 = .ok table) {own : ValidatedRoute}
    (isOwn : own ∈ validated) :
    ∃ route ∈ table.routes, ∃ first, validated.find? (·.name = own.name) = some first ∧
      route.forget = installed own
        (settledUpstream ((prev.map RouteTable.upstreams).getD []) first) := by
  obtain ⟨routes, shape, each⟩ := buildTable_forget checked built
  obtain ⟨result, isResult, first, isFirst, same⟩ := exists_of_forall₂ each isOwn
  have inTable : result ∈ table.forget.routes := by
    rw [shape]
    exact (tableOf_perm cfg trusted routes).symm.subset isResult
  obtain ⟨route, member, rfl⟩ := List.mem_map.mp inTable
  exact ⟨route, member, first, isFirst, same⟩

variable {prev : RouteTable} {heap heap' : Heap} {hot fresh : RouteTable}

theorem settled_of_noStaleUri (noStale : NoStaleUri http cfg prev) {name : Bytes}
    {first : ValidatedRoute} (isFirst : validated.find? (·.name = name) = some first) :
    settledUpstream prev.upstreams first = settledUpstream [] first := by
  have named : first.name = name := by simpa using List.find?_some isFirst
  have configured : configuredUri http cfg first.name = some first.uri := by
    rw [configuredUri_eq checked, named, isFirst]
    rfl
  cases found : prev.upstreams.find? (·.name = first.name) with
  | none => simp [settledUpstream, found]
  | some previous =>
      have same := noStale first.name first.uri previous configured found
      simp [settledUpstream, found, same]

theorem forget_eq_of_noStaleUri (freshBuilt : (buildTable http cfg none heap').1 = .ok fresh)
    (hotBuilt : (buildTable http cfg (some prev) heap).1 = .ok hot)
    (noStale : NoStaleUri http cfg prev) : hot.forget = fresh.forget := by
  obtain ⟨routes, shape, each⟩ := buildTable_forget checked hotBuilt
  obtain ⟨routes', shape', each'⟩ := buildTable_forget checked freshBuilt
  have unique : Relator.RightUnique fun (route : ValidatedRoute) (result : Route) =>
      ∃ first, validated.find? (·.name = route.name) = some first ∧
        result = installed route (settledUpstream [] first) := by
    intro route result result' source source'
    obtain ⟨first, isFirst, rfl⟩ := source
    obtain ⟨first', isFirst', rfl⟩ := source'
    obtain rfl := Option.some.inj (isFirst.symm.trans isFirst')
    rfl
  have settled : List.Forall₂ (fun route result => ∃ first,
      validated.find? (·.name = route.name) = some first ∧
        result = installed route (settledUpstream [] first)) validated routes := by
    refine each.imp fun route result same => ?_
    obtain ⟨first, isFirst, rfl⟩ := same
    exact ⟨first, isFirst, congrArg _ (settled_of_noStaleUri checked noStale isFirst)⟩
  rw [shape, shape', List.right_unique_forall₂' unique settled each']

theorem written_iff_noStaleUri (hotBuilt : (buildTable http cfg (some prev) heap).1 = .ok hot) :
    (∀ route ∈ hot.routes, configuredUri http cfg route.upstream.name =
      some route.upstream.uri) ↔ NoStaleUri http cfg prev := by
  constructor
  · intro written name uri previous configured found
    rw [configuredUri_eq checked, Option.map_eq_some_iff] at configured
    obtain ⟨first, isFirst, rfl⟩ := configured
    have named : first.name = name := by simpa using List.find?_some isFirst
    obtain ⟨route, member, first', isFirst', same⟩ :=
      route_of_validated checked hotBuilt (List.mem_of_find?_eq_some isFirst)
    rw [named] at isFirst'
    obtain rfl := Option.some.inj (isFirst.symm.trans isFirst')
    have routeName : route.upstream.name = first.name :=
      congrArg (fun route => route.upstream.name) same
    have routeUri : route.upstream.uri = previous.uri := by
      refine (congrArg (fun route => route.upstream.uri) same).trans ?_
      simp [installed, settledUpstream, named, found]
    have configured := written route member
    rw [routeName, routeUri, configuredUri_eq checked, named, isFirst] at configured
    exact (Option.some.inj configured).symm
  · intro noStale route member
    obtain ⟨own, -, first, isFirst, same⟩ := route_settled checked hotBuilt member
    have settled := settled_of_noStaleUri checked noStale isFirst
    have named : first.name = own.name := by simpa using List.find?_some isFirst
    have routeName : route.upstream.name = own.name :=
      (congrArg (fun route => route.upstream.name) same).trans named
    have routeUri : route.upstream.uri = first.uri :=
      (congrArg (fun route => route.upstream.uri) same).trans (congrArg Upstream.uri settled)
    rw [routeName, routeUri, configuredUri_eq checked, isFirst]
    rfl

theorem ownUris_iff_oneSpelling (hotBuilt : (buildTable http cfg (some prev) heap).1 = .ok hot)
    (noStale : NoStaleUri http cfg prev) : OwnUris http cfg hot ↔ OneSpelling http cfg := by
  have valid := validateRoutes_eq_ok (validateConfig_eq_ok.mp checked).2
  have written := (written_iff_noStaleUri checked hotBuilt).mpr noStale
  constructor
  · intro own
    -- both spellings are the one that the table has for the name
    have spelled : ∀ r ∈ cfg.routes, ∀ uri, http.parseUri r.upstream = .ok uri →
        configuredUri http cfg (upstreamName uri) = some uri := by
      intro r inConfig uri parsed
      obtain ⟨checkedRoute, isChecked, validates⟩ := exists_of_forall₂ valid.each inConfig
      obtain ⟨route, member, first, isFirst, same⟩ :=
        route_of_validated checked hotBuilt isChecked
      have named : first.name = checkedRoute.name := by simpa using List.find?_some isFirst
      have samePrefix : route.pathPrefix = r.pathPrefix :=
        (congrArg Route.pathPrefix same).trans validates.pathPrefix
      obtain ⟨r', inConfig', samePrefix', parsed'⟩ := own route member
      obtain rfl := List.inj_on_of_nodup_map valid.distinct inConfig' inConfig
        (samePrefix'.trans samePrefix)
      obtain rfl := Except.ok.inj (parsed'.symm.trans parsed)
      obtain checkedUri := Except.ok.inj ((validateUpstream_parses validates.uri).symm.trans parsed)
      have routeName : route.upstream.name = upstreamName route.upstream.uri := by
        refine (congrArg (fun route => route.upstream.name) same).trans ?_
        exact named.trans (validates.name.trans (congrArg upstreamName checkedUri))
      rw [← routeName]
      exact written route member
    intro r inConfig r' inConfig' uri uri' parsed parsed' sameName
    have first := spelled r inConfig uri parsed
    rw [sameName, spelled r' inConfig' uri' parsed'] at first
    exact (Option.some.inj first).symm
  · intro oneSpelling route member
    obtain ⟨own, isOwn, first, isFirst, same⟩ := route_settled checked hotBuilt member
    obtain ⟨r, inConfig, validates⟩ := exists_of_forall₂ valid.each.flip isOwn
    obtain ⟨r', inConfig', validates'⟩ := exists_of_forall₂ valid.each.flip
      (List.mem_of_find?_eq_some isFirst)
    have settled := settled_of_noStaleUri checked noStale isFirst
    have named : first.name = own.name := by simpa using List.find?_some isFirst
    have routeUri : route.upstream.uri = first.uri :=
      (congrArg (fun route => route.upstream.uri) same).trans (congrArg Upstream.uri settled)
    refine ⟨r, inConfig, ?_, ?_⟩
    · exact (Validates.pathPrefix validates).symm.trans (congrArg Route.pathPrefix same).symm
    · rw [routeUri, validateUpstream_parses (Validates.uri validates)]
      refine congrArg _ (oneSpelling r inConfig r' inConfig' _ _
        (validateUpstream_parses (Validates.uri validates))
        (validateUpstream_parses (Validates.uri validates')) ?_)
      rw [← Validates.name validates, ← Validates.name validates', named]

end Twice

end Ferryman.Core
