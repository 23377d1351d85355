import Ferryman.Core.Config
import Mathlib.Data.List.Forall2

/-! What `buildTable` promises about the routes of a table. -/

set_option autoImplicit false

namespace Ferryman.Core

open Byte Bytes

/-- What the check of a prefix establishes. -/
structure CanonicalPrefix (pathPrefix : Bytes) : Prop where
  absolute : startsWith pathPrefix "/" = true
  isAscii : pathPrefix.all (· < 0x80) = true
  normal : normalize pathPrefix = pathPrefix
  noParams : semicolon ∉ pathPrefix
  noBackslash : backslash ∉ pathPrefix
  noEncodedSlash : containsText (pathPrefix.map toUpper) "%2F" = false
  noEncodedBackslash : containsText (pathPrefix.map toUpper) "%5C" = false

theorem canonicalPrefix_of_validatePrefix {pathPrefix : Bytes}
    (accepted : validatePrefix pathPrefix = .ok ()) : CanonicalPrefix pathPrefix := by
  simp only [validatePrefix] at accepted
  split at accepted
  · simp at accepted
  · next absolute =>
    split at accepted
    · simp at accepted
    · next normal =>
      split at accepted
      · simp at accepted
      · next plain =>
        simp only [Bool.or_eq_true, Bool.not_eq_eq_eq_not, Bool.not_true, decide_eq_true_eq,
          not_or, Bool.not_eq_false, Bool.not_eq_true, ne_eq, not_not,
          List.contains_eq_mem] at absolute normal plain
        exact ⟨absolute, normal.1, normal.2, plain.1.1.1, plain.1.1.2, plain.1.2, plain.2⟩

/-- What a route of the config and its checked form have in common. -/
structure Validates (http : Http) (cfg : ConfigToml) (r : RouteToml)
    (validated : ValidatedRoute) : Prop where
  canonical : CanonicalPrefix r.pathPrefix
  pathPrefix : validated.pathPrefix = r.pathPrefix
  uri : validateUpstream http r = .ok validated.uri
  name : validated.name = upstreamName validated.uri
  cooldown : validated.cooldown = .fromSecs (r.cooldownSecs.getD cfg.defaultCooldownSecs)
  bounded : (r.cooldownSecs.getD cfg.defaultCooldownSecs).toNat ≤ maxSecs.toNat
  breaker : validated.breaker =
    { cooldown := validated.cooldown, failureThreshold := cfg.failureThreshold }
  breakerValid : validated.breaker.validate = .ok ()
  healthPath : validated.healthPath = r.healthPath.getD (ascii "/health")
  healthDisabled : validated.healthDisabled = r.healthDisabled
  rewriteHost : validated.rewriteHost = r.rewriteHost
  stripPrefix : validated.stripPrefix = r.stripPrefix

theorem mapError_eq_ok {α : Type} {result : Except Error α} {rename : Error → Error} {value : α} :
    result.mapError rename = .ok value ↔ result = .ok value := by
  cases result <;> simp [Except.mapError]

theorem entryOr_fst_lookup {α : Type} (key : Bytes) (value : α) (entries : List (Bytes × α)) :
    (entryOr key value entries).2.lookup key = some (entryOr key value entries).1 := by
  unfold entryOr
  cases found : entries.lookup key with
  | some first => exact found
  | none => simp

theorem entryOr_lookup_of_some {α : Type} (key : Bytes) (value : α) {entries : List (Bytes × α)}
    {other : Bytes} {first : α} (found : entries.lookup other = some first) :
    (entryOr key value entries).2.lookup other = some first := by
  unfold entryOr
  cases known : entries.lookup key with
  | some _ => exact found
  | none =>
      have differs : other ≠ key := by
        intro same
        subst same
        rw [known] at found
        cases found
      rw [List.lookup_cons, beq_false_of_ne differs]
      exact found

/-- What the maps of the validation remember of one name. -/
structure Remembers (seen : Validation) (name : Bytes) (cooldown : Duration)
    (health : Bytes × Bool) : Prop where
  cooldown : seen.cooldownByName.lookup name = some cooldown
  health : seen.healthByName.lookup name = some health

theorem validateRoute_eq_ok {http : Http} {cfg : ConfigToml} {seen after : Validation}
    {r : RouteToml} {validated : ValidatedRoute}
    (accepted : validateRoute http cfg seen r = .ok (validated, after)) :
    Validates http cfg r validated ∧ r.pathPrefix ∉ seen.seenPrefixes ∧
      after.seenPrefixes = r.pathPrefix :: seen.seenPrefixes ∧
      Remembers after validated.name validated.cooldown
        (validated.healthPath, validated.healthDisabled) ∧
      ∀ name cooldown health, Remembers seen name cooldown health →
        Remembers after name cooldown health := by
  simp only [validateRoute, bind_eq_ok, reject_eq_ok, mapError_eq_ok, pure, Except.pure,
    Except.ok.injEq, Prod.mk.injEq] at accepted
  obtain ⟨_, canonical, _, isNew, uri, checkedUri, _, _, _, inBounds, _, breakerValid, _,
    sameCooldown, _, _, _, sameHealthPath, _, sameHealthDisabled, rfl, rfl⟩ := accepted
  refine ⟨?_, by simpa using isNew, rfl, ?_, ?_⟩
  · exact {
      canonical := canonicalPrefix_of_validatePrefix canonical
      pathPrefix := rfl
      uri := checkedUri
      name := rfl
      cooldown := rfl
      bounded := by
        simpa [Duration.fromSecs, Duration.asSecs] using inBounds
      breaker := rfl
      breakerValid := breakerValid
      healthPath := rfl
      healthDisabled := rfl
      rewriteHost := rfl
      stripPrefix := rfl }
  · simp only [ne_eq, not_not] at sameCooldown sameHealthPath sameHealthDisabled
    have cooldown := entryOr_fst_lookup (upstreamName uri)
      (Duration.fromSecs (r.cooldownSecs.getD cfg.defaultCooldownSecs)) seen.cooldownByName
    have health := entryOr_fst_lookup (upstreamName uri)
      (r.healthPath.getD (ascii "/health"), r.healthDisabled) seen.healthByName
    have sameHealth : (entryOr (upstreamName uri) (r.healthPath.getD (ascii "/health"),
        r.healthDisabled) seen.healthByName).1 = (r.healthPath.getD (ascii "/health"),
        r.healthDisabled) := Prod.ext sameHealthPath sameHealthDisabled
    rw [sameCooldown] at cooldown
    rw [sameHealth] at health
    exact ⟨cooldown, health⟩
  · intro name cooldown health remembered
    exact ⟨entryOr_lookup_of_some _ _ remembered.cooldown,
      entryOr_lookup_of_some _ _ remembered.health⟩

theorem exists_of_forall₂ {α β : Type} {Related : α → β → Prop} {left : List α} {right : List β}
    (related : List.Forall₂ Related left right) {first : α} (member : first ∈ left) :
    ∃ second ∈ right, Related first second := by
  induction related with
  | nil => simp at member
  | cons here _ ih =>
      cases List.mem_cons.mp member with
      | inl same =>
          subst same
          exact ⟨_, List.mem_cons_self, here⟩
      | inr later =>
          obtain ⟨second, inRight, holds⟩ := ih later
          exact ⟨second, List.mem_cons_of_mem _ inRight, holds⟩

theorem map_eq_of_forall₂ {α β γ : Type} {key : α → γ} {key' : β → γ} {left : List α}
    {right : List β} (same : List.Forall₂ (fun first second => key' second = key first) left right) :
    left.map key = right.map key' := by
  induction same with
  | nil => rfl
  | cons here _ ih => rw [List.map_cons, List.map_cons, here, ih]

def SameSettings (first second : ValidatedRoute) : Prop :=
  first.cooldown = second.cooldown ∧ first.healthPath = second.healthPath ∧
    first.healthDisabled = second.healthDisabled

theorem SameSettings.symm {first second : ValidatedRoute} (same : SameSettings first second) :
    SameSettings second first := by
  obtain ⟨cooldown, healthPath, healthDisabled⟩ := same
  exact ⟨cooldown.symm, healthPath.symm, healthDisabled.symm⟩

theorem sameSettings_of_name {validated : List ValidatedRoute} {first second : ValidatedRoute}
    (consistent : validated.Pairwise fun first second =>
      first.name = second.name → SameSettings first second)
    (isFirst : first ∈ validated) (isSecond : second ∈ validated) :
    first.name = second.name → SameSettings first second := by
  have flipped : validated.Pairwise (flip fun first second =>
      first.name = second.name → SameSettings first second) :=
    consistent.imp fun settled sameName => (settled sameName.symm).symm
  have itself : ∀ route ∈ validated, route.name = route.name → SameSettings route route :=
    fun _ _ _ => ⟨rfl, rfl, rfl⟩
  exact consistent.forall_of_forall_of_flip itself flipped isFirst isSecond

/-- What the check of all routes establishes after `seen`. -/
structure RoutesValidate (http : Http) (cfg : ConfigToml) (seen : Validation)
    (routes : List RouteToml) (validated : List ValidatedRoute) : Prop where
  each : List.Forall₂ (Validates http cfg) routes validated
  unseen : ∀ r ∈ routes, r.pathPrefix ∉ seen.seenPrefixes
  distinct : (routes.map RouteToml.pathPrefix).Nodup
  remembered : ∀ route ∈ validated, ∀ cooldown health,
    Remembers seen route.name cooldown health →
      cooldown = route.cooldown ∧ health = (route.healthPath, route.healthDisabled)
  consistent : validated.Pairwise fun first second =>
    first.name = second.name → SameSettings first second

theorem validateRoutes_eq_ok {http : Http} {cfg : ConfigToml} {seen : Validation}
    {routes : List RouteToml} {validated : List ValidatedRoute}
    (accepted : validateRoutes http cfg seen routes = .ok validated) :
    RoutesValidate http cfg seen routes validated := by
  induction routes generalizing seen validated with
  | nil =>
      simp only [validateRoutes, Except.ok.injEq] at accepted
      subst accepted
      exact ⟨.nil, by simp, by simp, by simp, .nil⟩
  | cons r routes ih =>
      simp only [validateRoutes, bind_eq_ok, pure, Except.pure, Except.ok.injEq] at accepted
      obtain ⟨⟨first, after⟩, acceptedFirst, others, acceptedRest, rfl⟩ := accepted
      obtain ⟨valid, isNew, recorded, remembers, keeps⟩ := validateRoute_eq_ok acceptedFirst
      have rest := ih acceptedRest
      have later := rest.unseen
      rw [recorded] at later
      constructor
      case each => exact .cons valid rest.each
      case unseen =>
          intro route member
          cases List.mem_cons.mp member with
          | inl same =>
              subst same
              exact isNew
          | inr member =>
              exact fun seenBefore => later route member (List.mem_cons_of_mem _ seenBefore)
      case distinct =>
          rw [List.map_cons, List.nodup_cons]
          refine ⟨fun repeated => ?_, rest.distinct⟩
          obtain ⟨route, member, same⟩ := List.mem_map.mp repeated
          exact later route member (same ▸ List.mem_cons_self)
      case remembered =>
          intro route member cooldown health remembered
          have kept := keeps _ _ _ remembered
          cases List.mem_cons.mp member with
          | inl same =>
              subst same
              exact ⟨Option.some.inj (kept.cooldown.symm.trans remembers.cooldown),
                Option.some.inj (kept.health.symm.trans remembers.health)⟩
          | inr member => exact rest.remembered route member cooldown health kept
      case consistent =>
          refine List.pairwise_cons.mpr ⟨fun route member same => ?_, rest.consistent⟩
          have sameSettings := rest.remembered route member first.cooldown
            (first.healthPath, first.healthDisabled) (same ▸ remembers)
          exact ⟨sameSettings.1, congrArg Prod.fst sameSettings.2, congrArg Prod.snd sameSettings.2⟩

/-! ## The two halves of `buildTable` -/

def validateConfig (http : Http) (cfg : ConfigToml) :
    Except Error (TrustedProxies × List ValidatedRoute) := do
  let trusted ← validateGlobals http cfg
  let routes ← validateRoutes http cfg {} cfg.routes
  pure (trusted, routes)

def tableOf (cfg : ConfigToml) (trusted : TrustedProxies) (routes : List Route) : RouteTable :=
  { RouteTable.new routes (.fromSecs cfg.upstreamTimeoutSecs) with
    keepaliveTimeout := .fromSecs cfg.keepaliveTimeoutSecs
    requestBodyIdleTimeout := .fromSecs cfg.requestBodyIdleTimeoutSecs
    requestBodyTimeout := .fromSecs cfg.requestBodyTimeoutSecs
    drainTimeout := .fromSecs cfg.drainTimeoutSecs
    shutdownDelay := .fromSecs cfg.shutdownDelaySecs
    trustedProxies := trusted
    forwardedHeader := cfg.forwardedHeader
    xffMode := cfg.xff
    accessLog := cfg.accessLog
    requestId := cfg.requestId
    localHealthPath := cfg.localHealthPath }

theorem validateConfig_eq_ok {http : Http} {cfg : ConfigToml} {trusted : TrustedProxies}
    {validated : List ValidatedRoute} :
    validateConfig http cfg = .ok (trusted, validated) ↔
      validateGlobals http cfg = .ok trusted ∧
        validateRoutes http cfg {} cfg.routes = .ok validated := by
  simp [validateConfig, bind_eq_ok, pure, Except.pure]

theorem buildTable_of_error {http : Http} {cfg : ConfigToml} {error : Error}
    (rejected : validateConfig http cfg = .error error) (prev : Option RouteTable) (heap : Heap) :
    buildTable http cfg prev heap = (.error error, heap) := by
  unfold validateConfig at rejected
  unfold buildTable
  rw [rejected]

theorem buildTable_of_ok {http : Http} {cfg : ConfigToml} {trusted : TrustedProxies}
    {validated : List ValidatedRoute} (checked : validateConfig http cfg = .ok (trusted, validated))
    (prev : Option RouteTable) (heap : Heap) :
    buildTable http cfg prev heap =
      ((installRoutes cfg ((prev.map RouteTable.upstreams).getD []) [] validated heap).1.map
        (tableOf cfg trusted),
      (installRoutes cfg ((prev.map RouteTable.upstreams).getD []) [] validated heap).2) := by
  unfold validateConfig at checked
  unfold buildTable
  rw [checked]
  rfl

/-- A table was assembled from routes that were installed for a checked config. -/
theorem buildTable_eq_ok {http : Http} {cfg : ConfigToml} {prev : Option RouteTable}
    {heap after : Heap} {table : RouteTable}
    (built : buildTable http cfg prev heap = (.ok table, after)) :
    ∃ trusted validated routes, validateConfig http cfg = .ok (trusted, validated) ∧
      installRoutes cfg ((prev.map RouteTable.upstreams).getD []) [] validated heap =
        (.ok routes, after) ∧ table = tableOf cfg trusted routes := by
  cases checked : validateConfig http cfg with
  | error error =>
      rw [buildTable_of_error checked] at built
      cases built
  | ok result =>
      obtain ⟨trusted, validated⟩ := result
      rw [buildTable_of_ok checked] at built
      obtain ⟨installed, rfl⟩ := Prod.mk.inj built
      cases found : (installRoutes cfg ((prev.map RouteTable.upstreams).getD []) [] validated
          heap).1 with
      | error => simp [found, Except.map] at installed
      | ok routes =>
          simp only [found, Except.map, Except.ok.injEq] at installed
          exact ⟨trusted, validated, routes, rfl, Prod.ext found rfl, installed.symm⟩

theorem tableOf_perm (cfg : ConfigToml) (trusted : TrustedProxies) (routes : List Route) :
    (tableOf cfg trusted routes).routes.Perm routes :=
  List.perm_insertionSort _ _

/-- The lookup order: longer prefixes first. -/
theorem buildTable_sorted {http : Http} {cfg : ConfigToml} {prev : Option RouteTable} {heap : Heap}
    {table : RouteTable} (built : (buildTable http cfg prev heap).1 = .ok table) :
    table.routes.Pairwise fun first second =>
      second.pathPrefix.length ≤ first.pathPrefix.length := by
  obtain ⟨trusted, validated, routes, -, -, rfl⟩ := buildTable_eq_ok (Prod.ext built rfl)
  have total : Std.Total fun first second : Route =>
      second.pathPrefix.length ≤ first.pathPrefix.length := ⟨fun _ _ => Nat.le_total _ _⟩
  have transitive : IsTrans Route fun first second =>
      second.pathPrefix.length ≤ first.pathPrefix.length :=
    ⟨fun _ _ _ first second => Nat.le_trans second first⟩
  exact List.pairwise_insertionSort _ routes

theorem installRoutes_prefixes {cfg : ConfigToml} {prevUpstreams : List Upstream}
    {byName : List (Bytes × Upstream)} {validated : List ValidatedRoute} {heap : Heap}
    {routes : List Route}
    (installed : (installRoutes cfg prevUpstreams byName validated heap).1 = .ok routes) :
    routes.map Route.pathPrefix = validated.map ValidatedRoute.pathPrefix := by
  induction validated generalizing byName heap routes with
  | nil =>
      simp only [installRoutes, Except.ok.injEq] at installed
      subst installed
      rfl
  | cons route rest ih =>
      rw [installRoutes] at installed
      rcases acquired : acquireUpstream cfg prevUpstreams byName route heap with ⟨_ | upstream, heap⟩
      · simp [acquired] at installed
      · simp only [acquired] at installed
        cases others : (installRoutes cfg prevUpstreams (if (byName.lookup route.name).isSome
            then byName else (route.name, upstream) :: byName) rest heap).1 with
        | error => simp [others, Except.map] at installed
        | ok later =>
            simp only [others, Except.map, Except.ok.injEq] at installed
            subst installed
            simp [ih others]

theorem buildTable_prefixes_perm {http : Http} {cfg : ConfigToml} {prev : Option RouteTable}
    {heap : Heap} {table : RouteTable} (built : (buildTable http cfg prev heap).1 = .ok table) :
    (table.routes.map Route.pathPrefix).Perm (cfg.routes.map RouteToml.pathPrefix) := by
  obtain ⟨trusted, validated, routes, checked, installed, rfl⟩ :=
    buildTable_eq_ok (Prod.ext built rfl)
  have valid := validateRoutes_eq_ok (validateConfig_eq_ok.mp checked).2
  have fromConfig : routes.map Route.pathPrefix = cfg.routes.map RouteToml.pathPrefix := by
    rw [installRoutes_prefixes (congrArg Prod.fst installed)]
    exact (map_eq_of_forall₂ (valid.each.imp fun _ _ validates => validates.pathPrefix)).symm
  exact fromConfig ▸ (tableOf_perm cfg trusted routes).map Route.pathPrefix

/-- The prefixes of a table come from its config: each passed the check and no
two are equal. -/
theorem buildTable_prefixes {http : Http} {cfg : ConfigToml} {prev : Option RouteTable}
    {heap : Heap} {table : RouteTable} (built : (buildTable http cfg prev heap).1 = .ok table) :
    (∀ route ∈ table.routes, CanonicalPrefix route.pathPrefix) ∧
      (table.routes.map Route.pathPrefix).Nodup := by
  have fromConfig := buildTable_prefixes_perm built
  obtain ⟨trusted, validated, routes, checked, -, -⟩ := buildTable_eq_ok (Prod.ext built rfl)
  have valid := validateRoutes_eq_ok (validateConfig_eq_ok.mp checked).2
  constructor
  · intro route member
    have inConfig : route.pathPrefix ∈ cfg.routes.map RouteToml.pathPrefix :=
      fromConfig.subset (List.mem_map_of_mem member)
    obtain ⟨r, inRoutes, samePrefix⟩ := List.mem_map.mp inConfig
    obtain ⟨checkedRoute, -, validates⟩ := exists_of_forall₂ valid.each inRoutes
    exact samePrefix ▸ validates.canonical
  · rw [fromConfig.nodup_iff]
    exact valid.distinct

end Ferryman.Core
