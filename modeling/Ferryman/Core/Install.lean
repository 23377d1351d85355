import Ferryman.Core.BreakerProperties
import Ferryman.Core.ConfigProperties

/-!
# Installing checked routes

The second half of `buildTable` on routes that passed the first: it cannot fail,
and what it does to the breakers is decided by the first route of each name.
-/

set_option autoImplicit false

namespace Ferryman.Core

open Byte Bytes

/-! ## Upstreams of a table -/

theorem upstreams_fold (routes : List Route) (seen : List Bytes) (found : List Upstream) :
    ∃ added, (routes.foldl (fun (seen, found) route =>
        if route.upstream.name ∈ seen then (seen, found)
        else (route.upstream.name :: seen, found ++ [route.upstream])) (seen, found)).2 =
          found ++ added ∧
      (∀ upstream ∈ added, ∃ route ∈ routes, route.upstream = upstream) ∧
      ∀ name, name ∉ seen → added.find? (·.name = name) =
        (routes.find? (·.upstream.name = name)).map Route.upstream := by
  induction routes generalizing seen found with
  | nil => exact ⟨[], by simp, by simp, by simp⟩
  | cons route rest ih =>
      by_cases known : route.upstream.name ∈ seen
      · obtain ⟨added, shape, members, finds⟩ := ih seen found
        refine ⟨added, by simpa [known] using shape, ?_, ?_⟩
        · intro upstream member
          obtain ⟨later, isLater, same⟩ := members upstream member
          exact ⟨later, List.mem_cons_of_mem _ isLater, same⟩
        · intro name unknown
          have differs : route.upstream.name ≠ name := fun same => unknown (same ▸ known)
          rw [finds name unknown, List.find?_cons_of_neg (by simpa using differs)]
      · obtain ⟨added, shape, members, finds⟩ :=
          ih (route.upstream.name :: seen) (found ++ [route.upstream])
        refine ⟨route.upstream :: added, by simpa [known] using shape, ?_, ?_⟩
        · intro upstream member
          cases List.mem_cons.mp member with
          | inl same =>
              subst same
              exact ⟨route, List.mem_cons_self, rfl⟩
          | inr member =>
              obtain ⟨later, isLater, same⟩ := members upstream member
              exact ⟨later, List.mem_cons_of_mem _ isLater, same⟩
        · intro name unknown
          by_cases same : route.upstream.name = name
          · simp [same]
          · rw [List.find?_cons_of_neg (by simpa using same),
              List.find?_cons_of_neg (by simpa using same),
              finds name (by simp [unknown, Ne.symm same])]

theorem mem_upstreams {table : RouteTable} {upstream : Upstream}
    (member : upstream ∈ table.upstreams) : ∃ route ∈ table.routes, route.upstream = upstream := by
  obtain ⟨added, shape, members, -⟩ := upstreams_fold table.routes [] []
  rw [RouteTable.upstreams, shape, List.nil_append] at member
  exact members upstream member

theorem find?_upstreams (table : RouteTable) (name : Bytes) :
    table.upstreams.find? (·.name = name) =
      (table.routes.find? (·.upstream.name = name)).map Route.upstream := by
  obtain ⟨added, shape, -, finds⟩ := upstreams_fold table.routes [] []
  rw [RouteTable.upstreams, shape, List.nil_append]
  exact finds name (by simp)

/-! ## One upstream -/

def reconfigured (cooldown : Duration) (failureThreshold : UInt32) (b : Breaker) : Breaker :=
  { b with
    cooldownMillis := cooldown.asMillis % 2 ^ 64
    failureThreshold := failureThreshold.toNat }

/-- The upstream of the first route of a name: the one of that name in the previous
table, or a new one. -/
def takeOver (cfg : ConfigToml) (prevUpstreams : List Upstream) (route : ValidatedRoute)
    (heap : Heap) : Upstream × Heap :=
  match prevUpstreams.find? (·.name = route.name) with
  | some previous =>
      previous.reuse route.cooldown cfg.failureThreshold (some route.healthPath)
        route.healthDisabled heap
  | none =>
      let (id, heap) := heap.alloc
        (.unchecked (some route.name) true route.cooldown cfg.failureThreshold)
      (⟨route.uri, route.name, id, some route.healthPath, route.healthDisabled⟩, heap)

theorem takeOver_some {cfg : ConfigToml} {prevUpstreams : List Upstream} {route : ValidatedRoute}
    {previous : Upstream} (found : prevUpstreams.find? (·.name = route.name) = some previous)
    (heap : Heap) :
    takeOver cfg prevUpstreams route heap =
      (previous.withHealth (some route.healthPath) route.healthDisabled,
        heap.update previous.breaker (reconfigured route.cooldown cfg.failureThreshold)) := by
  rw [takeOver, found]
  rfl

theorem takeOver_none {cfg : ConfigToml} {prevUpstreams : List Upstream} {route : ValidatedRoute}
    (isNew : prevUpstreams.find? (·.name = route.name) = none) (heap : Heap) :
    takeOver cfg prevUpstreams route heap =
      (⟨route.uri, route.name, heap.breakers.length, some route.healthPath, route.healthDisabled⟩,
        ⟨heap.breakers ++
          [.unchecked (some route.name) true route.cooldown cfg.failureThreshold]⟩) := by
  rw [takeOver, isNew]
  rfl

/-- What the first half established, as far as `Upstream::new` needs it. -/
structure Installable (cfg : ConfigToml) (route : ValidatedRoute) : Prop where
  name : route.name = upstreamName route.uri
  breaker : route.breaker =
    { cooldown := route.cooldown, failureThreshold := cfg.failureThreshold }
  breakerValid : route.breaker.validate = .ok ()

theorem Validates.installable {http : Http} {cfg : ConfigToml} {r : RouteToml}
    {route : ValidatedRoute} (valid : Validates http cfg r route) : Installable cfg route :=
  ⟨valid.name, valid.breaker, valid.breakerValid⟩

theorem new_eq_ok {uri : Uri} {config : BreakerConfig} (valid : config.validate = .ok ())
    (heap : Heap) :
    Upstream.new uri config heap =
      (.ok ⟨uri, upstreamName uri, heap.breakers.length, none, false⟩,
        ⟨heap.breakers ++ [.unchecked (some (upstreamName uri)) true config.cooldown
          config.failureThreshold]⟩) := by
  simp [Upstream.new, Breaker.forUpstream, valid, Except.mapError, bind, Except.bind, pure,
    Except.pure, Heap.alloc]

section Acquire

variable {cfg : ConfigToml} {prevUpstreams : List Upstream} {byName : List (Bytes × Upstream)}
  {route : ValidatedRoute}

theorem acquireUpstream_shared {upstream : Upstream}
    (known : byName.lookup route.name = some upstream) (heap : Heap) :
    acquireUpstream cfg prevUpstreams byName route heap = (.ok upstream, heap) := by
  simp [acquireUpstream, known]

theorem acquireUpstream_first (installable : Installable cfg route)
    (unknown : byName.lookup route.name = none) (heap : Heap) :
    acquireUpstream cfg prevUpstreams byName route heap =
      (.ok (takeOver cfg prevUpstreams route heap).1,
        (takeOver cfg prevUpstreams route heap).2) := by
  unfold acquireUpstream
  rw [unknown]
  cases found : prevUpstreams.find? (·.name = route.name) with
  | some previous =>
      rw [takeOver_some found]
      rfl
  | none =>
      rw [takeOver_none found, @new_eq_ok route.uri _ installable.breakerValid heap]
      simp only [installable.breaker, installable.name]
      rfl

end Acquire

/-! ## All upstreams -/

section Install

variable (cfg : ConfigToml) (prevUpstreams : List Upstream)

/-- The maps and breakers that the second half leaves behind. -/
def installUpstreams : List (Bytes × Upstream) → List ValidatedRoute → Heap →
    List (Bytes × Upstream) × Heap
  | byName, [], heap => (byName, heap)
  | byName, route :: rest, heap =>
      if (byName.lookup route.name).isSome then installUpstreams byName rest heap
      else
        let (upstream, heap) := takeOver cfg prevUpstreams route heap
        installUpstreams ((route.name, upstream) :: byName) rest heap

def installed (route : ValidatedRoute) (upstream : Upstream) : Route where
  pathPrefix := route.pathPrefix
  upstream := upstream
  rewriteHost := route.rewriteHost
  stripPrefix := route.stripPrefix

variable {cfg prevUpstreams}

theorem installUpstreams_keeps {byName : List (Bytes × Upstream)} {name : Bytes}
    {upstream : Upstream} (known : byName.lookup name = some upstream)
    (routes : List ValidatedRoute) (heap : Heap) :
    (installUpstreams cfg prevUpstreams byName routes heap).1.lookup name = some upstream := by
  induction routes generalizing byName heap with
  | nil => exact known
  | cons route rest ih =>
      rw [installUpstreams]
      split
      · exact ih known heap
      · next unknown =>
        have differs : name ≠ route.name := by
          intro same
          subst same
          simp [known] at unknown
        refine ih ?_ _
        rw [List.lookup_cons, beq_false_of_ne differs]
        exact known

/-- Every route is installed, with the upstream that the map has for its name. -/
theorem installRoutes_eq {byName : List (Bytes × Upstream)} {validated : List ValidatedRoute}
    (installable : ∀ route ∈ validated, Installable cfg route) (heap : Heap) :
    ∃ routes, installRoutes cfg prevUpstreams byName validated heap =
        (.ok routes, (installUpstreams cfg prevUpstreams byName validated heap).2) ∧
      List.Forall₂ (fun route result => ∃ upstream,
        (installUpstreams cfg prevUpstreams byName validated heap).1.lookup route.name =
          some upstream ∧ result = installed route upstream) validated routes := by
  induction validated generalizing byName heap with
  | nil => exact ⟨[], rfl, .nil⟩
  | cons route rest ih =>
      have installableRest := fun later member =>
        installable later (List.mem_cons_of_mem _ member)
      rw [installRoutes, installUpstreams]
      cases known : byName.lookup route.name with
      | some upstream =>
          obtain ⟨routes, shape, each⟩ := @ih byName installableRest heap
          rw [acquireUpstream_shared known]
          simp only [Option.isSome_some, if_true, shape]
          exact ⟨_, rfl, .cons ⟨upstream, installUpstreams_keeps known rest heap, rfl⟩ each⟩
      | none =>
          rw [acquireUpstream_first (installable route List.mem_cons_self) known]
          obtain ⟨routes, shape, each⟩ := @ih
            ((route.name, (takeOver cfg prevUpstreams route heap).1) :: byName) installableRest
            (takeOver cfg prevUpstreams route heap).2
          simp only [Option.isSome_none, Bool.false_eq_true, if_false, shape]
          refine ⟨_, rfl, .cons ⟨_, installUpstreams_keeps ?_ rest _, rfl⟩ each⟩
          exact List.lookup_cons_self

end Install

/-! ## The breakers behind the upstreams -/

/-- The breakers of the previous table exist and differ where the names do. -/
structure Placed (prevUpstreams : List Upstream) (heap : Heap) : Prop where
  inHeap : ∀ upstream ∈ prevUpstreams, upstream.breaker < heap.breakers.length
  apart : ∀ first ∈ prevUpstreams, ∀ second ∈ prevUpstreams,
    first.breaker = second.breaker → first.name = second.name

/-- What holds after some routes were installed over the heap `start`, where the
config has the cooldown `settings name` for every name. -/
structure Installing (cfg : ConfigToml) (prevUpstreams : List Upstream) (start : Heap)
    (settings : Bytes → Duration) (byName : List (Bytes × Upstream)) (heap : Heap) : Prop where
  grows : start.breakers.length ≤ heap.breakers.length
  named : ∀ {name upstream}, byName.lookup name = some upstream → upstream.name = name
  reused : ∀ {name upstream previous}, byName.lookup name = some upstream →
    prevUpstreams.find? (·.name = name) = some previous →
    upstream.breaker = previous.breaker ∧ upstream.uri = previous.uri ∧
      heap.breakers[previous.breaker]? =
        start.breakers[previous.breaker]?.map (reconfigured (settings name) cfg.failureThreshold)
  fresh : ∀ {name upstream}, byName.lookup name = some upstream →
    prevUpstreams.find? (·.name = name) = none →
    start.breakers.length ≤ upstream.breaker ∧ upstreamName upstream.uri = name ∧
      heap.breakers[upstream.breaker]? =
        some (.unchecked (some name) true (settings name) cfg.failureThreshold)
  apart : ∀ {name other upstream upstream'}, byName.lookup name = some upstream →
    byName.lookup other = some upstream' → upstream.breaker = upstream'.breaker → name = other
  untouched : ∀ previous ∈ prevUpstreams, byName.lookup previous.name = none →
    heap.breakers[previous.breaker]? = start.breakers[previous.breaker]?

theorem getElem?_update_of_ne {heap : Heap} {id other : BreakerId} (differs : id ≠ other)
    (operation : Breaker → Breaker) :
    (heap.update id operation).breakers[other]? = heap.breakers[other]? := by
  simp [Heap.update, differs]

theorem getElem?_update_self (heap : Heap) (id : BreakerId) (operation : Breaker → Breaker) :
    (heap.update id operation).breakers[id]? = heap.breakers[id]?.map operation := by
  simp [Heap.update]

theorem lookup_cons_cases {α : Type} {key name : Bytes} {value found : α}
    {entries : List (Bytes × α)} (isFound : ((key, value) :: entries).lookup name = some found) :
    (name = key ∧ found = value) ∨ (name ≠ key ∧ entries.lookup name = some found) := by
  by_cases same : name = key
  · subst same
    rw [List.lookup_cons_self] at isFound
    exact .inl ⟨rfl, (Option.some.inj isFound).symm⟩
  · rw [List.lookup_cons, beq_false_of_ne same] at isFound
    exact .inr ⟨same, isFound⟩

theorem lookup_cons_none {α : Type} {key name : Bytes} {value : α} {entries : List (Bytes × α)}
    (isAbsent : ((key, value) :: entries).lookup name = none) :
    name ≠ key ∧ entries.lookup name = none := by
  by_cases same : name = key
  · subst same
    rw [List.lookup_cons_self] at isAbsent
    cases isAbsent
  · rw [List.lookup_cons, beq_false_of_ne same] at isAbsent
    exact ⟨same, isAbsent⟩

namespace Installing

variable {cfg : ConfigToml} {prevUpstreams : List Upstream} {start heap : Heap}
  {settings : Bytes → Duration} {byName : List (Bytes × Upstream)} {route : ValidatedRoute}

theorem initial : Installing cfg prevUpstreams start settings [] start where
  grows := Nat.le_refl _
  named known := by cases known
  reused known := by cases known
  fresh known := by cases known
  apart known := by cases known
  untouched _ _ _ := rfl

/-- An upstream of the map has its breaker in the old part of the heap if its name is
reused and behind it if not. -/
theorem breaker_bound (placed : Placed prevUpstreams start)
    (installing : Installing cfg prevUpstreams start settings byName heap) {name : Bytes}
    {upstream : Upstream} (known : byName.lookup name = some upstream) :
    upstream.breaker < heap.breakers.length ∧
      (upstream.breaker < start.breakers.length ↔
        (prevUpstreams.find? (·.name = name)).isSome = true) := by
  cases found : prevUpstreams.find? (·.name = name) with
  | some previous =>
      obtain ⟨same, -, -⟩ := installing.reused known found
      have below := placed.inHeap previous (List.mem_of_find?_eq_some found)
      rw [← same] at below
      exact ⟨Nat.lt_of_lt_of_le below installing.grows, by simp [below]⟩
  | none =>
      obtain ⟨above, -, cell⟩ := installing.fresh known found
      obtain ⟨inside, -⟩ := List.getElem?_eq_some_iff.mp cell
      exact ⟨inside, by simpa using above⟩

/-- A new entry whose breaker no other entry has keeps the breakers apart. -/
theorem apart_cons (installing : Installing cfg prevUpstreams start settings byName heap)
    {key name name' : Bytes} {added upstream upstream' : Upstream}
    (other : ∀ {name upstream}, byName.lookup name = some upstream →
      added.breaker ≠ upstream.breaker)
    (known : ((key, added) :: byName).lookup name = some upstream)
    (known' : ((key, added) :: byName).lookup name' = some upstream')
    (same : upstream.breaker = upstream'.breaker) : name = name' := by
  rcases lookup_cons_cases known with ⟨rfl, rfl⟩ | ⟨-, earlier⟩ <;>
    rcases lookup_cons_cases known' with ⟨rfl, rfl⟩ | ⟨-, earlier'⟩
  · rfl
  · exact absurd same (other earlier')
  · exact absurd same.symm (other earlier)
  · exact installing.apart earlier earlier' same

/-- A new entry may change any breaker but those of the entries before it and of
the names still to come. -/
theorem add (installing : Installing cfg prevUpstreams start settings byName heap)
    {key : Bytes} {added : Upstream} {after : Heap}
    (grows : start.breakers.length ≤ after.breakers.length) (named : added.name = key)
    (isReused : ∀ previous, prevUpstreams.find? (·.name = key) = some previous →
      added.breaker = previous.breaker ∧ added.uri = previous.uri ∧
        after.breakers[previous.breaker]? =
          start.breakers[previous.breaker]?.map (reconfigured (settings key) cfg.failureThreshold))
    (isFresh : prevUpstreams.find? (·.name = key) = none →
      start.breakers.length ≤ added.breaker ∧ upstreamName added.uri = key ∧
        after.breakers[added.breaker]? =
          some (.unchecked (some key) true (settings key) cfg.failureThreshold))
    (other : ∀ {name upstream}, byName.lookup name = some upstream →
      added.breaker ≠ upstream.breaker)
    (kept : ∀ {name upstream}, byName.lookup name = some upstream →
      after.breakers[upstream.breaker]? = heap.breakers[upstream.breaker]?)
    (later : ∀ previous ∈ prevUpstreams, previous.name ≠ key →
      after.breakers[previous.breaker]? = heap.breakers[previous.breaker]?) :
    Installing cfg prevUpstreams start settings ((key, added) :: byName) after := by
  constructor
  case grows => exact grows
  case named =>
      intro name upstream known
      cases lookup_cons_cases known with
      | inl isAdded =>
          obtain ⟨rfl, rfl⟩ := isAdded
          exact named
      | inr earlier =>
          obtain ⟨-, known⟩ := earlier
          exact installing.named known
  case reused =>
      intro name upstream previous known found
      cases lookup_cons_cases known with
      | inl isAdded =>
          obtain ⟨rfl, rfl⟩ := isAdded
          exact isReused previous found
      | inr earlier =>
          obtain ⟨-, known⟩ := earlier
          obtain ⟨sameBreaker, sameUri, cell⟩ := installing.reused known found
          refine ⟨sameBreaker, sameUri, ?_⟩
          rw [← cell, ← sameBreaker, kept known]
  case fresh =>
      intro name upstream known isNew
      cases lookup_cons_cases known with
      | inl isAdded =>
          obtain ⟨rfl, rfl⟩ := isAdded
          exact isFresh isNew
      | inr earlier =>
          obtain ⟨-, known⟩ := earlier
          obtain ⟨above, sameName, cell⟩ := installing.fresh known isNew
          exact ⟨above, sameName, (kept known).trans cell⟩
  case apart => exact installing.apart_cons other
  case untouched =>
      intro previous member isAbsent
      obtain ⟨differs, isAbsent⟩ := lookup_cons_none isAbsent
      exact (later previous member differs).trans (installing.untouched previous member isAbsent)

theorem reuse (placed : Placed prevUpstreams start)
    (installing : Installing cfg prevUpstreams start settings byName heap)
    (unknown : byName.lookup route.name = none) (cooldown : route.cooldown = settings route.name)
    {previous : Upstream} (found : prevUpstreams.find? (·.name = route.name) = some previous) :
    Installing cfg prevUpstreams start settings
      ((route.name, previous.withHealth (some route.healthPath) route.healthDisabled) :: byName)
      (heap.update previous.breaker (reconfigured route.cooldown cfg.failureThreshold)) := by
  have member := List.mem_of_find?_eq_some found
  have named : previous.name = route.name := by simpa using List.find?_some found
  -- no other name has this breaker
  have other : ∀ {name upstream}, byName.lookup name = some upstream →
      previous.breaker ≠ upstream.breaker := by
    intro name upstream known same
    have below := placed.inHeap previous member
    rw [same, (installing.breaker_bound placed known).2, Option.isSome_iff_exists] at below
    obtain ⟨older, isOlder⟩ := below
    obtain ⟨sameBreaker, -, -⟩ := installing.reused known isOlder
    have sameName := placed.apart previous member older (List.mem_of_find?_eq_some isOlder)
      (same.trans sameBreaker)
    have olderName : older.name = name := by simpa using List.find?_some isOlder
    rw [← olderName, ← sameName, named, unknown] at known
    cases known
  apply installing.add
  case grows => simpa [Heap.update] using installing.grows
  case named => exact named
  case isReused =>
      intro older isOlder
      obtain rfl : previous = older := Option.some.inj (found.symm.trans isOlder)
      refine ⟨rfl, rfl, ?_⟩
      rw [getElem?_update_self, installing.untouched previous member (named ▸ unknown), cooldown]
  case isFresh =>
      intro isNew
      rw [found] at isNew
      cases isNew
  case other => exact other
  case kept => exact fun known => getElem?_update_of_ne (other known) _
  case later =>
      intro older isOlder differs
      have apart : previous.breaker ≠ older.breaker := fun same =>
        differs ((placed.apart previous member older isOlder same).symm.trans named)
      exact getElem?_update_of_ne apart _

theorem create (placed : Placed prevUpstreams start)
    (installing : Installing cfg prevUpstreams start settings byName heap)
    (cooldown : route.cooldown = settings route.name) (name : route.name = upstreamName route.uri)
    (isNew : prevUpstreams.find? (·.name = route.name) = none) :
    Installing cfg prevUpstreams start settings
      ((route.name, ⟨route.uri, route.name, heap.breakers.length, some route.healthPath,
        route.healthDisabled⟩) :: byName)
      ⟨heap.breakers ++
        [.unchecked (some route.name) true route.cooldown cfg.failureThreshold]⟩ := by
  apply installing.add
  case grows => simpa using Nat.le_succ_of_le installing.grows
  case named => rfl
  case isReused =>
      intro previous found
      rw [isNew] at found
      cases found
  case isFresh =>
      intro _
      refine ⟨installing.grows, name.symm, ?_⟩
      rw [List.getElem?_append_right (Nat.le_refl _), cooldown]
      simp
  case other => exact fun known => Nat.ne_of_gt (installing.breaker_bound placed known).1
  case kept =>
      exact fun known => List.getElem?_append_left (installing.breaker_bound placed known).1
  case later =>
      intro previous member _
      have inside := Nat.lt_of_lt_of_le (placed.inHeap previous member) installing.grows
      exact List.getElem?_append_left inside

theorem run (placed : Placed prevUpstreams start) {routes : List ValidatedRoute}
    (installable : ∀ route ∈ routes, Installable cfg route)
    (cooldowns : ∀ route ∈ routes, route.cooldown = settings route.name)
    (installing : Installing cfg prevUpstreams start settings byName heap) :
    Installing cfg prevUpstreams start settings
      (installUpstreams cfg prevUpstreams byName routes heap).1
      (installUpstreams cfg prevUpstreams byName routes heap).2 := by
  induction routes generalizing byName heap with
  | nil => exact installing
  | cons route rest ih =>
      have later := fun route member => installable route (List.mem_cons_of_mem _ member)
      have laterCooldowns := fun route member => cooldowns route (List.mem_cons_of_mem _ member)
      have cooldown := cooldowns route List.mem_cons_self
      rw [installUpstreams]
      split
      · exact ih later laterCooldowns installing
      · next unknown =>
        rw [Bool.not_eq_true, Option.isSome_eq_false_iff, Option.isNone_iff_eq_none] at unknown
        cases found : prevUpstreams.find? (·.name = route.name) with
        | some previous =>
            rw [takeOver_some found]
            exact ih later laterCooldowns (installing.reuse placed unknown cooldown found)
        | none =>
            rw [takeOver_none found]
            exact ih later laterCooldowns (installing.create placed cooldown
              (installable route List.mem_cons_self).name found)

end Installing

/-! ## Atomicity -/

theorem validateRoutes_installable {http : Http} {cfg : ConfigToml} {seen : Validation}
    {routes : List RouteToml} {validated : List ValidatedRoute}
    (accepted : validateRoutes http cfg seen routes = .ok validated) :
    ∀ route ∈ validated, Installable cfg route := by
  intro route member
  obtain ⟨r, -, valid⟩ := exists_of_forall₂ (validateRoutes_eq_ok accepted).each.flip member
  exact Validates.installable valid

theorem buildTable_accepts {http : Http} {cfg : ConfigToml} {trusted : TrustedProxies}
    {validated : List ValidatedRoute} (checked : validateConfig http cfg = .ok (trusted, validated))
    (prev : Option RouteTable) (heap : Heap) :
    ∃ table after, buildTable http cfg prev heap = (.ok table, after) := by
  obtain ⟨routes, shape, -⟩ := @installRoutes_eq cfg ((prev.map RouteTable.upstreams).getD []) []
    validated (validateRoutes_installable (validateConfig_eq_ok.mp checked).2) heap
  rw [buildTable_of_ok checked, shape]
  exact ⟨_, _, rfl⟩

theorem buildTable_rejects {http : Http} {cfg : ConfigToml} {prev : Option RouteTable}
    {heap after : Heap} {error : Error}
    (rejected : buildTable http cfg prev heap = (.error error, after)) :
    validateConfig http cfg = .error error ∧ after = heap := by
  cases checked : validateConfig http cfg with
  | error reason =>
      rw [buildTable_of_error checked] at rejected
      obtain ⟨same, rfl⟩ := Prod.mk.inj rejected
      exact ⟨congrArg _ (Except.error.inj same), rfl⟩
  | ok result =>
      obtain ⟨table, final, built⟩ := buildTable_accepts checked prev heap
      rw [built] at rejected
      cases rejected

/-- A rejected config leaves every breaker as it was: once all routes have passed the
checks, installing them cannot fail any more, whatever the previous table. -/
theorem rejected_reload_has_no_effect (http : Http) (cfg : ConfigToml) :
    (∀ prev heap after error, buildTable http cfg prev heap = (.error error, after) →
      after = heap) ∧
    ∀ validated, validateRoutes http cfg {} cfg.routes = .ok validated →
      ∀ prevUpstreams heap, ∃ routes after,
        installRoutes cfg prevUpstreams [] validated heap = (.ok routes, after) := by
  refine ⟨fun prev heap after error rejected => (buildTable_rejects rejected).2, ?_⟩
  intro validated checked prevUpstreams heap
  obtain ⟨routes, shape, -⟩ := installRoutes_eq (validateRoutes_installable checked) heap
  exact ⟨routes, _, shape⟩

def oneBreaker : Heap := ⟨[.unchecked (some (ascii "a.local:8001")) true (.fromSecs 30) 3]⟩

def oneRoute : RouteTable :=
  RouteTable.new [{
    pathPrefix := ascii "/api"
    upstream := ⟨⟨some (ascii "http"), some ⟨ascii "a.local:8001", ascii "a.local", some 8001⟩,
      some ⟨ascii "/", none⟩⟩, ascii "a.local:8001", 0, some (ascii "/health"), false⟩ }]
    (.fromSecs 30)

def brokenConfig : ConfigToml where
  routes := [
    { pathPrefix := ascii "/api", upstream := ascii "http://a.local:8001", cooldownSecs := some 5 },
    { pathPrefix := ascii "x", upstream := ascii "http://b.local" }]

theorem broken_config_has_no_effect :
    (buildTable plainHttp brokenConfig (some oneRoute) oneBreaker).1.toOption = none ∧
      (buildTable plainHttp brokenConfig (some oneRoute) oneBreaker).2 = oneBreaker := by
  have rejected : (buildTable plainHttp brokenConfig (some oneRoute) oneBreaker).1.toOption =
      none := by decide +kernel
  refine ⟨rejected, ?_⟩
  obtain ⟨noEffect, -⟩ := rejected_reload_has_no_effect plainHttp brokenConfig
  cases result : buildTable plainHttp brokenConfig (some oneRoute) oneBreaker with
  | mk outcome after =>
      cases outcome with
      | ok table => simp [result, Except.toOption] at rejected
      | error error => exact noEffect _ _ _ _ result

end Ferryman.Core
