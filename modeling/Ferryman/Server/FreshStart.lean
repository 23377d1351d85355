import Ferryman.Core.FreshTable
import Ferryman.Server.Handler

/-!
# Hot reload and fresh start

Which differences remain between a table built over a previous one and the table
of the same config after a restart, breakers apart.
-/

set_option autoImplicit false

namespace Ferryman.Server

open Ferryman.Core

/-! ## What is sent upstream -/

/-- The request that the handler sends for `req`, or its own answer. -/
def forwardOf (http : Http) (connection : Connection) (table : RouteTable) (req : Request) :
    Except Response Request := do
  let selected ← selectRoute http table req
  let uri ← rebuildUri http req selected
  pure (forwardedRequest connection table req selected uri)

def Selected.forget (selected : Selected) : Selected :=
  { selected with route := selected.route.forget }

theorem selectRoute_forget (http : Http) (table : RouteTable) (req : Request) :
    selectRoute http table.forget req = (selectRoute http table req).map Selected.forget := by
  have sameHealth : table.forget.localHealthPath = table.localHealthPath := rfl
  simp only [selectRoute, ambiguousRoute_forget, lookup_forget, sameHealth]
  split
  · rfl
  · split
    · rfl
    · split
      · rfl
      · cases found : table.lookup req.uri.path with
        | none => rfl
        | some route =>
            have samePath : route.forget.strippedPath req.uri.path =
              route.strippedPath req.uri.path := rfl
            have sameStrip : route.forget.stripPrefix = route.stripPrefix := rfl
            simp only [Option.map_some, samePath, sameStrip]
            cases route.stripPrefix <;> cases route.strippedPath req.uri.path <;>
              by_cases upgrades : wantsUpgrade req.headers = true ∨ req.method = .connect <;>
                simp [upgrades, bind, Except.bind, pure, Except.pure, throw, throwThe,
                  MonadExceptOf.throw, Except.map, Selected.forget, Route.strippedPrefix,
                  Route.forget]

/-- Breakers do not take part in what is sent. -/
theorem forwardOf_forget (http : Http) (connection : Connection) (table : RouteTable)
    (req : Request) :
    forwardOf http connection table.forget req = forwardOf http connection table req := by
  rw [forwardOf, selectRoute_forget, forwardOf]
  cases selectRoute http table req <;> rfl

/-- The table of a reload and that of a fresh start differ in their breakers only. -/
structure EqualsFreshStart (http : Http) (cfg : ConfigToml) (hot fresh : RouteTable) : Prop where
  agrees : hot.forget = fresh.forget
  written : ∀ route ∈ hot.routes,
    configuredUri http cfg route.upstream.name = some route.upstream.uri
  forwards : ∀ connection req,
    forwardOf http connection hot req = forwardOf http connection fresh req

/-- A reload equals a fresh start iff no upstream name that stays has another URI in
the previous table. Every route then has its own URI iff no two routes of the config
spell one upstream differently. -/
theorem reload_equals_fresh_start_iff {http : Http} {cfg : ConfigToml} {prev : RouteTable}
    {heap heap' : Heap} {hot fresh : RouteTable}
    (hotBuilt : (buildTable http cfg (some prev) heap).1 = .ok hot)
    (freshBuilt : (buildTable http cfg none heap').1 = .ok fresh) :
    (EqualsFreshStart http cfg hot fresh ↔ NoStaleUri http cfg prev) ∧
      (EqualsFreshStart http cfg hot fresh ∧ OwnUris http cfg hot ↔
        NoStaleUri http cfg prev ∧ OneSpelling http cfg) := by
  obtain ⟨trusted, validated, -, checked, -, -⟩ := buildTable_eq_ok (Prod.ext hotBuilt rfl)
  have equals : EqualsFreshStart http cfg hot fresh ↔ NoStaleUri http cfg prev := by
    constructor
    · exact fun equal => (written_iff_noStaleUri checked hotBuilt).mp equal.written
    · intro noStale
      have agrees := forget_eq_of_noStaleUri checked freshBuilt hotBuilt noStale
      refine ⟨agrees, (written_iff_noStaleUri checked hotBuilt).mpr noStale, ?_⟩
      intro connection req
      rw [← forwardOf_forget, agrees, forwardOf_forget]
  refine ⟨equals, ?_⟩
  constructor
  · intro agrees
    obtain ⟨equal, own⟩ := agrees
    have noStale := equals.mp equal
    exact ⟨noStale, (ownUris_iff_oneSpelling checked hotBuilt noStale).mp own⟩
  · intro fresh
    obtain ⟨noStale, oneSpelling⟩ := fresh
    exact ⟨equals.mpr noStale, (ownUris_iff_oneSpelling checked hotBuilt noStale).mpr oneSpelling⟩

/-! ## An edit that is lost -/

def editedConfig (upstream : String) : ConfigToml where
  routes := [{ pathPrefix := ascii "/", upstream := ascii upstream, rewriteHost := true }]

def editedTable (upstream : String) (prev : Option RouteTable) (heap : Heap) : RouteTable :=
  match (buildTable plainHttp (editedConfig upstream) prev heap).1 with
  | .ok table => table
  | .error _ => RouteTable.new [] (.fromSecs 0)

def beforeEdit : RouteTable := editedTable "http://a.local" none {}

def beforeHeap : Heap := (buildTable plainHttp (editedConfig "http://a.local") none {}).2

def plainUri : Uri where
  scheme := some (ascii "http")
  authority := some ⟨ascii "a.local", ascii "a.local", none⟩
  pathAndQuery := some ⟨ascii "/", none⟩

theorem unedited_reload_equals_fresh_start :
    EqualsFreshStart plainHttp (editedConfig "http://a.local")
      (editedTable "http://a.local" (some beforeEdit) beforeHeap)
      (editedTable "http://a.local" none {}) := by
  have hotBuilt : (buildTable plainHttp (editedConfig "http://a.local") (some beforeEdit)
      beforeHeap).1 = .ok (editedTable "http://a.local" (some beforeEdit) beforeHeap) := by
    decide +kernel
  have freshBuilt : (buildTable plainHttp (editedConfig "http://a.local") none {}).1 =
      .ok (editedTable "http://a.local" none {}) := by decide +kernel
  have parsed : plainHttp.parseUri (ascii "http://a.local") = .ok plainUri := by decide +kernel
  have only : beforeEdit.upstreams.map Upstream.uri = [plainUri] := by decide +kernel
  refine ((reload_equals_fresh_start_iff hotBuilt freshBuilt).1).mpr ?_
  intro name uri previous configured found
  have isPlain : previous.uri ∈ beforeEdit.upstreams.map Upstream.uri :=
    List.mem_map_of_mem (List.mem_of_find?_eq_some found)
  rw [only, List.mem_singleton] at isPlain
  have configuredPlain : plainUri = uri := by
    by_cases named : upstreamName plainUri = name <;>
      simp [configuredUri, editedConfig, RouteToml.uriNamed, parsed, named] at configured
    exact configured
  rw [isPlain, configuredPlain]

def rootRequest : Request where
  method := .get
  uri := ⟨none, none, some ⟨ascii "/", none⟩⟩
  version := .http11
  headers := ⟨[(host, ⟨ascii "edge.example", by decide⟩)]⟩
  isEndStream := true

/-- The URI `http://A.local:80` has the name of `http://a.local`. A reload keeps the
old spelling and sends another `Host` than a fresh start. -/
theorem edited_reload_keeps_old_host :
    ¬∀ (http : Http) (cfg : ConfigToml) (prev : RouteTable) (heap heap' : Heap)
        (hot fresh : RouteTable), (buildTable http cfg (some prev) heap).1 = .ok hot →
      (buildTable http cfg none heap').1 = .ok fresh → EqualsFreshStart http cfg hot fresh := by
  intro claimed
  have equal := claimed plainHttp (editedConfig "http://A.local:80") beforeEdit beforeHeap {}
    (editedTable "http://A.local:80" (some beforeEdit) beforeHeap)
    (editedTable "http://A.local:80" none {}) (by decide +kernel) (by decide +kernel)
  exact absurd (equal.forwards ⟨.v4 0x7F000001, .http⟩ rootRequest) (by decide +kernel)

end Ferryman.Server
