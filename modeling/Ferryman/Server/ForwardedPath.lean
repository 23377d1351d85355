import Ferryman.Core.AcceptedPaths
import Ferryman.Server.Handler

/-!
# The forwarded path

Which path the handler sends upstream for a request that passed the path checks
and found a route.
-/

set_option autoImplicit false

namespace Ferryman.Server

open Ferryman.Core Byte

/-- The path that is sent for the received one. -/
def Selected.sentPath (selected : Selected) (raw : Bytes) : Bytes :=
  (selected.strip.map Prod.fst).getD raw

/-- Behind the path checks, the host check and the lookup, only a protocol upgrade
or a path that cannot be stripped ends the request. -/
theorem selectRoute_of_lookup {http : Http} {table : RouteTable} {req : Request} {route : Route}
    (accepted : badPathNormalized req.uri.path = false)
    (unambiguous : ambiguousRoute table req.uri.path = false)
    (found : table.lookup req.uri.path = some route) {stripped : Bytes}
    (strips : route.stripPrefix = true → route.strippedPath req.uri.path = some stripped) :
    selectRoute http table req ≠ .error badPathResponse ∧
      ∀ selected, selectRoute http table req = .ok selected →
        selected.route = route ∧
          selected.sentPath req.uri.path = if route.stripPrefix then stripped else req.uri.path := by
  -- an answer other than `bad path`, and a selection
  have refused : ∀ response : Response, response ≠ badPathResponse →
      (Except.error response : Except Response Selected) ≠ .error badPathResponse ∧
        ∀ selected, (Except.error response : Except Response Selected) = .ok selected →
          selected.route = route ∧ selected.sentPath req.uri.path =
            if route.stripPrefix then stripped else req.uri.path :=
    fun response differs => ⟨fun same => differs (Except.error.inj same), by simp⟩
  have chosen : ∀ strip, (strip.map Prod.fst).getD req.uri.path =
        (if route.stripPrefix then stripped else req.uri.path) →
      (Except.ok ⟨route, strip⟩ : Except Response Selected) ≠ .error badPathResponse ∧
        ∀ selected, (Except.ok ⟨route, strip⟩ : Except Response Selected) = .ok selected →
          selected.route = route ∧ selected.sentPath req.uri.path =
            if route.stripPrefix then stripped else req.uri.path := by
    intro strip sends
    refine ⟨by simp, fun selected same => ?_⟩
    obtain rfl := Except.ok.inj same
    exact ⟨rfl, sends⟩
  have health : ∀ text, errorResponse 200 text ≠ badPathResponse := fun text same => by
    have status := congrArg Response.status same
    simp [errorResponse, badPathResponse] at status
  simp only [selectRoute, accepted, unambiguous, Bool.or_self, Bool.false_eq_true, if_false, found]
  split
  · exact refused _ (health _)
  · split
    · exact refused _ (by decide)
    · cases isStripped : route.stripPrefix with
      | true =>
          simp only [strips isStripped, if_true, pure_bind]
          split
          · rw [isStripped] at refused
            exact refused _ (by decide)
          · rw [isStripped] at chosen
            exact chosen _ rfl
      | false =>
          simp only [Bool.false_eq_true, if_false, pure_bind]
          split
          · rw [isStripped] at refused
            exact refused _ (by decide)
          · rw [isStripped] at chosen
            exact chosen _ rfl

/-- A stripping route with a prefix to strip sends a safe remainder of the normal
form; every other route sends the accepted path as it came. Stripping never fails
behind the lookup. -/
theorem forwarded_path_safe {http : Http} {cfg : ConfigToml} {prev : Option RouteTable}
    {heap : Heap} {table : RouteTable} {raw : Bytes} {route : Route}
    (built : (buildTable http cfg prev heap).1 = .ok table)
    (accepted : badPathNormalized raw = false) (found : table.lookup raw = some route) :
    (route.stripPrefix = true ∧ route.pathPrefix ≠ ascii "/" →
      ∃ sent, route.strippedPath raw = some sent ∧ SafeRemainder route raw sent ∧
        ∀ req : Request, req.uri.path = raw → ambiguousRoute table raw = false →
          selectRoute http table req ≠ .error badPathResponse ∧
          ∀ selected, selectRoute http table req = .ok selected →
            selected.route = route ∧ selected.sentPath raw = sent) ∧
    (¬(route.stripPrefix = true ∧ route.pathPrefix ≠ ascii "/") →
      badPath raw = false ∧
        ∀ req : Request, req.uri.path = raw → ambiguousRoute table raw = false →
          selectRoute http table req ≠ .error badPathResponse ∧
          ∀ selected, selectRoute http table req = .ok selected →
            selected.route = route ∧ selected.sentPath raw = raw) := by
  have canonical := (buildTable_prefixes built).1 route (List.mem_of_find?_eq_some found)
  have isMatch : prefixMatches route.pathPrefix (normalize raw) = true := by
    simpa using List.find?_some (show table.routes.find? _ = some route from found)
  constructor
  · intro strips
    obtain ⟨isStripped, notRoot⟩ := strips
    obtain ⟨sent, strips, safe⟩ := strippedPath_safe canonical notRoot accepted isMatch
    refine ⟨sent, strips, safe, ?_⟩
    intro req same unambiguous
    subst same
    have selects := @selectRoute_of_lookup http table req route accepted unambiguous found sent
      fun _ => strips
    rwa [if_pos isStripped] at selects
  · intro keeps
    have rawAccepted : badPath raw = false := by
      simp only [badPathNormalized, Bool.or_eq_false_iff] at accepted
      exact accepted.1
    refine ⟨rawAccepted, ?_⟩
    intro req same unambiguous
    subst same
    have strips : route.stripPrefix = true → route.strippedPath req.uri.path = some req.uri.path := by
      intro isStripped
      have isRoot : route.pathPrefix = ascii "/" := by
        by_contra notRoot
        exact keeps ⟨isStripped, notRoot⟩
      have nothing : route.strippedPrefix = [] := by
        rw [Route.strippedPrefix, isRoot]
        decide
      simp [Route.strippedPath, nothing]
    have selects := @selectRoute_of_lookup http table req route accepted unambiguous found
      req.uri.path strips
    simpa using selects

def strippedConfig : ConfigToml where
  routes := [
    { pathPrefix := ascii "/api/", upstream := ascii "http://a.local:8001", stripPrefix := true }]

def strippedTable : RouteTable :=
  match (buildTable plainHttp strippedConfig none {}).1 with
  | .ok table => table
  | .error _ => RouteTable.new [] (.fromSecs 0)

def strippedRoute : Route where
  pathPrefix := ascii "/api/"
  upstream := ⟨⟨some (ascii "http"), some ⟨ascii "a.local:8001", ascii "a.local", some 8001⟩,
    some ⟨ascii "/", none⟩⟩, ascii "a.local:8001", 0, some (ascii "/health"), false⟩
  stripPrefix := true

theorem encoded_prefix_is_stripped :
    badPathNormalized (ascii "/%61pi//x%2Fy") = false ∧
      strippedTable.lookup (ascii "/%61pi//x%2Fy") = some strippedRoute ∧
      ∃ sent, strippedRoute.strippedPath (ascii "/%61pi//x%2Fy") = some sent ∧
        SafeRemainder strippedRoute (ascii "/%61pi//x%2Fy") sent := by
  have built : (buildTable plainHttp strippedConfig none {}).1 = .ok strippedTable := by
    decide +kernel
  have accepted : badPathNormalized (ascii "/%61pi//x%2Fy") = false := by decide +kernel
  have found : strippedTable.lookup (ascii "/%61pi//x%2Fy") = some strippedRoute := by
    decide +kernel
  obtain ⟨sent, strips, safe, -⟩ :=
    (forwarded_path_safe built accepted found).1 ⟨rfl, by decide⟩
  exact ⟨accepted, found, sent, strips, safe⟩

end Ferryman.Server
