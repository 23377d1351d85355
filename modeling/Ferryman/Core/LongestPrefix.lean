import Ferryman.Core.PartialDecoders

/-!
# Lookup as longest-prefix matching

The first match in the order of the table is the longest one, and a match on
bytes is a match on whole segments.
-/

set_option autoImplicit false

namespace Ferryman.Core

open Byte Bytes

/-! ## Segments -/

/-- A prefix that ends in a slash matches as a string, any other by whole segments. -/
def SegmentMatch (pathPrefix path : Bytes) : Prop :=
  if pathPrefix.getLast? = some slash then pathPrefix <+: path
  else pathPrefix.splitOn slash <+: path.splitOn slash

instance (pathPrefix path : Bytes) : Decidable (SegmentMatch pathPrefix path) :=
  inferInstanceAs (Decidable (if pathPrefix.getLast? = some slash then pathPrefix <+: path
    else pathPrefix.splitOn slash <+: path.splitOn slash))

theorem intercalate_append {front back : List Bytes} (nonempty : front ≠ [])
    (continued : back ≠ []) :
    [slash].intercalate (front ++ back) =
      [slash].intercalate front ++ slash :: [slash].intercalate back := by
  induction front with
  | nil => exact absurd rfl nonempty
  | cons segment front ih =>
      rw [List.cons_append, List.intercalate_cons_of_ne_nil (by simp [continued])]
      cases front with
      | nil => simp
      | cons next front =>
          rw [ih (by simp), List.intercalate_cons_cons]
          simp

/-- The segments of a prefix come first exactly if the path goes on behind it with a
slash or not at all. -/
theorem splitOn_prefix_iff {pathPrefix path : Bytes} :
    pathPrefix.splitOn slash <+: path.splitOn slash ↔
      ∃ rest, path = pathPrefix ++ rest ∧ (rest = [] ∨ rest.head? = some slash) := by
  constructor
  · intro isPrefix
    obtain ⟨others, split⟩ := isPrefix
    have rejoined : [slash].intercalate (pathPrefix.splitOn slash ++ others) = path := by
      rw [split, List.intercalate_splitOn]
    by_cases nothing : others = []
    · rw [nothing, List.append_nil, List.intercalate_splitOn] at rejoined
      exact ⟨[], by rw [List.append_nil, rejoined], .inl rfl⟩
    · rw [intercalate_append (List.splitOn_ne_nil slash pathPrefix) nothing,
        List.intercalate_splitOn] at rejoined
      exact ⟨_, rejoined.symm, .inr rfl⟩
  · intro continues
    obtain ⟨rest, rfl, ends⟩ := continues
    cases ends with
    | inl nothing => rw [nothing, List.append_nil]
    | inr head =>
        obtain ⟨tail, rfl⟩ := List.head?_eq_some_iff.mp head
        rw [List.splitOn_append_cons_self]
        exact List.prefix_append _ _

theorem prefixMatches_iff_segmentMatch {pathPrefix path : Bytes} :
    prefixMatches pathPrefix path = true ↔ SegmentMatch pathPrefix path := by
  rw [prefixMatches_iff, SegmentMatch]
  by_cases closed : pathPrefix.getLast? = some slash
  · simp only [closed, true_or, and_true, if_true]
    exact ⟨fun ⟨rest, shape⟩ => ⟨rest, shape.symm⟩, fun ⟨rest, shape⟩ => ⟨rest, shape.symm⟩⟩
  · rw [if_neg closed, splitOn_prefix_iff]
    simp only [closed, false_or]

theorem SegmentMatch.isPrefix {pathPrefix path : Bytes} (isMatch : SegmentMatch pathPrefix path) :
    pathPrefix <+: path := by
  obtain ⟨rest, shape, -⟩ := prefixMatches_iff.mp (prefixMatches_iff_segmentMatch.mpr isMatch)
  exact ⟨rest, shape.symm⟩

/-! ## The scan -/

/-- In a list that is sorted by decreasing key, the first hit has the largest key. -/
theorem find?_largest {α : Type} {entries : List α} {hit : α → Bool} {key : α → Nat} {found : α}
    (sorted : entries.Pairwise fun first second => key second ≤ key first)
    (isFound : entries.find? hit = some found) :
    ∀ entry ∈ entries, hit entry = true → key entry ≤ key found := by
  obtain ⟨-, front, back, rfl, missed⟩ := List.find?_eq_some_iff_append.mp isFound
  intro entry member isHit
  cases List.mem_append.mp member with
  | inl earlier =>
      have notHit := missed entry earlier
      rw [isHit] at notHit
      cases notHit
  | inr later =>
      cases List.mem_cons.mp later with
      | inl same => rw [same]
      | inr behind =>
          exact (List.pairwise_cons.mp (List.pairwise_append.mp sorted).2.1).1 entry behind

structure LongestMatch (table : RouteTable) (path : Bytes) (route : Route) : Prop where
  member : route ∈ table.routes
  isMatch : SegmentMatch route.pathPrefix path
  longest : ∀ other ∈ table.routes, SegmentMatch other.pathPrefix path →
    other.pathPrefix.length ≤ route.pathPrefix.length

/-- Two prefixes of one length that match one path are the same. -/
theorem LongestMatch.unique {table : RouteTable} {path : Bytes} {first second : Route}
    (distinct : (table.routes.map Route.pathPrefix).Nodup)
    (isFirst : LongestMatch table path first) (isSecond : LongestMatch table path second) :
    first = second := by
  have sameLength : first.pathPrefix.length = second.pathPrefix.length :=
    Nat.le_antisymm (isSecond.longest first isFirst.member isFirst.isMatch)
      (isFirst.longest second isSecond.member isSecond.isMatch)
  have samePrefix : first.pathPrefix = second.pathPrefix :=
    (List.prefix_of_prefix_length_le isFirst.isMatch.isPrefix isSecond.isMatch.isPrefix
      sameLength.le).eq_of_length sameLength
  exact List.inj_on_of_nodup_map distinct isFirst.member isSecond.member samePrefix

theorem lookup_eq_none_iff {table : RouteTable} {raw : Bytes} :
    table.lookup raw = none ↔
      ∀ route ∈ table.routes, ¬SegmentMatch route.pathPrefix (normalize raw) := by
  rw [RouteTable.lookup, List.find?_eq_none]
  simp only [prefixMatches_iff_segmentMatch]

section Lookup

variable {http : Http} {cfg : ConfigToml} {prev : Option RouteTable} {heap : Heap}
  {table : RouteTable} (built : (buildTable http cfg prev heap).1 = .ok table)

include built

theorem longestMatch_of_lookup {raw : Bytes} {route : Route}
    (found : table.lookup raw = some route) : LongestMatch table (normalize raw) route where
  member := List.mem_of_find?_eq_some found
  isMatch := by
    rw [RouteTable.lookup] at found
    have hit := List.find?_some found
    exact prefixMatches_iff_segmentMatch.mp hit
  longest other member isMatch :=
    find?_largest (buildTable_sorted built) found other member
      (prefixMatches_iff_segmentMatch.mpr isMatch)

theorem lookup_of_longestMatch {raw : Bytes} {route : Route}
    (isLongest : LongestMatch table (normalize raw) route) : table.lookup raw = some route := by
  obtain ⟨-, distinct⟩ := buildTable_prefixes built
  cases found : table.lookup raw with
  | none => exact absurd isLongest.isMatch (lookup_eq_none_iff.mp found route isLongest.member)
  | some other => rw [(longestMatch_of_lookup built found).unique distinct isLongest]

end Lookup

/-- The lookup finds the route with the longest matching prefix, which is unique, and
nothing exactly if no prefix matches. -/
theorem lookup_is_longest_match {http : Http} {cfg : ConfigToml} {prev : Option RouteTable}
    {heap : Heap} {table : RouteTable} (built : (buildTable http cfg prev heap).1 = .ok table)
    (raw : Bytes) :
    (∀ route, table.lookup raw = some route ↔ LongestMatch table (normalize raw) route) ∧
      (∀ first second, LongestMatch table (normalize raw) first →
        LongestMatch table (normalize raw) second → first = second) ∧
      (table.lookup raw = none ↔
        ∀ route ∈ table.routes, ¬SegmentMatch route.pathPrefix (normalize raw)) := by
  obtain ⟨-, distinct⟩ := buildTable_prefixes built
  exact ⟨fun route => ⟨longestMatch_of_lookup built, lookup_of_longestMatch built⟩,
    fun _ _ isFirst isSecond => isFirst.unique distinct isSecond, lookup_eq_none_iff⟩

def nestedConfig : ConfigToml where
  routes := [
    { pathPrefix := ascii "/api", upstream := ascii "http://a.local" },
    { pathPrefix := ascii "/api/", upstream := ascii "http://b.local" },
    { pathPrefix := ascii "/api/v1", upstream := ascii "http://c.local" }]

def nestedTable : RouteTable :=
  match (buildTable plainHttp nestedConfig none {}).1 with
  | .ok table => table
  | .error _ => RouteTable.new [] (.fromSecs 0)

/-- `/api/v1` does not match `/api/v12`, the other two prefixes do. -/
theorem nested_prefix_is_found :
    ∃ route, nestedTable.lookup (ascii "//%61pi/v12") = some route ∧
      route.pathPrefix = ascii "/api/" := by
  have built : (buildTable plainHttp nestedConfig none {}).1 = .ok nestedTable := by decide +kernel
  have found : nestedTable.routes.find? (fun route => route.pathPrefix = ascii "/api/") ≠ none := by
    decide +kernel
  obtain ⟨route, isRoute⟩ := Option.ne_none_iff_exists'.mp found
  have same : route.pathPrefix = ascii "/api/" := by simpa using List.find?_some isRoute
  refine ⟨route, ((lookup_is_longest_match built (ascii "//%61pi/v12")).1 route).mpr ?_, same⟩
  refine ⟨List.mem_of_find?_eq_some isRoute, ?_, ?_⟩
  · rw [same]
    decide +kernel
  · rw [same]
    decide +kernel

end Ferryman.Core
