import Ferryman.Core.AcceptedPaths
import Ferryman.Core.LongestPrefix

/-!
# Live routes

The check of a prefix at load time against the checks of a request path: for
which prefixes a request for the prefix itself reaches its route.
-/

set_option autoImplicit false

namespace Ferryman.Core

open Byte Bytes

/-! ## Prefixes in normal form -/

theorem length_normalizeLoop_le (path : Bytes) : (normalizeLoop path).length ≤ path.length := by
  fun_induction normalizeLoop path with
  | case1 => exact Nat.le_refl _
  | case2 c rest n out rewritten ih =>
      rcases rewriteAt_cases rewritten with
        ⟨-, -, rfl, rfl⟩ | ⟨_, _, _, _, _, -, rfl, -, -, rfl, ⟨-, rfl⟩ | ⟨-, rfl⟩⟩
      all_goals
        simp only [List.length_append, List.length_cons, List.length_nil, List.length_drop] at ih ⊢
        omega
  | case3 c rest kept ih => simpa using ih

theorem settled_of_normal {path : Bytes} (normal : normalize path = path) : Settled path := by
  rw [normalize_eq_loop] at normal
  induction path with
  | nil =>
      intro suffix isSuffix
      rw [List.suffix_nil.mp isSuffix, rewriteAt]
  | cons c rest ih =>
      cases rewritten : rewriteAt (c :: rest) with
      | none =>
          rw [normalizeLoop_copy rewritten] at normal
          exact settled_cons.mpr ⟨rewritten, ih (List.cons.inj normal).2⟩
      | some step =>
          obtain ⟨n, out⟩ := step
          rw [normalizeLoop_rewrite rewritten] at normal
          have shrinks := length_normalizeLoop_le (rest.drop (n - 1))
          have sameLength := congrArg List.length normal
          rcases rewriteAt_cases rewritten with
            ⟨-, -, rfl, rfl⟩ | ⟨high, low, tail, h, l, rfl, rfl, highValue, lowValue, rfl, written⟩
          · simp only [List.length_append, List.length_cons, List.length_nil,
              List.length_drop] at sameLength shrinks
            omega
          · cases written with
            | inl decodes =>
                obtain ⟨-, rfl⟩ := decodes
                simp only [List.length_append, List.length_cons, List.length_nil,
                  List.length_drop] at sameLength shrinks
                omega
            | inr keeps =>
                obtain ⟨reserved, rfl⟩ := keeps
                -- the digits were upper case already, so nothing was rewritten
                simp only [List.cons_append, List.nil_append, List.cons.injEq, true_and] at normal
                rw [rewriteAt_escape highValue lowValue, if_neg (by simp [reserved]), ← normal.1,
                  ← normal.2.1, isLower_toUpper, isLower_toUpper] at rewritten
                cases rewritten

theorem pieces_eq_splitOn {path : Bytes}
    (only : ∀ c rest, c :: rest <:+ path → c ≠ slash → separatorWidth (c :: rest) = 0) :
    separators.pieces path = path.splitOn slash := by
  induction path with
  | nil => simp
  | cons c rest ih =>
      have later := ih fun c' rest' isSuffix =>
        only c' rest' (isSuffix.trans (List.suffix_cons c rest))
      rw [List.splitOn_cons_eq_if_modifyHead]
      by_cases isSlash : c = slash
      · subst isSlash
        have split : separators.pieces (slash :: rest) = [] :: separators.pieces rest := by
          simpa using pieces_slash [] rest
        rw [split, later, if_pos (beq_self_eq_true slash)]
      · rw [separators.pieces_cons_plain (only c rest List.suffix_rfl isSlash), later,
          if_neg (by simpa using isSlash)]

theorem infix_of_mem_splitOn {path segment : Bytes} (isSegment : segment ∈ path.splitOn slash) :
    segment <:+: path := by
  by_cases present : slash ∈ path
  · obtain ⟨first, rest, rfl, absent⟩ := List.eq_append_cons_of_mem present
    rw [List.splitOn_append_cons_self_of_not_mem absent] at isSegment
    cases List.mem_cons.mp isSegment with
    | inl same =>
        subst same
        exact (List.prefix_append _ _).isInfix
    | inr later =>
        exact (infix_of_mem_splitOn later).trans
          ((List.suffix_cons slash rest).trans (List.suffix_append _ _)).isInfix
  · rw [List.splitOn_eq_singleton present, List.mem_singleton] at isSegment
    rw [isSegment]
termination_by path.length
decreasing_by simp_all; omega

theorem countDots_plain {piece : Bytes} {dots : Nat}
    (noEscapes : ¬ascii "%2e" <:+: piece ∧ ¬ascii "%2E" <:+: piece)
    (counted : countDots piece = some dots) : piece = List.replicate dots dot := by
  induction piece generalizing dots with
  | nil =>
      rw [countDots] at counted
      obtain rfl := Option.some.inj counted
      rfl
  | cons c rest ih =>
      have later : ¬ascii "%2e" <:+: rest ∧ ¬ascii "%2E" <:+: rest :=
        ⟨fun found => noEscapes.1 (found.trans (List.suffix_cons c rest).isInfix),
          fun found => noEscapes.2 (found.trans (List.suffix_cons c rest).isInfix)⟩
      have notEscape : (startsWith (c :: rest) "%2e" || startsWith (c :: rest) "%2E") = false := by
        rw [Bool.or_eq_false_iff, ← Bool.not_eq_true, ← Bool.not_eq_true, startsWith_iff,
          startsWith_iff]
        exact ⟨fun found => noEscapes.1 found.isInfix, fun found => noEscapes.2 found.isInfix⟩
      rw [countDots, notEscape] at counted
      by_cases isDot : c = dot
      · subst isDot
        simp only [beq_self_eq_true, if_true, Option.map_eq_some_iff] at counted
        obtain ⟨fewer, countedRest, rfl⟩ := counted
        rw [ih later countedRest]
        rfl
      · simp [isDot] at counted

theorem dotPiece_plain {piece : Bytes} (noParams : semicolon ∉ piece)
    (noEscapes : ¬ascii "%2e" <:+: piece ∧ ¬ascii "%2E" <:+: piece)
    (isDots : dotPiece piece = true) : piece = ascii "." ∨ piece = ascii ".." := by
  have whole : before semicolon piece = piece := by
    simpa using @before_append_of_notMem _ _ [] noParams
  simp only [dotPiece, whole] at isDots
  split at isDots
  · next counted => exact .inl (countDots_plain noEscapes counted)
  · next counted => exact .inr (countDots_plain noEscapes counted)
  · cases isDots

/-! ## What a canonical prefix may hold -/

namespace CanonicalPrefix

variable {pathPrefix : Bytes} (canonical : CanonicalPrefix pathPrefix)

include canonical

theorem separator_not_infix {token : Bytes} (isSeparator : token ∈ encodedSeparators) :
    ¬token <:+: pathPrefix := by
  intro inside
  have upper := inside.map toUpper
  rcases mem_encodedSeparators.mp isSeparator with rfl | rfl | rfl | rfl | rfl
  · exact canonical.noBackslash (inside.subset List.mem_cons_self)
  all_goals
    first
    | have found := containsText_iff.mpr (show ascii "%2F" <:+: _ from upper)
      simp [canonical.noEncodedSlash] at found
    | have found := containsText_iff.mpr (show ascii "%5C" <:+: _ from upper)
      simp [canonical.noEncodedBackslash] at found

theorem separatorWidth_zero {c : UInt8} {rest : Bytes} (isSuffix : c :: rest <:+ pathPrefix)
    (notSlash : c ≠ slash) : separatorWidth (c :: rest) = 0 := by
  cases found : separatorWidth (c :: rest) with
  | zero => rfl
  | succ skipped =>
      cases separatorWidth_cases found with
      | inl isSlash => exact absurd (List.cons.inj isSlash).1 notSlash
      | inr isSeparator =>
          have isPrefix : c :: rest.take skipped <+: c :: rest :=
            List.prefix_cons_inj c |>.mpr (List.take_prefix skipped rest)
          exact absurd (isPrefix.isInfix.trans isSuffix.isInfix)
            (canonical.separator_not_infix isSeparator)

theorem no_encoded_dot : ¬ascii "%2e" <:+: pathPrefix ∧ ¬ascii "%2E" <:+: pathPrefix := by
  have settled := settled_of_normal canonical.normal
  constructor
  · intro isInfix
    obtain ⟨left, right, shape⟩ := isInfix
    have kept := settled (ascii "%2e" ++ right) ⟨left, by rw [← shape, List.append_assoc]⟩
    cases kept
  · intro isInfix
    obtain ⟨left, right, shape⟩ := isInfix
    have kept := settled (ascii "%2E" ++ right) ⟨left, by rw [← shape, List.append_assoc]⟩
    cases kept

/-- On a canonical prefix the scan of `badPath` sees its segments as they are. -/
theorem dotFree_iff :
    DotFree pathPrefix ↔
      ∀ segment ∈ pathPrefix.splitOn slash, segment ≠ ascii "." ∧ segment ≠ ascii ".." := by
  refine ⟨DotFree.segments, fun segments piece member => ?_⟩
  rw [pieces_eq_splitOn fun _ _ => canonical.separatorWidth_zero] at member
  by_contra isDots
  rw [Bool.not_eq_false] at isDots
  have inside : piece <:+: pathPrefix := infix_of_mem_splitOn member
  have dots := dotPiece_plain (fun params => canonical.noParams (inside.subset params))
    ⟨fun found => canonical.no_encoded_dot.1 (found.trans inside),
      fun found => canonical.no_encoded_dot.2 (found.trans inside)⟩ isDots
  cases dots with
  | inl isDot => exact (segments piece member).1 isDot
  | inr isDots => exact (segments piece member).2 isDots

theorem not_suspicious
    (noRefused : ∀ suffix, suffix <:+ pathPrefix → refusedEscape suffix = false) :
    suspicious pathPrefix = false := by
  rw [suspicious, List.any_eq_false]
  intro suffix isTail
  have isSuffix := List.mem_tails _ _ |>.mp isTail
  cases suffix with
  | nil => simp [suspiciousAt]
  | cons c rest =>
      have plain : c ≠ backslash ∧ c ≠ semicolon :=
        ⟨fun same => canonical.noBackslash (isSuffix.subset (same ▸ List.mem_cons_self)),
          fun same => canonical.noParams (isSuffix.subset (same ▸ List.mem_cons_self))⟩
      by_cases isPercent : c = percent
      · subst isPercent
        have single : separatorDigits rest = false := by
          have width := canonical.separatorWidth_zero isSuffix (by decide)
          have notSlash : startsWith (percent :: rest) "/" = false := rfl
          have encoded := encodedWidth_cons percent rest
          rw [encodedWidth] at encoded
          simp only [separatorWidth, notSlash, Bool.false_or] at width
          rw [width] at encoded
          by_contra digits
          rw [Bool.not_eq_false] at digits
          rw [if_neg (by decide), digits, if_pos (by decide)] at encoded
          cases encoded
        have double : doubleSeparatorDigits rest = false := by
          by_contra digits
          rw [Bool.not_eq_false] at digits
          have refused := refusedEscape_double digits
          rw [noRefused _ isSuffix] at refused
          cases refused
        simp [suspiciousAt, single, double]
        decide
      · simp [suspiciousAt, plain.1, plain.2, isPercent]

end CanonicalPrefix

/-! ## Requests for a prefix -/

def refusedTexts : List String :=
  ["%00", "%u", "%U", "%252e", "%252E", "%252f", "%252F", "%255c", "%255C"]

theorem refusedEscape_eq_true {b : Bytes} :
    refusedEscape b = true ↔ ∃ text ∈ refusedTexts, ascii text <+: b := by
  simp [refusedEscape, refusedTexts, startsWith_iff, or_assoc]

/-- No segment is a dot segment and none of the refused escapes occurs. -/
def PlainPrefix (pathPrefix : Bytes) : Prop :=
  (∀ segment ∈ pathPrefix.splitOn slash, segment ≠ ascii "." ∧ segment ≠ ascii "..") ∧
    ∀ text ∈ refusedTexts, ¬ascii text <:+: pathPrefix

theorem noRefused_iff {path : Bytes} :
    (∀ suffix, suffix <:+ path → refusedEscape suffix = false) ↔
      ∀ text ∈ refusedTexts, ¬ascii text <:+: path := by
  constructor
  · intro noRefused text member isInfix
    obtain ⟨left, right, shape⟩ := isInfix
    have refused : refusedEscape (ascii text ++ right) = true :=
      refusedEscape_eq_true.mpr ⟨text, member, List.prefix_append _ _⟩
    rw [noRefused _ ⟨left, by rw [← shape, List.append_assoc]⟩] at refused
    cases refused
  · intro absent suffix isSuffix
    by_contra refused
    rw [Bool.not_eq_false, refusedEscape_eq_true] at refused
    obtain ⟨text, member, isPrefix⟩ := refused
    exact absent text member (isPrefix.isInfix.trans isSuffix.isInfix)

theorem CanonicalPrefix.badPath_iff {pathPrefix : Bytes} (canonical : CanonicalPrefix pathPrefix) :
    badPath pathPrefix = false ↔ PlainPrefix pathPrefix := by
  rw [badPath_eq_false_iff, canonical.dotFree_iff, noRefused_iff, PlainPrefix]

theorem segmentMatch_self (pathPrefix : Bytes) : SegmentMatch pathPrefix pathPrefix :=
  prefixMatches_iff_segmentMatch.mp (prefixMatches_iff.mpr ⟨[], by simp, .inr (.inl rfl)⟩)

/-- No other matching prefix is longer than the path. -/
theorem longestMatch_self {table : RouteTable} {route : Route} (member : route ∈ table.routes) :
    LongestMatch table route.pathPrefix route where
  member := member
  isMatch := segmentMatch_self route.pathPrefix
  longest _ _ isMatch := isMatch.isPrefix.length_le

/-- A request for the prefix of the route passes the path checks and is routed to it. -/
def Reached (table : RouteTable) (route : Route) : Prop :=
  badPathNormalized route.pathPrefix = false ∧ ambiguousRoute table route.pathPrefix = false ∧
    table.lookup route.pathPrefix = some route

/-- A route of a loaded table is reached iff its prefix has no dot segment and none
of the refused escapes, which the check at load time lets through. -/
theorem route_reached_iff {http : Http} {cfg : ConfigToml} {prev : Option RouteTable} {heap : Heap}
    {table : RouteTable} {route : Route} (built : (buildTable http cfg prev heap).1 = .ok table)
    (member : route ∈ table.routes) :
    Reached table route ↔ PlainPrefix route.pathPrefix := by
  obtain ⟨allCanonical, -⟩ := buildTable_prefixes built
  have canonical := allCanonical route member
  have normal := canonical.normal
  rw [← canonical.badPath_iff]
  constructor
  · intro passes
    obtain ⟨accepted, -, -⟩ := passes
    simp only [badPathNormalized, Bool.or_eq_false_iff] at accepted
    exact accepted.1
  · intro accepted
    have found : table.lookup route.pathPrefix = some route :=
      lookup_of_longestMatch built (normal.symm ▸ longestMatch_self member)
    refine ⟨?_, ?_, found⟩
    · simp [badPathNormalized, normal, accepted]
    · have plain := canonical.not_suspicious (badPath_eq_false_iff.mp accepted).2
      rw [← Bool.not_eq_true, ambiguousRoute_eq_true, normal, plain]
      simp

def dotsConfig : ConfigToml where
  routes := [{ pathPrefix := ascii "/..", upstream := ascii "http://a.local:8001" }]

def dotsTable : RouteTable :=
  match (buildTable plainHttp dotsConfig none {}).1 with
  | .ok table => table
  | .error _ => RouteTable.new [] (.fromSecs 0)

theorem api_route_reached :
    ∃ route ∈ apiTable.routes, route.pathPrefix = ascii "/api" ∧ Reached apiTable route := by
  have built : (buildTable plainHttp apiConfig none {}).1 = .ok apiTable := by decide +kernel
  have found : apiTable.routes.find? (fun route => route.pathPrefix = ascii "/api") ≠ none := by
    decide +kernel
  obtain ⟨route, isRoute⟩ := Option.ne_none_iff_exists'.mp found
  have same : route.pathPrefix = ascii "/api" := by simpa using List.find?_some isRoute
  have member := List.mem_of_find?_eq_some isRoute
  refine ⟨route, member, same, (route_reached_iff built member).mpr ?_⟩
  rw [same]
  constructor
  · decide +kernel
  · intro text isText found
    have checked := List.all_eq_true.mp
      (by decide +kernel : refusedTexts.all (fun text => !containsText (ascii "/api") text) = true)
      text isText
    rw [containsText_iff.mpr found] at checked
    cases checked

/-- The prefix `/..` is accepted at load time, yet every request for it is refused. -/
theorem dots_route_not_reached :
    ¬∀ (http : Http) (cfg : ConfigToml) (prev : Option RouteTable) (heap : Heap)
        (table : RouteTable) (route : Route),
      (buildTable http cfg prev heap).1 = .ok table → route ∈ table.routes →
      Reached table route := by
  intro claimed
  have built : (buildTable plainHttp dotsConfig none {}).1 = .ok dotsTable := by decide +kernel
  have found : dotsTable.routes.find? (fun route => route.pathPrefix = ascii "/..") ≠ none := by
    decide +kernel
  obtain ⟨route, isRoute⟩ := Option.ne_none_iff_exists'.mp found
  have same : route.pathPrefix = ascii "/.." := by simpa using List.find?_some isRoute
  obtain ⟨accepted, -, -⟩ := claimed _ _ _ _ _ route built (List.mem_of_find?_eq_some isRoute)
  rw [same] at accepted
  exact absurd accepted (by decide +kernel)

end Ferryman.Core
