import Ferryman.Core.PartialDecoders

/-!
# Accepted paths

`badPath` as a condition on the pieces and escapes of a path, and what follows
for the normal form of a path and for what remains of it behind a prefix.
-/

set_option autoImplicit false

namespace Ferryman.Core

open Byte Bytes

theorem badPathLoop_accepts {piece b : Bytes}
    (judged : ∀ piece' ∈ (separators.pieces b).modifyHead (piece ++ ·), dotPiece piece' = false)
    (noRefused : ∀ suffix, suffix <:+ b → refusedEscape suffix = false) :
    badPathLoop piece b = false := by
  fun_induction badPathLoop piece b with
  | case1 piece => simpa using judged
  | case2 piece c rest n found ih =>
      rw [separators.pieces_cons_delimiter found] at judged
      have first : dotPiece piece = false := by
        simpa using judged (piece ++ []) List.mem_cons_self
      rw [first, Bool.false_or]
      refine ih (fun later member => ?_) fun suffix isSuffix =>
        noRefused suffix (isSuffix.trans ((List.drop_suffix n rest).trans (List.suffix_cons c rest)))
      have same : (separators.pieces (rest.drop n)).modifyHead ([] ++ ·) =
          separators.pieces (rest.drop n) := by
        cases separators.pieces (rest.drop n) <;> rfl
      rw [same] at member
      exact judged later (List.mem_cons_of_mem _ member)
  | case3 piece c rest plain ih =>
      rw [noRefused _ List.suffix_rfl, Bool.false_or]
      rw [separators.pieces_cons_plain plain] at judged
      refine ih (fun later member => ?_) fun suffix isSuffix =>
        noRefused suffix (isSuffix.trans (List.suffix_cons c rest))
      refine judged later ?_
      cases pieces : separators.pieces rest with
      | nil => simp [pieces] at member
      | cons first others => simpa [pieces] using member

/-- A path is accepted iff no piece reads as a dot segment and no refused escape
occurs anywhere. -/
theorem badPath_eq_false_iff {path : Bytes} :
    badPath path = false ↔
      DotFree path ∧ ∀ suffix, suffix <:+ path → refusedEscape suffix = false := by
  constructor
  · intro accepted
    exact ⟨dotFree_of_badPath accepted, fun _ => badPathLoop_refused accepted⟩
  · intro accepted
    obtain ⟨judged, noRefused⟩ := accepted
    refine badPathLoop_accepts (fun piece member => judged piece ?_) noRefused
    cases pieces : separators.pieces path with
    | nil => simp [pieces] at member
    | cons first others => simpa [pieces] using member

theorem badPath_behind_slash {front rest : Bytes} (accepted : badPath (front ++ slash :: rest) = false) :
    badPath (slash :: rest) = false := by
  obtain ⟨judged, noRefused⟩ := badPath_eq_false_iff.mp accepted
  refine badPath_eq_false_iff.mpr ⟨fun piece member => ?_, fun suffix isSuffix =>
    noRefused suffix (isSuffix.trans (List.suffix_append front _))⟩
  have split : separators.pieces (slash :: rest) = [] :: separators.pieces rest := by
    simpa using pieces_slash [] rest
  rw [split] at member
  cases List.mem_cons.mp member with
  | inl same =>
      subst same
      decide +kernel
  | inr later => exact judged piece (by rw [pieces_slash]; exact List.mem_append_right _ later)

theorem normalizeLoop_subset {path : Bytes} (noEscapes : percent ∉ path) :
    normalizeLoop path ⊆ path := by
  fun_induction normalizeLoop path with
  | case1 => simp
  | case2 c rest n out rewritten ih =>
      simp only [List.mem_cons, not_or] at noEscapes
      rcases rewriteAt_cases rewritten with ⟨rfl, -, rfl, rfl⟩ | ⟨_, _, _, _, _, rfl, -⟩
      · exact fun byte member => List.mem_cons_of_mem _ (ih noEscapes.2 member)
      · exact absurd rfl noEscapes.1
  | case3 c rest kept ih =>
      simp only [List.mem_cons, not_or] at noEscapes
      exact List.cons_subset_cons c (ih noEscapes.2)

/-- The check of the raw path covers its normal form, which is not checked again
when there is no `%`. -/
theorem badPath_normalize {raw : Bytes} (accepted : badPathNormalized raw = false) :
    badPath (normalize raw) = false := by
  have judged := dotFree_of_badPathNormalized accepted (.inr rfl)
  simp only [badPathNormalized, Bool.or_eq_false_iff, Bool.and_eq_false_iff] at accepted
  cases accepted.2 with
  | inl noEscapes =>
      have absent : percent ∉ raw := by simpa using noEscapes
      refine badPath_eq_false_iff.mpr ⟨judged, fun suffix isSuffix => ?_⟩
      by_contra refused
      rw [Bool.not_eq_false] at refused
      obtain ⟨tail, rfl⟩ := List.head?_eq_some_iff.mp (refusedEscape_percent refused)
      have present : percent ∈ normalize raw := isSuffix.subset List.mem_cons_self
      rw [normalize_eq_loop] at present
      exact absent (normalizeLoop_subset absent present)
  | inr normalAccepted => exact normalAccepted

/-! ## Behind a prefix -/

/-- A canonical prefix ends in one slash at most. -/
theorem CanonicalPrefix.strippedPrefix_cases {route : Route}
    (canonical : CanonicalPrefix route.pathPrefix) :
    route.pathPrefix = [slash] ∨ route.strippedPrefix ≠ [] ∧
      (route.pathPrefix = route.strippedPrefix ∧ route.pathPrefix.getLast? ≠ some slash ∨
        route.pathPrefix = route.strippedPrefix ++ [slash]) := by
  cases List.eq_nil_or_concat route.pathPrefix with
  | inl isNil =>
      have absolute := canonical.absolute
      simp [isNil, startsWith, ascii] at absolute
  | inr nonempty =>
      obtain ⟨front, last, shape⟩ := nonempty
      rw [List.concat_eq_append] at shape
      unfold Route.strippedPrefix
      by_cases isSlash : last = slash
      · subst isSlash
        rcases List.eq_nil_or_concat front with rfl | ⟨inner, before, rfl⟩
        · exact .inl shape
        · rw [List.concat_eq_append] at shape
          have single : before ≠ slash := by
            intro same
            subst same
            have doubled : slash :: slash :: [] <:+ normalizeLoop route.pathPrefix := by
              rw [← normalize_eq_loop, canonical.normal, shape]
              exact ⟨inner, by simp⟩
            exact normalizeLoop_single_slashes _ _ doubled
          have stripped : route.pathPrefix.rdropWhile (· == slash) = inner ++ [before] := by
            rw [shape, List.rdropWhile_concat_pos _ _ _ (by simp),
              List.rdropWhile_concat_neg _ _ _ (by simpa using single)]
          exact .inr ⟨by simp [stripped], .inr (by rw [stripped, shape])⟩
      · have stripped : route.pathPrefix.rdropWhile (· == slash) = front ++ [last] := by
          rw [shape, List.rdropWhile_concat_neg _ _ _ (by simpa using isSlash)]
        refine .inr ⟨by simp [stripped], .inl ⟨by rw [stripped, shape], ?_⟩⟩
        simpa [shape] using isSlash

/-- What a matching path holds behind the stripped prefix: nothing, or a path of
its own. -/
theorem CanonicalPrefix.rest_of_match {route : Route} {path : Bytes}
    (canonical : CanonicalPrefix route.pathPrefix) (notRoot : route.pathPrefix ≠ [slash])
    (isMatch : prefixMatches route.pathPrefix path = true) :
    route.strippedPrefix ≠ [] ∧ ∃ rest, path = route.strippedPrefix ++ rest ∧
      (rest = [] ∨ rest.head? = some slash) := by
  obtain ⟨rest, shape, boundary⟩ := prefixMatches_iff.mp isMatch
  rcases canonical.strippedPrefix_cases with isRoot | ⟨nonempty, ⟨same, noSlash⟩ | endsInSlash⟩
  · exact absurd isRoot notRoot
  · refine ⟨nonempty, rest, by rw [← same, shape], ?_⟩
    exact boundary.resolve_left noSlash
  · refine ⟨nonempty, slash :: rest, ?_, .inr rfl⟩
    conv_lhs => rw [shape, endsInSlash]
    simp

/-- What a stripping route sends for a path it matches. -/
structure SafeRemainder (route : Route) (raw sent : Bytes) : Prop where
  absolute : startsWith sent "/" = true
  single : startsWith sent "//" = false
  accepted : badPath sent = false
  consistent : route.strippedPrefix ++ sent = normalize raw ∨
    sent = ascii "/" ∧ normalize raw = route.strippedPrefix

theorem startsWith_slash (rest : Bytes) : startsWith (slash :: rest) "/" = true := by
  simp [startsWith, ascii, List.isPrefixOf, slash]

theorem strippedPath_safe {route : Route} {raw : Bytes}
    (canonical : CanonicalPrefix route.pathPrefix) (notRoot : route.pathPrefix ≠ [slash])
    (accepted : badPathNormalized raw = false)
    (isMatch : prefixMatches route.pathPrefix (normalize raw) = true) :
    ∃ sent, route.strippedPath raw = some sent ∧ SafeRemainder route raw sent := by
  obtain ⟨nonempty, rest, shape, boundary⟩ := canonical.rest_of_match notRoot isMatch
  have found : route.strippedPrefix.isPrefixOf (normalize raw) = true := by
    rw [List.isPrefixOf_iff_prefix, shape]
    exact List.prefix_append _ _
  have remainder : (normalize raw).drop route.strippedPrefix.length = rest := by
    rw [shape, List.drop_left]
  have rootAccepted : badPath [slash] = false := by decide +kernel
  cases boundary with
  | inl same =>
      subst same
      refine ⟨[slash], ?_, startsWith_slash [], by decide, rootAccepted, .inr ⟨rfl, ?_⟩⟩
      · simp [Route.strippedPath, nonempty, found, remainder, startsWith_slash, rootAccepted]
      · simpa using shape
  | inr head =>
      obtain ⟨tail, rfl⟩ := List.head?_eq_some_iff.mp head
      have restAccepted : badPath (slash :: tail) = false :=
        badPath_behind_slash (shape ▸ badPath_normalize accepted)
      refine ⟨slash :: tail, ?_, startsWith_slash tail, ?_, restAccepted, .inl shape.symm⟩
      · simp [Route.strippedPath, nonempty, found, remainder, startsWith_slash, restAccepted]
      · rw [← Bool.not_eq_true, startsWith_iff]
        intro doubles
        obtain ⟨others, doubled⟩ := doubles
        refine normalizeLoop_single_slashes raw others ⟨route.strippedPrefix, ?_⟩
        rw [← normalize_eq_loop, shape, ← doubled]
        rfl

end Ferryman.Core
