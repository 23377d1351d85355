import Ferryman.Core.PathProperties
import Mathlib.Logic.Relation

/-!
# Readings of an accepted path

An upstream may read some encoded separators as `/`, drop `;params` and decode
`%2e`, in any order and for any selection of occurrences. Pieces are invariant
under each such step up to losing some of them, so what `badPath` judged on the
received path still holds of every reading.
-/

set_option autoImplicit false

namespace Ferryman.Core

open Byte Bytes

def encodedSeparators : List Bytes :=
  ["\\", "%2F", "%2f", "%5C", "%5c"].map ascii

/-- One step of a reading: one separator read as `/`, the `;params` of one
segment dropped up to the next `/`, or one `%2e` decoded. -/
inductive ReadStep : Bytes → Bytes → Prop where
  | separator (left token right : Bytes) :
      token ∈ encodedSeparators →
      ReadStep (left ++ token ++ right) (left ++ slash :: right)
  | params (left dropped right : Bytes) :
      slash ∉ dropped → (right = [] ∨ right.head? = some slash) →
      ReadStep (left ++ semicolon :: dropped ++ right) (left ++ right)
  | decodeDot (left escape right : Bytes) :
      escape = ascii "%2e" ∨ escape = ascii "%2E" →
      ReadStep (left ++ escape ++ right) (left ++ dot :: right)

def Reading : Bytes → Bytes → Prop :=
  Relation.ReflTransGen ReadStep

theorem mem_encodedSeparators {token : Bytes} :
    token ∈ encodedSeparators ↔
      token = [backslash] ∨ token = [percent, 0x32, 0x46] ∨ token = [percent, 0x32, 0x66] ∨
        token = [percent, 0x35, 0x43] ∨ token = [percent, 0x35, 0x63] := by
  have spelled : encodedSeparators =
      [[backslash], [percent, 0x32, 0x46], [percent, 0x32, 0x66], [percent, 0x35, 0x43],
        [percent, 0x35, 0x63]] := by decide
  rw [spelled]
  simp

theorem pieces_separator {token : Bytes} (isSeparator : token = [slash] ∨ token ∈ encodedSeparators)
    (left right : Bytes) :
    separators.pieces (left ++ token ++ right) =
      separators.pieces left ++ separators.pieces right := by
  obtain ⟨first, rest, rfl, isFree, width⟩ : ∃ first rest, token = first :: rest ∧
      separators.free first = true ∧
      separators.width (first :: (rest ++ right)) = rest.length + 1 := by
    rw [mem_encodedSeparators] at isSeparator
    rcases isSeparator with rfl | rfl | rfl | rfl | rfl | rfl <;>
      exact ⟨_, _, rfl, by decide, by
        simp [separators, separatorWidth, startsWith, ascii, List.isPrefixOf, slash, backslash,
          percent]⟩
  have cut : separators.pieces (first :: (rest ++ right)) = [] :: separators.pieces right := by
    rw [separators.pieces_cons_delimiter width, List.drop_left]
  rw [List.append_assoc, List.cons_append, separators.pieces_append left first _ isFree, cut,
    glue_nil_cons (separators.pieces_ne_nil left)]

theorem pieces_slash (left right : Bytes) :
    separators.pieces (left ++ slash :: right) =
      separators.pieces left ++ separators.pieces right := by
  simpa using pieces_separator (.inl rfl) left right

theorem separatorWidth_plain {c : UInt8} (rest : Bytes) (notSlash : c ≠ slash)
    (notBackslash : c ≠ backslash) (notPercent : c ≠ percent) :
    separators.width (c :: rest) = 0 := by
  simp [separators, separatorWidth, startsWith, ascii, List.isPrefixOf, notSlash.symm,
    notBackslash.symm, notPercent.symm]

private theorem inert_dot : separators.Inert [dot] where
  starts := ⟨dot, [], rfl, by decide⟩
  joins right := by
    simpa using separators.pieces_cons_plain
      (separatorWidth_plain right (by decide) (by decide) (by decide))

private theorem inert_escapedDot {last : UInt8} (isE : last = 0x65 ∨ last = 0x45) :
    separators.Inert [percent, 0x32, last] where
  starts := ⟨percent, _, rfl, by decide⟩
  joins right := by
    have notSeparator : separators.width (percent :: 0x32 :: last :: right) = 0 := by
      rcases isE with rfl | rfl <;>
        simp [separators, separatorWidth, startsWith, ascii, List.isPrefixOf, percent]
    have plainLast : last ≠ slash ∧ last ≠ backslash ∧ last ≠ percent := by
      rcases isE with rfl | rfl <;> decide
    change separators.pieces (percent :: 0x32 :: last :: right) = _
    rw [separators.pieces_cons_plain notSeparator,
      separators.pieces_cons_plain
        (separatorWidth_plain _ (by decide) (by decide) (by decide)),
      separators.pieces_cons_plain
        (separatorWidth_plain _ plainLast.1 plainLast.2.1 plainLast.2.2)]
    cases separators.pieces right <;> rfl

theorem DotFree.decodeDot {left escape right : Bytes}
    (isEscape : escape = ascii "%2e" ∨ escape = ascii "%2E")
    (judged : DotFree (left ++ escape ++ right)) : DotFree (left ++ dot :: right) := by
  obtain ⟨front, last, next, rest, around⟩ := separators.pieces_around left right
  have inert : separators.Inert escape := by
    cases isEscape with
    | inl same =>
        subst same
        exact inert_escapedDot (.inl rfl)
    | inr same =>
        subst same
        exact inert_escapedDot (.inr rfl)
  intro piece member
  rw [← List.singleton_append, ← List.append_assoc, around _ inert_dot] at member
  unfold DotFree at judged
  rw [around _ inert] at judged
  cases List.mem_append.mp member with
  | inl inFront => exact judged piece (List.mem_append_left _ inFront)
  | inr inRest =>
      cases List.mem_cons.mp inRest with
      | inl same =>
          subst same
          have same := dotPiece_decode last next escape isEscape
          rw [List.append_assoc, List.singleton_append, ← same]
          exact judged _ (by simp)
      | inr inRest => exact judged piece (by simp [inRest])

/-- Dropping the params of one segment ends a piece earlier, at a `;` that the
judgement ignores, and loses the pieces inside the params. -/
theorem DotFree.params {left dropped right : Bytes}
    (stops : right = [] ∨ right.head? = some slash)
    (judged : DotFree (left ++ semicolon :: dropped ++ right)) : DotFree (left ++ right) := by
  obtain ⟨front, last, leftPieces⟩ :=
    (List.eq_nil_or_concat' (separators.pieces left)).resolve_left (separators.pieces_ne_nil left)
  obtain ⟨next, others, droppedPieces⟩ :=
    List.exists_cons_of_ne_nil (separators.pieces_ne_nil dropped)
  have cut : separators.pieces (left ++ semicolon :: dropped) =
      front ++ (last ++ semicolon :: next) :: others := by
    rw [separators.pieces_append left semicolon dropped (by decide),
      separators.pieces_cons_plain
        (separatorWidth_plain dropped (by decide) (by decide) (by decide)),
      leftPieces, droppedPieces, glue_concat]
    rfl
  have kept : ∀ piece ∈ front ++ [last],
      ∀ pieces, separators.pieces (left ++ semicolon :: dropped ++ right) =
        front ++ (last ++ semicolon :: next) :: others ++ pieces → dotPiece piece = false := by
    intro piece member pieces shape
    unfold DotFree at judged
    rw [shape] at judged
    cases List.mem_append.mp member with
    | inl inFront => exact judged piece (by simp [inFront])
    | inr isLast =>
        rw [List.mem_singleton.mp isLast, ← dotPiece_params last next]
        exact judged _ (by simp)
  cases stops with
  | inl same =>
      subst same
      intro piece member
      rw [List.append_nil, leftPieces] at member
      exact kept piece member [] (by simp [cut])
  | inr startsSlash =>
      obtain ⟨tail, rfl⟩ : ∃ tail, right = slash :: tail := by
        cases right with
        | nil => simp at startsSlash
        | cons first tail => exact ⟨tail, by simpa using startsSlash⟩
      have shape := pieces_slash (left ++ semicolon :: dropped) tail
      rw [cut] at shape
      intro piece member
      rw [pieces_slash, leftPieces] at member
      cases List.mem_append.mp member with
      | inl inLeft => exact kept piece inLeft _ shape
      | inr inTail => exact judged piece (by rw [shape]; exact List.mem_append_right _ inTail)

theorem ReadStep.dotFree {received read : Bytes} (step : ReadStep received read)
    (judged : DotFree received) : DotFree read := by
  cases step with
  | separator left token right isSeparator =>
      intro piece member
      rw [pieces_slash] at member
      exact judged piece (by rwa [pieces_separator (.inr isSeparator)])
  | params left dropped right noSlash stops => exact judged.params stops
  | decodeDot left escape right isEscape => exact judged.decodeDot isEscape

theorem Reading.dotFree {received read : Bytes} (reading : Reading received read)
    (judged : DotFree received) : DotFree read := by
  induction reading with
  | refl => exact judged
  | tail _ step ih => exact step.dotFree ih

theorem pieces_of_segment {path segment piece : Bytes} (isSegment : segment ∈ path.splitOn slash)
    (isPiece : piece ∈ separators.pieces segment) : piece ∈ separators.pieces path := by
  by_cases present : slash ∈ path
  · obtain ⟨first, rest, rfl, absent⟩ := List.eq_append_cons_of_mem present
    rw [List.splitOn_append_cons_self_of_not_mem absent] at isSegment
    rw [pieces_slash, List.mem_append]
    cases List.mem_cons.mp isSegment with
    | inl same =>
        subst same
        exact .inl isPiece
    | inr later => exact .inr (pieces_of_segment later isPiece)
  · rw [List.splitOn_eq_singleton present, List.mem_singleton] at isSegment
    rwa [isSegment] at isPiece
termination_by path.length
decreasing_by simp_all; omega

theorem DotFree.segments {path : Bytes} (judged : DotFree path) :
    ∀ segment ∈ path.splitOn slash, segment ≠ ascii "." ∧ segment ≠ ascii ".." := by
  intro segment member
  constructor <;> rintro rfl
  · have bad := judged (ascii ".") (pieces_of_segment member (by decide +kernel))
    exact absurd bad (by decide +kernel)
  · have bad := judged (ascii "..") (pieces_of_segment member (by decide +kernel))
    exact absurd bad (by decide +kernel)

private def MergesInto (merged path : Bytes) : Prop :=
  ∃ first fewer rest, separators.pieces merged = first :: fewer ∧
    separators.pieces path = first :: rest ∧ fewer ⊆ rest

private theorem MergesInto.cons {merged path : Bytes} (merges : MergesInto merged path)
    {c : UInt8} (notPercent : c ≠ percent) : MergesInto (c :: merged) (c :: path) := by
  obtain ⟨first, fewer, rest, mergedPieces, pathPieces, subset⟩ := merges
  by_cases cuts : c = slash ∨ c = backslash
  · have split : ∀ tail, separators.pieces (c :: tail) = [] :: separators.pieces tail := by
      intro tail
      have isSeparator : [c] = [slash] ∨ [c] ∈ encodedSeparators := by
        rw [mem_encodedSeparators]
        rcases cuts with rfl | rfl <;> simp
      simpa using pieces_separator isSeparator [] tail
    refine ⟨[], _, _, split merged, split path, ?_⟩
    rw [mergedPieces, pathPieces]
    exact List.cons_subset_cons _ subset
  · simp only [not_or] at cuts
    have plain : ∀ tail, separators.width (c :: tail) = 0 := fun tail =>
      separatorWidth_plain tail cuts.1 cuts.2 notPercent
    refine ⟨c :: first, fewer, rest, ?_, ?_, subset⟩
    · rw [separators.pieces_cons_plain (plain _), mergedPieces, List.modifyHead_cons]
    · rw [separators.pieces_cons_plain (plain _), pathPieces, List.modifyHead_cons]

private theorem MergesInto.dropSlash {merged tail : Bytes}
    (merges : MergesInto merged (slash :: tail)) :
    MergesInto merged (slash :: slash :: tail) := by
  obtain ⟨first, fewer, rest, mergedPieces, pathPieces, subset⟩ := merges
  have single : separators.pieces (slash :: tail) = [] :: separators.pieces tail := by
    simpa using pieces_slash [] tail
  have double : separators.pieces (slash :: slash :: tail) =
      [] :: separators.pieces (slash :: tail) := by
    simpa using pieces_slash [] (slash :: tail)
  rw [single] at pathPieces
  obtain ⟨rfl, rfl⟩ := List.cons.inj pathPieces
  refine ⟨[], fewer, _, mergedPieces, double, ?_⟩
  rw [single]
  exact fun piece member => List.mem_cons_of_mem _ (subset member)

private theorem normalizeLoop_mergesInto {path : Bytes} (noEscapes : percent ∉ path) :
    MergesInto (normalizeLoop path) path := by
  induction path with
  | nil => exact ⟨[], [], [], by simp, by simp, by simp⟩
  | cons c tail ih =>
      simp only [List.mem_cons, not_or] at noEscapes
      have notPercent : c ≠ percent := fun same => noEscapes.1 same.symm
      have merges := ih noEscapes.2
      cases rewritten : rewriteAt (c :: tail) with
      | none =>
          rw [normalizeLoop_copy rewritten]
          exact merges.cons notPercent
      | some rewrite =>
          rcases rewriteAt_cases rewritten with ⟨rfl, doubled, _, _⟩ | ⟨_, _, _, _, _, rfl, _⟩
          · obtain ⟨rest, rfl⟩ : ∃ rest, tail = slash :: rest := by
              cases tail with
              | nil => simp at doubled
              | cons next rest => exact ⟨rest, by simpa using doubled⟩
            rw [normalizeLoop_slash_slash]
            exact merges.dropSlash
          · exact absurd rfl notPercent

/-- The check without `%` skips the normalised path; merging slashes cannot
create a dot piece. -/
theorem dotFree_of_badPathNormalized {path received : Bytes}
    (accepted : badPathNormalized path = false)
    (source : received = path ∨ received = normalize path) : DotFree received := by
  simp only [badPathNormalized, Bool.or_eq_false_iff, Bool.and_eq_false_iff] at accepted
  obtain ⟨rawAccepted, normalAccepted⟩ := accepted
  have raw := dotFree_of_badPath rawAccepted
  cases source with
  | inl same =>
      subst same
      exact raw
  | inr same =>
      subst same
      cases normalAccepted with
      | inl noEscapes =>
          have absent : percent ∉ path := by simpa using noEscapes
          rw [normalize_eq_loop]
          obtain ⟨first, fewer, rest, mergedPieces, pathPieces, subset⟩ :=
            normalizeLoop_mergesInto absent
          intro piece member
          refine raw piece ?_
          rw [mergedPieces] at member
          rw [pathPieces]
          exact List.cons_subset_cons _ subset member
      | inr normalAccepted => exact dotFree_of_badPath normalAccepted

/-- No reading of an accepted path, nor of its normalised form, has a `.` or
`..` segment. -/
theorem accepted_readings_have_no_dot_segments {path received read : Bytes}
    (accepted : badPathNormalized path = false)
    (source : received = path ∨ received = normalize path)
    (reading : Reading received read) :
    ∀ segment ∈ read.splitOn slash, segment ≠ ascii "." ∧ segment ≠ ascii ".." :=
  (reading.dotFree (dotFree_of_badPathNormalized accepted source)).segments

theorem decoded_path_has_no_dot_segments :
    Reading (ascii "/a%2Fb;v/%2ec") (ascii "/a/b/.c") ∧
      ∀ segment ∈ (ascii "/a/b/.c").splitOn slash,
        segment ≠ ascii "." ∧ segment ≠ ascii ".." := by
  have separator : ReadStep (ascii "/a%2Fb;v/%2ec") (ascii "/a/b;v/%2ec") :=
    .separator (ascii "/a") (ascii "%2F") (ascii "b;v/%2ec") (by decide)
  have params : ReadStep (ascii "/a/b;v/%2ec") (ascii "/a/b/%2ec") :=
    .params (ascii "/a/b") (ascii "v") (ascii "/%2ec") (by decide) (.inr (by decide))
  have decodeDot : ReadStep (ascii "/a/b/%2ec") (ascii "/a/b/.c") :=
    .decodeDot (ascii "/a/b/") (ascii "%2e") (ascii "c") (.inl rfl)
  have reading : Reading (ascii "/a%2Fb;v/%2ec") (ascii "/a/b/.c") :=
    .tail (.tail (.single separator) params) decodeDot
  have accepted : badPathNormalized (ascii "/a%2Fb;v/%2ec") = false := by decide +kernel
  exact ⟨reading, accepted_readings_have_no_dot_segments accepted (.inl rfl) reading⟩

end Ferryman.Core
