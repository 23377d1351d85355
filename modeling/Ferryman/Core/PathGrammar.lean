import Ferryman.Core.LiveRoutes
import Ferryman.Lib.Slices

/-!
# The grammar of refused paths

`badPath` scans the remaining bytes; the source keeps two indices into the path
and slices it. The indexed scan below checks every slice, stays inside the path
and computes `badPath`, and `badPath` refuses exactly the paths of a grammar
that speaks of all positions and all pieces.
-/

set_option autoImplicit false

namespace Ferryman.Core

open Byte Bytes

/-! ## The scan by index -/

def dotPieceScan (b : Bytes) (i dots : Nat) : Option Bool :=
  if i < b.length then
    match sliceFrom b i with
    | none => none
    | some rest =>
        if startsWith rest "." then dotPieceScan b (i + 1) (dots + 1)
        else if startsWith rest "%2e" || startsWith rest "%2E" then
          dotPieceScan b (i + 3) (dots + 1)
        else some false
  else some (dots == 1 || dots == 2)
termination_by b.length - i
decreasing_by all_goals omega

def dotPieceIndexed (piece : Bytes) : Option Bool :=
  let stop := (piece.findIdx? (· == semicolon)).getD piece.length
  match slice piece 0 stop with
  | none => none
  | some b => dotPieceScan b 0 0

/-- The arms of the `match` on `b[i..]`: a separator with its width, where the
end of input has width 0, an early `return true`, or one byte of a piece. -/
inductive PathArm where
  | separator (width : Nat)
  | refused
  | plain
  deriving DecidableEq, Repr

def pathArm (rest : Bytes) : PathArm :=
  if rest.isEmpty then .separator 0
  else if startsWith rest "/" || startsWith rest "\\" then .separator 1
  else if startsWith rest "%2f" || startsWith rest "%2F" ||
      startsWith rest "%5c" || startsWith rest "%5C" then .separator 3
  else if startsWith rest "%00" || startsWith rest "%u" || startsWith rest "%U" then .refused
  else if startsWith rest "%252e" || startsWith rest "%252E" ||
      startsWith rest "%252f" || startsWith rest "%252F" ||
      startsWith rest "%255c" || startsWith rest "%255C" then .refused
  else .plain

def badPathScan (b : Bytes) (start i : Nat) : Option Bool :=
  if i ≤ b.length then
    match sliceFrom b i with
    | none => none
    | some rest =>
        match pathArm rest with
        | .refused => some true
        | .separator n =>
            match slice b start i with
            | none => none
            | some piece =>
                match dotPieceIndexed piece with
                | none => none
                | some true => some true
                | some false => badPathScan b (i + max n 1) (i + max n 1)
        | .plain => badPathScan b start (i + 1)
  else some false
termination_by b.length + 1 - i
decreasing_by all_goals omega

/-- `bad_path` as the source computes it; `none` is an index out of range. -/
def badPathIndexed (path : Bytes) : Option Bool :=
  badPathScan path 0 0

/-! ## No index out of range -/

theorem dotPiece_eq (piece : Bytes) :
    dotPiece piece =
      (countDots (before semicolon piece)).any fun count => count == 1 || count == 2 := by
  unfold dotPiece
  cases countDots (before semicolon piece) with
  | none => rfl
  | some count =>
      match count with
      | 0 | 1 | 2 => rfl
      | more + 3 => simp

theorem startsWith_dot (c : UInt8) (rest : Bytes) : startsWith (c :: rest) "." = (c == dot) := by
  simp [startsWith, ascii, List.isPrefixOf, Bool.beq_comm]

theorem dotPieceScan_eq {b : Bytes} {i dots : Nat} (inside : i ≤ b.length) :
    dotPieceScan b i dots =
      some ((countDots (b.drop i)).any fun count => dots + count == 1 || dots + count == 2) := by
  fun_induction dotPieceScan b i dots with
  | case1 i dots more absent =>
      rw [sliceFrom_of_le inside] at absent
      cases absent
  | case2 i dots more rest found isDot ih =>
      obtain ⟨c, rest, rfl, shape⟩ := sliceFrom_cons more found
      rw [startsWith_dot] at isDot
      rw [ih more, drop_succ_of_drop shape 0, List.drop_zero, shape, countDots, if_pos isDot]
      cases countDots rest with
      | none => rfl
      | some count => simp [Nat.add_comm, Nat.add_left_comm]
  | case3 i dots more rest found notDot isEscape ih =>
      obtain ⟨c, rest, rfl, shape⟩ := sliceFrom_cons more found
      rw [startsWith_dot] at notDot
      have fits : 2 ≤ rest.length := by
        simp only [Bool.or_eq_true, startsWith_iff] at isEscape
        rcases isEscape with isEscape | isEscape <;> simpa [ascii] using isEscape.length_le
      have total := length_of_drop shape
      rw [ih (by omega), drop_succ_of_drop shape 2, shape, countDots, if_neg notDot,
        if_pos isEscape]
      cases countDots (rest.drop 2) with
      | none => rfl
      | some count => simp [Nat.add_comm, Nat.add_left_comm]
  | case4 i dots more rest found notDot notEscape =>
      obtain ⟨c, rest, rfl, shape⟩ := sliceFrom_cons more found
      rw [startsWith_dot] at notDot
      rw [shape, countDots, if_neg notDot, if_neg notEscape]
      rfl
  | case5 i dots done =>
      rw [List.drop_eq_nil_of_le (by omega), countDots]
      simp

theorem dotPieceIndexed_eq (piece : Bytes) : dotPieceIndexed piece = some (dotPiece piece) := by
  have cut : piece.take ((piece.findIdx? (· == semicolon)).getD piece.length) =
      before semicolon piece := by
    rw [← List.findIdx_eq_getD_findIdx?, before, List.takeWhile_eq_take_findIdx_not]
    simp [bne]
  have inside : (piece.findIdx? (· == semicolon)).getD piece.length ≤ piece.length := by
    rw [← List.findIdx_eq_getD_findIdx?]
    exact List.findIdx_le_length
  simp only [dotPieceIndexed, slice_of_le (Nat.zero_le _) inside, List.drop_zero, Nat.sub_zero,
    cut, dotPieceScan_eq (Nat.zero_le _), Nat.zero_add, dotPiece_eq]

theorem pathArm_separator {c : UInt8} {rest : Bytes} {n : Nat}
    (found : separatorWidth (c :: rest) = n + 1) : pathArm (c :: rest) = .separator (n + 1) := by
  rw [separatorWidth] at found
  rw [pathArm, if_neg (by simp)]
  split at found
  · next short =>
    rw [if_pos short, ← found]
  · next notShort =>
    rw [if_neg notShort]
    split at found
    · next long => rw [if_pos long, ← found]
    · cases found

theorem pathArm_plain {c : UInt8} {rest : Bytes} (plain : separatorWidth (c :: rest) = 0) :
    pathArm (c :: rest) = if refusedEscape (c :: rest) then .refused else .plain := by
  rw [separatorWidth] at plain
  rw [pathArm, if_neg (by simp)]
  split at plain
  · cases plain
  · next notShort =>
    split at plain
    · cases plain
    · next notLong =>
      rw [if_neg notShort, if_neg notLong]
      split
      · next single => rw [if_pos (by simp [refusedEscape, single])]
      · next notSingle =>
        split
        · next double => rw [if_pos (by simp only [refusedEscape, Bool.or_assoc] at *; simp [double])]
        · next notDouble => rw [if_neg (by simp_all [refusedEscape])]

/-- Every slice of the scan is inside the path, and its verdict is that of the
scan over the remaining bytes. -/
theorem badPathScan_eq {b : Bytes} {start i : Nat} (ordered : start ≤ i) (inside : i ≤ b.length) :
    badPathScan b start i = some (badPathLoop ((b.drop start).take (i - start)) (b.drop i)) := by
  cases shape : b.drop i with
  | nil =>
      have atEnd : b.length ≤ i := List.drop_eq_nil_iff.mp shape
      have past : ¬i + 1 ≤ b.length := by omega
      rw [badPathScan, if_pos inside, sliceFrom_of_le inside, shape]
      simp only [pathArm, List.isEmpty_nil, if_true, slice_of_le ordered inside, dotPieceIndexed_eq]
      rw [badPathLoop]
      cases dotPiece ((b.drop start).take (i - start)) with
      | true => rfl
      | false =>
          simp only [Nat.zero_max]
          rw [badPathScan, if_neg past]
  | cons c rest =>
      have total := length_of_drop shape
      rw [badPathScan, if_pos inside, sliceFrom_of_le inside, shape, badPathLoop]
      cases width : separatorWidth (c :: rest) with
      | zero =>
          simp only [pathArm_plain width]
          cases refusedEscape (c :: rest) with
          | true => rfl
          | false =>
              simp only [Bool.false_eq_true, if_false, Bool.false_or]
              rw [badPathScan_eq (by omega) (by omega), take_drop_succ ordered shape,
                drop_succ_of_drop shape 0, List.drop_zero]
      | succ n =>
          have fits : n + 1 ≤ rest.length + 1 := by
            rw [← width]
            exact separators.width_le (c :: rest)
          simp only [pathArm_separator width, slice_of_le ordered inside, dotPieceIndexed_eq]
          cases dotPiece ((b.drop start).take (i - start)) with
          | true => rfl
          | false =>
              have advance : max (n + 1) 1 = n + 1 := by omega
              simp only [advance, Bool.false_or]
              rw [badPathScan_eq (Nat.le_refl _) (by omega), Nat.sub_self, List.take_zero,
                drop_succ_of_drop shape n]
termination_by b.length + 1 - i

theorem badPathIndexed_eq (path : Bytes) : badPathIndexed path = some (badPath path) := by
  have scanned := @badPathScan_eq path 0 0 (Nat.le_refl _) (Nat.zero_le _)
  rwa [List.drop_zero, Nat.sub_self, List.take_zero] at scanned

/-! ## Pieces by position -/

def separatorTexts : List Bytes :=
  ["/", "\\", "%2f", "%2F", "%5c", "%5C"].map ascii

/-- A stretch of the path that holds no separator and reaches to one, or to the
end of the path, on either side. -/
structure PieceOf (path piece : Bytes) : Prop where
  noSeparator : ∀ token ∈ separatorTexts, ¬token <:+: piece
  placed : ∃ left right, path = left ++ piece ++ right ∧
    (left = [] ∨ ∃ token ∈ separatorTexts, token <:+ left) ∧
    (right = [] ∨ ∃ token ∈ separatorTexts, token <+: right)

theorem mem_separatorTexts {token : Bytes} :
    token ∈ separatorTexts ↔ token = [slash] ∨ token ∈ encodedSeparators := by
  have spelled : separatorTexts =
      [[slash], [backslash], [percent, 0x32, 0x66], [percent, 0x32, 0x46], [percent, 0x35, 0x63],
        [percent, 0x35, 0x43]] := by decide
  rw [spelled, mem_encodedSeparators]
  simp only [List.mem_cons, List.not_mem_nil, or_false]
  grind

theorem pieces_token {token : Bytes} (isSeparator : token ∈ separatorTexts) (left right : Bytes) :
    separators.pieces (left ++ token ++ right) =
      separators.pieces left ++ separators.pieces right :=
  pieces_separator (mem_separatorTexts.mp isSeparator) left right

theorem pieces_of_noSeparator {path : Bytes}
    (absent : ∀ token ∈ separatorTexts, ¬token <:+: path) : separators.pieces path = [path] := by
  induction path with
  | nil => exact separators.pieces_nil
  | cons c rest ih =>
      have plain : separators.width (c :: rest) = 0 := by
        cases width : separatorWidth (c :: rest) with
        | zero => exact width
        | succ skipped =>
            refine absurd ?_ (absent _ (mem_separatorTexts.mpr (separatorWidth_cases width)))
            exact ((List.take_prefix (skipped + 1) (c :: rest))).isInfix
      have later := ih fun token isSeparator found =>
        absent token isSeparator (found.trans (List.suffix_cons c rest).isInfix)
      rw [separators.pieces_cons_plain plain, later]
      rfl

theorem PieceOf.whole {path : Bytes} (absent : ∀ token ∈ separatorTexts, ¬token <:+: path) :
    PieceOf path path where
  noSeparator := absent
  placed := ⟨[], [], by simp, .inl rfl, .inl rfl⟩

theorem PieceOf.append {path piece token : Bytes} (isPiece : PieceOf path piece)
    (isSeparator : token ∈ separatorTexts) (tail : Bytes) :
    PieceOf (path ++ token ++ tail) piece := by
  obtain ⟨noSeparator, left, right, rfl, before, behind⟩ := isPiece
  refine ⟨noSeparator, left, right ++ token ++ tail, by simp, before, .inr ?_⟩
  cases behind with
  | inl atEnd =>
      subst atEnd
      exact ⟨token, isSeparator, by simp⟩
  | inr found =>
      obtain ⟨next, isNext, starts⟩ := found
      exact ⟨next, isNext, starts.trans (by simp)⟩

theorem PieceOf.prepend {path piece token : Bytes} (isPiece : PieceOf path piece)
    (isSeparator : token ∈ separatorTexts) (front : Bytes) :
    PieceOf (front ++ token ++ path) piece := by
  obtain ⟨noSeparator, left, right, rfl, before, behind⟩ := isPiece
  refine ⟨noSeparator, front ++ token ++ left, right, by simp, .inr ?_, behind⟩
  cases before with
  | inl atStart =>
      subst atStart
      exact ⟨token, isSeparator, by simp⟩
  | inr found =>
      obtain ⟨previous, isPrevious, ends⟩ := found
      exact ⟨previous, isPrevious, ends.trans (List.suffix_append _ _)⟩

theorem pieceOf_of_mem {path piece : Bytes} (member : piece ∈ separators.pieces path) :
    PieceOf path piece := by
  by_cases absent : ∀ token ∈ separatorTexts, ¬token <:+: path
  · rw [pieces_of_noSeparator absent, List.mem_singleton] at member
    subst member
    exact PieceOf.whole absent
  · push Not at absent
    obtain ⟨token, isSeparator, front, tail, shape⟩ := absent
    have nonempty : ∀ token ∈ separatorTexts, 0 < token.length := by decide
    have shorter : front.length < path.length ∧ tail.length < path.length := by
      have positive := nonempty token isSeparator
      rw [← shape, List.length_append, List.length_append]
      omega
    rw [← shape] at member ⊢
    rw [pieces_token isSeparator, List.mem_append] at member
    cases member with
    | inl inFront => exact (pieceOf_of_mem inFront).append isSeparator tail
    | inr inTail => exact (pieceOf_of_mem inTail).prepend isSeparator front
termination_by path.length
decreasing_by all_goals omega

theorem PieceOf.mem {path piece : Bytes} (isPiece : PieceOf path piece) :
    piece ∈ separators.pieces path := by
  obtain ⟨noSeparator, left, right, rfl, before, behind⟩ := isPiece
  have alone := pieces_of_noSeparator noSeparator
  have withRight : piece ∈ separators.pieces (piece ++ right) := by
    cases behind with
    | inl atEnd => simp [atEnd, alone]
    | inr found =>
        obtain ⟨token, isSeparator, tail, rfl⟩ := found
        rw [← List.append_assoc, pieces_token isSeparator, alone]
        exact List.mem_append_left _ List.mem_cons_self
  cases before with
  | inl atStart => simpa [atStart] using withRight
  | inr found =>
      obtain ⟨token, isSeparator, front, rfl⟩ := found
      rw [List.append_assoc, pieces_token isSeparator]
      exact List.mem_append_right _ withRight

theorem pieceOf_iff {path piece : Bytes} : PieceOf path piece ↔ piece ∈ separators.pieces path :=
  ⟨PieceOf.mem, pieceOf_of_mem⟩

/-! ## Dots -/

def dotTexts : List Bytes :=
  [".", "%2e", "%2E"].map ascii

/-- `.` or `%2e`, one time or two. -/
def OneOrTwoDots (cut : Bytes) : Prop :=
  ∃ items : List Bytes, (items.length = 1 ∨ items.length = 2) ∧
    (∀ item ∈ items, item ∈ dotTexts) ∧ items.flatten = cut

theorem items_of_countDots {b : Bytes} {count : Nat} (counted : countDots b = some count) :
    ∃ items : List Bytes, items.length = count ∧ (∀ item ∈ items, item ∈ dotTexts) ∧
      items.flatten = b := by
  fun_induction countDots b generalizing count with
  | case1 =>
      obtain rfl := Option.some.inj counted
      exact ⟨[], rfl, by simp, rfl⟩
  | case2 c rest isDot ih =>
      obtain ⟨fewer, countedRest, rfl⟩ := Option.map_eq_some_iff.mp counted
      obtain ⟨items, length, allDots, flat⟩ := ih countedRest
      rw [beq_iff_eq] at isDot
      subst isDot
      have first : [dot] ∈ dotTexts := by decide
      exact ⟨[dot] :: items, by simp [length], List.forall_mem_cons.mpr ⟨first, allDots⟩,
        by simp [flat]⟩
  | case3 c rest notDot isEscape ih =>
      obtain ⟨fewer, countedRest, rfl⟩ := Option.map_eq_some_iff.mp counted
      obtain ⟨items, length, allDots, flat⟩ := ih countedRest
      obtain ⟨escape, member, three, isPrefix⟩ :
          ∃ escape ∈ dotTexts, escape.length = 3 ∧ escape <+: c :: rest := by
        simp only [Bool.or_eq_true, startsWith_iff] at isEscape
        cases isEscape with
        | inl lower => exact ⟨_, by decide, by decide, lower⟩
        | inr upper => exact ⟨_, by decide, by decide, upper⟩
      refine ⟨escape :: items, by simp [length], List.forall_mem_cons.mpr ⟨member, allDots⟩, ?_⟩
      have taken : escape = (c :: rest).take 3 := by
        rw [← three]
        exact List.prefix_iff_eq_take.mp isPrefix
      rw [List.flatten_cons, flat, taken]
      exact List.take_append_drop 3 (c :: rest)
  | case4 c rest notDot notEscape => cases counted

theorem countDots_of_items {items : List Bytes} (allDots : ∀ item ∈ items, item ∈ dotTexts) :
    countDots items.flatten = some items.length := by
  induction items with
  | nil => rw [List.flatten_nil, countDots, List.length_nil]
  | cons item items ih =>
      obtain ⟨isDots, later⟩ := List.forall_mem_cons.mp allDots
      have spelled : dotTexts = [[dot], [percent, 0x32, 0x65], [percent, 0x32, 0x45]] := by decide
      rw [spelled] at isDots
      simp only [List.mem_cons, List.not_mem_nil, or_false] at isDots
      rcases isDots with rfl | rfl | rfl
      all_goals
        rw [List.flatten_cons, List.cons_append, countDots]
        simp [startsWith, ascii, List.isPrefixOf, percent, dot, ih later]

theorem dotPiece_iff {piece : Bytes} :
    dotPiece piece = true ↔ OneOrTwoDots (before semicolon piece) := by
  rw [dotPiece_eq]
  constructor
  · intro judged
    cases counted : countDots (before semicolon piece) with
    | none => simp [counted] at judged
    | some count =>
        obtain ⟨items, length, allDots, flat⟩ := items_of_countDots counted
        refine ⟨items, ?_, allDots, flat⟩
        rw [length]
        simpa [counted] using judged
  · intro isDots
    obtain ⟨items, length, allDots, flat⟩ := isDots
    rw [← flat, countDots_of_items allDots]
    simpa using length

/-- `bad_path` returns on every path, never slices outside of it, and refuses
exactly the paths that hold a refused escape anywhere or have a piece that is
one or two dots up to its first `;`. -/
theorem badPathIndexed_grammar (path : Bytes) :
    badPathIndexed path = some (badPath path) ∧
      (badPath path = true ↔
        (∃ text ∈ refusedTexts, ascii text <:+: path) ∨
          ∃ piece, PieceOf path piece ∧ OneOrTwoDots (before semicolon piece)) := by
  refine ⟨badPathIndexed_eq path, ?_⟩
  rw [← Bool.not_eq_false, badPath_eq_false_iff, noRefused_iff, not_and_or, or_comm]
  simp only [DotFree, pieceOf_iff, ← dotPiece_iff]
  push Not
  simp

end Ferryman.Core
