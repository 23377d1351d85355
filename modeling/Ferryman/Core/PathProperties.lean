import Ferryman.Core.NormalizeProperties
import Ferryman.Core.Path

/-! What an accepting scan of `badPath` establishes about the pieces of the
path, and how pieces behave where a path is cut. -/

set_option autoImplicit false

namespace Ferryman.Core

open Byte Bytes

/-- The separators of `badPath`. The free bytes are those that no encoded
separator holds after its `%`. -/
def separators : Delimiters UInt8 where
  width := separatorWidth
  free byte := !(ascii "25fFcC").contains byte
  width_le string := by
    unfold separatorWidth
    split
    · next short =>
      simp only [Bool.or_eq_true, startsWith_iff] at short
      rcases short with short | short <;> exact short.length_le
    · split
      · next long =>
        simp only [Bool.or_eq_true, startsWith_iff] at long
        rcases long with ((long | long) | long) | long <;> exact long.length_le
      · exact Nat.zero_le _
  width_append symbol rest boundary tail isFree := by
    have outside : ∀ literal ∈ ["/", "\\", "%2f", "%2F", "%5c", "%5C"],
        boundary ∉ (ascii literal).tail := by
      intro literal member inside
      have subset : ∀ literal ∈ ["/", "\\", "%2f", "%2F", "%5c", "%5C"],
          (ascii literal).tail ⊆ ascii "25fFcC" := by decide
      have notFree := subset literal member inside
      simp [notFree] at isFree
    simp only [separatorWidth]
    repeat rw [startsWith_append_cons (by simp) (outside _ (by decide))]

/-- No piece of the path reads as `.` or `..`. -/
def DotFree (path : Bytes) : Prop :=
  ∀ piece ∈ separators.pieces path, dotPiece piece = false

theorem badPathLoop_pieces {piece b : Bytes} (accepted : badPathLoop piece b = false) :
    ∀ judged ∈ (separators.pieces b).modifyHead (piece ++ ·), dotPiece judged = false := by
  fun_induction badPathLoop piece b with
  | case1 piece => simpa using accepted
  | case2 piece c rest n found ih =>
      rw [Bool.or_eq_false_iff] at accepted
      rw [separators.pieces_cons_delimiter found]
      intro judged member
      cases List.mem_cons.mp member with
      | inl same =>
          subst same
          simpa using accepted.1
      | inr member =>
          refine ih accepted.2 judged ?_
          cases pieces : separators.pieces (rest.drop n) with
          | nil => simp [pieces] at member
          | cons first others => simpa [pieces] using member
  | case3 piece c rest plain ih =>
      rw [Bool.or_eq_false_iff] at accepted
      rw [separators.pieces_cons_plain plain]
      have judgedAll := ih accepted.2
      cases pieces : separators.pieces rest with
      | nil => simp
      | cons first others => simpa [pieces] using judgedAll

theorem dotFree_of_badPath {path : Bytes} (accepted : badPath path = false) : DotFree path := by
  intro piece member
  refine badPathLoop_pieces accepted piece ?_
  cases pieces : separators.pieces path with
  | nil => simp [pieces] at member
  | cons first others => simpa [pieces] using member

theorem countDots_dot (rest : Bytes) :
    countDots (dot :: rest) = (countDots rest).map (· + 1) := by
  rw [countDots, if_pos (by decide)]

theorem countDots_append (left : Bytes) (boundary : UInt8) (tail : Bytes)
    (isFree : boundary ∉ ascii "2eE") :
    countDots (left ++ boundary :: tail) =
      (countDots left).bind fun before => (countDots (boundary :: tail)).map (before + ·) := by
  have outside : ∀ literal ∈ ["%2e", "%2E"], boundary ∉ (ascii literal).tail := by
    intro literal member inside
    have subset : ∀ literal ∈ ["%2e", "%2E"], (ascii literal).tail ⊆ ascii "2eE" := by decide
    exact isFree (subset literal member inside)
  -- the test for an escape at the head is not affected by what follows the boundary
  have sameTest : ∀ (c : UInt8) (rest : Bytes),
      (startsWith (c :: (rest ++ boundary :: tail)) "%2e" ||
        startsWith (c :: (rest ++ boundary :: tail)) "%2E") =
      (startsWith (c :: rest) "%2e" || startsWith (c :: rest) "%2E") := by
    intro c rest
    rw [← List.cons_append, startsWith_append_cons (by simp) (outside _ (by decide)),
      startsWith_append_cons (by simp) (outside _ (by decide))]
  fun_induction countDots left with
  | case1 => simp
  | case2 c rest isDot ih =>
      rw [List.cons_append, countDots, if_pos isDot, ih]
      cases countDots rest <;> cases countDots (boundary :: tail) <;>
        simp [Nat.add_right_comm]
  | case3 c rest notDot isEscape ih =>
      have fits : 2 ≤ rest.length := by
        simp only [Bool.or_eq_true, startsWith_iff] at isEscape
        rcases isEscape with isEscape | isEscape <;>
          simpa [ascii] using isEscape.length_le
      rw [List.cons_append, countDots, if_neg notDot, sameTest, if_pos isEscape,
        List.drop_append_of_le_length fits, ih]
      cases countDots (rest.drop 2) <;> cases countDots (boundary :: tail) <;>
        simp [Nat.add_right_comm]
  | case4 c rest notDot notEscape =>
      rw [List.cons_append, countDots, if_neg notDot, sameTest, if_neg notEscape]
      rfl

/-- Decoding one `%2e` does not change what a piece reads as. -/
theorem dotPiece_decode (left right escape : Bytes)
    (isEscape : escape = ascii "%2e" ∨ escape = ascii "%2E") :
    dotPiece (left ++ escape ++ right) = dotPiece (left ++ dot :: right) := by
  have sameCount : ∀ left right : Bytes,
      countDots (left ++ escape ++ right) = countDots (left ++ dot :: right) := by
    intro left right
    have escaped : countDots (escape ++ right) = countDots (dot :: right) := by
      have notDot : percent ≠ dot := by decide
      rw [countDots_dot]
      cases isEscape with
      | inl same =>
          subst same
          change countDots (percent :: 0x32 :: 0x65 :: right) = _
          rw [countDots]
          simp [notDot, startsWith, ascii, List.isPrefixOf]
      | inr same =>
          subst same
          change countDots (percent :: 0x32 :: 0x45 :: right) = _
          rw [countDots]
          simp [notDot, startsWith, ascii, List.isPrefixOf]
    obtain ⟨tail, shape⟩ : ∃ tail, escape ++ right = percent :: tail := by
      rcases isEscape with rfl | rfl <;> exact ⟨_, rfl⟩
    rw [List.append_assoc, shape, countDots_append left percent tail (by decide), ← shape,
      escaped, ← countDots_append left dot right (by decide)]
  unfold dotPiece
  by_cases cut : semicolon ∈ left
  · rw [List.append_assoc, before_append_of_mem cut, before_append_of_mem cut]
  · have noParams : semicolon ∉ escape := by rcases isEscape with rfl | rfl <;> decide
    rw [List.append_assoc, before_append_of_notMem cut, before_append_of_notMem cut,
      before_append_of_notMem noParams, ← List.append_assoc, sameCount,
      before_cons_of_ne (by decide)]

theorem dotPiece_params (left right : Bytes) :
    dotPiece (left ++ semicolon :: right) = dotPiece left := by
  unfold dotPiece
  by_cases cut : semicolon ∈ left
  · rw [before_append_of_mem cut]
  · have whole : before semicolon left = left := by
      simpa using @before_append_of_notMem _ _ [] cut
    rw [before_append_of_notMem cut, before_cons_self, whole, List.append_nil]

end Ferryman.Core
