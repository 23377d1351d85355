import Mathlib.Data.List.Basic

/-!
# Splitting at self-synchronising delimiters

A delimiter family is given by the width of the delimiter a list starts with.
When a symbol can only occur at the start of a delimiter, or outside of all of
them, no delimiter straddles it, so splitting is compositional there.
-/

set_option autoImplicit false

namespace Ferryman

variable {α : Type}

def glue : List (List α) → List (List α) → List (List α)
  | [], right => right
  | [last], right => right.modifyHead (last ++ ·)
  | piece :: next :: left, right => piece :: glue (next :: left) right

@[simp] theorem glue_concat (left right : List (List α)) (last : List α) :
    glue (left ++ [last]) right = left ++ right.modifyHead (last ++ ·) := by
  induction left with
  | nil => rfl
  | cons piece left ih =>
      cases left with
      | nil => rfl
      | cons next left => simpa [glue] using ih

theorem glue_modifyHead_cons (symbol : α) {left : List (List α)} (nonempty : left ≠ [])
    (right : List (List α)) :
    glue (left.modifyHead (symbol :: ·)) right = (glue left right).modifyHead (symbol :: ·) := by
  match left, right with
  | [last], [] => rfl
  | [last], first :: right => rfl
  | piece :: next :: left, right => rfl

theorem glue_nil_cons {left : List (List α)} (nonempty : left ≠ []) (right : List (List α)) :
    glue left ([] :: right) = left ++ right := by
  obtain ⟨front, last, rfl⟩ := List.eq_nil_or_concat left |>.resolve_left nonempty
  simp

/-- A family of delimiters over `α`. `free` symbols never occur in a delimiter
after its first symbol. -/
structure Delimiters (α : Type) where
  width : List α → Nat
  free : α → Bool
  width_le : ∀ string : List α, width string ≤ string.length
  width_append : ∀ (symbol : α) (rest : List α) (boundary : α) (tail : List α),
    free boundary = true →
      width (symbol :: rest ++ boundary :: tail) = width (symbol :: rest)

namespace Delimiters

variable (delimiters : Delimiters α)

def pieces (string : List α) : List (List α) :=
  match string with
  | [] => [[]]
  | symbol :: rest =>
      match delimiters.width (symbol :: rest) with
      | 0 => (pieces rest).modifyHead (symbol :: ·)
      | skipped + 1 => [] :: pieces (rest.drop skipped)
termination_by string.length
decreasing_by all_goals (simp only [List.length_cons, List.length_drop]; omega)

@[simp] theorem pieces_nil : delimiters.pieces [] = [[]] := by
  rw [pieces]

theorem pieces_cons_plain {symbol : α} {rest : List α}
    (plain : delimiters.width (symbol :: rest) = 0) :
    delimiters.pieces (symbol :: rest) = (delimiters.pieces rest).modifyHead (symbol :: ·) := by
  rw [pieces, plain]

theorem pieces_cons_delimiter {symbol : α} {rest : List α} {skipped : Nat}
    (found : delimiters.width (symbol :: rest) = skipped + 1) :
    delimiters.pieces (symbol :: rest) = [] :: delimiters.pieces (rest.drop skipped) := by
  rw [pieces, found]

theorem pieces_ne_nil (string : List α) : delimiters.pieces string ≠ [] := by
  fun_induction pieces with
  | case1 => simp
  | case2 symbol rest plain ih => simpa using ih
  | case3 symbol rest skipped found ih => simp

theorem pieces_append (left : List α) (boundary : α) (tail : List α)
    (isFree : delimiters.free boundary = true) :
    delimiters.pieces (left ++ boundary :: tail) =
      glue (delimiters.pieces left) (delimiters.pieces (boundary :: tail)) := by
  fun_induction pieces delimiters left with
  | case1 =>
      rcases pieces : delimiters.pieces (boundary :: tail) with _ | ⟨first, rest⟩
      · exact absurd pieces (delimiters.pieces_ne_nil _)
      · simp [pieces, glue]
  | case2 symbol rest plain ih =>
      have same := delimiters.width_append symbol rest boundary tail isFree
      rw [plain] at same
      rw [List.cons_append] at same ⊢
      rw [delimiters.pieces_cons_plain same, ih,
        glue_modifyHead_cons _ (delimiters.pieces_ne_nil _)]
  | case3 symbol rest skipped found ih =>
      have same := delimiters.width_append symbol rest boundary tail isFree
      have fits := delimiters.width_le (symbol :: rest)
      rw [found, List.length_cons] at fits
      rw [found, List.cons_append] at same
      rw [List.cons_append, delimiters.pieces_cons_delimiter same,
        List.drop_append_of_le_length (by omega), ih]
      rcases pieces : delimiters.pieces (rest.drop skipped) with _ | ⟨first, others⟩
      · exact absurd pieces (delimiters.pieces_ne_nil _)
      · rfl

/-- Text that starts with a free symbol and starts no delimiter anywhere,
whatever follows it. -/
structure Inert (text : List α) : Prop where
  starts : ∃ first rest, text = first :: rest ∧ delimiters.free first = true
  joins : ∀ right, delimiters.pieces (text ++ right) =
    (delimiters.pieces right).modifyHead (text ++ ·)

/-- Inert text becomes part of the one piece it is inserted in, and the pieces
around it do not depend on the text. -/
theorem pieces_around (left right : List α) :
    ∃ front last next rest, ∀ text, delimiters.Inert text →
      delimiters.pieces (left ++ text ++ right) = front ++ (last ++ text ++ next) :: rest := by
  obtain ⟨front, last, leftPieces⟩ :=
    (List.eq_nil_or_concat' (delimiters.pieces left)).resolve_left (delimiters.pieces_ne_nil left)
  obtain ⟨next, rest, rightPieces⟩ :=
    List.exists_cons_of_ne_nil (delimiters.pieces_ne_nil right)
  refine ⟨front, last, next, rest, fun text inert => ?_⟩
  obtain ⟨first, others, rfl, isFree⟩ := inert.starts
  have joined := inert.joins right
  rw [List.cons_append] at joined
  rw [List.append_assoc, List.cons_append, delimiters.pieces_append left first _ isFree, joined,
    leftPieces, rightPieces, glue_concat]
  simp

end Delimiters

end Ferryman
