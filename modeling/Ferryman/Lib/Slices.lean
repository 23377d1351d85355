import Mathlib.Data.List.Basic

/-!
# Checked slices

Slicing a list by index as a language with bounds checks does it: an index out
of range yields `none` where the program would stop.
-/

set_option autoImplicit false

namespace Ferryman

variable {α : Type}

/-- `b[i..]` -/
def sliceFrom (b : List α) (i : Nat) : Option (List α) :=
  if i ≤ b.length then some (b.drop i) else none

/-- `b[i..j]` -/
def slice (b : List α) (i j : Nat) : Option (List α) :=
  if i ≤ j ∧ j ≤ b.length then some ((b.drop i).take (j - i)) else none

theorem sliceFrom_of_le {b : List α} {i : Nat} (inside : i ≤ b.length) :
    sliceFrom b i = some (b.drop i) :=
  if_pos inside

theorem slice_of_le {b : List α} {i j : Nat} (ordered : i ≤ j) (inside : j ≤ b.length) :
    slice b i j = some ((b.drop i).take (j - i)) :=
  if_pos ⟨ordered, inside⟩

theorem sliceFrom_cons {b rest : List α} {i : Nat} (inside : i < b.length)
    (found : sliceFrom b i = some rest) : ∃ symbol tail, rest = symbol :: tail ∧ b.drop i = rest := by
  rw [sliceFrom_of_le (Nat.le_of_lt inside), Option.some.injEq] at found
  exact ⟨_, _, found ▸ List.drop_eq_getElem_cons inside, found⟩

/-- The slice that ends one symbol later has that symbol at its end. -/
theorem take_drop_succ {b rest : List α} {i j : Nat} {symbol : α} (ordered : i ≤ j)
    (found : b.drop j = symbol :: rest) :
    (b.drop i).take (j + 1 - i) = (b.drop i).take (j - i) ++ [symbol] := by
  have atEnd : (b.drop i)[j - i]? = some symbol := by
    rw [List.getElem?_drop, Nat.add_sub_cancel' ordered, ← Nat.add_zero j, ← List.getElem?_drop,
      found, List.getElem?_cons_zero]
  rw [Nat.succ_sub ordered, List.take_add_one, atEnd, Option.toList_some]

theorem drop_succ_of_drop {b rest : List α} {i : Nat} {symbol : α}
    (found : b.drop i = symbol :: rest) (n : Nat) : b.drop (i + (n + 1)) = rest.drop n := by
  rw [← List.drop_drop, found, List.drop_succ_cons]

theorem length_of_drop {b rest : List α} {i : Nat} {symbol : α}
    (found : b.drop i = symbol :: rest) : i + rest.length + 1 = b.length := by
  have counted := congrArg List.length found
  rw [List.length_drop, List.length_cons] at counted
  omega

end Ferryman
