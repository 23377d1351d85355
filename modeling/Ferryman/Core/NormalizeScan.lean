import Ferryman.Core.NormalizeProperties
import Ferryman.Lib.Slices
import Ferryman.Lib.Utf8

/-!
# Normalisation by index

`normalize` as the source runs it, on a string: every index and slice is
checked, the output is collected byte by byte and converted back to a string at
the end. `none` stands for a panic, and there is none.
-/

set_option autoImplicit false

namespace Ferryman.Core

open Byte Bytes

/-! ## The source by index -/

/-- What `rewrite_at` returns: the bytes to consume, a buffer of three bytes and
how many of them to emit. -/
structure Rewrite where
  consumed : Nat
  bytes : Bytes
  len : Nat
  deriving DecidableEq, Repr

/-- `rewrite_at`. The outer `none` is an index out of range. -/
def rewriteAtIndexed (b : Bytes) (i : Nat) : Option (Option Rewrite) :=
  match b[i]? with
  | none => none
  | some c =>
      if c == slash && b[i + 1]? == some slash then some (some ⟨1, [0, 0, 0], 0⟩)
      else if c == percent then
        match b[i + 1]?.bind hexVal, b[i + 2]?.bind hexVal with
        | some h, some l =>
            let c := h <<< 4 ||| l
            if isUnreserved c then some (some ⟨3, [c, 0, 0], 1⟩)
            else
              match b[i + 1]?, b[i + 2]? with
              | some high, some low =>
                  if isLower high || isLower low then
                    some (some ⟨3, [percent, toUpper high, toUpper low], 3⟩)
                  else some none
              | _, _ => none
        | _, _ => some none
      else some none

/-- `rewriteAt` on the rest of the input, with its output in a buffer of three bytes. -/
theorem rewriteAtIndexed_eq {b : Bytes} {i : Nat} (inside : i < b.length) :
    rewriteAtIndexed b i = some ((rewriteAt (b.drop i)).map fun (n, out) =>
      ⟨n, out ++ List.replicate (3 - out.length) 0, out.length⟩) := by
  obtain ⟨c, rest, shape⟩ : ∃ c rest, b.drop i = c :: rest :=
    ⟨_, _, List.drop_eq_getElem_cons inside⟩
  have at0 : b[i]? = some c := by
    rw [← Nat.add_zero i, ← List.getElem?_drop, shape, List.getElem?_cons_zero]
  have at1 : b[i + 1]? = rest[0]? := by
    rw [← List.getElem?_drop, shape, List.getElem?_cons_succ]
  have at2 : b[i + 2]? = rest[1]? := by
    rw [← List.getElem?_drop, shape, List.getElem?_cons_succ]
  rw [rewriteAtIndexed, at0, at1, at2, shape]
  simp only [rewriteAt, List.head?_eq_getElem?]
  split
  · rfl
  · split
    · cases first : rest[0]? with
      | none => rfl
      | some high =>
          cases second : rest[1]? with
          | none => cases value : hexVal high <;> simp [value]
          | some low =>
              simp only [Option.bind_some, Option.bind_eq_bind]
              cases hexVal high with
              | none => rfl
              | some h =>
                  cases hexVal low with
                  | none => rfl
                  | some l =>
                      simp only [Option.bind_some]
                      split
                      · rfl
                      · split <;> rfl
    · rfl

theorem rewriteAtIndexed_ne_none {b : Bytes} {i : Nat} (inside : i < b.length) :
    rewriteAtIndexed b i ≠ none := by
  simp [rewriteAtIndexed_eq inside]

theorem rewriteAtIndexed_some {b : Bytes} {i : Nat} {rewrite : Rewrite}
    (found : rewriteAtIndexed b i = some (some rewrite)) :
    ∃ c rest n out, b.drop i = c :: rest ∧ rewriteAt (c :: rest) = some (n + 1, out) ∧
      rewrite = ⟨n + 1, out ++ List.replicate (3 - out.length) 0, out.length⟩ := by
  by_cases inside : i < b.length
  · rw [rewriteAtIndexed_eq inside, List.drop_eq_getElem_cons inside, Option.some.injEq,
      Option.map_eq_some_iff] at found
    obtain ⟨⟨n, out⟩, rewritten, rfl⟩ := found
    refine ⟨_, _, n - 1, out, List.drop_eq_getElem_cons inside, ?_⟩
    rcases rewriteAt_cases rewritten with ⟨-, -, rfl, -⟩ | ⟨_, _, _, _, _, -, -, -, -, rfl, -⟩
    · exact ⟨rewritten, rfl⟩
    · exact ⟨rewritten, rfl⟩
  · rw [rewriteAtIndexed, List.getElem?_eq_none (Nat.le_of_not_lt inside)] at found
    cases found

theorem rewriteAtIndexed_kept {b : Bytes} {i : Nat} (inside : i < b.length)
    (kept : rewriteAtIndexed b i = some none) : rewriteAt (b.drop i) = none := by
  rwa [rewriteAtIndexed_eq inside, Option.some.injEq, Option.map_eq_none_iff] at kept

/-- `(0..b.len()).find(..)`, from index `i` on. -/
def firstRewriteScan (b : Bytes) (i : Nat) : Option (Option Nat) :=
  if i < b.length then
    match rewriteAtIndexed b i with
    | none => none
    | some (some _) => some (some i)
    | some none => firstRewriteScan b (i + 1)
  else some none
termination_by b.length - i

/-- The rewriting loop. A rewrite consumes at least one byte, so `i` grows. -/
def normalizeScan (b : Bytes) (i : Nat) (out : Bytes) : Option Bytes :=
  if i < b.length then
    match _found : rewriteAtIndexed b i with
    | none => none
    | some (some rewrite) =>
        match slice rewrite.bytes 0 rewrite.len with
        | none => none
        | some emitted => normalizeScan b (i + rewrite.consumed) (out ++ emitted)
    | some none =>
        match b[i]? with
        | none => none
        | some byte => normalizeScan b (i + 1) (out ++ [byte])
  else some out
termination_by b.length - i
decreasing_by
  · obtain ⟨c, rest, n, out, -, -, rfl⟩ := rewriteAtIndexed_some _found
    simp only
    omega
  · omega

def normalizeIndexed (path : String) : Option String :=
  let b := utf8 path
  if !b.contains percent && !containsText b "//" then some path
  else
    match firstRewriteScan b 0 with
    | none => none
    | some none => some path
    | some (some first) =>
        match slice b 0 first with
        | none => none
        | some front =>
            match normalizeScan b first front with
            | none => none
            | some out => fromUtf8 out

/-! ## No panic -/

theorem firstRewriteScan_eq (b : Bytes) (i : Nat) :
    firstRewriteScan b i =
      some ((List.range' i (b.length - i)).find? fun j => (rewriteAt (b.drop j)).isSome) := by
  fun_induction firstRewriteScan b i with
  | case1 i inside panics => exact absurd panics (rewriteAtIndexed_ne_none inside)
  | case2 i inside rewrite found =>
      obtain ⟨c, rest, n, out, shape, rewritten, -⟩ := rewriteAtIndexed_some found
      obtain ⟨more, count⟩ : ∃ more, b.length - i = more + 1 := ⟨b.length - i - 1, by omega⟩
      rw [count, List.range'_succ, List.find?_cons_of_pos (by simp [shape, rewritten])]
  | case3 i inside found ih =>
      have kept := rewriteAtIndexed_kept inside found
      obtain ⟨more, count⟩ : ∃ more, b.length - i = more + 1 := ⟨b.length - i - 1, by omega⟩
      have fewer : b.length - (i + 1) = more := by omega
      rw [ih, fewer, count, List.range'_succ, List.find?_cons_of_neg (by simp [kept])]
  | case4 i past =>
      have none : b.length - i = 0 := by omega
      rw [none, List.range'_zero, List.find?_nil]

theorem normalizeScan_eq (b : Bytes) (i : Nat) (out : Bytes) :
    normalizeScan b i out = some (out ++ normalizeLoop (b.drop i)) := by
  fun_induction normalizeScan b i out with
  | case1 i out inside panics => exact absurd panics (rewriteAtIndexed_ne_none inside)
  | case2 i out inside rewrite found panics =>
      obtain ⟨c, rest, n, written, shape, rewritten, rfl⟩ := rewriteAtIndexed_some found
      rw [slice_of_le (Nat.zero_le _) (by simp)] at panics
      cases panics
  | case3 i out inside rewrite found emitted taken ih =>
      obtain ⟨c, rest, n, written, shape, rewritten, rfl⟩ := rewriteAtIndexed_some found
      rw [slice_of_le (Nat.zero_le _) (by simp)] at taken
      simp only [List.drop_zero, Nat.sub_zero, List.take_left, Option.some.injEq] at taken
      subst taken
      rw [ih, shape, normalizeLoop_rewrite rewritten, drop_succ_of_drop shape, List.append_assoc,
        Nat.add_sub_cancel]
  | case4 i out inside found panics =>
      rw [List.getElem?_eq_getElem inside] at panics
      cases panics
  | case5 i out inside found byte read ih =>
      have kept := rewriteAtIndexed_kept inside found
      rw [List.getElem?_eq_getElem inside, Option.some.injEq] at read
      rw [List.drop_eq_getElem_cons inside] at kept ⊢
      rw [ih, normalizeLoop_copy kept, read, List.append_assoc]
      rfl
  | case6 i out past =>
      rw [List.drop_eq_nil_of_le (Nat.le_of_not_lt past), normalizeLoop_nil, List.append_nil]

/-! ## The output is a string -/

theorem hexVal_ascii {c h : UInt8} (value : hexVal c = some h) : c < 0x80 ∧ toUpper c < 0x80 := by
  have checked : ∀ digit : Fin 256, (hexVal (UInt8.ofFin digit)).isSome = true →
      UInt8.ofFin digit < 0x80 ∧ toUpper (UInt8.ofFin digit) < 0x80 := by decide +kernel
  exact checked c.toFin (by rw [UInt8.ofFin_toFin, value]; rfl)

theorem isUnreserved_ascii {c : UInt8} (unreserved : isUnreserved c = true) : c < 0x80 := by
  have checked : ∀ byte : Fin 256, isUnreserved (UInt8.ofFin byte) = true →
      UInt8.ofFin byte < 0x80 := by decide +kernel
  exact checked c.toFin unreserved

theorem normalizeLoop_high {lead : Bytes} (high : ∀ byte ∈ lead, 0x80 ≤ byte) (rest : Bytes) :
    normalizeLoop (lead ++ rest) = lead ++ normalizeLoop rest := by
  induction lead with
  | nil => rfl
  | cons byte lead ih =>
      obtain ⟨isHigh, later⟩ := List.forall_mem_cons.mp high
      have notSlash : byte ≠ slash := by
        intro same
        subst same
        exact absurd isHigh (by decide)
      have notPercent : byte ≠ percent := by
        intro same
        subst same
        exact absurd isHigh (by decide)
      rw [List.cons_append, normalizeLoop_plain _ notSlash notPercent, ih later, List.cons_append]

/-- A rewrite consumes and emits ASCII bytes only, so no longer encoding is cut. -/
theorem normalizeLoop_utf8 {b : Bytes} (valid : IsUtf8 b) : IsUtf8 (normalizeLoop b) := by
  induction total : b.length using Nat.strong_induction_on generalizing b with
  | h length ih =>
      subst total
      rcases valid.front with rfl | ⟨c, rest, rfl, plain, validRest⟩ |
        ⟨lead, rest, rfl, nonempty, high, validLead, validRest⟩
      · rw [normalizeLoop_nil]
        exact IsUtf8.nil
      · have laterRest := ih _ (Nat.lt_succ_self _) validRest rfl
        cases rewritten : rewriteAt (c :: rest) with
        | none =>
            rw [normalizeLoop_copy rewritten]
            exact laterRest.cons plain
        | some step =>
            obtain ⟨n, out⟩ := step
            rw [normalizeLoop_rewrite rewritten]
            rcases rewriteAt_cases rewritten with ⟨-, -, rfl, rfl⟩ |
              ⟨first, second, tail, h, l, -, rfl, value, value', rfl, written⟩
            · exact laterRest
            · obtain ⟨plainFirst, upperFirst⟩ := hexVal_ascii value
              obtain ⟨plainSecond, upperSecond⟩ := hexVal_ascii value'
              have later : IsUtf8 (normalizeLoop tail) :=
                ih _ (by simp only [List.length_cons]; omega)
                  ((validRest.tail plainFirst).tail plainSecond) rfl
              cases written with
              | inl decodes =>
                  obtain ⟨unreserved, rfl⟩ := decodes
                  exact later.cons (isUnreserved_ascii unreserved)
              | inr keeps =>
                  obtain ⟨-, rfl⟩ := keeps
                  exact ((later.cons upperSecond).cons upperFirst).cons (by decide)
      · have shorter : rest.length < (lead ++ rest).length := by
          rw [List.length_append]
          exact Nat.lt_add_of_pos_left (List.length_pos_of_ne_nil nonempty)
        rw [normalizeLoop_high high]
        exact validLead.append (ih _ shorter validRest rfl)

/-- `normalize` never panics: every index and slice is in range, the loop ends,
and the collected bytes are UTF-8. Its result is what the plain loop gives from
index 0, whichever way it returns. -/
theorem normalizeIndexed_eq_plain_loop (path : String) :
    ∃ result, normalizeIndexed path = some result ∧
      normalizeScan (utf8 path) 0 [] = some (utf8 result) ∧
      utf8 result = normalize (utf8 path) := by
  have plainLoop := normalizeScan_eq (utf8 path) 0 []
  rw [List.drop_zero, List.nil_append, ← normalize_eq_loop] at plainLoop
  have first : firstRewriteScan (utf8 path) 0 = some (firstRewrite (utf8 path)) := by
    rw [firstRewriteScan_eq, firstRewrite, List.range_eq_range', Nat.sub_zero]
  suffices returned : ∃ result, normalizeIndexed path = some result ∧
      utf8 result = normalize (utf8 path) by
    obtain ⟨result, ran, same⟩ := returned
    exact ⟨result, ran, by rw [plainLoop, same], same⟩
  have valid := normalizeLoop_utf8 (isUtf8_utf8 path)
  rw [← normalize_eq_loop] at valid
  rw [normalize] at valid ⊢
  rw [normalizeIndexed]
  split
  · exact ⟨path, rfl, rfl⟩
  · next long =>
    rw [if_neg long] at valid
    rw [first]
    cases found : firstRewrite (utf8 path) with
    | none => exact ⟨path, rfl, rfl⟩
    | some first =>
        have inside : first ≤ (utf8 path).length :=
          (List.mem_range.mp (List.mem_of_find?_eq_some found)).le
        rw [found] at valid
        simp only [slice_of_le (Nat.zero_le _) inside, normalizeScan_eq, List.drop_zero, Nat.sub_zero]
        exact valid.exists_fromUtf8

end Ferryman.Core
