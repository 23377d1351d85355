import Ferryman.Core.Normalize

/-! The shortcuts of `normalize` agree with its rewriting loop, and the loop is
compositional at the bytes where no escape is cut. -/

set_option autoImplicit false

namespace Ferryman.Core

open Byte Bytes

/-- Everything a rewrite can be: a dropped slash, a decoded escape or an escape
with its hex digits in upper case. -/
theorem rewriteAt_cases {c : UInt8} {rest : Bytes} {n : Nat} {out : Bytes}
    (rewritten : rewriteAt (c :: rest) = some (n, out)) :
    (c = slash ∧ rest.head? = some slash ∧ n = 1 ∧ out = []) ∨
    (∃ high low tail h l, c = percent ∧ rest = high :: low :: tail ∧
      hexVal high = some h ∧ hexVal low = some l ∧ n = 3 ∧
      ((isUnreserved (h <<< 4 ||| l) = true ∧ out = [h <<< 4 ||| l]) ∨
        (isUnreserved (h <<< 4 ||| l) = false ∧
          out = [percent, toUpper high, toUpper low]))) := by
  simp only [rewriteAt] at rewritten
  split at rewritten
  · next merged =>
    simp only [Bool.and_eq_true, beq_iff_eq] at merged
    simp only [Option.some.injEq, Prod.mk.injEq] at rewritten
    exact .inl ⟨merged.1, merged.2, rewritten.1.symm, rewritten.2.symm⟩
  · split at rewritten
    · next isPercent =>
      rcases rest with _ | ⟨high, _ | ⟨low, tail⟩⟩
      case nil => simp at rewritten
      case cons.nil => simp at rewritten
      case cons.cons =>
          cases highValue : hexVal high with
          | none => simp [highValue] at rewritten
          | some h =>
              cases lowValue : hexVal low with
              | none => simp [lowValue] at rewritten
              | some l =>
                  simp only [List.getElem?_cons_zero, List.getElem?_cons_succ,
                    Option.bind_eq_bind, Option.bind_some, highValue, lowValue] at rewritten
                  refine .inr ⟨high, low, tail, h, l, by simpa using isPercent, rfl,
                    highValue, lowValue, ?_⟩
                  split at rewritten
                  · next decodes => simp_all
                  · next keeps =>
                    split at rewritten
                    · simp_all
                    · simp at rewritten
    · simp at rewritten

theorem rewriteAt_slash_slash (rest : Bytes) :
    rewriteAt (slash :: slash :: rest) = some (1, []) := by
  simp [rewriteAt]

theorem rewriteAt_slash {rest : Bytes} (single : rest.head? ≠ some slash) :
    rewriteAt (slash :: rest) = none := by
  have notPercent : slash ≠ percent := by decide
  simp [rewriteAt, single, notPercent]

theorem rewriteAt_plain {c : UInt8} (rest : Bytes) (notSlash : c ≠ slash)
    (notPercent : c ≠ percent) : rewriteAt (c :: rest) = none := by
  simp [rewriteAt, notSlash, notPercent]

@[simp] theorem normalizeLoop_nil : normalizeLoop [] = [] := by
  rw [normalizeLoop]

theorem normalizeLoop_copy {c : UInt8} {rest : Bytes} (kept : rewriteAt (c :: rest) = none) :
    normalizeLoop (c :: rest) = c :: normalizeLoop rest := by
  rw [normalizeLoop, kept]

theorem normalizeLoop_rewrite {c : UInt8} {rest : Bytes} {n : Nat} {out : Bytes}
    (rewritten : rewriteAt (c :: rest) = some (n, out)) :
    normalizeLoop (c :: rest) = out ++ normalizeLoop (rest.drop (n - 1)) := by
  rw [normalizeLoop, rewritten]

theorem normalizeLoop_slash_slash (rest : Bytes) :
    normalizeLoop (slash :: slash :: rest) = normalizeLoop (slash :: rest) := by
  simpa using normalizeLoop_rewrite (rewriteAt_slash_slash rest)

theorem normalizeLoop_plain {c : UInt8} (rest : Bytes) (notSlash : c ≠ slash)
    (notPercent : c ≠ percent) : normalizeLoop (c :: rest) = c :: normalizeLoop rest :=
  normalizeLoop_copy (rewriteAt_plain rest notSlash notPercent)

theorem normalizeLoop_take (path : Bytes) (count : Nat)
    (kept : ∀ i < count, rewriteAt (path.drop i) = none) :
    normalizeLoop path = path.take count ++ normalizeLoop (path.drop count) := by
  induction count generalizing path with
  | zero => simp
  | succ count ih =>
      cases path with
      | nil => simp
      | cons c rest =>
          have keptHead := kept 0 (Nat.succ_pos _)
          have keptTail : ∀ i < count, rewriteAt (rest.drop i) = none := fun i below => by
            simpa using kept (i + 1) (Nat.succ_lt_succ below)
          rw [normalizeLoop_copy (by simpa using keptHead), ih rest keptTail]
          simp

private theorem rewriteAt_none_of_absent {path : Bytes} (noPercent : percent ∉ path)
    (noDouble : ¬ ascii "//" <:+: path) : rewriteAt path = none := by
  cases path with
  | nil => rfl
  | cons c rest =>
      simp only [List.mem_cons, not_or] at noPercent
      by_cases isSlash : c = slash
      · subst isSlash
        refine rewriteAt_slash fun doubled => noDouble ?_
        obtain ⟨tail, rfl⟩ : ∃ tail, rest = slash :: tail := by
          cases rest with
          | nil => simp at doubled
          | cons next tail => exact ⟨tail, by simpa using doubled⟩
        exact ⟨[], tail, rfl⟩
      · exact rewriteAt_plain rest isSlash (fun same => noPercent.1 same.symm)

/-- Both early returns and the verbatim prefix agree with the plain loop. -/
theorem normalize_eq_loop (path : Bytes) : normalize path = normalizeLoop path := by
  have unchanged : (∀ i < path.length, rewriteAt (path.drop i) = none) →
      normalizeLoop path = path := fun kept => by
    simpa using normalizeLoop_take path path.length kept
  unfold normalize
  split
  · next shortcut =>
    simp only [Bool.and_eq_true, Bool.not_eq_true', List.contains_eq_mem,
      decide_eq_false_iff_not] at shortcut
    refine (unchanged fun i _ => rewriteAt_none_of_absent ?_ ?_).symm
    · exact fun present => shortcut.1 (List.mem_of_mem_drop present)
    · intro doubled
      have found := containsText_iff.mpr (doubled.trans (List.drop_suffix i path).isInfix)
      simp [found] at shortcut
  · cases found : firstRewrite path with
    | none =>
        refine (unchanged fun i below => ?_).symm
        have absent := List.find?_eq_none.mp found i (List.mem_range.mpr below)
        simpa using absent
    | some first =>
        obtain ⟨_, _, skipped⟩ := List.find?_range_eq_some.mp found
        exact (normalizeLoop_take path first fun i below => by
          simpa using skipped i below).symm

end Ferryman.Core
