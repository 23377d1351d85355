import Ferryman.Server.ForwardedProperties
import Ferryman.Server.Spellings

/-!
# The spelling filter is exact

The fold that the comments of the filter describe, step by step: other bytes
read as dashes, then runs collapsed, then the ends trimmed. The filter drops a
name iff its fold is a governed name other than the name itself, and its early
return is taken on the fixed points of the fold.
-/

set_option autoImplicit false

namespace Ferryman.Server

open Byte Bytes

def dashed (name : Bytes) : Bytes :=
  name.map fun c => if isAlphanumeric c then c else dash

def collapseDashes : Bytes → Bytes
  | [] => []
  | c :: rest =>
      if c == dash && rest.head? == some dash then collapseDashes rest
      else c :: collapseDashes rest

def trimDashes (name : Bytes) : Bytes :=
  (name.dropWhile (· == dash)).rdropWhile (· == dash)

def fold (name : Bytes) : Bytes :=
  trimDashes (collapseDashes (dashed name))

/-! ## The loop computes the fold -/

theorem collapseDashes_other {c : UInt8} (notDash : c ≠ dash) (rest : Bytes) :
    collapseDashes (c :: rest) = c :: collapseDashes rest := by
  simp [collapseDashes, notDash]

/-- A dash in front swallows the dashes that follow it. -/
theorem collapseDashes_dash (rest : Bytes) :
    collapseDashes (dash :: rest) = dash :: (collapseDashes rest).dropWhile (· == dash) := by
  induction rest with
  | nil => rfl
  | cons c rest ih =>
      by_cases isDash : c = dash
      · subst isDash
        have joined : collapseDashes (dash :: dash :: rest) = collapseDashes (dash :: rest) := by
          simp [collapseDashes]
        rw [joined, ih, List.dropWhile_cons_of_pos (by simp), List.dropWhile_idempotent]
      · have kept : collapseDashes (dash :: c :: rest) = dash :: collapseDashes (c :: rest) := by
          simp [collapseDashes, isDash]
        rw [kept, collapseDashes_other isDash, List.dropWhile_cons_of_neg (by simpa using isDash)]

theorem foldRest_eq (name : Bytes) :
    foldRest true name = collapseDashes (dashed name) ∧
      foldRest false name = (collapseDashes (dashed name)).dropWhile (· == dash) := by
  induction name with
  | nil => exact ⟨rfl, rfl⟩
  | cons c rest ih =>
      obtain ⟨inside, between⟩ := ih
      cases alphanumeric : isAlphanumeric c with
      | true =>
          have notDash := isAlphanumeric_ne_dash alphanumeric
          have read : dashed (c :: rest) = c :: dashed rest := by simp [dashed, alphanumeric]
          rw [read, collapseDashes_other notDash, ← inside,
            List.dropWhile_cons_of_neg (by simpa using notDash)]
          simp [foldRest, alphanumeric]
      | false =>
          have read : dashed (c :: rest) = dash :: dashed rest := by simp [dashed, alphanumeric]
          rw [read, collapseDashes_dash, ← between, List.dropWhile_cons_of_pos (by simp)]
          refine ⟨by simp [foldRest, alphanumeric], ?_⟩
          rw [between, List.dropWhile_idempotent, ← between]
          simp [foldRest, alphanumeric]

theorem fold_eq_cgiFold (name : Bytes) : fold name = cgiFold name := by
  rw [fold, trimDashes, ← (foldRest_eq name).2]
  exact (rdropWhile_foldRest name).1

theorem foldSpelling_eq_fold (name : Bytes) :
    (foldSpelling [] name).rdropWhile (· == dash) = fold name := by
  rw [foldSpelling_cgiFold, fold_eq_cgiFold]

/-! ## The early return -/

/-- What the loop adds: alphanumeric words with single dashes between them. -/
theorem foldRest_isPlain (inside : Bool) (name : Bytes) :
    (foldRest inside name).all (fun c => isAlphanumeric c || c == dash) = true ∧
      (inside = false → (foldRest inside name).head? ≠ some dash) ∧
      ¬ascii "--" <:+: foldRest inside name := by
  induction name generalizing inside with
  | nil => simp [foldRest, ascii]
  | cons c rest ih =>
      cases alphanumeric : isAlphanumeric c with
      | true =>
          have notDash := isAlphanumeric_ne_dash alphanumeric
          obtain ⟨plain, -, noRun⟩ := ih true
          simp only [foldRest, alphanumeric, if_true]
          refine ⟨by simp [plain, alphanumeric], fun _ => by simpa using notDash, fun run => ?_⟩
          cases List.infix_cons_iff.mp run with
          | inl here => exact notDash (List.cons_prefix_cons.mp here).1.symm
          | inr later => exact noRun later
      | false =>
          obtain ⟨plain, starts, noRun⟩ := ih false
          cases inside with
          | false =>
              simp only [foldRest, alphanumeric, Bool.false_eq_true, if_false]
              exact ⟨plain, fun _ => starts rfl, noRun⟩
          | true =>
              simp only [foldRest, alphanumeric, Bool.false_eq_true, if_false, if_true]
              refine ⟨by simp [plain], by simp, fun run => ?_⟩
              cases List.infix_cons_iff.mp run with
              | inl here =>
                  obtain ⟨tail, second⟩ := (List.cons_prefix_cons.mp here).2
                  exact starts rfl (by rw [← second]; rfl)
              | inr later => exact noRun later

theorem isPlainSpelling_fold (name : Bytes) : isPlainSpelling (fold name) = true := by
  obtain ⟨plain, starts, noRun⟩ := foldRest_isPlain false name
  have folded : fold name = (foldRest false name).rdropWhile (· == dash) := by
    rw [(rdropWhile_foldRest name).1, fold_eq_cgiFold]
  have isPrefix := List.rdropWhile_prefix (· == dash) (foldRest false name)
  rw [← folded] at isPrefix
  rw [isPlainSpelling_iff]
  refine ⟨?_, fun isDash => ?_, fun isDash => ?_, fun run => noRun (run.trans isPrefix.isInfix)⟩
  · exact List.all_eq_true.mpr fun c member =>
      List.all_eq_true.mp plain c (isPrefix.subset member)
  · obtain ⟨tail, whole⟩ := isPrefix
    refine starts rfl ?_
    rw [← whole, List.head?_append, isDash]
    rfl
  · have trimmed : (fold name).rdropWhile (· == dash) = fold name := by
      rw [folded, List.rdropWhile_idempotent]
    have nonempty : fold name ≠ [] := by
      intro empty
      simp [empty] at isDash
    rw [List.getLast?_eq_some_getLast nonempty, Option.some.injEq] at isDash
    exact List.rdropWhile_eq_self_iff.mp trimmed nonempty (by simp [isDash])

/-- The early return is taken on the fixed points of the fold. -/
theorem isPlainSpelling_iff_fold {name : Bytes} :
    isPlainSpelling name = true ↔ fold name = name := by
  constructor
  · intro plain
    obtain ⟨all, starts, ends, noRun⟩ := isPlainSpelling_iff.mp plain
    rw [fold_eq_cgiFold, cgiFold_plain all starts ends noRun]
  · intro fixed
    rw [← fixed]
    exact isPlainSpelling_fold name

/-! ## The filter -/

theorem isNoncanonicalSpelling_iff_fold {name : Bytes} :
    isNoncanonicalSpelling name = true ↔ fold name ∈ governedTexts ∧ fold name ≠ name := by
  rw [isNoncanonicalSpelling_eq, foldSpelling_eq_fold, ne_eq, ← isPlainSpelling_iff_fold]
  cases isPlainSpelling name with
  | true => simp
  | false => simp

theorem fold_governed {name : HeaderName} (governed : name ∈ trustGoverned) :
    fold name.text = name.text := by
  have fixed : ∀ name ∈ trustGoverned, fold name.text = name.text := by decide +kernel
  exact fixed name governed

/-- The filter on every name, and what it leaves in a map. -/
theorem spellingFilter_exact :
    (∀ name : Bytes,
      (isNoncanonicalSpelling name = true ↔ fold name ∈ governedTexts ∧ fold name ≠ name) ∧
      (isPlainSpelling name = true ↔ fold name = name) ∧
      (foldSpelling [] name).rdropWhile (· == dash) = fold name) ∧
    ∀ headers : HeaderMap,
      (∀ name ∈ trustGoverned,
        (stripNoncanonicalSpellings headers).getAll name = headers.getAll name) ∧
      (∀ name : HeaderName, fold name.text ∉ governedTexts →
        (stripNoncanonicalSpellings headers).getAll name = headers.getAll name) ∧
      ∀ name ∈ (stripNoncanonicalSpellings headers).keys,
        fold name.text ∈ governedTexts → name ∈ trustGoverned := by
  refine ⟨fun name => ⟨isNoncanonicalSpelling_iff_fold, isPlainSpelling_iff_fold,
    foldSpelling_eq_fold name⟩, fun headers => ⟨?_, ?_, ?_⟩⟩
  · intro name governed
    have kept : ¬isNoncanonicalSpelling name.text = true := fun dropped =>
      (isNoncanonicalSpelling_iff_fold.mp dropped).2 (fold_governed governed)
    rw [getAll_stripNoncanonicalSpellings, if_neg kept]
  · intro name unrelated
    have kept : ¬isNoncanonicalSpelling name.text = true := fun dropped =>
      unrelated (isNoncanonicalSpelling_iff_fold.mp dropped).1
    rw [getAll_stripNoncanonicalSpellings, if_neg kept]
  · intro name present folds
    have kept : ¬isNoncanonicalSpelling name.text = true := by
      intro dropped
      rw [HeaderMap.mem_keys, getAll_stripNoncanonicalSpellings, if_pos dropped] at present
      exact present rfl
    have fixed : fold name.text = name.text := by
      by_contra differs
      exact kept (isNoncanonicalSpelling_iff_fold.mpr ⟨folds, differs⟩)
    rw [fixed] at folds
    obtain ⟨governed, isGoverned, same⟩ := List.mem_map.mp folds
    exact HeaderName.ext same ▸ isGoverned

end Ferryman.Server
