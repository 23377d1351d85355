import Ferryman.Core.NormalizeProperties
import Ferryman.Core.Route
import Mathlib.Logic.Relation

/-!
# The normal form

Where every `%` starts an escape, `normalize` chooses one spelling for all paths
that differ by the encoding of unreserved characters, the case of escapes or the
length of slash runs.
-/

set_option autoImplicit false

namespace Ferryman.Core

open Byte Bytes

/-! ## Escapes -/

def isHexDigit (byte : UInt8) : Bool := (hexVal byte).isSome

def startsWithHex : Bytes → Bool
  | high :: low :: _ => isHexDigit high && isHexDigit low
  | _ => false

/-- Every `%` starts an escape of two hex digits. -/
def EscapesValid : Bytes → Prop
  | [] => True
  | c :: rest => (c = percent → startsWithHex rest = true) ∧ EscapesValid rest

instance decidableEscapesValid : DecidablePred EscapesValid
  | [] => isTrue trivial
  | c :: rest =>
      have := decidableEscapesValid rest
      inferInstanceAs (Decidable ((c = percent → startsWithHex rest = true) ∧ EscapesValid rest))

theorem escapesValid_append {left right : Bytes}
    (cut : ∀ byte ∈ right.head?, isHexDigit byte = false) :
    EscapesValid (left ++ right) ↔ EscapesValid left ∧ EscapesValid right := by
  induction left with
  | nil => simp [EscapesValid]
  | cons c rest ih =>
      have same : startsWithHex (rest ++ right) = startsWithHex rest := by
        match rest, right with
        | high :: low :: tail, _ => rfl
        | [], [] => rfl
        | [], [single] => rfl
        | [], first :: second :: others => simp [startsWithHex, cut first rfl]
        | [high], [] => rfl
        | [high], first :: others => simp [startsWithHex, cut first rfl]
      simp only [List.cons_append, EscapesValid, ih, same, and_assoc]

/-! ## Normalising around a separator -/

theorem rewriteAt_append {c : UInt8} {rest tail : Bytes} (valid : EscapesValid (c :: rest))
    (ends : c = slash → rest = [] → tail.head? ≠ some slash) :
    rewriteAt (c :: (rest ++ tail)) = rewriteAt (c :: rest) := by
  by_cases isSlash : c = slash
  · subst isSlash
    cases rest with
    | nil =>
        rw [rewriteAt_slash (by simpa using ends rfl rfl), rewriteAt_slash (by simp)]
    | cons next rest =>
        by_cases doubled : next = slash
        · subst doubled
          rw [List.cons_append, rewriteAt_slash_slash, rewriteAt_slash_slash]
        · rw [rewriteAt_slash (by simpa using doubled), rewriteAt_slash (by simpa using doubled)]
  · by_cases isPercent : c = percent
    · match rest, valid.1 isPercent with
      | high :: low :: others, _ => simp [rewriteAt, isSlash]
    · rw [rewriteAt_plain _ isSlash isPercent, rewriteAt_plain _ isSlash isPercent]

private theorem rewrite_fits {c : UInt8} {rest : Bytes} {n : Nat} {out : Bytes}
    (rewritten : rewriteAt (c :: rest) = some (n, out)) : n - 1 ≤ rest.length := by
  rcases rewriteAt_cases rewritten with ⟨-, -, rfl, -⟩ | ⟨high, low, tail, _, _, -, rfl, -, -, rfl, -⟩
  · simp
  · simp

theorem EscapesValid.drop {path : Bytes} (valid : EscapesValid path) (count : Nat) :
    EscapesValid (path.drop count) := by
  induction count generalizing path with
  | zero => exact valid
  | succ count ih =>
      cases path with
      | nil => exact valid
      | cons c rest => exact ih valid.2

/-- Normalising is compositional in front of anything but a slash or a hex digit. -/
theorem normalizeLoop_append {left right : Bytes} (valid : EscapesValid left)
    (notSlash : right.head? ≠ some slash) :
    normalizeLoop (left ++ right) = normalizeLoop left ++ normalizeLoop right := by
  fun_induction normalizeLoop left with
  | case1 => simp
  | case2 c rest n out rewritten ih =>
      have same := rewriteAt_append valid fun _ _ => notSlash
      rw [rewritten] at same
      rw [List.cons_append, normalizeLoop_rewrite same,
        List.drop_append_of_le_length (rewrite_fits rewritten), ih (valid.2.drop _),
        List.append_assoc]
  | case3 c rest kept ih =>
      have same := rewriteAt_append valid fun _ _ => notSlash
      rw [kept] at same
      rw [List.cons_append, normalizeLoop_copy same, ih valid.2]
      rfl

theorem normalizeLoop_slash_head (rest : Bytes) :
    ∃ tail, normalizeLoop (slash :: rest) = slash :: tail := by
  induction rest with
  | nil => exact ⟨[], by rw [normalizeLoop_copy (rewriteAt_slash (by simp)), normalizeLoop_nil]⟩
  | cons next rest ih =>
      by_cases doubled : next = slash
      · subst doubled
        rw [normalizeLoop_slash_slash]
        exact ih
      · exact ⟨_, normalizeLoop_copy (rewriteAt_slash (by simpa using doubled))⟩

theorem normalizeLoop_keeps_front {left : Bytes} (valid : EscapesValid left) (right : Bytes) :
    normalizeLoop left <+: normalizeLoop (left ++ slash :: right) := by
  fun_induction normalizeLoop left with
  | case1 => exact List.nil_prefix
  | case2 c rest n out rewritten ih =>
      have notLast : c = slash → rest = [] → (slash :: right).head? ≠ some slash := by
        intro same same'
        subst same
        subst same'
        simp [rewriteAt, slash, percent] at rewritten
      have same := rewriteAt_append valid notLast
      rw [rewritten] at same
      rw [List.cons_append, normalizeLoop_rewrite same,
        List.drop_append_of_le_length (rewrite_fits rewritten)]
      exact List.prefix_append_right_inj out |>.mpr (ih (valid.2.drop _))
  | case3 c rest kept ih =>
      by_cases last : c = slash ∧ rest = []
      · obtain ⟨rfl, rfl⟩ := last
        obtain ⟨tail, head⟩ := normalizeLoop_slash_head right
        rw [List.singleton_append, normalizeLoop_slash_slash, head, normalizeLoop_nil]
        exact ⟨tail, rfl⟩
      · have same := @rewriteAt_append c rest (slash :: right) valid
          fun isSlash isLast => absurd ⟨isSlash, isLast⟩ last
        rw [kept] at same
        rw [List.cons_append, normalizeLoop_copy same]
        exact List.prefix_cons_inj c |>.mpr (ih valid.2)

/-! ## One escape -/

theorem hexVal_plain {digit value : UInt8} (isHex : hexVal digit = some value) :
    digit ≠ slash ∧ digit ≠ percent := by
  have plain : ∀ digit : UInt8, (hexVal digit).isSome = true → digit ≠ slash ∧ digit ≠ percent :=
    forall_of_fin (by decide +kernel)
  exact plain digit (by simp [isHex])

theorem isUnreserved_plain {c : UInt8} (unreserved : isUnreserved c = true) :
    c ≠ slash ∧ c ≠ percent := by
  have plain : ∀ c : UInt8, isUnreserved c = true → c ≠ slash ∧ c ≠ percent :=
    forall_of_fin (by decide +kernel)
  exact plain c unreserved

theorem hexVal_toUpper (digit : UInt8) : hexVal (toUpper digit) = hexVal digit := by
  have same : ∀ digit : UInt8, hexVal (toUpper digit) = hexVal digit :=
    forall_of_fin (by decide +kernel)
  exact same digit

theorem isLower_toUpper (byte : UInt8) : isLower (toUpper byte) = false := by
  have upper : ∀ byte : UInt8, isLower (toUpper byte) = false := forall_of_fin (by decide +kernel)
  exact upper byte

theorem toUpper_of_not_lower {byte : UInt8} (notLower : isLower byte = false) :
    toUpper byte = byte := by
  simp [toUpper, notLower]

section Escape

variable {high low h l : UInt8} (highValue : hexVal high = some h) (lowValue : hexVal low = some l)

include highValue lowValue

theorem rewriteAt_escape (tail : Bytes) :
    rewriteAt (percent :: high :: low :: tail) =
      if isUnreserved (h <<< 4 ||| l) then some (3, [h <<< 4 ||| l])
      else if isLower high || isLower low then some (3, [percent, toUpper high, toUpper low])
      else none := by
  have notSlash : percent ≠ slash := by decide
  simp [rewriteAt, highValue, lowValue, notSlash]

theorem normalizeLoop_escape (tail : Bytes) :
    normalizeLoop (percent :: high :: low :: tail) =
      (if isUnreserved (h <<< 4 ||| l) then [h <<< 4 ||| l]
        else [percent, toUpper high, toUpper low]) ++ normalizeLoop tail := by
  have rewritten := rewriteAt_escape highValue lowValue tail
  by_cases decodes : isUnreserved (h <<< 4 ||| l) = true
  · rw [if_pos decodes] at rewritten ⊢
    exact normalizeLoop_rewrite rewritten
  · rw [if_neg decodes] at rewritten ⊢
    by_cases lower : (isLower high || isLower low) = true
    · rw [if_pos lower] at rewritten
      exact normalizeLoop_rewrite rewritten
    · rw [if_neg lower] at rewritten
      simp only [Bool.or_eq_true, not_or, Bool.not_eq_true] at lower
      have plainHigh := hexVal_plain highValue
      have plainLow := hexVal_plain lowValue
      rw [normalizeLoop_copy rewritten, normalizeLoop_plain _ plainHigh.1 plainHigh.2,
        normalizeLoop_plain _ plainLow.1 plainLow.2, toUpper_of_not_lower lower.1,
        toUpper_of_not_lower lower.2]
      rfl

end Escape

/-! ## Nothing left to rewrite -/

def Settled (b : Bytes) : Prop := ∀ suffix, suffix <:+ b → rewriteAt suffix = none

theorem settled_cons {c : UInt8} {rest : Bytes} :
    Settled (c :: rest) ↔ rewriteAt (c :: rest) = none ∧ Settled rest := by
  constructor
  · intro settled
    exact ⟨settled _ List.suffix_rfl, fun suffix isSuffix =>
      settled suffix (isSuffix.trans (List.suffix_cons c rest))⟩
  · intro all suffix isSuffix
    obtain ⟨head, others⟩ := all
    cases List.suffix_cons_iff.mp isSuffix with
    | inl same =>
        subst same
        exact head
    | inr isSuffix => exact others suffix isSuffix

theorem settled_plain {c : UInt8} {rest : Bytes} (notSlash : c ≠ slash) (notPercent : c ≠ percent)
    (settled : Settled rest) : Settled (c :: rest) :=
  settled_cons.mpr ⟨rewriteAt_plain rest notSlash notPercent, settled⟩

theorem normalizeLoop_of_settled {b : Bytes} (settled : Settled b) : normalizeLoop b = b := by
  induction b with
  | nil => exact normalizeLoop_nil
  | cons c rest ih =>
      obtain ⟨kept, others⟩ := settled_cons.mp settled
      rw [normalizeLoop_copy kept, ih others]

theorem normalizeLoop_head {rest : Bytes} (notSlash : rest.head? ≠ some slash) :
    (normalizeLoop rest).head? ≠ some slash := by
  cases rest with
  | nil => simp
  | cons c rest =>
      have differs : c ≠ slash := by simpa using notSlash
      cases rewritten : rewriteAt (c :: rest) with
      | none =>
          rw [normalizeLoop_copy rewritten]
          simpa using differs
      | some step =>
          obtain ⟨n, out⟩ := step
          rw [normalizeLoop_rewrite rewritten]
          rcases rewriteAt_cases rewritten with
            ⟨isSlash, -⟩ | ⟨_, _, _, _, _, -, -, -, -, -, ⟨decoded, rfl⟩ | ⟨-, rfl⟩⟩
          · exact absurd isSlash differs
          · simpa using (isUnreserved_plain decoded).1
          · exact fun isSlash => absurd (Option.some.inj isSlash) (by decide)

theorem settled_escape {high low h l : UInt8} {rest : Bytes} (highValue : hexVal high = some h)
    (lowValue : hexVal low = some l) (settled : Settled rest) :
    Settled ((if isUnreserved (h <<< 4 ||| l) then [h <<< 4 ||| l]
      else [percent, toUpper high, toUpper low]) ++ rest) := by
  split
  · next decodes =>
    obtain ⟨notSlash, notPercent⟩ := isUnreserved_plain decodes
    exact settled_plain notSlash notPercent settled
  · next keeps =>
    have upperHigh := (hexVal_toUpper high).trans highValue
    have upperLow := (hexVal_toUpper low).trans lowValue
    obtain ⟨highSlash, highPercent⟩ := hexVal_plain upperHigh
    obtain ⟨lowSlash, lowPercent⟩ := hexVal_plain upperLow
    refine settled_cons.mpr ⟨?_, settled_plain highSlash highPercent
      (settled_plain lowSlash lowPercent settled)⟩
    refine (rewriteAt_escape upperHigh upperLow rest).trans ?_
    rw [if_neg keeps, isLower_toUpper, isLower_toUpper]
    rfl

theorem EscapesValid.escape {rest : Bytes} (valid : EscapesValid (percent :: rest)) :
    ∃ high low tail h l, rest = high :: low :: tail ∧ hexVal high = some h ∧
      hexVal low = some l := by
  have hex := valid.1 rfl
  rcases rest with _ | ⟨high, _ | ⟨low, tail⟩⟩
  · simp [startsWithHex] at hex
  · simp [startsWithHex] at hex
  · simp only [startsWithHex, isHexDigit, Bool.and_eq_true, Option.isSome_iff_exists] at hex
    obtain ⟨⟨h, highValue⟩, l, lowValue⟩ := hex
    exact ⟨high, low, tail, h, l, rfl, highValue, lowValue⟩

/-- Normalising leaves nothing to rewrite: neither decoding nor merging can create
an escape or a double slash. -/
theorem settled_normalizeLoop {path : Bytes} (valid : EscapesValid path) :
    Settled (normalizeLoop path) := by
  fun_induction normalizeLoop path with
  | case1 =>
      intro suffix isSuffix
      rw [List.suffix_nil] at isSuffix
      rw [isSuffix, rewriteAt]
  | case2 c rest n out rewritten ih =>
      rcases rewriteAt_cases rewritten with
        ⟨rfl, -, rfl, rfl⟩ | ⟨high, low, tail, h, l, rfl, rfl, highValue, lowValue, rfl, written⟩
      · exact ih valid.2
      · have settled := settled_escape highValue lowValue (ih (valid.2.drop 2))
        cases written with
        | inl isDecoded =>
            obtain ⟨decodes, rfl⟩ := isDecoded
            rwa [if_pos decodes] at settled
        | inr isKept =>
            obtain ⟨keeps, rfl⟩ := isKept
            rwa [if_neg (by simp [keeps])] at settled
  | case3 c rest kept ih =>
      by_cases isSlash : c = slash
      · subst isSlash
        have single : rest.head? ≠ some slash := fun doubled => by
          obtain ⟨tail, rfl⟩ := List.head?_eq_some_iff.mp doubled
          rw [rewriteAt_slash_slash] at kept
          cases kept
        exact settled_cons.mpr ⟨rewriteAt_slash (normalizeLoop_head single), ih valid.2⟩
      · by_cases isPercent : c = percent
        · subst isPercent
          -- the escape is copied byte by byte
          obtain ⟨high, low, tail, h, l, rfl, highValue, lowValue⟩ := valid.escape
          obtain ⟨highSlash, highPercent⟩ := hexVal_plain highValue
          obtain ⟨lowSlash, lowPercent⟩ := hexVal_plain lowValue
          refine settled_cons.mpr ⟨?_, ih valid.2⟩
          rw [normalizeLoop_plain _ highSlash highPercent, normalizeLoop_plain _ lowSlash lowPercent,
            rewriteAt_escape highValue lowValue, ← rewriteAt_escape highValue lowValue tail]
          exact kept
        · exact settled_plain isSlash isPercent (ih valid.2)

theorem rewriteAt_no_slash {c : UInt8} {rest : Bytes} {n : Nat} {out : Bytes}
    (rewritten : rewriteAt (c :: rest) = some (n, out)) : slash ∉ out := by
  rcases rewriteAt_cases rewritten with
    ⟨-, -, -, rfl⟩ | ⟨high, low, _, h, l, -, -, highValue, lowValue, -, ⟨decodes, rfl⟩ | ⟨-, rfl⟩⟩
  · simp
  · simpa using (isUnreserved_plain decodes).1.symm
  · have plainHigh := hexVal_plain ((hexVal_toUpper high).trans highValue)
    have plainLow := hexVal_plain ((hexVal_toUpper low).trans lowValue)
    have notPercent : slash ≠ percent := by decide
    simp [plainHigh.1.symm, plainLow.1.symm, notPercent]

theorem slash_suffix_append {front rest tail : Bytes} (absent : slash ∉ front)
    (isSuffix : slash :: tail <:+ front ++ rest) : slash :: tail <:+ rest := by
  induction front with
  | nil => exact isSuffix
  | cons c front ih =>
      simp only [List.mem_cons, not_or] at absent
      cases List.suffix_cons_iff.mp isSuffix with
      | inl same => exact absurd (List.cons.inj same).1 absent.1
      | inr isSuffix => exact ih absent.2 isSuffix

/-- Slash runs are merged on every path, with malformed escapes too. -/
theorem normalizeLoop_single_slashes (path tail : Bytes) :
    ¬slash :: slash :: tail <:+ normalizeLoop path := by
  fun_induction normalizeLoop path with
  | case1 => simp
  | case2 c rest n out rewritten ih =>
      exact fun doubled => ih (slash_suffix_append (rewriteAt_no_slash rewritten) doubled)
  | case3 c rest kept ih =>
      intro doubled
      cases List.suffix_cons_iff.mp doubled with
      | inl same =>
          obtain ⟨rfl, head⟩ := List.cons.inj same
          have single : rest.head? ≠ some slash := fun again => by
            obtain ⟨others, rfl⟩ := List.head?_eq_some_iff.mp again
            rw [rewriteAt_slash_slash] at kept
            cases kept
          exact normalizeLoop_head single (by simp [← head])
      | inr doubled => exact ih doubled

/-- No escape stands for an unreserved character and none has a lower-case digit. -/
def EscapesNormal (path : Bytes) : Prop :=
  ∀ left high low right h l, path = left ++ percent :: high :: low :: right →
    hexVal high = some h → hexVal low = some l →
    isUnreserved (h <<< 4 ||| l) = false ∧ isLower high = false ∧ isLower low = false

theorem Settled.escapesNormal {path : Bytes} (settled : Settled path) : EscapesNormal path := by
  intro left high low right h l same highValue lowValue
  subst same
  have kept := settled _ (List.suffix_append left _)
  rw [rewriteAt_escape highValue lowValue] at kept
  split at kept
  · cases kept
  · next reserved =>
    split at kept
    · cases kept
    · next upper =>
      simp only [Bool.or_eq_true, not_or, Bool.not_eq_true] at reserved upper
      exact ⟨reserved, upper⟩

/-! ## Spellings of one path -/

/-- An unreserved character outside of all escapes is encoded, the case of an escape
is changed or a run of slashes gets longer. -/
inductive RespellStep : Bytes → Bytes → Prop where
  | encode {left right : Bytes} {high low h l : UInt8} : EscapesValid left →
      hexVal high = some h → hexVal low = some l → isUnreserved (h <<< 4 ||| l) = true →
      RespellStep (left ++ (h <<< 4 ||| l) :: right) (left ++ percent :: high :: low :: right)
  | recase {left right : Bytes} {high low high' low' h l : UInt8} :
      hexVal high = some h → hexVal low = some l →
      toUpper high' = toUpper high → toUpper low' = toUpper low →
      RespellStep (left ++ percent :: high :: low :: right)
        (left ++ percent :: high' :: low' :: right)
  | lengthen {left right : Bytes} :
      RespellStep (left ++ slash :: right) (left ++ slash :: slash :: right)

/-- Two paths that differ by any number of such changes, made or undone. -/
def SameSpelling : Bytes → Bytes → Prop := Relation.EqvGen RespellStep

theorem EscapesValid.append_iff {left right : Bytes} (valid : EscapesValid left) :
    EscapesValid (left ++ right) ↔ EscapesValid right := by
  induction left with
  | nil => rfl
  | cons c rest ih =>
      rw [List.cons_append, EscapesValid, ih valid.2, and_iff_right_iff_imp]
      intro _ same
      subst same
      obtain ⟨high, low, tail, h, l, rfl, highValue, lowValue⟩ := valid.escape
      simp [startsWithHex, isHexDigit, highValue, lowValue]

theorem escapesValid_slash {left right : Bytes} :
    EscapesValid (left ++ slash :: right) ↔ EscapesValid left ∧ EscapesValid right := by
  have cut : isHexDigit slash = false := by decide
  have notPercent : slash ≠ percent := by decide
  rw [escapesValid_append (by simpa using cut)]
  simp [EscapesValid, notPercent]

theorem escapesValid_escape {left right : Bytes} {high low h l : UInt8}
    (highValue : hexVal high = some h) (lowValue : hexVal low = some l) :
    EscapesValid (left ++ percent :: high :: low :: right) ↔
      EscapesValid left ∧ EscapesValid right := by
  have cut : isHexDigit percent = false := by decide
  rw [escapesValid_append (by simpa using cut)]
  simp [EscapesValid, startsWithHex, isHexDigit, highValue, lowValue, (hexVal_plain highValue).2,
    (hexVal_plain lowValue).2]

theorem RespellStep.escapesValid {path other : Bytes} (step : RespellStep path other) :
    EscapesValid path ↔ EscapesValid other := by
  cases step with
  | encode valid highValue lowValue unreserved =>
      rw [escapesValid_escape highValue lowValue, valid.append_iff, EscapesValid]
      simp [valid, (isUnreserved_plain unreserved).2]
  | recase highValue lowValue sameHigh sameLow =>
      rw [escapesValid_escape highValue lowValue, escapesValid_escape
        (by rw [← hexVal_toUpper, sameHigh, hexVal_toUpper, highValue])
        (by rw [← hexVal_toUpper, sameLow, hexVal_toUpper, lowValue])]
  | lengthen =>
      have notPercent : slash ≠ percent := by decide
      rw [escapesValid_slash, escapesValid_slash, EscapesValid]
      simp [notPercent]

/-- In front of a slash only the normal form of what follows matters. -/
theorem normalizeLoop_congr {left right other : Bytes} (valid : EscapesValid left)
    (same : normalizeLoop (slash :: right) = normalizeLoop (slash :: other)) :
    normalizeLoop (left ++ slash :: right) = normalizeLoop (left ++ slash :: other) := by
  fun_induction normalizeLoop left with
  | case1 => exact same
  | case2 c rest n out rewritten ih =>
      have notLast : c = slash → rest = [] → (slash :: right).head? ≠ some slash := by
        intro same same'
        subst same
        subst same'
        simp [rewriteAt, slash, percent] at rewritten
      have here := @rewriteAt_append c rest (slash :: right) valid notLast
      have there := @rewriteAt_append c rest (slash :: other) valid notLast
      rw [rewritten] at here there
      rw [List.cons_append, List.cons_append, normalizeLoop_rewrite here,
        normalizeLoop_rewrite there, List.drop_append_of_le_length (rewrite_fits rewritten),
        List.drop_append_of_le_length (rewrite_fits rewritten), ih (valid.2.drop _)]
  | case3 c rest kept ih =>
      by_cases last : c = slash ∧ rest = []
      · obtain ⟨rfl, rfl⟩ := last
        rw [List.singleton_append, List.singleton_append, normalizeLoop_slash_slash,
          normalizeLoop_slash_slash, same]
      · have notLast : c = slash → rest = [] → (slash :: right).head? ≠ some slash :=
          fun isSlash isLast => absurd ⟨isSlash, isLast⟩ last
        have here := @rewriteAt_append c rest (slash :: right) valid notLast
        have there := @rewriteAt_append c rest (slash :: other) valid notLast
        rw [kept] at here there
        rw [List.cons_append, List.cons_append, normalizeLoop_copy here, normalizeLoop_copy there,
          ih valid.2]

theorem RespellStep.normalizeLoop_eq {path other : Bytes} (step : RespellStep path other)
    (valid : EscapesValid path) : normalizeLoop path = normalizeLoop other := by
  have percentHead : ∀ rest : Bytes, (percent :: rest).head? ≠ some slash := by
    intro rest isSlash
    exact absurd (Option.some.inj isSlash) (by decide)
  cases step with
  | encode validLeft highValue lowValue unreserved =>
      obtain ⟨notSlash, notPercent⟩ := isUnreserved_plain unreserved
      rw [normalizeLoop_append validLeft (by simpa using notSlash),
        normalizeLoop_append validLeft (percentHead _),
        normalizeLoop_plain _ notSlash notPercent, normalizeLoop_escape highValue lowValue,
        if_pos unreserved]
      rfl
  | @recase left right high low high' low' h l highValue lowValue sameHigh sameLow =>
      have highValue' : hexVal high' = some h := by
        rw [← hexVal_toUpper, sameHigh, hexVal_toUpper, highValue]
      have lowValue' : hexVal low' = some l := by
        rw [← hexVal_toUpper, sameLow, hexVal_toUpper, lowValue]
      have validLeft := ((escapesValid_escape highValue lowValue).mp valid).1
      rw [normalizeLoop_append validLeft (percentHead _),
        normalizeLoop_append validLeft (percentHead _), normalizeLoop_escape highValue lowValue,
        normalizeLoop_escape highValue' lowValue', sameHigh, sameLow]
  | lengthen =>
      exact normalizeLoop_congr (escapesValid_slash.mp valid).1 (normalizeLoop_slash_slash _).symm

theorem SameSpelling.normalize_eq {path other : Bytes} (same : SameSpelling path other) :
    (EscapesValid path ↔ EscapesValid other) ∧
      (EscapesValid path → normalize path = normalize other) := by
  induction same with
  | rel path other step =>
      refine ⟨step.escapesValid, fun valid => ?_⟩
      rw [normalize_eq_loop, normalize_eq_loop, step.normalizeLoop_eq valid]
  | refl path => exact ⟨Iff.rfl, fun _ => rfl⟩
  | symm path other _ ih => exact ⟨ih.1.symm, fun valid => (ih.2 (ih.1.mpr valid)).symm⟩
  | trans path middle other _ _ first second =>
      exact ⟨first.1.trans second.1, fun valid =>
        (first.2 valid).trans (second.2 (first.1.mp valid))⟩

/-- `normalize` merges slash runs on every path. Where every `%` starts an escape it
is idempotent, its escapes are in normal form, and all spellings of a path share
its result and its route. -/
theorem normalize_canonical_form (path : Bytes) :
    ¬ascii "//" <:+: normalize path ∧
      (EscapesValid path →
        normalize (normalize path) = normalize path ∧
        EscapesNormal (normalize path) ∧
        ∀ other, EscapesValid other → SameSpelling path other →
          normalize other = normalize path ∧
          ∀ table : RouteTable, table.lookup other = table.lookup path) := by
  constructor
  · intro isInfix
    obtain ⟨left, right, shape⟩ := isInfix
    rw [normalize_eq_loop] at shape
    exact normalizeLoop_single_slashes path right ⟨left, by simpa [ascii] using shape⟩
  · intro valid
    have settled := settled_normalizeLoop valid
    rw [← normalize_eq_loop] at settled
    refine ⟨?_, settled.escapesNormal, fun other _ same => ?_⟩
    · rw [normalize_eq_loop (normalize path)]
      exact normalizeLoop_of_settled settled
    · have sameForm := (same.normalize_eq.2 valid).symm
      exact ⟨sameForm, fun table => by rw [RouteTable.lookup, RouteTable.lookup, sameForm]⟩

theorem encoded_letter_is_normalised :
    EscapesValid (ascii "/%61pi") ∧ EscapesValid (ascii "/api") ∧
      normalize (ascii "/%61pi") = normalize (ascii "/api") := by
  have valid : EscapesValid (ascii "/api") := by decide
  have validEncoded : EscapesValid (ascii "/%61pi") := by decide
  have step : RespellStep (ascii "/api") (ascii "/%61pi") :=
    @RespellStep.encode (ascii "/") (ascii "pi") 0x36 0x31 6 1 (by decide) rfl rfl (by decide)
  exact ⟨validEncoded, valid,
    (((normalize_canonical_form (ascii "/api")).2 valid).2.2 _ validEncoded (.rel _ _ step)).1⟩

end Ferryman.Core
