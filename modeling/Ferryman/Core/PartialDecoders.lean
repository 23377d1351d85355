import Ferryman.Core.AmbiguityProperties
import Ferryman.Core.ConfigProperties
import Ferryman.Core.NormalForm
import Ferryman.Core.PathReadings

/-!
# Partial decoders

An upstream may read any selection of the encoded separators as `/`. Reading one
more of them can only add matching prefixes, so every partial reading lies
between the received path and the fully flattened one, which `ambiguousRoute`
compares.
-/

set_option autoImplicit false

namespace Ferryman.Core

open Byte Bytes

/-! ## Matching prefixes -/

theorem prefixMatches_iff {pathPrefix path : Bytes} :
    prefixMatches pathPrefix path = true ↔
      ∃ rest, path = pathPrefix ++ rest ∧
        (pathPrefix.getLast? = some slash ∨ rest = [] ∨ rest.head? = some slash) := by
  unfold prefixMatches
  by_cases isPrefix : pathPrefix <+: path
  · obtain ⟨rest, rfl⟩ := isPrefix
    have found : pathPrefix.isPrefixOf (pathPrefix ++ rest) = true :=
      List.isPrefixOf_iff_prefix.mpr (List.prefix_append _ _)
    by_cases open_ : pathPrefix.getLast? = some slash
    · simp [open_]
    · cases rest <;> simp [open_, found]
  · have absent : pathPrefix.isPrefixOf path = false := by
      rw [← Bool.not_eq_true, List.isPrefixOf_iff_prefix]
      exact isPrefix
    simp only [absent, Bool.not_false, if_true, ite_self, Bool.false_eq_true, false_iff, not_exists,
      not_and]
    intro rest same
    subst same
    exact absurd (List.prefix_append _ _) isPrefix

def separatorForms : List Bytes := ["\\", "%2F", "%5C"].map ascii

theorem mem_separatorForms {form : Bytes} :
    form ∈ separatorForms ↔
      form = [backslash] ∨ form = [percent, 0x32, 0x46] ∨ form = [percent, 0x35, 0x43] := by
  have spelled : separatorForms =
      [[backslash], [percent, 0x32, 0x46], [percent, 0x35, 0x43]] := by decide
  rw [spelled]
  simp

private theorem plainDigits {high low : UInt8} {right : Bytes}
    (plainHigh : high ≠ slash ∧ high ≠ percent) (plainLow : low ≠ slash ∧ low ≠ percent) :
    normalizeLoop (high :: low :: right) = high :: low :: normalizeLoop right := by
  rw [normalizeLoop_plain _ plainHigh.1 plainHigh.2, normalizeLoop_plain _ plainLow.1 plainLow.2]

theorem normalizeLoop_separator {token : Bytes} (isSeparator : token ∈ encodedSeparators)
    (right : Bytes) :
    ∃ form ∈ separatorForms, normalizeLoop (token ++ right) = form ++ normalizeLoop right := by
  simp only [mem_separatorForms]
  rw [mem_encodedSeparators] at isSeparator
  rcases isSeparator with rfl | rfl | rfl | rfl | rfl
  · exact ⟨_, .inl rfl, normalizeLoop_plain right (by decide) (by decide)⟩
  · refine ⟨_, .inr (.inl rfl), ?_⟩
    exact (normalizeLoop_copy rfl).trans (congrArg _ (plainDigits (by decide) (by decide)))
  · have rewritten : rewriteAt (percent :: 0x32 :: 0x66 :: right) =
        some (3, [percent, 0x32, 0x46]) := rfl
    exact ⟨_, .inr (.inl rfl), normalizeLoop_rewrite rewritten⟩
  · refine ⟨_, .inr (.inr rfl), ?_⟩
    exact (normalizeLoop_copy rfl).trans (congrArg _ (plainDigits (by decide) (by decide)))
  · have rewritten : rewriteAt (percent :: 0x35 :: 0x63 :: right) =
        some (3, [percent, 0x35, 0x43]) := rfl
    exact ⟨_, .inr (.inr rfl), normalizeLoop_rewrite rewritten⟩

theorem CanonicalPrefix.separatorForm_not_infix {pathPrefix form : Bytes}
    (canonical : CanonicalPrefix pathPrefix) (isForm : form ∈ separatorForms) :
    ¬form <:+: pathPrefix := by
  intro inside
  have upper := inside.map toUpper
  rcases mem_separatorForms.mp isForm with rfl | rfl | rfl
  · exact canonical.noBackslash (inside.subset List.mem_cons_self)
  · have found := containsText_iff.mpr (show ascii "%2F" <:+: _ from upper)
    simp [canonical.noEncodedSlash] at found
  · have found := containsText_iff.mpr (show ascii "%5C" <:+: _ from upper)
    simp [canonical.noEncodedBackslash] at found

private theorem separatorForm_inside {form part rest : Bytes} (isForm : form ∈ separatorForms)
    (isPart : form = part ++ rest) :
    part.getLast? ≠ some slash ∧ rest.head? ≠ some slash := by
  have noSlash : slash ∉ form := by
    rcases mem_separatorForms.mp isForm with rfl | rfl | rfl <;> decide
  subst isPart
  refine ⟨fun last => noSlash ?_, fun head => noSlash ?_⟩
  · exact List.mem_append_left _ (List.mem_of_getLast? last)
  · exact List.mem_append_right _ (List.mem_of_head? head)

/-- A canonical prefix that matches in front of a separator ends before it. -/
theorem CanonicalPrefix.matches_before {pathPrefix front form back other : Bytes}
    (canonical : CanonicalPrefix pathPrefix) (isForm : form ∈ separatorForms)
    (found : prefixMatches pathPrefix (front ++ (form ++ back)) = true)
    (kept : front <+: other) : prefixMatches pathPrefix other = true := by
  obtain ⟨rest, split, boundary⟩ := prefixMatches_iff.mp found
  obtain ⟨more, rfl⟩ := kept
  obtain ⟨first, others, rfl⟩ : ∃ first others, form = first :: others := by
    rcases mem_separatorForms.mp isForm with rfl | rfl | rfl <;> exact ⟨_, _, rfl⟩
  have notSlash : first ≠ slash := by
    simpa using (separatorForm_inside isForm (List.nil_append _).symm).2
  -- the prefix ends before the separator
  have endsBefore : ∃ gap, front = pathPrefix ++ gap ∧ rest = gap ++ (first :: others ++ back) := by
    rcases List.append_eq_append_iff.mp split with ⟨inner, isPrefix, straddles⟩ | inFront
    · cases inner with
      | nil => exact ⟨[], by simp [isPrefix], by simpa using straddles.symm⟩
      | cons next inner =>
          exfalso
          rcases List.append_eq_append_iff.mp straddles with ⟨gap, contains, -⟩ | ⟨gap, cut, rfl⟩
          · refine canonical.separatorForm_not_infix isForm ⟨front, gap, ?_⟩
            rw [isPrefix, contains, List.append_assoc]
          · obtain ⟨notLast, notHead⟩ := separatorForm_inside isForm cut
            cases gap with
            | nil =>
                refine canonical.separatorForm_not_infix isForm ⟨front, [], ?_⟩
                rw [isPrefix, cut]
                simp
            | cons byte gap =>
                rw [isPrefix] at boundary
                simp_all
    · exact inFront
  obtain ⟨gap, rfl, rfl⟩ := endsBefore
  refine prefixMatches_iff.mpr ⟨gap ++ more, List.append_assoc _ _ _, ?_⟩
  rcases boundary with last | empty | head
  · exact .inl last
  · simp at empty
  · cases gap with
    | nil => exact absurd (by simpa using head) notSlash
    | cons byte gap => exact .inr (.inr (by simpa using head))

/-! ## One separator read as a slash -/

inductive FlattenStep : Bytes → Bytes → Prop where
  | read (left token right : Bytes) :
      token ∈ encodedSeparators → FlattenStep (left ++ (token ++ right)) (left ++ slash :: right)

theorem FlattenStep.append_left {source target : Bytes} (step : FlattenStep source target)
    (front : Bytes) : FlattenStep (front ++ source) (front ++ target) := by
  obtain ⟨left, token, right, isSeparator⟩ := step
  rw [← List.append_assoc front left, ← List.append_assoc front left]
  exact .read _ token right isSeparator

theorem FlattenStep.keeps {source target : Bytes} (step : FlattenStep source target)
    (valid : EscapesValid source) :
    EscapesValid target ∧ ∀ pathPrefix, CanonicalPrefix pathPrefix →
      prefixMatches pathPrefix (normalize source) = true →
        prefixMatches pathPrefix (normalize target) = true := by
  obtain ⟨left, token, right, isSeparator⟩ := step
  obtain ⟨first, others, rfl, notHex, notSlash⟩ : ∃ first others, token = first :: others ∧
      isHexDigit first = false ∧ first ≠ slash := by
    rw [mem_encodedSeparators] at isSeparator
    rcases isSeparator with rfl | rfl | rfl | rfl | rfl <;> exact ⟨_, _, rfl, by decide, by decide⟩
  have cut : ∀ byte ∈ (first :: others ++ right).head?, isHexDigit byte = false := by
    simpa using notHex
  obtain ⟨validLeft, validToken⟩ := (escapesValid_append cut).mp valid
  have validRight : EscapesValid right := by
    simpa using validToken.drop (first :: others).length
  refine ⟨(escapesValid_append (by simp; decide)).mpr ⟨validLeft, ?_, validRight⟩, ?_⟩
  · intro isPercent
    exact absurd isPercent (by decide)
  · intro pathPrefix canonical found
    obtain ⟨form, isForm, split⟩ := normalizeLoop_separator isSeparator right
    rw [normalize_eq_loop, normalizeLoop_append validLeft (by simpa using notSlash), split] at found
    rw [normalize_eq_loop]
    exact canonical.matches_before isForm found (normalizeLoop_keeps_front validLeft right)

theorem flattenSteps_keep {source target : Bytes}
    (steps : Relation.ReflTransGen FlattenStep source target) (valid : EscapesValid source) :
    EscapesValid target ∧ ∀ pathPrefix, CanonicalPrefix pathPrefix →
      prefixMatches pathPrefix (normalize source) = true →
        prefixMatches pathPrefix (normalize target) = true := by
  induction steps with
  | refl => exact ⟨valid, fun _ _ found => found⟩
  | tail _ step ih =>
      obtain ⟨validMiddle, keptFirst⟩ := ih
      obtain ⟨validTarget, keptLast⟩ := step.keeps validMiddle
      exact ⟨validTarget, fun pathPrefix canonical found =>
        keptLast pathPrefix canonical (keptFirst pathPrefix canonical found)⟩

/-! ## Selections of separators -/

def encodedWidth (b : Bytes) : Nat :=
  if startsWith b "\\" then 1
  else if startsWith b "%2f" || startsWith b "%2F" ||
      startsWith b "%5c" || startsWith b "%5C" then 3
  else 0

/-- Read as `/` exactly the encoded separators that start at a chosen position;
`b` starts at position `index`. -/
def flattenChosen (chosen : Nat → Bool) (index : Nat) (b : Bytes) : Bytes :=
  match b with
  | [] => []
  | c :: rest =>
      match encodedWidth (c :: rest) with
      | skipped + 1 =>
          (if chosen index then [slash] else c :: rest.take skipped) ++
            flattenChosen chosen (index + skipped + 1) (rest.drop skipped)
      | 0 => c :: flattenChosen chosen (index + 1) rest
termination_by b.length
decreasing_by all_goals (simp only [List.length_cons, List.length_drop]; omega)

theorem encodedWidth_separator {c : UInt8} {rest : Bytes} {skipped : Nat}
    (found : encodedWidth (c :: rest) = skipped + 1) :
    c :: rest.take skipped ∈ encodedSeparators := by
  unfold encodedWidth at found
  have taken : ∀ {literal : String}, startsWith (c :: rest) literal = true →
      (ascii literal).length = skipped + 1 → c :: rest.take skipped = ascii literal := by
    intro literal isPrefix length
    obtain ⟨tail, split⟩ := startsWith_iff.mp isPrefix
    have cut := congrArg (List.take (skipped + 1)) split
    rw [← length, List.take_left, length, List.take_succ_cons] at cut
    exact cut.symm
  split at found
  · next isBackslash =>
    obtain rfl : skipped = 0 := by omega
    rw [taken isBackslash rfl]
    decide
  · split at found
    · next isEscape =>
      obtain rfl : skipped = 2 := by omega
      simp only [Bool.or_eq_true] at isEscape
      rcases isEscape with ((isEscape | isEscape) | isEscape) | isEscape <;>
        rw [taken isEscape rfl] <;> decide
    · omega

theorem flattenChosen_steps {fewer more : Nat → Bool} (index : Nat) (b : Bytes)
    (included : ∀ position, fewer position = true → more position = true) :
    Relation.ReflTransGen FlattenStep (flattenChosen fewer index b)
      (flattenChosen more index b) := by
  have within : ∀ (front : Bytes) {source target : Bytes},
      Relation.ReflTransGen FlattenStep source target →
      Relation.ReflTransGen FlattenStep (front ++ source) (front ++ target) := fun front _ _ steps =>
    steps.lift (front ++ ·) fun _ _ step => step.append_left front
  fun_induction flattenChosen fewer index b with
  | case1 index => rw [flattenChosen]
  | case2 index c rest skipped found ih =>
      have later := within (if more index then [slash] else c :: rest.take skipped) ih
      conv => rhs; rw [flattenChosen]
      simp only [found]
      refine Relation.ReflTransGen.trans ?_ later
      cases now : fewer index with
      | true =>
          rw [included index now]
      | false =>
          cases added : more index with
          | false => rfl
          | true =>
              have step := FlattenStep.read [] _ (flattenChosen fewer (index + skipped + 1)
                (rest.drop skipped)) (encodedWidth_separator found)
              exact .single (by simpa using step)
  | case3 index c rest plain ih =>
      have later := within [c] ih
      conv => rhs; rw [flattenChosen]
      simpa only [plain, List.singleton_append] using later

theorem flattenChosen_none (index : Nat) (b : Bytes) :
    flattenChosen (fun _ => false) index b = b := by
  fun_induction flattenChosen (fun _ => false) index b with
  | case1 index => rfl
  | case2 index c rest skipped found ih => simp [ih]
  | case3 index c rest plain ih => rw [ih]

/-! ## What the scan of `badPath` has excluded -/

theorem refusedEscape_percent {b : Bytes} (refused : refusedEscape b = true) :
    b.head? = some percent := by
  simp only [refusedEscape, Bool.or_eq_true, startsWith_iff] at refused
  have starts : ∀ {literal : String}, ascii literal <+: b → (ascii literal).head? = some percent →
      b.head? = some percent := by
    intro literal isPrefix head
    obtain ⟨tail, rfl⟩ := isPrefix
    rw [List.head?_append, head]
    rfl
  rcases refused with (((((((found | found) | found) | found) | found) | found) | found) | found) |
    found <;> exact starts found rfl

theorem separatorWidth_cases {c : UInt8} {rest : Bytes} {skipped : Nat}
    (found : separatorWidth (c :: rest) = skipped + 1) :
    c :: rest.take skipped = [slash] ∨ c :: rest.take skipped ∈ encodedSeparators := by
  by_cases isSlash : c = slash
  · subst isSlash
    have one : separatorWidth (slash :: rest) = 1 := by
      simp [separatorWidth, startsWith, ascii, List.isPrefixOf, slash]
    obtain rfl : skipped = 0 := by omega
    exact .inl rfl
  · refine .inr (encodedWidth_separator ?_)
    have notSlash : startsWith (c :: rest) "/" = false := by
      simp [startsWith, ascii, List.isPrefixOf, Ne.symm isSlash]
    rw [← found]
    simp [separatorWidth, encodedWidth, notSlash]

private theorem refused_after_separator {token tail suffix : Bytes}
    (isSeparator : token = [slash] ∨ token ∈ encodedSeparators) (isSuffix : suffix <:+ token ++ tail)
    (refused : refusedEscape suffix = true) : suffix <:+ tail := by
  have isPercent := refusedEscape_percent refused
  rw [mem_encodedSeparators] at isSeparator
  rcases isSeparator with rfl | rfl | rfl | rfl | rfl | rfl
  · cases List.suffix_cons_iff.mp isSuffix with
    | inl same =>
        subst same
        exact absurd isPercent (by simp; decide)
    | inr inTail => exact inTail
  · cases List.suffix_cons_iff.mp isSuffix with
    | inl same =>
        subst same
        exact absurd isPercent (by simp; decide)
    | inr inTail => exact inTail
  all_goals
    cases List.suffix_cons_iff.mp isSuffix with
    | inl same =>
        subst same
        simp [refusedEscape, startsWith, ascii, List.isPrefixOf, percent] at refused
    | inr afterPercent =>
        cases List.suffix_cons_iff.mp afterPercent with
        | inl same =>
            subst same
            exact absurd isPercent (by simp; decide)
        | inr afterHigh =>
            cases List.suffix_cons_iff.mp afterHigh with
            | inl same =>
                subst same
                exact absurd isPercent (by simp; decide)
            | inr inTail => exact inTail

theorem badPathLoop_refused {piece b suffix : Bytes} (accepted : badPathLoop piece b = false)
    (isSuffix : suffix <:+ b) : refusedEscape suffix = false := by
  fun_induction badPathLoop piece b with
  | case1 piece =>
      rw [List.suffix_nil.mp isSuffix]
      decide
  | case2 piece c rest skipped found ih =>
      rw [Bool.or_eq_false_iff] at accepted
      by_contra refused
      rw [Bool.not_eq_false] at refused
      have split : c :: rest = (c :: rest.take skipped) ++ rest.drop skipped := by simp
      rw [split] at isSuffix
      have inTail := refused_after_separator (separatorWidth_cases found) isSuffix refused
      exact absurd refused (by simp [ih accepted.2 inTail])
  | case3 piece c rest plain ih =>
      rw [Bool.or_eq_false_iff] at accepted
      cases List.suffix_cons_iff.mp isSuffix with
      | inl same =>
          subst same
          exact accepted.1
      | inr inRest => exact ih accepted.2 inRest

/-! ## Against `flatten` and `suspicious` -/

theorem encodedWidth_cons (c : UInt8) (rest : Bytes) :
    encodedWidth (c :: rest) =
      if c == backslash then 1 else if c == percent && separatorDigits rest then 3 else 0 := by
  have escape : (startsWith (c :: rest) "%2f" || startsWith (c :: rest) "%2F" ||
      startsWith (c :: rest) "%5c" || startsWith (c :: rest) "%5C") =
        (c == percent && separatorDigits rest) := by
    match rest with
    | [] => simp [startsWith, ascii, List.isPrefixOf, separatorDigits]
    | [high] => simp [startsWith, ascii, List.isPrefixOf, separatorDigits]
    | high :: low :: tail =>
        rw [Bool.eq_iff_iff]
        simp only [startsWith, ascii, separatorDigits, Bool.or_eq_true, Bool.and_eq_true,
          beq_iff_eq]
        grind
  have single : startsWith (c :: rest) "\\" = (c == backslash) := by
    simp [startsWith, ascii, List.isPrefixOf, backslash, eq_comm]
  rw [encodedWidth, escape, single]

theorem refusedEscape_double {rest : Bytes} (double : doubleSeparatorDigits rest = true) :
    refusedEscape (percent :: rest) = true := by
  match rest with
  | two :: five :: high :: low :: tail =>
      simp only [doubleSeparatorDigits, separatorDigits, Bool.or_eq_true, Bool.and_eq_true,
        beq_iff_eq] at double
      obtain ⟨⟨rfl, rfl⟩, ⟨rfl, rfl | rfl⟩ | ⟨rfl, rfl | rfl⟩⟩ := double <;>
        simp [refusedEscape, startsWith, ascii, List.isPrefixOf, percent]
  | [] | [_] | [_, _] | [_, _, _] => simp [doubleSeparatorDigits, separatorDigits] at double

theorem flattenWidth_eq {c : UInt8} {rest : Bytes} (notRefused : refusedEscape (c :: rest) = false) :
    flattenWidth (c :: rest) = encodedWidth (c :: rest) := by
  rw [encodedWidth_cons, flattenWidth]
  by_cases isPercent : c = percent
  · subst isPercent
    have notDouble : doubleSeparatorDigits rest = false := by
      by_contra double
      simp [refusedEscape_double (Bool.eq_true_of_not_eq_false double)] at notRefused
    have notBackslash : percent ≠ backslash := by decide
    simp [notDouble, notBackslash]
  · simp [isPercent]

/-- Where nothing is doubly encoded, `flatten` reads every encoded separator. -/
theorem flattenChosen_all {b : Bytes} (index : Nat)
    (notRefused : ∀ suffix, suffix <:+ b → refusedEscape suffix = false) :
    flattenChosen (fun _ => true) index b = flatten b := by
  fun_induction flattenChosen (fun _ => true) index b with
  | case1 index => rw [flatten]
  | case2 index c rest skipped found ih =>
      have later := ih fun suffix isSuffix => notRefused suffix
        (isSuffix.trans ((List.drop_suffix _ _).trans (List.suffix_cons c rest)))
      rw [flatten, flattenWidth_eq (notRefused _ (List.suffix_refl _)), found, later]
      rfl
  | case3 index c rest plain ih =>
      have later := ih fun suffix isSuffix => notRefused suffix
        (isSuffix.trans (List.suffix_cons c rest))
      rw [flatten, flattenWidth_eq (notRefused _ (List.suffix_refl _)), plain, later]

theorem encodedWidth_of_not_suspicious {c : UInt8} {rest : Bytes}
    (plain : suspiciousAt (c :: rest) = false) : encodedWidth (c :: rest) = 0 := by
  simp only [suspiciousAt, Bool.or_eq_false_iff, Bool.and_eq_false_iff] at plain
  rw [encodedWidth_cons]
  rcases plain with ⟨⟨notBackslash, -⟩, notPercent | ⟨notDigits, -⟩⟩ <;> simp [*]

theorem flattenChosen_of_not_suspicious {b : Bytes} (chosen : Nat → Bool) (index : Nat)
    (plain : suspicious b = false) : flattenChosen chosen index b = b := by
  induction b generalizing index with
  | nil => rw [flattenChosen]
  | cons c rest ih =>
      simp only [suspicious, List.tails, List.any_cons, Bool.or_eq_false_iff] at plain
      rw [flattenChosen, encodedWidth_of_not_suspicious plain.1]
      simp only []
      rw [ih (index + 1) plain.2]

/-! ## Every partial reading selects the same route -/

theorem find?_between {α β : Type} {key : α → β} {all : List α} {small middle large : α → Bool}
    (distinct : (all.map key).Nodup)
    (lower : ∀ entry ∈ all, small entry = true → middle entry = true)
    (upper : ∀ entry ∈ all, middle entry = true → large entry = true)
    (same : (all.find? large).map key = (all.find? small).map key) :
    all.find? middle = all.find? small := by
  induction all with
  | nil => rfl
  | cons entry all ih =>
      rw [List.map_cons, List.nodup_cons] at distinct
      cases inSmall : small entry with
      | true =>
          have inMiddle := lower entry List.mem_cons_self inSmall
          simp [inSmall, inMiddle]
      | false =>
          have notLarge : large entry = false := by
            by_contra inLarge
            rw [Bool.not_eq_false] at inLarge
            simp only [List.find?_cons, inLarge, inSmall, Option.map_some] at same
            obtain ⟨other, found, sameKey⟩ := Option.map_eq_some_iff.mp same.symm
            exact distinct.1 (List.mem_map.mpr ⟨other, List.mem_of_find?_eq_some found, sameKey⟩)
          have notMiddle : middle entry = false := by
            by_contra inMiddle
            rw [Bool.not_eq_false] at inMiddle
            simp [upper entry List.mem_cons_self inMiddle] at notLarge
          simp only [List.find?_cons, notLarge, inSmall, notMiddle] at same ⊢
          exact ih distinct.2
            (fun other member => lower other (List.mem_cons_of_mem _ member))
            (fun other member => upper other (List.mem_cons_of_mem _ member)) same

/-- An upstream that reads any selection of the encoded separators as `/` gets
the request of the route that was looked up. -/
theorem partial_decoders_select_same_route {http : Http} {cfg : ConfigToml}
    {prev : Option RouteTable} {heap : Heap} {table : RouteTable} {raw : Bytes}
    (built : (buildTable http cfg prev heap).1 = .ok table)
    (valid : EscapesValid raw)
    (accepted : badPathNormalized raw = false)
    (unambiguous : ambiguousRoute table raw = false)
    (chosen : Nat → Bool) :
    table.lookup (flattenChosen chosen 0 raw) = table.lookup raw := by
  by_cases plain : suspicious raw = false
  · rw [flattenChosen_of_not_suspicious chosen 0 plain]
  · rw [Bool.not_eq_false] at plain
    obtain ⟨canonical, distinct⟩ := buildTable_prefixes built
    have scanned : badPath raw = false := (Bool.or_eq_false_iff.mp accepted).1
    have flattened : flattenChosen (fun _ => true) 0 raw = flatten raw :=
      flattenChosen_all 0 fun suffix isSuffix => badPathLoop_refused scanned isSuffix
    have same : pick table (flatten raw) = pick table raw := by
      simp only [ambiguousRoute, plain, Bool.true_or, Bool.not_true, Bool.false_eq_true, if_false,
        List.any_cons, List.any_nil, Bool.or_false, readings, Bool.or_eq_false_iff,
        bne_eq_false_iff_eq] at unambiguous
      exact unambiguous.1.1
    -- the received path, the partial reading and the full one are nested
    have fromRaw := flattenChosen_steps 0 raw fun position
      (never : (fun _ => false : Nat → Bool) position = true) =>
        show chosen position = true from absurd never Bool.false_ne_true
    have toFlat := flattenChosen_steps 0 raw fun position (_ : chosen position = true) =>
      show (fun _ => true : Nat → Bool) position = true from rfl
    rw [flattenChosen_none] at fromRaw
    rw [flattened] at toFlat
    obtain ⟨validChosen, lower⟩ := flattenSteps_keep fromRaw valid
    obtain ⟨-, upper⟩ := flattenSteps_keep toFlat validChosen
    exact find?_between distinct
      (fun route member => lower _ (canonical route member))
      (fun route member => upper _ (canonical route member)) same

theorem chosen_separator_keeps_route :
    ∃ table, (buildTable plainHttp apiConfig none {}).1 = .ok table ∧
      table.lookup (ascii "/api/x/y\\z") = table.lookup (ascii "/api/x%2fy\\z") := by
  refine ⟨apiTable, by decide +kernel, ?_⟩
  have chosen : flattenChosen (· == 6) 0 (ascii "/api/x%2fy\\z") = ascii "/api/x/y\\z" := by
    decide +kernel
  rw [← chosen]
  have built : (buildTable plainHttp apiConfig none {}).1 = .ok apiTable := by decide +kernel
  exact partial_decoders_select_same_route built (by decide +kernel) (by decide +kernel)
    (by decide +kernel) _

end Ferryman.Core
