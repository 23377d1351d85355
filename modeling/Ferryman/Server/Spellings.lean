import Ferryman.Server.Forwarded

/-!
# Spellings of a header name

A CGI-style backend reads every byte of a name that is not alphanumeric as a
dash. The spelling filter removes exactly the names that such a backend would
take for a trust-governed one although they are not spelled that way.
-/

set_option autoImplicit false

namespace Ferryman.Server

open Byte Bytes

def words (name : Bytes) : List Bytes :=
  (name.splitOnP fun c => !isAlphanumeric c).filter (· ≠ [])

/-- Other bytes read as dashes, runs collapsed and the ends trimmed. -/
def cgiFold (name : Bytes) : Bytes := List.intercalate [dash] (words name)

/-- A backend may take the name for a trust-governed one. -/
def foldsToGoverned (name : HeaderName) : Bool :=
  (trustGoverned.map HeaderName.text).contains (cgiFold name.text)

/-! ## The loop -/

/-- What the loop adds to a non-empty `folded`, inside a word or between two. -/
def foldRest (inside : Bool) : Bytes → Bytes
  | [] => []
  | c :: rest =>
      if isAlphanumeric c then c :: foldRest true rest
      else if inside then dash :: foldRest false rest
      else foldRest false rest

theorem isAlphanumeric_ne_dash {c : UInt8} (alphanumeric : isAlphanumeric c = true) : c ≠ dash := by
  intro same
  subst same
  exact absurd alphanumeric (by decide)

theorem foldSpelling_eq (name folded : Bytes) (inside : Bool)
    (state : inside = (folded ≠ [] && folded.getLast? ≠ some dash)) :
    foldSpelling folded name = folded ++ foldRest inside name := by
  induction name generalizing folded inside with
  | nil => simp [foldSpelling, foldRest]
  | cons c rest ih =>
      cases alphanumeric : isAlphanumeric c with
      | true =>
          have differs := isAlphanumeric_ne_dash alphanumeric
          have later := ih (folded ++ [c]) true (by simp [differs])
          simp [foldSpelling, foldRest, alphanumeric, later]
      | false =>
          cases inside with
          | true =>
              have later := ih (folded ++ [dash]) false (by simp)
              simp only [foldSpelling, foldRest, alphanumeric, ← state, later]
              simp
          | false =>
              have later := ih folded false state
              simp only [foldSpelling, foldRest, alphanumeric, ← state, later]
              simp

theorem rdropWhile_cons (c : UInt8) (rest : Bytes) :
    (c :: rest).rdropWhile (· == dash) =
      if rest.rdropWhile (· == dash) = [] ∧ c = dash then []
      else c :: rest.rdropWhile (· == dash) := by
  rw [← List.singleton_append]
  simp only [List.rdropWhile, List.reverse_append, List.dropWhile_append]
  by_cases dropped : rest.reverse.dropWhile (· == dash) = []
  · by_cases isDash : c = dash <;> simp [dropped, isDash]
  · simp [dropped]

theorem intercalate_eq_nil {pieces : List Bytes} (nonempty : ∀ piece ∈ pieces, piece ≠ []) :
    List.intercalate [dash] pieces = [] ↔ pieces = [] := by
  match pieces with
  | [] => simp
  | [piece] => simpa using nonempty piece (by simp)
  | piece :: next :: pieces => simp [List.intercalate_cons_cons]

theorem intercalate_cons_byte (c : UInt8) (piece : Bytes) (pieces : List Bytes) :
    List.intercalate [dash] ((c :: piece) :: pieces) =
      c :: List.intercalate [dash] (piece :: pieces) := by
  cases pieces <;> simp [List.intercalate_cons_cons]

theorem intercalate_nil_piece {pieces : List Bytes} (nonempty : ∀ piece ∈ pieces, piece ≠ []) :
    List.intercalate [dash] ([] :: pieces) =
      if List.intercalate [dash] pieces = [] then [] else dash :: List.intercalate [dash] pieces := by
  rw [if_congr (intercalate_eq_nil nonempty) rfl rfl]
  cases pieces <;> simp [List.intercalate_cons_cons]

/-- Both states of the loop against the words of the remaining text: inside a
word, its first piece continues that word even when it is empty. -/
theorem rdropWhile_foldRest (name : Bytes) :
    (foldRest false name).rdropWhile (· == dash) = cgiFold name ∧
      ∃ piece pieces, (name.splitOnP fun c => !isAlphanumeric c) = piece :: pieces ∧
        (foldRest true name).rdropWhile (· == dash) =
          List.intercalate [dash] (piece :: pieces.filter (· ≠ [])) := by
  induction name with
  | nil => exact ⟨by simp [foldRest, cgiFold, words], [], [], by simp, by simp [foldRest]⟩
  | cons c rest ih =>
      obtain ⟨between, piece, pieces, split, insideRest⟩ := ih
      cases alphanumeric : isAlphanumeric c with
      | true =>
          have differs := isAlphanumeric_ne_dash alphanumeric
          have splitCons : ((c :: rest).splitOnP fun c => !isAlphanumeric c) =
              (c :: piece) :: pieces := by
            simp [List.splitOnP_cons_eq_if_modifyHead, alphanumeric, split]
          refine ⟨?_, c :: piece, pieces, splitCons, ?_⟩
          · simp only [foldRest, alphanumeric, if_true, rdropWhile_cons, differs, and_false,
              if_false, insideRest, cgiFold, words, splitCons, ← intercalate_cons_byte]
            simp
          · simp only [foldRest, alphanumeric, if_true, rdropWhile_cons, differs, and_false,
              if_false, insideRest, intercalate_cons_byte]
      | false =>
          have splitCons : ((c :: rest).splitOnP fun c => !isAlphanumeric c) =
              [] :: piece :: pieces := by
            simp [List.splitOnP_cons_eq_if_modifyHead, alphanumeric, split]
          have restWords : (piece :: pieces).filter (· ≠ []) = words rest := by
            rw [words, split]
          -- the word ends here: inside it a dash is pushed, which stays unless nothing follows
          refine ⟨?_, [], piece :: pieces, splitCons, ?_⟩
          · simp only [foldRest, alphanumeric, Bool.false_eq_true, if_false, between, cgiFold,
              words, splitCons, split]
            simp
          · have nonempty : ∀ word ∈ words rest, word ≠ [] := fun word member => by
              simpa using (List.mem_filter.mp member).2
            simp only [foldRest, alphanumeric, Bool.false_eq_true, if_false, if_true,
              rdropWhile_cons, between, and_true, restWords, intercalate_nil_piece nonempty]
            rfl

theorem foldSpelling_cgiFold (name : Bytes) :
    (foldSpelling [] name).rdropWhile (· == dash) = cgiFold name := by
  rw [foldSpelling_eq name [] false (by simp), List.nil_append]
  exact (rdropWhile_foldRest name).1

/-! ## Names the filter does not fold -/

def governedTexts : List Bytes := trustGoverned.map HeaderName.text

/-- The condition of the early return. -/
def isPlainSpelling (name : Bytes) : Bool :=
  (name.all fun c => isAlphanumeric c || c == dash) && !startsWith name "-" &&
    name.getLast? ≠ some dash && !containsText name "--"

theorem isNoncanonicalSpelling_eq (name : Bytes) :
    isNoncanonicalSpelling name =
      if isPlainSpelling name then false
      else governedTexts.contains ((foldSpelling [] name).rdropWhile (· == dash)) := rfl

theorem isPlainSpelling_iff {name : Bytes} :
    isPlainSpelling name = true ↔
      name.all (fun c => isAlphanumeric c || c == dash) = true ∧ name.head? ≠ some dash ∧
        name.getLast? ≠ some dash ∧ ¬ascii "--" <:+: name := by
  have starts : startsWith name "-" = true ↔ name.head? = some dash := by
    cases name with
    | nil => simp [startsWith, ascii]
    | cons c rest => simp [startsWith, ascii, List.isPrefixOf, @eq_comm _ dash]
  have noStart : startsWith name "-" = false ↔ name.head? ≠ some dash := by
    rw [← Bool.not_eq_true, starts]
  have noRun : containsText name "--" = false ↔ ¬ascii "--" <:+: name := by
    rw [← Bool.not_eq_true, containsText_iff]
  simp only [isPlainSpelling, Bool.and_eq_true, Bool.not_eq_true', decide_eq_true_eq, noStart,
    noRun, and_assoc]

theorem foldRest_plain {name : Bytes} (inside : Bool)
    (plain : name.all (fun c => isAlphanumeric c || c == dash) = true)
    (noRun : ¬ascii "--" <:+: name) (starts : inside = false → name.head? ≠ some dash) :
    foldRest inside name = name := by
  induction name generalizing inside with
  | nil => rfl
  | cons c rest ih =>
      rw [List.all_cons, Bool.and_eq_true] at plain
      have noRunRest : ¬ascii "--" <:+: rest := fun found =>
        noRun (found.trans (List.suffix_cons c rest).isInfix)
      cases alphanumeric : isAlphanumeric c with
      | true => simp [foldRest, alphanumeric, ih true plain.2 noRunRest (by simp)]
      | false =>
          have isDash : c = dash := by simpa [alphanumeric] using plain.1
          have isInside : inside = true := by
            cases inside with
            | true => rfl
            | false => exact absurd (by simp [isDash]) (starts rfl)
          have restStarts : rest.head? ≠ some dash := by
            cases rest with
            | nil => simp
            | cons next rest =>
                intro same
                cases same
                exact noRun ⟨[], rest, by rw [isDash]; rfl⟩
          have later := ih false plain.2 noRunRest fun _ => restStarts
          simp only [foldRest, alphanumeric, isInside, later]
          simp [isDash]

theorem cgiFold_plain {name : Bytes}
    (plain : name.all (fun c => isAlphanumeric c || c == dash) = true)
    (starts : name.head? ≠ some dash) (ends : name.getLast? ≠ some dash)
    (noRun : ¬ascii "--" <:+: name) : cgiFold name = name := by
  rw [← (rdropWhile_foldRest name).1, foldRest_plain false plain noRun fun _ => starts]
  rw [List.rdropWhile_eq_self_iff]
  intro nonempty isDash
  exact ends (by rw [List.getLast?_eq_some_getLast nonempty]; simpa using isDash)

/-- The filter drops a name iff a backend would read a governed name in it and
it is not that name itself. -/
theorem isNoncanonicalSpelling_iff (name : HeaderName) :
    isNoncanonicalSpelling name.text = true ↔
      foldsToGoverned name = true ∧ name ∉ trustGoverned := by
  have canonical : ∀ governed ∈ trustGoverned, isNoncanonicalSpelling governed.text = false := by
    decide +kernel
  constructor
  · intro dropped
    refine ⟨?_, fun isGoverned => absurd dropped (by simp [canonical name isGoverned])⟩
    rw [isNoncanonicalSpelling_eq] at dropped
    split at dropped
    · cases dropped
    · rwa [foldSpelling_cgiFold] at dropped
  · intro given
    obtain ⟨folds, notGoverned⟩ := given
    rw [isNoncanonicalSpelling_eq]
    split
    · next early =>
      obtain ⟨plain, starts, ends, noRun⟩ := isPlainSpelling_iff.mp early
      rw [foldsToGoverned, cgiFold_plain plain starts ends noRun] at folds
      obtain ⟨governed, isGoverned, same⟩ := List.mem_map.mp (List.contains_iff_mem.mp folds)
      exact absurd (HeaderName.ext same ▸ isGoverned) notGoverned
    · rwa [foldSpelling_cgiFold]

end Ferryman.Server
