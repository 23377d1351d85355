import Ferryman.Lib.Program
import Mathlib.Data.List.Forall2

/-!
# Programs that walk an automaton

An automaton says what a call in a given phase may do next and which phase the
answer leads to. When every call of a crew walks it, an invariant of all of
them is proved from single moves of the automaton.
-/

set_option autoImplicit false

namespace Ferryman

structure Automaton (Effect : Type → Type) (κ : Type) where
  possible : {γ : Type} → Effect γ → γ → Prop
  moves : {γ : Type} → κ → Effect γ → γ → κ → Prop

namespace Program

variable {Effect : Type → Type} {α β κ : Type} {automaton : Automaton Effect κ}

/-- Whatever the possible answers, the program moves as the automaton allows and
ends with a result that fits its phase. -/
def Walks (automaton : Automaton Effect κ) (final : κ → α → Prop) : κ → Program Effect α → Prop
  | phase, done result => final phase result
  | phase, perform effect next =>
      ∀ answer, automaton.possible effect answer →
        ∃ later, automaton.moves phase effect answer later ∧
          (next answer).Walks automaton final later

@[simp] theorem walks_done (final : κ → α → Prop) (phase : κ) (result : α) :
    (done result : Program Effect α).Walks automaton final phase = final phase result := rfl

theorem Walks.bind {middle : κ → α → Prop} {final : κ → β → Prop} {program : Program Effect α}
    {rest : α → Program Effect β} {phase : κ} (first : program.Walks automaton middle phase)
    (later : ∀ phase result, middle phase result → (rest result).Walks automaton final phase) :
    (program >>= rest).Walks automaton final phase := by
  induction program generalizing phase with
  | done result => exact later phase result first
  | perform effect next ih =>
      intro answer possible
      obtain ⟨reached, moved, follows⟩ := first answer possible
      exact ⟨reached, moved, ih answer follows⟩

theorem Walks.mono {final weaker : κ → α → Prop} {program : Program Effect α} {phase : κ}
    (walks : program.Walks automaton final phase)
    (weaken : ∀ phase result, final phase result → weaker phase result) :
    program.Walks automaton weaker phase := by
  induction program generalizing phase with
  | done result => exact weaken phase result walks
  | perform effect next ih =>
      intro answer possible
      obtain ⟨reached, moved, follows⟩ := walks answer possible
      exact ⟨reached, moved, ih answer follows⟩

/-- In a phase that allows everything, every program walks. -/
theorem walks_of_free {final : κ → α → Prop} {phase : κ}
    (free : ∀ {γ : Type} (effect : Effect γ) (answer : γ),
      automaton.moves phase effect answer phase)
    (ends : ∀ result, final phase result) (program : Program Effect α) :
    program.Walks automaton final phase := by
  induction program with
  | done result => exact ends result
  | perform effect next ih => exact fun answer _ => ⟨phase, free effect answer, ih answer⟩

end Program

open Program

/-- One phase for each program. -/
def Crew {Effect : Type → Type} {α κ : Type} (automaton : Automaton Effect κ)
    (final : κ → α → Prop) (phases : List κ) (programs : List (Program Effect α)) : Prop :=
  List.Forall₂ (fun phase program => program.Walks automaton final phase) phases programs

/-- What one phase owes is still owed after a move that passes the debt on. -/
theorem owed_moved {κ : Type} {owes : κ → Prop} {before after : List κ} {phase later : κ}
    (kept : owes phase → owes later) (found : ∃ debtor ∈ before ++ phase :: after, owes debtor) :
    ∃ debtor ∈ before ++ later :: after, owes debtor := by
  obtain ⟨debtor, member, owed⟩ := found
  simp only [List.mem_append, List.mem_cons] at member ⊢
  rcases member with earlier | rfl | behind
  · exact ⟨debtor, .inl earlier, owed⟩
  · exact ⟨later, .inr (.inl rfl), kept owed⟩
  · exact ⟨debtor, .inr (.inr behind), owed⟩

namespace Crew

variable {Effect : Type → Type} {α κ : Type} {automaton : Automaton Effect κ}
  {final : κ → α → Prop} {phases : List κ} {programs : List (Program Effect α)}

theorem started {phase : κ} {program : Program Effect α} (crew : Crew automaton final phases programs)
    (walks : program.Walks automaton final phase) :
    Crew automaton final (phases ++ [phase]) (programs ++ [program]) :=
  List.rel_append crew (.cons walks .nil)

/-- When one program gets an answer, its phase moves and the others stay. -/
theorem advanced {γ : Type} {effect : Effect γ} {next : γ → Program Effect α} {answer : γ}
    {front back : List (Program Effect α)}
    (crew : Crew automaton final phases (front ++ perform effect next :: back))
    (possible : automaton.possible effect answer) :
    ∃ before phase after later, phases = before ++ phase :: after ∧
      automaton.moves phase effect answer later ∧
      Crew automaton final (before ++ later :: after) (front ++ next answer :: back) := by
  have walksFront := List.forall₂_take_append phases front _ crew
  have walksRest := List.forall₂_drop_append phases front _ crew
  obtain ⟨phase, after, walks, walksBack, rest⟩ := List.forall₂_cons_right_iff.mp walksRest
  obtain ⟨later, moved, follows⟩ := walks answer possible
  refine ⟨phases.take front.length, phase, after, later, ?_, moved,
    List.rel_append walksFront (.cons follows walksBack)⟩
  rw [← rest, List.take_append_drop]

theorem finished (crew : Crew automaton final phases programs)
    (all : ∀ program ∈ programs, ∃ result, program = done result) :
    ∀ phase ∈ phases, ∃ result, final phase result := by
  induction crew with
  | nil => simp
  | @cons phase program phases programs walks crew ih =>
      rw [List.forall_mem_cons] at all ⊢
      obtain ⟨⟨result, rfl⟩, rest⟩ := all
      exact ⟨⟨result, walks⟩, ih rest⟩

theorem length_eq (crew : Crew automaton final phases programs) :
    phases.length = programs.length := List.Forall₂.length_eq crew

end Crew

end Ferryman
