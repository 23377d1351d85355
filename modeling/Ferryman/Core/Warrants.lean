import Ferryman.Core.RaceSteps

/-!
# What it takes to open a circuit

An operation opens a closed circuit, or refuses a request, only when it has seen
that enough failures were counted. This holds for each operation by itself,
whatever others do between its steps.
-/

set_option autoImplicit false

namespace Ferryman.Core

open Program Breaker

/-- What a call knows of the failures on its breaker. -/
inductive Warrant where
  /-- It may not count one. -/
  | calm
  | fresh
  /-- It counted one, and that made it this many in a row. -/
  | counted (failures : Nat)
  | earned
deriving DecidableEq

/-- Neither counts a failure nor opens a closed circuit. -/
def Harmless : {γ : Type} → Atomic γ → Prop
  | _, .casState expected _ => expected ≠ .closed
  | _, .swapState new => new = .closed
  | _, .storeFailures count => count = 0
  | _, .fetchAddFailures | _, .storeThreshold _ | _, .storeCooldown _ => False
  | _, _ => True

inductive WarrantMove (limit : Nat) : {γ : Type} → Warrant → Atomic γ → γ → Warrant → Prop
  | harmless {γ : Type} {effect : Atomic γ} (warrant : Warrant) (answer : γ) : Harmless effect →
      WarrantMove limit warrant effect answer warrant
  | trouble (warrant : Warrant) {state : CircuitState} : state ≠ .closed →
      WarrantMove limit warrant .loadState state .earned
  | counted (failures : Nat) :
      WarrantMove limit .fresh .fetchAddFailures failures (.counted ((failures + 1) % 2 ^ 32))
  | reached {failures : Nat} (threshold : Nat) : limit ≤ failures →
      WarrantMove limit (.counted failures) .loadThreshold threshold .earned
  | opened (ok : Bool) : WarrantMove limit .earned (.casState .closed .open) ok .earned

/-- No config has a threshold below the limit. -/
def thresholdAnswers (limit : Nat) : {γ : Type} → Atomic γ → γ → Prop
  | _, .loadThreshold, threshold => limit ≤ threshold
  | _, _, _ => True

def warrantAutomaton (limit : Nat) : Automaton Atomic Warrant where
  possible := thresholdAnswers limit
  moves := WarrantMove limit

/-! ## Harmless operations -/

section Walks

variable {limit : Nat} {warrant : Warrant}

def Keeps {α : Type} (warrant later : Warrant) (_ : α) : Prop := later = warrant

theorem keeps_perform {α γ : Type} {effect : Atomic γ} {next : γ → Program Atomic α}
    (harmless : Harmless effect)
    (later : ∀ answer, (next answer).Walks (warrantAutomaton limit) (Keeps warrant) warrant) :
    (perform effect next).Walks (warrantAutomaton limit) (Keeps warrant) warrant :=
  fun answer _ => ⟨_, .harmless warrant answer harmless, later answer⟩

theorem keeps_lift {γ : Type} {effect : Atomic γ} (harmless : Harmless effect) :
    (lift effect).Walks (warrantAutomaton limit) (Keeps warrant) warrant :=
  keeps_perform harmless fun _ => rfl

theorem keeps_bind {α β : Type} {program : Program Atomic α} {rest : α → Program Atomic β}
    (first : program.Walks (warrantAutomaton limit) (Keeps warrant) warrant)
    (later : ∀ answer, (rest answer).Walks (warrantAutomaton limit) (Keeps warrant) warrant) :
    (program >>= rest).Walks (warrantAutomaton limit) (Keeps warrant) warrant :=
  first.bind fun _ result same => same ▸ later result

theorem keeps_ite {α : Type} {condition : Prop} [Decidable condition] {yes no : Program Atomic α}
    (first : yes.Walks (warrantAutomaton limit) (Keeps warrant) warrant)
    (second : no.Walks (warrantAutomaton limit) (Keeps warrant) warrant) :
    (if condition then yes else no).Walks (warrantAutomaton limit) (Keeps warrant) warrant := by
  split
  · exact first
  · exact second

variable (publishes : Bool)

theorem setGauges_keeps :
    (setGauges publishes).Walks (warrantAutomaton limit) (Keeps warrant) warrant := by
  simp only [setGauges, lift_bind]
  refine keeps_ite ?_ rfl
  refine keeps_perform trivial fun state => ?_
  exact keeps_perform trivial fun _ => keeps_lift trivial

theorem transition_keeps {source : CircuitState} (target : CircuitState)
    (isOpen : source ≠ .closed) :
    (transition publishes source target).Walks (warrantAutomaton limit) (Keeps warrant) warrant := by
  simp only [transition, lift_bind]
  refine keeps_perform isOpen fun ok => keeps_ite ?_ rfl
  exact keeps_bind (setGauges_keeps publishes) fun _ => rfl

theorem claimProbeSlot_keeps :
    claimProbeSlot.Walks (warrantAutomaton limit) (Keeps warrant) warrant := by
  simp only [claimProbeSlot, lift_bind]
  refine keeps_perform trivial fun openedAt => ?_
  refine keeps_perform trivial fun now => ?_
  refine keeps_perform trivial fun cooldown => ?_
  exact keeps_ite rfl (keeps_lift trivial)

theorem release_keeps (admission : Admission) :
    (release admission).Walks (warrantAutomaton limit) (Keeps warrant) warrant := by
  simp only [release, lift_bind]
  refine keeps_ite rfl ?_
  refine keeps_perform trivial fun cooldown => ?_
  refine keeps_perform trivial fun now => ?_
  refine keeps_perform trivial fun stamp => ?_
  refine keeps_perform trivial fun state => keeps_ite rfl ?_
  refine keeps_perform trivial fun last => keeps_ite rfl ?_
  refine keeps_perform trivial fun rearmed => keeps_ite rfl ?_
  exact keeps_perform trivial fun _ => rfl

theorem recordSuccess_keeps (admission : Admission) :
    (recordSuccess publishes admission).Walks (warrantAutomaton limit) (Keeps warrant) warrant := by
  simp only [recordSuccess, lift_bind]
  cases admission with
  | normal => exact keeps_perform trivial fun state => keeps_ite (keeps_lift rfl) rfl
  | probe =>
      refine keeps_perform trivial fun state => keeps_ite rfl ?_
      refine keeps_perform rfl fun _ => ?_
      exact keeps_perform rfl fun previous => keeps_ite (setGauges_keeps publishes) rfl

/-! ## Operations that judge -/

/-- A refusal shows that the circuit was not closed. -/
def Refuses (warrant : Warrant) (ticket : Option Admission) : Prop :=
  ticket = none → warrant = .earned

def Anyway {α : Type} (_ : Warrant) (_ : α) : Prop := True

theorem tryAcquire_refuses :
    (tryAcquire publishes).Walks (warrantAutomaton limit) Refuses .calm := by
  simp only [tryAcquire, lift_bind]
  intro state _
  cases state with
  | closed => exact ⟨_, .harmless _ _ trivial, fun refused => by cases refused⟩
  | «open» =>
      refine ⟨_, .trouble _ (by decide), ?_⟩
      refine claimProbeSlot_keeps.bind fun warrant claimed same => ?_
      subst same
      cases claimed with
      | false => exact fun _ => rfl
      | true =>
          refine (transition_keeps publishes .halfOpen (by decide)).bind fun warrant moved same => ?_
          subst same
          cases moved <;> exact fun _ => rfl
  | halfOpen =>
      refine ⟨_, .trouble _ (by decide), ?_⟩
      refine claimProbeSlot_keeps.bind fun warrant claimed same => ?_
      subst same
      cases claimed <;> exact fun _ => rfl

theorem stampOpen_earned :
    (stampOpen publishes .closed).Walks (warrantAutomaton limit) (Keeps .earned) .earned := by
  simp only [stampOpen, transition, lift_bind]
  refine keeps_perform trivial fun now => ?_
  refine keeps_perform trivial fun _ => ?_
  intro ok _
  refine ⟨_, .opened ok, ?_⟩
  refine keeps_bind (keeps_ite ?_ rfl) fun _ => rfl
  exact keeps_bind (setGauges_keeps publishes) fun _ => rfl

theorem stampOpen_keeps {source : CircuitState} (isOpen : source ≠ .closed) :
    (stampOpen publishes source).Walks (warrantAutomaton limit) (Keeps warrant) warrant := by
  simp only [stampOpen, lift_bind]
  refine keeps_perform trivial fun now => ?_
  refine keeps_perform trivial fun _ => ?_
  exact keeps_bind (transition_keeps publishes .open isOpen) fun _ => rfl

theorem countFailure_counts :
    (countFailure publishes).Walks (warrantAutomaton limit) Anyway .fresh := by
  simp only [countFailure, lift_bind]
  intro failures _
  refine ⟨_, .counted failures, fun threshold bounded => ?_⟩
  have bounded : limit ≤ threshold := bounded
  by_cases room : (failures + 1) % 2 ^ 32 < threshold
  · refine ⟨_, .harmless _ _ trivial, ?_⟩
    simp only [if_pos room]
    exact trivial
  · refine ⟨_, .reached threshold (bounded.trans (not_lt.mp room)), ?_⟩
    simp only [if_neg room]
    exact (stampOpen_earned publishes).mono fun _ _ _ => trivial

theorem recordFailure_counts (admission : Admission) :
    (recordFailure publishes admission).Walks (warrantAutomaton limit) Anyway .fresh := by
  rw [recordFailure_eq]
  intro state _
  refine ⟨_, .harmless _ _ trivial, ?_⟩
  cases state with
  | closed => cases admission <;> exact countFailure_counts publishes
  | «open» => cases admission <;> exact trivial
  | halfOpen =>
      cases admission with
      | normal => exact trivial
      | probe => exact (stampOpen_keeps publishes (by decide)).mono fun _ _ _ => trivial

end Walks

/-! ## One step on a breaker -/

/-- What a warrant says when this many failures were counted in all. -/
def Warrant.Holds (limit total : Nat) : Warrant → Prop
  | .calm | .fresh => True
  | .counted failures => failures ≤ total
  | .earned => limit ≤ total

/-- The failures in a row are among all that were counted, and the circuit left its
closed state for enough of them. -/
structure Tallied (limit total : Nat) (b : Breaker) : Prop where
  counts : b.consecutiveFailures ≤ total
  opened : b.state ≠ .closed → limit ≤ total
  threshold : limit ≤ b.failureThreshold

def countsFailure : {γ : Type} → Atomic γ → Bool
  | _, .fetchAddFailures => true
  | _, _ => false

section Exec

variable {limit total later clock : Nat} {b after : Breaker} {γ : Type} {effect : Atomic γ}
  {answer : γ} {warrant next : Warrant}

theorem Warrant.Holds.mono (holds : warrant.Holds limit total) (le : total ≤ later) :
    warrant.Holds limit later := by
  cases warrant with
  | calm | fresh => exact trivial
  | counted failures => exact Nat.le_trans holds le
  | earned => exact Nat.le_trans holds le

theorem Tallied.mono (tallied : Tallied limit total b) (le : total ≤ later) :
    Tallied limit later b where
  counts := tallied.counts.trans le
  opened := fun isOpen => (tallied.opened isOpen).trans le
  threshold := tallied.threshold

theorem Tallied.possible (tallied : Tallied limit total b)
    (answered : Atomic.exec clock effect b = (answer, after)) :
    (warrantAutomaton limit).possible effect answer := by
  cases effect with
  | loadThreshold =>
      obtain ⟨rfl, -⟩ := Prod.mk.inj answered
      exact tallied.threshold
  | _ => exact trivial

theorem Tallied.harmless (tallied : Tallied limit total b) (harmless : Harmless effect)
    (answered : Atomic.exec clock effect b = (answer, after)) : Tallied limit total after := by
  cases effect with
  | fetchAddFailures | storeThreshold | storeCooldown => exact harmless.elim
  | casState expected new =>
      simp only [Atomic.exec] at answered
      split at answered
      · next found =>
        obtain ⟨-, rfl⟩ := Prod.mk.inj answered
        exact ⟨tallied.counts, fun _ => tallied.opened (found ▸ harmless), tallied.threshold⟩
      · obtain ⟨-, rfl⟩ := Prod.mk.inj answered
        exact tallied
  | casOpenedAt | casRearmedAt =>
      simp only [Atomic.exec] at answered
      split at answered <;> obtain ⟨-, rfl⟩ := Prod.mk.inj answered <;>
        exact ⟨tallied.counts, tallied.opened, tallied.threshold⟩
  | swapState new =>
      obtain ⟨-, rfl⟩ := Prod.mk.inj answered
      exact ⟨tallied.counts, fun isOpen => absurd harmless isOpen, tallied.threshold⟩
  | storeFailures count =>
      obtain ⟨-, rfl⟩ := Prod.mk.inj answered
      refine ⟨?_, tallied.opened, tallied.threshold⟩
      rw [show count = 0 from harmless]
      exact Nat.zero_le _
  | _ =>
      obtain ⟨-, rfl⟩ := Prod.mk.inj answered
      exact ⟨tallied.counts, tallied.opened, tallied.threshold⟩

/-- A step of a call that walks keeps the tally, and what the call knows after it is
true. -/
theorem Tallied.exec (tallied : Tallied limit total b) (holds : warrant.Holds limit total)
    (moved : WarrantMove limit warrant effect answer next)
    (answered : Atomic.exec clock effect b = (answer, after))
    (counted : later = total + if countsFailure effect then 1 else 0) :
    Tallied limit later after ∧ next.Holds limit later := by
  have grows : total ≤ later := counted ▸ Nat.le_add_right _ _
  cases moved with
  | harmless _ _ harmless =>
      exact ⟨(tallied.harmless harmless answered).mono grows, holds.mono grows⟩
  | trouble _ isOpen =>
      obtain ⟨rfl, rfl⟩ := Prod.mk.inj answered
      exact ⟨tallied.mono grows, (tallied.opened isOpen).trans grows⟩
  | counted failures =>
      obtain ⟨rfl, rfl⟩ := Prod.mk.inj answered
      have total : (b.consecutiveFailures + 1) % 2 ^ 32 ≤ later := by
        have counts := tallied.counts
        simp only [countsFailure, if_true] at counted
        omega
      exact ⟨⟨total, fun isOpen => (tallied.opened isOpen).trans grows, tallied.threshold⟩, total⟩
  | reached _ enough =>
      obtain ⟨-, rfl⟩ := Prod.mk.inj answered
      exact ⟨tallied.mono grows, enough.trans (Nat.le_trans holds grows)⟩
  | opened =>
      have earned : limit ≤ later := Nat.le_trans holds grows
      simp only [Atomic.exec] at answered
      split at answered <;> obtain ⟨-, rfl⟩ := Prod.mk.inj answered
      · exact ⟨⟨tallied.counts.trans grows, fun _ => earned, tallied.threshold⟩, earned⟩
      · exact ⟨tallied.mono grows, earned⟩

/-- Only a call that has not counted yet counts. -/
theorem WarrantMove.fresh_of_counts (moved : WarrantMove limit warrant effect answer next)
    (counts : countsFailure effect = true) : warrant = .fresh := by
  cases moved with
  | harmless _ _ harmless =>
      cases effect with
      | fetchAddFailures => exact harmless.elim
      | _ => cases counts
  | counted => rfl
  | trouble | reached | opened => cases counts

theorem WarrantMove.notFresh (moved : WarrantMove limit warrant effect answer next)
    (used : warrant ≠ .fresh ∨ countsFailure effect = true) : next ≠ .fresh := by
  cases moved with
  | harmless _ _ harmless =>
      cases used with
      | inl used => exact used
      | inr counts =>
          cases effect with
          | fetchAddFailures => exact harmless.elim
          | _ => cases counts
  | counted | trouble | reached | opened => simp

end Exec

end Ferryman.Core
