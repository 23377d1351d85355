import Ferryman.Core.Breaker
import Ferryman.Lib.Walks

/-!
# Stamps lie in the past

An operation stamps a breaker only with instants it has read from the clock, or
earlier ones, so that no interleaving leaves a stamp from the future.
-/

set_option autoImplicit false

namespace Ferryman.Core

open Program Breaker

def WritesStamp : {γ : Type} → Atomic γ → Prop
  | _, .storeOpenedAt _ | _, .casOpenedAt _ _ => True
  | _, _ => False

/-- The phase of a call is the latest instant it knows to be past. -/
inductive StampMove : {γ : Type} → Nat → Atomic γ → γ → Nat → Prop
  | other {γ : Type} {effect : Atomic γ} (bound : Nat) (answer : γ) : ¬WritesStamp effect →
      StampMove bound effect answer bound
  | now (bound time : Nat) : StampMove bound .now time (max bound time)
  | store {bound millis : Nat} : millis ≤ bound →
      StampMove bound (.storeOpenedAt millis) () bound
  | cas {bound expected new : Nat} (ok : Bool) : new ≤ bound →
      StampMove bound (.casOpenedAt expected new) ok bound

def stampAutomaton : Automaton Atomic Nat where
  possible := fun _ _ => True
  moves := StampMove

/-- Whatever it does, a call from here on stamps nothing later than it knows. -/
def StampsPast {α : Type} (bound : Nat) (program : Program Atomic α) : Prop :=
  program.Walks stampAutomaton (fun _ _ => True) bound

section Operations

variable {α β γ : Type} {bound : Nat}

theorem stampsPast_perform {effect : Atomic γ} {next : γ → Program Atomic α}
    (noStamp : ¬WritesStamp effect) (later : ∀ answer, StampsPast bound (next answer)) :
    StampsPast bound (perform effect next) :=
  fun answer _ => ⟨bound, .other bound answer noStamp, later answer⟩

theorem stampsPast_now {next : Nat → Program Atomic α}
    (later : ∀ time, StampsPast (max bound time) (next time)) :
    StampsPast bound (perform .now next) :=
  fun time _ => ⟨_, .now bound time, later time⟩

theorem stampsPast_done (result : α) : StampsPast bound (done result) := trivial

theorem stampsPast_ite {condition : Prop} [Decidable condition] {yes no : Program Atomic α}
    (first : StampsPast bound yes) (second : StampsPast bound no) :
    StampsPast bound (if condition then yes else no) := by
  split
  · exact first
  · exact second

/-- What comes behind may start from any instant. -/
theorem stampsPast_bind {program : Program Atomic α} {rest : α → Program Atomic β}
    (first : StampsPast bound program) (later : ∀ bound answer, StampsPast bound (rest answer)) :
    StampsPast bound (program >>= rest) :=
  first.bind fun bound answer _ => later bound answer

variable (publishes : Bool)

theorem setGauges_stampsPast (bound : Nat) : StampsPast bound (setGauges publishes) := by
  simp only [setGauges, lift_bind]
  refine stampsPast_ite ?_ (stampsPast_done ())
  refine stampsPast_perform id fun state => stampsPast_perform id fun _ => ?_
  exact stampsPast_perform id stampsPast_done

theorem transition_stampsPast (source target : CircuitState) (bound : Nat) :
    StampsPast bound (transition publishes source target) := by
  simp only [transition, lift_bind]
  refine stampsPast_perform id fun ok => stampsPast_ite ?_ (stampsPast_done false)
  exact stampsPast_bind (setGauges_stampsPast publishes bound) fun _ _ => stampsPast_done true

theorem claimProbeSlot_stampsPast (bound : Nat) : StampsPast bound claimProbeSlot := by
  simp only [claimProbeSlot, lift_bind]
  refine stampsPast_perform id fun openedAt => stampsPast_now fun now => ?_
  refine stampsPast_perform id fun cooldown => stampsPast_ite (stampsPast_done false) ?_
  exact fun ok _ => ⟨_, .cas ok (Nat.le_max_right bound now), stampsPast_done ok⟩

theorem tryAcquire_stampsPast (bound : Nat) : StampsPast bound (tryAcquire publishes) := by
  simp only [tryAcquire, lift_bind]
  refine stampsPast_perform id fun state => ?_
  cases state with
  | closed => exact stampsPast_done _
  | «open» =>
      refine stampsPast_bind (claimProbeSlot_stampsPast bound) fun bound claimed => ?_
      refine stampsPast_ite (stampsPast_done none) ?_
      exact stampsPast_bind (transition_stampsPast publishes _ _ bound) fun _ _ =>
        stampsPast_ite (stampsPast_done _) (stampsPast_done _)
  | halfOpen =>
      exact stampsPast_bind (claimProbeSlot_stampsPast bound) fun _ _ =>
        stampsPast_ite (stampsPast_done _) (stampsPast_done _)

theorem release_stampsPast (admission : Admission) (bound : Nat) :
    StampsPast bound (release admission) := by
  simp only [release, lift_bind]
  refine stampsPast_ite (stampsPast_done ()) ?_
  refine stampsPast_perform id fun cooldown => stampsPast_now fun now => ?_
  refine stampsPast_perform id fun stamp => stampsPast_perform id fun state => ?_
  refine stampsPast_ite (stampsPast_done ()) (stampsPast_perform id fun last => ?_)
  refine stampsPast_ite (stampsPast_done ()) (stampsPast_perform id fun rearmed => ?_)
  refine stampsPast_ite (stampsPast_done ()) fun ok _ => ⟨_, .cas ok ?_, stampsPast_done ()⟩
  exact (Nat.sub_le now cooldown).trans (Nat.le_max_right bound now)

theorem recordSuccess_stampsPast (admission : Admission) (bound : Nat) :
    StampsPast bound (recordSuccess publishes admission) := by
  cases admission with
  | normal =>
      refine stampsPast_perform id fun state => ?_
      exact stampsPast_ite (stampsPast_perform id stampsPast_done) (stampsPast_done ())
  | probe =>
      refine stampsPast_perform id fun state => stampsPast_ite (stampsPast_done ()) ?_
      refine stampsPast_perform id fun _ => stampsPast_perform id fun prev => ?_
      exact stampsPast_ite (setGauges_stampsPast publishes bound) (stampsPast_done ())

/-- The circuit is stamped and then opened. -/
theorem stampOpen_stampsPast (source : CircuitState) (bound : Nat) :
    StampsPast bound (perform .now fun now => perform (.storeOpenedAt now) fun _ =>
      transition publishes source .open >>= fun _ => done ()) := by
  refine stampsPast_now fun now _ _ => ⟨_, .store (Nat.le_max_right bound now), ?_⟩
  exact stampsPast_bind (transition_stampsPast publishes _ _ _) fun _ _ => stampsPast_done ()

theorem recordFailure_stampsPast (admission : Admission) (bound : Nat) :
    StampsPast bound (recordFailure publishes admission) := by
  refine stampsPast_perform id fun state => ?_
  have counts : StampsPast bound (perform .fetchAddFailures fun failures =>
      perform .loadThreshold fun threshold =>
        if (failures + 1) % 2 ^ 32 < threshold then done ()
        else perform .now fun now => perform (.storeOpenedAt now) fun _ =>
          transition publishes .closed .open >>= fun _ => done ()) := by
    refine stampsPast_perform id fun failures => stampsPast_perform id fun threshold => ?_
    exact stampsPast_ite (stampsPast_done ()) (stampOpen_stampsPast publishes .closed bound)
  cases admission with
  | normal =>
      cases state with
      | closed => exact counts
      | «open» | halfOpen => exact stampsPast_done ()
  | probe =>
      cases state with
      | closed => exact counts
      | «open» => exact stampsPast_done ()
      | halfOpen => exact stampOpen_stampsPast publishes .halfOpen bound

end Operations

/-- One atomic operation keeps the stamp, and what the call knows, in the past. -/
theorem StampMove.past {γ : Type} {effect : Atomic γ} {answer : γ} {clock bound later : Nat}
    {b after : Breaker} (moved : StampMove bound effect answer later) (known : bound ≤ clock)
    (past : b.openedAtMillis ≤ clock) (executed : Atomic.exec clock effect b = (answer, after)) :
    after.openedAtMillis ≤ clock ∧ later ≤ clock := by
  cases moved with
  | other _ _ noStamp =>
      refine ⟨?_, known⟩
      cases effect with
      | storeOpenedAt | casOpenedAt => exact absurd trivial noStamp
      | casState | casRearmedAt =>
          simp only [Atomic.exec] at executed
          split at executed <;> cases executed <;> exact past
      | _ =>
          cases executed
          exact past
  | now _ time =>
      cases executed
      exact ⟨past, Nat.max_le.mpr ⟨known, Nat.le_refl clock⟩⟩
  | store le =>
      cases executed
      exact ⟨le.trans known, known⟩
  | cas ok le =>
      refine ⟨?_, known⟩
      simp only [Atomic.exec] at executed
      split at executed
      · cases executed
        exact le.trans known
      · cases executed
        exact past

end Ferryman.Core
