import Ferryman.Core.RaceSteps
import Mathlib.Data.List.Perm.Subperm

set_option autoImplicit false

namespace Ferryman.Core

open Program

/-! ## What one call does to the stamp -/

/-- Without a release, a compare-exchange moves the stamp by a cooldown or more,
and nothing touches the cooldown. -/
def slotProtocol (cooldown : Nat) : Protocol Atomic (Option Nat) where
  allowed := fun
    | .casOpenedAt expected new => expected + cooldown ≤ new
    | .storeCooldown _ => False
    | _ => True
  answers := fun
    | .loadCooldown, answer => answer = cooldown
    | _, _ => True
  remember := recallClaim

def Earned (claimed : Option Nat) (result : Option Admission) : Prop :=
  result = some .probe → claimed.isSome = true

section Operations

variable {cooldown : Nat} (publishes : Bool)

theorem setGauges_follows (claimed : Option Nat) :
    (Breaker.setGauges publishes).Follows (slotProtocol cooldown)
      (fun later _ => later = claimed) claimed := by
  cases publishes with
  | false => rfl
  | true => exact ⟨trivial, fun _ _ => ⟨trivial, fun _ _ => ⟨trivial, fun _ _ => rfl⟩⟩⟩

theorem transition_follows (claimed : Option Nat) (source target : CircuitState) :
    (Breaker.transition publishes source target).Follows (slotProtocol cooldown)
      (fun later _ => later = claimed) claimed := by
  refine ⟨trivial, fun ok _ => ?_⟩
  cases ok with
  | false => rfl
  | true =>
      exact (setGauges_follows publishes claimed).bind fun later _ same => same

theorem claimProbeSlot_follows (positive : 0 < cooldown) :
    Breaker.claimProbeSlot.Follows (slotProtocol cooldown)
      (fun later won => won = true → later.isSome = true) none := by
  simp only [Breaker.claimProbeSlot, lift_bind, pure_eq, follows_perform]
  refine ⟨trivial, fun openedAt _ => ⟨trivial, fun now _ => ⟨trivial, fun answer isCooldown => ?_⟩⟩⟩
  obtain rfl : answer = cooldown := isCooldown
  split
  · simp
  · refine ⟨?_, fun won _ isWon => ?_⟩
    · simp only [slotProtocol]
      omega
    · obtain rfl : won = true := isWon
      rfl

theorem tryAcquire_follows (positive : 0 < cooldown) :
    (Breaker.tryAcquire publishes).Follows (slotProtocol cooldown) Earned none := by
  refine ⟨trivial, fun state _ => ?_⟩
  cases state with
  | closed => exact fun isProbe => nomatch isProbe
  | «open» =>
      refine (claimProbeSlot_follows positive).bind fun claimed won earned => ?_
      cases won with
      | false => exact fun isProbe => nomatch isProbe
      | true =>
          refine (transition_follows publishes claimed .open .halfOpen).bind fun later ok same => ?_
          subst same
          cases ok with
          | false => exact fun isProbe => nomatch isProbe
          | true => exact fun _ => earned rfl
  | halfOpen =>
      refine (claimProbeSlot_follows positive).bind fun claimed won earned => ?_
      cases won with
      | false => exact fun isProbe => nomatch isProbe
      | true => exact fun _ => earned rfl

theorem recordSuccess_follows (admission : Admission) :
    (Breaker.recordSuccess publishes admission).Follows (slotProtocol cooldown)
      (fun later _ => later = none) none := by
  cases admission with
  | normal =>
      refine ⟨trivial, fun state _ => ?_⟩
      cases state with
      | closed => exact ⟨trivial, fun _ _ => rfl⟩
      | «open» | halfOpen => rfl
  | probe =>
      refine ⟨trivial, fun state _ => ?_⟩
      cases state with
      | closed => rfl
      | «open» | halfOpen =>
          refine ⟨trivial, fun _ _ => ⟨trivial, fun prev _ => ?_⟩⟩
          cases prev with
          | closed => rfl
          | «open» | halfOpen => exact setGauges_follows publishes none

theorem stampOpen_follows (source : CircuitState) :
    (Breaker.stampOpen publishes source).Follows (slotProtocol cooldown)
      (fun later _ => later = none) none := by
  refine ⟨trivial, fun now _ => ⟨trivial, fun _ _ => ?_⟩⟩
  exact (transition_follows publishes none source .open).bind fun later _ same => same

theorem countFailure_follows :
    (Breaker.countFailure publishes).Follows (slotProtocol cooldown)
      (fun later _ => later = none) none := by
  simp only [Breaker.countFailure, lift_bind]
  refine ⟨trivial, fun failures _ => ⟨trivial, fun limit _ => ?_⟩⟩
  by_cases room : (failures + 1) % 2 ^ 32 < limit
  · simp only [if_pos room]
    exact rfl
  · simp only [if_neg room]
    exact stampOpen_follows publishes .closed

theorem recordFailure_follows (admission : Admission) :
    (Breaker.recordFailure publishes admission).Follows (slotProtocol cooldown)
      (fun later _ => later = none) none := by
  rw [recordFailure_eq]
  refine ⟨trivial, fun state _ => ?_⟩
  cases state with
  | closed => cases admission <;> exact countFailure_follows publishes
  | «open» => cases admission <;> rfl
  | halfOpen =>
      cases admission with
      | normal => rfl
      | probe => exact stampOpen_follows publishes .halfOpen

theorem program_follows (positive : 0 < cooldown) {operation : Operation}
    (noRelease : operation.isRelease = false) :
    (operation.program publishes).Follows (slotProtocol cooldown) Earned none := by
  have silent : ∀ {program : Program Atomic Unit},
      program.Follows (slotProtocol cooldown) (fun later _ => later = none) none →
      (do program; pure none : Program Atomic (Option Admission)).Follows
        (slotProtocol cooldown) Earned none := by
    intro program follows
    exact follows.bind fun later _ _ isProbe => nomatch isProbe
  cases operation with
  | tryAcquire => exact tryAcquire_follows publishes positive
  | recordSuccess admission => exact silent (recordSuccess_follows publishes admission)
  | recordFailure admission => exact silent (recordFailure_follows publishes admission)
  | release admission => simp [Operation.isRelease] at noRelease

end Operations

/-! ## Claims and the stamp -/

def Apart (cooldown first second : Nat) : Prop :=
  first + cooldown ≤ second ∨ second + cooldown ≤ first

instance (cooldown first second : Nat) : Decidable (Apart cooldown first second) :=
  inferInstanceAs (Decidable (_ ∨ _))

theorem Apart.symm {cooldown first second : Nat} (apart : Apart cooldown first second) :
    Apart cooldown second first := Or.symm apart

structure Separated (cooldown stamp : Nat) (claims : List Nat) : Prop where
  apart : claims.Pairwise (Apart cooldown)
  stamped : ∀ claim ∈ claims, claim ≤ stamp

namespace Separated

variable {cooldown stamp : Nat} {claims fewer : List Nat}

theorem subperm (separated : Separated cooldown stamp claims) (part : fewer.Subperm claims) :
    Separated cooldown stamp fewer := by
  obtain ⟨sublist, permuted, isSublist⟩ := part
  refine ⟨?_, fun claim member => separated.stamped claim ?_⟩
  · exact permuted.pairwise (separated.apart.sublist isSublist) Apart.symm
  · exact isSublist.subset (permuted.symm.subset member)

theorem restamp (separated : Separated cooldown stamp claims) {later : Nat}
    (notOlder : ∀ claim ∈ claims, claim ≤ later) : Separated cooldown later claims :=
  ⟨separated.apart, notOlder⟩

theorem claim (separated : Separated cooldown stamp claims) {reading : Nat}
    (waited : stamp + cooldown ≤ reading) : Separated cooldown reading (reading :: claims) := by
  refine ⟨List.pairwise_cons.mpr ⟨?_, separated.apart⟩, ?_⟩
  · intro claim member
    have old := separated.stamped claim member
    exact .inr (by omega)
  · intro claim member
    cases List.mem_cons.mp member with
    | inl same =>
        subst same
        exact le_rfl
    | inr member =>
        have old := separated.stamped claim member
        omega

end Separated

theorem exec_stamp {β : Type} {cooldown clock : Nat} {b : Breaker} {claimed : Option Nat}
    {effect : Atomic β} (next : β → Program Atomic (Option Admission))
    (allowed : (slotProtocol cooldown).allowed effect) :
    (recallClaim claimed effect (Atomic.exec clock effect b).1 = claimed ∧
        (Atomic.exec clock effect b).2.openedAtMillis =
          (nextStamp (.perform effect next)).getD b.openedAtMillis) ∨
      ∃ reading, recallClaim claimed effect (Atomic.exec clock effect b).1 = some reading ∧
        (Atomic.exec clock effect b).2.openedAtMillis = reading ∧
        b.openedAtMillis + cooldown ≤ reading := by
  cases effect with
  | casOpenedAt expected new =>
      by_cases current : b.openedAtMillis = expected
      · refine .inr ⟨new, ?_⟩
        simp only [Atomic.exec, current, if_true, recallClaim, true_and]
        exact allowed
      · simp [Atomic.exec, current, recallClaim, nextStamp]
  | casState expected new =>
      by_cases current : b.state = expected <;>
        simp [Atomic.exec, current, recallClaim, nextStamp]
  | casRearmedAt expected new =>
      by_cases current : b.rearmedAtMillis = expected <;>
        simp [Atomic.exec, current, recallClaim, nextStamp]
  | _ => simp [Atomic.exec, recallClaim, nextStamp]

theorem exec_cooldown {β : Type} {cooldown clock : Nat} {b : Breaker} {effect : Atomic β}
    (fixed : b.cooldownMillis = cooldown) (allowed : (slotProtocol cooldown).allowed effect) :
    (Atomic.exec clock effect b).2.cooldownMillis = cooldown ∧
      (slotProtocol cooldown).answers effect (Atomic.exec clock effect b).1 := by
  cases effect with
  | storeCooldown millis => exact allowed.elim
  | loadCooldown => exact ⟨fixed, fixed⟩
  | casOpenedAt expected new =>
      by_cases current : b.openedAtMillis = expected <;>
        simp [Atomic.exec, current, fixed, slotProtocol]
  | casState expected new =>
      by_cases current : b.state = expected <;>
        simp [Atomic.exec, current, fixed, slotProtocol]
  | casRearmedAt expected new =>
      by_cases current : b.rearmedAtMillis = expected <;>
        simp [Atomic.exec, current, fixed, slotProtocol]
  | _ => simp [Atomic.exec, fixed, slotProtocol]

/-! ## The log -/

/-- Every probe ticket was earned, a cooldown apart from every other that was
handed out since the circuit last closed. -/
def Spaced (cooldown : Nat) : List Happening → Prop
  | [] => True
  | event :: older =>
      Spaced cooldown older ∧ ∀ claimed, event = .handedOut .probe claimed →
        ∃ reading, claimed = some reading ∧
          ∀ earlier ∈ probeClaims (sinceClosed older), Apart cooldown reading earlier

theorem spaced_append_right {cooldown : Nat} {newer older : List Happening}
    (spaced : Spaced cooldown (newer ++ older)) : Spaced cooldown older := by
  induction newer with
  | nil => exact spaced
  | cons event newer ih => exact ih spaced.1

theorem sinceClosed_append {middle older : List Happening}
    (stillOpen : Happening.closed ∉ middle) :
    sinceClosed (middle ++ older) = middle ++ sinceClosed older := by
  refine List.takeWhile_append_of_pos fun event member => ?_
  have notClosed : event ≠ .closed := by
    intro same
    subst same
    exact stillOpen member
  simpa using notClosed

theorem probeClaims_observeClosing (before after : Breaker) (log : List Happening) :
    (probeClaims (sinceClosed (observeClosing before after ++ log))).Sublist
      (probeClaims (sinceClosed log)) := by
  unfold observeClosing
  split
  · simp [sinceClosed, probeClaims]
  · exact List.Sublist.refl _

theorem spaced_observeClosing {cooldown : Nat} {before after : Breaker} {log : List Happening}
    (spaced : Spaced cooldown log) : Spaced cooldown (observeClosing before after ++ log) := by
  unfold observeClosing
  split
  · exact ⟨spaced, fun claimed isProbe => nomatch isProbe⟩
  · exact spaced

theorem claims_observeHandOut (flight : Flight) (log : List Happening) :
    (flight.pendingClaim ++ probeClaims (sinceClosed (observeHandOut flight ++ log))).Sublist
      (flight.claimed.toList ++ probeClaims (sinceClosed log)) := by
  obtain ⟨operation, claimed, program⟩ := flight
  match program with
  | .perform effect next => exact List.Sublist.refl _
  | .done none => exact List.sublist_append_right _ _
  | .done (some .normal) => exact List.sublist_append_right _ _
  | .done (some .probe) =>
      cases claimed <;> simp [Flight.pendingClaim, observeHandOut, sinceClosed, probeClaims]

theorem spaced_observeHandOut {cooldown stamp : Nat} {flight : Flight} {log : List Happening}
    (earned : flight.program.Follows (slotProtocol cooldown) Earned flight.claimed)
    (separated : Separated cooldown stamp
      (flight.claimed.toList ++ probeClaims (sinceClosed log)))
    (spaced : Spaced cooldown log) : Spaced cooldown (observeHandOut flight ++ log) := by
  obtain ⟨operation, claimed, program⟩ := flight
  match program with
  | .perform effect next => exact spaced
  | .done none => exact spaced
  | .done (some .normal) => exact ⟨spaced, fun claimed isProbe => nomatch isProbe⟩
  | .done (some .probe) =>
      obtain ⟨reading, isClaimed⟩ := Option.isSome_iff_exists.mp (earned rfl)
      simp only at isClaimed
      subst isClaimed
      refine ⟨spaced, fun claimed same => ⟨reading, ?_, ?_⟩⟩
      · exact (Happening.handedOut.inj same).2.symm
      · exact (List.pairwise_cons.mp separated.apart).1

/-! ## The invariant -/

structure SlotInvariant (cooldown : Nat) (race : Race) : Prop where
  fixed : race.breaker.cooldownMillis = cooldown
  follows : ∀ flight ∈ race.calls,
    flight.program.Follows (slotProtocol cooldown) Earned flight.claimed
  separated : Separated cooldown race.breaker.openedAtMillis race.liveClaims
  spaced : Spaced cooldown race.log

namespace SlotInvariant

variable {cooldown : Nat} {race : Race}

theorem keeps_start (positive : 0 < cooldown) (holds : SlotInvariant cooldown race)
    {operation : Operation} (noRelease : operation.isRelease = false) :
    SlotInvariant cooldown (race.step (.start operation)) := by
  have follows := @program_follows cooldown race.breaker.published positive operation noRelease
  refine ⟨holds.fixed, ?_, ?_, holds.spaced⟩
  · intro flight member
    cases List.mem_append.mp member with
    | inl old => exact holds.follows flight old
    | inr new =>
        rw [List.mem_singleton] at new
        subst new
        exact follows
  · have silent : Flight.pendingClaim
        ⟨operation, none, operation.program race.breaker.published⟩ = [] := by
      unfold Flight.pendingClaim
      split <;> rfl
    have same : (race.step (.start operation)).liveClaims = race.liveClaims := by
      simp [Race.step, Race.liveClaims, silent]
    rw [same]
    exact holds.separated

private theorem regroup {front own back log claimed older : List Nat}
    (kept : (own ++ log).Sublist (claimed ++ older)) :
    (front ++ (own ++ (back ++ log))).Subperm (claimed ++ (front ++ back ++ older)) := by
  have moved : (front ++ (own ++ (back ++ log))).Perm (front ++ back ++ (own ++ log)) := by
    rw [List.append_assoc]
    exact (List.perm_append_comm_assoc own back log).append_left front
  have ordered : (front ++ back ++ (claimed ++ older)).Perm (claimed ++ (front ++ back ++ older)) :=
    List.perm_append_comm_assoc _ _ _
  exact moved.subperm.trans ((kept.append_left _).subperm.trans ordered.subperm)

theorem separated_perform {β : Type} {effect : Atomic β}
    {next : β → Program Atomic (Option Admission)} {clock : Nat} {b : Breaker}
    {claimed : Option Nat} {others : List Nat}
    (allowed : (slotProtocol cooldown).allowed effect)
    (separated : Separated cooldown b.openedAtMillis (claimed.toList ++ others))
    (fresh : ∀ stamp ∈ nextStamp (.perform effect next),
      ∀ claim ∈ claimed.toList ++ others, claim ≤ stamp) :
    Separated cooldown (Atomic.exec clock effect b).2.openedAtMillis
      ((recallClaim claimed effect (Atomic.exec clock effect b).1).toList ++ others) := by
  rcases @exec_stamp β cooldown clock b claimed effect next allowed with
    ⟨same, stamp⟩ | ⟨reading, isReading, stamp, waited⟩
  · rw [same, stamp]
    cases announced : nextStamp (.perform effect next) with
    | none => exact separated
    | some millis => exact separated.restamp (fresh millis announced)
  · rw [isReading, stamp]
    exact (separated.subperm (List.sublist_append_right _ _).subperm).claim waited

theorem keeps_perform (holds : SlotInvariant cooldown race) {β : Type} {effect : Atomic β}
    {next : β → Program Atomic (Option Admission)} {answer : β} {after : Breaker}
    {front back : List Flight} {operation : Operation} {claimed : Option Nat}
    (calls : race.calls = front ++ ⟨operation, claimed, .perform effect next⟩ :: back)
    (answered : Atomic.exec race.clock effect race.breaker = (answer, after))
    (fresh : race.Fresh (.advance front.length)) {moved : Flight}
    (isMoved : moved = ⟨operation, recallClaim claimed effect answer, next answer⟩) :
    SlotInvariant cooldown { race with
      breaker := after
      calls := front ++ moved :: back
      log := observeHandOut moved ++ observeClosing race.breaker after ++ race.log } := by
  have found : race.calls[front.length]? = some ⟨operation, claimed, .perform effect next⟩ := by
    simp [calls]
  obtain ⟨allowed, continues⟩ := holds.follows _ (List.mem_of_getElem? found)
  obtain ⟨fixed, fits⟩ := @exec_cooldown β cooldown race.clock _ _ holds.fixed allowed
  -- every other live claim
  let others := front.flatMap Flight.pendingClaim ++ back.flatMap Flight.pendingClaim ++
    probeClaims (sinceClosed race.log)
  have gathered : (claimed.toList ++ others).Perm race.liveClaims := by
    simp only [Race.liveClaims, calls, List.flatMap_append, List.flatMap_cons, others,
      Flight.pendingClaim, List.append_assoc]
    exact List.perm_append_comm_assoc _ _ _
  have separated := @separated_perform cooldown _ effect next race.clock race.breaker claimed
    others allowed (holds.separated.subperm gathered.subperm) (fun stamp announced claim live =>
      fresh _ found stamp announced claim (gathered.subset live))
  rw [answered] at fixed fits separated
  have follows : moved.program.Follows (slotProtocol cooldown) Earned moved.claimed := by
    rw [isMoved]
    exact continues _ fits
  have sameClaim : recallClaim claimed effect answer = moved.claimed := by rw [isMoved]
  simp only [sameClaim] at separated
  have kept : (moved.pendingClaim ++ probeClaims (sinceClosed (observeHandOut moved ++
      (observeClosing race.breaker after ++ race.log)))).Sublist
        (moved.claimed.toList ++ probeClaims (sinceClosed race.log)) :=
    (claims_observeHandOut moved _).trans
      ((probeClaims_observeClosing race.breaker after race.log).append_left _)
  refine ⟨fixed, ?_, separated.subperm ?_, ?_⟩
  · have before := holds.follows
    simp only [calls, List.forall_mem_append, List.forall_mem_cons] at before ⊢
    exact ⟨before.1, follows, before.2.2⟩
  · simp only [Race.liveClaims, List.flatMap_append, List.flatMap_cons, List.append_assoc]
    exact regroup kept
  · rw [List.append_assoc]
    refine spaced_observeHandOut follows (separated.subperm ?_)
      (spaced_observeClosing holds.spaced)
    refine ((probeClaims_observeClosing _ _ _).trans ?_).append_left _ |>.subperm
    exact List.sublist_append_right _ _

theorem keeps (positive : 0 < cooldown) (holds : SlotInvariant cooldown race) {move : Move}
    (noRelease : move.startsRelease = false)
    (fresh : race.Fresh move) : SlotInvariant cooldown (race.step move) := by
  generalize isNext : race.step move = next
  have stepped := race.step_stepped move
  rw [isNext] at stepped
  cases stepped with
  | ticked millis => exact ⟨holds.fixed, holds.follows, holds.separated, holds.spaced⟩
  | started operation => exact holds.keeps_start positive noRelease
  | idle index => exact holds
  | performed calls answered => exact holds.keeps_perform calls answered fresh rfl

theorem run (positive : 0 < cooldown) (holds : SlotInvariant cooldown race) {moves : List Move}
    (noRelease : ∀ move ∈ moves, move.startsRelease = false)
    (fresh : race.FreshRun moves) : SlotInvariant cooldown (race.run moves) := by
  induction moves generalizing race with
  | nil => exact holds
  | cons move moves ih =>
      refine ih (holds.keeps positive (noRelease move List.mem_cons_self) fresh.1) ?_ fresh.2
      exact fun later member => noRelease later (List.mem_cons_of_mem _ member)

end SlotInvariant

/-! ## One probe per cooldown -/

/-- In a race without releases in which no stale stamp is stored, any two probe
tickets that were handed out without the circuit closing in between were
claimed at least a cooldown apart. -/
theorem probes_one_cooldown_apart {b : Breaker} {clock : Nat} {moves : List Move}
    {newer middle older : List Happening} {first second : Option Nat}
    (positive : 0 < b.cooldownMillis)
    (noRelease : ∀ move ∈ moves, move.startsRelease = false)
    (fresh : Race.FreshRun { clock := clock, breaker := b } moves)
    (observed : (Race.run { clock := clock, breaker := b } moves).log =
      newer ++ .handedOut .probe second :: (middle ++ .handedOut .probe first :: older))
    (stillOpen : Happening.closed ∉ middle) :
    ∃ reading earlier, second = some reading ∧ first = some earlier ∧
      Apart b.cooldownMillis reading earlier := by
  have initial : SlotInvariant b.cooldownMillis { clock := clock, breaker := b } :=
    ⟨rfl, by simp, ⟨List.Pairwise.nil, by simp [Race.liveClaims, sinceClosed, probeClaims]⟩, trivial⟩
  have spaced := (initial.run positive noRelease fresh).spaced
  rw [observed] at spaced
  have spacedSecond := spaced_append_right spaced
  obtain ⟨reading, isReading, apart⟩ := spacedSecond.2 second rfl
  obtain ⟨earlier, isEarlier, -⟩ := (spaced_append_right spacedSecond.1).2 first rfl
  refine ⟨reading, earlier, isReading, isEarlier, apart earlier ?_⟩
  rw [sinceClosed_append stillOpen]
  simp [probeClaims, sinceClosed, isEarlier]

def quickBreaker : Breaker :=
  Breaker.unchecked none false ⟨10 ^ 8, by decide⟩ 1

def firstProbe : List Move :=
  .start .tryAcquire :: advances 0 1 ++
    .start (.recordFailure .normal) :: advances 1 6 ++
    .tick 100 :: .start .tryAcquire :: advances 2 6

def promptProbes : List Move :=
  firstProbe ++ .tick 100 :: .start .tryAcquire :: advances 3 5

theorem prompt_probes_apart :
    (Race.run { clock := 0, breaker := quickBreaker } promptProbes).log =
        [.handedOut .probe (some 200), .handedOut .probe (some 100), .handedOut .normal none] ∧
      Apart 100 200 100 := by
  have observed : (Race.run { clock := 0, breaker := quickBreaker } promptProbes).log =
      [] ++ .handedOut .probe (some 200) :: ([] ++ .handedOut .probe (some 100) ::
        [.handedOut .normal none]) := by decide +kernel
  obtain ⟨reading, earlier, isReading, isEarlier, apart⟩ :=
    probes_one_cooldown_apart (by decide +kernel) (by decide +kernel) (by decide +kernel) observed
      (by simp)
  cases isReading
  cases isEarlier
  exact ⟨observed, apart⟩

/-- The failing probe reads the clock at 150 and is suspended. Another probe is
admitted at 200; then the first one stores its old reading, and a third probe is
admitted at 250. -/
def suspendedFailure : List Move :=
  firstProbe ++ .tick 50 :: .start (.recordFailure .probe) :: advances 3 2 ++
    .tick 50 :: .start .tryAcquire :: advances 4 5 ++
    advances 3 2 ++
    .tick 50 :: .start .tryAcquire :: advances 5 6

theorem stale_stamp_admits_early_probe :
    ¬∀ (config : BreakerConfig) (b : Breaker) (clock : Nat) (moves : List Move)
        (newer middle older : List Happening) (first second : Option Nat),
      Breaker.Created config b → 0 < b.cooldownMillis →
      (∀ move ∈ moves, move.startsRelease = false) →
      (Race.run { clock := clock, breaker := b } moves).log =
        newer ++ .handedOut .probe second :: (middle ++ .handedOut .probe first :: older) →
      Happening.closed ∉ middle →
      ∃ reading earlier, second = some reading ∧ first = some earlier ∧
        Apart b.cooldownMillis reading earlier := by
  intro claimed
  have observed : (Race.run { clock := 0, breaker := quickBreaker } suspendedFailure).log =
      [] ++ .handedOut .probe (some 250) :: ([] ++ .handedOut .probe (some 200) ::
        [.handedOut .probe (some 100), .handedOut .normal none]) := by decide +kernel
  obtain ⟨reading, earlier, isReading, isEarlier, apart⟩ :=
    claimed ⟨1, ⟨10 ^ 8, by decide⟩, none⟩ quickBreaker 0 suspendedFailure _ _ _ _ _
      (.inl (by decide +kernel)) (by decide +kernel) (by decide +kernel) observed (by simp)
  cases isReading
  cases isEarlier
  exact absurd apart (by decide +kernel)

end Ferryman.Core
