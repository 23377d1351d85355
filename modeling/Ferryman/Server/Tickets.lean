import Ferryman.Core.AmbiguityProperties
import Ferryman.Server.Handler

/-!
# Settling tickets

On which runs of the handler the ticket that `try_acquire` handed out is given
back to the breaker.
-/

set_option autoImplicit false

namespace Ferryman.Server

open Ferryman.Core Program

def Event.settled : Event → Option (Upstream × Admission)
  | .recordSuccess upstream admission => some (upstream, admission)
  | .recordFailure upstream admission => some (upstream, admission)
  | .release upstream admission => some (upstream, admission)
  | _ => none

def settlements (events : List Event) : List (Upstream × Admission) :=
  events.filterMap Event.settled

@[simp] theorem settlements_nil : settlements [] = [] := rfl

@[simp] theorem settlements_cons (event : Event) (events : List Event) :
    settlements (event :: events) = event.settled.toList ++ settlements events := by
  rw [settlements, settlements, List.filterMap_cons]
  cases event.settled <;> rfl

def Event.reports : Event → Bool
  | .tryAcquire _ _ => false
  | .select _ _ => false
  | .dropped _ => false
  | _ => true

/-- A part of a run that only reported, went through and settled these tickets. -/
structure Concluded {α : Type} (seen : List Event) (ended : Option α)
    (settled : List (Upstream × Admission)) : Prop where
  completes : ended ≠ none
  settles : settlements seen = settled
  reports : ∀ event ∈ seen, event.reports = true

theorem Concluded.notMem {α : Type} {seen : List Event} {ended : Option α}
    {settled : List (Upstream × Admission)} (concluded : Concluded seen ended settled)
    {event : Event} (silent : event.reports = false) : event ∉ seen := by
  intro member
  rw [concluded.reports event member] at silent
  simp at silent

section Paths

variable {wrap : Wrap} {table : RouteTable} {upstream : Upstream} {admission : Admission}
  {seen : List Event}

theorem concluded_done {α : Type} {result : α} {ended : Option α}
    (path : Path observer (done result) seen ended) : Concluded seen ended [] := by
  obtain ⟨rfl, rfl⟩ := path_done.mp path
  exact ⟨by simp, rfl, by simp⟩

theorem concluded_lift {α : Type} {effect : Effect α} {ended : Option α}
    (path : Path observer (lift effect) seen ended) (noWait : effect.drop = none) :
    ∃ answer, seen = [effect.event answer] ∧ ended = some answer := by
  cases path_perform.mp path with
  | inl waiting =>
      obtain ⟨event, waits, -, -⟩ := waiting
      exact absurd (noWait.symm.trans waits) (by simp)
  | inr answered =>
      obtain ⟨answer, later, rfl, rest⟩ := answered
      obtain ⟨rfl, rfl⟩ := path_done.mp rest
      exact ⟨answer, rfl, rfl⟩

theorem Concluded.append {α β : Type} {front back : List Event} {result : Option α}
    {ended : Option β} {first second : List (Upstream × Admission)}
    (before : Concluded front result first) (after : Concluded back ended second) :
    Concluded (front ++ back) ended (first ++ second) where
  completes := after.completes
  settles := by
    rw [settlements, List.filterMap_append, ← before.settles, ← after.settles]
    rfl
  reports := fun event member =>
    (List.mem_append.mp member).elim (before.reports event) (after.reports event)

theorem concluded_bind {α β : Type} {program : Program Effect α} {rest : α → Program Effect β}
    {ended : Option β} {first second : List (Upstream × Admission)}
    (path : Path observer (program >>= rest) seen ended)
    (before : ∀ seen ended, Path observer program seen ended → Concluded seen ended first)
    (after : ∀ result seen ended, Path observer (rest result) seen ended →
      Concluded seen ended second) :
    Concluded seen ended (first ++ second) := by
  cases path_bind path with
  | inl stopped =>
      obtain ⟨abandoned, -⟩ := stopped
      exact absurd rfl (before _ _ abandoned).completes
  | inr finished =>
      obtain ⟨front, back, result, rfl, done, later⟩ := finished
      exact (before _ _ done).append (after _ _ _ later)

theorem concluded_bind_done {α β : Type} {program : Program Effect α} {value : α → β}
    {ended : Option β} {settled : List (Upstream × Admission)}
    (path : Path observer (program >>= fun result => done (value result)) seen ended)
    (before : ∀ seen ended, Path observer program seen ended → Concluded seen ended settled) :
    Concluded seen ended settled := by
  rw [← List.append_nil settled]
  exact concluded_bind path before fun _ _ _ => concluded_done

theorem concluded_clientStalled {stalled : Option Bool}
    (path : Path observer (clientStalled wrap table) seen stalled) :
    Concluded seen stalled [] := by
  cases wrap with
  | legacy => exact concluded_done path
  | streaming =>
      refine concluded_bind_done path fun seen ended inner => ?_
      obtain ⟨state, rfl, rfl⟩ := concluded_lift inner rfl
      exact ⟨by simp, rfl, by simp [Effect.event, Event.reports]⟩

theorem concluded_settle {effect : Effect Unit} {ended : Option Unit}
    (settles : effect = .recordSuccess upstream admission ∨
      effect = .recordFailure upstream admission ∨ effect = .release upstream admission)
    (path : Path observer (lift effect) seen ended) :
    Concluded seen ended [(upstream, admission)] := by
  rcases settles with rfl | rfl | rfl
  all_goals
    obtain ⟨answer, rfl, rfl⟩ := concluded_lift path rfl
    exact ⟨by simp, rfl, by simp [Effect.event, Event.reports]⟩

theorem concluded_blameUpstream {ended : Option Unit}
    (path : Path observer (blameUpstream wrap table upstream admission) seen ended) :
    Concluded seen ended [(upstream, admission)] := by
  refine concluded_bind path (fun _ _ => concluded_clientStalled) fun stalled seen ended inner => ?_
  split at inner
  · exact concluded_settle (.inr (.inr rfl)) inner
  · exact concluded_settle (.inr (.inl rfl)) inner

theorem concluded_conclude {countsTimeout : Bool} {ending : Ending} {ended : Option Response}
    (path : Path observer (conclude wrap table upstream admission countsTimeout ending) seen
      ended) :
    Concluded seen ended
      (if ending = .timedOut ∧ countsTimeout = false then [] else [(upstream, admission)]) := by
  cases ending with
  | timedOut =>
      cases countsTimeout with
      | true => exact concluded_bind_done path fun _ _ => concluded_settle (.inr (.inl rfl))
      | false => exact concluded_done path
  | failed sources =>
      simp only [conclude] at path
      split at path
      · exact concluded_bind_done path fun _ _ => concluded_settle (.inr (.inr rfl))
      · split at path
        · exact concluded_bind_done path fun _ _ => concluded_settle (.inr (.inr rfl))
        · exact concluded_bind_done path fun _ _ => concluded_blameUpstream
  | responded status headers =>
      simp only [conclude] at path
      split at path
      · exact concluded_bind_done path fun _ _ => concluded_blameUpstream
      · exact concluded_bind_done path fun _ _ => concluded_settle (.inl rfl)

variable {http : Http} {connection : Connection} {req : Request}

/-- The legacy handler timed out and a body may have been to blame. -/
def UncountedTimeout (wrap : Wrap) (req : Request) (seen : List Event) : Prop :=
  wrap = .legacy ∧ req.isEndStream = false ∧ ∃ sent, Event.select sent .timedOut ∈ seen

/-- The client hung up while the handler waited. -/
def HungUp (seen : List Event) : Prop := ∃ sent, Event.dropped sent ∈ seen

/-- What holds of a run after its ticket was taken. -/
structure TicketRun (wrap : Wrap) (req : Request) (upstream : Upstream) (admission : Admission)
    (seen : List Event) : Prop where
  settled_iff : settlements seen = [(upstream, admission)] ↔
    ¬HungUp seen ∧ ¬UncountedTimeout wrap req seen
  noAcquire : ∀ other answer, Event.tryAcquire other answer ∉ seen

theorem Concluded.ticketRun {ended : Option Response}
    (concluded : Concluded seen ended [(upstream, admission)]) :
    TicketRun wrap req upstream admission seen where
  settled_iff := by
    refine iff_of_true concluded.settles ⟨?_, ?_⟩
    · intro selects
      obtain ⟨sent, member⟩ := selects
      exact concluded.notMem rfl member
    · intro selects
      obtain ⟨-, -, sent, member⟩ := selects
      exact concluded.notMem rfl member
  noAcquire := fun _ _ => concluded.notMem rfl

theorem ticketRun_select {sent : Request} {ending : Ending} {later : List Event}
    {ended : Option Response}
    (concluded : Concluded later ended
      (if ending = .timedOut ∧ (req.isEndStream || decide (wrap = .streaming)) = false then []
        else [(upstream, admission)])) :
    TicketRun wrap req upstream admission (.select sent ending :: later) := by
  have notHungUp : ¬HungUp (.select sent ending :: later) := by
    intro found
    obtain ⟨other, member⟩ := found
    cases List.mem_cons.mp member with
    | inl here => cases here
    | inr inLater => exact concluded.notMem rfl inLater
  have isTimeout : (∃ other, Event.select other .timedOut ∈ Event.select sent ending :: later) ↔
      ending = .timedOut := by
    constructor
    · intro found
      obtain ⟨other, member⟩ := found
      cases List.mem_cons.mp member with
      | inl here => exact (Event.select.inj here).2.symm
      | inr inLater => exact absurd inLater (concluded.notMem rfl)
    · intro same
      subst same
      exact ⟨sent, List.mem_cons_self⟩
  constructor
  case settled_iff =>
    have settles : settlements (Event.select sent ending :: later) = settlements later := rfl
    rw [settles, concluded.settles, UncountedTimeout, isTimeout]
    cases wrap <;> cases req.isEndStream <;> simp [notHungUp]
  case noAcquire =>
    intro other answer member
    cases List.mem_cons.mp member with
    | inl here => cases here
    | inr inLater => exact concluded.notMem rfl inLater

theorem ticketRun_forward {selected : Selected} {ended : Option Response}
    (path : Path observer (forward http wrap connection table req selected admission) seen ended) :
    TicketRun wrap req selected.route.upstream admission seen := by
  simp only [forward] at path
  split at path
  · exact (concluded_bind_done path fun _ _ => concluded_settle (.inr (.inr rfl))).ticketRun
  · cases path_perform.mp path with
    | inl dropped =>
        obtain ⟨event, drops, rfl, rfl⟩ := dropped
        -- dropped while it waits: nothing has been reported yet
        obtain rfl := Option.some.inj drops
        exact ⟨by simp [HungUp, Event.settled], by simp⟩
    | inr ended =>
        obtain ⟨ending, later, rfl, rest⟩ := ended
        exact ticketRun_select (concluded_conclude rest)

end Paths

/-- The ticket of a run is settled, and settled once, iff the client does not hang up
during the wait and no uncounted timeout ends it. -/
theorem ticket_settled_iff (http : Http) (wrap : Wrap) (connection : Connection)
    (table : RouteTable) (req : Request) (seen : List Event) (ended : Option Response)
    (upstream : Upstream) (admission : Admission)
    (path : Path observer (handleCore http wrap connection table req) seen ended)
    (acquired : Event.tryAcquire upstream (some admission) ∈ seen) :
    settlements seen = [(upstream, admission)] ↔
      ¬HungUp seen ∧ ¬UncountedTimeout wrap req seen := by
  simp only [handleCore] at path
  split at path
  · obtain ⟨rfl, -⟩ := path_done.mp path
    simp at acquired
  · next selected isSelected =>
      cases path_perform.mp path with
      | inl dropped =>
          obtain ⟨event, drops, -, -⟩ := dropped
          simp [observer, Effect.drop] at drops
      | inr answered =>
          obtain ⟨answer, later, rfl, rest⟩ := answered
          cases answer with
          | none =>
              obtain ⟨rfl, -⟩ := path_done.mp rest
              simp [observer, Effect.event] at acquired
          | some taken =>
              have run := ticketRun_forward rest
              have same : Event.tryAcquire upstream (some admission) =
                  .tryAcquire selected.route.upstream (some taken) := by
                cases List.mem_cons.mp acquired with
                | inl here => exact here
                | inr inLater => exact absurd inLater (run.noAcquire _ _)
              obtain ⟨rfl, sameTicket⟩ := Event.tryAcquire.inj same
              obtain rfl := Option.some.inj sameTicket
              have settles : settlements (Event.tryAcquire selected.route.upstream (some admission) ::
                  later) = settlements later := rfl
              change settlements (Event.tryAcquire selected.route.upstream (some admission) ::
                later) = _ ↔ _
              rw [settles, run.settled_iff]
              simp [HungUp, UncountedTimeout, observer, Effect.event]

/-! ## Runs that lose their ticket -/

/-- Every ticket taken is settled exactly once. -/
def TicketsSettled (http : Http) (wrap : Wrap) (connection : Connection) (table : RouteTable)
    (req : Request) : Prop :=
  ∀ seen ended upstream admission,
    Path observer (handleCore http wrap connection table req) seen ended →
    Event.tryAcquire upstream (some admission) ∈ seen →
    settlements seen = [(upstream, admission)]

section Concrete

variable {http : Http} {wrap : Wrap} {connection : Connection} {table : RouteTable} {req : Request}
  {selected : Selected} {uri : Uri}

theorem path_dropped (selects : selectRoute http table req = .ok selected)
    (rebuilds : rebuildUri http req selected = .ok uri) (admission : Admission) :
    Path observer (handleCore http wrap connection table req)
      [.tryAcquire selected.route.upstream (some admission),
        .dropped (forwardedRequest connection table req selected uri)] none := by
  rw [handleCore, selects]
  refine .answered (some admission) ?_
  simp only [Program.bind, forward, rebuilds]
  exact .abandoned rfl

theorem path_answered (selects : selectRoute http table req = .ok selected)
    (rebuilds : rebuildUri http req selected = .ok uri) {admission : Admission} {ending : Ending}
    {later : List Event} {ended : Option Response}
    (concludes : Path observer (conclude wrap table selected.route.upstream admission
      (req.isEndStream || decide (wrap = .streaming)) ending) later ended) :
    Path observer (handleCore http wrap connection table req)
      (.tryAcquire selected.route.upstream (some admission) ::
        .select (forwardedRequest connection table req selected uri) ending :: later) ended := by
  rw [handleCore, selects]
  refine .answered (some admission) ?_
  simp only [Program.bind, forward, rebuilds]
  exact .answered ending concludes

end Concrete

def upload : Request where
  method := .other (ascii "POST")
  uri := ⟨none, none, some ⟨ascii "/api", none⟩⟩
  version := .http11
  headers := ⟨[(host, ⟨ascii "a.local", by decide⟩)]⟩
  isEndStream := false

def apiRoute : Route where
  pathPrefix := ascii "/api"
  upstream := ⟨⟨some (ascii "http"), some ⟨ascii "a.local:8001", ascii "a.local", some 8001⟩,
    some ⟨ascii "/", none⟩⟩, ascii "a.local:8001", 0, some (ascii "/health"), false⟩

def selectedApi : Selected := ⟨apiRoute, none⟩

def rebuiltApi : Uri := { apiRoute.upstream.uri with pathAndQuery := some ⟨ascii "/api", none⟩ }

theorem selectRoute_upload : selectRoute plainHttp apiTable upload = .ok selectedApi := by
  decide +kernel

theorem rebuildUri_upload : rebuildUri plainHttp upload selectedApi = .ok rebuiltApi := by
  decide +kernel

def localClient : Connection := ⟨.v4 0x7F000001, .http⟩

theorem conclude_responded :
    Path observer (conclude .streaming apiTable apiRoute.upstream .probe true (.responded 200 {}))
      [.recordSuccess apiRoute.upstream .probe] (some ⟨200, stripHopByHop {}, .boxed⟩) := by
  simp only [conclude]
  rw [if_neg (by omega)]
  exact .answered () .finished

theorem conclude_uncounted :
    Path observer (conclude .legacy apiTable apiRoute.upstream .probe false .timedOut) []
      (some (errorResponse 504 (ascii "upstream timeout"))) :=
  .finished

theorem answered_probe_settled :
    settlements [.tryAcquire apiRoute.upstream (some .probe),
      .select (forwardedRequest localClient apiTable upload selectedApi rebuiltApi)
        (.responded 200 {}),
      .recordSuccess apiRoute.upstream .probe] = [(apiRoute.upstream, .probe)] :=
  (ticket_settled_iff plainHttp .streaming localClient apiTable upload _ _ apiRoute.upstream .probe
    (path_answered selectRoute_upload rebuildUri_upload conclude_responded)
    List.mem_cons_self).mpr ⟨by simp [HungUp], by simp [UncountedTimeout]⟩

/-- The legacy handler loses the ticket of an upload that times out, and both lose
it when the client hangs up while they wait. -/
theorem tickets_lost :
    ¬TicketsSettled plainHttp .legacy localClient apiTable upload ∧
      ¬TicketsSettled plainHttp .streaming localClient apiTable upload := by
  constructor
  · intro settled
    have lost := settled _ _ apiRoute.upstream .probe
      (path_answered selectRoute_upload rebuildUri_upload conclude_uncounted) List.mem_cons_self
    simp [Event.settled] at lost
  · intro settled
    have lost := settled _ none apiRoute.upstream .probe
      (path_dropped selectRoute_upload rebuildUri_upload .probe) List.mem_cons_self
    simp [Event.settled] at lost

end Ferryman.Server
