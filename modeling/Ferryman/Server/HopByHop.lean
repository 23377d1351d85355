import Ferryman.Server.Forwarded

/-!
# Hop-by-hop stripping

Which headers `stripHopByHop` takes away. It reads the names of a `Connection`
line only when the whole line is visible ASCII, so a name in a line with any
other byte is not read.
-/

set_option autoImplicit false

namespace Ferryman.Server

open Byte Bytes

/-- The names a line lists: comma-separated, trimmed and in any case. -/
def lineNames (value : HeaderValue) : List HeaderName :=
  (value.bytes.splitOn comma).filterMap fun token => HeaderName.fromBytes (trim token)

def connectionLines (headers : HeaderMap) : List HeaderValue :=
  headers.getAll connection

/-- Some `Connection` line lists the name. -/
def NamedByConnection (headers : HeaderMap) (name : HeaderName) : Prop :=
  ∃ value ∈ connectionLines headers, name ∈ lineNames value

def isKept (name : HeaderName) : Bool :=
  name = host || name = xRequestId

/-- What is to be removed: the fixed set, and what `Connection` lists apart from
`host` and `x-request-id`. -/
def ToRemove (headers : HeaderMap) (name : HeaderName) : Prop :=
  name ∈ hopByHopHeaders ∨ (NamedByConnection headers name ∧ isKept name = false)

/-- Exactly the headers to remove are gone, every other one has its values in
order, and a second application changes nothing. -/
structure StripsExactly (strip : HeaderMap → HeaderMap) (headers : HeaderMap) : Prop where
  removed : ∀ name, ToRemove headers name → (strip headers).getAll name = []
  untouched : ∀ name, ¬ToRemove headers name → (strip headers).getAll name = headers.getAll name
  idempotent : strip (strip headers) = strip headers

/-! ## What the strip removes -/

theorem mem_connectionNames {headers : HeaderMap} {name : HeaderName} :
    name ∈ connectionNames headers ↔
      ∃ value ∈ connectionLines headers, value.bytes.all isVisible = true ∧
        name ∈ lineNames value := by
  simp only [connectionNames, List.mem_flatMap, List.mem_filterMap, connectionLines]
  constructor
  · intro found
    obtain ⟨text, ⟨value, isLine, shown⟩, token, isToken, isName⟩ := found
    simp only [HeaderValue.toStr] at shown
    split at shown
    · next visible =>
      obtain rfl := Option.some.inj shown
      exact ⟨value, isLine, visible, List.mem_filterMap.mpr ⟨token, isToken, isName⟩⟩
    · cases shown
  · intro found
    obtain ⟨value, isLine, visible, isName⟩ := found
    obtain ⟨token, isToken, isName⟩ := List.mem_filterMap.mp isName
    exact ⟨value.bytes, ⟨value, isLine, if_pos visible⟩, token, isToken, isName⟩

theorem getAll_stripHopByHop (headers : HeaderMap) (name : HeaderName) :
    (stripHopByHop headers).getAll name =
      if name ∈ hopByHopHeaders ∨ (name ∈ connectionNames headers ∧ isKept name = false) then []
      else headers.getAll name := by
  rw [stripHopByHop, HeaderMap.getAll_removeAll, HeaderMap.getAll_removeAll]
  by_cases isFixed : name ∈ hopByHopHeaders
  · simp [isFixed]
  · simp [isFixed, isKept, List.mem_filter]

theorem remove_of_absent {headers : HeaderMap} {name : HeaderName}
    (absent : headers.getAll name = []) : headers.remove name = headers := by
  rw [HeaderMap.getAll, List.map_eq_nil_iff, List.filter_eq_nil_iff] at absent
  have unchanged : headers.lines.filter (·.1 ≠ name) = headers.lines := by
    rw [List.filter_eq_self]
    intro line member
    simpa using absent line member
  rw [HeaderMap.remove, unchanged]

theorem removeAll_of_absent {headers : HeaderMap} {names : List HeaderName}
    (absent : ∀ name ∈ names, headers.getAll name = []) :
    names.foldl HeaderMap.remove headers = headers := by
  induction names with
  | nil => rfl
  | cons name names ih =>
      obtain ⟨first, others⟩ := List.forall_mem_cons.mp absent
      rw [List.foldl_cons, remove_of_absent first, ih others]

theorem stripHopByHop_of_noNames {headers : HeaderMap} (noNames : connectionNames headers = []) :
    stripHopByHop headers = hopByHopHeaders.foldl HeaderMap.remove headers := by
  simp only [stripHopByHop, noNames, List.filter_nil, List.foldl_nil]

/-- No `Connection` line is left to name anything. -/
theorem stripHopByHop_idempotent (headers : HeaderMap) :
    stripHopByHop (stripHopByHop headers) = stripHopByHop headers := by
  have fixedGone : ∀ name ∈ hopByHopHeaders, (stripHopByHop headers).getAll name = [] := by
    intro name isFixed
    rw [getAll_stripHopByHop, if_pos (.inl isFixed)]
  have noNames : connectionNames (stripHopByHop headers) = [] := by
    rw [connectionNames, fixedGone connection List.mem_cons_self]
    rfl
  rw [stripHopByHop_of_noNames noNames, removeAll_of_absent fixedGone]

/-! ## When nothing is missed -/

/-- Every header that a line of other bytes lists is absent, exempt, or removed
for another reason. -/
def NothingMissed (headers : HeaderMap) : Prop :=
  ∀ value ∈ connectionLines headers, value.bytes.all isVisible = false →
    ∀ name ∈ lineNames value,
      headers.getAll name = [] ∨ isKept name = true ∨ name ∈ hopByHopHeaders ∨
        ∃ other ∈ connectionLines headers, other.bytes.all isVisible = true ∧
          name ∈ lineNames other

theorem toRemove_of_read {headers : HeaderMap} {name : HeaderName}
    (read : name ∈ hopByHopHeaders ∨ (name ∈ connectionNames headers ∧ isKept name = false)) :
    ToRemove headers name := by
  cases read with
  | inl isFixed => exact .inl isFixed
  | inr named =>
      obtain ⟨value, isLine, -, isName⟩ := mem_connectionNames.mp named.1
      exact .inr ⟨⟨value, isLine, isName⟩, named.2⟩

theorem stripHopByHop_exact_iff (headers : HeaderMap) :
    StripsExactly stripHopByHop headers ↔ NothingMissed headers := by
  constructor
  · intro exactly value isLine invisible name isName
    by_cases isFixed : name ∈ hopByHopHeaders
    · exact .inr (.inr (.inl isFixed))
    · cases kept : isKept name with
      | true => exact .inr (.inl rfl)
      | false =>
          by_cases read : name ∈ connectionNames headers
          · exact .inr (.inr (.inr (mem_connectionNames.mp read)))
          · have gone := exactly.removed name (.inr ⟨⟨value, isLine, isName⟩, kept⟩)
            rw [getAll_stripHopByHop, if_neg (by simp [isFixed, read])] at gone
            exact .inl gone
  · intro nothingMissed
    refine ⟨fun name toRemove => ?_, fun name toKeep => ?_, stripHopByHop_idempotent headers⟩
    · rw [getAll_stripHopByHop]
      split
      · rfl
      · next notRead =>
        rw [not_or] at notRead
        cases toRemove with
        | inl isFixed => exact absurd isFixed notRead.1
        | inr named =>
            obtain ⟨⟨value, isLine, isName⟩, notKept⟩ := named
            have unread : name ∉ connectionNames headers := fun read => notRead.2 ⟨read, notKept⟩
            have invisible : value.bytes.all isVisible = false := by
              cases visible : value.bytes.all isVisible with
              | false => rfl
              | true => exact absurd (mem_connectionNames.mpr ⟨value, isLine, visible, isName⟩) unread
            rcases nothingMissed value isLine invisible name isName with
              absent | kept | isFixed | elsewhere
            · exact absent
            · simp [kept] at notKept
            · exact absurd isFixed notRead.1
            · exact absurd (mem_connectionNames.mpr elsewhere) unread
    · rw [getAll_stripHopByHop, if_neg fun read => toKeep (toRemove_of_read read)]

/-! ## A name beside a byte that is not visible -/

def xSecret : HeaderName := ⟨ascii "x-secret", by decide⟩

def garbledConnection : HeaderMap :=
  ⟨[(connection, ⟨ascii "x-secret, " ++ [0xFF], by decide⟩), (xSecret, ⟨ascii "1", by decide⟩)]⟩

/-- `x-secret` is listed in `Connection` and is forwarded all the same. -/
theorem garbledConnection_not_stripped :
    ¬∀ headers, StripsExactly stripHopByHop headers := by
  intro claimed
  have listed : ToRemove garbledConnection xSecret := by
    refine .inr ⟨⟨⟨ascii "x-secret, " ++ [0xFF], by decide⟩, ?_, ?_⟩, by decide⟩
    · decide +kernel
    · decide +kernel
  have gone := (claimed garbledConnection).removed xSecret listed
  revert gone
  decide +kernel

end Ferryman.Server
