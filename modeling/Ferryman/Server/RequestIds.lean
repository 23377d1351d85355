import Ferryman.Lib.NumeralProperties
import Ferryman.Server.HandlerRuns
import Ferryman.Server.Transparency

/-!
# Request ids

`handle_inner` (`proxy.rs`): a valid `x-request-id` of the client is kept, any
other is replaced, and the id goes to the upstream and back to the client. Since
no hop takes a valid id away, an id survives any chain of proxies in both
directions.
-/

set_option autoImplicit false

namespace Ferryman.Server

open Ferryman.Core Byte Bytes Program

/-! ## The wrapper around the handler -/

def maxRequestId : Nat := 128

def validRequestId (value : HeaderValue) : Bool :=
  value.bytes ≠ [] && value.bytes.length ≤ maxRequestId && value.bytes.all isGraphic

/-- `{:016x}`. -/
def hexWord (word : UInt64) : Bytes := (bigEndian 16 16 word.toNat).map digitByte

/-- The words come out of hashers with random keys, so they may be any two. -/
def generateRequestId (words : UInt64 × UInt64) : Bytes := hexWord words.1 ++ hexWord words.2

theorem digitByte_graphic : ∀ digit < 16, isGraphic (digitByte digit) = true := by decide

theorem hexWord_graphic (word : UInt64) : (hexWord word).all isGraphic = true := by
  refine List.all_eq_true.mpr fun c member => ?_
  obtain ⟨digit, isDigit, rfl⟩ := List.mem_map.mp member
  exact digitByte_graphic digit (bigEndian_lt (by decide) isDigit)

theorem length_hexWord (word : UInt64) : (hexWord word).length = 16 := by
  rw [hexWord, List.length_map, length_bigEndian]

theorem generateRequestId_graphic (words : UInt64 × UInt64) :
    (generateRequestId words).all isGraphic = true := by
  rw [generateRequestId, List.all_append, hexWord_graphic, hexWord_graphic]
  rfl

theorem length_generateRequestId (words : UInt64 × UInt64) :
    (generateRequestId words).length = 32 := by
  rw [generateRequestId, List.length_append, length_hexWord, length_hexWord]

theorem isVisible_of_isGraphic : ∀ c : UInt8, isGraphic c = true → isVisible c = true :=
  Byte.forall_of_fin (by decide +kernel)

theorem visible_of_graphic {text : Bytes} (graphic : text.all isGraphic = true) :
    text.all isVisible = true :=
  List.all_eq_true.mpr fun c member =>
    isVisible_of_isGraphic c (List.all_eq_true.mp graphic c member)

/-- `HeaderValue::from_str` of a text that is known to be fine. -/
def graphicValue (text : Bytes) (graphic : text.all isGraphic = true) : HeaderValue where
  bytes := text
  legal := List.all_eq_true.mpr fun c member =>
    HeaderValue.isValueByte_of_isVisible
      (List.all_eq_true.mp (visible_of_graphic graphic) c member)

def generatedValue (words : UInt64 × UInt64) : HeaderValue :=
  graphicValue (generateRequestId words) (generateRequestId_graphic words)

/-- More than one line is ambiguous and is replaced, too. -/
def ensureRequestId (headers : HeaderMap) (words : UInt64 × UInt64) : HeaderValue × HeaderMap :=
  let replaced := (generatedValue words, headers.insert xRequestId (generatedValue words))
  match headers.getAll xRequestId with
  | [value] => if validRequestId value then (value, headers) else replaced
  | _ => replaced

def HeaderMap.orInsert (headers : HeaderMap) (name : HeaderName) (value : HeaderValue) :
    HeaderMap :=
  if headers.getAll name = [] then headers.insert name value else headers

/-- The id of a request and the request as the handler gets it. -/
def identify (table : RouteTable) (req : Request) (words : UInt64 × UInt64) :
    Option HeaderValue × Request :=
  if table.requestId then
    let (id, headers) := ensureRequestId req.headers words
    (some id, { req with headers := headers })
  else (none, req)

/-- Without `request_id`, the id of a client is not sent back. -/
def echo (id : Option HeaderValue) (response : Response) : Response :=
  match id with
  | some value => { response with headers := response.headers.orInsert xRequestId value }
  | none => response

def handleInner (http : Http) (wrap : Wrap) (connection : Connection) (table : RouteTable)
    (req : Request) (words : UInt64 × UInt64) : Program Effect Response := do
  let (id, req) := identify table req words
  let response ← handleCore http wrap connection table req
  pure (echo id response)

/-! ## The id of a request -/

theorem validRequestId_generatedValue (words : UInt64 × UInt64) :
    validRequestId (generatedValue words) = true := by
  have long : (generatedValue words).bytes.length = 32 := length_generateRequestId words
  have nonempty : (generatedValue words).bytes ≠ [] := by
    intro empty
    rw [empty] at long
    cases long
  have graphic : (generatedValue words).bytes.all isGraphic = true :=
    generateRequestId_graphic words
  simp [validRequestId, nonempty, long, graphic, maxRequestId]

/-- A single valid line of the client decides, else the generated id. -/
def assignedId (headers : HeaderMap) (words : UInt64 × UInt64) : HeaderValue :=
  (ensureRequestId headers words).1

theorem ensureRequestId_spec (headers : HeaderMap) (words : UInt64 × UInt64) :
    validRequestId (assignedId headers words) = true ∧
      (ensureRequestId headers words).2.getAll xRequestId = [assignedId headers words] ∧
      ∀ value, headers.getAll xRequestId = [value] → validRequestId value = true →
        assignedId headers words = value := by
  have replaced : validRequestId (generatedValue words) = true ∧
      (headers.insert xRequestId (generatedValue words)).getAll xRequestId =
        [generatedValue words] :=
    ⟨validRequestId_generatedValue words, by rw [HeaderMap.getAll_insert, if_pos rfl]⟩
  simp only [assignedId, ensureRequestId]
  split
  · next value single =>
    split
    · next valid =>
      refine ⟨valid, single, fun other isOther _ => ?_⟩
      exact (List.cons.inj (single.symm.trans isOther)).1
    · next invalid =>
      refine ⟨replaced.1, replaced.2, fun other isOther valid => ?_⟩
      rw [← (List.cons.inj (single.symm.trans isOther)).1] at valid
      exact absurd valid invalid
  · next ambiguous =>
    exact ⟨replaced.1, replaced.2, fun value single _ => absurd single (ambiguous value)⟩

/-- The rewriting keeps the lines of the id, even when `Connection` lists it. -/
theorem getAll_xRequestId_rewriteHeaders (forwarding : Forwarding) (headers : HeaderMap) :
    (rewriteHeaders forwarding headers).getAll xRequestId = headers.getAll xRequestId := by
  have passes : Passes headers xRequestId :=
    ⟨by decide, fun _ => by decide, by decide +kernel, by decide, by decide, by decide⟩
  exact passes.getAll_rewriteHeaders forwarding

theorem getAll_xRequestId_stripHopByHop (headers : HeaderMap) :
    (stripHopByHop headers).getAll xRequestId = headers.getAll xRequestId :=
  getAll_stripHopByHop_of_kept (by decide) fun _ => by decide

@[simp] theorem echo_status (id : Option HeaderValue) (response : Response) :
    (echo id response).status = response.status := by
  cases id <;> rfl

@[simp] theorem echo_body (id : Option HeaderValue) (response : Response) :
    (echo id response).body = response.body := by
  cases id <;> rfl

/-- What a client may see as its id: the lines of the upstream, or the id. -/
theorem getAll_xRequestId_echo (value : HeaderValue) (response : Response) :
    (echo (some value) response).headers.getAll xRequestId =
      if response.headers.getAll xRequestId = [] then [value]
      else response.headers.getAll xRequestId := by
  simp only [echo, HeaderMap.orInsert]
  split
  · next absent => rw [HeaderMap.getAll_insert, if_pos rfl]
  · rfl

/-! ## One hop -/

section Hop

variable {http : Http} {wrap : Wrap} {connection : Connection} {table : RouteTable} {req : Request}
  {words : UInt64 × UInt64} {events : List Event} {ended : Option Response}

theorem Conclusion.no_select {upstream : Upstream} {admission : Admission} {countsTimeout : Bool}
    {ending : Ending} {later : List Event} {response : Response}
    (conclusion : Conclusion wrap table upstream admission countsTimeout ending later response)
    (sent : Request) (other : Ending) : .select sent other ∉ later := by
  cases conclusion with
  | timedOut => split <;> simp
  | bodyTimeout | bodyError | passed => simp
  | failed _ _ verdict => cases verdict <;> simp
  | gateway _ verdict => cases verdict <;> simp

/-- A run that got a response of the upstream hands it on. -/
theorem HandlerRun.responded {sent : Request} {status : Nat} {headers : HeaderMap}
    {response : Response} (run : HandlerRun http wrap connection table req events (some response))
    (asked : .select sent (.responded status headers) ∈ events) :
    (∃ selected uri, selectRoute http table req = .ok selected ∧
      rebuildUri http req selected = .ok uri ∧
      sent = forwardedRequest connection table req selected uri) ∧
    response = ⟨status, stripHopByHop headers, .boxed⟩ := by
  cases run with
  | turnedAway => simp at asked
  | unavailable => simp at asked
  | unbuilt => simp at asked
  | @answered selected uri admission ending later _ selects rebuilds conclusion =>
      have silent := conclusion.no_select sent (.responded status headers)
      simp only [List.mem_cons, reduceCtorEq, Event.select.injEq, silent, or_false, false_or]
        at asked
      obtain ⟨rfl, rfl⟩ := asked
      refine ⟨⟨selected, uri, selects, rebuilds, rfl⟩, ?_⟩
      cases conclusion with
      | gateway | passed => rfl

theorem handleInner_path_iff :
    Path observer (handleInner http wrap connection table req words) events ended ↔
      ∃ inner, HandlerRun http wrap connection table (identify table req words).2 events inner ∧
        ended = inner.map (echo (identify table req words).1) := by
  have sequence : handleInner http wrap connection table req words =
      handleCore http wrap connection table (identify table req words).2 >>= fun response =>
        done (echo (identify table req words).1 response) := by
    rw [handleInner]
    rfl
  rw [sequence, path_map]
  exact exists_congr fun inner => and_congr_left fun _ => handleCore_path_iff

theorem handleInner_responded {sent : Request} {status : Nat} {headers : HeaderMap}
    {response : Response}
    (path : Path observer (handleInner http wrap connection table req words) events (some response))
    (asked : .select sent (.responded status headers) ∈ events) :
    (∃ selected uri, selectRoute http table (identify table req words).2 = .ok selected ∧
      sent = forwardedRequest connection table (identify table req words).2 selected uri) ∧
    response = echo (identify table req words).1 ⟨status, stripHopByHop headers, .boxed⟩ := by
  obtain ⟨inner, run, isInner⟩ := handleInner_path_iff.mp path
  obtain ⟨answer, rfl, rfl⟩ := Option.map_eq_some_iff.mp isInner.symm
  obtain ⟨⟨selected, uri, selects, -, isSent⟩, rfl⟩ := run.responded asked
  exact ⟨⟨selected, uri, selects, isSent⟩, rfl⟩

/-- With `request_id`, the upstream gets exactly the assigned id, which is valid, and the
client gets it back unless the upstream answers with one of its own. Without it, the
lines of both pass as they are. -/
theorem handleInner_ids {sent : Request} {status : Nat} {headers : HeaderMap} {response : Response}
    (path : Path observer (handleInner http wrap connection table req words) events (some response))
    (asked : .select sent (.responded status headers) ∈ events) :
    let id := assignedId req.headers words
    let answered := headers.getAll xRequestId
    (table.requestId = true →
      validRequestId id = true ∧ sent.headers.getAll xRequestId = [id] ∧
        response.headers.getAll xRequestId = if answered = [] then [id] else answered) ∧
    (table.requestId = false →
      sent.headers.getAll xRequestId = req.headers.getAll xRequestId ∧
        response.headers.getAll xRequestId = answered) := by
  obtain ⟨⟨selected, uri, -, rfl⟩, rfl⟩ := handleInner_responded path asked
  obtain ⟨valid, single, -⟩ := ensureRequestId_spec req.headers words
  constructor
  · intro isOn
    simp only [identify, isOn, if_true]
    refine ⟨valid, (getAll_xRequestId_rewriteHeaders _ _).trans single, ?_⟩
    rw [getAll_xRequestId_echo, getAll_xRequestId_stripHopByHop]
    rfl
  · intro isOff
    simp only [identify, isOff, Bool.false_eq_true, if_false]
    exact ⟨getAll_xRequestId_rewriteHeaders _ _, getAll_xRequestId_stripHopByHop headers⟩

end Hop

/-! ## Chains of proxies -/

/-- One proxy of a chain, and what it draws in case it needs a new id. -/
structure IdHop where
  wrap : Wrap
  connection : Connection
  table : RouteTable
  words : UInt64 × UInt64

/-- A request that went through all hops to an origin, and the response that came
back. Between two hops a message may change in every way that keeps the lines of
the given names and the status. -/
inductive Relayed (http : Http) (names : List HeaderName) :
    List IdHop → Request → Request → Response → Response → Prop where
  | origin (req : Request) (answer : Response) : Relayed http names [] req req answer answer
  | hop {hop : IdHop} {hops : List IdHop} {req sent next reached : Request} {events : List Event}
      {headers : HeaderMap} {answer back response : Response} :
      Path observer (handleInner http hop.wrap hop.connection hop.table req hop.words) events
        (some response) →
      .select sent (.responded back.status headers) ∈ events →
      (∀ name ∈ names, next.headers.getAll name = sent.headers.getAll name) →
      Relayed http names hops next reached answer back →
      (∀ name ∈ names, headers.getAll name = back.headers.getAll name) →
      Relayed http names (hop :: hops) req reached answer response

/-- The lines a client may get for an id: those of the origin, or the id. -/
def Returns (id : HeaderValue) (answer response : Response) : Prop :=
  response.headers.getAll xRequestId = answer.headers.getAll xRequestId ∨
    (answer.headers.getAll xRequestId = [] ∧ response.headers.getAll xRequestId = [id])

/-- A single valid id passes every hop, whatever each of them is set to. -/
theorem Relayed.carries {http : Http} {hops : List IdHop} {req reached : Request}
    {answer response : Response}
    (relayed : Relayed http [xRequestId] hops req reached answer response)
    {id : HeaderValue} (valid : validRequestId id = true)
    (single : req.headers.getAll xRequestId = [id]) :
    reached.headers.getAll xRequestId = [id] ∧ Returns id answer response := by
  induction relayed with
  | origin req answer => exact ⟨single, .inl rfl⟩
  | @hop hop hops req sent next reached events headers answer back response path asked carried _
      received ih =>
      have carried := carried xRequestId List.mem_cons_self
      have received := received xRequestId List.mem_cons_self
      obtain ⟨on, off⟩ := handleInner_ids path asked
      have assigned : assignedId req.headers hop.words = id :=
        (ensureRequestId_spec req.headers hop.words).2.2 id single valid
      rw [assigned] at on
      have passed : sent.headers.getAll xRequestId = [id] := by
        cases isOn : hop.table.requestId with
        | true => exact (on isOn).2.1
        | false => exact (off isOn).1.trans single
      obtain ⟨reaches, returns⟩ := ih (carried.trans passed)
      refine ⟨reaches, ?_⟩
      rw [received] at on off
      cases isOn : hop.table.requestId with
      | false =>
          have same := (off isOn).2
          cases returns with
          | inl own => exact .inl (same.trans own)
          | inr added => exact .inr ⟨added.1, same.trans added.2⟩
      | true =>
          have echoed := (on isOn).2.2
          cases returns with
          | inl own =>
              rw [own] at echoed
              split at echoed
              · next none => exact .inr ⟨none, echoed⟩
              · exact .inl echoed
          | inr added =>
              rw [added.2] at echoed
              exact .inr ⟨added.1, by simpa using echoed⟩

/-- The id that the first hop assigns reaches the origin behind any chain of hops, and
comes back to the client unless the origin answers with one of its own. -/
theorem request_id_survives_chain {http : Http} {first : IdHop} {later : List IdHop}
    {req reached : Request} {answer response : Response}
    (relayed : Relayed http [xRequestId] (first :: later) req reached answer response)
    (isOn : first.table.requestId = true) :
    validRequestId (assignedId req.headers first.words) = true ∧
    reached.headers.getAll xRequestId = [assignedId req.headers first.words] ∧
    response.headers.getAll xRequestId =
      if answer.headers.getAll xRequestId = [] then [assignedId req.headers first.words]
      else answer.headers.getAll xRequestId := by
  cases relayed with
  | @hop _ _ _ sent next _ events headers _ back _ path asked carried rest received =>
      obtain ⟨valid, sentIds, echoed⟩ := (handleInner_ids path asked).1 isOn
      rw [received xRequestId List.mem_cons_self] at echoed
      have single := (carried xRequestId List.mem_cons_self).trans sentIds
      obtain ⟨reaches, returns⟩ := rest.carries valid single
      refine ⟨valid, reaches, ?_⟩
      cases returns with
      | inl own => rw [echoed, own]
      | inr added =>
          rw [added.2] at echoed
          rw [if_pos added.1]
          simpa using echoed

/-! ## A chain of two -/

def identifyingTable : RouteTable := { apiTable with requestId := true }

/-- The upload behind the first hop, which drew two zeros. -/
def labelled : Request := (identify identifyingTable upload (0, 0)).2

/-- A run with a request that goes to the upstream, which accepts it. -/
theorem path_accepted {table : RouteTable} {req handled : Request} {words : UInt64 × UInt64}
    {headers : HeaderMap} (identified : (identify table req words).2 = handled)
    (selects : selectRoute plainHttp table handled = .ok selectedApi)
    (rebuilds : rebuildUri plainHttp handled selectedApi = .ok rebuiltApi) :
    Path observer (handleInner plainHttp .streaming localClient table req words)
      [.tryAcquire apiRoute.upstream (some .probe),
        .select (forwardedRequest localClient table handled selectedApi rebuiltApi)
          (.responded 200 headers),
        .recordSuccess apiRoute.upstream .probe]
      (some (echo (identify table req words).1 ⟨200, stripHopByHop headers, .boxed⟩)) := by
  refine handleInner_path_iff.mpr ⟨some _, ?_, rfl⟩
  rw [identified]
  exact .answered selects rebuilds (.passed (by omega))

theorem upload_survives_chain :
    ∃ (reached : Request) (response : Response),
      reached.headers.getAll xRequestId = [generatedValue (0, 0)] ∧
        response.headers.getAll xRequestId = [generatedValue (0, 0)] := by
  have built : rebuildUri plainHttp labelled selectedApi = .ok rebuiltApi := by decide +kernel
  have first := @path_accepted identifyingTable upload labelled (0, 0) {} rfl (by decide +kernel) built
  have second := @path_accepted apiTable labelled labelled (0, 0) {} rfl (by decide +kernel) built
  let reached : Request := forwardedRequest localClient apiTable labelled selectedApi rebuiltApi
  let answer : Response := ⟨200, {}, .boxed⟩
  let back : Response := ⟨200, stripHopByHop {}, .boxed⟩
  have behind : Relayed plainHttp [xRequestId] [⟨.streaming, localClient, apiTable, (0, 0)⟩]
      labelled reached answer back :=
    .hop second (List.mem_cons_of_mem _ List.mem_cons_self) (fun _ _ => rfl)
      (.origin reached answer) fun _ _ => rfl
  have chain : Relayed plainHttp [xRequestId]
      [⟨.streaming, localClient, identifyingTable, (0, 0)⟩,
        ⟨.streaming, localClient, apiTable, (0, 0)⟩]
      upload reached answer (echo (some (generatedValue (0, 0))) back) := by
    refine .hop first (List.mem_cons_of_mem _ List.mem_cons_self) ?_ behind fun _ _ => rfl
    intro name isId
    obtain rfl := List.mem_singleton.mp isId
    exact (getAll_xRequestId_rewriteHeaders _ labelled.headers).symm
  exact ⟨_, _, (request_id_survives_chain chain rfl).2⟩

end Ferryman.Server
