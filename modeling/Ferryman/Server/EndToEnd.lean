import Ferryman.Server.RequestIds

/-!
# Messages through a chain of proxies

What one hop leaves alone, any number of hops leaves alone: the end-to-end
headers of a request and of its response, and the status. Hop-by-hop headers are
taken out by the first hop that sees them.
-/

set_option autoImplicit false

namespace Ferryman.Server

open Ferryman.Core Byte Bytes Program

/-! ## One hop -/

theorem getAll_identify_of_ne (table : RouteTable) (req : Request) (words : UInt64 × UInt64)
    {name : HeaderName} (notId : name ≠ xRequestId) :
    (identify table req words).2.headers.getAll name = req.headers.getAll name := by
  have ensured : (ensureRequestId req.headers words).2.getAll name = req.headers.getAll name := by
    have replaced : (req.headers.insert xRequestId (generatedValue words)).getAll name =
        req.headers.getAll name := by rw [HeaderMap.getAll_insert, if_neg notId]
    simp only [ensureRequestId]
    split
    · split
      · rfl
      · exact replaced
    · exact replaced
  unfold identify
  split
  · exact ensured
  · rfl

theorem getAll_echo_of_ne (id : Option HeaderValue) (response : Response) {name : HeaderName}
    (notId : name ≠ xRequestId) :
    (echo id response).headers.getAll name = response.headers.getAll name := by
  cases id with
  | none => rfl
  | some value =>
      simp only [echo, HeaderMap.orInsert]
      split
      · rw [HeaderMap.getAll_insert, if_neg notId]
      · rfl

theorem connectionNames_congr {first second : HeaderMap}
    (same : first.getAll connection = second.getAll connection) :
    connectionNames first = connectionNames second := by
  rw [connectionNames, connectionNames, same]

theorem connectionNames_of_none {headers : HeaderMap} (none : headers.getAll connection = []) :
    connectionNames headers = [] := by
  simp [connectionNames, none]

/-- Stripping depends on the lines of the name and on those of `Connection` only. -/
theorem getAll_stripHopByHop_congr {first second : HeaderMap} {name : HeaderName}
    (same : ∀ other ∈ [name, connection], first.getAll other = second.getAll other) :
    (stripHopByHop first).getAll name = (stripHopByHop second).getAll name := by
  rw [getAll_stripHopByHop, getAll_stripHopByHop, connectionNames_congr (same connection (by simp)),
    same name (by simp)]

theorem Passes.congr {first second : HeaderMap} {name : HeaderName} (passes : Passes first name)
    (same : first.getAll connection = second.getAll connection) : Passes second name := by
  have unlisted := passes.unlisted
  rw [connectionNames_congr same] at unlisted
  exact { passes with unlisted := unlisted }

theorem getAll_connection_stripHopByHop (headers : HeaderMap) :
    (stripHopByHop headers).getAll connection = [] := by
  rw [getAll_stripHopByHop, if_pos (.inl (by decide))]

section Chain

variable {http : Http} {name : HeaderName} {req reached : Request} {answer response : Response}

/-- An end-to-end header of a request passes every hop. -/
theorem Relayed.keeps_request {hops : List IdHop}
    (relayed : Relayed http [name, connection] hops req reached answer response)
    (notId : name ≠ xRequestId) (passes : Passes req.headers name) :
    reached.headers.getAll name = req.headers.getAll name := by
  induction relayed with
  | origin req answer => rfl
  | @hop hop hops req sent next reached events headers answer back response path asked carried _
      _ ih =>
      obtain ⟨⟨selected, uri, -, rfl⟩, -⟩ := handleInner_responded path asked
      have identified := fun other differs =>
        @getAll_identify_of_ne hop.table req hop.words other differs
      have kept : (identify hop.table req hop.words).2.headers.getAll connection =
          req.headers.getAll connection := identified connection (by decide)
      have sent := (passes.congr kept.symm).getAll_rewriteHeaders
        (forwarding hop.connection hop.table (identify hop.table req hop.words).2 selected)
      have gone : next.headers.getAll connection = [] :=
        (carried connection (by simp)).trans (getAll_rewriteHeaders_hopByHop _ _ (by decide))
      have passesNext : Passes next.headers name :=
        { passes with unlisted := by simp [connectionNames_of_none gone] }
      rw [ih passesNext, carried name (by simp)]
      exact sent.trans (identified name notId)

/-- A response is stripped once, however many hops it passes. -/
theorem Relayed.keeps_response {hops : List IdHop}
    (relayed : Relayed http [name, connection] hops req reached answer response)
    (notId : name ≠ xRequestId) :
    response.status = answer.status ∧
      (hops ≠ [] → response.headers.getAll connection = [] ∧
        response.headers.getAll name = (stripHopByHop answer.headers).getAll name) := by
  induction relayed with
  | origin req answer => exact ⟨rfl, fun nonempty => absurd rfl nonempty⟩
  | @hop hop hops req sent next reached events headers answer back response path asked _ rest
      received ih =>
      obtain ⟨-, rfl⟩ := handleInner_responded path asked
      obtain ⟨status, lines⟩ := ih
      refine ⟨(echo_status _ _).trans status, fun _ => ⟨?_, ?_⟩⟩
      · rw [getAll_echo_of_ne _ _ (by decide)]
        exact getAll_connection_stripHopByHop headers
      · rw [getAll_echo_of_ne _ _ notId]
        refine (getAll_stripHopByHop_congr received).trans ?_
        cases rest with
        | origin => rfl
        | hop =>
            obtain ⟨none, same⟩ := lines (by simp)
            rw [getAll_stripHopByHop, connectionNames_of_none none, same, getAll_stripHopByHop]
            split
            · next hopByHop =>
              split
              · rfl
              · next kept => exact absurd (.inl (hopByHop.resolve_right (by simp))) kept
            · rfl

/-- An end-to-end header reaches the origin behind any chain of hops as the client sent
it. The client gets the status of the origin and, under every name but that of the
request id, the lines that one hop would leave of its headers. -/
theorem end_to_end_survives_chain {first : IdHop} {later : List IdHop}
    (relayed : Relayed http [name, connection] (first :: later) req reached answer response)
    (notId : name ≠ xRequestId) :
    (Passes req.headers name → reached.headers.getAll name = req.headers.getAll name) ∧
      response.status = answer.status ∧
      response.headers.getAll name =
        if name ∈ hopByHopHeaders ∨ (name ∈ connectionNames answer.headers ∧ isKept name = false)
        then []
        else answer.headers.getAll name := by
  obtain ⟨status, lines⟩ := relayed.keeps_response notId
  refine ⟨relayed.keeps_request notId, status, ?_⟩
  rw [(lines (by simp)).2, getAll_stripHopByHop]

end Chain

/-! ## A header through two hops -/

def accept : HeaderName := ⟨ascii "accept", by decide⟩

def selective : Request :=
  { upload with
    headers := ⟨upload.headers.lines ++ [(accept, ⟨ascii "text/html", by decide⟩)]⟩ }

/-- The origin's answer names one of its own headers as meant for one hop. -/
def privately : HeaderMap :=
  ⟨[(accept, ⟨ascii "text/plain", by decide⟩), (connection, ⟨ascii "Accept", by decide⟩)]⟩

def apiHopPlain : IdHop := ⟨.streaming, localClient, apiTable, (0, 0)⟩

theorem accept_survives_two_hops :
    ∃ (reached : Request) (response : Response),
      reached.headers.getAll accept = selective.headers.getAll accept ∧ response.status = 200 ∧
        response.headers.getAll accept = [] := by
  have built : rebuildUri plainHttp selective selectedApi = .ok rebuiltApi := by decide +kernel
  have selects : selectRoute plainHttp apiTable selective = .ok selectedApi := by decide +kernel
  let sent : Request := forwardedRequest localClient apiTable selective selectedApi rebuiltApi
  let answer : Response := ⟨200, privately, .boxed⟩
  let back : Response := ⟨200, stripHopByHop privately, .boxed⟩
  let received : Response := ⟨200, stripHopByHop (stripHopByHop privately), .boxed⟩
  have firstPath := @path_accepted apiTable selective selective (0, 0) (stripHopByHop privately)
    rfl selects built
  have secondPath := @path_accepted apiTable selective selective (0, 0) privately rfl selects built
  have unlisted : connectionNames selective.headers = [] := connectionNames_of_none (by decide)
  have passes : Passes selective.headers accept :=
    ⟨by decide, by simp [unlisted], by decide +kernel, by decide, by decide, by decide⟩
  have carried : ∀ name ∈ [accept, connection],
      selective.headers.getAll name = sent.headers.getAll name := by
    intro name isName
    rcases List.mem_cons.mp isName with rfl | isConnection
    · exact (passes.getAll_rewriteHeaders _).symm
    · obtain rfl := List.mem_singleton.mp isConnection
      exact (getAll_rewriteHeaders_hopByHop _ _ (by decide)).symm
  have second : Relayed plainHttp [accept, connection] [apiHopPlain] selective sent answer back :=
    .hop secondPath (List.mem_cons_of_mem _ List.mem_cons_self) (fun _ _ => rfl)
      (.origin sent answer) fun _ _ => rfl
  have chain : Relayed plainHttp [accept, connection] [apiHopPlain, apiHopPlain] selective sent
      answer received :=
    .hop firstPath (List.mem_cons_of_mem _ List.mem_cons_self) carried second fun _ _ => rfl
  obtain ⟨request, status, lines⟩ := end_to_end_survives_chain chain (by decide)
  refine ⟨sent, received, request passes, status, lines.trans ?_⟩
  decide +kernel

end Ferryman.Server
