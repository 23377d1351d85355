import Ferryman.Core.ReloadChain
import Ferryman.Server.Transparency
import Ferryman.Server.Tickets

/-!
# The host the upstream sees

Every forwarded request carries at most one `Host` line: the authority of the
upstream, the authority of the request, or the one line of the client, which was
checked to be a bare host with a port that fits.
-/

set_option autoImplicit false

namespace Ferryman.Server

open Ferryman.Core Byte Bytes

/-! ## Selected requests -/

/-- Everything that was checked of a request before it is admitted. -/
structure Accepted (http : Http) (table : RouteTable) (req : Request) (selected : Selected) :
    Prop where
  notLocal : ¬(table.localHealthPath = some req.uri.path ∧ (req.method = .get ∨ req.method = .head))
  goodPath : badPathNormalized req.uri.path = false
  unambiguous : ambiguousRoute table req.uri.path = false
  goodHost : badHost http req.headers req.uri req.version = false
  found : table.lookup req.uri.path = some selected.route
  strip : if selected.route.stripPrefix then
      ∃ stripped, selected.route.strippedPath req.uri.path = some stripped ∧
        selected.strip = some (stripped, selected.route.strippedPrefix)
    else selected.strip = none
  plain : ¬(wantsUpgrade req.headers ∨ req.method = .connect)

theorem accepted_of_selectRoute {http : Http} {table : RouteTable} {req : Request}
    {selected : Selected} (selects : selectRoute http table req = .ok selected) :
    Accepted http table req selected := by
  simp only [selectRoute] at selects
  split at selects
  · cases selects
  next notLocal =>
  split at selects
  · cases selects
  next checked =>
  rw [Bool.or_eq_true, not_or, Bool.not_eq_true, Bool.not_eq_true] at checked
  split at selects
  · cases selects
  next goodHost =>
  rw [Bool.not_eq_true] at goodHost
  split at selects
  · cases selects
  next route found =>
  -- the rest is a stripped path, or none to strip, and no upgrade
  have finish : ∀ strip, (if route.stripPrefix then
        ∃ stripped, route.strippedPath req.uri.path = some stripped ∧
          strip = some (stripped, route.strippedPrefix)
      else strip = none) →
      (if wantsUpgrade req.headers ∨ req.method = .connect then
          throw (errorResponse 501 (ascii "protocol upgrades are not supported"))
        else (pure ⟨route, strip⟩ : Except Response Selected)) = .ok selected →
      Accepted http table req selected := by
    intro strip stripped ends
    split at ends
    · cases ends
    next plain =>
    obtain rfl := Except.ok.inj ends
    exact ⟨notLocal, checked.1, checked.2, goodHost, found, stripped, plain⟩
  cases strips : route.stripPrefix with
  | true =>
      simp only [strips, if_true] at selects
      cases path : route.strippedPath req.uri.path with
      | none =>
          simp only [path] at selects
          cases selects
      | some stripped =>
          simp only [path] at selects
          exact finish _ (by rw [if_pos strips]; exact ⟨stripped, path, rfl⟩) selects
  | false =>
      simp only [strips, Bool.false_eq_true, if_false] at selects
      exact finish none (by rw [strips]; simp) selects

/-! ## A bare host -/

/-- The digits behind the last colon, unless that colon is inside brackets. -/
def HasPort (text port : Bytes) : Prop :=
  (∃ name, text = name ++ colon :: port) ∧ colon ∉ port ∧ closeBracket ∉ port

/-- A host with an optional port that fits 16 bits: no user, list or path, and
nothing outside of ASCII. -/
structure BareHost (http : Http) (text : Bytes) : Prop where
  notStar : text ≠ ascii "*"
  bare : ∀ c ∈ text, c ≠ 0x40 ∧ c ≠ comma ∧ c ≠ slash ∧ c < 0x80
  authority : http.isAuthority text = true
  port : ∀ port, HasPort text port → port ≠ [] ∧ port.all isDigit = true ∧
    ofBigEndian 10 (port.filterMap (toDigit 10)) < 65536

theorem hasPort_iff {text port : Bytes} :
    HasPort text port ↔ colon ∈ text ∧ port = (text.reverse.takeWhile (· ≠ colon)).reverse ∧
      closeBracket ∉ port := by
  constructor
  · rintro ⟨⟨name, rfl⟩, noColon, noBracket⟩
    refine ⟨by simp, ?_, noBracket⟩
    have kept : ∀ c ∈ port.reverse, (decide (c ≠ colon)) = true := by
      intro c member
      simp only [decide_eq_true_eq]
      rintro rfl
      exact noColon (List.mem_reverse.mp member)
    have split : (name ++ colon :: port).reverse = port.reverse ++ colon :: name.reverse := by simp
    rw [split, List.takeWhile_append_of_pos kept]
    simp
  · rintro ⟨present, rfl, noBracket⟩
    have isPrefix := List.takeWhile_append_dropWhile (p := fun c => decide (c ≠ colon))
      (l := text.reverse)
    have noColon : colon ∉ (text.reverse.takeWhile (· ≠ colon)).reverse := by
      intro member
      have kept := List.mem_takeWhile_imp (List.mem_reverse.mp member)
      simp at kept
    refine ⟨?_, noColon, noBracket⟩
    cases rest : text.reverse.dropWhile (fun c => decide (c ≠ colon)) with
    | nil =>
        rw [List.dropWhile_eq_nil_iff] at rest
        have differs := rest colon (List.mem_reverse.mpr present)
        simp at differs
    | cons first name =>
        have isColon : first = colon := by
          have head := List.head?_dropWhile_not (fun c => decide (c ≠ colon)) text.reverse
          rw [rest] at head
          simpa using head
        subst isColon
        refine ⟨name.reverse, ?_⟩
        rw [rest] at isPrefix
        have reversed := congrArg List.reverse isPrefix
        simpa using reversed.symm

theorem toDigit_of_isDigit : ∀ c : UInt8, isDigit c = true → (toDigit 10 c).isSome = true :=
  Byte.forall_of_fin (by decide +kernel)

/-- On digits alone, the number only has to fit. -/
theorem parseWith_digits {port : Bytes} (digits : port.all isDigit = true) (nonempty : port ≠ []) :
    (parseWith (readNumber 10 65536 none true) port).isSome = true ↔
      ofBigEndian 10 (port.filterMap (toDigit 10)) < 65536 := by
  have allDigits : ∀ c ∈ port, (toDigit 10 c).isSome = true := fun c member =>
    toDigit_of_isDigit c (List.all_eq_true.mp digits c member)
  have taken : port.takeWhile (fun byte => (toDigit 10 byte).isSome) = port :=
    List.takeWhile_eq_self_iff.mpr allDigits
  have left : port.dropWhile (fun byte => (toDigit 10 byte).isSome) = [] :=
    List.dropWhile_eq_nil_iff.mpr allDigits
  have some : port.filterMap (toDigit 10) ≠ [] := by
    obtain ⟨first, rest, rfl⟩ := List.exists_cons_of_ne_nil nonempty
    obtain ⟨value, isValue⟩ := Option.isSome_iff_exists.mp (allDigits first List.mem_cons_self)
    simp [isValue]
  simp only [parseWith, readNumber, taken, left, some, if_false, Option.any_none,
    Bool.false_eq_true, Bool.not_true, Bool.false_and]
  by_cases fits : ofBigEndian 10 (port.filterMap (toDigit 10)) < 65536 <;> simp [fits]

theorem plainAuthority_iff {http : Http} {text : Bytes} :
    plainAuthority http text = true ↔ BareHost http text := by
  have bareBytes : (text.any fun c => c == 0x40 || c == comma || c == slash || 0x80 ≤ c) = false ↔
      ∀ c ∈ text, c ≠ 0x40 ∧ c ≠ comma ∧ c ≠ slash ∧ c < 0x80 := by
    simp [List.any_eq_false, and_assoc, UInt8.not_le]
  -- what is left once the first two checks have passed
  have portCheck : (if colon ∈ text then
        if closeBracket ∈ (text.reverse.takeWhile (· ≠ colon)).reverse then true
        else (text.reverse.takeWhile (· ≠ colon)).reverse ≠ [] &&
          (text.reverse.takeWhile (· ≠ colon)).reverse.all isDigit &&
          (parseWith (readNumber 10 65536 none true)
            (text.reverse.takeWhile (· ≠ colon)).reverse).isSome
      else true) = true ↔
      ∀ port, HasPort text port → port ≠ [] ∧ port.all isDigit = true ∧
        ofBigEndian 10 (port.filterMap (toDigit 10)) < 65536 := by
    simp only [hasPort_iff]
    generalize (text.reverse.takeWhile (· ≠ colon)).reverse = port
    by_cases present : colon ∈ text
    · by_cases bracketed : closeBracket ∈ port
      · simp [present, bracketed]
      · simp only [present, bracketed, if_true, if_false, true_and, Bool.and_eq_true,
          decide_eq_true_eq]
        constructor
        · intro checked other isPort
          obtain ⟨rfl, -⟩ := isPort
          obtain ⟨⟨nonempty, digits⟩, parses⟩ := checked
          exact ⟨nonempty, digits, (parseWith_digits digits nonempty).mp parses⟩
        · intro checked
          obtain ⟨nonempty, digits, fits⟩ := checked port ⟨rfl, bracketed⟩
          exact ⟨⟨nonempty, digits⟩, (parseWith_digits digits nonempty).mpr fits⟩
    · simp [present]
  simp only [plainAuthority]
  constructor
  · intro accepted
    split at accepted
    · cases accepted
    next plain =>
    split at accepted
    · cases accepted
    next isAuthority =>
    rw [Bool.or_eq_true, not_or] at plain
    exact ⟨by simpa using plain.1, bareBytes.mp (Bool.not_eq_true _ ▸ plain.2),
      by simpa using isAuthority, portCheck.mp accepted⟩
  · intro bare
    rw [if_neg, if_neg (by simp [bare.authority])]
    · exact portCheck.mpr bare.port
    · rw [bareBytes.mpr bare.bare]
      simp [bare.notStar]

/-! ## One line -/

/-- The authority that decides about the host, if there is one. -/
def decidingAuthority (req : Request) (selected : Selected) : Option Authority :=
  if selected.route.rewriteHost then selected.route.upstream.uri.authority else req.uri.authority

theorem getAll_host_prepareHeaders (forwarding : Forwarding) (headers : HeaderMap) :
    (prepareHeaders forwarding headers).getAll host = headers.getAll host := by
  rw [getAll_prepareHeaders_of_ne _ _ _ (by decide),
    getAll_stripHopByHop_of_kept (by decide) fun _ => by decide]

theorem getAll_host_rewriteHeaders (forwarding : Forwarding) (headers : HeaderMap) :
    (rewriteHeaders forwarding headers).getAll host =
      (pinHost forwarding (prepareHeaders forwarding headers)).getAll host := by
  have canonical : isNoncanonicalSpelling host.text = false := by decide +kernel
  rw [getAll_rewriteHeaders_of_ungoverned _ _ _ (by decide), canonical, if_neg Bool.false_ne_true]

/-- What is sent as `Host`: the deciding authority where its text is legal in a header,
else the lines of the client. -/
theorem getAll_host_forwardedRequest (connection : Connection) (table : RouteTable) (req : Request)
    (selected : Selected) (uri : Uri) :
    ((forwardedRequest connection table req selected uri).headers.getAll host).map
        HeaderValue.bytes =
      match decidingAuthority req selected with
      | some authority =>
          if (authorityHost authority).all isValueByte then [authorityHost authority]
          else (req.headers.getAll host).map HeaderValue.bytes
      | none => (req.headers.getAll host).map HeaderValue.bytes := by
  simp only [forwardedRequest, getAll_host_rewriteHeaders, pinHost, forwarding, decidingAuthority]
  generalize (if selected.route.rewriteHost then selected.route.upstream.uri.authority
    else req.uri.authority) = authority
  cases authority with
  | none => simp only [getAll_host_prepareHeaders]
  | some authority =>
      cases legal : (authorityHost authority).all isValueByte with
      | true =>
          simp only [legal, if_true]
          rw [HeaderMap.getAll_insertText_legal _ _ _ legal, if_pos rfl]
      | false =>
          simp only [HeaderMap.insertText, HeaderValue.fromStr, HeaderValue.fromBytes, legal,
            Bool.false_eq_true, dite_false, if_false, getAll_host_prepareHeaders]

theorem badHost_eq_false {http : Http} {headers : HeaderMap} {uri : Uri} {version : Version} :
    badHost http headers uri version = false ↔
      (headers.getAll host = [] ∧ (uri.authority = none → version ≠ .http11)) ∨
      ∃ value, headers.getAll host = [value] ∧
        (uri.authority = none → BareHost http value.bytes) := by
  simp only [badHost, ← plainAuthority_iff]
  rcases headers.getAll host with _ | ⟨value, _ | ⟨second, others⟩⟩
  · cases uri.authority <;> simp
  · cases uri.authority <;> simp
  · simp

/-- An admitted request is forwarded with at most one `Host`: the deciding authority,
or, when nothing else decides, the client's own line, which is a bare host. Only a
request that is not of HTTP/1.1 may come, and then be forwarded, without any. -/
theorem one_host_forwarded {http : Http} {table : RouteTable} {req : Request}
    {selected : Selected} (selects : selectRoute http table req = .ok selected)
    (connection : Connection) (uri : Uri) :
    let sent := (forwardedRequest connection table req selected uri).headers.getAll host
    sent.length ≤ 1 ∧
    (∀ authority, decidingAuthority req selected = some authority →
      (authorityHost authority).all isValueByte = true →
      sent.map HeaderValue.bytes = [authorityHost authority]) ∧
    (decidingAuthority req selected = none → req.uri.authority = none →
      (sent = [] ∧ req.headers.getAll host = [] ∧ req.version ≠ .http11) ∨
        ∃ value, sent = [value] ∧ BareHost http value.bytes) := by
  have checked := badHost_eq_false.mp (accepted_of_selectRoute selects).goodHost
  have sends := getAll_host_forwardedRequest connection table req selected uri
  have few : (req.headers.getAll host).length ≤ 1 := by
    rcases checked with ⟨absent, -⟩ | ⟨value, single, -⟩
    · simp [absent]
    · simp [single]
  refine ⟨?_, ?_, ?_⟩
  · have lengths := congrArg List.length sends
    rw [List.length_map] at lengths
    rw [lengths]
    split
    · split
      · simp
      · simpa using few
    · simpa using few
  · intro authority decides legal
    rw [sends, decides]
    simp [legal]
  · intro undecided noAuthority
    have own : (forwardedRequest connection table req selected uri).headers.getAll host =
        req.headers.getAll host := by
      have chosen : (if selected.route.rewriteHost then selected.route.upstream.uri.authority
        else req.uri.authority) = none := undecided
      simp only [forwardedRequest, getAll_host_rewriteHeaders, pinHost, forwarding, chosen,
        getAll_host_prepareHeaders]
    rw [own]
    rcases checked with ⟨absent, old⟩ | ⟨value, single, bare⟩
    · exact .inl ⟨absent, absent, old noAuthority⟩
    · exact .inr ⟨value, single, bare noAuthority⟩

theorem upload_host_forwarded :
    ∃ value, (forwardedRequest localClient apiTable upload selectedApi rebuiltApi).headers.getAll
        host = [value] ∧ BareHost plainHttp value.bytes := by
  obtain ⟨-, -, own⟩ := one_host_forwarded selectRoute_upload localClient rebuiltApi
  refine (own rfl rfl).resolve_left fun missing => ?_
  exact missing.2.2 rfl

end Ferryman.Server
