import Ferryman.Server.ForwardedPath
import Ferryman.Server.HostHeader

/-!
# Stripped prefixes along a chain

Every hop may strip the prefix of its route and adds it to `X-Forwarded-Prefix`
(`set_forwarded_prefix` in `proxy.rs`). Behind any number of hops the header and
the path together are still the path that the client asked for.
-/

set_option autoImplicit false

namespace Ferryman.Core

open Byte Bytes

theorem refusedEscape_append {b : Bytes} (refused : refusedEscape b = true) (tail : Bytes) :
    refusedEscape (b ++ tail) = true := by
  have grows : ∀ literal, startsWith b literal = true → startsWith (b ++ tail) literal = true :=
    fun _ found =>
      startsWith_iff.mpr ((startsWith_iff.mp found).trans (List.prefix_append b tail))
  simp only [refusedEscape, Bool.or_eq_true] at refused ⊢
  rcases refused with (((((((found | found) | found) | found) | found) | found) | found) | found) |
    found <;> simp only [grows _ found, true_or, or_true]

theorem badPath_before_slash {front rest : Bytes}
    (accepted : badPath (front ++ slash :: rest) = false) : badPath front = false := by
  obtain ⟨judged, noRefused⟩ := badPath_eq_false_iff.mp accepted
  refine badPath_eq_false_iff.mpr ⟨fun piece member => ?_, fun suffix isSuffix => ?_⟩
  · refine judged piece ?_
    rw [pieces_slash]
    exact List.mem_append_left _ member
  · obtain ⟨before, rfl⟩ := isSuffix
    cases refused : refusedEscape suffix with
    | false => rfl
    | true =>
        have grown := noRefused (suffix ++ slash :: rest) ⟨before, by simp⟩
        rw [refusedEscape_append refused] at grown
        cases grown

end Ferryman.Core

namespace Ferryman.Server

open Ferryman.Core Byte Bytes

/-! ## The prefix header -/

def isPrefixByte (c : UInt8) : Bool := isGraphic c && !(c == comma || c == 0x3F || c == 0x23)

/-- What is kept of the lines of the hop before. -/
def outerPrefix (lines : List HeaderValue) : Bytes :=
  let outer :=
    match lines with
    | [value] => value.toStr.map fun text => (trim text).rdropWhile (· == slash)
    | _ => none
  let plain := outer.filter fun text =>
    startsWith text "/" && text.all isPrefixByte && !containsText text "//" && !badPath text
  plain.getD []

theorem setForwardedPrefix_eq (headers : HeaderMap) (pathPrefix : Bytes) :
    setForwardedPrefix headers pathPrefix =
      headers.insertText xForwardedPrefix
        (outerPrefix (headers.getAll xForwardedPrefix) ++ pathPrefix) := rfl

/-- A prefix that the next hop takes over as it is. -/
structure PlainPrefix (text : Bytes) : Prop where
  absolute : text.head? = some slash
  plain : text.all isPrefixByte = true
  single : ¬ascii "//" <:+: text
  accepted : badPath text = false
  closed : text.getLast? ≠ some slash

theorem isVisible_of_isPrefixByte : ∀ c : UInt8, isPrefixByte c = true →
    isVisible c = true ∧ isWhitespace c = false :=
  Byte.forall_of_fin (by decide +kernel)

theorem PlainPrefix.visible {text : Bytes} (plain : text.all isPrefixByte = true) :
    text.all isVisible = true :=
  List.all_eq_true.mpr fun c member =>
    (isVisible_of_isPrefixByte c (List.all_eq_true.mp plain c member)).1

theorem PlainPrefix.outerPrefix {value : HeaderValue} (kept : PlainPrefix value.bytes) :
    outerPrefix [value] = value.bytes := by
  have trimmed : trim value.bytes = value.bytes :=
    trim_of_plain fun c member =>
      (isVisible_of_isPrefixByte c (List.all_eq_true.mp kept.plain c member)).2
  have closed : value.bytes.rdropWhile (· == slash) = value.bytes := by
    rw [List.rdropWhile_eq_self_iff]
    intro nonempty isSlash
    refine kept.closed ?_
    rw [List.getLast?_eq_getLast_of_ne_nil nonempty]
    simpa using isSlash
  obtain ⟨tail, shape⟩ := List.head?_eq_some_iff.mp kept.absolute
  have absolute : startsWith value.bytes "/" = true := by rw [shape, startsWith_slash]
  have single : containsText value.bytes "//" = false := by
    rw [← Bool.not_eq_true, containsText_iff]
    exact kept.single
  simp only [Server.outerPrefix, HeaderValue.toStr, PlainPrefix.visible kept.plain, if_true,
    Option.map_some, trimmed, closed]
  simp [Option.filter, absolute, kept.plain, single, kept.accepted]

theorem getAll_xForwardedPrefix_applyForwardedHeaders (headers : HeaderMap) (peer : IpAddr)
    (proto : Proto) (clientHost : Option Bytes) (cfg : FwdCfg) :
    (applyForwardedHeaders headers peer proto clientHost cfg).getAll xForwardedPrefix =
      if cfg.trusted.contains peer then headers.getAll xForwardedPrefix else [] := by
  have canonical : isNoncanonicalSpelling xForwardedPrefix.text = false := by decide +kernel
  simp only [applyForwardedHeaders]
  split
  · rw [announceClient_other _ _ _ _ _ _ (by decide)]
    simp only [believePeer]
    rw [getAll_setPort_of_ne _ _ (by decide), HeaderMap.getAll_insertText_of_ne _ _ _ _ (by decide),
      getAll_stripNoncanonicalSpellings, canonical, if_neg Bool.false_ne_true]
  · rw [announceClient_other _ _ _ _ _ _ (by decide), getAll_overridePeer, if_pos (by decide)]

/-- The lines of a request that are left when the prefix is added. -/
def keptLines (forwarding : Forwarding) (headers : HeaderMap) : List HeaderValue :=
  if forwarding.policy.trusted.contains forwarding.peer then
    (stripHopByHop headers).getAll xForwardedPrefix
  else []

theorem rewriteHeaders_prefix (forwarding : Forwarding) (headers : HeaderMap) :
    (∀ added, forwarding.strippedPrefix = some added → added ≠ [] →
      (outerPrefix (keptLines forwarding headers) ++ added).all isVisible = true →
      ((rewriteHeaders forwarding headers).getAll xForwardedPrefix).map HeaderValue.bytes =
        [outerPrefix (keptLines forwarding headers) ++ added]) ∧
    (forwarding.strippedPrefix.getD [] = [] →
      (rewriteHeaders forwarding headers).getAll xForwardedPrefix =
        keptLines forwarding headers) := by
  have applied : ∀ clientHost, (applyForwardedHeaders
      (pinHost forwarding (prepareHeaders forwarding headers)) forwarding.peer forwarding.proto
      clientHost forwarding.policy).getAll xForwardedPrefix = keptLines forwarding headers := by
    intro clientHost
    rw [getAll_xForwardedPrefix_applyForwardedHeaders, getAll_pinHost_of_ne _ _ _ (by decide),
      getAll_prepareHeaders_of_ne _ _ _ (by decide)]
    rfl
  constructor
  · intro added isAdded nonempty visible
    simp only [rewriteHeaders, isAdded, if_neg nonempty, setForwardedPrefix_eq, applied]
    rw [HeaderMap.getAll_insertText _ _ _ visible, if_pos rfl]
  · intro unstripped
    simp only [rewriteHeaders]
    split
    · next added isAdded =>
      have empty : added = [] := by simpa [isAdded] using unstripped
      rw [if_pos empty, applied]
    · exact applied _

/-! ## Splitting a path -/

/-- The asked path is cut in front of a slash. Where nothing is left, a slash is sent. -/
structure Split (asked value path : Bytes) : Prop where
  whole : value ++ path = asked ∨ path = [slash] ∧ value = asked
  rooted : path.head? = some slash
  absolute : value.head? = some slash
  closed : value.getLast? ≠ some slash
  plain : value.all isPrefixByte = true

/-- What a strip does to a path in normal form. -/
structure Strips (added path sent : Bytes) : Prop where
  consistent : added ++ sent = path ∨ sent = [slash] ∧ path = added
  rooted : sent.head? = some slash
  absolute : added.head? = some slash
  closed : added.getLast? ≠ some slash
  plain : added.all isPrefixByte = true

theorem Strips.split {added path sent : Bytes} (strips : Strips added path sent) :
    Split path added sent where
  whole := by
    cases strips.consistent with
    | inl cut => exact .inl cut
    | inr all => exact .inr ⟨all.1, all.2.symm⟩
  rooted := strips.rooted
  absolute := strips.absolute
  closed := strips.closed
  plain := strips.plain

/-- Only a slash that was added cannot be cut again. -/
theorem Split.strip {asked value path added sent : Bytes} (split : Split asked value path)
    (strips : Strips added path sent) : Split asked (value ++ added) sent := by
  obtain ⟨tail, isTail⟩ := List.head?_eq_some_iff.mp strips.absolute
  have notSlash : path ≠ [slash] := by
    rintro rfl
    cases strips.consistent with
    | inl cut =>
        obtain ⟨later, isLater⟩ := List.head?_eq_some_iff.mp strips.rooted
        rw [isTail, isLater] at cut
        simp at cut
    | inr all =>
        have closed := strips.closed
        rw [← all.2] at closed
        exact closed rfl
  have whole := split.whole.resolve_right fun added => notSlash added.1
  constructor
  case whole =>
      cases strips.consistent with
      | inl cut => exact .inl (by rw [List.append_assoc, cut, whole])
      | inr all => exact .inr ⟨all.1, by rw [← all.2, whole]⟩
  case rooted => exact strips.rooted
  case absolute =>
      obtain ⟨rest, isRest⟩ := List.head?_eq_some_iff.mp split.absolute
      rw [isRest]
      rfl
  case closed =>
      rw [List.getLast?_append, isTail]
      rw [isTail] at strips
      have closed := strips.closed
      cases last : (slash :: tail).getLast? with
      | none => simp at last
      | some c => simpa [last] using closed
  case plain => rw [List.all_append, split.plain, strips.plain]; rfl

theorem Split.plainPrefix {asked value path : Bytes} (split : Split asked value path)
    (accepted : badPath asked = false) (single : ¬ascii "//" <:+: asked) : PlainPrefix value where
  absolute := split.absolute
  plain := split.plain
  closed := split.closed
  single := by
    intro doubled
    refine single (doubled.trans ?_)
    cases split.whole with
    | inl cut => exact cut ▸ (List.prefix_append value path).isInfix
    | inr all => exact all.2 ▸ List.infix_rfl
  accepted := by
    obtain ⟨rest, isRest⟩ := List.head?_eq_some_iff.mp split.rooted
    cases split.whole with
    | inl cut =>
        rw [← cut, isRest] at accepted
        exact badPath_before_slash accepted
    | inr all => rw [all.2, accepted]

/-! ## One hop -/

/-- A proxy with the table of a checked config, whose stripped prefixes have no byte
that the next hop refuses. -/
structure PrefixHop where
  connection : Connection
  table : RouteTable
  canonical : ∀ route ∈ table.routes, CanonicalPrefix route.pathPrefix
  plain : ∀ route ∈ table.routes, route.stripPrefix = true →
    route.pathPrefix.all isPrefixByte = true

/-- The lines and the path of a request that was asked for with this path. -/
inductive Carried (raw : Bytes) : List HeaderValue → Bytes → Prop where
  | untouched : Carried raw [] raw
  | stripped {value : HeaderValue} {path : Bytes} :
      Split (normalize raw) value.bytes path → Carried raw [value] path

theorem head_of_startsWith {text : Bytes} (absolute : startsWith text "/" = true) :
    text.head? = some slash := by
  obtain ⟨rest, rfl⟩ := startsWith_iff.mp absolute
  rfl

theorem strips_of_accepted {http : Http} {hop : PrefixHop} {req : Request} {selected : Selected}
    (accepted : Accepted http hop.table req selected) (strips : selected.route.stripPrefix = true)
    (notRoot : selected.route.pathPrefix ≠ [slash]) :
    ∃ sent, selected.strip = some (sent, selected.route.strippedPrefix) ∧
      Strips selected.route.strippedPrefix (normalize req.uri.path) sent := by
  have known : selected.route ∈ hop.table.routes := List.mem_of_find?_eq_some accepted.found
  have canonical := hop.canonical _ known
  have isMatch : prefixMatches selected.route.pathPrefix (normalize req.uri.path) = true := by
    simpa using List.find?_some (show hop.table.routes.find? _ = some _ from accepted.found)
  obtain ⟨sent, isSent, safe⟩ := strippedPath_safe canonical notRoot accepted.goodPath isMatch
  have strip := accepted.strip
  rw [if_pos strips] at strip
  obtain ⟨stripped, isStripped, selects⟩ := strip
  rw [isSent] at isStripped
  obtain rfl := Option.some.inj isStripped
  obtain ⟨nonempty, rest, -, -⟩ := canonical.rest_of_match notRoot isMatch
  have isPrefix : selected.route.strippedPrefix <+: selected.route.pathPrefix :=
    List.rdropWhile_prefix _ _
  refine ⟨sent, selects, safe.consistent, head_of_startsWith safe.absolute, ?_, ?_, ?_⟩
  · obtain ⟨later, shape⟩ := isPrefix
    obtain ⟨first, tail, cons⟩ := List.exists_cons_of_ne_nil nonempty
    have absolute := head_of_startsWith canonical.absolute
    rw [← shape, cons] at absolute
    rw [cons]
    exact absolute
  · rw [List.getLast?_eq_getLast_of_ne_nil nonempty]
    intro isSlash
    exact List.rdropWhile_last_not _ _ nonempty (beq_iff_eq.mpr (Option.some.inj isSlash))
  · refine List.all_eq_true.mpr fun c member => ?_
    exact List.all_eq_true.mp (hop.plain _ known strips) c (isPrefix.subset member)

/-- In normal form a path stays as it is, however often it is cut. -/
theorem Split.normal {raw value path : Bytes} (split : Split (normalize raw) value path)
    (valid : EscapesValid raw) : normalize path = path := by
  cases split.whole with
  | inl cut =>
      have settled := settled_normalizeLoop valid
      rw [← normalize_eq_loop] at settled
      rw [normalize_eq_loop]
      refine normalizeLoop_of_settled fun suffix isSuffix => settled suffix (isSuffix.trans ?_)
      exact cut ▸ List.suffix_append value path
  | inr all =>
      rw [all.1]
      decide

theorem normalize_single_slashes (raw : Bytes) : ¬ascii "//" <:+: normalize raw := by
  intro doubled
  obtain ⟨left, right, shape⟩ := doubled
  rw [normalize_eq_loop] at shape
  exact normalizeLoop_single_slashes raw right ⟨left, by simpa [ascii] using shape⟩

theorem carried_of_bytes {raw text path : Bytes} {lines : List HeaderValue}
    (isLine : lines.map HeaderValue.bytes = [text]) (split : Split (normalize raw) text path) :
    Carried raw lines path := by
  obtain ⟨value, rfl, rfl⟩ := List.map_eq_singleton_iff.mp isLine
  exact .stripped split

section Hop

variable {http : Http} {hop : PrefixHop} {req : Request} {selected : Selected} {raw : Bytes}

/-- A route that strips nothing, or only the root, hands the path and the lines on. -/
theorem Carried.unstripped (accepted : Accepted http hop.table req selected)
    (nothing : ¬(selected.route.stripPrefix = true ∧ selected.route.pathPrefix ≠ [slash])) :
    (selected.strip.map Prod.snd).getD [] = [] ∧
      selected.sentPath req.uri.path = req.uri.path := by
  have strip := accepted.strip
  cases strips : selected.route.stripPrefix with
  | false =>
      rw [strips, if_neg Bool.false_ne_true] at strip
      simp [Selected.sentPath, strip]
  | true =>
      have isRoot : selected.route.pathPrefix = [slash] := by
        by_contra notRoot
        exact nothing ⟨strips, notRoot⟩
      have empty : selected.route.strippedPrefix = [] := by
        rw [Route.strippedPrefix, isRoot]
        rfl
      rw [strips, if_pos rfl] at strip
      obtain ⟨stripped, isStripped, selects⟩ := strip
      rw [Route.strippedPath, empty] at isStripped
      obtain rfl := Option.some.inj isStripped
      simp [Selected.sentPath, selects, empty]

theorem Carried.step (accepted : Accepted http hop.table req selected) (valid : EscapesValid raw)
    (goodPath : badPathNormalized raw = false)
    (kept : Carried raw (keptLines (forwarding hop.connection hop.table req selected) req.headers)
      req.uri.path) :
    Carried raw
      ((rewriteHeaders (forwarding hop.connection hop.table req selected) req.headers).getAll
        xForwardedPrefix)
      (selected.sentPath req.uri.path) := by
  obtain ⟨adds, keeps⟩ :=
    rewriteHeaders_prefix (forwarding hop.connection hop.table req selected) req.headers
  by_cases nothing : selected.route.stripPrefix = true ∧ selected.route.pathPrefix ≠ [slash]
  · obtain ⟨sent, selects, strips⟩ := strips_of_accepted accepted nothing.1 nothing.2
    have isSent : selected.sentPath req.uri.path = sent := by simp [Selected.sentPath, selects]
    have isAdded : (forwarding hop.connection hop.table req selected).strippedPrefix =
        some selected.route.strippedPrefix := by simp [forwarding, selects]
    have nonempty : selected.route.strippedPrefix ≠ [] := by
      intro empty
      have absolute := strips.absolute
      rw [empty] at absolute
      cases absolute
    have added := adds _ isAdded nonempty
    rw [isSent]
    generalize keptLines (forwarding hop.connection hop.table req selected) req.headers = lines
      at kept added
    generalize req.uri.path = path at kept strips
    cases kept with
    | untouched =>
        refine carried_of_bytes (added ?_) strips.split
        exact PlainPrefix.visible strips.plain
    | @stripped value path split =>
        rw [split.normal valid] at strips
        have outer := (split.plainPrefix (badPath_normalize goodPath)
          (normalize_single_slashes raw)).outerPrefix
        rw [outer] at added
        have later := split.strip strips
        exact carried_of_bytes (added (PlainPrefix.visible later.plain)) later
  · obtain ⟨unstripped, same⟩ := Carried.unstripped accepted nothing
    rw [keeps unstripped, same]
    exact kept

end Hop

/-! ## Any number of hops -/

/-- A request on its way through the hops. Between two hops it may change in every way
that keeps the path, the prefix lines and the lines of `Connection`. -/
inductive PrefixPassed (http : Http) : List PrefixHop → Request → Request → Prop where
  | origin (req : Request) : PrefixPassed http [] req req
  | hop {hop : PrefixHop} {hops : List PrefixHop} {req next reached : Request}
      {selected : Selected} {uri : Uri} :
      selectRoute http hop.table req = .ok selected →
      rebuildUri http req selected = .ok uri →
      next.uri.path = selected.sentPath req.uri.path →
      (∀ name ∈ [xForwardedPrefix, connection], next.headers.getAll name =
        (forwardedRequest hop.connection hop.table req selected uri).headers.getAll name) →
      PrefixPassed http hops next reached →
      PrefixPassed http (hop :: hops) req reached

def PrefixHop.trustsPeer (hop : PrefixHop) : Bool :=
  hop.table.trustedProxies.contains hop.connection.peer

/-- What is sent lists nothing in `Connection`. -/
theorem unlisted_next {connection : Connection} {table : RouteTable} {req next : Request}
    {selected : Selected} {uri : Uri}
    (same : ∀ name ∈ [xForwardedPrefix, Server.connection], next.headers.getAll name =
      (forwardedRequest connection table req selected uri).headers.getAll name) :
    xForwardedPrefix ∉ connectionNames next.headers := by
  have gone : (rewriteHeaders (forwarding connection table req selected) req.headers).getAll
      Server.connection = [] := getAll_rewriteHeaders_hopByHop _ _ (by decide)
  have none : next.headers.getAll Server.connection = [] :=
    (same Server.connection (by simp)).trans gone
  simp [connectionNames, none]

theorem PrefixPassed.carries {http : Http} {hops : List PrefixHop} {req reached : Request}
    (passed : PrefixPassed http hops req reached) {raw : Bytes} (valid : EscapesValid raw)
    (goodPath : badPathNormalized raw = false)
    (trusting : ∀ hop ∈ hops, hop.trustsPeer = true)
    (unlisted : xForwardedPrefix ∉ connectionNames req.headers)
    (carried : Carried raw (req.headers.getAll xForwardedPrefix) req.uri.path) :
    Carried raw (reached.headers.getAll xForwardedPrefix) reached.uri.path := by
  induction passed with
  | origin req => exact carried
  | @hop hop hops req next reached selected uri selects _ samePath sameLines _ ih =>
      refine ih (fun later member => trusting later (List.mem_cons_of_mem _ member))
        (unlisted_next sameLines) ?_
      have kept : keptLines (forwarding hop.connection hop.table req selected) req.headers =
          (stripHopByHop req.headers).getAll xForwardedPrefix :=
        if_pos (trusting hop List.mem_cons_self)
      rw [samePath, sameLines xForwardedPrefix (by simp)]
      refine Carried.step (accepted_of_selectRoute selects) valid goodPath ?_
      rwa [kept, getAll_stripHopByHop_of_kept (by decide) fun listed => absurd listed unlisted]

/-- When the first hop does not trust the client and every later hop trusts the one
before, the last request asks for the path of the first: untouched where no hop
stripped, else its normal form, cut in front of a slash into the header and the path. -/
theorem forwarded_prefix_rebuilds_path {http : Http} {first : PrefixHop} {later : List PrefixHop}
    {req reached : Request} (passed : PrefixPassed http (first :: later) req reached)
    (valid : EscapesValid req.uri.path) (untrusted : first.trustsPeer = false)
    (trusting : ∀ hop ∈ later, hop.trustsPeer = true) :
    reached.headers.getAll xForwardedPrefix = [] ∧ reached.uri.path = req.uri.path ∨
      ∃ value, reached.headers.getAll xForwardedPrefix = [value] ∧
        (value.bytes ++ reached.uri.path = normalize req.uri.path ∨
          reached.uri.path = ascii "/" ∧ value.bytes = normalize req.uri.path) := by
  cases passed with
  | @hop _ _ _ next _ selected uri selects _ samePath sameLines rest =>
      have accepted := accepted_of_selectRoute selects
      have dropped : keptLines (forwarding first.connection first.table req selected) req.headers =
          [] := by
        rw [keptLines, if_neg]
        exact Bool.eq_false_iff.mp untrusted
      have carried : Carried req.uri.path (next.headers.getAll xForwardedPrefix) next.uri.path := by
        rw [samePath, sameLines xForwardedPrefix (by simp)]
        refine Carried.step accepted valid accepted.goodPath ?_
        rw [dropped]
        exact .untouched
      have reaches := rest.carries valid accepted.goodPath trusting (unlisted_next sameLines) carried
      generalize reached.headers.getAll xForwardedPrefix = lines at reaches ⊢
      generalize reached.uri.path = path at reaches ⊢
      cases reaches with
      | untouched => exact .inl ⟨rfl, rfl⟩
      | stripped split => exact .inr ⟨_, rfl, split.whole⟩

/-! ## Two prefixes -/

def stripConfig (pathPrefix : Bytes) (trusted : List Bytes) : ConfigToml where
  routes := [{ pathPrefix, upstream := ascii "http://a.local:8001", stripPrefix := true }]
  trustedProxies := trusted

def stripTable (pathPrefix : Bytes) (trusted : List Bytes) : RouteTable :=
  match (buildTable plainHttp (stripConfig pathPrefix trusted) none {}).1 with
  | .ok table => table
  | .error _ => RouteTable.new [] (.fromSecs 0)

def shopHop : PrefixHop where
  connection := ⟨.v4 0xC0000201, .https⟩
  table := stripTable (ascii "/shop") []
  canonical := by
    have built : (buildTable plainHttp (stripConfig (ascii "/shop") []) none {}).1 =
        .ok (stripTable (ascii "/shop") []) := by decide +kernel
    exact (buildTable_prefixes built).1
  plain := by decide +kernel

/-- It stands behind the first one and trusts it. -/
def apiHop : PrefixHop where
  connection := ⟨.v4 0x0A000001, .http⟩
  table := stripTable (ascii "/api/") [ascii "10.0.0.0/8"]
  canonical := by
    have built : (buildTable plainHttp (stripConfig (ascii "/api/") [ascii "10.0.0.0/8"]) none {}).1 =
        .ok (stripTable (ascii "/api/") [ascii "10.0.0.0/8"]) := by decide +kernel
    exact (buildTable_prefixes built).1
  plain := by decide +kernel

def shopRequest : Request where
  method := .get
  uri := ⟨none, none, some ⟨ascii "/shop//%61pi/x", none⟩⟩
  version := .http11
  headers := upload.headers
  isEndStream := true

def stripSelected (pathPrefix sent stripped : Bytes) : Selected :=
  ⟨{ apiRoute with pathPrefix := pathPrefix, stripPrefix := true }, some (sent, stripped)⟩

def upstreamUri (path : Bytes) : Uri :=
  ⟨some (ascii "http"), some ⟨ascii "a.local:8001", ascii "a.local", some 8001⟩, some ⟨path, none⟩⟩

theorem two_prefixes_rebuilt :
    ∃ reached value, PrefixPassed plainHttp [shopHop, apiHop] shopRequest reached ∧
      reached.headers.getAll xForwardedPrefix = [value] ∧
      value.bytes ++ reached.uri.path = ascii "/shop/api/x" := by
  let inner : Request := forwardedRequest shopHop.connection shopHop.table shopRequest
    (stripSelected (ascii "/shop") (ascii "/api/x") (ascii "/shop")) (upstreamUri (ascii "/api/x"))
  let reached : Request := forwardedRequest apiHop.connection apiHop.table inner
    (stripSelected (ascii "/api/") (ascii "/x") (ascii "/api")) (upstreamUri (ascii "/x"))
  have second : PrefixPassed plainHttp [apiHop] inner reached :=
    .hop (by decide +kernel) (by decide +kernel) rfl (fun _ _ => rfl) (.origin reached)
  have passed : PrefixPassed plainHttp [shopHop, apiHop] shopRequest reached :=
    .hop (by decide +kernel) (by decide +kernel) rfl (fun _ _ => rfl) second
  have rebuilt := forwarded_prefix_rebuilds_path passed (by decide) (by decide +kernel)
    (by decide +kernel)
  have isNormal : normalize shopRequest.uri.path = ascii "/shop/api/x" := by decide +kernel
  have isPath : reached.uri.path = ascii "/x" := rfl
  rw [isNormal, isPath] at rebuilt
  rcases rebuilt with ⟨-, same⟩ | ⟨value, isLine, whole | ⟨isRoot, -⟩⟩
  · exact absurd same (by decide)
  · exact ⟨reached, value, passed, isLine, whole⟩
  · exact absurd isRoot (by decide)

end Ferryman.Server
