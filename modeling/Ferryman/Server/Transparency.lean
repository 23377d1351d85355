import Ferryman.Server.ForwardedProperties
import Ferryman.Server.HopByHop

/-!
# What the proxy leaves alone

Which headers of the client reach the upstream as they were sent, and which
names the rewriting may add. Cookies that HTTP/2 split over several lines are
read back from the one line they are joined to.
-/

set_option autoImplicit false

namespace Ferryman.Server

open Ferryman.Core Byte Bytes

/-! ## One stage at a time -/

section Stages

variable (headers : HeaderMap) (name : HeaderName)

theorem getAll_joinCookies_of_ne (notCookie : name ≠ cookie) :
    (joinCookies headers).getAll name = headers.getAll name := by
  simp only [joinCookies]
  split
  · rfl
  · split
    · rw [HeaderMap.getAll_insert, if_neg notCookie]
    · rfl

theorem getAll_prepareHeaders_of_ne (forwarding : Forwarding) (notCookie : name ≠ cookie) :
    (prepareHeaders forwarding headers).getAll name = (stripHopByHop headers).getAll name := by
  simp only [prepareHeaders]
  split
  · exact getAll_joinCookies_of_ne _ name notCookie
  · rfl

theorem getAll_pinHost_of_ne (forwarding : Forwarding) (notHost : name ≠ host) :
    (pinHost forwarding headers).getAll name = headers.getAll name := by
  simp only [pinHost]
  split
  · exact HeaderMap.getAll_insertText_of_ne _ _ _ _ notHost
  · rfl

/-- The forwarding headers are all this stage writes; of the rest it drops only
odd spellings. -/
theorem getAll_applyForwardedHeaders_of_ungoverned (peer : IpAddr) (proto : Proto)
    (clientHost : Option Bytes) (cfg : FwdCfg) (ungoverned : name ∉ trustGoverned) :
    (applyForwardedHeaders headers peer proto clientHost cfg).getAll name =
      if isNoncanonicalSpelling name.text then [] else headers.getAll name := by
  have governs : ∀ governed ∈ trustGoverned, name ≠ governed := by
    intro governed member same
    exact ungoverned (same ▸ member)
  have notAnnounced : name ∉ [xRealIp, xForwardedFor, forwarded] := by
    simp [governs xRealIp (by decide), governs xForwardedFor (by decide),
      governs forwarded (by decide)]
  have notStripped : name ∉ untrustedStripped := by
    intro member
    have included : ∀ stripped ∈ untrustedStripped, stripped ∈ trustGoverned := by decide
    exact ungoverned (included name member)
  simp only [applyForwardedHeaders]
  split
  · rw [announceClient_other _ _ _ _ _ _ notAnnounced]
    simp only [believePeer]
    rw [getAll_setPort_of_ne _ _ (governs xForwardedPort (by decide)),
      HeaderMap.getAll_insertText_of_ne _ _ _ _ (governs xForwardedProto (by decide)),
      getAll_stripNoncanonicalSpellings]
  · rw [announceClient_other _ _ _ _ _ _ notAnnounced, getAll_overridePeer, if_neg notStripped,
      HeaderMap.getAll_insertText_of_ne _ _ _ _ (governs xForwardedProto (by decide)),
      getAll_stripNoncanonicalSpellings]

theorem getAll_setForwardedPrefix_of_ne (pathPrefix : Bytes) (differs : name ≠ xForwardedPrefix) :
    (setForwardedPrefix headers pathPrefix).getAll name = headers.getAll name := by
  simp only [setForwardedPrefix]
  exact HeaderMap.getAll_insertText_of_ne _ _ _ _ differs

theorem getAll_rewriteHeaders_of_ungoverned (forwarding : Forwarding)
    (ungoverned : name ∉ trustGoverned) :
    (rewriteHeaders forwarding headers).getAll name =
      if isNoncanonicalSpelling name.text then []
      else (pinHost forwarding (prepareHeaders forwarding headers)).getAll name := by
  have differs : name ≠ xForwardedPrefix := by
    intro same
    exact ungoverned (same ▸ by decide)
  simp only [rewriteHeaders]
  split
  · split
    · exact getAll_applyForwardedHeaders_of_ungoverned _ name _ _ _ _ ungoverned
    · rw [getAll_setForwardedPrefix_of_ne _ name _ differs]
      exact getAll_applyForwardedHeaders_of_ungoverned _ name _ _ _ _ ungoverned
  · exact getAll_applyForwardedHeaders_of_ungoverned _ name _ _ _ _ ungoverned

end Stages

/-! ## Headers that pass -/

/-- Neither hop-by-hop, fixed or listed in `Connection`, nor part of what the
forwarding headers, the host and the cookies are decided from. -/
structure Passes (headers : HeaderMap) (name : HeaderName) : Prop where
  endToEnd : name ∉ hopByHopHeaders
  unlisted : name ∈ connectionNames headers → isKept name = true
  canonical : isNoncanonicalSpelling name.text = false
  ungoverned : name ∉ trustGoverned
  notHost : name ≠ host
  notCookie : name ≠ cookie

theorem getAll_stripHopByHop_of_kept {headers : HeaderMap} {name : HeaderName}
    (endToEnd : name ∉ hopByHopHeaders)
    (unlisted : name ∈ connectionNames headers → isKept name = true) :
    (stripHopByHop headers).getAll name = headers.getAll name := by
  rw [getAll_stripHopByHop, if_neg]
  rintro (isFixed | ⟨listed, notKept⟩)
  · exact endToEnd isFixed
  · simp [unlisted listed] at notKept

theorem Passes.getAll_rewriteHeaders {headers : HeaderMap} {name : HeaderName}
    (passes : Passes headers name) (forwarding : Forwarding) :
    (rewriteHeaders forwarding headers).getAll name = headers.getAll name := by
  rw [getAll_rewriteHeaders_of_ungoverned _ _ _ passes.ungoverned, passes.canonical,
    if_neg Bool.false_ne_true, getAll_pinHost_of_ne _ _ _ passes.notHost,
    getAll_prepareHeaders_of_ne _ _ _ passes.notCookie,
    getAll_stripHopByHop_of_kept passes.endToEnd passes.unlisted]

theorem getAll_rewriteHeaders_hopByHop (forwarding : Forwarding) (headers : HeaderMap)
    {name : HeaderName} (hopByHop : name ∈ hopByHopHeaders) :
    (rewriteHeaders forwarding headers).getAll name = [] := by
  have outside : ∀ name ∈ hopByHopHeaders,
      name ∉ trustGoverned ∧ name ≠ host ∧ name ≠ cookie := by decide
  obtain ⟨ungoverned, notHost, notCookie⟩ := outside name hopByHop
  have gone : (stripHopByHop headers).getAll name = [] := by
    rw [getAll_stripHopByHop, if_pos (.inl hopByHop)]
  rw [getAll_rewriteHeaders_of_ungoverned _ _ _ ungoverned, getAll_pinHost_of_ne _ _ _ notHost,
    getAll_prepareHeaders_of_ne _ _ _ notCookie, gone, ite_self]

/-! ## Names that may appear -/

/-- Every name of the second map is one of the first or may be added. -/
def OnlyAdds (added : HeaderName → Prop) (first second : HeaderMap) : Prop :=
  ∀ name, ¬added name → first.getAll name = [] → second.getAll name = []

namespace OnlyAdds

variable {added : HeaderName → Prop} {first second third : HeaderMap}

theorem refl (headers : HeaderMap) : OnlyAdds added headers headers := fun _ _ absent => absent

theorem trans (before : OnlyAdds added first second) (after : OnlyAdds added second third) :
    OnlyAdds added first third :=
  fun name notAdded absent => after name notAdded (before name notAdded absent)

theorem removeAll (names : List HeaderName) (headers : HeaderMap) :
    OnlyAdds added headers (names.foldl HeaderMap.remove headers) := by
  intro name _ absent
  rw [HeaderMap.getAll_removeAll, absent, ite_self]

theorem remove (name : HeaderName) (headers : HeaderMap) :
    OnlyAdds added headers (headers.remove name) :=
  removeAll [name] headers

theorem insertText {name : HeaderName} (isAdded : added name) (headers : HeaderMap) (text : Bytes) :
    OnlyAdds added headers (headers.insertText name text) := by
  intro other notAdded absent
  have differs : other ≠ name := fun same => notAdded (same ▸ isAdded)
  rw [HeaderMap.getAll_insertText_of_ne _ _ _ _ differs, absent]

/-- A line may also be written where there was one before. -/
theorem insertText_present {name : HeaderName} {headers : HeaderMap}
    (present : headers.getAll name ≠ []) (text : Bytes) :
    OnlyAdds added headers (headers.insertText name text) := by
  intro other _ absent
  have differs : other ≠ name := fun same => present (same ▸ absent)
  rw [HeaderMap.getAll_insertText_of_ne _ _ _ _ differs, absent]

theorem stripHopByHop (headers : HeaderMap) : OnlyAdds added headers (stripHopByHop headers) := by
  intro name _ absent
  rw [getAll_stripHopByHop, absent, ite_self]

theorem joinCookies (headers : HeaderMap) : OnlyAdds added headers (joinCookies headers) := by
  intro name notAdded absent
  by_cases isCookie : name = cookie
  · subst isCookie
    simp [Server.joinCookies, absent]
  · rw [getAll_joinCookies_of_ne _ _ isCookie, absent]

theorem prepareHeaders (forwarding : Forwarding) (headers : HeaderMap) :
    OnlyAdds added headers (prepareHeaders forwarding headers) := by
  simp only [Server.prepareHeaders]
  split
  · exact (stripHopByHop headers).trans (joinCookies _)
  · exact stripHopByHop headers

theorem stripNoncanonicalSpellings (headers : HeaderMap) :
    OnlyAdds added headers (stripNoncanonicalSpellings headers) := by
  intro name _ absent
  rw [getAll_stripNoncanonicalSpellings, absent, ite_self]

theorem setPort {headers : HeaderMap} {port : Option Nat}
    (present : port.isSome = true → headers.getAll xForwardedPort ≠ []) :
    OnlyAdds added headers (setPort headers xForwardedPort port) := by
  cases port with
  | none => exact remove _ _
  | some number => exact insertText_present (present rfl) _

theorem believePeer (isAdded : added xForwardedProto) (headers : HeaderMap) (peer : IpAddr)
    (proto : Proto) (trusted : TrustedProxies) :
    OnlyAdds added headers (believePeer headers peer proto trusted).1 := by
  refine (insertText isAdded headers _).trans (setPort fun parsed absent => ?_)
  have nothing : ∀ headers : HeaderMap, headers.getAll xForwardedPort = [] →
      rightmost headers xForwardedPort = none := by
    intro headers absent
    simp [rightmost, absent]
  rw [nothing _ absent] at parsed
  cases parsed

theorem overridePeer (isAdded : added xForwardedProto) (headers : HeaderMap) (proto : Proto) :
    OnlyAdds added headers (overridePeer headers proto) :=
  (insertText isAdded headers _).trans ((removeAll _ _).trans (remove _ _))

theorem announceClient (headers : HeaderMap) (client peer : IpAddr) (proto : Proto)
    (clientHost : Option Bytes) (cfg : FwdCfg) (isRealIp : added xRealIp)
    (isFor : added xForwardedFor) (isForwarded : cfg.forwardedHeader = true → added forwarded) :
    OnlyAdds added headers (announceClient headers client peer proto clientHost cfg) := by
  have addressed : OnlyAdds added headers
      (setForwardedFor (setRealIp headers client) client peer cfg.xff) := by
    rw [setForwardedFor_eq]
    exact (insertText isRealIp headers _).trans (insertText isFor _ _)
  simp only [Server.announceClient]
  split
  · next isOn => exact addressed.trans (insertText (isForwarded isOn) _ _)
  · exact addressed

end OnlyAdds

/-- The names that the proxy writes on its own. -/
def addedNames (forwarding : Forwarding) : List HeaderName :=
  [host, xForwardedProto, xRealIp, xForwardedFor] ++
    (if forwarding.policy.forwardedHeader then [forwarded] else []) ++
    (if forwarding.strippedPrefix.getD [] = [] then [] else [xForwardedPrefix])

theorem onlyAdds_rewriteHeaders (forwarding : Forwarding) (headers : HeaderMap) :
    OnlyAdds (· ∈ addedNames forwarding) headers (rewriteHeaders forwarding headers) := by
  have always : ∀ name ∈ [host, xForwardedProto, xRealIp, xForwardedFor],
      name ∈ addedNames forwarding := fun name member =>
    List.mem_append_left _ (List.mem_append_left _ member)
  have pinned : OnlyAdds (· ∈ addedNames forwarding) headers
      (pinHost forwarding (prepareHeaders forwarding headers)) := by
    refine (OnlyAdds.prepareHeaders forwarding headers).trans ?_
    simp only [pinHost]
    split
    · exact OnlyAdds.insertText (always host (by decide)) _ _
    · exact OnlyAdds.refl _
  have applied : ∀ clientHost, OnlyAdds (· ∈ addedNames forwarding) headers
      (applyForwardedHeaders (pinHost forwarding (prepareHeaders forwarding headers))
        forwarding.peer forwarding.proto clientHost forwarding.policy) := by
    intro clientHost
    refine pinned.trans ((OnlyAdds.stripNoncanonicalSpellings _).trans ?_)
    have isProto := always xForwardedProto (by decide)
    have announced := fun decided client => OnlyAdds.announceClient decided client forwarding.peer
      forwarding.proto clientHost forwarding.policy (always xRealIp (by decide))
      (always xForwardedFor (by decide)) fun isOn => by simp [addedNames, isOn]
    simp only [applyForwardedHeaders]
    split
    · exact (OnlyAdds.believePeer isProto _ _ _ _).trans (announced _ _)
    · exact (OnlyAdds.overridePeer isProto _ _).trans (announced _ _)
  simp only [rewriteHeaders]
  split
  · next pathPrefix stripped =>
    split
    · exact applied _
    · next nonempty =>
      refine (applied _).trans (OnlyAdds.insertText ?_ _ _)
      simp [addedNames, stripped, nonempty]
  · exact applied _

/-! ## Cookies -/

/-- What an upstream reads from its `Cookie` lines: the pieces between
semicolons, without the blanks around them. -/
def cookiePairs (lines : List HeaderValue) : List Bytes :=
  lines.flatMap fun value => (value.bytes.splitOn semicolon).map trim

theorem splitOn_joined (left right : Bytes) :
    ((left ++ ascii "; " ++ right).splitOn semicolon).map trim =
      (left.splitOn semicolon).map trim ++ (right.splitOn semicolon).map trim := by
  have text : left ++ ascii "; " ++ right = left ++ semicolon :: (space :: right) := by
    rw [List.append_assoc]
    rfl
  have notSemicolon : (space == semicolon) = false := by decide
  rw [text, List.splitOn_append_cons_self, List.map_append,
    List.splitOn_cons_eq_if_modifyHead, notSemicolon]
  cases right.splitOn semicolon with
  | nil => simp
  | cons first rest => simp [trim_space]

theorem splitOn_intercalate {lines : List Bytes} (nonempty : lines ≠ []) :
    ((List.intercalate (ascii "; ") lines).splitOn semicolon).map trim =
      lines.flatMap fun line => (line.splitOn semicolon).map trim := by
  induction lines with
  | nil => exact absurd rfl nonempty
  | cons line lines ih =>
      cases lines with
      | nil => simp
      | cons next lines =>
          rw [List.intercalate_cons_cons, splitOn_joined, ih (by simp)]
          rfl

theorem joined_legal (values : List HeaderValue) :
    (List.intercalate (ascii "; ") (values.map HeaderValue.bytes)).all isValueByte = true := by
  refine List.all_eq_true.mpr fun c member => ?_
  cases IpAddr.mem_intercalate member with
  | inl inSeparator =>
      exact List.all_eq_true.mp (by decide : (ascii "; ").all isValueByte = true) c inSeparator
  | inr inside =>
      obtain ⟨line, isLine, inLine⟩ := inside
      obtain ⟨value, -, rfl⟩ := List.mem_map.mp isLine
      exact List.all_eq_true.mp value.legal c inLine

/-- Several lines become one, from which the same cookies are read. -/
theorem joinCookies_cookie (headers : HeaderMap) :
    ((joinCookies headers).getAll cookie).length ≤ 1 ∧
      cookiePairs ((joinCookies headers).getAll cookie) = cookiePairs (headers.getAll cookie) := by
  by_cases few : (headers.getAll cookie).length < 2
  · have same : joinCookies headers = headers := by simp only [joinCookies, if_pos few]
    rw [same]
    exact ⟨by omega, rfl⟩
  · have joined : joinCookies headers = headers.insert cookie
        ⟨_, joined_legal (headers.getAll cookie)⟩ := by
      simp only [joinCookies, if_neg few, HeaderValue.fromBytes, dif_pos (joined_legal _)]
    have nonempty : (headers.getAll cookie).map HeaderValue.bytes ≠ [] := by
      intro empty
      rw [List.map_eq_nil_iff] at empty
      simp [empty] at few
    rw [joined, HeaderMap.getAll_insert, if_pos rfl]
    refine ⟨by simp, ?_⟩
    rw [cookiePairs, List.flatMap_singleton, splitOn_intercalate nonempty, List.flatMap_map]
    rfl

theorem rewriteHeaders_cookie (forwarding : Forwarding) (headers : HeaderMap)
    (unlisted : cookie ∉ connectionNames headers) :
    (forwarding.version = .http2 →
        ((rewriteHeaders forwarding headers).getAll cookie).length ≤ 1) ∧
      cookiePairs ((rewriteHeaders forwarding headers).getAll cookie) =
        cookiePairs (headers.getAll cookie) := by
  have canonical : isNoncanonicalSpelling cookie.text = false := by decide +kernel
  have stripped : (stripHopByHop headers).getAll cookie = headers.getAll cookie :=
    getAll_stripHopByHop_of_kept (by decide) fun listed => absurd listed unlisted
  rw [getAll_rewriteHeaders_of_ungoverned _ _ _ (by decide), canonical, if_neg Bool.false_ne_true,
    getAll_pinHost_of_ne _ _ _ (by decide), ← stripped]
  simp only [prepareHeaders]
  split
  · exact ⟨fun _ => (joinCookies_cookie _).1, (joinCookies_cookie _).2⟩
  · next notHttp2 => exact ⟨fun isHttp2 => absurd isHttp2 notHttp2, rfl⟩

/-! ## The whole rewriting -/

/-- The rewriting is transparent: what is neither hop-by-hop nor the proxy's
business passes line by line, no hop-by-hop header does, no name appears that
neither the client sent nor the proxy writes, and cookies keep their order. -/
theorem rewriteHeaders_transparent (forwarding : Forwarding) (headers : HeaderMap) :
    (∀ name, Passes headers name →
      (rewriteHeaders forwarding headers).getAll name = headers.getAll name) ∧
    (∀ name ∈ hopByHopHeaders, (rewriteHeaders forwarding headers).getAll name = []) ∧
    (∀ name ∈ (rewriteHeaders forwarding headers).keys,
      name ∈ headers.keys ∨ name ∈ addedNames forwarding) ∧
    (cookie ∉ connectionNames headers →
      (forwarding.version = .http2 →
        ((rewriteHeaders forwarding headers).getAll cookie).length ≤ 1) ∧
      cookiePairs ((rewriteHeaders forwarding headers).getAll cookie) =
        cookiePairs (headers.getAll cookie)) := by
  refine ⟨fun name passes => passes.getAll_rewriteHeaders forwarding,
    fun name => getAll_rewriteHeaders_hopByHop forwarding headers, fun name present => ?_,
    rewriteHeaders_cookie forwarding headers⟩
  rw [HeaderMap.mem_keys] at present ⊢
  by_cases isAdded : name ∈ addedNames forwarding
  · exact .inr isAdded
  · refine .inl fun absent => present ?_
    exact onlyAdds_rewriteHeaders forwarding headers name isAdded absent

end Ferryman.Server
