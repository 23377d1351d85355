import Ferryman.Server.Agreement

/-!
# Requests of an untrusted peer

Nothing such a peer writes into a trust-governed header, under any spelling,
reaches the upstream, except for the front of an appended `X-Forwarded-For`.
-/

set_option autoImplicit false

namespace Ferryman.Server

open Ferryman.Core Byte Bytes

theorem hidden_after_spellings {name : HeaderName}
    (isHidden : foldsToGoverned name = true ∧ isNoncanonicalSpelling name.text = false) :
    name ∈ trustGoverned := by
  by_contra notGoverned
  have dropped := (isNoncanonicalSpelling_iff name).mpr ⟨isHidden.1, notGoverned⟩
  rw [isHidden.2] at dropped
  simp at dropped

theorem hidden_after_override {name : HeaderName} (governed : name ∈ trustGoverned)
    (notProto : name ≠ xForwardedProto) (kept : name ∉ untrustedStripped) :
    name = xForwardedFor ∨ name = xRealIp := by
  have cases : ∀ name ∈ trustGoverned, name ≠ xForwardedProto → name ∉ untrustedStripped →
      name = xForwardedFor ∨ name = xRealIp := by
    decide +kernel
  exact cases name governed notProto kept

/-- The names two rewritten requests may still differ on. -/
def mayDiffer (forwarding : Forwarding) (name : HeaderName) : Prop :=
  forwarding.policy.xff = .append ∧ name = xForwardedFor

theorem announceClient_agree {forwarding : Forwarding} {first second : HeaderMap}
    (agree : AgreeOutside (fun name => name = xForwardedFor ∨ name = xRealIp) first second)
    (client peer : IpAddr) (clientHost : Option Bytes) :
    AgreeOutside (mayDiffer forwarding)
      (announceClient first client peer forwarding.proto clientHost forwarding.policy)
      (announceClient second client peer forwarding.proto clientHost forwarding.policy) := by
  have realIp : AgreeOutside (· = xForwardedFor) (setRealIp first client)
      (setRealIp second client) :=
    (agree.insertText_visible xRealIp (display_visible client.toCanonical)).mono
      fun name isHidden => isHidden.1.resolve_right isHidden.2
  have forwardedFor : AgreeOutside (mayDiffer forwarding)
      (setForwardedFor (setRealIp first client) client peer forwarding.policy.xff)
      (setForwardedFor (setRealIp second client) client peer forwarding.policy.xff) := by
    cases mode : forwarding.policy.xff with
    | replace =>
        exact (realIp.insertText_visible xForwardedFor (display_visible client.toCanonical)).mono
          fun name isHidden => absurd isHidden.1 isHidden.2
    | append =>
        exact (realIp.insertText_hidden rfl _ _).mono fun name isHidden => ⟨mode, isHidden⟩
  simp only [announceClient]
  split
  · exact forwardedFor.appendElement (fun isHidden => absurd isHidden.2 (by decide)) _
  · exact forwardedFor

theorem rewriteHeaders_agree {forwarding : Forwarding} {first second : HeaderMap}
    (untrusted : forwarding.policy.trusted.contains forwarding.peer = false)
    (agree : AgreeOutside (foldsToGoverned · = true) first second) :
    AgreeOutside (mayDiffer forwarding) (rewriteHeaders forwarding first)
      (rewriteHeaders forwarding second) := by
  -- each stage leaves fewer names on which the two requests may differ
  have prepared := agree.prepareHeaders forwarding (by decide +kernel) (by decide +kernel)
  have sameHost := prepared.clientHost forwarding (by decide +kernel)
  have spelled := (prepared.pinHost forwarding).stripNoncanonicalSpellings.mono
    fun _ => hidden_after_spellings
  have overridden := (spelled.overridePeer forwarding.proto).mono fun _ isHidden =>
    hidden_after_override isHidden.1 isHidden.2.1 isHidden.2.2
  have announced := @announceClient_agree forwarding _ _ overridden forwarding.peer forwarding.peer
    (clientHost forwarding (prepareHeaders forwarding second))
  simp only [rewriteHeaders, applyForwardedHeaders, untrusted, Bool.false_eq_true, if_false,
    sameHost]
  split
  · split
    · exact announced
    · exact announced.setForwardedPrefix (fun isHidden => absurd isHidden.2 (by decide)) _
  · exact announced

/-! ## What the upstream is told -/

/-- The headers of a rewritten request that name the peer and its scheme. -/
structure NamesPeer (forwarding : Forwarding) (headers : HeaderMap) : Prop where
  realIp : (headers.getAll xRealIp).map HeaderValue.bytes =
    [forwarding.peer.toCanonical.display]
  proto : (headers.getAll xForwardedProto).map HeaderValue.bytes = [forwarding.proto.text]
  absent : ∀ name ∈ [xForwardedPort, xForwardedHost, xForwardedSsl, xForwardedScheme],
    headers.getAll name = []
  spelled : ∀ name, foldsToGoverned name = true → name ∉ trustGoverned → headers.getAll name = []
  forwardedFor : forwarding.policy.xff = .append →
    ∃ value, headers.getAll xForwardedFor = [value] ∧
      (elements value.bytes).getLast? = some forwarding.peer.display

/-- The prefix is set last and touches one name only. -/
theorem rewriteHeaders_untrusted {forwarding : Forwarding} (headers : HeaderMap)
    (untrusted : forwarding.policy.trusted.contains forwarding.peer = false) :
    ∃ pinned clientHost, ∀ name ≠ xForwardedPrefix,
      (rewriteHeaders forwarding headers).getAll name =
        (announceClient (overridePeer (stripNoncanonicalSpellings pinned) forwarding.proto)
          forwarding.peer forwarding.peer forwarding.proto clientHost
          forwarding.policy).getAll name := by
  refine ⟨pinHost forwarding (prepareHeaders forwarding headers),
    clientHost forwarding (prepareHeaders forwarding headers), fun name notPrefix => ?_⟩
  simp only [rewriteHeaders, applyForwardedHeaders, untrusted, Bool.false_eq_true, if_false]
  split
  · split
    · rfl
    · exact HeaderMap.getAll_insertText_of_ne _ _ _ _ notPrefix
  · rfl

theorem rewriteHeaders_namesPeer {forwarding : Forwarding} (headers : HeaderMap)
    (untrusted : forwarding.policy.trusted.contains forwarding.peer = false) :
    NamesPeer forwarding (rewriteHeaders forwarding headers) := by
  obtain ⟨pinned, clientHost, lines⟩ := rewriteHeaders_untrusted headers untrusted
  constructor
  case realIp =>
    rw [lines xRealIp (by decide), announceClient_realIp]
  case proto =>
    rw [lines xForwardedProto (by decide), announceClient_other _ _ _ _ _ _ (by decide),
      getAll_overridePeer, if_neg (by decide),
      HeaderMap.getAll_insertText _ _ _ (protoText_visible _), if_pos rfl]
  case absent =>
    intro name isAbsent
    have outside : ∀ name ∈ [xForwardedPort, xForwardedHost, xForwardedSsl, xForwardedScheme],
        name ≠ xForwardedPrefix ∧ name ∉ [xRealIp, xForwardedFor, forwarded] ∧
          name ∈ untrustedStripped := by
      decide
    obtain ⟨notPrefix, other, stripped⟩ := outside name isAbsent
    rw [lines name notPrefix, announceClient_other _ _ _ _ _ _ other, getAll_overridePeer,
      if_pos stripped]
  case spelled =>
    intro name folds notGoverned
    have dropped := (isNoncanonicalSpelling_iff name).mpr ⟨folds, notGoverned⟩
    have outside : ∀ governed ∈ trustGoverned, name ≠ governed := by
      intro governed isGoverned same
      subst same
      exact notGoverned isGoverned
    have other : name ∉ [xRealIp, xForwardedFor, forwarded] := by
      intro member
      have included : ∀ name ∈ [xRealIp, xForwardedFor, forwarded], name ∈ trustGoverned := by
        decide
      exact notGoverned (included name member)
    rw [lines name (outside _ (by decide)), announceClient_other _ _ _ _ _ _ other,
      getAll_overridePeer]
    split
    · rfl
    · rw [HeaderMap.getAll_insertText_of_ne _ _ _ _ (outside _ (by decide)),
        getAll_stripNoncanonicalSpellings, if_pos dropped]
  case forwardedFor =>
    intro mode
    have text := announceClient_for (overridePeer (stripNoncanonicalSpellings pinned)
      forwarding.proto) forwarding.peer forwarding.peer forwarding.proto clientHost
      forwarding.policy
    rw [← lines xForwardedFor (by decide)] at text
    obtain ⟨value, isOnly, bytes⟩ := List.map_eq_singleton_iff.mp text
    refine ⟨value, isOnly, ?_⟩
    rw [bytes, mode, forwardedForText, elements_joinElements, elements_display]
    simp

/-- Any two requests of an untrusted peer that agree on all names a backend
cannot take for a governed one are the same to the upstream, but for the front
of an appended `X-Forwarded-For`; and the upstream is told the peer. -/
theorem untrusted_peer_noninterference (forwarding : Forwarding) (first second : HeaderMap)
    (untrusted : forwarding.policy.trusted.contains forwarding.peer = false)
    (agree : ∀ name, foldsToGoverned name = false → first.getAll name = second.getAll name) :
    AgreeOutside (mayDiffer forwarding) (rewriteHeaders forwarding first)
        (rewriteHeaders forwarding second) ∧
      NamesPeer forwarding (rewriteHeaders forwarding first) ∧
      NamesPeer forwarding (rewriteHeaders forwarding second) :=
  ⟨rewriteHeaders_agree untrusted fun name shown => agree name (by simpa using shown),
    rewriteHeaders_namesPeer first untrusted, rewriteHeaders_namesPeer second untrusted⟩

theorem forged_address_ignored :
    let forwarding : Forwarding :=
      { version := .http11, uri := ⟨none, none, none⟩, upstreamUri := ⟨none, none, none⟩,
        rewriteHost := false, peer := .v4 0x05050505, proto := .https,
        policy := ⟨⟨[]⟩, true, .append⟩, strippedPrefix := some (ascii "/api") }
    let forged : HeaderMap := ⟨[(xRealIp, ⟨ascii "10.0.0.1", by decide⟩),
      (⟨ascii "x_forwarded_proto", by decide⟩, ⟨ascii "http", by decide⟩)]⟩
    AgreeOutside (mayDiffer forwarding) (rewriteHeaders forwarding forged)
        (rewriteHeaders forwarding {}) ∧
      NamesPeer forwarding (rewriteHeaders forwarding forged) ∧
      NamesPeer forwarding (rewriteHeaders forwarding {}) := by
  refine untrusted_peer_noninterference _ _ _ (by decide) fun name shown => ?_
  have governed : ∀ hidden ∈ [xRealIp, ⟨ascii "x_forwarded_proto", by decide⟩],
      foldsToGoverned hidden = true := by
    decide +kernel
  have notRealIp : ¬xRealIp = name := fun same =>
    absurd (governed name (by simp [same])) (by simp [shown])
  have notProto : ¬(⟨ascii "x_forwarded_proto", by decide⟩ : HeaderName) = name := fun same =>
    absurd (governed name (by simp [same])) (by simp [shown])
  simp [HeaderMap.getAll, notRealIp, notProto]

end Ferryman.Server
