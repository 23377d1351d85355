import Ferryman.Server.ForwardedProperties

/-!
# Chains of proxies

A request passes one hop after the other, each with its own trusted networks and
mode. When later hops trust the earlier ones and nobody trusts the client, every
hop derives the address the first one saw.
-/

set_option autoImplicit false

namespace Ferryman.Server

open Ferryman.Core Byte Bytes

structure Hop where
  address : IpAddr
  proto : Proto
  clientHost : Option Bytes
  cfg : FwdCfg

def runChain : List Hop → IpAddr → HeaderMap → HeaderMap
  | [], _, headers => headers
  | hop :: later, peer, headers =>
      runChain later hop.address
        (applyForwardedHeaders headers peer hop.proto hop.clientHost hop.cfg)

def TrustedBy (ip : IpAddr) (hops : List Hop) : Prop :=
  ∀ hop ∈ hops, hop.cfg.trusted.contains ip = true

/-- `X-Forwarded-For` between two hops: whatever the client wrote, then the client,
then hops that all later hops trust. -/
structure Carries (client : IpAddr) (later : List Hop) (headers : HeaderMap) : Prop where
  visible : ∀ value ∈ headers.getAll xForwardedFor, value.bytes.all isVisible = true
  listed : ∃ (left : List (Option IpAddr)) (entry : IpAddr) (passed : List IpAddr),
    xffEntries headers = left ++ some entry :: passed.map some ∧
      entry.toCanonical = client.toCanonical ∧ ∀ ip ∈ passed, TrustedBy ip later

theorem Carries.tail {client : IpAddr} {hop : Hop} {later : List Hop} {headers : HeaderMap}
    (carries : Carries client (hop :: later) headers) : Carries client later headers := by
  obtain ⟨left, entry, passed, listed, same, areTrusted⟩ := carries.listed
  exact ⟨carries.visible, left, entry, passed, listed, same, fun ip member next isLater =>
    areTrusted ip member next (List.mem_cons_of_mem _ isLater)⟩

/-! ## One hop -/

theorem toCanonical_idem (ip : IpAddr) : ip.toCanonical.toCanonical = ip.toCanonical := by
  cases ip with
  | v4 bits => rfl
  | v6 bits =>
      cases mapped : IpAddr.toIpv4Mapped bits with
      | some inner => simp [IpAddr.toCanonical, mapped]
      | none => simp [IpAddr.toCanonical, mapped]

theorem contains_of_toCanonical {trusted : TrustedProxies} {first second : IpAddr}
    (same : first.toCanonical = second.toCanonical) :
    trusted.contains first = trusted.contains second := by
  rw [TrustedProxies.contains, TrustedProxies.contains, same]

theorem parseXffEntry_display (ip : IpAddr) : parseXffEntry ip.display = some ip := by
  rw [parseXffEntry, IpAddr.parse_display]

theorem xffEntries_applyForwardedHeaders (headers : HeaderMap) (peer : IpAddr) (proto : Proto)
    (clientHost : Option Bytes) (cfg : FwdCfg) :
    let rewritten := applyForwardedHeaders headers peer proto clientHost cfg
    (∀ value ∈ rewritten.getAll xForwardedFor, value.bytes.all isVisible = true) ∧
      xffEntries rewritten =
        (elements (forwardedForText headers (clientOf headers peer cfg) peer cfg.xff)).map
          parseXffEntry := by
  have text := applyForwardedHeaders_for headers peer proto clientHost cfg
  have visible := forwardedForText_visible headers (clientOf headers peer cfg) peer cfg.xff
  obtain ⟨value, isOnly, bytes⟩ := List.map_eq_singleton_iff.mp text
  constructor
  · intro other member
    rw [isOnly, List.mem_singleton] at member
    rw [member, bytes, visible]
  · rw [xffEntries, isOnly, List.flatMap_singleton, lineEntries, HeaderValue.toStr, bytes,
      if_pos visible]

theorem visibleEntries {values : List HeaderValue}
    (visible : ∀ value ∈ values, value.bytes.all isVisible = true) :
    ((values.filterMap HeaderValue.toStr).flatMap elements).map parseXffEntry =
      values.flatMap lineEntries := by
  induction values with
  | nil => rfl
  | cons value values ih =>
      have shown : value.toStr = some value.bytes := by
        rw [HeaderValue.toStr, if_pos (visible value List.mem_cons_self)]
      have later := ih fun other member => visible other (List.mem_cons_of_mem _ member)
      rw [List.filterMap_cons_some shown, List.flatMap_cons, List.map_append, later,
        List.flatMap_cons, lineEntries, shown]

/-- A hop that decides for the client passes the invariant on. -/
theorem carries_step {client peer : IpAddr} {hop : Hop} {later : List Hop} {headers : HeaderMap}
    (decides : (clientOf headers peer hop.cfg).toCanonical = client.toCanonical)
    (lists : hop.cfg.xff = .append → peer.toCanonical = client.toCanonical ∨
      (Carries client later headers ∧ TrustedBy peer later)) :
    Carries client later
      (applyForwardedHeaders headers peer hop.proto hop.clientHost hop.cfg) := by
  obtain ⟨visible, entries⟩ := xffEntries_applyForwardedHeaders headers peer hop.proto
    hop.clientHost hop.cfg
  refine ⟨visible, ?_⟩
  rw [entries]
  cases mode : hop.cfg.xff with
  | replace =>
      refine ⟨[], (clientOf headers peer hop.cfg).toCanonical, [], ?_, ?_, by simp⟩
      · simp [forwardedForText, elements_display, parseXffEntry_display]
      · rw [toCanonical_idem, decides]
  | append =>
      have appended : (elements (forwardedForText headers (clientOf headers peer hop.cfg) peer
          .append)).map parseXffEntry =
          (((headers.getAll xForwardedFor).filterMap HeaderValue.toStr).flatMap elements).map
            parseXffEntry ++ [some peer] := by
        rw [forwardedForText, elements_joinElements, elements_display, List.map_append]
        simp [parseXffEntry_display]
      rw [appended]
      -- the first hop appends the client, a later one its trusted peer
      cases lists mode with
      | inl isClient => exact ⟨_, peer, [], rfl, isClient, by simp⟩
      | inr relays =>
          obtain ⟨carries, passes⟩ := relays
          obtain ⟨left, entry, passed, listed, same, areTrusted⟩ := carries.listed
          have kept : (((headers.getAll xForwardedFor).filterMap HeaderValue.toStr).flatMap
              elements).map parseXffEntry = xffEntries headers :=
            visibleEntries carries.visible
          refine ⟨left, entry, passed ++ [peer], ?_, same, ?_⟩
          · rw [kept, listed]
            simp
          · intro ip member
            cases List.mem_append.mp member with
            | inl earlier => exact areTrusted ip earlier
            | inr isPeer => exact List.mem_singleton.mp isPeer ▸ passes

theorem clientOf_carries {client peer : IpAddr} {hop : Hop} {later : List Hop}
    {headers : HeaderMap} (carries : Carries client (hop :: later) headers)
    (trustsPeer : hop.cfg.trusted.contains peer = true)
    (untrusted : hop.cfg.trusted.contains client = false) :
    (clientOf headers peer hop.cfg).toCanonical = client.toCanonical := by
  obtain ⟨left, entry, passed, listed, same, areTrusted⟩ := carries.listed
  have stops : ∀ ip ∈ some entry, hop.cfg.trusted.contains ip = false := by
    intro ip same
    cases same
    rw [contains_of_toCanonical same, untrusted]
  have walk := @deriveClient_append hop.cfg.trusted peer (some entry) passed left
    (fun ip member => areTrusted ip member hop List.mem_cons_self) stops
  rw [clientOf, if_pos trustsPeer, listed, walk]
  exact same

/-! ## The whole chain -/

/-- Each hop is trusted by all hops behind it. -/
def TrustChain (hops : List Hop) : Prop :=
  hops.Pairwise fun earlier later => later.cfg.trusted.contains earlier.address = true

theorem runChain_realIp {client peer : IpAddr} {hops : List Hop} {headers : HeaderMap}
    (chain : TrustChain hops)
    (untrusted : ∀ hop ∈ hops, hop.cfg.trusted.contains client = false)
    (trustsPeer : TrustedBy peer hops) (carries : Carries client hops headers)
    (known : (headers.getAll xRealIp).map HeaderValue.bytes = [client.toCanonical.display]) :
    ((runChain hops peer headers).getAll xRealIp).map HeaderValue.bytes =
      [client.toCanonical.display] := by
  induction hops generalizing peer headers with
  | nil => exact known
  | cons hop later ih =>
      obtain ⟨trustsHop, chainLater⟩ := List.pairwise_cons.mp chain
      have decides := clientOf_carries carries (trustsPeer hop List.mem_cons_self)
        (untrusted hop List.mem_cons_self)
      have passes : TrustedBy peer later := fun next member =>
        trustsPeer next (List.mem_cons_of_mem _ member)
      refine ih chainLater (fun next member => untrusted next (List.mem_cons_of_mem _ member))
        trustsHop (carries_step decides fun _ => .inr ⟨carries.tail, passes⟩) ?_
      rw [applyForwardedHeaders_realIp, decides]

theorem client_survives_chain (hops : List Hop) (client : IpAddr) (headers : HeaderMap)
    (nonempty : hops ≠ []) (chain : TrustChain hops)
    (untrusted : ∀ hop ∈ hops, hop.cfg.trusted.contains client = false) :
    ((runChain hops client headers).getAll xRealIp).map HeaderValue.bytes =
      [client.toCanonical.display] := by
  cases hops with
  | nil => exact absurd rfl nonempty
  | cons first later =>
      obtain ⟨trustsFirst, chainLater⟩ := List.pairwise_cons.mp chain
      have decides : clientOf headers client first.cfg = client := by
        simp [clientOf, untrusted first List.mem_cons_self]
      rw [runChain]
      refine runChain_realIp chainLater
        (fun next member => untrusted next (List.mem_cons_of_mem _ member)) trustsFirst
        (carries_step (by rw [decides]) fun _ => .inl rfl) ?_
      rw [applyForwardedHeaders_realIp, decides]

theorem client_survives_three_hops :
    let trusted : TrustedProxies := ⟨[⟨.v4 0x0A000000, 8, by decide⟩]⟩
    ((runChain
      [⟨.v4 0x0A000001, .https, none, ⟨⟨[]⟩, false, .append⟩⟩,
        ⟨.v6 0xFFFF0A000002, .http, none, ⟨trusted, false, .replace⟩⟩,
        ⟨.v4 0x0A000003, .http, none, ⟨trusted, true, .append⟩⟩]
      (.v6 0xFFFF05050505)
      ⟨[(xForwardedFor, ⟨0x80 :: ascii ", 10.9.9.9", by decide⟩),
        (xForwardedFor, ⟨ascii "10.0.0.7", by decide⟩)]⟩).getAll xRealIp).map
          HeaderValue.bytes = [ascii "5.5.5.5"] :=
  (client_survives_chain _ (.v6 0xFFFF05050505) _ (by simp)
    (by unfold TrustChain; decide +kernel) (by decide +kernel)).trans (by decide +kernel)

end Ferryman.Server
