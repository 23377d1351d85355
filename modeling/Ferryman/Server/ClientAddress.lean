import Ferryman.Lib.IpAddrTexts
import Ferryman.Server.ForwardedProperties

/-!
# The client behind a trusted peer

The rightmost entry of `X-Forwarded-For` that is not a trusted proxy decides,
whatever stands to its left on a visible line.
-/

set_option autoImplicit false

namespace Ferryman.Server

open Ferryman.Core Byte Bytes

/-- The forms of an entry: an address, one with a port, one in brackets. -/
inductive AddressEntry : Bytes → IpAddr → Prop where
  | plain {text : Bytes} {ip : IpAddr} : IpAddr.parse text = some ip → AddressEntry text ip
  | withPort {text : Bytes} {ip : IpAddr} :
      IpAddr.parseSocketAddr text = some ip → AddressEntry text ip
  | bracketed {text : Bytes} {ip : IpAddr} :
      IpAddr.parse text = some ip → AddressEntry (openBracket :: text ++ [closeBracket]) ip

namespace AddressEntry

theorem parsed {text : Bytes} {ip : IpAddr} (entry : AddressEntry text ip) :
    parseXffEntry text = some ip := by
  cases entry with
  | plain address => simp [parseXffEntry, address]
  | withPort socket =>
      simp [parseXffEntry, IpAddr.parse_of_parseSocketAddr socket, socket]
  | @bracketed inner _ address =>
      have notPlain := @IpAddr.parse_openBracket (openBracket :: inner ++ [closeBracket]) rfl
      have noPort := IpAddr.parseSocketAddr_closeBracket (openBracket :: inner)
      have last : (openBracket :: inner ++ [closeBracket]).getLast? = some closeBracket :=
        List.getLast?_concat
      simp only [List.cons_append] at notPlain noPort last ⊢
      simp [parseXffEntry, notPlain, noPort, last, address]

theorem alphabet {text : Bytes} {ip : IpAddr} (entry : AddressEntry text ip) :
    ∀ c ∈ text, IpAddr.isAddressByte c = true := by
  cases entry with
  | plain address => exact IpAddr.parse_alphabet address
  | withPort socket => exact IpAddr.parseSocketAddr_alphabet socket
  | bracketed address =>
      intro c member
      simp only [List.cons_append, List.mem_cons, List.mem_append, List.not_mem_nil,
        or_false] at member
      rcases member with rfl | inside | rfl
      · decide
      · exact IpAddr.parse_alphabet address c inside
      · decide

end AddressEntry

/-! ## Padded entries -/

theorem mem_trim_or_blank {text : Bytes} {c : UInt8} (member : c ∈ text) :
    c ∈ trim text ∨ isWhitespace c = true := by
  rw [← @List.takeWhile_append_dropWhile _ isWhitespace text, List.mem_append] at member
  cases member with
  | inl blank => exact .inr (List.mem_takeWhile_imp blank)
  | inr inside =>
      rw [← @List.rdropWhile_append_rtakeWhile _ isWhitespace (text.dropWhile isWhitespace),
        List.mem_append] at inside
      cases inside with
      | inl kept => exact .inl kept
      | inr blank => exact .inr (List.mem_rtakeWhile_imp blank)

theorem isVisible_of_blank : ∀ c : UInt8, isValueByte c = true → isWhitespace c = true →
    isVisible c = true :=
  forall_of_fin (by decide +kernel)

section Padded

variable {entry : Bytes} {ip : IpAddr} (isEntry : AddressEntry (trim entry) ip)
include isEntry

theorem noComma_of_entry : comma ∉ entry := by
  intro member
  cases mem_trim_or_blank member with
  | inl inside => exact (IpAddr.isAddressByte_plain comma (isEntry.alphabet comma inside)).1 rfl
  | inr blank => exact absurd blank (by decide)

theorem visible_of_entry {c : UInt8} (member : c ∈ entry) (legal : isValueByte c = true) :
    isVisible c = true := by
  cases mem_trim_or_blank member with
  | inl inside => exact isVisible_of_isAddressByte (isEntry.alphabet c inside)
  | inr blank => exact isVisible_of_blank c legal blank

end Padded

/-! ## The last line -/

theorem elements_line (left : Bytes) {pieces : List Bytes} (nonempty : pieces ≠ [])
    (noComma : ∀ piece ∈ pieces, comma ∉ piece) :
    elements (left ++ comma :: List.intercalate [comma] pieces) =
      elements left ++ pieces.map trim := by
  rw [elements, List.splitOn_append_cons_self, List.splitOn_intercalate comma noComma nonempty,
    List.map_append, elements]

/-- The end of a line: an untrusted entry and trusted hops behind it. -/
structure EndsAtClient (trusted : TrustedProxies) (client : IpAddr) (entry : Bytes)
    (hops : List Bytes) : Prop where
  isEntry : AddressEntry (trim entry) client
  untrusted : trusted.contains client = false
  areHops : ∀ hop ∈ hops, ∃ ip, AddressEntry (trim hop) ip ∧ trusted.contains ip = true

namespace EndsAtClient

variable {trusted : TrustedProxies} {client : IpAddr} {entry : Bytes} {hops : List Bytes}

theorem pieces (ends : EndsAtClient trusted client entry hops) :
    ∀ piece ∈ entry :: hops, ∃ ip, AddressEntry (trim piece) ip := by
  intro piece member
  cases List.mem_cons.mp member with
  | inl same =>
      subst same
      exact ⟨client, ends.isEntry⟩
  | inr isHop =>
      obtain ⟨ip, hopEntry, -⟩ := ends.areHops piece isHop
      exact ⟨ip, hopEntry⟩

theorem parsedHops (ends : EndsAtClient trusted client entry hops) :
    ∃ ips : List IpAddr, (hops.map trim).map parseXffEntry = ips.map some ∧
      ∀ ip ∈ ips, trusted.contains ip = true := by
  have areHops := ends.areHops
  clear ends
  induction hops with
  | nil => exact ⟨[], rfl, by simp⟩
  | cons hop hops ih =>
      obtain ⟨ip, hopEntry, isTrusted⟩ := areHops hop List.mem_cons_self
      obtain ⟨ips, parsed, areTrusted⟩ := ih fun other member =>
        areHops other (List.mem_cons_of_mem _ member)
      exact ⟨ip :: ips, by simpa [hopEntry.parsed] using parsed,
        List.forall_mem_cons.mpr ⟨isTrusted, areTrusted⟩⟩

theorem visible_iff (ends : EndsAtClient trusted client entry hops) {line : HeaderValue}
    {left : Bytes} (shape : line.bytes = left ++ comma :: List.intercalate [comma] (entry :: hops)) :
    line.bytes.all isVisible = left.all isVisible := by
  have legal := List.all_eq_true.mp line.legal
  rw [shape] at legal ⊢
  have rest : (comma :: List.intercalate [comma] (entry :: hops)).all isVisible = true := by
    refine List.all_eq_true.mpr fun c member => ?_
    have isLegal := legal c (List.mem_append_right _ member)
    have isSeparator : isVisible comma = true := by decide
    cases List.mem_cons.mp member with
    | inl same =>
        subst same
        exact isSeparator
    | inr inside =>
        cases IpAddr.mem_intercalate inside with
        | inl separator => exact List.mem_singleton.mp separator ▸ isSeparator
        | inr inside =>
            obtain ⟨piece, isPiece, inPiece⟩ := inside
            obtain ⟨ip, pieceEntry⟩ := ends.pieces piece isPiece
            exact visible_of_entry pieceEntry inPiece isLegal
  rw [List.all_append, rest, Bool.and_true]

theorem deriveClient (ends : EndsAtClient trusted client entry hops) {headers : HeaderMap}
    {earlier : List HeaderValue} {line : HeaderValue} {left : Bytes}
    (lines : headers.getAll xForwardedFor = earlier ++ [line])
    (shape : line.bytes = left ++ comma :: List.intercalate [comma] (entry :: hops))
    (peer : IpAddr) :
    deriveClient trusted peer (xffEntries headers) =
      if left.all isVisible then client else peer := by
  have visible := ends.visible_iff shape
  rw [xffEntries, lines, List.flatMap_append, List.flatMap_singleton]
  cases leftVisible : left.all isVisible with
  | false =>
      -- the line is one garbage entry, which stops the walk at once
      have garbage : lineEntries line = [none] := by
        simp [lineEntries, HeaderValue.toStr, visible, leftVisible]
      rw [garbage]
      simpa using @deriveClient_append trusted peer none [] (earlier.flatMap lineEntries) (by simp)
        (by simp)
  | true =>
      have noComma : ∀ piece ∈ entry :: hops, comma ∉ piece := fun piece member => by
        obtain ⟨ip, pieceEntry⟩ := ends.pieces piece member
        exact noComma_of_entry pieceEntry
      obtain ⟨ips, parsed, areTrusted⟩ := ends.parsedHops
      have entries : lineEntries line =
          (elements left).map parseXffEntry ++ some client :: ips.map some := by
        rw [lineEntries, HeaderValue.toStr, if_pos (visible.trans leftVisible), shape]
        simp only [elements_line left (List.cons_ne_nil _ _) noComma, List.map_append,
          List.map_cons, ends.isEntry.parsed, parsed]
      have walk := @deriveClient_append trusted peer (some client) ips
        (earlier.flatMap lineEntries ++ (elements left).map parseXffEntry) areTrusted
        (by simpa using ends.untrusted)
      rw [entries, ← List.append_assoc, walk]
      rfl

end EndsAtClient

theorem client_independent_of_left (headers : HeaderMap) (peer : IpAddr) (proto : Proto)
    (clientHost : Option Bytes) (cfg : FwdCfg) (earlier : List HeaderValue) (line : HeaderValue)
    (left entry : Bytes) (hops : List Bytes) (client : IpAddr)
    (trustedPeer : cfg.trusted.contains peer = true)
    (lines : headers.getAll xForwardedFor = earlier ++ [line])
    (shape : line.bytes = left ++ comma :: List.intercalate [comma] (entry :: hops))
    (ends : EndsAtClient cfg.trusted client entry hops) :
    let rewritten := applyForwardedHeaders headers peer proto clientHost cfg
    let derived := if left.all isVisible then client else peer
    (rewritten.getAll xRealIp).map HeaderValue.bytes = [derived.toCanonical.display] ∧
      (cfg.xff = .replace →
        (rewritten.getAll xForwardedFor).map HeaderValue.bytes =
          [derived.toCanonical.display]) := by
  have derived : clientOf headers peer cfg = if left.all isVisible then client else peer := by
    rw [clientOf, if_pos trustedPeer, ends.deriveClient lines shape]
  refine ⟨?_, fun replaces => ?_⟩
  · rw [applyForwardedHeaders_realIp, derived]
  · rw [applyForwardedHeaders_for, derived, replaces, forwardedForText]

def privateRange : TrustedProxies := ⟨[⟨.v4 0x0A000000, 8, by decide⟩]⟩

theorem client_behind_two_hops :
    ((applyForwardedHeaders
      ⟨[(xForwardedFor, ⟨ascii "6.6.6.6, [::1]:80 ,10.0.0.9", by decide⟩)]⟩
      (.v4 0x0A010203) .http none ⟨privateRange, false, .replace⟩).getAll xRealIp).map
        HeaderValue.bytes = [ascii "::1"] := by
  have derived := client_independent_of_left
    ⟨[(xForwardedFor, ⟨ascii "6.6.6.6, [::1]:80 ,10.0.0.9", by decide⟩)]⟩
    (.v4 0x0A010203) .http none ⟨privateRange, false, .replace⟩ []
    ⟨ascii "6.6.6.6, [::1]:80 ,10.0.0.9", by decide⟩ (ascii "6.6.6.6") (ascii " [::1]:80 ")
    [ascii "10.0.0.9"] (.v6 1) (by decide +kernel) (by decide +kernel) (by decide +kernel)
    { isEntry := .withPort (by decide +kernel)
      untrusted := by decide +kernel
      areHops := by
        intro hop member
        rw [List.mem_singleton.mp member]
        exact ⟨.v4 0x0A000009, .plain (by decide +kernel), by decide +kernel⟩ }
  exact derived.1.trans (by decide +kernel)

/-- An invisible byte left of the entry hides the whole line, and the peer is
taken for the client. -/
theorem invisible_left_hides_client :
    ¬∀ (headers : HeaderMap) (peer : IpAddr) (cfg : FwdCfg) (line : HeaderValue)
      (left entry : Bytes) (client : IpAddr),
      cfg.trusted.contains peer = true →
      headers.getAll xForwardedFor = [line] →
      line.bytes = left ++ comma :: entry →
      EndsAtClient cfg.trusted client entry [] →
      ((applyForwardedHeaders headers peer .http none cfg).getAll xRealIp).map HeaderValue.bytes =
        [client.toCanonical.display] := by
  intro independent
  have claimed := independent ⟨[(xForwardedFor, ⟨0x80 :: ascii ",5.5.5.5", by decide⟩)]⟩
    (.v4 0x0A010203) ⟨privateRange, false, .append⟩ ⟨0x80 :: ascii ",5.5.5.5", by decide⟩ [0x80]
    (ascii "5.5.5.5") (.v4 0x05050505) (by decide +kernel) (by decide +kernel) (by decide +kernel)
    { isEntry := .plain (by decide +kernel)
      untrusted := by decide +kernel
      areHops := by simp }
  exact absurd claimed (by decide +kernel)

end Ferryman.Server
