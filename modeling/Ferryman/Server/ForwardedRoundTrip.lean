import Ferryman.Lib.ForwardedSyntax
import Ferryman.Server.ForwardedProperties

/-!
# Reading back the `Forwarded` header

The element this proxy appends, read by a reader of the header's syntax, is one
element with the pairs it was made from. No host name ends the quoted string or
the element it stands in, and no element merges with those before it.
-/

set_option autoImplicit false

namespace Ferryman.Server

open Ferryman.Core Byte Bytes ForwardedSyntax

/-- The value of `for`: a v6 address stands in brackets. -/
def peerNode (peer : IpAddr) : Bytes :=
  match peer.toCanonical with
  | .v4 bits => IpAddr.display (.v4 bits)
  | .v6 bits => ascii "[" ++ IpAddr.display (.v6 bits) ++ ascii "]"

/-- What the element says. -/
def forwardedPairs (peer : IpAddr) (proto : Proto) (clientHost : Option Bytes) : Element :=
  (ascii "for", peerNode peer) :: (ascii "proto", proto.text) ::
    (clientHost.map fun name => (ascii "host", name)).toList

/-! ## Values as written -/

theorem escapeQuoted_eq (text : Bytes) : escapeQuoted text = text.flatMap escapeByte := by
  rw [escapeQuoted, List.flatMap_assoc]
  congr 1
  funext c
  by_cases isBackslash : c = backslash
  · subst isBackslash
    decide
  · by_cases isQuote : c = quote
    · subst isQuote
      decide
    · simp [escapeByte, isBackslash, isQuote]

theorem isQuotedByte_of_isVisible {c : UInt8} (visible : isVisible c = true) :
    isQuotedByte c = true :=
  HeaderValue.isValueByte_of_isVisible visible

theorem isTokenByte_digit : ∀ digit < 10, isTokenByte (digitByte digit) = true := by
  decide

theorem displayV4_token (bits : BitVec 32) : (IpAddr.displayV4 bits).all isTokenByte = true := by
  refine List.all_eq_true.mpr fun byte member => ?_
  cases IpAddr.mem_intercalate member with
  | inl isDot =>
      rw [List.mem_singleton.mp isDot]
      decide
  | inr inside =>
      obtain ⟨piece, isPiece, inPiece⟩ := inside
      obtain ⟨value, -, rfl⟩ := List.mem_map.mp isPiece
      obtain ⟨digits, shown, -, below, -⟩ := showNumber_digits (by decide : 1 < 10) value
      rw [shown] at inPiece
      obtain ⟨digit, isDigit, rfl⟩ := List.mem_map.mp inPiece
      exact isTokenByte_digit digit (below digit isDigit)

theorem displayV4_ne_nil (bits : BitVec 32) : IpAddr.displayV4 bits ≠ [] := by
  have four : (IpAddr.octets bits).length = 4 := length_bigEndian 256 4 bits.toNat
  match octets : IpAddr.octets bits with
  | [] | [_] => simp [octets] at four
  | first :: second :: others =>
      rw [IpAddr.displayV4, octets, List.map_cons, List.map_cons, List.intercalate_cons_cons]
      simp

/-- Between quotes, a text without quotes and backslashes stands for itself. -/
theorem flatMap_escapeByte_plain {text : Bytes}
    (plain : ∀ c ∈ text, c ≠ backslash ∧ c ≠ quote) : text.flatMap escapeByte = text := by
  induction text with
  | nil => rfl
  | cons c rest ih =>
      obtain ⟨first, others⟩ := List.forall_mem_cons.mp plain
      rw [List.flatMap_cons, ih others]
      simp [escapeByte, first.1, first.2]

theorem isAddressByte_quoted : ∀ byte : UInt8, IpAddr.isAddressByte byte = true →
    byte ≠ backslash ∧ byte ≠ quote ∧ isQuotedByte byte = true :=
  forall_of_fin (by decide +kernel)

theorem spells_forwardedNode (peer : IpAddr) : Spells (forwardedNode peer) (peerNode peer) := by
  rw [forwardedNode, peerNode]
  cases peer.toCanonical with
  | v4 bits => exact .token _ (displayV4_ne_nil bits) (displayV4_token bits)
  | v6 bits =>
      have node : ∀ byte ∈ ascii "[" ++ IpAddr.display (.v6 bits) ++ ascii "]",
          byte ≠ backslash ∧ byte ≠ quote ∧ isQuotedByte byte = true := by
        intro byte member
        refine isAddressByte_quoted byte ?_
        rw [List.mem_append, List.mem_append] at member
        rcases member with (opening | inside) | closing
        · exact List.all_eq_true.mp
            (by decide : (ascii "[").all IpAddr.isAddressByte = true) byte opening
        · exact IpAddr.display_alphabet _ byte inside
        · exact List.all_eq_true.mp
            (by decide : (ascii "]").all IpAddr.isAddressByte = true) byte closing
      have spelled := Spells.quoted _ (List.all_eq_true.mpr fun byte member =>
        (node byte member).2.2)
      rw [flatMap_escapeByte_plain fun byte member =>
        ⟨(node byte member).1, (node byte member).2.1⟩] at spelled
      have written : ascii "\"[" ++ IpAddr.display (.v6 bits) ++ ascii "]\"" =
          quote :: (ascii "[" ++ IpAddr.display (.v6 bits) ++ ascii "]") ++ [quote] := by
        have opening : ascii "\"[" = quote :: ascii "[" := by decide
        have closing : ascii "]\"" = ascii "]" ++ [quote] := by decide
        rw [opening, closing]
        simp
      change Spells (ascii "\"[" ++ IpAddr.display (.v6 bits) ++ ascii "]\"") _
      rw [written]
      exact spelled

theorem spells_proto (proto : Proto) : Spells proto.text proto.text := by
  cases proto with
  | http => exact .token _ (by decide) (by decide)
  | https => exact .token _ (by decide) (by decide)

/-- The text for a host: the host itself where it is a token, else between quotes. -/
def hostText (name : Bytes) : Bytes :=
  if name.all fun c => isAlphanumeric c || c == dash || c == dot || c == 0x5F then name
  else quote :: escapeQuoted name ++ [quote]

theorem isTokenByte_host : ∀ c : UInt8,
    (isAlphanumeric c || c == dash || c == dot || c == 0x5F) = true → isTokenByte c = true :=
  forall_of_fin (by decide +kernel)

theorem spells_hostText {name : Bytes} (nonempty : name ≠ [])
    (visible : name.all isVisible = true) : Spells (hostText name) name := by
  unfold hostText
  split
  · next isToken =>
    exact .token name nonempty (List.all_eq_true.mpr fun c member =>
      isTokenByte_host c (List.all_eq_true.mp isToken c member))
  · rw [escapeQuoted_eq]
    exact .quoted name (List.all_eq_true.mpr fun c member =>
      isQuotedByte_of_isVisible (List.all_eq_true.mp visible c member))

/-! ## The element -/

/-- The client host this hop announces, when it has one: visible and not empty. -/
def HostGiven (clientHost : Option Bytes) : Prop :=
  ∀ name, clientHost = some name → name ≠ [] ∧ name.all isVisible = true

def nodePair (peer : IpAddr) : WrittenPair :=
  ⟨ascii "for", peerNode peer, forwardedNode peer, by decide, spells_forwardedNode peer⟩

def schemePair (proto : Proto) : WrittenPair :=
  ⟨ascii "proto", proto.text, proto.text, by decide, spells_proto proto⟩

def hostPair {name : Bytes} (given : HostGiven (some name)) : WrittenPair :=
  ⟨ascii "host", name, hostText name, by decide,
    spells_hostText (given name rfl).1 (given name rfl).2⟩

theorem nodeText_eq (peer : IpAddr) (proto : Proto) :
    ascii "for=" ++ forwardedNode peer ++ ascii ";proto=" ++ proto.text =
      (nodePair peer).bytes ++ [semicolon] ++ (schemePair proto).bytes := by
  have nodeName : ascii "for=" = ascii "for" ++ [equals] := by decide
  have schemeName : ascii ";proto=" = [semicolon] ++ (ascii "proto" ++ [equals]) := by decide
  simp [nodePair, schemePair, WrittenPair.bytes, nodeName, schemeName]

theorem forwardedElement_some (peer : IpAddr) (proto : Proto) {name : Bytes}
    (given : HostGiven (some name)) :
    forwardedElement peer proto (some name) =
      (nodePair peer).bytes ++ [semicolon] ++ (schemePair proto).bytes ++ [semicolon] ++
        (hostPair given).bytes := by
  have hostName : ascii ";host=" = [semicolon] ++ (ascii "host" ++ [equals]) := by decide
  have quotedName : ascii ";host=\"" = [semicolon] ++ (ascii "host" ++ [equals, quote]) := by decide
  have closing : ascii "\"" = [quote] := by decide
  simp only [forwardedElement, nodeText_eq, hostPair, WrittenPair.bytes, hostText]
  split
  · simp [hostName]
  · simp [quotedName, closing]

theorem parse_forwardedElement (peer : IpAddr) (proto : Proto) {clientHost : Option Bytes}
    (given : HostGiven clientHost) :
    parse (forwardedElement peer proto clientHost) =
      some [forwardedPairs peer proto clientHost] := by
  cases clientHost with
  | none =>
      have read := parse_element (nodePair peer) [schemePair proto]
      have joined : List.intercalate [semicolon]
          ([nodePair peer, schemePair proto].map WrittenPair.bytes) =
            forwardedElement peer proto none := by
        rw [forwardedElement, nodeText_eq]
        simp [List.intercalate_cons_cons]
      rw [joined] at read
      exact read
  | some name =>
      have read := parse_element (nodePair peer) [schemePair proto, hostPair given]
      have joined : List.intercalate [semicolon]
          ([nodePair peer, schemePair proto, hostPair given].map WrittenPair.bytes) =
            forwardedElement peer proto (some name) := by
        rw [forwardedElement_some peer proto given]
        simp [List.intercalate_cons_cons]
      rw [joined] at read
      exact read

theorem forwardedNode_visible (peer : IpAddr) : (forwardedNode peer).all isVisible = true := by
  rw [forwardedNode]
  cases peer.toCanonical with
  | v4 bits => exact display_visible _
  | v6 bits =>
      change (ascii "\"[" ++ IpAddr.display (.v6 bits) ++ ascii "]\"").all isVisible = true
      rw [List.all_append, List.all_append, display_visible]
      decide

theorem hostText_visible {name : Bytes} (visible : name.all isVisible = true) :
    (hostText name).all isVisible = true := by
  unfold hostText
  split
  · exact visible
  · have escaped : (escapeQuoted name).all isVisible = true := by
      rw [escapeQuoted_eq, List.all_flatMap]
      refine List.all_eq_true.mpr fun c member => ?_
      have shown := List.all_eq_true.mp visible c member
      have backslashShown : isVisible backslash = true := by decide
      rw [escapeByte]
      split <;> simp [shown, backslashShown]
    have quoteShown : isVisible quote = true := by decide
    simp [escaped, quoteShown]

theorem forwardedElement_visible (peer : IpAddr) (proto : Proto) {clientHost : Option Bytes}
    (given : HostGiven clientHost) :
    (forwardedElement peer proto clientHost).all isVisible = true := by
  have front : (ascii "for=" ++ forwardedNode peer ++ ascii ";proto=" ++ proto.text).all
      isVisible = true := by
    simp only [List.all_append, forwardedNode_visible, protoText_visible]
    decide
  cases clientHost with
  | none => exact front
  | some name =>
      have separators : isVisible semicolon = true ∧ isVisible equals = true ∧
          (ascii "host").all isVisible = true := by decide
      rw [forwardedElement_some peer proto given, ← nodeText_eq, List.all_append, List.all_append,
        front]
      simp [List.all_append, hostPair, WrittenPair.bytes, separators,
        hostText_visible (given name rfl).2]

/-! ## The header -/

theorem joinElements_cons (line : Bytes) (lines : List Bytes) (element : Bytes) :
    joinElements (line :: lines) element = line ++ comma :: space :: joinElements lines element := by
  have separator : ascii ", " = [comma, space] := by decide
  cases lines with
  | nil => simp [joinElements, separator]
  | cons next lines => simp [joinElements, separator, List.intercalate_cons_cons]

/-- Complete lines in front of an element keep their elements. -/
theorem parse_joinElements {lines : List Bytes} {parsed : List (List Element)}
    (complete : List.Forall₂ (fun line elements => parse line = some elements) lines parsed)
    {element : Bytes} {last : List Element} (isLast : parse element = some last) :
    parse (joinElements lines element) = some (parsed.flatten ++ last) := by
  induction complete with
  | nil => simpa [joinElements] using isLast
  | cons first _ ih =>
      rw [joinElements_cons, parse_comma first, parse_blank (by decide), ih]
      simp

/-- The lines of the header are visible, and each is read to its end. -/
def Complete (lines : List HeaderValue) (parsed : List (List Element)) : Prop :=
  List.Forall₂ (fun value elements => value.bytes.all isVisible = true ∧
    parse value.bytes = some elements) lines parsed

theorem Complete.texts {lines : List HeaderValue} {parsed : List (List Element)}
    (complete : Complete lines parsed) :
    (∀ text ∈ lines.filterMap HeaderValue.toStr, text.all isVisible = true) ∧
      List.Forall₂ (fun line elements => parse line = some elements)
        (lines.filterMap HeaderValue.toStr) parsed := by
  induction complete with
  | nil => exact ⟨by simp, .nil⟩
  | @cons value elements lines parsed first _ ih =>
      have shown : value.toStr = some value.bytes := if_pos first.1
      rw [List.filterMap_cons_some shown]
      exact ⟨List.forall_mem_cons.mpr ⟨first.1, ih.1⟩, .cons first.2 ih.2⟩

theorem appendForwarded_parse {headers : HeaderMap} (peer : IpAddr) (proto : Proto)
    {clientHost : Option Bytes} (given : HostGiven clientHost) {parsed : List (List Element)}
    (complete : Complete (headers.getAll forwarded) parsed) :
    ∃ value, (appendForwarded headers peer proto clientHost).getAll forwarded = [value] ∧
      parse value.bytes = some (parsed.flatten ++ [forwardedPairs peer proto clientHost]) := by
  obtain ⟨visible, readable⟩ := complete.texts
  have shown := joinElements_visible visible (forwardedElement_visible peer proto given)
  have written := HeaderMap.getAll_insertText headers forwarded forwarded shown
  rw [if_pos rfl] at written
  obtain ⟨value, inserted, bytes⟩ := List.map_eq_singleton_iff.mp written
  refine ⟨value, inserted, ?_⟩
  rw [bytes]
  exact parse_joinElements readable (parse_forwardedElement peer proto given)

theorem appendForwarded_fresh {headers : HeaderMap} (absent : headers.getAll forwarded = [])
    (peer : IpAddr) (proto : Proto) {clientHost : Option Bytes} (given : HostGiven clientHost) :
    ∃ value, (appendForwarded headers peer proto clientHost).getAll forwarded = [value] ∧
      parse value.bytes = some [forwardedPairs peer proto clientHost] := by
  have complete : Complete (headers.getAll forwarded) [] := by
    rw [absent]
    exact .nil
  exact appendForwarded_parse peer proto given complete

/-- With no `Forwarded` header present the value is exactly one element, made of
this hop's pairs with the host as given; behind complete lines it is their
elements in order and then this one. -/
theorem appendForwarded_reads_back (headers : HeaderMap) (peer : IpAddr) (proto : Proto)
    (clientHost : Option Bytes) (given : HostGiven clientHost) :
    (headers.getAll forwarded = [] →
      ∃ value, (appendForwarded headers peer proto clientHost).getAll forwarded = [value] ∧
        parse value.bytes = some [forwardedPairs peer proto clientHost]) ∧
    ∀ parsed, Complete (headers.getAll forwarded) parsed →
      ∃ value, (appendForwarded headers peer proto clientHost).getAll forwarded = [value] ∧
        parse value.bytes = some (parsed.flatten ++ [forwardedPairs peer proto clientHost]) :=
  ⟨fun absent => appendForwarded_fresh absent peer proto given,
    fun _ complete => appendForwarded_parse peer proto given complete⟩

def hostileHost : Bytes := ascii "a\",for=6.6.6.6;by=\\\""

def behindOneHop : HeaderMap := ⟨[(forwarded, ⟨ascii "for=6.6.6.6", by decide⟩)]⟩

/-- A host full of delimiters, behind the element of another hop. -/
theorem hostileHost_reads_back :
    ∃ value, (appendForwarded behindOneHop (.v4 0x0A010203) .https (some hostileHost)).getAll
        forwarded = [value] ∧
      parse value.bytes =
        some [[(ascii "for", ascii "6.6.6.6")],
          [(ascii "for", ascii "10.1.2.3"), (ascii "proto", ascii "https"),
            (ascii "host", hostileHost)]] := by
  have given : HostGiven (some hostileHost) := by
    intro name same
    obtain rfl := Option.some.inj same
    decide
  have lines : behindOneHop.getAll forwarded = [⟨ascii "for=6.6.6.6", by decide⟩] := by decide +kernel
  have parsed : parse (ascii "for=6.6.6.6") = some [[(ascii "for", ascii "6.6.6.6")]] := by
    decide +kernel
  have complete : Complete (behindOneHop.getAll forwarded) [[[(ascii "for", ascii "6.6.6.6")]]] := by
    rw [lines]
    exact .cons ⟨by decide, parsed⟩ .nil
  have pairs : forwardedPairs (.v4 0x0A010203) .https (some hostileHost) =
      [(ascii "for", ascii "10.1.2.3"), (ascii "proto", ascii "https"),
        (ascii "host", hostileHost)] := by decide +kernel
  have readBack := (appendForwarded_reads_back behindOneHop (.v4 0x0A010203) .https
    (some hostileHost) given).2 _ complete
  rw [pairs] at readBack
  exact readBack

/-- Whatever an untrusted peer sends, the upstream reads one element, about that peer. -/
theorem untrusted_forwarded_fresh (headers : HeaderMap) {peer : IpAddr} (proto : Proto)
    {clientHost : Option Bytes} (given : HostGiven clientHost) {cfg : FwdCfg}
    (untrusted : cfg.trusted.contains peer = false) (enabled : cfg.forwardedHeader = true) :
    ∃ value, (applyForwardedHeaders headers peer proto clientHost cfg).getAll forwarded = [value] ∧
      parse value.bytes = some [forwardedPairs peer proto clientHost] := by
  have absent : ∀ mode, (setForwardedFor (setRealIp
      (overridePeer (stripNoncanonicalSpellings headers) proto) peer) peer peer mode).getAll
        forwarded = [] := by
    intro mode
    rw [setForwardedFor_eq, HeaderMap.getAll_insertText_of_ne _ _ _ _ (by decide), setRealIp,
      HeaderMap.getAll_insertText_of_ne _ _ _ _ (by decide), getAll_overridePeer,
      if_pos (by decide)]
  simp only [applyForwardedHeaders, untrusted, Bool.false_eq_true, if_false, announceClient,
    enabled, if_true]
  exact appendForwarded_fresh (absent cfg.xff) peer proto given

end Ferryman.Server
