import Ferryman.Lib.IpAddrProperties
import Ferryman.Server.Forwarded

/-! What each stage of the forwarding headers leaves in the map. -/

set_option autoImplicit false

namespace Ferryman.Server

open Ferryman.Core Byte Bytes

/-! ## Visible texts -/

theorem isVisible_of_isAddressByte {c : UInt8} (inAddress : IpAddr.isAddressByte c = true) :
    isVisible c = true := by
  obtain ⟨-, -, low, high⟩ := IpAddr.isAddressByte_plain c inAddress
  simp [isVisible, low, high]

theorem display_visible (ip : IpAddr) : ip.display.all isVisible = true :=
  List.all_eq_true.mpr fun c member =>
    isVisible_of_isAddressByte (IpAddr.display_alphabet ip c member)

theorem protoText_visible (proto : Proto) : proto.text.all isVisible = true := by
  cases proto <;> decide

theorem getAll_stripNoncanonicalSpellings (headers : HeaderMap) (name : HeaderName) :
    (stripNoncanonicalSpellings headers).getAll name =
      if isNoncanonicalSpelling name.text then [] else headers.getAll name := by
  rw [stripNoncanonicalSpellings, HeaderMap.getAll_removeAll]
  cases dropped : isNoncanonicalSpelling name.text with
  | false => simp [dropped]
  | true =>
      by_cases present : name ∈ headers.keys
      · simp [dropped, present]
      · rw [HeaderMap.mem_keys, not_not] at present
        simp [present]

/-! ## Comma-separated lists -/

theorem trim_of_plain {text : Bytes} (plain : ∀ c ∈ text, isWhitespace c = false) :
    trim text = text := by
  have front : text.dropWhile isWhitespace = text := by
    rw [List.dropWhile_eq_self_iff]
    intro nonempty
    simp [plain _ (List.getElem_mem nonempty)]
  rw [trim, front, List.rdropWhile_eq_self_iff]
  intro nonempty
  simp [plain _ (List.getLast_mem nonempty)]

theorem trim_space (text : Bytes) : trim (space :: text) = trim text := by
  have blank : isWhitespace space = true := by decide
  rw [trim, List.dropWhile_cons_of_pos blank, trim]

theorem elements_single {text : Bytes} (noComma : comma ∉ text)
    (plain : ∀ c ∈ text, isWhitespace c = false) : elements text = [text] := by
  rw [elements, List.splitOn_eq_singleton noComma, List.map_singleton, trim_of_plain plain]

theorem elements_append (left right : Bytes) :
    elements (left ++ ascii ", " ++ right) = elements left ++ elements right := by
  have text : left ++ ascii ", " ++ right = left ++ comma :: (space :: right) := by
    rw [List.append_assoc]
    rfl
  have notComma : (space == comma) = false := by decide
  rw [text, elements, List.splitOn_append_cons_self, List.map_append, elements, elements,
    List.splitOn_cons_eq_if_modifyHead, notComma]
  cases pieces : right.splitOn comma with
  | nil => simp
  | cons first rest => simp [trim_space]

theorem elements_intercalate {lines : List Bytes} (nonempty : lines ≠ []) :
    elements (List.intercalate (ascii ", ") lines) = lines.flatMap elements := by
  induction lines with
  | nil => exact absurd rfl nonempty
  | cons line lines ih =>
      cases lines with
      | nil => simp
      | cons next lines =>
          rw [List.intercalate_cons_cons, elements_append, ih (by simp)]
          rfl

theorem elements_joinElements (existing : List Bytes) (element : Bytes) :
    elements (joinElements existing element) = existing.flatMap elements ++ elements element := by
  rw [joinElements]
  split
  · next empty => simp [empty]
  · next nonempty => rw [elements_append, elements_intercalate nonempty]

theorem elements_display (ip : IpAddr) : elements ip.display = [ip.display] := by
  have plain := fun c member => IpAddr.isAddressByte_plain c (IpAddr.display_alphabet ip c member)
  exact elements_single (fun member => (plain comma member).1 rfl) fun c member =>
    (plain c member).2.1

theorem joinElements_visible {existing : List Bytes} {element : Bytes}
    (lines : ∀ line ∈ existing, line.all isVisible = true)
    (visible : element.all isVisible = true) :
    (joinElements existing element).all isVisible = true := by
  rw [joinElements]
  split
  · exact visible
  · refine List.all_eq_true.mpr fun c member => ?_
    have separator : ∀ c ∈ ascii ", ", isVisible c = true :=
      List.all_eq_true.mp (by decide : (ascii ", ").all isVisible = true)
    rw [List.mem_append, List.mem_append] at member
    rcases member with (inLines | inSeparator) | inElement
    · cases IpAddr.mem_intercalate inLines with
      | inl inSeparator => exact separator c inSeparator
      | inr inside =>
          obtain ⟨line, isLine, inLine⟩ := inside
          exact List.all_eq_true.mp (lines line isLine) c inLine
    · exact separator c inSeparator
    · exact List.all_eq_true.mp visible c inElement

theorem toStr_visible {value : HeaderValue} {text : Bytes} (shown : value.toStr = some text) :
    text.all isVisible = true := by
  simp only [HeaderValue.toStr] at shown
  split at shown
  · next visible => exact Option.some.inj shown ▸ visible
  · simp at shown

/-! ## Writing the client address -/

section Announce

variable (headers : HeaderMap) (client peer : IpAddr) (proto : Proto) (clientHost : Option Bytes)
  (cfg : FwdCfg)

/-- The only line of `X-Forwarded-For` after this hop. -/
def forwardedForText : XffMode → Bytes
  | .replace => client.toCanonical.display
  | .append => joinElements ((headers.getAll xForwardedFor).filterMap HeaderValue.toStr) peer.display

theorem forwardedForText_visible (mode : XffMode) :
    (forwardedForText headers client peer mode).all isVisible = true := by
  cases mode with
  | replace => exact display_visible _
  | append =>
      refine joinElements_visible (fun line member => ?_) (display_visible peer)
      obtain ⟨value, -, shown⟩ := List.mem_filterMap.mp member
      exact toStr_visible shown

theorem setForwardedFor_eq (mode : XffMode) :
    setForwardedFor headers client peer mode =
      headers.insertText xForwardedFor (forwardedForText headers client peer mode) := by
  cases mode <;> rfl

theorem announceClient_eq {name : HeaderName} (notForwarded : name ≠ forwarded) :
    (announceClient headers client peer proto clientHost cfg).getAll name =
      ((setRealIp headers client).insertText xForwardedFor
        (forwardedForText headers client peer cfg.xff)).getAll name := by
  have sameText : forwardedForText (setRealIp headers client) client peer cfg.xff =
      forwardedForText headers client peer cfg.xff := by
    have differs : xForwardedFor ≠ xRealIp := by decide
    cases cfg.xff with
    | replace => rfl
    | append =>
        simp only [forwardedForText, setRealIp,
          HeaderMap.getAll_insertText_of_ne headers xRealIp xForwardedFor _ differs]
  simp only [announceClient, setForwardedFor_eq, sameText]
  split
  · exact HeaderMap.getAll_insertText_of_ne _ _ _ _ notForwarded
  · rfl

theorem announceClient_other {name : HeaderName}
    (other : name ∉ [xRealIp, xForwardedFor, forwarded]) :
    (announceClient headers client peer proto clientHost cfg).getAll name =
      headers.getAll name := by
  simp only [List.mem_cons, List.not_mem_nil, or_false, not_or] at other
  obtain ⟨notRealIp, notFor, notForwarded⟩ := other
  rw [announceClient_eq headers client peer proto clientHost cfg notForwarded,
    HeaderMap.getAll_insertText_of_ne _ _ _ _ notFor, setRealIp,
    HeaderMap.getAll_insertText_of_ne _ _ _ _ notRealIp]

theorem announceClient_realIp :
    ((announceClient headers client peer proto clientHost cfg).getAll xRealIp).map
      HeaderValue.bytes = [client.toCanonical.display] := by
  rw [announceClient_eq headers client peer proto clientHost cfg (by decide),
    HeaderMap.getAll_insertText_of_ne _ _ _ _ (by decide), setRealIp,
    HeaderMap.getAll_insertText _ _ _ (display_visible _), if_pos rfl]

theorem announceClient_for :
    ((announceClient headers client peer proto clientHost cfg).getAll xForwardedFor).map
      HeaderValue.bytes = [forwardedForText headers client peer cfg.xff] := by
  rw [announceClient_eq headers client peer proto clientHost cfg (by decide),
    HeaderMap.getAll_insertText _ _ _ (forwardedForText_visible _ _ _ _), if_pos rfl]

end Announce

/-! ## The client address -/

theorem getAll_overridePeer (headers : HeaderMap) (proto : Proto) (name : HeaderName) :
    (overridePeer headers proto).getAll name =
      if name ∈ untrustedStripped then []
      else (headers.insertText xForwardedProto proto.text).getAll name := by
  rw [overridePeer, HeaderMap.getAll_remove, HeaderMap.getAll_removeAll]
  by_cases isPort : name = xForwardedPort
  · rw [if_pos isPort, if_pos (by rw [isPort]; decide)]
  · rw [if_neg isPort]

theorem getAll_setPort_of_ne (headers : HeaderMap) {name other : HeaderName} (port : Option Nat)
    (differs : other ≠ name) : (setPort headers name port).getAll other = headers.getAll other := by
  cases port with
  | none => rw [setPort, HeaderMap.getAll_remove, if_neg differs]
  | some port => exact HeaderMap.getAll_insertText_of_ne _ _ _ _ differs

theorem believePeer_client (headers : HeaderMap) (peer : IpAddr) (proto : Proto)
    (trusted : TrustedProxies) :
    (believePeer headers peer proto trusted).2 =
      deriveClient trusted peer (xffEntries (believePeer headers peer proto trusted).1) := by
  simp only [believePeer]

def clientOf (headers : HeaderMap) (peer : IpAddr) (cfg : FwdCfg) : IpAddr :=
  if cfg.trusted.contains peer then deriveClient cfg.trusted peer (xffEntries headers) else peer

section Client

variable (headers : HeaderMap) (peer : IpAddr) (proto : Proto) (clientHost : Option Bytes)
  (cfg : FwdCfg)

/-- The stages before the client address is written leave `X-Forwarded-For` alone. -/
theorem applyForwardedHeaders_eq :
    ∃ decided, decided.getAll xForwardedFor = headers.getAll xForwardedFor ∧
      applyForwardedHeaders headers peer proto clientHost cfg =
        announceClient decided (clientOf headers peer cfg) peer proto clientHost cfg := by
  have canonical : isNoncanonicalSpelling xForwardedFor.text = false := by decide +kernel
  have spelled : (stripNoncanonicalSpellings headers).getAll xForwardedFor =
      headers.getAll xForwardedFor := by
    rw [getAll_stripNoncanonicalSpellings, canonical]
    rfl
  cases trusted : cfg.trusted.contains peer with
  | false =>
      refine ⟨overridePeer (stripNoncanonicalSpellings headers) proto, ?_, ?_⟩
      · rw [getAll_overridePeer, if_neg (by decide),
          HeaderMap.getAll_insertText_of_ne _ _ _ _ (by decide), spelled]
      · simp [applyForwardedHeaders, clientOf, trusted]
  | true =>
      have believed : (believePeer (stripNoncanonicalSpellings headers) peer proto
          cfg.trusted).1.getAll xForwardedFor = headers.getAll xForwardedFor := by
        simp only [believePeer]
        rw [getAll_setPort_of_ne _ _ (by decide),
          HeaderMap.getAll_insertText_of_ne _ _ _ _ (by decide), spelled]
      have entries : (believePeer (stripNoncanonicalSpellings headers) peer proto
          cfg.trusted).2 = clientOf headers peer cfg := by
        have same : xffEntries (believePeer (stripNoncanonicalSpellings headers) peer proto
            cfg.trusted).1 = xffEntries headers := by
          rw [xffEntries, believed, xffEntries]
        rw [believePeer_client, same, clientOf, if_pos trusted]
      refine ⟨_, believed, ?_⟩
      rw [applyForwardedHeaders, if_pos trusted, ← entries]

theorem applyForwardedHeaders_realIp :
    ((applyForwardedHeaders headers peer proto clientHost cfg).getAll xRealIp).map
      HeaderValue.bytes = [(clientOf headers peer cfg).toCanonical.display] := by
  obtain ⟨decided, -, equation⟩ := applyForwardedHeaders_eq headers peer proto clientHost cfg
  rw [equation, announceClient_realIp]

theorem applyForwardedHeaders_for :
    ((applyForwardedHeaders headers peer proto clientHost cfg).getAll xForwardedFor).map
      HeaderValue.bytes = [forwardedForText headers (clientOf headers peer cfg) peer cfg.xff] := by
  obtain ⟨decided, sameLines, equation⟩ :=
    applyForwardedHeaders_eq headers peer proto clientHost cfg
  rw [equation, announceClient_for, forwardedForText.eq_def, forwardedForText.eq_def, sameLines]

end Client

/-- The walk passes trusted hops and stops at the first other entry. -/
theorem deriveClient_append {trusted : TrustedProxies} {peer : IpAddr} {entry : Option IpAddr}
    {hops : List IpAddr} (left : List (Option IpAddr))
    (areTrusted : ∀ hop ∈ hops, trusted.contains hop = true)
    (stops : ∀ ip ∈ entry, trusted.contains ip = false) :
    deriveClient trusted peer (left ++ entry :: hops.map some) = entry.getD peer := by
  have passes : ∀ hop ∈ (hops.map some).reverse, ¬stopsWalk trusted hop = true := by
    intro hop member
    obtain ⟨ip, isHop, rfl⟩ := List.mem_map.mp (List.mem_reverse.mp member)
    simp [stopsWalk, areTrusted ip isHop]
  simp only [deriveClient, List.reverse_append, List.reverse_cons, List.append_assoc]
  rw [List.find?_append, List.find?_eq_none.mpr passes]
  cases entry with
  | none => simp [stopsWalk, List.find?_cons]
  | some ip => simp [stopsWalk, stops ip rfl]

end Ferryman.Server
