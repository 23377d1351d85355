import Ferryman.Server.ForwardedProperties
import Ferryman.Server.Spellings

/-!
# Two requests seen by the rewriting

Which names two header maps may still differ on after each stage of the header
rewriting, when they differed on some hidden names before it.
-/

set_option autoImplicit false

namespace Ferryman.Server

open Ferryman.Core Byte Bytes

/-- The maps agree on every name that is not hidden. -/
def AgreeOutside (hidden : HeaderName → Prop) (first second : HeaderMap) : Prop :=
  ∀ name, ¬hidden name → first.getAll name = second.getAll name

namespace AgreeOutside

variable {hidden : HeaderName → Prop} {first second : HeaderMap}

theorem mono {wider : HeaderName → Prop} (agree : AgreeOutside hidden first second)
    (included : ∀ name, hidden name → wider name) : AgreeOutside wider first second :=
  fun name shown => agree name fun isHidden => shown (included name isHidden)

theorem removeAll (agree : AgreeOutside hidden first second) (names : List HeaderName) :
    AgreeOutside (fun name => hidden name ∧ name ∉ names) (names.foldl HeaderMap.remove first)
      (names.foldl HeaderMap.remove second) := by
  intro name shown
  rw [HeaderMap.getAll_removeAll, HeaderMap.getAll_removeAll]
  split
  · rfl
  · next notRemoved => exact agree name fun isHidden => shown ⟨isHidden, notRemoved⟩

theorem insert (agree : AgreeOutside hidden first second) (name : HeaderName)
    (value : HeaderValue) :
    AgreeOutside (fun other => hidden other ∧ other ≠ name) (first.insert name value)
      (second.insert name value) := by
  intro other shown
  rw [HeaderMap.getAll_insert, HeaderMap.getAll_insert]
  split
  · rfl
  · next differs => exact agree other fun isHidden => shown ⟨isHidden, differs⟩

theorem insertText (agree : AgreeOutside hidden first second) (name : HeaderName) (text : Bytes) :
    AgreeOutside hidden (first.insertText name text) (second.insertText name text) := by
  simp only [HeaderMap.insertText]
  split
  · exact (agree.insert name _).mono fun _ isHidden => isHidden.1
  · exact agree

theorem insertText_visible (agree : AgreeOutside hidden first second) (name : HeaderName)
    {text : Bytes} (visible : text.all isVisible = true) :
    AgreeOutside (fun other => hidden other ∧ other ≠ name) (first.insertText name text)
      (second.insertText name text) := by
  simp only [HeaderMap.insertText, HeaderValue.fromStr, HeaderValue.fromBytes,
    dif_pos (HeaderValue.legal_of_visible visible)]
  exact agree.insert name _

theorem insertText_hidden (agree : AgreeOutside hidden first second) {name : HeaderName}
    (isHidden : hidden name) (firstText secondText : Bytes) :
    AgreeOutside hidden (first.insertText name firstText)
      (second.insertText name secondText) := by
  intro other shown
  have differs : other ≠ name := fun same => shown (same ▸ isHidden)
  rw [HeaderMap.getAll_insertText_of_ne _ _ _ _ differs,
    HeaderMap.getAll_insertText_of_ne _ _ _ _ differs]
  exact agree other shown

theorem stripHopByHop (agree : AgreeOutside hidden first second) (shown : ¬hidden connection) :
    AgreeOutside hidden (stripHopByHop first) (stripHopByHop second) := by
  have named : connectionNames first = connectionNames second := by
    rw [connectionNames, connectionNames, agree connection shown]
  simp only [Server.stripHopByHop, named]
  exact ((agree.removeAll _).removeAll _).mono fun _ isHidden => isHidden.1.1

theorem joinCookies (agree : AgreeOutside hidden first second) (shown : ¬hidden cookie) :
    AgreeOutside hidden (joinCookies first) (joinCookies second) := by
  simp only [Server.joinCookies, agree cookie shown]
  split
  · exact agree
  · split
    · exact (agree.insert cookie _).mono fun _ isHidden => isHidden.1
    · exact agree

theorem prepareHeaders (agree : AgreeOutside hidden first second) (forwarding : Forwarding)
    (shownConnection : ¬hidden connection) (shownCookie : ¬hidden cookie) :
    AgreeOutside hidden (prepareHeaders forwarding first) (prepareHeaders forwarding second) := by
  simp only [Server.prepareHeaders]
  split
  · exact (agree.stripHopByHop shownConnection).joinCookies shownCookie
  · exact agree.stripHopByHop shownConnection

theorem clientHost (agree : AgreeOutside hidden first second) (forwarding : Forwarding)
    (shown : ¬hidden host) : clientHost forwarding first = clientHost forwarding second := by
  have same : first.get host = second.get host := by
    rw [HeaderMap.get, HeaderMap.get, agree host shown]
  unfold Server.clientHost
  rw [same]

theorem pinHost (agree : AgreeOutside hidden first second) (forwarding : Forwarding) :
    AgreeOutside hidden (pinHost forwarding first) (pinHost forwarding second) := by
  simp only [Server.pinHost]
  generalize (if forwarding.rewriteHost = true then forwarding.upstreamUri.authority
    else forwarding.uri.authority) = authority
  cases authority with
  | none => exact agree
  | some authority => exact agree.insertText host _

theorem stripNoncanonicalSpellings (agree : AgreeOutside hidden first second) :
    AgreeOutside (fun name => hidden name ∧ isNoncanonicalSpelling name.text = false)
      (stripNoncanonicalSpellings first) (stripNoncanonicalSpellings second) := by
  intro name shown
  rw [getAll_stripNoncanonicalSpellings, getAll_stripNoncanonicalSpellings]
  split
  · rfl
  · next kept => exact agree name fun isHidden => shown ⟨isHidden, by simpa using kept⟩

theorem overridePeer (agree : AgreeOutside hidden first second) (proto : Proto) :
    AgreeOutside
      (fun name => hidden name ∧ name ≠ xForwardedProto ∧ name ∉ untrustedStripped)
      (overridePeer first proto) (overridePeer second proto) := by
  have inserted := agree.insertText_visible xForwardedProto (protoText_visible proto)
  have removed := (inserted.removeAll untrustedStripped).removeAll [xForwardedPort]
  exact removed.mono fun name isHidden => ⟨isHidden.1.1.1, isHidden.1.1.2, isHidden.1.2⟩

theorem appendElement (agree : AgreeOutside hidden first second) {name : HeaderName}
    (shown : ¬hidden name) (element : Bytes) :
    AgreeOutside hidden (appendElement first name element) (appendElement second name element) := by
  simp only [Server.appendElement, agree name shown]
  exact agree.insertText name _

theorem setForwardedPrefix (agree : AgreeOutside hidden first second)
    (shown : ¬hidden xForwardedPrefix) (pathPrefix : Bytes) :
    AgreeOutside hidden (setForwardedPrefix first pathPrefix)
      (setForwardedPrefix second pathPrefix) := by
  simp only [Server.setForwardedPrefix, agree xForwardedPrefix shown]
  exact agree.insertText xForwardedPrefix _

end AgreeOutside

end Ferryman.Server
