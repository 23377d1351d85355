import Ferryman.Core.Route
import Ferryman.Server.Headers

/-!
# Forwarding headers

What the upstream learns about the client (`proxy.rs`): hop-by-hop stripping, the
`Host` to send, and the `Forwarded` and `X-Forwarded-*` family, which is believed
only when the peer is a trusted proxy.
-/

set_option autoImplicit false

namespace Ferryman.Server

open Ferryman.Core Byte Bytes

/-! ## Hop-by-hop headers and cookies -/

def connectionNames (headers : HeaderMap) : List HeaderName :=
  ((headers.getAll connection).filterMap HeaderValue.toStr).flatMap fun text =>
    (text.splitOn comma).filterMap fun token => HeaderName.fromBytes (trim token)

def stripHopByHop (headers : HeaderMap) : HeaderMap :=
  -- a client must not delete what the proxy relies on
  let named := (connectionNames headers).filter fun name => name ≠ host && name ≠ xRequestId
  hopByHopHeaders.foldl HeaderMap.remove (named.foldl HeaderMap.remove headers)

/-- HTTP/2 clients may split `cookie`; an HTTP/1.1 upstream expects one line. -/
def joinCookies (headers : HeaderMap) : HeaderMap :=
  let lines := headers.getAll cookie
  if lines.length < 2 then headers
  else
    let joined := List.intercalate (ascii "; ") (lines.map HeaderValue.bytes)
    match HeaderValue.fromBytes joined with
    | some value => headers.insert cookie value
    | none => headers

/-! ## Spellings -/

def untrustedStripped : List HeaderName :=
  [forwarded, xForwardedHost, xForwardedSsl, xForwardedScheme, xForwardedPort, xForwardedPrefix]

def trustGoverned : List HeaderName :=
  [forwarded, xForwardedFor, xForwardedHost, xForwardedProto, xForwardedPort, xForwardedSsl,
    xForwardedScheme, xForwardedPrefix, xRealIp]

/-- The folding loop: `folded` is what has been pushed so far. -/
def foldSpelling (folded : Bytes) : Bytes → Bytes
  | [] => folded
  | c :: rest =>
      if isAlphanumeric c then foldSpelling (folded ++ [c]) rest
      else if folded ≠ [] && folded.getLast? ≠ some dash then foldSpelling (folded ++ [dash]) rest
      else foldSpelling folded rest

def isNoncanonicalSpelling (name : Bytes) : Bool :=
  if (name.all fun c => isAlphanumeric c || c == dash) && !startsWith name "-" &&
      name.getLast? ≠ some dash && !containsText name "--" then false
  else
    let folded := (foldSpelling [] name).rdropWhile (· == dash)
    (trustGoverned.map HeaderName.text).contains folded

def stripNoncanonicalSpellings (headers : HeaderMap) : HeaderMap :=
  let bad := headers.keys.filter fun name => isNoncanonicalSpelling name.text
  bad.foldl HeaderMap.remove headers

/-! ## Values -/

inductive Proto where
  | http
  | https
deriving DecidableEq

def Proto.text : Proto → Bytes
  | .http => ascii "http"
  | .https => ascii "https"

def elements (text : Bytes) : List Bytes := (text.splitOn comma).map trim

def rightmost (headers : HeaderMap) (name : HeaderName) : Option Bytes :=
  let all := (headers.getAll name).flatMap fun value => elements (value.toStr.getD (ascii "!"))
  all.reverse.find? (· ≠ [])

def parseXffEntry (entry : Bytes) : Option IpAddr :=
  match IpAddr.parse entry with
  | some ip => some ip
  | none =>
      match IpAddr.parseSocketAddr entry with
      | some ip => some ip
      | none =>
          -- both brackets are stripped, so a single `[` is not enough
          if entry.head? = some openBracket ∧ 2 ≤ entry.length ∧
              entry.getLast? = some closeBracket then
            IpAddr.parse entry.tail.dropLast
          else none

/-- A line that is not visible ASCII counts as one garbage entry. -/
def lineEntries (value : HeaderValue) : List (Option IpAddr) :=
  match value.toStr with
  | some text => (elements text).map parseXffEntry
  | none => [none]

def xffEntries (headers : HeaderMap) : List (Option IpAddr) :=
  (headers.getAll xForwardedFor).flatMap lineEntries

def stopsWalk (trusted : TrustedProxies) : Option IpAddr → Bool
  | some ip => !trusted.contains ip
  | none => true

/-- The rightmost entry that is not a trusted proxy, else the peer. -/
def deriveClient (trusted : TrustedProxies) (peer : IpAddr) (entries : List (Option IpAddr)) :
    IpAddr :=
  ((entries.reverse.find? (stopsWalk trusted)).join).getD peer

def isSchemeToken (text : Bytes) : Bool :=
  text.all fun c => isAlphanumeric c || c == 0x2B || c == dash || c == dot

/-- A port from 1 to 65535 written in digits. -/
def parsePort (text : Bytes) : Option Nat :=
  (parseWith (readNumber 10 65536 none true) text).filter fun port =>
    port ≠ 0 && text.all isDigit

def setPort (headers : HeaderMap) (name : HeaderName) (port : Option Nat) : HeaderMap :=
  match port with
  | some port => headers.insertText name (showNumber 10 port)
  | none => headers.remove name

def forwardedNode (ip : IpAddr) : Bytes :=
  match ip.toCanonical with
  | .v4 bits => IpAddr.display (.v4 bits)
  | .v6 bits => ascii "\"[" ++ IpAddr.display (.v6 bits) ++ ascii "]\""

def escapeQuoted (text : Bytes) : Bytes :=
  (text.flatMap fun c => if c == backslash then [backslash, backslash] else [c]).flatMap
    fun c => if c == quote then [backslash, quote] else [c]

def forwardedElement (peer : IpAddr) (proto : Proto) (clientHost : Option Bytes) : Bytes :=
  let node := ascii "for=" ++ forwardedNode peer ++ ascii ";proto=" ++ proto.text
  match clientHost with
  | none => node
  | some name =>
      if name.all fun c => isAlphanumeric c || c == dash || c == dot || c == 0x5F then
        node ++ ascii ";host=" ++ name
      else node ++ ascii ";host=\"" ++ escapeQuoted name ++ ascii "\""

/-- One more element behind the existing lines. -/
def joinElements (existing : List Bytes) (element : Bytes) : Bytes :=
  if existing = [] then element
  else List.intercalate (ascii ", ") existing ++ ascii ", " ++ element

def appendElement (headers : HeaderMap) (name : HeaderName) (element : Bytes) : HeaderMap :=
  let existing := (headers.getAll name).filterMap HeaderValue.toStr
  headers.insertText name (joinElements existing element)

def appendForwarded (headers : HeaderMap) (peer : IpAddr) (proto : Proto)
    (clientHost : Option Bytes) : HeaderMap :=
  appendElement headers forwarded (forwardedElement peer proto clientHost)

def appendForwardedFor (headers : HeaderMap) (ip : IpAddr) : HeaderMap :=
  appendElement headers xForwardedFor ip.display

def setRealIp (headers : HeaderMap) (ip : IpAddr) : HeaderMap :=
  headers.insertText xRealIp ip.toCanonical.display

/-! ## The whole decision -/

structure FwdCfg where
  trusted : TrustedProxies
  forwardedHeader : Bool
  xff : XffMode

/-- The headers and the client address for a trusted peer. -/
def believePeer (headers : HeaderMap) (peer : IpAddr) (proto : Proto) (trusted : TrustedProxies) :
    HeaderMap × IpAddr :=
  let scheme := (rightmost headers xForwardedProto).filter isSchemeToken
  let headers := headers.insertText xForwardedProto (scheme.getD proto.text)
  let port := (rightmost headers xForwardedPort).bind parsePort
  let headers := setPort headers xForwardedPort port
  (headers, deriveClient trusted peer (xffEntries headers))

/-- The headers for an untrusted peer, who is the client. -/
def overridePeer (headers : HeaderMap) (proto : Proto) : HeaderMap :=
  let headers := headers.insertText xForwardedProto proto.text
  (untrustedStripped.foldl HeaderMap.remove headers).remove xForwardedPort

def setForwardedFor (headers : HeaderMap) (client peer : IpAddr) : XffMode → HeaderMap
  | .replace => headers.insertText xForwardedFor client.toCanonical.display
  | .append => appendForwardedFor headers peer

def announceClient (headers : HeaderMap) (client peer : IpAddr) (proto : Proto)
    (clientHost : Option Bytes) (cfg : FwdCfg) : HeaderMap :=
  let headers := setForwardedFor (setRealIp headers client) client peer cfg.xff
  if cfg.forwardedHeader then appendForwarded headers peer proto clientHost else headers

def applyForwardedHeaders (headers : HeaderMap) (peer : IpAddr) (proto : Proto)
    (clientHost : Option Bytes) (cfg : FwdCfg) : HeaderMap :=
  let headers := stripNoncanonicalSpellings headers
  let (headers, client) :=
    -- an untrusted peer is the client, whatever it says
    if cfg.trusted.contains peer then believePeer headers peer proto cfg.trusted
    else (overridePeer headers proto, peer)
  announceClient headers client peer proto clientHost cfg

def isGraphic (c : UInt8) : Bool := 0x21 ≤ c && c ≤ 0x7E

/-- A trusted hop's single plain path value is kept in front of the prefix. -/
def setForwardedPrefix (headers : HeaderMap) (pathPrefix : Bytes) : HeaderMap :=
  let outer :=
    match headers.getAll xForwardedPrefix with
    | [value] => value.toStr.map fun text => (trim text).rdropWhile (· == slash)
    | _ => none
  let plain := outer.filter fun text =>
    startsWith text "/" &&
      (text.all fun c => isGraphic c && !(c == comma || c == 0x3F || c == 0x23)) &&
      !containsText text "//" && !badPath text
  headers.insertText xForwardedPrefix (plain.getD [] ++ pathPrefix)

/-! ## The request on its way upstream -/

inductive Version where
  | http09
  | http10
  | http11
  | http2
  | http3
deriving DecidableEq

/-- What the header rewriting reads besides the headers. -/
structure Forwarding where
  version : Version
  uri : Uri
  upstreamUri : Uri
  rewriteHost : Bool
  peer : IpAddr
  proto : Proto
  policy : FwdCfg
  strippedPrefix : Option Bytes

def authorityHost (authority : Authority) : Bytes :=
  match authority.port with
  | some port => authority.host ++ colon :: showNumber 10 port.toNat
  | none => authority.host

def clientHost (forwarding : Forwarding) (headers : HeaderMap) : Option Bytes :=
  if !forwarding.policy.forwardedHeader then none
  else
    let name :=
      match forwarding.uri.authority with
      | some authority => (authority.text.reverse.takeWhile (· ≠ 0x40)).reverse
      | none => ((headers.get host).bind HeaderValue.toStr).getD []
    if name = [] then none else some name

def pinHost (forwarding : Forwarding) (headers : HeaderMap) : HeaderMap :=
  let authority :=
    if forwarding.rewriteHost then forwarding.upstreamUri.authority else forwarding.uri.authority
  match authority with
  | some authority => headers.insertText host (authorityHost authority)
  | none => headers

def prepareHeaders (forwarding : Forwarding) (headers : HeaderMap) : HeaderMap :=
  let headers := stripHopByHop headers
  if forwarding.version = .http2 then joinCookies headers else headers

def rewriteHeaders (forwarding : Forwarding) (headers : HeaderMap) : HeaderMap :=
  let headers := prepareHeaders forwarding headers
  let clientHost := clientHost forwarding headers
  let headers := pinHost forwarding headers
  let headers :=
    applyForwardedHeaders headers forwarding.peer forwarding.proto clientHost forwarding.policy
  -- last, since untrusted values are gone only now
  match forwarding.strippedPrefix with
  | some pathPrefix => if pathPrefix = [] then headers else setForwardedPrefix headers pathPrefix
  | none => headers

end Ferryman.Server
