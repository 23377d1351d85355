import Ferryman.Lib.Numeral

/-!
# URIs

The parts of a parsed URI that the program reads. Parsing and assembling URIs
is the HTTP library's work, which the model takes as a parameter.
-/

set_option autoImplicit false

namespace Ferryman.Core

structure Authority where
  text : Bytes
  host : Bytes
  port : Option UInt16
deriving DecidableEq

structure PathAndQuery where
  path : Bytes
  query : Option Bytes
deriving DecidableEq

structure Uri where
  scheme : Option Bytes
  authority : Option Authority
  pathAndQuery : Option PathAndQuery
deriving DecidableEq

namespace Uri

def path (uri : Uri) : Bytes := (uri.pathAndQuery.map PathAndQuery.path).getD []
def query (uri : Uri) : Option Bytes := uri.pathAndQuery.bind PathAndQuery.query
def host (uri : Uri) : Option Bytes := uri.authority.map Authority.host
def port (uri : Uri) : Option UInt16 := uri.authority.bind Authority.port

end Uri

/-- The functions of the HTTP library that decide about texts. Errors are kept
as their messages. -/
structure Http where
  parseUri : Bytes → Except Bytes Uri
  parsePathAndQuery : Bytes → Option PathAndQuery
  isAuthority : Bytes → Bool
  fromParts : Option Bytes → Option Authority → Option PathAndQuery → Except Bytes Uri

/-! ## Plain origins -/

def isPlainHost (text : Bytes) : Bool :=
  text ≠ [] && text.all fun c => Byte.isAlphanumeric c || c == Byte.dot || c == Byte.dash

def parseOrigin (text : Bytes) : Option Authority :=
  let host := text.takeWhile (· ≠ Byte.colon)
  if !isPlainHost host then none
  else
    match text.dropWhile (· ≠ Byte.colon) with
    | [] => some ⟨text, host, none⟩
    | _ :: port =>
        (parseWith (readNumber 10 65536 none true) port).map fun number =>
          ⟨text, host, some (UInt16.ofNat number)⟩

def parsePath (text : Bytes) : Option PathAndQuery :=
  if !Bytes.startsWith text "/" then none
  else
    match text.dropWhile (· ≠ 0x3F) with
    | [] => some ⟨text, none⟩
    | _ :: query => some ⟨text.takeWhile (· ≠ 0x3F), some query⟩

/-- The HTTP library on plain origins and paths, for concrete examples. -/
def plainHttp : Http where
  parseUri text :=
    let scheme := ascii "http://"
    if !scheme.isPrefixOf text then .error (ascii "invalid uri character")
    else
      match parseOrigin (text.drop scheme.length) with
      | none => .error (ascii "invalid authority")
      | some authority => .ok ⟨some (ascii "http"), some authority, some ⟨ascii "/", none⟩⟩
  parsePathAndQuery := parsePath
  isAuthority text := (parseOrigin text).isSome
  fromParts scheme authority pathAndQuery := .ok ⟨scheme, authority, pathAndQuery⟩

end Ferryman.Core
