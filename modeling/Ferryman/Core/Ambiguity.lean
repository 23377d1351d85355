import Ferryman.Core.Route

/-!
# Ambiguous routes

Would an upstream that reads encoded separators as `/` and drops `;params`
choose another route (`path.rs`)?
-/

set_option autoImplicit false

namespace Ferryman.Core

open Byte Bytes

def separatorDigits : Bytes → Bool
  | high :: low :: _ =>
      (high == 0x32 && (low == 0x66 || low == 0x46)) ||
        (high == 0x35 && (low == 0x63 || low == 0x43))
  | _ => false

def doubleSeparatorDigits : Bytes → Bool
  | two :: five :: rest => two == 0x32 && five == 0x35 && separatorDigits rest
  | _ => false

def suspiciousAt : Bytes → Bool
  | [] => false
  | c :: rest =>
      c == backslash || c == semicolon ||
        (c == percent && (separatorDigits rest || doubleSeparatorDigits rest))

def suspicious (s : Bytes) : Bool := s.tails.any suspiciousAt

def flattenWidth : Bytes → Nat
  | [] => 0
  | c :: rest =>
      if c == percent && doubleSeparatorDigits rest then 5
      else if c == percent && separatorDigits rest then 3
      else if c == backslash then 1
      else 0

/-- Encoded separators become `/`. A character outside of ASCII is copied byte by
byte, since none of its bytes starts a separator. -/
def flatten (s : Bytes) : Bytes :=
  match s with
  | [] => []
  | c :: rest =>
      match flattenWidth (c :: rest) with
      | skipped + 1 => slash :: flatten (rest.drop skipped)
      | 0 => c :: flatten rest
termination_by s.length
decreasing_by all_goals (simp only [List.length_cons, List.length_drop]; omega)

def stripParams (s : Bytes) : Bytes :=
  List.intercalate [slash] ((s.splitOn slash).map (before semicolon))

def readings (s : Bytes) : List Bytes :=
  let stripped := stripParams s
  [flatten s, stripParams (flatten s), stripped, flatten stripped]

def pick (table : RouteTable) (path : Bytes) : Option Bytes :=
  (table.lookup path).map Route.pathPrefix

def ambiguousRoute (table : RouteTable) (rawPath : Bytes) : Bool :=
  let norm := normalize rawPath
  if !(suspicious rawPath || suspicious norm) then false
  else
    let canon := pick table rawPath
    [rawPath, norm].any fun s => (readings s).any fun reading => pick table reading != canon

end Ferryman.Core
