import Ferryman.Lib.Bytes

/-!
# Path normalisation

The matching form of a request path (`route.rs`). The slice `b[i..]` of the
source is the remaining byte list here, so advancing `i` drops bytes.
-/

set_option autoImplicit false

namespace Ferryman.Core

open Byte

def hexVal (c : UInt8) : Option UInt8 :=
  (toDigit 16 c).map UInt8.ofNat

def isUnreserved (c : UInt8) : Bool :=
  isAlphanumeric c || c == dash || c == dot || c == 0x5F || c == 0x7E

/-- What to do at the head of `b`: `some (n, out)` consumes `n` bytes and emits
`out`, `none` leaves the head byte as it is. -/
def rewriteAt : Bytes → Option (Nat × Bytes)
  | [] => none
  | c :: rest =>
      if c == slash && rest.head? == some slash then some (1, [])
      else if c == percent then do
        let high ← rest[0]?
        let low ← rest[1]?
        let h ← hexVal high
        let l ← hexVal low
        let decoded := h <<< 4 ||| l
        if isUnreserved decoded then some (3, [decoded])
        else if isLower high || isLower low then
          some (3, [percent, toUpper high, toUpper low])
        else none
      else none

/-- The rewriting loop: a rewrite emits its bytes and skips what it consumed,
anything else is copied. -/
def normalizeLoop (b : Bytes) : Bytes :=
  match b with
  | [] => []
  | c :: rest =>
      match rewriteAt (c :: rest) with
      | some (n, out) => out ++ normalizeLoop (rest.drop (n - 1))
      | none => c :: normalizeLoop rest
termination_by b.length
decreasing_by all_goals (simp only [List.length_cons, List.length_drop]; omega)

def firstRewrite (b : Bytes) : Option Nat :=
  (List.range b.length).find? fun i => (rewriteAt (b.drop i)).isSome

def normalize (path : Bytes) : Bytes :=
  if !path.contains percent && !Bytes.containsText path "//" then path
  else
    match firstRewrite path with
    | none => path
    | some first => path.take first ++ normalizeLoop (path.drop first)

end Ferryman.Core
