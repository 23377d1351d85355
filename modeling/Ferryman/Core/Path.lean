import Ferryman.Core.Normalize
import Ferryman.Lib.Delimiters

/-!
# Request-path checks

Detection of dot segments (`path.rs`). The route-dependent ambiguity check is
in `Ferryman.Core.Ambiguity`.
-/

set_option autoImplicit false

namespace Ferryman.Core

open Byte Bytes

def separatorWidth (b : Bytes) : Nat :=
  if startsWith b "/" || startsWith b "\\" then 1
  else if startsWith b "%2f" || startsWith b "%2F" ||
      startsWith b "%5c" || startsWith b "%5C" then 3
  else 0

/-- Escapes refused wherever they occur: `%00`, `%u`, `%U`, `%252e`, `%252f`
and `%255c`. -/
def refusedEscape (b : Bytes) : Bool :=
  startsWith b "%00" || startsWith b "%u" || startsWith b "%U" ||
    startsWith b "%252e" || startsWith b "%252E" ||
    startsWith b "%252f" || startsWith b "%252F" ||
    startsWith b "%255c" || startsWith b "%255C"

def countDots (b : Bytes) : Option Nat :=
  match b with
  | [] => some 0
  | c :: rest =>
      if c == dot then (countDots rest).map (· + 1)
      else if startsWith (c :: rest) "%2e" || startsWith (c :: rest) "%2E" then
        (countDots (rest.drop 2)).map (· + 1)
      else none
termination_by b.length
decreasing_by all_goals (simp only [List.length_cons, List.length_drop]; omega)

def dotPiece (piece : Bytes) : Bool :=
  match countDots (before semicolon piece) with
  | some 1 | some 2 => true
  | _ => false

/-- The scan of `bad_path`: `piece` is `b[start..i]`, the second argument
`b[i..]`. The end of input closes the last piece. -/
def badPathLoop (piece b : Bytes) : Bool :=
  match b with
  | [] => dotPiece piece
  | c :: rest =>
      match separatorWidth (c :: rest) with
      | n + 1 => dotPiece piece || badPathLoop [] (rest.drop n)
      | 0 => refusedEscape (c :: rest) || badPathLoop (piece ++ [c]) rest
termination_by b.length
decreasing_by all_goals (simp only [List.length_cons, List.length_drop]; omega)

def badPath (path : Bytes) : Bool :=
  badPathLoop [] path

def badPathNormalized (raw : Bytes) : Bool :=
  badPath raw || (raw.contains percent && badPath (normalize raw))

end Ferryman.Core
