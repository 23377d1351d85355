import Ferryman.Lib.Bytes
import Mathlib.Data.List.Dedup

/-!
# Header maps

Names are lower-case tokens, values are free of control bytes. A map keeps its
lines in order and may hold several lines of one name.
-/

set_option autoImplicit false

namespace Ferryman.Server

open Byte

def isNameByte (c : UInt8) : Bool :=
  isDigit c || isLower c || (ascii "!#$%&'*+-.^_|~").contains c || c == 0x60

def isValueByte (c : UInt8) : Bool := (0x20 ≤ c && c != 0x7F) || c == tab

def isVisible (c : UInt8) : Bool := (0x20 ≤ c && c < 0x7F) || c == tab

structure HeaderName where
  text : Bytes
  valid : text ≠ [] ∧ text.length < 65536 ∧ text.all isNameByte = true
deriving DecidableEq

structure HeaderValue where
  bytes : Bytes
  legal : bytes.all isValueByte = true
deriving DecidableEq

namespace HeaderName

theorem ext {name other : HeaderName} (same : name.text = other.text) : name = other := by
  cases name
  cases other
  cases same
  rfl

def fromBytes (bytes : Bytes) : Option HeaderName :=
  let text := bytes.map toLower
  if valid : text ≠ [] ∧ text.length < 65536 ∧ text.all isNameByte = true then
    some ⟨text, valid⟩
  else none

end HeaderName

namespace HeaderValue

def fromBytes (bytes : Bytes) : Option HeaderValue :=
  if legal : bytes.all isValueByte = true then some ⟨bytes, legal⟩ else none

theorem isValueByte_of_isVisible {c : UInt8} (visible : isVisible c = true) :
    isValueByte c = true := by
  simp only [isVisible, isValueByte, Bool.or_eq_true, Bool.and_eq_true, decide_eq_true_eq,
    beq_iff_eq, bne_iff_ne] at visible ⊢
  cases visible with
  | inl printable =>
      obtain ⟨low, high⟩ := printable
      exact .inl ⟨low, fun isDelete => absurd high (by rw [isDelete]; decide)⟩
  | inr isTab => exact .inr isTab

theorem legal_of_visible {text : Bytes} (visible : text.all isVisible = true) :
    text.all isValueByte = true :=
  List.all_eq_true.mpr fun c member =>
    isValueByte_of_isVisible (List.all_eq_true.mp visible c member)

/-- It checks the bytes of the text as `fromBytes` does. -/
def fromStr (text : Bytes) : Option HeaderValue := fromBytes text

def toStr (value : HeaderValue) : Option Bytes :=
  if value.bytes.all isVisible then some value.bytes else none

end HeaderValue

structure HeaderMap where
  lines : List (HeaderName × HeaderValue) := []
deriving DecidableEq

namespace HeaderMap

def getAll (headers : HeaderMap) (name : HeaderName) : List HeaderValue :=
  (headers.lines.filter (·.1 = name)).map Prod.snd

def get (headers : HeaderMap) (name : HeaderName) : Option HeaderValue :=
  (headers.getAll name).head?

def keys (headers : HeaderMap) : List HeaderName := (headers.lines.map Prod.fst).dedup

def remove (headers : HeaderMap) (name : HeaderName) : HeaderMap :=
  ⟨headers.lines.filter (·.1 ≠ name)⟩

def insert (headers : HeaderMap) (name : HeaderName) (value : HeaderValue) : HeaderMap :=
  ⟨(headers.remove name).lines ++ [(name, value)]⟩

def insertText (headers : HeaderMap) (name : HeaderName) (text : Bytes) : HeaderMap :=
  match HeaderValue.fromStr text with
  | some value => headers.insert name value
  | none => headers

section Lemmas

variable (headers : HeaderMap) (name other : HeaderName) (value : HeaderValue)

@[simp] theorem getAll_remove :
    (headers.remove name).getAll other = if other = name then [] else headers.getAll other := by
  simp only [getAll, remove, List.filter_filter]
  split
  · next same =>
    subst same
    simp
  · next differs =>
    congr 1
    refine List.filter_congr fun line _ => ?_
    by_cases isOther : line.1 = other
    · simp [isOther, differs]
    · simp [isOther]

@[simp] theorem getAll_insert :
    (headers.insert name value).getAll other =
      if other = name then [value] else headers.getAll other := by
  have removed := getAll_remove headers name other
  simp only [getAll, insert, List.filter_append, List.map_append] at removed ⊢
  rw [removed]
  by_cases same : other = name
  · simp [same]
  · have differs : ¬name = other := fun equal => same equal.symm
    simp [same, differs]

theorem getAll_removeAll (names : List HeaderName) :
    (names.foldl remove headers).getAll other =
      if other ∈ names then [] else headers.getAll other := by
  induction names generalizing headers with
  | nil => simp
  | cons first names ih =>
      rw [List.foldl_cons, ih, getAll_remove]
      by_cases isFirst : other = first <;> simp [isFirst]

theorem getAll_insertText_legal {text : Bytes} (legal : text.all isValueByte = true) :
    ((headers.insertText name text).getAll other).map HeaderValue.bytes =
      if other = name then [text] else (headers.getAll other).map HeaderValue.bytes := by
  simp only [insertText, HeaderValue.fromStr, HeaderValue.fromBytes, dif_pos legal, getAll_insert]
  split <;> rfl

theorem getAll_insertText {text : Bytes} (visible : text.all isVisible = true) :
    ((headers.insertText name text).getAll other).map HeaderValue.bytes =
      if other = name then [text] else (headers.getAll other).map HeaderValue.bytes :=
  getAll_insertText_legal headers name other (HeaderValue.legal_of_visible visible)

theorem getAll_insertText_of_ne (text : Bytes) (differs : other ≠ name) :
    (headers.insertText name text).getAll other = headers.getAll other := by
  simp only [insertText]
  split <;> simp [differs]

theorem mem_keys : name ∈ headers.keys ↔ headers.getAll name ≠ [] := by
  simp only [keys, List.mem_dedup, List.mem_map, getAll, ne_eq, List.map_eq_nil_iff,
    List.filter_eq_nil_iff, decide_eq_true_eq, not_forall, not_not, exists_prop]

end Lemmas

end HeaderMap

/-! ## Names -/

def host : HeaderName := ⟨ascii "host", by decide⟩
def cookie : HeaderName := ⟨ascii "cookie", by decide⟩
def connection : HeaderName := ⟨ascii "connection", by decide⟩
def upgrade : HeaderName := ⟨ascii "upgrade", by decide⟩
def xRequestId : HeaderName := ⟨ascii "x-request-id", by decide⟩
def forwarded : HeaderName := ⟨ascii "forwarded", by decide⟩
def xForwardedFor : HeaderName := ⟨ascii "x-forwarded-for", by decide⟩
def xForwardedHost : HeaderName := ⟨ascii "x-forwarded-host", by decide⟩
def xForwardedProto : HeaderName := ⟨ascii "x-forwarded-proto", by decide⟩
def xForwardedPort : HeaderName := ⟨ascii "x-forwarded-port", by decide⟩
def xForwardedSsl : HeaderName := ⟨ascii "x-forwarded-ssl", by decide⟩
def xForwardedScheme : HeaderName := ⟨ascii "x-forwarded-scheme", by decide⟩
def xForwardedPrefix : HeaderName := ⟨ascii "x-forwarded-prefix", by decide⟩
def xRealIp : HeaderName := ⟨ascii "x-real-ip", by decide⟩

def hopByHopHeaders : List HeaderName :=
  [connection, ⟨ascii "keep-alive", by decide⟩, ⟨ascii "proxy-authenticate", by decide⟩,
    ⟨ascii "proxy-authorization", by decide⟩, ⟨ascii "te", by decide⟩,
    ⟨ascii "trailer", by decide⟩, ⟨ascii "transfer-encoding", by decide⟩, upgrade]

end Ferryman.Server
