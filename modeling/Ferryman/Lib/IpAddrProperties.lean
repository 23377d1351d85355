import Ferryman.Lib.IpAddr
import Ferryman.Lib.NumeralProperties

/-! Printing an address and parsing the text gives the address back, and neither
touches a byte outside of the alphabet of addresses. -/

set_option autoImplicit false

namespace Ferryman.IpAddr

open Byte Bytes

/-! ## The alphabet -/

def isAddressByte (byte : UInt8) : Bool :=
  (toDigit 16 byte).isSome || (ascii ".:[]%").contains byte

theorem isAddressByte_plain : ∀ byte : UInt8, isAddressByte byte = true →
    byte ≠ comma ∧ isWhitespace byte = false ∧ 0x20 ≤ byte ∧ byte < 0x7F :=
  forall_of_fin (by decide +kernel)

theorem isAddressByte_digitByte : ∀ digit < 16, isAddressByte (digitByte digit) = true := by
  decide

theorem showNumber_alphabet {radix : Nat} (positive : 1 < radix) (supported : radix ≤ 16)
    (value : Nat) : ∀ byte ∈ showNumber radix value, isAddressByte byte = true := by
  obtain ⟨digits, shown, -, below, -⟩ := showNumber_digits positive value
  rw [shown]
  intro byte member
  obtain ⟨digit, isDigit, rfl⟩ := List.mem_map.mp member
  exact isAddressByte_digitByte digit (Nat.lt_of_lt_of_le (below digit isDigit) supported)

theorem mem_intercalate {separator : Bytes} {pieces : List Bytes} {byte : UInt8}
    (member : byte ∈ List.intercalate separator pieces) :
    byte ∈ separator ∨ ∃ piece ∈ pieces, byte ∈ piece := by
  induction pieces with
  | nil => simp at member
  | cons piece pieces ih =>
      cases pieces with
      | nil => exact .inr ⟨piece, by simp, by simpa using member⟩
      | cons next pieces =>
          rw [List.intercalate_cons_cons, List.mem_append, List.mem_append] at member
          rcases member with (inPiece | inSeparator) | later
          · exact .inr ⟨piece, List.mem_cons_self, inPiece⟩
          · exact .inl inSeparator
          · cases ih later with
            | inl inSeparator => exact .inl inSeparator
            | inr inside =>
                obtain ⟨other, isOther, inOther⟩ := inside
                exact .inr ⟨other, List.mem_cons_of_mem _ isOther, inOther⟩

theorem numbers_alphabet {separator : UInt8} (inAddress : isAddressByte separator = true)
    {radix : Nat} (positive : 1 < radix) (supported : radix ≤ 16) (values : List Nat) :
    ∀ byte ∈ List.intercalate [separator] (values.map (showNumber radix)),
      isAddressByte byte = true := by
  intro byte member
  cases mem_intercalate member with
  | inl inSeparator => rw [List.mem_singleton.mp inSeparator, inAddress]
  | inr inside =>
      obtain ⟨piece, isPiece, inPiece⟩ := inside
      obtain ⟨value, -, rfl⟩ := List.mem_map.mp isPiece
      exact showNumber_alphabet positive supported value byte inPiece

theorem displayV4_alphabet (bits : BitVec 32) :
    ∀ byte ∈ displayV4 bits, isAddressByte byte = true :=
  numbers_alphabet (by decide) (by decide) (by decide) (octets bits)

theorem displaySegments_alphabet (chunk : List Nat) :
    ∀ byte ∈ displaySegments chunk, isAddressByte byte = true :=
  numbers_alphabet (by decide) (by decide) (by decide) chunk

theorem display_alphabet (ip : IpAddr) : ∀ byte ∈ display ip, isAddressByte byte = true := by
  intro byte member
  cases ip with
  | v4 bits => exact displayV4_alphabet bits byte member
  | v6 bits =>
      simp only [display, displayV6] at member
      split at member
      · cases List.mem_append.mp member with
        | inl inFront =>
            have front : (ascii "::ffff:").all isAddressByte = true := by decide
            exact List.all_eq_true.mp front byte inFront
        | inr inBack => exact displayV4_alphabet _ byte inBack
      · split at member
        · rw [List.mem_append, List.mem_append] at member
          rcases member with (inFront | inMiddle) | inBack
          · exact displaySegments_alphabet _ byte inFront
          · have middle : (ascii "::").all isAddressByte = true := by decide
            exact List.all_eq_true.mp middle byte inMiddle
          · exact displaySegments_alphabet _ byte inBack
        · exact displaySegments_alphabet _ byte member

/-! ## IPv4 round trip -/

theorem octets_eq (bits : BitVec 32) :
    ∃ one two three four, octets bits = [one, two, three, four] ∧
      ofBigEndian 256 [one, two, three, four] = bits.toNat ∧
      ∀ octet ∈ [one, two, three, four], octet < 256 := by
  have value := @ofBigEndian_bigEndian 256 4 bits.toNat (by simpa using bits.isLt)
  have below : ∀ octet ∈ octets bits, octet < 256 := fun octet member =>
    bigEndian_lt (by decide) member
  have length := length_bigEndian 256 4 bits.toNat
  match shape : octets bits with
  | [one, two, three, four] => exact ⟨one, two, three, four, rfl, shape ▸ value, shape ▸ below⟩
  | [] | [_] | [_, _] | [_, _, _] | _ :: _ :: _ :: _ :: _ :: _ =>
      simp [octets] at shape
      simp [shape] at length

theorem readOctet_showNumber {octet : Nat} {rest : Bytes} (small : octet < 256)
    (stops : ∀ byte ∈ rest.head?, toDigit 10 byte = none) :
    readOctet true (showNumber 10 octet ++ rest) = some (octet, rest) ∧
      readOctet false (dot :: (showNumber 10 octet ++ rest)) = some (octet, rest) := by
  have read : readNumber 10 256 (some 3) false (showNumber 10 octet ++ rest) = some (octet, rest) :=
    readNumber_showNumber (by decide) (by decide) (by decide) (by omega) small stops
  exact ⟨by simpa [readOctet, readSeparator] using read,
    by simpa [readOctet, readSeparator, readChar] using read⟩

theorem forall_head {holds : UInt8 → Prop} {first : UInt8} {tail : Bytes} (atFirst : holds first) :
    ∀ byte ∈ (first :: tail).head?, holds byte := by
  intro byte isHead
  cases isHead
  exact atFirst

theorem readIpv4_displayV4 (bits : BitVec 32) {rest : Bytes}
    (stops : ∀ byte ∈ rest.head?, toDigit 10 byte = none) :
    readIpv4 (displayV4 bits ++ rest) = some (bits, rest) := by
  obtain ⟨one, two, three, four, shape, value, below⟩ := octets_eq bits
  have atDot : ∀ tail : Bytes, ∀ byte ∈ (dot :: tail).head?, toDigit 10 byte = none :=
    fun _ => forall_head (by decide)
  have text : displayV4 bits ++ rest =
      showNumber 10 one ++ (dot :: (showNumber 10 two ++ (dot :: (showNumber 10 three ++
        (dot :: (showNumber 10 four ++ rest)))))) := by
    simp [displayV4, shape, List.intercalate, List.intersperse]
  have first := (readOctet_showNumber (below one (by simp)) (atDot (showNumber 10 two ++
    (dot :: (showNumber 10 three ++ (dot :: (showNumber 10 four ++ rest))))))).1
  have second := (readOctet_showNumber (below two (by simp)) (atDot (showNumber 10 three ++
    (dot :: (showNumber 10 four ++ rest))))).2
  have third := (readOctet_showNumber (below three (by simp)) (atDot (showNumber 10 four ++ rest))).2
  have fourth := (readOctet_showNumber (below four (by simp)) stops).2
  rw [text]
  simp only [readIpv4, first, second, third, fourth, Option.bind_eq_bind, Option.bind_some, value,
    BitVec.ofNat_toNat, BitVec.setWidth_eq, Option.pure_def]

theorem parse_displayV4 (bits : BitVec 32) : parse (display (v4 bits)) = some (v4 bits) := by
  have read := @readIpv4_displayV4 bits [] (by simp)
  rw [List.append_nil] at read
  simp [parse, parseWith, readIpAddr, display, read]

/-! ## IPv6 round trip -/

theorem readNumber_rest {radix limit value : Nat} {maxDigits : Option Nat} {allowZeroPrefix : Bool}
    {text rest : Bytes} (read : readNumber radix limit maxDigits allowZeroPrefix text =
      some (value, rest)) :
    rest = text.dropWhile fun byte => (toDigit radix byte).isSome := by
  simp only [readNumber] at read
  split at read
  · simp at read
  · split at read
    · simp at read
    · split at read
      · simp at read
      · split at read
        · exact (Prod.mk.inj (Option.some.inj read)).2.symm
        · simp at read

theorem readNumber_stuck {radix limit : Nat} {maxDigits : Option Nat} {allowZeroPrefix : Bool}
    {text : Bytes} (stuck : ∀ byte ∈ text.head?, toDigit radix byte = none) :
    readNumber radix limit maxDigits allowZeroPrefix text = none := by
  cases text with
  | nil => simp [readNumber]
  | cons first rest => simp [readNumber, stuck first rfl]

theorem readIpv4_of_noDot {text : Bytes} (noDot : dot ∉ text) : readIpv4 text = none := by
  cases first : readOctet true text with
  | none => simp [readIpv4, first]
  | some result =>
      obtain ⟨value, rest⟩ := result
      have isRest : rest = text.dropWhile fun byte => (toDigit 10 byte).isSome :=
        readNumber_rest (by simpa [readOctet, readSeparator] using first)
      have stuck : readOctet false rest = none := by
        cases rest with
        | nil => rfl
        | cons next rest =>
            have notDot : next ≠ dot := by
              intro same
              subst same
              have inside : dot ∈ text.dropWhile fun byte => (toDigit 10 byte).isSome :=
                isRest ▸ List.mem_cons_self
              exact noDot ((List.dropWhile_suffix _).subset inside)
            simp [readOctet, readSeparator, readChar, notDot]
      simp [readIpv4, first, stuck]

def colonGroups (groups : List Nat) : Bytes :=
  groups.flatMap fun group => colon :: showNumber 16 group

theorem displaySegments_cons (group : Nat) (groups : List Nat) :
    displaySegments (group :: groups) = showNumber 16 group ++ colonGroups groups := by
  induction groups generalizing group with
  | nil => simp [displaySegments, colonGroups]
  | cons next groups ih =>
      have later := ih next
      simp only [displaySegments, List.map_cons] at later ⊢
      rw [List.intercalate_cons_cons, later]
      simp [colonGroups]

theorem showNumber_noDot (value : Nat) : dot ∉ showNumber 16 value := by
  obtain ⟨digits, shown, -, below, -⟩ := @showNumber_digits 16 (by decide) value
  rw [shown]
  intro member
  obtain ⟨digit, isDigit, same⟩ := List.mem_map.mp member
  have notDot : ∀ digit < 16, digitByte digit ≠ dot := by decide
  exact notDot digit (below digit isDigit) same

theorem colonGroups_noDot (groups : List Nat) : dot ∉ colonGroups groups := by
  intro member
  obtain ⟨group, -, inGroup⟩ := List.mem_flatMap.mp member
  cases List.mem_cons.mp inGroup with
  | inl isColon => exact absurd isColon (by decide)
  | inr inNumber => exact showNumber_noDot group inNumber

/-- Text at which no further group can be read. -/
structure Stops (rest : Bytes) : Prop where
  noDot : dot ∉ rest
  noGroup : readGroup true rest = none
  noLater : readGroup false rest = none
  noDigit : ∀ byte ∈ rest.head?, toDigit 16 byte = none

theorem stops_nil : Stops [] where
  noDot := by simp
  noGroup := rfl
  noLater := rfl
  noDigit := by simp

theorem stops_colons {rest : Bytes} (noDot : dot ∉ rest) : Stops (colon :: colon :: rest) where
  noDot := by
    simp only [List.mem_cons, not_or]
    exact ⟨by decide, by decide, noDot⟩
  noGroup := by
    simp only [readGroup, readSeparator, if_true]
    exact readNumber_stuck (forall_head (by decide))
  noLater := by
    have stuck : readNumber 16 65536 (some 4) true (colon :: rest) = none :=
      readNumber_stuck (forall_head (by decide))
    simpa [readGroup, readSeparator, readChar] using stuck
  noDigit := forall_head (by decide)

theorem noEmbedded {first : Bool} {text : Bytes} (noDot : dot ∉ text) :
    readSeparator colon first readIpv4 text = none := by
  cases first with
  | true => simpa [readSeparator] using readIpv4_of_noDot noDot
  | false =>
      cases text with
      | nil => rfl
      | cons byte rest =>
          by_cases isColon : byte = colon
          · have later := readIpv4_of_noDot fun member => noDot (List.mem_cons_of_mem byte member)
            simp [readSeparator, readChar, isColon, later]
          · simp [readSeparator, readChar, isColon]

theorem readGroups_stops {first : Bool} {remaining : Nat} {rest : Bytes} (stops : Stops rest) :
    readGroups first remaining rest = ([], false, rest) := by
  cases remaining with
  | zero => rfl
  | succ remaining =>
      have noGroup : readGroup first rest = none := by
        cases first with
        | true => exact stops.noGroup
        | false => exact stops.noLater
      simp [readGroups, noEmbedded stops.noDot, noGroup]

theorem colonGroups_noDigit {groups : List Nat} {rest : Bytes} (stops : Stops rest) :
    ∀ byte ∈ (colonGroups groups ++ rest).head?, toDigit 16 byte = none := by
  cases groups with
  | nil => exact stops.noDigit
  | cons group groups => exact forall_head (by decide)

theorem readGroup_showNumber {group : Nat} {groups : List Nat} {rest : Bytes} (stops : Stops rest)
    (below : group < 65536) :
    readNumber 16 65536 (some 4) true (showNumber 16 group ++ (colonGroups groups ++ rest)) =
      some (group, colonGroups groups ++ rest) :=
  readNumber_showNumber (by decide) (by decide) (by decide) (by omega) below
    (colonGroups_noDigit stops)

theorem readGroups_colonGroups {groups : List Nat} {remaining : Nat} {rest : Bytes}
    (stops : Stops rest) (enough : groups.length ≤ remaining)
    (below : ∀ group ∈ groups, group < 65536) :
    readGroups false remaining (colonGroups groups ++ rest) = (groups, false, rest) := by
  induction groups generalizing remaining with
  | nil => exact readGroups_stops stops
  | cons group groups ih =>
      obtain ⟨remaining, rfl⟩ : ∃ fewer, remaining = fewer + 1 :=
        ⟨remaining - 1, by simp at enough; omega⟩
      have noDot : dot ∉ colonGroups (group :: groups) ++ rest := by
        rw [List.mem_append, not_or]
        exact ⟨colonGroups_noDot _, stops.noDot⟩
      have read : readGroup false (colonGroups (group :: groups) ++ rest) =
          some (group, colonGroups groups ++ rest) := by
        have number := @readGroup_showNumber _ groups _ stops (below group List.mem_cons_self)
        simpa [readGroup, readSeparator, readChar, colonGroups] using number
      have later := ih (by simpa using enough) fun other member =>
        below other (List.mem_cons_of_mem _ member)
      simp [readGroups, noEmbedded noDot, read, later]

theorem readGroups_displaySegments {groups : List Nat} {remaining : Nat} {rest : Bytes}
    (stops : Stops rest) (enough : groups.length ≤ remaining)
    (below : ∀ group ∈ groups, group < 65536) :
    readGroups true remaining (displaySegments groups ++ rest) = (groups, false, rest) := by
  cases groups with
  | nil => exact readGroups_stops stops
  | cons group groups =>
      obtain ⟨remaining, rfl⟩ : ∃ fewer, remaining = fewer + 1 :=
        ⟨remaining - 1, by simp at enough; omega⟩
      rw [displaySegments_cons, List.append_assoc]
      have noDot : dot ∉ showNumber 16 group ++ (colonGroups groups ++ rest) := by
        simp only [List.mem_append, not_or]
        exact ⟨showNumber_noDot _, colonGroups_noDot _, stops.noDot⟩
      have read : readGroup true (showNumber 16 group ++ (colonGroups groups ++ rest)) =
          some (group, colonGroups groups ++ rest) := by
        have number := @readGroup_showNumber _ groups _ stops (below group List.mem_cons_self)
        simpa [readGroup, readSeparator] using number
      have later := readGroups_colonGroups stops (by simpa using enough) fun other member =>
        below other (List.mem_cons_of_mem _ member)
      simp [readGroups, noEmbedded noDot, read, later]

theorem displaySegments_noDot (groups : List Nat) : dot ∉ displaySegments groups := by
  cases groups with
  | nil => simp [displaySegments]
  | cons group groups =>
      rw [displaySegments_cons, List.mem_append, not_or]
      exact ⟨showNumber_noDot _, colonGroups_noDot _⟩

/-! ## The compressed run -/

/-- The span lies inside the list and covers zeros only. -/
structure ZeroSpan (all : List Nat) (span : Span) : Prop where
  inside : span.start + span.len ≤ all.length
  zeros : ∀ index, span.start ≤ index → index < span.start + span.len → all[index]? = some 0

def Span.extend (current : Span) (index : Nat) : Span :=
  if current.len = 0 then ⟨index, 1⟩ else ⟨current.start, current.len + 1⟩

theorem ZeroSpan.extend {all : List Nat} {current : Span} {index : Nat}
    (zeros : ZeroSpan all current) (ends : current.len ≠ 0 → current.start + current.len = index)
    (isZero : all[index]? = some 0) :
    ZeroSpan all (current.extend index) ∧
      (current.extend index).start + (current.extend index).len = index + 1 := by
  have bound : index < all.length := by
    obtain ⟨bound, -⟩ := List.getElem?_eq_some_iff.mp isZero
    exact bound
  by_cases fresh : current.len = 0
  · simp only [Span.extend, fresh, if_true]
    refine ⟨⟨bound, fun place low high => ?_⟩, trivial⟩
    dsimp only at low high
    obtain rfl : place = index := by omega
    exact isZero
  · have atEnd := ends fresh
    simp only [Span.extend, fresh, if_false]
    refine ⟨⟨by dsimp only; omega, fun place low high => ?_⟩, by omega⟩
    dsimp only at low high
    by_cases isLast : place = index
    · exact isLast ▸ isZero
    · exact zeros.zeros place low (by omega)

theorem zeroRun_zeroSpan {all pre list : List Nat} {current longest : Span}
    (split : all = pre ++ list)
    (currentZeros : ZeroSpan all current)
    (ends : current.len ≠ 0 → current.start + current.len = pre.length)
    (longestZeros : ZeroSpan all longest) :
    ZeroSpan all (zeroRun pre.length current longest list) := by
  induction list generalizing pre current longest with
  | nil => exact longestZeros
  | cons segment list ih =>
      have nextSplit : all = (pre ++ [segment]) ++ list := by simp [split]
      have nextLength : (pre ++ [segment]).length = pre.length + 1 := by simp
      -- a zero extends the current run, anything else starts anew
      by_cases isZero : segment = 0
      · have atIndex : all[pre.length]? = some 0 := by simp [split, isZero]
        obtain ⟨extendedZeros, extendedEnds⟩ := currentZeros.extend ends atIndex
        have step : zeroRun pre.length current longest (segment :: list) =
            zeroRun (pre.length + 1) (current.extend pre.length)
              (if longest.len < (current.extend pre.length).len then current.extend pre.length
                else longest) list := by
          rw [zeroRun, if_pos isZero]
          rfl
        rw [step, ← nextLength]
        refine ih nextSplit extendedZeros (fun _ => nextLength ▸ extendedEnds) ?_
        split
        · exact extendedZeros
        · exact longestZeros
      · rw [zeroRun, if_neg isZero, ← nextLength]
        exact ih nextSplit ⟨by simp, fun index low high => by simp at high⟩ (by simp) longestZeros

theorem ZeroSpan.compress {all : List Nat} {span : Span} (zeros : ZeroSpan all span) :
    all = all.take span.start ++ List.replicate span.len 0 ++ all.drop (span.start + span.len) := by
  have middle : (all.drop span.start).take span.len = List.replicate span.len 0 := by
    rw [List.eq_replicate_iff]
    refine ⟨by simp; have := zeros.inside; omega, fun value member => ?_⟩
    obtain ⟨index, found⟩ := List.mem_iff_getElem?.mp member
    rw [List.getElem?_take] at found
    split at found
    · rw [List.getElem?_drop, zeros.zeros _ (by omega) (by omega)] at found
      exact (Option.some.inj found).symm
    · simp at found
  rw [← middle, List.append_assoc, ← List.drop_drop, List.take_append_drop, List.take_append_drop]

/-! ## The whole printer -/

theorem segments_below (bits : BitVec 128) : ∀ group ∈ segments bits, group < 65536 :=
  fun _ member => bigEndian_lt (by decide) member

theorem ofBigEndian_segments (bits : BitVec 128) :
    BitVec.ofNat 128 (ofBigEndian 65536 (segments bits)) = bits := by
  have value := @ofBigEndian_bigEndian 65536 8 bits.toNat (by simpa using bits.isLt)
  rw [segments, value, BitVec.ofNat_toNat, BitVec.setWidth_eq]

theorem readIpv6_groups (bits : BitVec 128) :
    readIpv6 (displaySegments (segments bits)) = some (bits, []) := by
  have length : (segments bits).length = 8 := length_bigEndian _ _ _
  have read := @readGroups_displaySegments (segments bits) 8 [] stops_nil (by omega)
    (segments_below bits)
  rw [List.append_nil] at read
  simp [readIpv6, read, length, ofBigEndian_segments]

theorem readIpv6_compressed (bits : BitVec 128) {span : Span} (zeros : ZeroSpan (segments bits) span)
    (long : 1 < span.len) :
    readIpv6 (displaySegments ((segments bits).take span.start) ++ ascii "::" ++
      displaySegments ((segments bits).drop (span.start + span.len))) = some (bits, []) := by
  let head := (segments bits).take span.start
  let tail := (segments bits).drop (span.start + span.len)
  have length : (segments bits).length = 8 := length_bigEndian _ _ _
  have inside := zeros.inside
  have headLength : head.length = span.start := by simp [head]; omega
  have tailLength : tail.length = 8 - (span.start + span.len) := by simp [tail, length]
  have below := segments_below bits
  have readHead := @readGroups_displaySegments head 8
    (colon :: colon :: displaySegments tail) (stops_colons (displaySegments_noDot tail)) (by omega)
    fun group member => below group (List.mem_of_mem_take member)
  have readTail := @readGroups_displaySegments tail (8 - (span.start + 1)) [] stops_nil (by omega)
    fun group member => below group (List.mem_of_mem_drop member)
  rw [List.append_nil] at readTail
  have text : displaySegments head ++ ascii "::" ++ displaySegments tail =
      displaySegments head ++ (colon :: colon :: displaySegments tail) := by
    rw [List.append_assoc]
    rfl
  have filled : 8 - span.start - tail.length = span.len := by omega
  have value := ofBigEndian_segments bits
  rw [zeros.compress] at value
  change readIpv6 (displaySegments head ++ ascii "::" ++ displaySegments tail) = some (bits, [])
  rw [text]
  simp only [readIpv6, readHead, headLength]
  rw [if_neg (by omega)]
  simp only [Bool.false_eq_true, if_false, readChar, if_true, Option.bind_eq_bind, Option.bind_some,
    Option.pure_def]
  rw [readTail]
  simp only [filled]
  exact congrArg (fun result => some (result, [])) value

theorem parse_v6 {text : Bytes} {bits : BitVec 128} (notV4 : readIpv4 text = none)
    (read : readIpv6 text = some (bits, [])) : parse text = some (v6 bits) := by
  simp [parse, parseWith, readIpAddr, notV4, read]

theorem parse_displayV6_plain {bits : BitVec 128} (plain : toIpv4Mapped bits = none) :
    parse (display (v6 bits)) = some (v6 bits) := by
  have zeros : ZeroSpan (segments bits) (zeroRun 0 ⟨0, 0⟩ ⟨0, 0⟩ (segments bits)) :=
    @zeroRun_zeroSpan _ [] _ _ _ rfl ⟨by simp, fun index low high => by simp at high⟩ (by simp)
      ⟨by simp, fun index low high => by simp at high⟩
  simp only [display, displayV6, plain]
  -- a run of two zeros or more is compressed
  split
  · rename_i long
    refine parse_v6 (readIpv4_of_noDot ?_) (readIpv6_compressed bits zeros long)
    simp only [List.mem_append, not_or]
    exact ⟨⟨displaySegments_noDot _, by decide⟩, displaySegments_noDot _⟩
  · exact parse_v6 (readIpv4_of_noDot (displaySegments_noDot _)) (readIpv6_groups bits)

/-! ## Mapped addresses -/

theorem toIpv4Mapped_eq_some {bits : BitVec 128} {mapped : BitVec 32}
    (isMapped : toIpv4Mapped bits = some mapped) : bits.toNat = 0xFFFF * 2 ^ 32 + mapped.toNat := by
  simp only [toIpv4Mapped] at isMapped
  split at isMapped
  · rename_i high
    rw [← Option.some.inj isMapped, BitVec.toNat_setWidth]
    omega
  · simp at isMapped

theorem readIpv4_stuck {text : Bytes} (stuck : ∀ byte ∈ text.head?, toDigit 10 byte = none) :
    readIpv4 text = none := by
  have first : readOctet true text = none := by
    simpa [readOctet, readSeparator] using readNumber_stuck stuck
  simp [readIpv4, first]

/-- No group starts at a byte that is no digit. -/
theorem readGroups_stuck {first : UInt8} (noOctet : toDigit 10 first = none)
    (noGroup : toDigit 16 first = none) (remaining : Nat) (tail : Bytes) :
    readGroups true remaining (first :: tail) = ([], false, first :: tail) := by
  have noV4 : readIpv4 (first :: tail) = none :=
    readIpv4_stuck (forall_head noOctet)
  have noNumber : readNumber 16 65536 (some 4) true (first :: tail) = none :=
    readNumber_stuck (forall_head noGroup)
  cases remaining with
  | zero => rfl
  | succ remaining => simp [readGroups, readGroup, readSeparator, noV4, noNumber]

/-- The last three groups of a mapped address: `ffff` and an embedded IPv4 address. -/
theorem readGroups_mapped (mapped : BitVec 32) :
    readGroups true 7 (ascii "ffff:" ++ displayV4 mapped) =
      ([0xFFFF, mapped.toNat / 65536 % 65536, mapped.toNat % 65536], true, []) := by
  have embedded : readIpv4 (displayV4 mapped) = some (mapped, []) := by
    simpa using @readIpv4_displayV4 mapped [] (by simp)
  have noV4 : readIpv4 (ascii "ffff:" ++ displayV4 mapped) = none :=
    readIpv4_stuck (forall_head (by decide))
  have number : readNumber 16 65536 (some 4) true (ascii "ffff:" ++ displayV4 mapped) =
      some (0xFFFF, colon :: displayV4 mapped) := by
    have shown : ascii "ffff:" ++ displayV4 mapped =
        showNumber 16 0xFFFF ++ (colon :: displayV4 mapped) := by
      simp [showNumber]
      rfl
    rw [shown]
    exact readNumber_showNumber (by decide) (by decide) (by decide) (by omega) (by decide)
      (forall_head (by decide))
  simp [readGroups, readGroup, readSeparator, noV4, number, readChar, embedded, bigEndian,
    List.range_succ]

theorem readIpv6_mapped {bits : BitVec 128} {mapped : BitVec 32}
    (isMapped : toIpv4Mapped bits = some mapped) :
    readIpv6 (ascii "::ffff:" ++ displayV4 mapped) = some (bits, []) := by
  have value := toIpv4Mapped_eq_some isMapped
  have text : ascii "::ffff:" ++ displayV4 mapped =
      colon :: colon :: (ascii "ffff:" ++ displayV4 mapped) := rfl
  rw [text]
  simp only [readIpv6, readGroups_stuck (by decide : toDigit 10 colon = none) (by decide)]
  simp only [List.length_nil, Bool.false_eq_true, if_false, readChar, if_true,
    Option.bind_eq_bind, Option.bind_some, Option.pure_def, Nat.reduceEqDiff, Nat.reduceAdd,
    Nat.reduceSub, readGroups_mapped]
  have sum : ofBigEndian 65536 ([] ++ List.replicate 5 0 ++
      [65535, mapped.toNat / 65536 % 65536, mapped.toNat % 65536]) = bits.toNat := by
    have bound := mapped.isLt
    simp [ofBigEndian, List.replicate]
    omega
  have whole : BitVec.ofNat 128 bits.toNat = bits := by simp
  exact congrArg (fun result => some (result, [])) (sum ▸ whole)

theorem parse_display (ip : IpAddr) : parse (display ip) = some ip := by
  cases ip with
  | v4 bits => exact parse_displayV4 bits
  | v6 bits =>
      cases mapped : toIpv4Mapped bits with
      | none => exact parse_displayV6_plain mapped
      | some inner =>
          simp only [display, displayV6, mapped]
          exact parse_v6 (readIpv4_stuck (forall_head (by decide))) (readIpv6_mapped mapped)

end Ferryman.IpAddr
