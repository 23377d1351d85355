import Ferryman.Core.Ambiguity
import Ferryman.Core.Config
import Ferryman.Core.NormalizeProperties

/-! When the early return of `ambiguousRoute` agrees with the comparison it
skips. -/

set_option autoImplicit false

namespace Ferryman.Core

open Byte Bytes

def allReadings (raw : Bytes) : List Bytes := readings raw ++ readings (normalize raw)

/-- Some reading selects another prefix, or none instead of some. -/
def ReadingDiffers (table : RouteTable) (raw : Bytes) : Prop :=
  ∃ reading ∈ allReadings raw, pick table reading ≠ pick table raw

theorem ambiguousRoute_eq_true {table : RouteTable} {raw : Bytes} :
    ambiguousRoute table raw = true ↔
      (suspicious raw = true ∨ suspicious (normalize raw) = true) ∧ ReadingDiffers table raw := by
  simp only [ambiguousRoute, ReadingDiffers, allReadings]
  by_cases gate : suspicious raw = true ∨ suspicious (normalize raw) = true
  · have passed : (!(suspicious raw || suspicious (normalize raw))) = false := by
      rcases gate with gate | gate <;> simp [gate]
    simp only [passed, gate, true_and, List.any_cons, List.any_nil, Bool.or_false, Bool.or_eq_true,
      List.any_eq_true, bne_iff_ne, List.mem_append, Bool.false_eq_true, if_false]
    constructor
    · rintro (⟨reading, member, differs⟩ | ⟨reading, member, differs⟩)
      · exact ⟨reading, .inl member, differs⟩
      · exact ⟨reading, .inr member, differs⟩
    · rintro ⟨reading, member | member, differs⟩
      · exact .inl ⟨reading, member, differs⟩
      · exact .inr ⟨reading, member, differs⟩
  · have stopped : (!(suspicious raw || suspicious (normalize raw))) = true := by
      simpa using gate
    simp [stopped, gate]

/-! ## Paths without anything suspicious -/

theorem suspicious_cons {c : UInt8} {rest : Bytes} (plain : suspicious (c :: rest) = false) :
    suspiciousAt (c :: rest) = false ∧ suspicious rest = false := by
  simpa [suspicious, List.tails] using plain

theorem flatten_of_not_suspicious {s : Bytes} (plain : suspicious s = false) : flatten s = s := by
  induction s with
  | nil => rw [flatten]
  | cons c rest ih =>
      obtain ⟨plainHead, plainRest⟩ := suspicious_cons plain
      have kept : flattenWidth (c :: rest) = 0 := by
        simp only [suspiciousAt, Bool.or_eq_false_iff, Bool.and_eq_false_iff] at plainHead
        rcases plainHead with ⟨⟨notBackslash, -⟩, notPercent | ⟨single, double⟩⟩ <;>
          simp [flattenWidth, *]
      rw [flatten, kept]
      simp only []
      rw [ih plainRest]

theorem stripParams_of_not_suspicious {s : Bytes} (plain : suspicious s = false) :
    stripParams s = s := by
  have noParams : semicolon ∉ s := by
    induction s with
    | nil => simp
    | cons c rest ih =>
        obtain ⟨plainHead, plainRest⟩ := suspicious_cons plain
        simp only [suspiciousAt, Bool.or_eq_false_iff, beq_eq_false_iff_ne] at plainHead
        simp only [List.mem_cons, not_or]
        exact ⟨fun same => plainHead.1.2 same.symm, ih plainRest⟩
  have whole : (s.splitOn slash).map (before semicolon) = s.splitOn slash := by
    refine List.map_congr_left (g := id) (fun segment isSegment => ?_) |>.trans (List.map_id _)
    have absent : semicolon ∉ segment := fun member => noParams (mem_of_mem_splitOn isSegment member)
    simpa using @before_append_of_notMem _ _ [] absent
  rw [stripParams, whole, List.intercalate_splitOn]

theorem readings_of_not_suspicious {s : Bytes} (plain : suspicious s = false) :
    readings s = [s, s, s, s] := by
  simp [readings, flatten_of_not_suspicious plain, stripParams_of_not_suspicious plain]

theorem readingDiffers_of_not_suspicious {table : RouteTable} {raw : Bytes}
    (plainRaw : suspicious raw = false) (plainNorm : suspicious (normalize raw) = false) :
    ReadingDiffers table raw ↔ pick table (normalize raw) ≠ pick table raw := by
  simp [ReadingDiffers, allReadings, readings_of_not_suspicious plainRaw,
    readings_of_not_suspicious plainNorm]

theorem pick_normalize {table : RouteTable} {raw : Bytes}
    (stable : normalize (normalize raw) = normalize raw) :
    pick table (normalize raw) = pick table raw := by
  simp only [pick, RouteTable.lookup, stable]

/-- The check is true exactly when something is suspicious and some reading
differs. It is the full comparison wherever the normal form selects the route of
the raw path, in particular wherever normalising twice is normalising once. -/
theorem ambiguousRoute_iff_reading_differs (table : RouteTable) (raw : Bytes) :
    (ambiguousRoute table raw = true ↔
        (suspicious raw = true ∨ suspicious (normalize raw) = true) ∧ ReadingDiffers table raw) ∧
      (pick table (normalize raw) = pick table raw →
        (ambiguousRoute table raw = true ↔ ReadingDiffers table raw)) ∧
      (normalize (normalize raw) = normalize raw →
        (ambiguousRoute table raw = true ↔ ReadingDiffers table raw)) := by
  have full : pick table (normalize raw) = pick table raw →
      (ambiguousRoute table raw = true ↔ ReadingDiffers table raw) := by
    intro same
    rw [ambiguousRoute_eq_true]
    refine ⟨And.right, fun differs => ⟨?_, differs⟩⟩
    by_contra nothing
    simp only [not_or, Bool.not_eq_true] at nothing
    exact (readingDiffers_of_not_suspicious nothing.1 nothing.2).mp differs same
  exact ⟨ambiguousRoute_eq_true, full, fun stable => full (pick_normalize stable)⟩

def apiConfig : ConfigToml where
  routes := [
    { pathPrefix := ascii "/api", upstream := ascii "http://a.local:8001" },
    { pathPrefix := ascii "/", upstream := ascii "http://b.local" }]

def apiTable : RouteTable :=
  match (buildTable plainHttp apiConfig none {}).1 with
  | .ok table => table
  | .error _ => RouteTable.new [] (.fromSecs 0)

theorem encoded_slash_is_ambiguous :
    normalize (normalize (ascii "/%2Fapi")) = normalize (ascii "/%2Fapi") ∧
      ambiguousRoute apiTable (ascii "/%2Fapi") = true := by
  have stable : normalize (normalize (ascii "/%2Fapi")) = normalize (ascii "/%2Fapi") := by
    decide +kernel
  refine ⟨stable, ?_⟩
  refine ((ambiguousRoute_iff_reading_differs apiTable _).2.2 stable).mpr ?_
  exact ⟨flatten (ascii "/%2Fapi"), by simp [allReadings, readings], by decide +kernel⟩

/-- The normal form of `/%%361pi` is `/%61pi`, which holds nothing suspicious but
is looked up as `/api`. -/
theorem early_return_skips_difference :
    ¬∀ (http : Http) (cfg : ConfigToml) (prev : Option RouteTable) (heap : Heap)
        (table : RouteTable) (raw : Bytes),
      (buildTable http cfg prev heap).1 = .ok table → badPathNormalized raw = false →
      (ambiguousRoute table raw = true ↔ ReadingDiffers table raw) := by
  intro claimed
  have same := claimed plainHttp apiConfig none {} apiTable (ascii "/%%361pi")
    (by decide +kernel) (by decide +kernel)
  have differs : ReadingDiffers apiTable (ascii "/%%361pi") :=
    ⟨stripParams (normalize (ascii "/%%361pi")), by simp [allReadings, readings], by decide +kernel⟩
  exact absurd (same.mpr differs) (by decide +kernel)

end Ferryman.Core
