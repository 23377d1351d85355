import Ferryman.Server.ConfigReload

/-!
# Edits during startup

`main` loads the config, makes the reloader, which hashes the file again, and
starts the watch, whose thread reloads once. An edit between the load and the
hash counts as loaded.
-/

set_option autoImplicit false

namespace Ferryman.Server

open Ferryman.Core Byte Bytes Program

variable {Digest : Type}

/-! ## One table, one content -/

section Lineages

variable {formats : Formats Digest} {log₀ log : List Occurrence} {content₀ content other : Bytes}
  {table₀ table another : RouteTable}

theorem Lineage.extends (lineage : Lineage formats log₀ content₀ table₀ log content table) :
    log₀ <:+ log := by
  induction lineage with
  | start => exact List.suffix_rfl
  | noted _ _ ih => exact ih.trans (List.suffix_cons _ _)
  | installed _ _ _ ih => exact ih.trans (List.suffix_cons _ _)

theorem not_suffix_cons {occurrence : Occurrence} (suffix : occurrence :: log <:+ log) : False := by
  have shorter := suffix.length_le
  simp at shorter

theorem Lineage.content_unique (lineage : Lineage formats log₀ content₀ table₀ log content table)
    (lineage' : Lineage formats log₀ content₀ table₀ log other another) : content = other := by
  induction lineage generalizing other another with
  | start =>
      cases lineage' with
      | start => rfl
      | noted earlier _ => exact (not_suffix_cons earlier.extends).elim
      | installed earlier _ _ => exact (not_suffix_cons earlier.extends).elim
  | noted earlier notInstall ih =>
      cases lineage' with
      | start => exact (not_suffix_cons earlier.extends).elim
      | noted earlier' _ => exact ih earlier'
      | installed _ _ _ => cases notInstall
  | installed earlier _ _ _ =>
      cases lineage' with
      | start => exact (not_suffix_cons earlier.extends).elim
      | noted _ notInstall => cases notInstall
      | installed _ _ _ => rfl

end Lineages

/-! ## The startup -/

/-- What the startup leaves behind: the content it loaded, the content it hashed, and
the table and the hash that come from them. -/
structure Started (formats : Formats Digest) (shared : Shared Digest) (log : List Occurrence)
    (loaded : Bytes) (hashed : Option Bytes) : Prop where
  reads : ∃ before, .digestRead hashed :: .configRead (some loaded) :: before <:+ log
  built : BuiltFromContent formats loaded shared.table
  seen : shared.seen.1 = formats.hash [hashed]

theorem startup_eq (formats : Formats Digest) (path : Bytes) (tls : Option (Bytes × Bytes)) :
    startup formats path tls =
      loadReloadable formats ⟨some path, tls⟩ >>= fun loaded =>
        loaded.elim (done none) fun certificate => perform (.readConfig path) fun raw =>
          (raw.bind (parseConfig formats)).elim (done none) fun cfg =>
            perform (.buildTable cfg none) fun built =>
              built.toOption.elim (done none) fun table =>
                Reloader.new formats ⟨some path, tls⟩ table certificate >>= fun shared =>
                  done (some shared) := by
  simp only [startup, lift, perform_bind, done_bind]
  refine congrArg (loadReloadable formats ⟨some path, tls⟩ >>= ·) (funext fun loaded => ?_)
  cases loaded with
  | none => rfl
  | some certificate =>
      refine congrArg (perform (FileEffect.readConfig path)) (funext fun raw => ?_)
      cases raw.bind (parseConfig formats) with
      | none => rfl
      | some cfg =>
          refine congrArg (perform (FileEffect.buildTable cfg none)) (funext fun built => ?_)
          cases built <;> rfl

theorem new_hashes (formats : Formats Digest) (path : Bytes) (tls : Option (Bytes × Bytes))
    (table : RouteTable) (certificate : Option CertifiedKey) (log : List Occurrence) :
    (Reloader.new formats ⟨some path, tls⟩ table certificate).Ensures (FileEffect.exec formats.http)
      (fun _ => True) (fun shared later => shared.table = table ∧ ∃ hashed,
        shared.seen.1 = formats.hash [hashed] ∧ .digestRead hashed :: log <:+ later) log := by
  rw [new_eq]
  refine ⟨trivial, fun outside => ?_⟩
  refine (new_ensures formats _ table certificate (outside.files path) _).mono
    (fun _ _ => trivial) fun shared later result => ?_
  obtain ⟨sameTable, seen, extension⟩ := result
  exact ⟨sameTable, _, seen, extension⟩

theorem startup_ensures (formats : Formats Digest) (path : Bytes) (tls : Option (Bytes × Bytes))
    (log : List Occurrence) :
    (startup formats path tls).Ensures (FileEffect.exec formats.http) (fun _ => True)
      (fun result log => ∀ shared ∈ result,
        ∃ loaded hashed, Started formats shared log loaded hashed)
      log := by
  have load : (loadReloadable formats ⟨some path, tls⟩).Ensures (FileEffect.exec formats.http)
      (fun _ => True) (fun _ _ => True) log :=
    ensures_invariant _ (fun _ _ _ _ => trivial) trivial
  have failed (log : List Occurrence) : (done none).Ensures (FileEffect.exec formats.http)
      (fun _ => True) (fun result log => ∀ shared ∈ result, ∃ loaded hashed,
        Started formats shared log loaded hashed) log :=
    ⟨trivial, fun _ isNone => by cases isNone⟩
  rw [startup_eq]
  refine load.bind fun result log _ => ?_
  cases result with
  | none => exact failed log
  | some certificate =>
      refine ⟨trivial, fun outside => ?_⟩
      simp only [FileEffect.exec, FileEffect.answer, FileEffect.occurrence, List.singleton_append]
      cases parsed : (outside.files path).bind (parseConfig formats) with
      | none => exact failed _
      | some cfg =>
          obtain ⟨loaded, isLoaded, accepted⟩ := Option.bind_eq_some_iff.mp parsed
          refine ⟨trivial, fun outside' => ?_⟩
          simp only [FileEffect.exec, FileEffect.answer, FileEffect.occurrence, List.nil_append]
          rcases built : buildTable formats.http cfg none outside'.heap with ⟨reason | table, after⟩
          · exact failed _
          · refine (new_hashes formats path tls table certificate _).bind ?_
            intro shared later result
            obtain ⟨rfl, hashed, seen, extension⟩ := result
            refine ⟨trivial, ?_⟩
            intro _ isShared
            cases isShared
            rw [isLoaded] at extension
            exact ⟨loaded, hashed, ⟨log, extension⟩, ⟨cfg, none, _, after, accepted, built⟩, seen⟩

/-! ## The reload at the start of the watch -/

section FirstReload

variable [DecidableEq Digest] {formats : Formats Digest} {path : Bytes} {outside : Outside}
  {shared : Shared Digest} {log : List Occurrence}

theorem reloadConfig_run_skips (same : formats.hash [outside.files path] = shared.seen.1) :
    (reloadConfig formats false path).run (ReloadEffect.exec formats.http) (outside, shared, log) =
      ((), outside, shared, .configRead (outside.files path) :: log) := by
  rw [reloadConfig_eq]
  simp [ReloadEffect.exec, FileEffect.exec, FileEffect.answer, FileEffect.occurrence,
    SharedEffect.exec, same]

theorem reloadConfig_run_installs {content : Bytes} {cfg : ConfigToml} {next : RouteTable}
    {after : Heap} (isContent : outside.files path = some content)
    (changed : formats.hash [some content] ≠ shared.seen.1)
    (parsed : parseConfig formats content = some cfg)
    (built : buildTable formats.http cfg (some shared.table) outside.heap = (.ok next, after)) :
    (reloadConfig formats false path).run (ReloadEffect.exec formats.http) (outside, shared, log) =
      ((), { outside with heap := after },
        { shared with table := next, seen := (formats.hash [some content], shared.seen.2) },
        .installed next :: .configRead (some content) :: log) := by
  rw [reloadConfig_eq]
  simp [ReloadEffect.exec, FileEffect.exec, FileEffect.answer, FileEffect.occurrence,
    SharedEffect.exec, isContent, changed, parsed, built, Except.toOption]

theorem tlsHalf_keeps {tls : Option (Bytes × Bytes)} {state : Shared Digest × List Occurrence}
    (outside : Outside) :
    TlsStep state ((ifSome tls fun (cert, key) => reloadTls formats false cert key).run
      (ReloadEffect.exec formats.http) (outside, state)).2.2 := by
  cases tls with
  | none => exact .refl state
  | some files => exact (reloadTls_ensures formats false files.1 files.2 state).run outside

/-- The table after the first reload comes from the content that the file then holds
iff the reloader has not hashed that content, or the startup has loaded it. -/
theorem startup_edit_kept_iff (injective : Function.Injective formats.hash)
    {tls : Option (Bytes × Bytes)} {changes : Nat → Outside → Outside} {outside₀ : Outside}
    (started : (startup formats path tls).runAmid (FileEffect.exec formats.http) changes
      (outside₀, []) = (some shared, outside, log)) :
    ∃ loaded hashed, Started formats shared log loaded hashed ∧
      ∀ before content, before.files path = some content → ValidContent formats content →
        let after := ((⟨some path, tls⟩ : Reloader).reload formats false).run
          (ReloadEffect.exec formats.http) (before, shared, log)
        (Lineage formats log loaded shared.table after.2.2.2 content after.2.2.1.table ↔
          hashed ≠ some content ∨ loaded = content) := by
  have result := (startup_ensures formats path tls []).runAmid changes outside₀
  rw [started] at result
  obtain ⟨loaded, hashed, start⟩ := result shared rfl
  refine ⟨loaded, hashed, start, fun before content isContent valid => ?_⟩
  intro after
  have after_eq : after = (ifSome tls fun (cert, key) => reloadTls formats false cert key).run
      (ReloadEffect.exec formats.http) ((reloadConfig formats false path).run
        (ReloadEffect.exec formats.http) (before, shared, log)).2 := run_bind _ _ _ _
  have first : Lineage formats log loaded shared.table log loaded shared.table := .start
  by_cases same : hashed = some content
  · have kept : Lineage formats log loaded shared.table after.2.2.2 loaded after.2.2.1.table := by
      rw [after_eq, reloadConfig_run_skips (by rw [isContent, start.seen, same])]
      exact (first.noted rfl).tlsStep (tlsHalf_keeps before)
    constructor
    · intro lineage
      exact .inr (kept.content_unique lineage)
    · intro isLoaded
      exact (isLoaded.resolve_left fun different => different same) ▸ kept
  · obtain ⟨cfg, checked, parsed, accepted⟩ := valid
    obtain ⟨next, heap, built⟩ := buildTable_accepts accepted (some shared.table) before.heap
    have changed : formats.hash [some content] ≠ shared.seen.1 := by
      intro sameHash
      exact same (by simpa using (injective (sameHash.trans start.seen)).symm)
    refine iff_of_true ?_ (.inl same)
    rw [after_eq, reloadConfig_run_installs isContent changed parsed built]
    exact ((first.noted rfl).installed parsed built).tlsStep (tlsHalf_keeps _)

end FirstReload

/-- The file is edited right before the effect with the given number. -/
def editedAt (number index : Nat) (outside : Outside) : Outside :=
  if index = number then holding bText else outside

def startedWithEdit (number : Nat) :
    Option (Shared (List (Option Bytes))) × Outside × List Occurrence :=
  (startup abFormats configPath none).runAmid (FileEffect.exec plainHttp) (editedAt number)
    (holding aText, [])

def sharedAfterEdit (number : Nat) : Shared (List (Option Bytes)) :=
  (startedWithEdit number).1.getD ⟨aTable, none, ([], [])⟩

/-- The state after the reload of the watch's thread, with no edit after the first. -/
def firstReloadAfterEdit (number : Nat) :
    Unit × Outside × Shared (List (Option Bytes)) × List Occurrence :=
  ((⟨some configPath, none⟩ : Reloader).reload abFormats false).run (ReloadEffect.exec plainHttp)
    (holding bText, sharedAfterEdit number, (startedWithEdit number).2.2)

theorem startedWithEdit_eq {number : Nat} (succeeds : (startedWithEdit number).1.isSome = true) :
    (startup abFormats configPath none).runAmid (FileEffect.exec plainHttp) (editedAt number)
      (holding aText, []) =
        (some (sharedAfterEdit number), (startedWithEdit number).2.1,
          (startedWithEdit number).2.2) := by
  refine Prod.ext ?_ rfl
  unfold sharedAfterEdit
  obtain ⟨shared, isSome⟩ := Option.isSome_iff_exists.mp succeeds
  rw [isSome]
  exact isSome

theorem edit_after_hash_is_kept :
    ∃ loaded, Lineage abFormats (startedWithEdit 3).2.2 loaded (sharedAfterEdit 3).table
      (firstReloadAfterEdit 3).2.2.2 (ascii bText) (firstReloadAfterEdit 3).2.2.1.table := by
  have injective : Function.Injective abFormats.hash := fun _ _ same => same
  have evaluated : (startedWithEdit 3).1.isSome = true ∧
    (sharedAfterEdit 3).seen.1 = [some (ascii aText)] := by decide +kernel
  obtain ⟨succeeds, isHashed⟩ := evaluated
  obtain ⟨loaded, hashed, start, kept⟩ :=
    startup_edit_kept_iff injective (startedWithEdit_eq succeeds)
  have differs : hashed ≠ some (ascii bText) := by
    have same : [some (ascii aText)] = [hashed] := isHashed.symm.trans start.seen
    rw [← List.cons.inj same |>.1]
    decide +kernel
  exact ⟨loaded, (kept (holding bText) (ascii bText) rfl bText_valid).mpr (.inl differs)⟩

/-- An edit that lands after the load and before the hash is never installed. -/
theorem edit_before_hash_is_lost :
    (startedWithEdit 2).1.isSome = true ∧ ValidContent abFormats (ascii bText) ∧
      (holding bText).files configPath = some (ascii bText) ∧
      (startedWithEdit 2).2.1.files configPath = some (ascii bText) ∧
      ¬ BuiltFromContent abFormats (ascii bText) (firstReloadAfterEdit 2).2.2.1.table := by
  have evaluated : (startedWithEdit 2).1.isSome = true ∧
      (startedWithEdit 2).2.1.files configPath = some (ascii bText) ∧
      (firstReloadAfterEdit 2).2.2.1.table.routes.map Route.pathPrefix = [ascii "/a"] := by
    decide +kernel
  obtain ⟨succeeds, edited, stillFirst⟩ := evaluated
  refine ⟨succeeds, bText_valid, rfl, edited, ?_⟩
  intro ⟨cfg, prev, heap, after, parsed, built⟩
  have isSecond : parseConfig abFormats (ascii bText) =
    some (oneRouteConfig "/b" "http://b.local") := by decide +kernel
  obtain rfl := Option.some.inj (isSecond.symm.trans parsed)
  have prefixes := buildTable_prefixes_perm (congrArg Prod.fst built)
  rw [stillFirst] at prefixes
  exact absurd prefixes (by decide)

end Ferryman.Server
