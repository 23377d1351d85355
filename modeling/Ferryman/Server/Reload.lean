import Ferryman.Core.Install
import Ferryman.Lib.Monitor

/-!
# Reloading the routing table and the certificate

`Reloader` (`reload.rs`) with the parts of `tls.rs` and `main.rs` that it works
with. Every read of a file is an effect of its own, so that a file can be edited
between any two of them. The file watch only decides when `reload` is called.
-/

set_option autoImplicit false

namespace Ferryman.Server

open Ferryman.Core Byte Bytes Program

structure CertifiedKey where
  chain : List Bytes
  key : Bytes
deriving DecidableEq

/-- The libraries behind a reload: `http`, `toml`, `rustls` with its PEM reader, and
the standard hasher, which is fed one optional text per file. -/
structure Formats (Digest : Type) where
  http : Http
  toml : String → Option ConfigToml
  pemCerts : Bytes → Option (List Bytes)
  pemKey : Bytes → Option Bytes
  fromDer : List Bytes → Bytes → Option CertifiedKey
  hash : List (Option Bytes) → Digest

/-! ## Effects -/

/-- What is outside the reloader's lock: the files, and the breakers, which traffic
changes at any time. -/
structure Outside where
  files : Bytes → Option Bytes
  heap : Heap := {}

inductive FileEffect : Type → Type where
  | readConfig (path : Bytes) : FileEffect (Option Bytes)
  | readForDigest (path : Bytes) : FileEffect (Option Bytes)
  | pemFileIter (path : Bytes) : FileEffect (Option Bytes)
  | fromPemFile (path : Bytes) : FileEffect (Option Bytes)
  | buildTable (cfg : ConfigToml) (prev : Option RouteTable) :
      FileEffect (Except Error RouteTable)

inductive SharedEffect (Digest : Type) : Type → Type where
  | seenConfig : SharedEffect Digest Digest
  | setSeenConfig (digest : Digest) : SharedEffect Digest Unit
  | seenTls : SharedEffect Digest Digest
  | setSeenTls (digest : Digest) : SharedEffect Digest Unit
  | loadTable : SharedEffect Digest RouteTable
  | storeTable (table : RouteTable) : SharedEffect Digest Unit
  | storeCertificate (certificate : CertifiedKey) : SharedEffect Digest Unit

abbrev ReloadEffect (Digest : Type) (β : Type) : Type := FileEffect β ⊕ SharedEffect Digest β

inductive Occurrence where
  | configRead (raw : Option Bytes)
  | digestRead (raw : Option Bytes)
  | certsRead (raw : Option Bytes)
  | keyRead (raw : Option Bytes)
  | installed (table : RouteTable)
deriving DecidableEq

/-- What calls of `reload` share. -/
structure Shared (Digest : Type) where
  table : RouteTable
  certificate : Option CertifiedKey
  seen : Digest × Digest

variable {Digest : Type}

def FileEffect.answer (http : Http) : Handler FileEffect Outside
  | _, .readConfig path, outside => (outside.files path, outside)
  | _, .readForDigest path, outside => (outside.files path, outside)
  | _, .pemFileIter path, outside => (outside.files path, outside)
  | _, .fromPemFile path, outside => (outside.files path, outside)
  | _, .buildTable cfg prev, outside =>
      let (result, heap) := Core.buildTable http cfg prev outside.heap
      (result, { outside with heap })

def FileEffect.occurrence : {β : Type} → FileEffect β → β → List Occurrence
  | _, .readConfig _, raw => [.configRead raw]
  | _, .readForDigest _, raw => [.digestRead raw]
  | _, .pemFileIter _, raw => [.certsRead raw]
  | _, .fromPemFile _, raw => [.keyRead raw]
  | _, .buildTable _ _, _ => []

/-- The log, newest first, is a history variable: no effect reads it. -/
def FileEffect.exec (http : Http) : Handler FileEffect (Outside × List Occurrence)
  | _, effect, (outside, log) =>
      let (answer, outside) := FileEffect.answer http effect outside
      (answer, outside, effect.occurrence answer ++ log)

def SharedEffect.exec : Handler (SharedEffect Digest) (Shared Digest × List Occurrence)
  | _, .seenConfig, (shared, log) => (shared.seen.1, shared, log)
  | _, .setSeenConfig digest, (shared, log) =>
      ((), { shared with seen := (digest, shared.seen.2) }, log)
  | _, .seenTls, (shared, log) => (shared.seen.2, shared, log)
  | _, .setSeenTls digest, (shared, log) =>
      ((), { shared with seen := (shared.seen.1, digest) }, log)
  | _, .loadTable, (shared, log) => (shared.table, shared, log)
  | _, .storeTable table, (shared, log) =>
      ((), { shared with table }, .installed table :: log)
  | _, .storeCertificate certificate, (shared, log) =>
      ((), { shared with certificate := some certificate }, log)

def ReloadEffect.exec (http : Http) :
    Handler (ReloadEffect Digest) (Outside × Shared Digest × List Occurrence)
  | _, .inl effect, (outside, shared, log) =>
      let (answer, outside, log) := FileEffect.exec http effect (outside, log)
      (answer, outside, shared, log)
  | _, .inr effect, (outside, state) =>
      let (answer, state) := SharedEffect.exec effect state
      (answer, outside, state)

/-! ## Programs over files -/

section Files

variable (formats : Formats Digest)

def parseConfig (raw : Bytes) : Option ConfigToml :=
  match String.fromUTF8? ⟨raw.toArray⟩ with
  | some text => formats.toml text
  | none => none

def readForDigest : List Bytes → Program FileEffect (List (Option Bytes))
  | [] => pure []
  | path :: rest => do
      let raw ← Program.lift (.readForDigest path)
      let others ← readForDigest rest
      pure (raw :: others)

def digest (files : List Bytes) : Program FileEffect Digest := do
  let contents ← readForDigest files
  pure (formats.hash contents)

def loadCertified (cert key : Bytes) : Program FileEffect (Option CertifiedKey) := do
  match (← Program.lift (.pemFileIter cert)).bind formats.pemCerts with
  | none => pure none
  | some certs =>
      match (← Program.lift (.fromPemFile key)).bind formats.pemKey with
      | none => pure none
      | some key => pure (formats.fromDer certs key)

/-- The paths of a reloader. -/
structure Reloader where
  config : Option Bytes
  tls : Option (Bytes × Bytes)

def Reloader.tlsFiles (reloader : Reloader) : List Bytes :=
  match reloader.tls with
  | some (cert, key) => [cert, key]
  | none => []

/-- The current file contents count as already loaded. -/
def Reloader.new (reloader : Reloader) (table : RouteTable) (certificate : Option CertifiedKey) :
    Program FileEffect (Shared Digest) := do
  let configDigest ← digest formats reloader.config.toList
  let tlsDigest ← digest formats reloader.tlsFiles
  pure { table, certificate, seen := (configDigest, tlsDigest) }

def loadReloadable (reloader : Reloader) : Program FileEffect (Option (Option CertifiedKey)) := do
  match reloader.tls with
  | some (cert, key) => do
      let certificate ← loadCertified formats cert key
      pure (certificate.map some)
  | none => pure (some none)

/-- `main` up to the start of the watch, with a config file: load the certificate,
load the config, build the first table, make the reloader. -/
def startup (path : Bytes) (tls : Option (Bytes × Bytes)) :
    Program FileEffect (Option (Shared Digest)) := do
  match ← loadReloadable formats ⟨some path, tls⟩ with
  | none => pure none
  | some certificate =>
      match (← Program.lift (.readConfig path)).bind (parseConfig formats) with
      | none => pure none
      | some cfg =>
          match ← Program.lift (.buildTable cfg none) with
          | .error _ => pure none
          | .ok table => do
              let shared ← Reloader.new formats ⟨some path, tls⟩ table certificate
              pure (some shared)

end Files

/-! ## Reloads -/

section Reloads

variable [DecidableEq Digest] (formats : Formats Digest)

def inFiles {α : Type} (program : Program FileEffect α) : Program (ReloadEffect Digest) α :=
  program.hoist Sum.inl

def inShared {α : Type} (effect : SharedEffect Digest α) : Program (ReloadEffect Digest) α :=
  Program.lift (.inr effect)

def ifSome {α : Type} (value : Option α) (act : α → Program (ReloadEffect Digest) Unit) :
    Program (ReloadEffect Digest) Unit :=
  match value with
  | some found => act found
  | none => pure ()

def reloadOnce (raw : Option Bytes) : Program (ReloadEffect Digest) (Option RouteTable) := do
  match raw.bind (parseConfig formats) with
  | none => pure none
  | some cfg =>
      let prev ← inShared .loadTable
      let built ← inFiles (Program.lift (.buildTable cfg (some prev)))
      pure built.toOption

def reloadConfig (force : Bool) (path : Bytes) : Program (ReloadEffect Digest) Unit := do
  -- read once: the bytes hashed are the bytes parsed
  let raw ← inFiles (Program.lift (.readConfig path))
  let h := formats.hash [raw]
  let seen ← inShared .seenConfig
  if force ∨ h ≠ seen then
    inShared (.setSeenConfig h)
    ifSome (← reloadOnce formats raw) fun table => inShared (.storeTable table)
  else pure ()

def reloadTls (force : Bool) (cert key : Bytes) : Program (ReloadEffect Digest) Unit := do
  let h ← inFiles (digest formats [cert, key])
  let seen ← inShared .seenTls
  if force ∨ h ≠ seen then
    inShared (.setSeenTls h)
    ifSome (← inFiles (loadCertified formats cert key)) fun certificate =>
      inShared (.storeCertificate certificate)
  else pure ()

/-- The whole call runs under the lock of `seen`. -/
def Reloader.reload (reloader : Reloader) (force : Bool) : Program (ReloadEffect Digest) Unit := do
  ifSome reloader.config fun path => reloadConfig formats force path
  ifSome reloader.tls fun (cert, key) => reloadTls formats force cert key

/-- Calls of `reload`, forced or not, that race for the lock while files are edited
and traffic goes on. -/
abbrev Reloading (Digest : Type) : Type 1 :=
  Monitor (ReloadEffect Digest) Outside (Shared Digest × List Occurrence) Bool

def Reloading.run (reloader : Reloader) (reloading : Reloading Digest)
    (moves : List (MonitorMove Outside Bool)) : Reloading Digest :=
  Monitor.run (ReloadEffect.exec formats.http) (reloader.reload formats) reloading moves

end Reloads


/-! ## Making a reloader -/

theorem files_extend_log {α : Type} (http : Http) (program : Program FileEffect α)
    (log : List Occurrence) :
    program.Ensures (FileEffect.exec http) (log <:+ ·) (fun _ later => log <:+ later) log :=
  ensures_invariant program (fun _ _ _ extension => extension.trans (List.suffix_append _ _))
    List.suffix_rfl

theorem new_eq (formats : Formats Digest) (path : Bytes) (tls : Option (Bytes × Bytes))
    (table : RouteTable) (certificate : Option CertifiedKey) :
    Reloader.new formats ⟨some path, tls⟩ table certificate =
      perform (.readForDigest path) fun raw =>
        digest formats (Reloader.tlsFiles ⟨some path, tls⟩) >>= fun tlsDigest =>
          done ⟨table, certificate, (formats.hash [raw], tlsDigest)⟩ := rfl

/-- After the config file has been read, the TLS files do not matter for the config. -/
theorem new_ensures (formats : Formats Digest) (files : List Bytes) (table : RouteTable)
    (certificate : Option CertifiedKey) (raw : Option Bytes) (log : List Occurrence) :
    (digest formats files >>= fun tlsDigest =>
      done (⟨table, certificate, (formats.hash [raw], tlsDigest)⟩ : Shared Digest)).Ensures
      (FileEffect.exec formats.http) (log <:+ ·) (fun shared later => shared.table = table ∧
        shared.seen.1 = formats.hash [raw] ∧ log <:+ later) log :=
  (files_extend_log formats.http _ log).bind fun _ _ extension =>
    ⟨extension, rfl, rfl, extension⟩

/-! ## The two halves of a reload -/

section Shapes

variable (formats : Formats Digest)

theorem loadCertified_eq (cert key : Bytes) :
    (inFiles (loadCertified formats cert key) : Program (ReloadEffect Digest) _) =
      perform (.inl (.pemFileIter cert)) fun certRaw =>
        (certRaw.bind formats.pemCerts).elim (done none) fun certs =>
          perform (.inl (.fromPemFile key)) fun keyRaw =>
            done ((keyRaw.bind formats.pemKey).bind (formats.fromDer certs)) := by
  simp only [inFiles, loadCertified, lift_bind, hoist_perform]
  congr 1
  funext certRaw
  cases certRaw.bind formats.pemCerts with
  | none => rfl
  | some certs =>
      simp only [hoist_perform, Option.elim_some]
      congr 1
      funext keyRaw
      cases keyRaw.bind formats.pemKey <;> rfl

variable [DecidableEq Digest]

theorem reloadTls_eq (force : Bool) (cert key : Bytes) :
    reloadTls formats force cert key =
      perform (.inl (.readForDigest cert)) fun certRaw =>
        perform (.inl (.readForDigest key)) fun keyRaw => perform (.inr .seenTls) fun seen =>
          if force ∨ formats.hash [certRaw, keyRaw] ≠ seen then
            perform (.inr (.setSeenTls (formats.hash [certRaw, keyRaw]))) fun _ =>
              inFiles (loadCertified formats cert key) >>= fun loaded =>
                ifSome loaded fun certificate => inShared (.storeCertificate certificate)
          else done () := rfl

theorem reloadConfig_eq (force : Bool) (path : Bytes) :
    reloadConfig formats force path =
      perform (.inl (.readConfig path)) fun raw => perform (.inr .seenConfig) fun seen =>
        if force ∨ formats.hash [raw] ≠ seen then
          perform (.inr (.setSeenConfig (formats.hash [raw]))) fun _ =>
            (raw.bind (parseConfig formats)).elim (done ()) fun cfg =>
              perform (.inr .loadTable) fun prev =>
                perform (.inl (.buildTable cfg (some prev))) fun built =>
                  built.toOption.elim (done ()) fun table =>
                    perform (.inr (.storeTable table)) done
        else done () := by
  simp only [reloadConfig, reloadOnce, inFiles, inShared, lift]
  simp only [hoist_perform, hoist_done, perform_bind, done_bind]
  congr 1
  funext raw
  congr 1
  funext seen
  split
  · congr 1
    funext _
    cases raw.bind (parseConfig formats) with
    | none => rfl
    | some cfg =>
        simp only [perform_bind, done_bind, Option.elim_some, pure_eq]
        congr 1
        funext prev
        congr 1
        funext built
        cases built <;> rfl
  · rfl

end Shapes

def IsTlsEffect : {β : Type} → ReloadEffect Digest β → Prop
  | _, .inl (.readForDigest _) | _, .inl (.pemFileIter _) | _, .inl (.fromPemFile _) => True
  | _, .inr .seenTls | _, .inr (.setSeenTls _) | _, .inr (.storeCertificate _) => True
  | _, _ => False

def IsConfigEffect : {β : Type} → ReloadEffect Digest β → Prop
  | _, .inl (.readConfig _) | _, .inl (.buildTable _ _) => True
  | _, .inr .seenConfig | _, .inr (.setSeenConfig _) => True
  | _, .inr .loadTable | _, .inr (.storeTable _) => True
  | _, _ => False

def Occurrence.isTls : Occurrence → Bool
  | .digestRead _ | .certsRead _ | .keyRead _ => true
  | .configRead _ | .installed _ => false

/-- What the TLS half of a reload leaves as it is. -/
structure TlsStep (before after : Shared Digest × List Occurrence) : Prop where
  table : after.1.table = before.1.table
  seen : after.1.seen.1 = before.1.seen.1
  log : ∃ tls, after.2 = tls ++ before.2 ∧ ∀ occurrence ∈ tls, occurrence.isTls = true

/-- What the config half leaves as it is. -/
structure ConfigStep (before after : Shared Digest × List Occurrence) : Prop where
  certificate : after.1.certificate = before.1.certificate
  seen : after.1.seen.2 = before.1.seen.2
  log : ∃ config, after.2 = config ++ before.2 ∧ ∀ occurrence ∈ config, occurrence.isTls = false

theorem TlsStep.refl (state : Shared Digest × List Occurrence) : TlsStep state state :=
  ⟨rfl, rfl, [], rfl, by simp⟩

theorem ConfigStep.refl (state : Shared Digest × List Occurrence) : ConfigStep state state :=
  ⟨rfl, rfl, [], rfl, by simp⟩

theorem TlsStep.trans {first second third : Shared Digest × List Occurrence}
    (step : TlsStep first second) (step' : TlsStep second third) : TlsStep first third := by
  obtain ⟨tls, grows, each⟩ := step.log
  obtain ⟨tls', grows', each'⟩ := step'.log
  refine ⟨step'.table.trans step.table, step'.seen.trans step.seen, tls' ++ tls, ?_, ?_⟩
  · rw [grows', grows, List.append_assoc]
  · intro occurrence member
    exact (List.mem_append.mp member).elim (each' occurrence) (each occurrence)

theorem ConfigStep.trans {first second third : Shared Digest × List Occurrence}
    (step : ConfigStep first second) (step' : ConfigStep second third) :
    ConfigStep first third := by
  obtain ⟨config, grows, each⟩ := step.log
  obtain ⟨config', grows', each'⟩ := step'.log
  refine ⟨step'.certificate.trans step.certificate, step'.seen.trans step.seen,
    config' ++ config, ?_, ?_⟩
  · rw [grows', grows, List.append_assoc]
  · intro occurrence member
    exact (List.mem_append.mp member).elim (each' occurrence) (each occurrence)

theorem tlsStep_exec {β : Type} (http : Http) {effect : ReloadEffect Digest β}
    (isTls : IsTlsEffect effect) (outside : Outside) (state : Shared Digest × List Occurrence) :
    TlsStep state (ReloadEffect.exec http effect (outside, state)).2.2 := by
  cases effect with
  | inl effect =>
      cases effect with
      | readForDigest path => exact ⟨rfl, rfl, [.digestRead _], rfl, by simp [Occurrence.isTls]⟩
      | pemFileIter path => exact ⟨rfl, rfl, [.certsRead _], rfl, by simp [Occurrence.isTls]⟩
      | fromPemFile path => exact ⟨rfl, rfl, [.keyRead _], rfl, by simp [Occurrence.isTls]⟩
      | readConfig path => exact isTls.elim
      | buildTable cfg prev => exact isTls.elim
  | inr effect =>
      cases effect with
      | seenTls => exact .refl state
      | setSeenTls digest => exact ⟨rfl, rfl, [], rfl, by simp⟩
      | storeCertificate certificate => exact ⟨rfl, rfl, [], rfl, by simp⟩
      | seenConfig => exact isTls.elim
      | setSeenConfig digest => exact isTls.elim
      | loadTable => exact isTls.elim
      | storeTable table => exact isTls.elim

theorem configStep_exec {β : Type} (http : Http) {effect : ReloadEffect Digest β}
    (isConfig : IsConfigEffect effect) (outside : Outside)
    (state : Shared Digest × List Occurrence) :
    ConfigStep state (ReloadEffect.exec http effect (outside, state)).2.2 := by
  cases effect with
  | inl effect =>
      cases effect with
      | readForDigest path => exact isConfig.elim
      | pemFileIter path => exact isConfig.elim
      | fromPemFile path => exact isConfig.elim
      | readConfig path => exact ⟨rfl, rfl, [.configRead _], rfl, by simp [Occurrence.isTls]⟩
      | buildTable cfg prev => exact ⟨rfl, rfl, [], rfl, by simp⟩
  | inr effect =>
      cases effect with
      | seenTls => exact isConfig.elim
      | setSeenTls digest => exact isConfig.elim
      | storeCertificate certificate => exact isConfig.elim
      | seenConfig => exact .refl state
      | setSeenConfig digest => exact ⟨rfl, rfl, [], rfl, by simp⟩
      | loadTable => exact .refl state
      | storeTable table => exact ⟨rfl, rfl, [.installed table], rfl, by simp [Occurrence.isTls]⟩

theorem reloadTls_follows [DecidableEq Digest] (formats : Formats Digest) (force : Bool)
    (cert key : Bytes) :
    (reloadTls formats force cert key).Follows (Protocol.only IsTlsEffect) (fun _ _ => True)
      () := by
  have loads : (inFiles (loadCertified formats cert key)).Follows
      (Protocol.only (@IsTlsEffect Digest)) (fun _ _ => True) () := by
    rw [loadCertified_eq]
    refine ⟨trivial, fun certRaw _ => ?_⟩
    dsimp only
    cases certRaw.bind formats.pemCerts with
    | none => trivial
    | some certs => exact ⟨trivial, fun _ _ => trivial⟩
  rw [reloadTls_eq]
  refine ⟨trivial, fun certRaw _ => ⟨trivial, fun keyRaw _ => ⟨trivial, fun seen _ => ?_⟩⟩⟩
  dsimp only
  split
  · refine ⟨trivial, fun _ _ => loads.bind fun _ loaded _ => ?_⟩
    cases loaded with
    | none => trivial
    | some certificate => exact ⟨trivial, fun _ _ => trivial⟩
  · trivial

theorem reloadConfig_follows [DecidableEq Digest] (formats : Formats Digest) (force : Bool)
    (path : Bytes) :
    (reloadConfig formats force path).Follows (Protocol.only IsConfigEffect) (fun _ _ => True)
      () := by
  rw [reloadConfig_eq]
  refine ⟨trivial, fun raw _ => ⟨trivial, fun seen _ => ?_⟩⟩
  dsimp only
  split
  · refine ⟨trivial, fun _ _ => ?_⟩
    dsimp only
    cases raw.bind (parseConfig formats) with
    | none => trivial
    | some cfg =>
        refine ⟨trivial, fun prev _ => ⟨trivial, fun built _ => ?_⟩⟩
        cases built with
        | error => trivial
        | ok table => exact ⟨trivial, fun _ _ => trivial⟩
  · trivial

theorem reloadTls_ensures [DecidableEq Digest] (formats : Formats Digest) (force : Bool)
    (cert key : Bytes) (state : Shared Digest × List Occurrence) :
    (reloadTls formats force cert key).Ensures (ReloadEffect.exec formats.http) (TlsStep state)
      (fun _ => TlsStep state) state :=
  (reloadTls_follows formats force cert key).ensures
    (fun _ isTls outside _ step => step.trans (tlsStep_exec formats.http isTls outside _))
    (.refl state)

theorem reloadConfig_ensures [DecidableEq Digest] (formats : Formats Digest) (force : Bool)
    (path : Bytes) (state : Shared Digest × List Occurrence) :
    (reloadConfig formats force path).Ensures (ReloadEffect.exec formats.http) (ConfigStep state)
      (fun _ => ConfigStep state) state :=
  (reloadConfig_follows formats force path).ensures
    (fun _ isConfig outside _ step =>
      step.trans (configStep_exec formats.http isConfig outside _))
    (.refl state)

end Ferryman.Server
