import Ferryman.Server.ConfigReload

/-!
# Which files the served certificate comes from

The files are hashed and then read again to load them. As long as the last load
read what was hashed, the hash stands for the served certificate.
-/

set_option autoImplicit false

namespace Ferryman.Server

open Ferryman.Core Byte Bytes Program

variable {Digest : Type}

/-- What the two files load as, if they hold a matching pair. -/
def certify (formats : Formats Digest) (cert key : Option Bytes) : Option CertifiedKey :=
  (cert.bind formats.pemCerts).bind fun certs =>
    (key.bind formats.pemKey).bind (formats.fromDer certs)

/-- The contents that a call hashed, and those that it loaded afterwards. -/
structure Load where
  cert : Option Bytes
  key : Option Bytes
  read : List (Option Bytes)
deriving DecidableEq

/-- The last load of the log. The key is not read after a certificate that does not
load. -/
def lastLoad : List Occurrence → Option Load
  | .keyRead key' :: .certsRead cert' :: .digestRead key :: .digestRead cert :: _ =>
      some ⟨cert, key, [cert', key']⟩
  | .certsRead cert' :: .digestRead key :: .digestRead cert :: _ => some ⟨cert, key, [cert']⟩
  | _ :: log => lastLoad log
  | [] => none

/-- It read what had been hashed before it. -/
def Load.IsSteady (load : Load) : Prop := load.read <+: [load.cert, load.key]

instance (load : Load) : Decidable load.IsSteady :=
  inferInstanceAs (Decidable (_ <+: _))

section Convergence

variable {formats : Formats Digest} {first : Shared Digest}

/-- Nothing was loaded since the start, or the hash is that of the last load, whose
certificate is served if it has one and was steady. -/
def TlsSettled (formats : Formats Digest) (first : Shared Digest)
    (state : Shared Digest × List Occurrence) : Prop :=
  match lastLoad state.2 with
  | none => state.1.seen.2 = first.seen.2 ∧ state.1.certificate = first.certificate
  | some load =>
      state.1.seen.2 = formats.hash [load.cert, load.key] ∧
        (load.IsSteady → ∀ certificate, certify formats load.cert load.key = some certificate →
          state.1.certificate = some certificate)

theorem TlsSettled.congr {before after : Shared Digest × List Occurrence}
    (settled : TlsSettled formats first before) (sameLoad : lastLoad after.2 = lastLoad before.2)
    (seen : after.1.seen.2 = before.1.seen.2)
    (certificate : after.1.certificate = before.1.certificate) :
    TlsSettled formats first after := by
  rw [TlsSettled, sameLoad, seen, certificate]
  exact settled

theorem lastLoad_config {config log : List Occurrence}
    (each : ∀ occurrence ∈ config, occurrence.isTls = false) :
    lastLoad (config ++ log) = lastLoad log := by
  induction config with
  | nil => rfl
  | cons occurrence config ih =>
      have notTls := each occurrence List.mem_cons_self
      have rest := ih fun later member => each later (List.mem_cons_of_mem _ member)
      cases occurrence with
      | configRead raw => exact rest
      | installed table => exact rest
      | digestRead raw => cases notTls
      | certsRead raw => cases notTls
      | keyRead raw => cases notTls

theorem TlsSettled.configStep {before after : Shared Digest × List Occurrence}
    (settled : TlsSettled formats first before) (step : ConfigStep before after) :
    TlsSettled formats first after := by
  obtain ⟨config, grows, each⟩ := step.log
  exact settled.congr (by rw [grows, lastLoad_config each]) step.seen step.certificate

/-- A load settles the hash that was taken right before it. -/
theorem load_settles {cert key : Bytes} {certHashed keyHashed : Option Bytes}
    {shared : Shared Digest} {log : List Occurrence}
    (seen : shared.seen.2 = formats.hash [certHashed, keyHashed]) :
    (inFiles (loadCertified formats cert key) >>= fun loaded =>
      ifSome loaded fun certificate => inShared (.storeCertificate certificate)).Ensures
      (ReloadEffect.exec formats.http) (fun _ => True) (fun _ => TlsSettled formats first)
      (shared, .digestRead keyHashed :: .digestRead certHashed :: log) := by
  rw [loadCertified_eq]
  refine ⟨trivial, fun before => ?_⟩
  simp only [ReloadEffect.exec, FileEffect.exec, FileEffect.answer, FileEffect.occurrence,
    List.singleton_append]
  cases certs : (before.files cert).bind formats.pemCerts with
  | none =>
      refine ⟨trivial, seen, fun steady certificate certified => ?_⟩
      obtain ⟨same, -⟩ := List.cons_prefix_cons.mp steady
      rw [certify, ← same, certs] at certified
      cases certified
  | some chain =>
      refine ⟨trivial, fun later => ?_⟩
      simp only [ReloadEffect.exec, FileEffect.exec, FileEffect.answer, FileEffect.occurrence,
        List.singleton_append]
      have steadily (steady : Load.IsSteady
          ⟨certHashed, keyHashed, [before.files cert, later.files key]⟩) :
          certify formats certHashed keyHashed =
            ((later.files key).bind formats.pemKey).bind (formats.fromDer chain) := by
        obtain ⟨sameCert, rest⟩ := List.cons_prefix_cons.mp steady
        obtain ⟨sameKey, -⟩ := List.cons_prefix_cons.mp rest
        dsimp only at sameCert sameKey
        rw [certify, ← sameCert, ← sameKey, certs]
        rfl
      cases loaded : ((later.files key).bind formats.pemKey).bind (formats.fromDer chain) with
      | none =>
          refine ⟨trivial, seen, fun steady certificate certified => ?_⟩
          rw [steadily steady, loaded] at certified
          cases certified
      | some certificate =>
          refine ⟨trivial, fun _ => ⟨trivial, seen, fun steady other certified => ?_⟩⟩
          rw [steadily steady, loaded] at certified
          exact certified

theorem files_of_exec {β : Type} (http : Http) (effect : ReloadEffect Digest β)
    (state : Outside × Shared Digest × List Occurrence) :
    (ReloadEffect.exec http effect state).2.1.files = state.1.files := by
  cases effect with
  | inl effect => cases effect <;> rfl
  | inr effect => rfl

theorem files_of_run {α : Type} (http : Http) (program : Program (ReloadEffect Digest) α)
    (state : Outside × Shared Digest × List Occurrence) :
    (program.run (ReloadEffect.exec http) state).2.1.files = state.1.files := by
  induction program generalizing state with
  | done result => rfl
  | perform effect next ih => rw [run_perform, ih, files_of_exec]

variable [DecidableEq Digest]

theorem TlsSettled.reloadTls (force : Bool) (cert key : Bytes)
    {state : Shared Digest × List Occurrence} (settled : TlsSettled formats first state) :
    (reloadTls formats force cert key).Ensures (ReloadEffect.exec formats.http) (fun _ => True)
      (fun _ => TlsSettled formats first) state := by
  obtain ⟨shared, log⟩ := state
  rw [reloadTls_eq]
  refine ⟨trivial, fun before => ⟨trivial, fun later => ⟨trivial, fun _ => ?_⟩⟩⟩
  simp only [ReloadEffect.exec, FileEffect.exec, FileEffect.answer, FileEffect.occurrence,
    SharedEffect.exec, List.singleton_append]
  exact Ensures.ite (fun _ => ⟨trivial, fun _ => load_settles rfl⟩) fun _ =>
    ⟨trivial, settled.congr rfl rfl rfl⟩

theorem TlsSettled.reload (reloader : Reloader) (force : Bool)
    {state : Shared Digest × List Occurrence} (settled : TlsSettled formats first state) :
    (reloader.reload formats force).Ensures (ReloadEffect.exec formats.http) (fun _ => True)
      (fun _ => TlsSettled formats first) state := by
  have config : (ifSome reloader.config fun path => reloadConfig formats force path).Ensures
      (ReloadEffect.exec formats.http) (fun _ => True) (fun _ => TlsSettled formats first)
      state := by
    cases reloader.config with
    | none => exact ⟨trivial, settled⟩
    | some path =>
        exact (reloadConfig_ensures formats force path state).mono (fun _ _ => trivial)
          fun _ _ step => settled.configStep step
  refine config.bind fun _ state settled => ?_
  cases reloader.tls with
  | none => exact ⟨trivial, settled⟩
  | some files => exact settled.reloadTls force files.1 files.2

/-! ## A call without edits -/

theorem reloadTls_run {cert key : Bytes} {outside : Outside} {shared : Shared Digest}
    {log : List Occurrence} {certificate : CertifiedKey}
    (certified : certify formats (outside.files cert) (outside.files key) = some certificate)
    (served : formats.hash [outside.files cert, outside.files key] = shared.seen.2 →
      shared.certificate = some certificate) :
    ((reloadTls formats false cert key).run (ReloadEffect.exec formats.http)
      (outside, shared, log)).2.2.1.certificate = some certificate := by
  obtain ⟨chain, certs, loads⟩ := Option.bind_eq_some_iff.mp certified
  rw [reloadTls_eq]
  by_cases same : formats.hash [outside.files cert, outside.files key] = shared.seen.2
  · simp [ReloadEffect.exec, FileEffect.exec, FileEffect.answer, FileEffect.occurrence,
      SharedEffect.exec, same, served same]
  · simp [ReloadEffect.exec, FileEffect.exec, FileEffect.answer, FileEffect.occurrence,
      SharedEffect.exec, same, loadCertified_eq, certs, loads, ifSome, inShared]

theorem configHalf_keeps (config : Option Bytes) (force : Bool) (outside : Outside)
    (state : Shared Digest × List Occurrence) :
    ConfigStep state ((ifSome config fun path => reloadConfig formats force path).run
      (ReloadEffect.exec formats.http) (outside, state)).2.2 := by
  cases config with
  | none => exact .refl state
  | some path => exact (reloadConfig_ensures formats force path state).run outside

/-- After any run a call without edits ends with the certificate that the files hold,
unless the last load hashed what they hold now and read something else, or nothing was
loaded and the first hash was of what they hold now, but not the first certificate. -/
theorem tls_reload_converges (injective : Function.Injective formats.hash) {reloader : Reloader}
    {cert key : Bytes} (hasTls : reloader.tls = some (cert, key)) {outside : Outside}
    {shared : Shared Digest} {certHashed keyHashed : Option Bytes}
    (hashed : shared.seen.2 = formats.hash [certHashed, keyHashed])
    (moves : List (MonitorMove Outside Bool)) {certificate : CertifiedKey} :
    let now := Reloading.run formats reloader { outside := outside, inside := (shared, []) } moves
    now.holder = none →
      certify formats (now.outside.files cert) (now.outside.files key) = some certificate →
      (∀ load, lastLoad now.inside.2 = some load → load.cert = now.outside.files cert →
        load.key = now.outside.files key → load.IsSteady) →
      (lastLoad now.inside.2 = none → certHashed = now.outside.files cert →
        keyHashed = now.outside.files key → shared.certificate = some certificate) →
      ((reloader.reload formats false).run (ReloadEffect.exec formats.http)
        (now.outside, now.inside)).2.2.1.certificate = some certificate := by
  intro now free certified steady loaded
  have start : Monitor.Guarded (ReloadEffect.exec formats.http) (fun _ => True)
      (TlsSettled formats shared)
      ({ outside := outside, inside := (shared, []) } : Reloading Digest) := ⟨rfl, rfl⟩
  have settled : TlsSettled formats shared now.inside :=
    (start.run (fun force _ settled => settled.reload reloader force) moves).rest_holds free
  have step := @configHalf_keeps _ formats _ reloader.config false now.outside now.inside
  have sameFiles {certSeen keySeen : Option Bytes}
      (same : formats.hash [now.outside.files cert, now.outside.files key] =
        formats.hash [certSeen, keySeen]) :
      certSeen = now.outside.files cert ∧ keySeen = now.outside.files key := by
    obtain ⟨sameCert, sameRest⟩ := List.cons.inj (injective same)
    exact ⟨sameCert.symm, (List.cons.inj sameRest).1.symm⟩
  rw [Reloader.reload, run_bind, hasTls]
  refine reloadTls_run ?_ ?_
  · rw [files_of_run]
    exact certified
  · intro same
    rw [files_of_run, step.seen] at same
    rw [step.certificate]
    -- the hash was not found changed, so it is that of the last load, or the first one
    unfold TlsSettled at settled
    split at settled
    · next none =>
      obtain ⟨seen, kept⟩ := settled
      obtain ⟨sameCert, sameKey⟩ := sameFiles (same.trans (seen.trans hashed))
      exact kept.trans (loaded none sameCert sameKey)
    · next load isLast =>
      obtain ⟨seen, served⟩ := settled
      obtain ⟨sameCert, sameKey⟩ := sameFiles (same.trans seen)
      refine served (steady load isLast sameCert sameKey) certificate ?_
      rw [sameCert, sameKey]
      exact certified

end Convergence

/-! ## A key that is edited between hash and load -/

def certPath : Bytes := ascii "cert.pem"

def keyPath : Bytes := ascii "key.pem"

def pairOf (cert key : String) : Outside where
  files path :=
    if path = certPath then some (ascii cert)
    else if path = keyPath then some (ascii key)
    else none

/-- A reloader that serves the pair `A`, as its files were at startup. -/
def servingA : Reloading (List (Option Bytes)) where
  outside := pairOf "A" "A"
  inside := (⟨aTable, some ⟨[ascii "A"], ascii "A"⟩,
    ([], [some (ascii "A"), some (ascii "A")])⟩, [])

def tlsOnly : Reloader := ⟨none, some (certPath, keyPath)⟩

/-- One call that hashes the pair `B`, while the given key is loaded; the key of `B` is
there again afterwards. -/
def callWithKey (key : String) : List (MonitorMove Outside Bool) :=
  [.disturb fun _ => pairOf "B" "B", .call false, .enter 0, .advance, .advance, .advance, .advance,
    .disturb fun _ => pairOf "B" key, .advance, .advance, .advance, .leave,
    .disturb fun _ => pairOf "B" "B"]

def afterCallWithKey (key : String) : Reloading (List (Option Bytes)) :=
  Reloading.run abFormats tlsOnly servingA (callWithKey key)

theorem steady_load_is_served :
    ((tlsOnly.reload abFormats false).run (ReloadEffect.exec plainHttp)
      ((afterCallWithKey "B").outside, (afterCallWithKey "B").inside)).2.2.1.certificate =
        some ⟨[ascii "B"], ascii "B"⟩ := by
  have free : (afterCallWithKey "B").holder = none :=
    Option.isNone_iff_eq_none.mp (by decide +kernel)
  have injective : Function.Injective abFormats.hash := fun _ _ same => same
  -- the hashes of both files, then the loads, which are the newest entries
  have load : lastLoad (afterCallWithKey "B").inside.2 =
      some ⟨some (ascii "B"), some (ascii "B"), [some (ascii "B"), some (ascii "B")]⟩ := by
    decide +kernel
  have steady : ∀ last, lastLoad (afterCallWithKey "B").inside.2 = some last →
      last.IsSteady := by
    intro last isLast
    obtain rfl := Option.some.inj (load.symm.trans isLast)
    decide
  have certified : certify abFormats ((afterCallWithKey "B").outside.files certPath)
      ((afterCallWithKey "B").outside.files keyPath) = some ⟨[ascii "B"], ascii "B"⟩ := by
    decide +kernel
  have hashed : servingA.inside.1.seen.2 = abFormats.hash [some (ascii "A"), some (ascii "A")] :=
    rfl
  exact tls_reload_converges injective rfl hashed (callWithKey "B") free certified
    (fun last isLast _ _ => steady last isLast) fun none => by cases load.symm.trans none

/-- The failed load of another key is not repeated when the hashed pair is back. -/
theorem unsteady_load_keeps_old_certificate :
    (afterCallWithKey "C").holder.isNone = true ∧
      certify abFormats ((afterCallWithKey "C").outside.files certPath)
        ((afterCallWithKey "C").outside.files keyPath) = some ⟨[ascii "B"], ascii "B"⟩ ∧
      ((tlsOnly.reload abFormats false).run (ReloadEffect.exec plainHttp)
        ((afterCallWithKey "C").outside, (afterCallWithKey "C").inside)).2.2.1.certificate =
          some ⟨[ascii "A"], ascii "A"⟩ := by
  refine ⟨by decide +kernel, by decide +kernel, by decide +kernel⟩

end Ferryman.Server
