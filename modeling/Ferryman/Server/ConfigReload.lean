import Ferryman.Server.Reload

/-!
# Which content the installed table comes from

The table that is installed at any moment was built from the last valid content
that a reload has read, over the table installed before it.
-/

set_option autoImplicit false

namespace Ferryman.Server

open Ferryman.Core Byte Bytes Program

variable {Digest : Type}

/-- The bytes are a config that passes every check. -/
def ValidContent (formats : Formats Digest) (raw : Bytes) : Prop :=
  ∃ cfg checked, parseConfig formats raw = some cfg ∧
    validateConfig formats.http cfg = .ok checked

def Occurrence.isInstall : Occurrence → Bool
  | .installed _ => true
  | _ => false

/-- The content and the table that are installed at the end of a log. Each table is
built from what was read right before it was installed, over the table installed
until then. -/
inductive Lineage (formats : Formats Digest) (log₀ : List Occurrence) (content₀ : Bytes)
    (table₀ : RouteTable) : List Occurrence → Bytes → RouteTable → Prop where
  | start : Lineage formats log₀ content₀ table₀ log₀ content₀ table₀
  | noted {log : List Occurrence} {content : Bytes} {table : RouteTable}
      {occurrence : Occurrence} :
      Lineage formats log₀ content₀ table₀ log content table → occurrence.isInstall = false →
        Lineage formats log₀ content₀ table₀ (occurrence :: log) content table
  | installed {log : List Occurrence} {content raw : Bytes} {table next : RouteTable}
      {cfg : ConfigToml} {heap after : Heap} :
      Lineage formats log₀ content₀ table₀ (.configRead (some raw) :: log) content table →
        parseConfig formats raw = some cfg →
        buildTable formats.http cfg (some table) heap = (.ok next, after) →
        Lineage formats log₀ content₀ table₀ (.installed next :: .configRead (some raw) :: log)
          raw next

/-- Some build has made the table from the content. -/
def BuiltFromContent (formats : Formats Digest) (content : Bytes) (table : RouteTable) : Prop :=
  ∃ cfg prev heap after, parseConfig formats content = some cfg ∧
    buildTable formats.http cfg prev heap = (.ok table, after)

theorem Lineage.built {formats : Formats Digest} {log₀ log : List Occurrence}
    {content₀ content : Bytes} {table₀ table : RouteTable}
    (lineage : Lineage formats log₀ content₀ table₀ log content table)
    (built : BuiltFromContent formats content₀ table₀) :
    BuiltFromContent formats content table := by
  induction lineage with
  | start => exact built
  | noted _ _ ih => exact ih
  | installed _ parsed built => exact ⟨_, _, _, _, parsed, built⟩

theorem Lineage.read {formats : Formats Digest} {log₀ log : List Occurrence}
    {content₀ content : Bytes} {table₀ table : RouteTable}
    (lineage : Lineage formats log₀ content₀ table₀ log content table) :
    content = content₀ ∨ .configRead (some content) ∈ log := by
  induction lineage with
  | start => exact .inl rfl
  | noted _ _ ih => exact ih.imp_right (List.mem_cons_of_mem _)
  | installed => exact .inr (by simp)

/-- What the last call that read the config file has read; before any call, what the
file held when the reloader was made. -/
def lastRead (content₀ : Bytes) : List Occurrence → Option Bytes
  | [] => some content₀
  | .configRead raw :: _ => raw
  | _ :: log => lastRead content₀ log

section Convergence

variable {formats : Formats Digest} {content₀ : Bytes} {table₀ : RouteTable}

def Traced (formats : Formats Digest) (content₀ : Bytes) (table₀ : RouteTable)
    (state : Shared Digest × List Occurrence) : Prop :=
  ∃ content, Lineage formats [] content₀ table₀ state.2 content state.1.table

/-- Between two calls the hash is that of the last content read, and if that content
is valid, the table comes from it. -/
structure Settled (formats : Formats Digest) (content₀ : Bytes) (table₀ : RouteTable)
    (state : Shared Digest × List Occurrence) : Prop where
  source : ∃ content, Lineage formats [] content₀ table₀ state.2 content state.1.table ∧
    ∀ raw, lastRead content₀ state.2 = some raw → ValidContent formats raw → content = raw
  seen : state.1.seen.1 = formats.hash [lastRead content₀ state.2]

theorem Settled.traced {state : Shared Digest × List Occurrence}
    (settled : Settled formats content₀ table₀ state) : Traced formats content₀ table₀ state := by
  obtain ⟨content, lineage, -⟩ := settled.source
  exact ⟨content, lineage⟩

theorem Lineage.tlsStep {formats : Formats Digest} {log₀ : List Occurrence}
    {content₀ content : Bytes} {table₀ : RouteTable}
    {before after : Shared Digest × List Occurrence}
    (lineage : Lineage formats log₀ content₀ table₀ before.2 content before.1.table)
    (step : TlsStep before after) :
    Lineage formats log₀ content₀ table₀ after.2 content after.1.table := by
  obtain ⟨sameTable, -, tls, grows, each⟩ := step
  rw [sameTable, grows]
  clear grows
  induction tls with
  | nil => exact lineage
  | cons occurrence tls ih =>
      refine .noted (ih fun later member => each later (List.mem_cons_of_mem _ member)) ?_
      have isTls := each occurrence List.mem_cons_self
      cases occurrence <;> first | rfl | cases isTls

theorem lastRead_tls {tls log : List Occurrence}
    (each : ∀ occurrence ∈ tls, occurrence.isTls = true) :
    lastRead content₀ (tls ++ log) = lastRead content₀ log := by
  induction tls with
  | nil => rfl
  | cons occurrence tls ih =>
      have isTls := each occurrence List.mem_cons_self
      have rest := ih fun later member => each later (List.mem_cons_of_mem _ member)
      cases occurrence <;> first | exact rest | cases isTls

theorem Settled.tlsStep {before after : Shared Digest × List Occurrence}
    (settled : Settled formats content₀ table₀ before) (step : TlsStep before after) :
    Settled formats content₀ table₀ after := by
  obtain ⟨⟨content, lineage, latest⟩, seen⟩ := settled
  have sameRead : lastRead content₀ after.2 = lastRead content₀ before.2 := by
    obtain ⟨tls, grows, each⟩ := step.log
    rw [grows, lastRead_tls each]
  constructor
  case source => exact ⟨content, lineage.tlsStep step, sameRead ▸ latest⟩
  case seen => rw [step.seen, seen, sameRead]

/-- A call that acts on what it has read installs it if it is valid. -/
theorem ensures_install {raw : Option Bytes} {content : Bytes} {shared : Shared Digest}
    {log : List Occurrence}
    (lineage : Lineage formats [] content₀ table₀ (.configRead raw :: log) content shared.table)
    (seen : shared.seen.1 = formats.hash [raw]) :
    ((raw.bind (parseConfig formats)).elim (done ()) fun cfg =>
      perform (.inr .loadTable) fun prev =>
        perform (.inl (.buildTable cfg (some prev))) fun built =>
          built.toOption.elim (done ()) fun table =>
            perform (.inr (.storeTable table)) done).Ensures (ReloadEffect.exec formats.http)
      (Traced formats content₀ table₀) (fun _ => Settled formats content₀ table₀)
      (shared, .configRead raw :: log) := by
  have traced : Traced formats content₀ table₀ (shared, .configRead raw :: log) :=
    ⟨content, lineage⟩
  have keptIf (invalid : ∀ bytes, raw = some bytes → ¬ ValidContent formats bytes) :
      Settled formats content₀ table₀ (shared, .configRead raw :: log) :=
    ⟨⟨content, lineage, fun bytes same valid => absurd valid (invalid bytes same)⟩, seen⟩
  cases parsed : raw.bind (parseConfig formats) with
  | none =>
      refine ⟨traced, keptIf ?_⟩
      intro bytes same valid
      subst same
      obtain ⟨cfg, checked, accepted, -⟩ := valid
      rw [Option.bind_some, accepted] at parsed
      cases parsed
  | some cfg =>
      obtain ⟨bytes, rfl, accepted⟩ := Option.bind_eq_some_iff.mp parsed
      refine ⟨traced, fun _ => ⟨traced, fun outside => ?_⟩⟩
      rcases built : buildTable formats.http cfg (some shared.table) outside.heap with
        ⟨error | next, after⟩
      · simp only [ReloadEffect.exec, FileEffect.exec, FileEffect.answer, FileEffect.occurrence,
          SharedEffect.exec, built, Except.toOption, Option.elim_none, List.nil_append]
        refine ⟨traced, keptIf ?_⟩
        intro _ same isValid
        cases same
        obtain ⟨cfg', checked, accepted', valid⟩ := isValid
        obtain rfl := Option.some.inj (accepted.symm.trans accepted')
        rw [(buildTable_rejects built).1] at valid
        cases valid
      · simp only [ReloadEffect.exec, FileEffect.exec, FileEffect.answer, FileEffect.occurrence,
          SharedEffect.exec, built, Except.toOption, Option.elim_some, List.nil_append]
        have installed := lineage.installed accepted built
        exact ⟨traced, fun _ => ⟨⟨bytes, installed⟩, ⟨bytes, installed, fun _ same _ =>
          Option.some.inj same⟩, seen⟩⟩

/-- A reloader that is made while the config file holds `content₀` has seen it. -/
theorem new_settled {path : Bytes} {tls : Option (Bytes × Bytes)}
    {certificate : Option CertifiedKey} {outside₀ outside : Outside}
    {changes : Nat → Outside → Outside} {shared : Shared Digest} {log : List Occurrence}
    (asLoaded : outside₀.files path = some content₀)
    (unedited : ∀ index outside, (changes index outside).files path = outside.files path)
    (constructed : (Reloader.new formats ⟨some path, tls⟩ table₀ certificate).runAmid
      (FileEffect.exec formats.http) changes (outside₀, []) = (shared, outside, log)) :
    Settled formats content₀ table₀ (shared, []) := by
  have known : (changes 0 outside₀).files path = some content₀ := (unedited 0 _).trans asLoaded
  have result := (new_ensures formats (Reloader.tlsFiles ⟨some path, tls⟩) table₀ certificate
    ((changes 0 outside₀).files path)
    [.digestRead ((changes 0 outside₀).files path)]).runAmid (fun index => changes (index + 1))
      (changes 0 outside₀)
  rw [new_eq] at constructed
  replace constructed := congrArg Prod.fst constructed
  obtain ⟨sameTable, seen, -⟩ := constructed ▸ result
  constructor
  case source =>
      refine ⟨content₀, sameTable ▸ .start, fun raw same _ => Option.some.inj same⟩
  case seen => rw [seen, known]; rfl

variable [DecidableEq Digest]

theorem Settled.reloadConfig (injective : Function.Injective formats.hash) (force : Bool)
    (path : Bytes) {state : Shared Digest × List Occurrence}
    (settled : Settled formats content₀ table₀ state) :
    (reloadConfig formats force path).Ensures (ReloadEffect.exec formats.http)
      (Traced formats content₀ table₀) (fun _ => Settled formats content₀ table₀) state := by
  obtain ⟨shared, log⟩ := state
  obtain ⟨⟨content, lineage, latest⟩, seen⟩ := settled
  rw [reloadConfig_eq]
  refine ⟨⟨content, lineage⟩, fun outside => ?_⟩
  have known : Lineage formats [] content₀ table₀ (.configRead (outside.files path) :: log) content
    shared.table := .noted lineage rfl
  simp only [ReloadEffect.exec, FileEffect.exec, FileEffect.answer, FileEffect.occurrence]
  refine ⟨⟨content, known⟩, fun _ => ?_⟩
  simp only [ReloadEffect.exec, SharedEffect.exec, List.singleton_append]
  refine Ensures.ite (fun _ => ⟨⟨content, known⟩, fun _ => ensures_install known rfl⟩) ?_
  -- a skipped content has the hash of the last one read, so it is that one
  intro skipped
  have sameHash : formats.hash [outside.files path] = shared.seen.1 := by
    by_contra changed
    exact skipped (.inr changed)
  have same : outside.files path = lastRead content₀ log := by
    simpa using injective (sameHash.trans seen)
  rw [same] at known sameHash ⊢
  exact ⟨⟨content, known⟩, ⟨content, known, latest⟩, sameHash.symm⟩

theorem Settled.reload (injective : Function.Injective formats.hash) (reloader : Reloader)
    (force : Bool) {state : Shared Digest × List Occurrence}
    (settled : Settled formats content₀ table₀ state) :
    (reloader.reload formats force).Ensures (ReloadEffect.exec formats.http)
      (Traced formats content₀ table₀) (fun _ => Settled formats content₀ table₀) state := by
  have config : (ifSome reloader.config fun path => Server.reloadConfig formats force path).Ensures
      (ReloadEffect.exec formats.http) (Traced formats content₀ table₀)
      (fun _ => Settled formats content₀ table₀) state := by
    cases reloader.config with
    | none => exact ⟨settled.traced, settled⟩
    | some path => exact settled.reloadConfig injective force path
  refine config.bind fun _ state settled => ?_
  cases reloader.tls with
  | none => exact ⟨settled.traced, settled⟩
  | some files =>
      exact (reloadTls_ensures formats force files.1 files.2 state).mono
        (fun _ step => (settled.tlsStep step).traced) fun _ _ step => settled.tlsStep step

/-- At every moment of every run the installed table comes from a valid content, which
is the first one or was read by a reload, and each new table was built over the
one before it. When no reload is under way and the last content read is valid,
the table comes from that content. -/
theorem config_reload_converges (injective : Function.Injective formats.hash) {path : Bytes}
    {tls : Option (Bytes × Bytes)} {certificate : Option CertifiedKey} {outside₀ outside : Outside}
    {changes : Nat → Outside → Outside} {shared : Shared Digest} {log : List Occurrence}
    (built : BuiltFromContent formats content₀ table₀)
    (asLoaded : outside₀.files path = some content₀)
    (unedited : ∀ index outside, (changes index outside).files path = outside.files path)
    (constructed : (Reloader.new formats ⟨some path, tls⟩ table₀ certificate).runAmid
      (FileEffect.exec formats.http) changes (outside₀, []) = (shared, outside, log))
    (moves : List (MonitorMove Outside Bool)) :
    let now := Reloading.run formats ⟨some path, tls⟩
      { outside := outside, inside := (shared, []) } moves
    ∃ content, Lineage formats [] content₀ table₀ now.inside.2 content now.inside.1.table ∧
      BuiltFromContent formats content now.inside.1.table ∧
      (content = content₀ ∨ .configRead (some content) ∈ now.inside.2) ∧
      (now.holder = none → ∀ raw, lastRead content₀ now.inside.2 = some raw →
        ValidContent formats raw → content = raw) := by
  intro now
  have start : Monitor.Guarded (ReloadEffect.exec formats.http) (Traced formats content₀ table₀)
      (Settled formats content₀ table₀)
      ({ outside := outside, inside := (shared, []) } : Reloading Digest) :=
    new_settled asLoaded unedited constructed
  have guarded : now.Guarded (ReloadEffect.exec formats.http) (Traced formats content₀ table₀)
      (Settled formats content₀ table₀) :=
    start.run (fun force _ settled => settled.reload injective _ force) moves
  cases free : now.holder with
  | none =>
      obtain ⟨content, lineage, latest⟩ := (guarded.rest_holds free).source
      exact ⟨content, lineage, lineage.built built, lineage.read, fun _ => latest⟩
  | some program =>
      obtain ⟨content, lineage⟩ := guarded.always_holds fun _ => Settled.traced
      exact ⟨content, lineage, lineage.built built, lineage.read, fun isFree => (by cases isFree)⟩

end Convergence

/-- Formats in which two config texts are known, a certificate fits the key with the
same text, and hashing keeps everything. -/
def twoConfigs (first second : String) (firstConfig secondConfig : ConfigToml) :
    Formats (List (Option Bytes)) where
  http := plainHttp
  toml text :=
    if text = first then some firstConfig else if text = second then some secondConfig else none
  pemCerts raw := some [raw]
  pemKey raw := some raw
  fromDer chain key := if chain = [key] then some ⟨chain, key⟩ else none
  hash contents := contents

def aText : String := "[[routes]]\npath_prefix = \"/a\"\nupstream = \"http://a.local\"\n"

def bText : String := "[[routes]]\npath_prefix = \"/b\"\nupstream = \"http://b.local\"\n"

def oneRouteConfig (pathPrefix upstream : String) : ConfigToml where
  routes := [{ pathPrefix := ascii pathPrefix, upstream := ascii upstream }]

def abFormats : Formats (List (Option Bytes)) :=
  twoConfigs aText bText (oneRouteConfig "/a" "http://a.local")
    (oneRouteConfig "/b" "http://b.local")

def configPath : Bytes := ascii "config.toml"

def holding (text : String) : Outside where
  files path := if path = configPath then some (ascii text) else none

def aTable : RouteTable :=
  (buildTable plainHttp (oneRouteConfig "/a" "http://a.local") none {}).1.toOption.getD
    (RouteTable.new [] (.fromSecs 30))

theorem aTable_built : BuiltFromContent abFormats (ascii aText) aTable := by
  have accepted : (buildTable plainHttp (oneRouteConfig "/a" "http://a.local") none
    {}).1.toOption.isSome = true := by decide +kernel
  refine ⟨oneRouteConfig "/a" "http://a.local", none, {}, _, by decide +kernel,
    Prod.ext ?_ rfl⟩
  unfold aTable
  cases built : (buildTable plainHttp (oneRouteConfig "/a" "http://a.local") none {}).1 with
  | error reason => simp [built, Except.toOption] at accepted
  | ok table => exact built

theorem bText_valid : ValidContent abFormats (ascii bText) := by
  have accepted : (validateConfig plainHttp
      (oneRouteConfig "/b" "http://b.local")).toOption.isSome = true := by decide +kernel
  cases checked : validateConfig plainHttp (oneRouteConfig "/b" "http://b.local") with
  | error reason => simp [checked, Except.toOption] at accepted
  | ok result => exact ⟨_, result, by decide +kernel, checked⟩

def afterEdit : Reloading (List (Option Bytes)) :=
  Reloading.run abFormats ⟨some configPath, none⟩
    { outside := holding aText, inside := (⟨aTable, none, ([some (ascii aText)], [])⟩, []) }
    ([.disturb fun _ => holding bText, .call false, .enter 0] ++ List.replicate 6 .advance ++
      [.leave])

theorem edited_config_is_installed :
    afterEdit.holder = none ∧ Lineage abFormats [] (ascii aText) aTable afterEdit.inside.2
      (ascii bText) afterEdit.inside.1.table := by
  have evaluated : afterEdit.holder.isNone = true ∧
    lastRead (ascii aText) afterEdit.inside.2 = some (ascii bText) := by decide +kernel
  have free : afterEdit.holder = none := Option.isNone_iff_eq_none.mp evaluated.1
  have constructed : (Reloader.new abFormats ⟨some configPath, none⟩ aTable none).runAmid
      (FileEffect.exec plainHttp) (fun _ outside => outside) (holding aText, []) =
        (⟨aTable, none, ([some (ascii aText)], [])⟩, holding aText,
          [.digestRead (some (ascii aText))]) := rfl
  obtain ⟨content, lineage, -, -, settled⟩ := config_reload_converges (fun _ _ same => same)
    aTable_built rfl (fun _ _ => rfl) constructed
    ([.disturb fun _ => holding bText, .call false, .enter 0] ++ List.replicate 6 .advance ++
      [.leave])
  obtain rfl := settled free (ascii bText) evaluated.2 bText_valid
  exact ⟨free, lineage⟩

end Ferryman.Server
