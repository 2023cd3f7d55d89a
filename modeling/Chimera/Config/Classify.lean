import Chimera.Config.Diff
import Chimera.Config.Patch
import Chimera.Config.Prepare

/-! How a change of documents is brought to a running core: not at all, by a patch, by
a reload, or by a new process; and the manager over this pipeline. -/

namespace Chimera.Config
open Chimera.Model Chimera.Manager

/-- `ConfigChange`; a patch comes with the leaves that verify it. -/
inductive Change where
  | noop
  | patch (patch : ConfigPatch) (projection : List (List String × Value))
  | reload
  | switch
  deriving DecidableEq

def Change.kind : Change → ConfigChange
  | .noop => .noop
  | .patch _ _ => .patch
  | .reload => .reload
  | .switch => .switch

mutual

def collectLeaves (path : List String) : Value → List (List String × Value)
  | .mapping entries => match entries with
    | [] => [(path, .mapping [])]
    | (key, value) :: rest => collectLeaves (path ++ [key]) value ++ collectEntries path rest
  | value => [(path, value)]

def collectEntries (path : List String) : List (String × Value) → List (List String × Value)
  | [] => []
  | (key, value) :: rest => collectLeaves (path ++ [key]) value ++ collectEntries path rest

end

/-! ## Patches -/

def isDnsListen (path : List String) : Bool := path.head? = some "dns" && path[1]? = some "listen"

def patchNestedPathIsSupported (path : List String) : Bool :=
  match path with
  | [] => false
  | root :: rest =>
    if root = "tun" then rest.head?.any tunPatchFields.contains
    else if root = "tuic-server" then rest.head?.any tuicServerPatchFields.contains
    else rest.isEmpty

def patchable (entry : DiffEntry) : Bool :=
  entry.new.isSome && entry.path.head?.any patchFields.contains &&
    patchNestedPathIsSupported entry.path

def reloadable (entry : DiffEntry) : Bool :=
  entry.path.head?.any reloadFields.contains && !isDnsListen entry.path &&
    !(entry.path.head? = some "dns" && entry.path.length = 1)

def filterMapping (value : Value) (allowed : List String) : Except Error Value :=
  match value with
  | .mapping entries => .ok (.mapping (entries.filter fun entry => allowed.contains entry.1))
  | _ => .error (.invalidConfig "patchable nested config must be a mapping")

/-- What a patch takes of a root field. -/
def patchRoot (root : String) (value : Value) : Except Error Value :=
  if root = "tun" then filterMapping value tunPatchFields
  else if root = "tuic-server" then filterMapping value tuicServerPatchFields
  else .ok value

/-- The document of a patch, unless a root field is not there. -/
def patchDocument (desired : Mapping) : List String → Mapping → Except Error (Option Mapping)
  | [], document => .ok (some document)
  | root :: rest, document =>
    match desired.get root with
    | none => .ok none
    | some value => do
      let value ← patchRoot root value
      patchDocument desired rest (document.insert root value)

/-- A nested field without a boolean `enable`. -/
def lacksEnable (document : Mapping) (root : String) : Bool :=
  (document.get root).any fun value =>
    ((value.asMapping.bind fun nested => nested.get "enable").bind Value.asBool).isNone

/-- The `BTreeSet` of the entries' first keys. -/
def changedRoots (changes : List DiffEntry) : List String :=
  (changes.filterMap fun entry => entry.path.head?).dedup.insertionSort (· ≤ ·)

def buildPatch (addresses : Addresses) (desired : Mapping) (changes : List DiffEntry) :
    Except Error Change := do
  match ← patchDocument desired (changedRoots changes) [] with
  | none => pure .switch
  | some document =>
    if ["tun", "tuic-server"].any (lacksEnable document) then pure .switch
    else match ConfigPatch.read addresses document with
      | none => pure .switch
      | some patch => pure (.patch patch (collectLeaves [] (.mapping patch.write)))

/-! ## Classification -/

def classifyDocuments (addresses : Addresses) (current desired : Mapping) : Except Error Change :=
  if dnsListen current ≠ dnsListen desired then .ok .switch
  else
    let changes := diff current desired
    if changes.isEmpty then .ok .noop
    else if changes.all patchable then buildPatch addresses desired changes
    else if changes.all reloadable then .ok .reload
    else .ok .switch

def processSpecChanged (current desired : InstanceSpec) : Bool :=
  current.core.kind ≠ desired.core.kind || current.core.binaryPath ≠ desired.core.binaryPath ||
    current.core.version ≠ desired.core.version || current.core.features ≠ desired.core.features ||
    current.workingDir ≠ desired.workingDir ||
    current.options.startupTimeout ≠ desired.options.startupTimeout ||
    current.options.health ≠ desired.options.health ||
    current.options.restartPolicy ≠ desired.options.restartPolicy ||
    current.options.backoff ≠ desired.options.backoff

def classify (addresses : Addresses) (current desired : ClassificationView Document) :
    Except Error Change :=
  if processSpecChanged current.spec desired.spec then .ok .switch
  else
    let sourceDiff := diff current.source.entries desired.source.entries
    if desired.spec.core.kind ≠ .mihomo then
      .ok (if sourceDiff.isEmpty && (diff current.effective.entries desired.effective.entries).isEmpty
        then .noop else .switch)
    else if sourceDiff.any fun entry =>
        entry.path.head?.any controllerFields.contains || isDnsListen entry.path then .ok .switch
    else classifyDocuments addresses current.effective.entries desired.effective.entries

/-- The patch that turns a bootstrap document into the full one, if one is needed. -/
def restorationPatch (addresses : Addresses) (bootstrap desired : Mapping) :
    Except Error (Option ConfigPatch) := do
  match ← classifyDocuments addresses bootstrap desired with
  | .noop => pure none
  | .patch patch _ => pure (some patch)
  | .reload | .switch => .error (.invalidConfig
      "graceful bootstrap cannot be restored losslessly with ConfigPatch")

/-! ## The manager -/

def nativeStore (platform : Platform) (dataDir : Utf8Path) : NativeStore Document where
  home := fun kind => joinPath (joinPath dataDir "native-store/v1") kind.display
  nativePaths := prepareNative platform dataDir

/-- A manager's setup over configuration documents; `dataDir` is where its native
store is, if it has one. -/
def configured (platform : Platform) (addresses : Addresses) (dataDir : Option Utf8Path)
    (setup : Setup Document) : Setup Document :=
  { setup with
    nativeStore := dataDir.map (nativeStore platform)
    prepareFull := fun snapshot epoch runtime settings =>
      prepare platform snapshot epoch runtime (some settings) false
    prepareBootstrap := fun snapshot epoch runtime settings =>
      prepare platform snapshot epoch runtime (some settings) true
    classify := fun current desired => (classify addresses current desired).map Change.kind
    restorationPatch := fun bootstrap desired =>
      (restorationPatch addresses bootstrap.entries desired.entries).map Option.isSome
    overlapBlock := fun document => overlapBlock document.entries
    textField := fun document key => (document.get key).bind Value.asStr }

/-! ## A host for concrete documents -/

def scalarText : Value → Option String
  | .null => some "null"
  | .bool b => some (if b then "true" else "false")
  | .number (.int n) => some (toString n)
  | .string s => some (if s = "" then "''" else s)
  | .number (.float _) | .sequence _ | .mapping _ => none

mutual

/-- Block style, for documents of plain scalars, mappings and sequences of scalars. -/
def yamlLines (indent : String) : List (String × Value) → Option String
  | [] => some ""
  | (key, value) :: rest => do
    let text ← yamlValue indent value
    let lines ← yamlLines indent rest
    some (indent ++ key ++ ":" ++ text ++ lines)

def yamlValue (indent : String) : Value → Option String
  | .mapping entries => do
    let lines ← yamlLines (indent ++ "  ") entries
    some ("\n" ++ lines)
  | .sequence items => do
    let texts ← items.mapM scalarText
    some ("\n" ++ String.join (texts.map fun text => indent ++ "- " ++ text ++ "\n"))
  | value => do
    let text ← scalarText value
    some (" " ++ text ++ "\n")

end

def unixPlatform : Platform where
  windows := false
  endpoint := fun epoch => .ok ("/run/chimera/core-" ++ epoch.display ++ ".sock")
  http := fun address => .ok (.http ("http://" ++ address ++ "/"))
  serialize := fun document => match yamlLines "" document with
    | some text => .ok (text.toList.map fun c => c.toNat.toUInt8)
    | none => .error (.invalidConfig "unsupported")

/-- Addresses that are already spelled as they are printed. -/
def plainAddresses : Addresses := ⟨some, some⟩

/-- A manager's options; its pipeline is the one of `configured`. -/
def documentSetup : Setup Document where
  localIpcPolicy := .prefer
  dns := none
  requiresDns := fun _ => false
  dnsTimeout := "10s"
  nativeStore := none
  path := fun _ => "/run/chimera/artifact"
  prepareFull := fun _ _ _ _ => .error .controllerMissing
  prepareBootstrap := fun _ _ _ _ => .error .controllerMissing
  classify := fun _ _ => .ok .switch
  restorationPatch := fun _ _ => .ok false
  overlapBlock := fun _ => none
  textField := fun _ _ => none
  encodeRecord := fun _ => .error "no host DNS"
  decodeRecord := fun _ => none

def mihomoSpec : InstanceSpec where
  core := ⟨.mihomo, "/opt/mihomo", none, []⟩
  configPath := "/etc/chimera/config.yaml"
  workingDir := "/var/lib/chimera"
  pidFile := none
  options := {}

end Chimera.Config
