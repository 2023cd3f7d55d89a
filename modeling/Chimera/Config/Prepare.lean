import Chimera.Config.Mihomo

/-! The effective document of an epoch: the controller keys shared by all cores, their
rewrite to the manager's own endpoint, and the pipeline that prepares a document for a
launch. -/

namespace Chimera.Config
open Chimera.Model Chimera.Manager

/-! ## The controller -/

def externalController : String := "external-controller"
def externalControllerPipe : String := "external-controller-pipe"
def externalControllerUnix : String := "external-controller-unix"
def externalControllerTls : String := "external-controller-tls"
def secretField : String := "secret"

def controllerFields : List String :=
  [externalController, externalControllerTls, externalControllerPipe, externalControllerUnix,
    secretField]

inductive RawController where
  | pipe (path : String)
  | unix (path : String)
  | http (address : String)
  deriving DecidableEq, Repr

structure ConfigInfo where
  controller : Option RawController
  secret : Option String
  deriving DecidableEq, Repr

/-- The platform, and what is outside of the crate or asked of the host. -/
structure Platform where
  windows : Bool
  /-- `managed_endpoint_path`, with `validate_socket_path` where there are sockets. -/
  endpoint : Epoch → Except Error String
  /-- `clash_api::Host::http`. -/
  http : String → Except Error Host
  /-- `serde_yaml_ng::to_string`. -/
  serialize : Mapping → Except Error (List UInt8)

/-- The key of the transport that the platform has besides HTTP. -/
def Platform.localField (platform : Platform) : String :=
  if platform.windows then externalControllerPipe else externalControllerUnix

def strValue (document : Mapping) (key : String) : Option String :=
  ((document.get key).bind Value.asStr).filter (· ≠ "")

def inspectHttp (document : Mapping) : ConfigInfo where
  controller := (strValue document externalController).map .http
  secret := strValue document secretField

def inspect (platform : Platform) (document : Mapping) : ConfigInfo where
  controller :=
    let raw := if platform.windows then (strValue document externalControllerPipe).map .pipe
      else (strValue document externalControllerUnix).map .unix
    raw.or ((strValue document externalController).map .http)
  secret := strValue document secretField

/-- `str::rsplit_once` at a colon. -/
def rsplitColon (text : String) : Option (String × String) :=
  let reversed := text.toList.reverse
  if reversed.contains ':' then
    some (String.ofList ((reversed.dropWhile (· ≠ ':')).drop 1).reverse,
      String.ofList (reversed.takeWhile (· ≠ ':')).reverse)
  else none

def probeAddress (address : String) : String :=
  match rsplitColon address with
  | some (host, port) =>
    if ["0.0.0.0", "::", "[::]", ""].contains host then "127.0.0.1:" ++ port else address
  | none => address

def resolveController (platform : Platform) (info : ConfigInfo) : Except Error ResolvedController :=
  match info.controller with
  | none => .error .controllerMissing
  | some (.pipe path) => .ok ⟨.namedPipe path, info.secret⟩
  | some (.unix path) => .ok ⟨.unixSocket path, info.secret⟩
  | some (.http address) => do
    let host ← platform.http (probeAddress address)
    pure ⟨host, info.secret⟩

def rewriteManagedController (platform : Platform) (document : Mapping) (endpoint : String)
    (keepHttp : Bool) : Mapping :=
  let kept := [externalController, externalControllerTls, externalControllerPipe,
    externalControllerUnix].foldl (fun document field =>
      if !(field = externalController || field = externalControllerTls) || !keepHttp then
        document.remove field
      else document) document
  kept.insert platform.localField (.string endpoint)

theorem get_rewriteManagedController (platform : Platform) {document : Mapping} {endpoint : String}
    {keepHttp : Bool} {key : String} :
    (rewriteManagedController platform document endpoint keepHttp).get key =
      if key = platform.localField then some (.string endpoint)
      else if key = externalControllerPipe ∨ key = externalControllerUnix ∨
        ((key = externalController ∨ key = externalControllerTls) ∧ keepHttp = false) then none
      else document.get key := by
  rw [rewriteManagedController, Mapping.get_insert]
  by_cases hlocal : key = platform.localField
  · rw [if_pos hlocal, if_pos hlocal]
  rw [if_neg hlocal, if_neg hlocal]
  cases keepHttp with
  | true =>
    have hkept : [externalController, externalControllerTls, externalControllerPipe,
        externalControllerUnix].foldl (fun document field =>
          if !(field = externalController || field = externalControllerTls) || !true then
            document.remove field
          else document) document =
        (document.remove externalControllerPipe).remove externalControllerUnix := by
      simp [externalController, externalControllerTls, externalControllerPipe,
        externalControllerUnix]
    rw [hkept, Mapping.get_remove, Mapping.get_remove]
    by_cases hunix : key = externalControllerUnix
    · simp [hunix]
    · by_cases hpipe : key = externalControllerPipe
      · simp [hpipe]
      · simp [hunix, hpipe]
  | false =>
    have hkept : [externalController, externalControllerTls, externalControllerPipe,
        externalControllerUnix].foldl (fun document field =>
          if !(field = externalController || field = externalControllerTls) || !false then
            document.remove field
          else document) document =
        (((document.remove externalController).remove externalControllerTls).remove
          externalControllerPipe).remove externalControllerUnix := by
      simp
    rw [hkept, Mapping.get_remove, Mapping.get_remove, Mapping.get_remove, Mapping.get_remove]
    by_cases hunix : key = externalControllerUnix
    · simp [hunix]
    · by_cases hpipe : key = externalControllerPipe
      · simp [hpipe]
      · by_cases htls : key = externalControllerTls
        · simp [htls]
        · by_cases hhttp : key = externalController
          · simp [hhttp]
          · simp [hunix, hpipe, htls, hhttp]

theorem rewriteManagedController_canonical {platform : Platform} {document : Mapping}
    {endpoint : String} {keepHttp : Bool} (h : document.Canonical) :
    (rewriteManagedController platform document endpoint keepHttp).Canonical := by
  have hremoved : ∀ (fields : List String) (document : Mapping), document.Canonical →
      (fields.foldl (fun document field =>
        if !(field = externalController || field = externalControllerTls) || !keepHttp then
          document.remove field
        else document) document).Canonical := by
    intro fields
    induction fields with
    | nil => exact fun _ h => h
    | cons field rest ih =>
      intro document h
      refine ih _ ?_
      simp only
      split
      · exact h.remove
      · exact h
  exact (hremoved _ _ h).insert rfl

/-! ## Native paths -/

/-- `Utf8Path::join` of a relative path. -/
def joinPath (base path : Utf8Path) : Utf8Path :=
  if base = "" || base.toList.getLast? = some '/' then base ++ path else base ++ "/" ++ path

def isRelative (path : Utf8Path) : Bool := path.toList.head? ≠ some '/'

def rebase (source : Utf8Path) : Value → Value
  | .string path =>
    if path ≠ "" && !path.toList.contains '\n' && !decide ("-----BEGIN ".toList <+: path.toList)
        && !decide ("://".toList <:+: path.toList) && isRelative path then
      .string (joinPath source path)
    else .string path
  | value => value

/-- `get_mut`: the value under a key, if there is one, is changed in place. -/
def Mapping.modify (document : Mapping) (key : String) (f : Value → Value) : Mapping :=
  match document.get key with
  | some value => document.insert key (f value)
  | none => document

/-- A change of a value that is a mapping. -/
def withMapping (f : Mapping → Mapping) : Value → Value
  | .mapping m => .mapping (f m)
  | value => value

/-- A change of the items of a value that is a sequence. -/
def withItems (f : Value → Value) : Value → Value
  | .sequence items => .sequence (items.map f)
  | value => value

def certificatePaths (source : Utf8Path) (document : Mapping) : Mapping :=
  let document := (document.modify "certificate" (rebase source)).modify "private-key"
    (rebase source)
  document.modify "client-auth-cert" fun value => match value with
    | .sequence items => .sequence (items.map (rebase source))
    | value => rebase source value

def providerPaths (source : Utf8Path) (provider : Mapping) : Mapping :=
  if (provider.get "type").bind Value.asStr ≠ some "http" then
    provider.modify "path" (rebase source)
  else provider

def proxyPaths (source : Utf8Path) (proxy : Mapping) : Mapping :=
  match (proxy.get "type").bind Value.asStr with
  | some kind =>
    if kind = "ssh" then proxy.modify "private-key" (rebase source)
    else if ["vmess", "vless", "trojan", "hysteria2", "tuic", "anytls"].contains kind then
      ((certificatePaths source proxy).modify "realm-opts"
        (withMapping (certificatePaths source))).modify "xhttp-opts"
        (withMapping fun opts => opts.modify "download-settings"
          (withMapping (certificatePaths source)))
    else if kind = "zerotier" then proxy.modify "planet" (rebase source)
    else proxy
  | none => proxy

def listenPaths (source : Utf8Path) (listen : Mapping) : Mapping :=
  ["doh", "dot", "doh3"].foldl (fun listen kind => listen.modify kind (withMapping fun config =>
    ["ca-cert", "ca-key"].foldl (fun config key => config.modify key (rebase source)) config)) listen

def rewritePaths (kind : CoreKind) (document : Mapping) (source : Utf8Path) : Mapping :=
  let document := ["external-ui", "mmdb", "geosite", "asn-mmdb"].foldl
    (fun document field => document.modify field (rebase source)) document
  let document := ["proxy-providers", "rule-providers"].foldl (fun document field =>
    document.modify field (withMapping fun providers =>
      providers.map fun entry => (entry.1, withMapping (providerPaths source) entry.2))) document
  let document := ["tls", "tuic-server", "ss-config"].foldl (fun document field =>
    document.modify field (withMapping (certificatePaths source))) document
  let document := document.modify "listeners" (withItems (withMapping (certificatePaths source)))
  let document := document.modify "proxies" (withItems (withMapping (proxyPaths source)))
  if kind = .clashRust || kind = .chimeraClient then
    document.modify "dns" (withMapping fun dns =>
      dns.modify "listen" (withMapping (listenPaths source)))
  else document

section NativePaths

variable {document : Mapping} {source : Utf8Path} {key other : String} {f : Value → Value}

theorem get_modify : (document.modify key f).get other =
    if other = key then (document.get key).map f else document.get other := by
  unfold Mapping.modify
  cases h : document.get key with
  | none =>
    by_cases hother : other = key
    · rw [if_pos hother, hother, h]
      rfl
    · rw [if_neg hother]
  | some value =>
    simp only [Mapping.get_insert, Option.map_some]

/-- The change keeps values canonical. -/
def Tidy (f : Value → Value) : Prop := ∀ value, value.canonical = true → (f value).canonical = true

theorem modify_canonical (key : String) (hf : Tidy f) (h : document.Canonical) :
    (document.modify key f).Canonical := by
  unfold Mapping.modify
  split
  · rename_i value hvalue
    exact h.insert (hf value (h.of_get hvalue))
  · exact h

theorem modifyAll_canonical (keys : List String) (hf : Tidy f) (h : document.Canonical) :
    (keys.foldl (fun document key => document.modify key f) document).Canonical := by
  induction keys generalizing document with
  | nil => exact h
  | cons key rest ih => exact ih (modify_canonical key hf h)

theorem get_modifyAll {keys : List String} (hother : other ∉ keys) :
    Mapping.get (keys.foldl (fun document key => document.modify key f) document) other =
      document.get other := by
  induction keys generalizing document with
  | nil => rfl
  | cons key rest ih =>
    rw [List.mem_cons, not_or] at hother
    rw [List.foldl_cons, ih hother.2, get_modify, if_neg hother.1]

theorem rebase_tidy (source : Utf8Path) : Tidy (rebase source) := by
  intro value h
  unfold rebase
  split
  · split
    · rfl
    · rfl
  · exact h

theorem withMapping_tidy {g : Mapping → Mapping}
    (hg : ∀ m : Mapping, m.Canonical → (g m).Canonical) : Tidy (withMapping g) := by
  intro value h
  cases value with
  | mapping m => exact hg m h
  | null | bool _ | number _ | string _ | sequence _ => exact h

theorem withItems_tidy (hf : Tidy f) : Tidy (withItems f) := by
  intro value h
  cases value with
  | sequence items =>
    change Value.canonicalItems (items.map f) = true
    have hitems := Value.canonicalItems_iff.1 (show Value.canonicalItems items = true from h)
    rw [Value.canonicalItems_iff]
    intro v hv
    obtain ⟨item, hitem, rfl⟩ := List.mem_map.1 hv
    exact hf item (hitems item hitem)
  | null | bool _ | number _ | string _ | mapping _ => exact h

theorem certificatePaths_canonical (source : Utf8Path) (h : document.Canonical) :
    (certificatePaths source document).Canonical := by
  refine modify_canonical _ ?_ (modify_canonical _ (rebase_tidy source)
    (modify_canonical _ (rebase_tidy source) h))
  intro value hvalue
  cases value with
  | sequence items => exact withItems_tidy (rebase_tidy source) (.sequence items) hvalue
  | null | bool _ | number _ | string _ | mapping _ => exact rebase_tidy source _ hvalue

theorem providerPaths_canonical (source : Utf8Path) (h : document.Canonical) :
    (providerPaths source document).Canonical := by
  unfold providerPaths
  split
  · exact modify_canonical _ (rebase_tidy source) h
  · exact h

theorem proxyPaths_canonical (source : Utf8Path) (h : document.Canonical) :
    (proxyPaths source document).Canonical := by
  unfold proxyPaths
  split
  · split
    · exact modify_canonical _ (rebase_tidy source) h
    · split
      · have hcertificates : Tidy (withMapping (certificatePaths source)) :=
          withMapping_tidy fun _ h => certificatePaths_canonical source h
        refine modify_canonical _ (withMapping_tidy fun opts hopts => ?_)
          (modify_canonical _ hcertificates (certificatePaths_canonical source h))
        exact modify_canonical _ hcertificates hopts
      · split
        · exact modify_canonical _ (rebase_tidy source) h
        · exact h
  · exact h

theorem listenPaths_canonical (source : Utf8Path) (h : document.Canonical) :
    (listenPaths source document).Canonical :=
  modifyAll_canonical _ (withMapping_tidy fun _ h =>
    modifyAll_canonical _ (rebase_tidy source) h) h

theorem mapValues_canonical (hf : Tidy f) (h : document.Canonical) :
    Mapping.Canonical (document.map fun entry => (entry.1, f entry.2)) := by
  obtain ⟨hordered, hentries⟩ := Mapping.canonical_iff.1 h
  refine Mapping.canonical_iff.2 ⟨List.Pairwise.map _ (fun _ _ h => h) hordered, ?_⟩
  intro entry hentry
  obtain ⟨before, hbefore, rfl⟩ := List.mem_map.1 hentry
  exact hf before.2 (hentries before hbefore)

theorem rewritePaths_canonical (kind : CoreKind) (source : Utf8Path) (h : document.Canonical) :
    (rewritePaths kind document source).Canonical := by
  have hcertificates : Tidy (withMapping (certificatePaths source)) :=
    withMapping_tidy fun _ h => certificatePaths_canonical source h
  have hfiles := modifyAll_canonical ["external-ui", "mmdb", "geosite", "asn-mmdb"]
    (rebase_tidy source) h
  have hproviders := modifyAll_canonical ["proxy-providers", "rule-providers"]
    (withMapping_tidy fun _ h => mapValues_canonical
      (withMapping_tidy fun _ h => providerPaths_canonical source h) h) hfiles
  have hservers := modifyAll_canonical ["tls", "tuic-server", "ss-config"] hcertificates hproviders
  have hlisteners := modify_canonical "listeners" (withItems_tidy hcertificates) hservers
  have hproxies := modify_canonical "proxies" (withItems_tidy
    (withMapping_tidy fun _ h => proxyPaths_canonical source h)) hlisteners
  unfold rewritePaths
  simp only
  split
  · exact modify_canonical _ (withMapping_tidy fun _ h => modify_canonical _
      (withMapping_tidy fun _ h => listenPaths_canonical source h) h) hproxies
  · exact hproxies

/-- The fields that hold paths; the controller's are not among them. -/
def pathFields : List String :=
  ["external-ui", "mmdb", "geosite", "asn-mmdb", "proxy-providers", "rule-providers", "tls",
    "tuic-server", "ss-config", "listeners", "proxies", "dns"]

theorem get_rewritePaths {kind : CoreKind} (hkey : key ∉ pathFields) :
    (rewritePaths kind document source).get key = document.get key := by
  simp only [pathFields, List.mem_cons, List.not_mem_nil, or_false, not_or] at hkey
  have step {document : Mapping} {field : String} {f : Value → Value} (hfield : key ≠ field) :
      (document.modify field f).get key = document.get key := by
    rw [get_modify, if_neg hfield]
  unfold rewritePaths
  simp only
  split
  · rw [step hkey.2.2.2.2.2.2.2.2.2.2.2, step hkey.2.2.2.2.2.2.2.2.2.2.1,
      step hkey.2.2.2.2.2.2.2.2.2.1, get_modifyAll, get_modifyAll, get_modifyAll]
    · simp [hkey]
    · simp [hkey]
    · simp [hkey]
  · rw [step hkey.2.2.2.2.2.2.2.2.2.2.1,
      step hkey.2.2.2.2.2.2.2.2.2.1, get_modifyAll, get_modifyAll, get_modifyAll]
    · simp [hkey]
    · simp [hkey]
    · simp [hkey]

end NativePaths

/-! ## The pipeline -/

/-- FNV-1a of 64 bits, in sixteen hexadecimal digits. -/
def semanticHash (bytes : List UInt8) : String :=
  let hash := bytes.foldl (fun (hash : UInt64) byte => (hash ^^^ byte.toUInt64) * 0x100000001b3)
    0xcbf29ce484222325
  let digits := Nat.toDigits 16 hash.toNat
  String.ofList (List.replicate (16 - digits.length) '0' ++ digits)

/-- A snapshot is there only if its document could be written. -/
def sourceHash (platform : Platform) (document : Mapping) : String :=
  match platform.serialize document with
  | .ok bytes => semanticHash bytes
  | .error _ => ""

namespace Document

def zeroInbounds (d : Document) : Document :=
  ⟨Config.zeroInbounds d.entries, zeroInbounds_canonical d.canonical⟩

def remove (d : Document) (key : String) : Document :=
  ⟨d.entries.remove key, d.canonical.remove⟩

def rewriteManagedController (platform : Platform) (d : Document) (endpoint : String)
    (keepHttp : Bool) : Document :=
  ⟨Config.rewriteManagedController platform d.entries endpoint keepHttp,
    rewriteManagedController_canonical d.canonical⟩

def rewritePaths (kind : CoreKind) (d : Document) (source : Utf8Path) : Document :=
  ⟨Config.rewritePaths kind d.entries source, rewritePaths_canonical kind source d.canonical⟩

end Document

/-- The document that `prepare` makes of a source. -/
def effective (platform : Platform) (source : Document) (epoch : Epoch)
    (runtime : Finset RuntimeFeature) (settings : Option LocalIpcSettings) (zero : Bool) :
    Except Error Document :=
  let document := if zero then source.zeroInbounds else source
  if RuntimeFeature.localIpc ∈ runtime then do
    let endpoint ← platform.endpoint epoch
    pure (document.rewriteManagedController platform endpoint
      (settings.any (·.keepHttpController)))
  else if settings.isSome then
    pure ((document.remove externalControllerPipe).remove externalControllerUnix)
  else pure document

def prepare (platform : Platform) (snapshot : Snapshot Document) (epoch : Epoch)
    (runtime : Finset RuntimeFeature) (settings : Option LocalIpcSettings) (zero : Bool) :
    Except Error (Prepared Document) := do
  let document ← effective platform snapshot.document epoch runtime settings zero
  let info := if RuntimeFeature.localIpc ∈ runtime then inspect platform document.entries
    else inspectHttp document.entries
  let controller ← resolveController platform info
  let bytes ← platform.serialize document.entries
  pure { bytes, document, controller, sourceHash := sourceHash platform snapshot.document.entries,
         effectiveHash := semanticHash bytes }

/-- What a prepared document and its controller are. -/
theorem prepare_ok {platform : Platform} {snapshot : Snapshot Document} {epoch : Epoch}
    {runtime : Finset RuntimeFeature} {settings : Option LocalIpcSettings} {zero : Bool}
    {prepared : Prepared Document}
    (h : prepare platform snapshot epoch runtime settings zero = .ok prepared) :
    effective platform snapshot.document epoch runtime settings zero = .ok prepared.document ∧
      resolveController platform (if RuntimeFeature.localIpc ∈ runtime then
        inspect platform prepared.document.entries else inspectHttp prepared.document.entries) =
          .ok prepared.controller := by
  unfold prepare at h
  cases heffective : effective platform snapshot.document epoch runtime settings zero with
  | error e =>
    rw [heffective] at h
    cases h
  | ok document =>
    rw [heffective] at h
    simp only [bind, Except.bind] at h
    split at h
    · cases h
    · rename_i controller hcontroller
      split at h
      · cases h
      · cases h
        exact ⟨rfl, hcontroller⟩

/-- `PreparedConfig::native_paths`. -/
def prepareNative (platform : Platform) (source : Utf8Path) (kind : CoreKind)
    (prepared : Prepared Document) : Except Error (Prepared Document) := do
  let document := prepared.document.rewritePaths kind source
  let bytes ← platform.serialize document.entries
  pure { prepared with document, bytes, effectiveHash := semanticHash bytes }

theorem prepareNative_ok {platform : Platform} {source : Utf8Path} {kind : CoreKind}
    {prepared native : Prepared Document}
    (h : prepareNative platform source kind prepared = .ok native) :
    native.document = prepared.document.rewritePaths kind source ∧
      native.controller = prepared.controller := by
  unfold prepareNative at h
  simp only [bind, Except.bind] at h
  split at h
  · cases h
  · cases h
    exact ⟨rfl, rfl⟩

end Chimera.Config
