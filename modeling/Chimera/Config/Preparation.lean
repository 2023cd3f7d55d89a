import Chimera.Config.InPlace
import Chimera.Control.Command

/-! What a preparation touches: the controller's keys, and in a bootstrap the inbound
ports and `tun.enable`. Two preparations of one snapshot are reached in the same way. -/

namespace Chimera.Config
open Chimera.Model Chimera.Manager

/-! ## The managed endpoint -/

/-- Paths on the host: what `camino` reads off them and what `std` answers. -/
structure Paths where
  isAbsolute : Utf8Path → Bool
  join : Utf8Path → Utf8Path → Utf8Path
  parent : Utf8Path → Option Utf8Path
  fileName : Utf8Path → Option String
  startsWith : Utf8Path → Utf8Path → Bool
  /-- `std::fs::canonicalize`; what is found need not be UTF-8. -/
  canonicalize : Utf8Path → Except String (Option Utf8Path)
  /-- `SocketAddr::from_pathname`. -/
  socketAddress : Utf8Path → Except String Unit

def epochField : String := "{epoch}"

def validateControllerTemplate (template : Option String) : Except Error Unit :=
  if template.any fun value => !decide (epochField.toList <:+: value.toList) then
    .error (.invalidManagerOptions "managed controller_template must contain `{epoch}`")
  else .ok ()

def managedUnixEndpoint (paths : Paths) (runtimeDir endpoint : Utf8Path) : Except Error String :=
  let candidate := if paths.isAbsolute endpoint then endpoint else paths.join runtimeDir endpoint
  match paths.parent candidate with
  | none => .error (.invalidManagerOptions "managed Unix controller has no parent directory")
  | some parent =>
  match paths.canonicalize parent with
  | .error error => .error (.invalidManagerOptions ("managed Unix controller parent `" ++ parent ++
      "` cannot be canonicalized: " ++ error))
  | .ok none => .error (.invalidManagerOptions "managed Unix controller path is not UTF-8")
  | .ok (some canonicalParent) =>
  match paths.canonicalize runtimeDir with
  | .error error => .error (.io error)
  | .ok canonicalRoot =>
  -- a root that is not UTF-8 is no prefix of a parent that is
  if canonicalRoot.all fun root => !paths.startsWith canonicalParent root then
    .error (.invalidManagerOptions ("managed Unix controller `" ++ candidate ++
      "` escapes runtime directory `" ++ runtimeDir ++ "`"))
  else match paths.fileName candidate with
  | none => .error (.invalidManagerOptions "managed Unix controller must name a socket file")
  | some fileName => .ok (paths.join canonicalParent fileName)

def renderEndpointPath (windows : Bool) (paths : Paths) (runtimeDir : Utf8Path)
    (template : Option String) (epoch : Nat) : Except Error String := do
  validateControllerTemplate template
  match template with
  | some template =>
    let endpoint := template.replace epochField (toString epoch)
    if windows then pure endpoint else managedUnixEndpoint paths runtimeDir endpoint
  | none =>
    if windows then
      let namespaceOf := Chimera.Control.payloadDigest (Chimera.Control.utf8 runtimeDir)
      pure ("\\\\.\\pipe\\nyanpasu-" ++ namespaceOf ++ "-core-" ++ toString epoch)
    else pure (paths.join runtimeDir ("core-" ++ toString epoch ++ ".sock"))

def managedEndpointPath (windows : Bool) (paths : Paths) (runtimeDir : Utf8Path)
    (template : Option String) (epoch : Epoch) : Except Error String :=
  renderEndpointPath windows paths runtimeDir template epoch.get

def validateSocketPath (paths : Paths) (path : String) : Except Error Unit :=
  (paths.socketAddress path).mapError fun error =>
    .invalidManagerOptions ("invalid controller socket path: " ++ error)

/-- The endpoint of an epoch, checked where it is a socket. -/
def checkedEndpoint (windows : Bool) (paths : Paths) (runtimeDir : Utf8Path)
    (template : Option String) (epoch : Epoch) : Except Error String := do
  let endpoint ← managedEndpointPath windows paths runtimeDir template epoch
  if windows then pure endpoint
  else do
    validateSocketPath paths endpoint
    pure endpoint

/-- A platform whose endpoints come from a template and a directory. -/
def Platform.under (platform : Platform) (paths : Paths) (template : Option String)
    (runtimeDir : Utf8Path) : Platform :=
  { platform with endpoint := checkedEndpoint platform.windows paths runtimeDir template }

def prepareFull (platform : Platform) (paths : Paths) (snapshot : Snapshot Document)
    (template : Option String) (runtimeDir : Utf8Path) (epoch : Epoch)
    (runtime : Finset RuntimeFeature) (settings : Option LocalIpcSettings) :
    Except Error (Prepared Document) :=
  prepare (platform.under paths template runtimeDir) snapshot epoch runtime settings false

def prepareBootstrap (platform : Platform) (paths : Paths) (snapshot : Snapshot Document)
    (template : Option String) (runtimeDir : Utf8Path) (epoch : Epoch)
    (runtime : Finset RuntimeFeature) (settings : Option LocalIpcSettings) :
    Except Error (Prepared Document) :=
  prepare (platform.under paths template runtimeDir) snapshot epoch runtime settings true

theorem checkedEndpoint_ok {windows : Bool} {paths : Paths} {runtimeDir : Utf8Path}
    {template : Option String} {epoch : Epoch} {endpoint : String}
    (h : checkedEndpoint windows paths runtimeDir template epoch = .ok endpoint) :
    managedEndpointPath windows paths runtimeDir template epoch = .ok endpoint := by
  unfold checkedEndpoint at h
  cases hpath : managedEndpointPath windows paths runtimeDir template epoch with
  | error e =>
    rw [hpath] at h
    cases h
  | ok path =>
    rw [hpath] at h
    simp only [bind, Except.bind] at h
    split at h
    · exact h
    · split at h
      · cases h
      · exact h

/-! ## What is kept -/

def httpFields : List String := [externalController, externalControllerTls]

def localFields : List String := [externalControllerPipe, externalControllerUnix]

/-- Every key but the controller's and, in a bootstrap, the inbounds' is as in the
source; of a `tun` that is zeroed only `enable` may differ. -/
structure Keeps (zero : Bool) (source result : Document) : Prop where
  others : ∀ key, key ∉ httpFields → key ∉ localFields →
    (zero = true → key ∉ inboundPortFields ∧ key ≠ "tun") → result.get key = source.get key
  tun : result.get "tun" = source.get "tun" ∨
    ∃ before after, source.get "tun" = some (.mapping before) ∧
      result.get "tun" = some (.mapping after) ∧
      ∀ key, key ≠ "enable" → Mapping.get after key = Mapping.get before key

/-- The manager's endpoint is the only local transport. -/
structure Managed (platform : Platform) (keepHttp : Bool) (endpoint : String)
    (source result : Document) : Prop where
  present : result.get platform.localField = some (.string endpoint)
  absent : ∀ key ∈ localFields, key ≠ platform.localField → result.get key = none
  http : ∀ key ∈ httpFields, result.get key = if keepHttp then source.get key else none
  kept : ∀ key ∈ httpFields, ∀ value, source.get key = some value →
    (result.get key = some value ↔ keepHttp = true)

/-- The source's HTTP controller is left, and its local ones unless there are settings. -/
structure Unmanaged (settings : Option LocalIpcSettings) (source result : Document) : Prop where
  http : ∀ key ∈ httpFields, result.get key = source.get key
  locals : ∀ key ∈ localFields, result.get key = if settings.isSome then none else source.get key
  removed : ∀ key ∈ localFields, ∀ value, source.get key = some value →
    (result.get key = none ↔ settings.isSome = true)

section Frame

variable {platform : Platform} {source result : Document} {epoch : Epoch}
  {runtime : Finset RuntimeFeature} {settings : Option LocalIpcSettings} {zero : Bool}
  {endpoint key : String}

theorem localField_mem (platform : Platform) : platform.localField ∈ localFields := by
  unfold Platform.localField localFields
  split
  · simp
  · simp

/-- The document before its controller is looked at. -/
def zeroed (zero : Bool) (source : Document) : Document :=
  if zero then source.zeroInbounds else source

theorem get_zeroed (hzero : zero = true → key ∉ inboundPortFields ∧ key ≠ "tun") :
    (zeroed zero source).get key = source.get key := by
  cases zero with
  | false => rfl
  | true =>
    obtain ⟨hport, htun⟩ := hzero rfl
    show (Config.zeroInbounds source.entries).get key = source.entries.get key
    rw [get_zeroInbounds, if_neg hport, if_neg htun]

/-- Zeroing leaves the controller as it is. -/
theorem get_zeroed_controller (hkey : key ∈ httpFields ∨ key ∈ localFields) :
    (zeroed zero source).get key = source.get key := by
  refine get_zeroed fun _ => ?_
  have hall : ∀ key ∈ httpFields ++ localFields, key ∉ inboundPortFields ∧ key ≠ "tun" := by
    decide
  exact hall key (List.mem_append.2 hkey)

theorem get_zeroed_tun : (zeroed zero source).get "tun" = source.get "tun" ∨
    ∃ before after, source.get "tun" = some (.mapping before) ∧
      (zeroed zero source).get "tun" = some (.mapping after) ∧
      ∀ key, key ≠ "enable" → Mapping.get after key = Mapping.get before key := by
  cases zero with
  | false => exact .inl rfl
  | true =>
    have htun : (zeroed true source).get "tun" = (source.get "tun").map disableTun := by
      show (Config.zeroInbounds source.entries).get "tun" = _
      rw [get_zeroInbounds, if_neg (by decide), if_pos rfl]
      rfl
    rw [htun]
    cases hget : source.get "tun" with
    | none => exact .inl rfl
    | some value =>
      cases value with
      | mapping before =>
        by_cases henable : (Mapping.get before "enable").bind Value.asBool = some true
        · refine .inr ⟨before, Mapping.insert before "enable" (.bool false), rfl, ?_, ?_⟩
          · simp only [Option.map_some, disableTun, if_pos henable]
          · intro key hkey
            rw [Mapping.get_insert, if_neg hkey]
        · left
          simp only [Option.map_some, disableTun, if_neg henable]
      | null | bool _ | number _ | string _ | sequence _ => exact .inl rfl

theorem effective_managed (hlocal : RuntimeFeature.localIpc ∈ runtime)
    (h : effective platform source epoch runtime settings zero = .ok result) :
    ∃ endpoint, platform.endpoint epoch = .ok endpoint ∧
      result = (zeroed zero source).rewriteManagedController platform endpoint
        (settings.any (·.keepHttpController)) := by
  unfold effective at h
  simp only [if_pos hlocal] at h
  cases hendpoint : platform.endpoint epoch with
  | error e =>
    rw [hendpoint] at h
    cases h
  | ok endpoint =>
    rw [hendpoint] at h
    exact ⟨endpoint, rfl, (Except.ok.inj h).symm⟩

theorem effective_unmanaged (hlocal : RuntimeFeature.localIpc ∉ runtime)
    (h : effective platform source epoch runtime settings zero = .ok result) :
    result = if settings.isSome then
        ((zeroed zero source).remove externalControllerPipe).remove externalControllerUnix
      else zeroed zero source := by
  unfold effective at h
  simp only [if_neg hlocal] at h
  split at h
  · rename_i hsettings
    rw [if_pos hsettings]
    exact (Except.ok.inj h).symm
  · rename_i hsettings
    rw [if_neg hsettings]
    exact (Except.ok.inj h).symm

/-- What is under each key of a document that was given the manager's endpoint. -/
theorem get_rewritten {document : Document} {keepHttp : Bool} :
    (document.rewriteManagedController platform endpoint keepHttp).get key =
      if key = platform.localField then some (.string endpoint)
      else if key ∈ localFields then none
      else if key ∈ httpFields then (if keepHttp then document.get key else none)
      else document.get key := by
  show (Config.rewriteManagedController platform document.entries endpoint keepHttp).get key = _
  rw [get_rewriteManagedController]
  by_cases hself : key = platform.localField
  · rw [if_pos hself, if_pos hself]
  rw [if_neg hself, if_neg hself]
  by_cases hlocal : key ∈ localFields
  · rw [if_pos hlocal]
    have hlocal' : key = externalControllerPipe ∨ key = externalControllerUnix := by
      simpa [localFields] using hlocal
    rw [if_pos (hlocal'.imp id .inl)]
  · rw [if_neg hlocal]
    have hpipe : key ≠ externalControllerPipe ∧ key ≠ externalControllerUnix := by
      simpa [localFields] using hlocal
    by_cases hhttp : key ∈ httpFields
    · rw [if_pos hhttp]
      have hhttp' : key = externalController ∨ key = externalControllerTls := by
        simpa [httpFields] using hhttp
      cases keepHttp with
      | true => simp [hpipe, Document.get]
      | false => simp [hhttp']
    · rw [if_neg hhttp]
      have hhttp' : key ≠ externalController ∧ key ≠ externalControllerTls := by
        simpa [httpFields] using hhttp
      simp [hpipe, hhttp', Document.get]

/-- What is under each key of a document without its local transports. -/
theorem get_stripped {document : Document} :
    ((document.remove externalControllerPipe).remove externalControllerUnix).get key =
      if key ∈ localFields then none else document.get key := by
  show ((document.entries.remove externalControllerPipe).remove externalControllerUnix).get key = _
  rw [Mapping.get_remove, Mapping.get_remove]
  by_cases hlocal : key ∈ localFields
  · have hlocal' : key = externalControllerPipe ∨ key = externalControllerUnix := by
      simpa [localFields] using hlocal
    rcases hlocal' with rfl | rfl
    · simp [hlocal]
    · simp [hlocal]
  · have hlocal' : key ≠ externalControllerPipe ∧ key ≠ externalControllerUnix := by
      simpa [localFields] using hlocal
    simp [hlocal, hlocal'.1, hlocal'.2, Document.get]

theorem http_not_local (hkey : key ∈ httpFields) : key ∉ localFields := by
  have hall : ∀ key ∈ httpFields, key ∉ localFields := by decide
  exact hall key hkey

/-- What is no controller key is as zeroing left it. -/
theorem get_effective (h : effective platform source epoch runtime settings zero = .ok result)
    (hhttp : key ∉ httpFields) (hlocal : key ∉ localFields) :
    result.get key = (zeroed zero source).get key := by
  by_cases hruntime : RuntimeFeature.localIpc ∈ runtime
  · obtain ⟨endpoint, -, rfl⟩ := effective_managed hruntime h
    have hself : key ≠ platform.localField := by
      intro heq
      rw [heq] at hlocal
      exact hlocal (localField_mem platform)
    rw [get_rewritten, if_neg hself, if_neg hlocal, if_neg hhttp]
  · obtain rfl := effective_unmanaged hruntime h
    split
    · rw [get_stripped, if_neg hlocal]
    · rfl

theorem effective_keeps (h : effective platform source epoch runtime settings zero = .ok result) :
    Keeps zero source result where
  others := by
    intro key hhttp hlocal hzero
    rw [get_effective h hhttp hlocal, get_zeroed hzero]
  tun := by
    rw [get_effective h (by decide) (by decide)]
    exact get_zeroed_tun

theorem effective_manages (hlocal : RuntimeFeature.localIpc ∈ runtime)
    (h : effective platform source epoch runtime settings zero = .ok result) :
    ∃ endpoint, platform.endpoint epoch = .ok endpoint ∧
      Managed platform (settings.any (·.keepHttpController)) endpoint source result := by
  obtain ⟨endpoint, hendpoint, rfl⟩ := effective_managed hlocal h
  refine ⟨endpoint, hendpoint, ?_⟩
  have hhttp : ∀ key ∈ httpFields, ((zeroed zero source).rewriteManagedController platform endpoint
      (settings.any (·.keepHttpController))).get key =
        if settings.any (·.keepHttpController) then source.get key else none := by
    intro key hkey
    have hself : key ≠ platform.localField := by
      intro heq
      rw [heq] at hkey
      exact http_not_local hkey (localField_mem platform)
    rw [get_rewritten, if_neg hself, if_neg (http_not_local hkey), if_pos hkey,
      get_zeroed_controller (.inl hkey)]
  refine ⟨?_, ?_, hhttp, ?_⟩
  · rw [get_rewritten, if_pos rfl]
  · intro key hkey hself
    rw [get_rewritten, if_neg hself, if_pos hkey]
  · intro key hkey value hvalue
    rw [hhttp key hkey]
    cases settings.any (·.keepHttpController) with
    | true => simp [hvalue]
    | false => simp

theorem effective_leaves (hlocal : RuntimeFeature.localIpc ∉ runtime)
    (h : effective platform source epoch runtime settings zero = .ok result) :
    Unmanaged settings source result := by
  obtain rfl := effective_unmanaged hlocal h
  have hlocals : ∀ key ∈ localFields, (if settings.isSome then
        ((zeroed zero source).remove externalControllerPipe).remove externalControllerUnix
      else zeroed zero source).get key = if settings.isSome then none else source.get key := by
    intro key hkey
    split
    · rw [get_stripped, if_pos hkey]
    · exact get_zeroed_controller (.inr hkey)
  refine ⟨?_, hlocals, ?_⟩
  · intro key hkey
    split
    · rw [get_stripped, if_neg (http_not_local hkey), get_zeroed_controller (.inl hkey)]
    · exact get_zeroed_controller (.inl hkey)
  · intro key hkey value hvalue
    rw [hlocals key hkey, hvalue]
    cases settings.isSome with
    | true => simp
    | false => simp

/-! ## One controller -/

/-- With and without zeroing, a document has the same controller. -/
theorem effective_controller {full bootstrap : Document}
    (hfull : effective platform source epoch runtime settings false = .ok full)
    (hbootstrap : effective platform source epoch runtime settings true = .ok bootstrap) :
    ∀ key ∈ controllerFields, full.get key = bootstrap.get key := by
  intro key hkey
  by_cases hhttp : key ∈ httpFields
  · by_cases hlocal : RuntimeFeature.localIpc ∈ runtime
    · obtain ⟨_, -, hm⟩ := effective_manages hlocal hfull
      obtain ⟨_, -, hm'⟩ := effective_manages hlocal hbootstrap
      rw [hm.http key hhttp, hm'.http key hhttp]
    · rw [(effective_leaves hlocal hfull).http key hhttp,
        (effective_leaves hlocal hbootstrap).http key hhttp]
  by_cases hlocals : key ∈ localFields
  · by_cases hlocal : RuntimeFeature.localIpc ∈ runtime
    · obtain ⟨endpoint, hendpoint, hm⟩ := effective_manages hlocal hfull
      obtain ⟨endpoint', hendpoint', hm'⟩ := effective_manages hlocal hbootstrap
      obtain rfl : endpoint = endpoint' := Except.ok.inj (hendpoint.symm.trans hendpoint')
      by_cases hself : key = platform.localField
      · rw [hself, hm.present, hm'.present]
      · rw [hm.absent key hlocals hself, hm'.absent key hlocals hself]
    · rw [(effective_leaves hlocal hfull).locals key hlocals,
        (effective_leaves hlocal hbootstrap).locals key hlocals]
  · have hsecret : key ∉ inboundPortFields ∧ key ≠ "tun" := by
      have hall : ∀ key ∈ controllerFields, key ∉ inboundPortFields ∧ key ≠ "tun" := by decide
      exact hall key hkey
    rw [get_effective hfull hhttp hlocals, get_effective hbootstrap hhttp hlocals,
      get_zeroed fun _ => hsecret, get_zeroed fun _ => hsecret]

theorem prepare_controller {snapshot : Snapshot Document} {full bootstrap : Prepared Document}
    (hfull : prepare platform snapshot epoch runtime settings false = .ok full)
    (hbootstrap : prepare platform snapshot epoch runtime settings true = .ok bootstrap) :
    full.controller = bootstrap.controller := by
  obtain ⟨hfull, hcontroller⟩ := prepare_ok hfull
  obtain ⟨hbootstrap, hcontroller'⟩ := prepare_ok hbootstrap
  obtain ⟨hinspect, hhttp⟩ := inspect_congr platform (effective_controller hfull hbootstrap)
  rw [hinspect, hhttp, hcontroller'] at hcontroller
  exact (Except.ok.inj hcontroller).symm

end Frame

/-- A prepared document differs from its source in nothing but the controller's keys
and what zeroing changes, has the manager's endpoint as its one local transport where
there is local IPC, and is reached as the other document of the same launch is. -/
theorem preparation_touches (platform : Platform) (paths : Paths) (snapshot : Snapshot Document)
    (template : Option String) (runtimeDir : Utf8Path) (epoch : Epoch)
    (runtime : Finset RuntimeFeature) (settings : Option LocalIpcSettings) :
    (∀ zero prepared, prepare (platform.under paths template runtimeDir) snapshot epoch runtime
        settings zero = .ok prepared →
      Keeps zero snapshot.document prepared.document ∧
      (RuntimeFeature.localIpc ∈ runtime → ∃ endpoint,
        managedEndpointPath platform.windows paths runtimeDir template epoch = .ok endpoint ∧
        Managed platform (settings.any (·.keepHttpController)) endpoint snapshot.document
          prepared.document) ∧
      (RuntimeFeature.localIpc ∉ runtime →
        Unmanaged settings snapshot.document prepared.document)) ∧
    ∀ full bootstrap,
      prepareFull platform paths snapshot template runtimeDir epoch runtime settings = .ok full →
      prepareBootstrap platform paths snapshot template runtimeDir epoch runtime settings =
        .ok bootstrap →
      full.controller = bootstrap.controller := by
  refine ⟨?_, fun full bootstrap => prepare_controller⟩
  intro zero prepared hprepared
  obtain ⟨heffective, -⟩ := prepare_ok hprepared
  refine ⟨effective_keeps heffective, ?_, fun hlocal => effective_leaves hlocal heffective⟩
  intro hlocal
  obtain ⟨endpoint, hendpoint, hmanaged⟩ := effective_manages hlocal heffective
  exact ⟨endpoint, checkedEndpoint_ok hendpoint, ⟨hmanaged.1, hmanaged.2, hmanaged.3, hmanaged.4⟩⟩

/-! ## A tunnelled source -/

/-- Paths of a host whose directories are no links. -/
def plainPaths : Paths where
  isAbsolute := fun path => !isRelative path
  join := joinPath
  parent := fun _ => some "/run/chimera"
  fileName := fun _ => some "core.sock"
  startsWith := fun path root => decide (root.toList <+: path.toList)
  canonicalize := fun path => .ok (some path)
  socketAddress := fun _ => .ok ()

def tunnelledSource : Document :=
  ⟨[("external-controller", .string "127.0.0.1:9090"), ("mixed-port", .number (.int 7890)),
    ("secret", .string "private"),
    ("tun", .mapping [("enable", .bool true), ("mtu", .number (.int 1500))])], by decide +kernel⟩

def tunnelledSnapshot : Snapshot Document := ⟨"/etc/chimera/config.yaml", tunnelledSource⟩

/-- Both documents of a launch can be prepared, and the bootstrap is reached as the full
one is. -/
theorem tunnelled_source_prepared : ∃ full bootstrap,
    prepareFull unixPlatform plainPaths tunnelledSnapshot none "/run/chimera" Epoch.one
      {RuntimeFeature.localIpc} none = .ok full ∧
    prepareBootstrap unixPlatform plainPaths tunnelledSnapshot none "/run/chimera" Epoch.one
      {RuntimeFeature.localIpc} none = .ok bootstrap ∧
    full.controller = bootstrap.controller ∧
    bootstrap.document.get secretField = some (.string "private") ∧
    bootstrap.document.get externalController = none := by
  obtain ⟨htouches, hcontroller⟩ := preparation_touches unixPlatform plainPaths tunnelledSnapshot
    none "/run/chimera" Epoch.one {RuntimeFeature.localIpc} none
  have hfull : (prepareFull unixPlatform plainPaths tunnelledSnapshot none "/run/chimera"
      Epoch.one {RuntimeFeature.localIpc} none).isOk = true := by decide +kernel
  have hbootstrap : (prepareBootstrap unixPlatform plainPaths tunnelledSnapshot none
      "/run/chimera" Epoch.one {RuntimeFeature.localIpc} none).isOk = true := by decide +kernel
  cases hfullOk : prepareFull unixPlatform plainPaths tunnelledSnapshot none "/run/chimera"
      Epoch.one {RuntimeFeature.localIpc} none with
  | error e =>
    rw [hfullOk] at hfull
    cases hfull
  | ok full =>
  cases hbootstrapOk : prepareBootstrap unixPlatform plainPaths tunnelledSnapshot none
      "/run/chimera" Epoch.one {RuntimeFeature.localIpc} none with
  | error e =>
    rw [hbootstrapOk] at hbootstrap
    cases hbootstrap
  | ok bootstrap =>
  obtain ⟨hkeeps, hmanaged, -⟩ := htouches true bootstrap hbootstrapOk
  obtain ⟨endpoint, -, hmanaged⟩ := hmanaged (Finset.mem_singleton_self _)
  have hsecret := hkeeps.others secretField (by decide) (by decide) fun _ => by decide
  have hhttp := hmanaged.http externalController (by decide)
  exact ⟨full, bootstrap, rfl, rfl, hcontroller full bootstrap hfullOk hbootstrapOk, hsecret, hhttp⟩

end Chimera.Config
