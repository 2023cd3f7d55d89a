import Chimera.Config.Classify
import Chimera.Manager.Switching

/-! What a graceful switch opens beside the core that still runs.

The gate looks at the source, the bootstrap is another document, and the switch
decides by a third look at the source: what follows says for which sources the three
agree that nothing is opened twice. -/

namespace Chimera.Config
open Chimera.Model Chimera.Manager Chimera.Lib.Program

/-- The document opens nothing that another core may have open. -/
structure Closed (document : Mapping) : Prop where
  ports : ∀ key ∈ inboundPortFields, ∀ value, document.get key = some value →
    value.asI64 = some 0
  tun : ∀ value, document.get "tun" = some value → ∃ tun : Mapping, value = .mapping tun ∧
    ∀ enable, tun.get "enable" = some enable → enable = .bool false
  dns : ∀ listen, dnsListen document = some listen → listen = .null ∨ listen = .string ""
  tuic : ∀ value, document.get "tuic-server" = some value → value = .mapping [] ∨
    ∃ tuic : Mapping, value = .mapping tuic ∧ tuic.get "enable" = some (.bool false)
  servers : ∀ key ∈ serverFields, ∀ value, document.get key = some value → value = .string ""
  collections : ∀ key ∈ collectionFields, ∀ value, document.get key = some value →
    value = .null ∨ value = .string "" ∨ value = .sequence [] ∨ value = .mapping []
  others : ∀ key ∈ document.keys, inboundLike key = true →
    key ∈ inboundPortFields ∨ key ∈ collectionFields
  controller : document.get externalController = none ∧ document.get externalControllerTls = none

/-! ## The gate, field by field -/

section Fields

variable {value : Value} {document : Mapping} {key : String}

theorem portBlocks_eq_false : portBlocks value = false ↔ (zeroPort value).asI64 = some 0 := by
  unfold portBlocks zeroPort
  cases h : value.asI64 with
  | none => simp [h]
  | some n =>
    by_cases hn : n = 0
    · simp [h, hn]
    · simp [hn, Value.asI64]

theorem tunBlocks_eq_false : tunBlocks value = false ↔ ∃ tun : Mapping,
    disableTun value = .mapping tun ∧ ∀ enable, tun.get "enable" = some enable →
      enable = .bool false := by
  cases value with
  | mapping tun =>
    change (Option.any (fun enable => enable.asBool.isNone) (Mapping.get tun "enable")) = false ↔ _
    unfold disableTun
    cases h : Mapping.get tun "enable" with
    | none => simp [h]
    | some enable =>
      cases enable with
      | bool b =>
        cases b with
        | true => simp [h, Value.asBool, Mapping.get_insert]
        | false => simp [Value.asBool, h]
      | null | number _ | string _ | sequence _ | mapping _ => simp [Value.asBool, h]
  | null | bool _ | number _ | string _ | sequence _ => simp [tunBlocks, disableTun]

theorem tuicBlocks_eq_false : tuicBlocks value = false ↔ value = .mapping [] ∨
    ∃ tuic : Mapping, value = .mapping tuic ∧ tuic.get "enable" = some (.bool false) := by
  cases value with
  | mapping tuic =>
    simp only [tuicBlocks]
    cases h : Mapping.get tuic "enable" with
    | none => simp [h]
    | some enable =>
      have hne : tuic ≠ [] := by
        intro hnil
        rw [hnil] at h
        cases h
      cases enable with
      | bool b => cases b <;> simp [Value.asBool, h, hne]
      | null | number _ | string _ | sequence _ | mapping _ => simp [Value.asBool, h, hne]
  | null | bool _ | number _ | string _ | sequence _ => simp [tuicBlocks]

theorem textBlocks_eq_false : textBlocks value = false ↔ value = .string "" := by
  cases value <;> simp [textBlocks, Value.asStr]

theorem nonemptyCollection_eq_false : nonemptyCollection value = false ↔
    value = .null ∨ value = .string "" ∨ value = .sequence [] ∨ value = .mapping [] := by
  cases value <;> simp [nonemptyCollection]

theorem inboundLike_of_patchField (hkey : key ∈ patchFields) (h : inboundLike key = true) :
    key ∈ inboundPortFields := by
  have hall : ∀ key ∈ patchFields, inboundLike key = true → key ∈ inboundPortFields := by
    decide +kernel
  exact hall key hkey h

theorem keyBlocks_eq_false : keyBlocks key = false ↔
    (inboundLike key = true → key ∈ inboundPortFields ∨ key ∈ collectionFields) := by
  have hports : ∀ key ∈ inboundPortFields, key ∈ patchFields := by decide
  simp only [keyBlocks, Bool.and_eq_false_iff, Bool.not_eq_false', List.contains_iff_mem]
  constructor
  · intro h hlike
    rcases h with (hlike' | hpatch) | hcollection
    · rw [hlike] at hlike'
      cases hlike'
    · exact .inl (inboundLike_of_patchField hpatch hlike)
    · exact .inr (by simpa [collectionFields] using hcollection)
  · intro h
    cases hlike : inboundLike key with
    | false => exact .inl (.inl rfl)
    | true =>
      rcases h hlike with hport | hcollection
      · exact .inl (.inr (hports key hport))
      · exact .inr (by simpa [collectionFields] using hcollection)

/-- The rest of the gate passes what is closed once it is zeroed. -/
theorem surfaceBlocks_eq_false : surfaceBlocks document = false ↔
    (∀ key ∈ inboundPortFields, ∀ value, document.get key = some value →
      (zeroPort value).asI64 = some 0) ∧
    (∀ value, document.get "tun" = some value → ∃ tun : Mapping, disableTun value = .mapping tun ∧
      ∀ enable, tun.get "enable" = some enable → enable = .bool false) ∧
    (∀ value, document.get "tuic-server" = some value → value = .mapping [] ∨
      ∃ tuic : Mapping, value = .mapping tuic ∧ tuic.get "enable" = some (.bool false)) ∧
    (∀ key ∈ serverFields, ∀ value, document.get key = some value → value = .string "") ∧
    (∀ key ∈ collectionFields, ∀ value, document.get key = some value →
      value = .null ∨ value = .string "" ∨ value = .sequence [] ∨ value = .mapping []) ∧
    (∀ key ∈ document.keys, inboundLike key = true →
      key ∈ inboundPortFields ∨ key ∈ collectionFields) := by
  have any_false {p : Value → Bool} (o : Option Value) :
      o.any p = false ↔ ∀ value, o = some value → p value = false := by
    cases o <;> simp
  simp only [surfaceBlocks, Bool.or_eq_false_iff, List.any_eq_false, Bool.not_eq_true, any_false,
    portBlocks_eq_false, tunBlocks_eq_false, tuicBlocks_eq_false, textBlocks_eq_false,
    nonemptyCollection_eq_false, keyBlocks_eq_false, and_assoc]

end Fields

/-! ## The bootstrap -/

section Bootstrap

variable {platform : Platform} {document : Mapping} {endpoint : String} {keepHttp : Bool}
  {key : String}

/-- The document of a bootstrap over a managed controller. -/
def bootstrap (platform : Platform) (document : Mapping) (endpoint : String) (keepHttp : Bool) :
    Mapping :=
  rewriteManagedController platform (zeroInbounds document) endpoint keepHttp

theorem localField_cases (platform : Platform) :
    platform.localField = externalControllerPipe ∨ platform.localField = externalControllerUnix := by
  unfold Platform.localField
  split
  · exact .inl rfl
  · exact .inr rfl

/-- A field that is no controller's is as zeroing leaves it. -/
theorem get_bootstrap (hkey : key ∉ controllerFields) :
    (bootstrap platform document endpoint keepHttp).get key = (zeroInbounds document).get key := by
  simp only [controllerFields, List.mem_cons, List.not_mem_nil, or_false, not_or] at hkey
  obtain ⟨hhttp, htls, hpipe, hunix, -⟩ := hkey
  have hlocal : key ≠ platform.localField := by
    rcases localField_cases platform with h | h
    · rw [h]
      exact hpipe
    · rw [h]
      exact hunix
  rw [bootstrap, get_rewriteManagedController, if_neg hlocal, if_neg]
  simp [hhttp, htls, hpipe, hunix]

theorem get_bootstrap_plain (hkey : key ∉ controllerFields) (hport : key ∉ inboundPortFields)
    (htun : key ≠ "tun") :
    (bootstrap platform document endpoint keepHttp).get key = document.get key := by
  rw [get_bootstrap hkey, get_zeroInbounds, if_neg hport, if_neg htun]

theorem get_bootstrap_http (hkey : key = externalController ∨ key = externalControllerTls) :
    (bootstrap platform document endpoint keepHttp).get key = none ↔
      keepHttp = false ∨ document.get key = none := by
  have hlocal : key ≠ platform.localField := by
    rcases localField_cases platform with h | h <;> rcases hkey with rfl | rfl <;> rw [h] <;> decide
  have hother : ¬(key = externalControllerPipe ∨ key = externalControllerUnix) := by
    rcases hkey with rfl | rfl <;> decide
  have hzero : (zeroInbounds document).get key = document.get key := by
    rw [get_zeroInbounds, if_neg, if_neg]
    · rcases hkey with rfl | rfl <;> decide
    · rcases hkey with rfl | rfl <;> decide
  rw [bootstrap, get_rewriteManagedController, if_neg hlocal, hzero]
  cases keepHttp with
  | true => simp [not_or.1 hother]
  | false => simp [hkey]

theorem dnsListen_bootstrap :
    dnsListen (bootstrap platform document endpoint keepHttp) = dnsListen document := by
  unfold dnsListen
  rw [get_bootstrap_plain (by decide) (by decide) (by decide)]

/-- No key that looks like an inbound is one of the controller's. -/
theorem inboundLike_controller (hkey : key ∈ controllerFields) : inboundLike key = false := by
  have hall : ∀ key ∈ controllerFields, inboundLike key = false := by decide +kernel
  exact hall key hkey

theorem mem_keys_bootstrap (hlike : inboundLike key = true) :
    key ∈ (bootstrap platform document endpoint keepHttp).keys ↔ key ∈ document.keys := by
  have hkey : key ∉ controllerFields := by
    intro hkey
    rw [inboundLike_controller hkey] at hlike
    cases hlike
  rw [Mapping.mem_keys, Mapping.mem_keys, get_bootstrap hkey, get_zeroInbounds]
  split
  · simp
  · split
    · rename_i htun
      subst htun
      simp
    · rfl

/-- The bootstrap is closed if and only if the gate's other checks pass the source
and no HTTP key is kept. -/
theorem closed_bootstrap_iff (hdns : ∀ listen, dnsListen document = some listen →
    listen = .null ∨ listen = .string "") :
    Closed (bootstrap platform document endpoint keepHttp) ↔ surfaceBlocks document = false ∧
      (keepHttp = false ∨
        document.get externalController = none ∧ document.get externalControllerTls = none) := by
  have hport : ∀ key ∈ inboundPortFields,
      (bootstrap platform document endpoint keepHttp).get key =
        (document.get key).map zeroPort := by
    intro key hkey
    have hcontroller : ∀ key ∈ inboundPortFields, key ∉ controllerFields := by decide
    rw [get_bootstrap (hcontroller key hkey), get_zeroInbounds, if_pos hkey]
  have htun : (bootstrap platform document endpoint keepHttp).get "tun" =
      (document.get "tun").map disableTun := by
    rw [get_bootstrap (by decide), get_zeroInbounds, if_neg (by decide), if_pos rfl]
  have htuic : (bootstrap platform document endpoint keepHttp).get "tuic-server" =
      document.get "tuic-server" := get_bootstrap_plain (by decide) (by decide) (by decide)
  have hplain : ∀ key ∈ serverFields ++ collectionFields,
      (bootstrap platform document endpoint keepHttp).get key = document.get key := by
    intro key hkey
    have hfields : ∀ key ∈ serverFields ++ collectionFields,
        key ∉ controllerFields ∧ key ∉ inboundPortFields ∧ key ≠ "tun" := by decide
    obtain ⟨h, h', h''⟩ := hfields key hkey
    exact get_bootstrap_plain h h' h''
  have hcontroller : ((bootstrap platform document endpoint keepHttp).get externalController = none ∧
      (bootstrap platform document endpoint keepHttp).get externalControllerTls = none) ↔
      (keepHttp = false ∨
        document.get externalController = none ∧ document.get externalControllerTls = none) := by
    rw [get_bootstrap_http (.inl rfl), get_bootstrap_http (.inr rfl), ← or_and_left]
  rw [surfaceBlocks_eq_false]
  constructor
  · intro h
    refine ⟨⟨?_, ?_, ?_, ?_, ?_, ?_⟩, hcontroller.1 h.controller⟩
    · intro key hkey value hvalue
      exact h.ports key hkey _ (by rw [hport key hkey, hvalue]; rfl)
    · intro value hvalue
      exact h.tun _ (by rw [htun, hvalue]; rfl)
    · intro value hvalue
      exact h.tuic value (htuic.trans hvalue)
    · intro key hkey value hvalue
      exact h.servers key hkey value ((hplain key (by simp [hkey])).trans hvalue)
    · intro key hkey value hvalue
      exact h.collections key hkey value ((hplain key (by simp [hkey])).trans hvalue)
    · intro key hkey hlike
      exact h.others key ((mem_keys_bootstrap hlike).2 hkey) hlike
  · intro h
    obtain ⟨⟨hports, htuns, htuics, hservers, hcollections, hothers⟩, hhttp⟩ := h
    refine ⟨?_, ?_, ?_, ?_, ?_, ?_, ?_, hcontroller.2 hhttp⟩
    · intro key hkey value hvalue
      rw [hport key hkey] at hvalue
      obtain ⟨before, hbefore, rfl⟩ := Option.map_eq_some_iff.1 hvalue
      exact hports key hkey before hbefore
    · intro value hvalue
      rw [htun] at hvalue
      obtain ⟨before, hbefore, rfl⟩ := Option.map_eq_some_iff.1 hvalue
      exact htuns before hbefore
    · intro listen hlisten
      rw [dnsListen_bootstrap] at hlisten
      exact hdns listen hlisten
    · intro value hvalue
      exact htuics value (htuic.symm.trans hvalue)
    · intro key hkey value hvalue
      exact hservers key hkey value ((hplain key (by simp [hkey])).symm.trans hvalue)
    · intro key hkey value hvalue
      exact hcollections key hkey value ((hplain key (by simp [hkey])).symm.trans hvalue)
    · intro key hkey hlike
      exact hothers key ((mem_keys_bootstrap hlike).1 hkey) hlike

end Bootstrap

/-! ## The gate -/

section Gate

variable {document : Mapping}

theorem overlapBlock_dns (h : overlapBlock document = none) :
    ∀ listen, dnsListen document = some listen → listen = .null ∨ listen = .string "" := by
  intro listen hlisten
  rw [overlapBlock, hlisten] at h
  cases listen with
  | null => exact .inl rfl
  | string text =>
    by_cases htext : text = ""
    · exact .inr (by rw [htext])
    · simp [Value.asStr] at h
  | bool _ | number _ | sequence _ | mapping _ => simp [Value.asStr, Value.isNull] at h

/-- Without its DNS section, a document is blocked by the gate's other checks only. -/
theorem overlapBlock_remove_dns :
    overlapBlock (document.remove "dns") = none ↔ surfaceBlocks document = false := by
  have hget : ∀ key, key ≠ "dns" → (document.remove "dns").get key = document.get key := by
    intro key hkey
    rw [Mapping.get_remove, if_neg hkey]
  have hlisten : dnsListen (document.remove "dns") = none := by
    rw [dnsListen, Mapping.get_remove, if_pos rfl]
    rfl
  have hkeys : ∀ key, inboundLike key = true →
      (key ∈ (document.remove "dns").keys ↔ key ∈ document.keys) := by
    intro key hlike
    have hkey : key ≠ "dns" := by
      intro hdns
      subst hdns
      exact absurd hlike (by decide +kernel)
    rw [Mapping.mem_keys, Mapping.mem_keys, hget key hkey]
  have hsurface : surfaceBlocks (document.remove "dns") = false ↔
      surfaceBlocks document = false := by
    have hports : ∀ key ∈ inboundPortFields, key ≠ "dns" := by decide
    have hservers : ∀ key ∈ serverFields, key ≠ "dns" := by decide
    have hcollections : ∀ key ∈ collectionFields, key ≠ "dns" := by decide
    rw [surfaceBlocks_eq_false, surfaceBlocks_eq_false, hget "tun" (by decide),
      hget "tuic-server" (by decide)]
    refine and_congr ?_ (and_congr_right fun _ => and_congr_right fun _ => and_congr ?_
      (and_congr ?_ ?_))
    · exact forall₂_congr fun key hkey => by rw [hget key (hports key hkey)]
    · exact forall₂_congr fun key hkey => by rw [hget key (hservers key hkey)]
    · exact forall₂_congr fun key hkey => by rw [hget key (hcollections key hkey)]
    · constructor
      · exact fun h key hkey hlike => h key ((hkeys key hlike).2 hkey) hlike
      · exact fun h key hkey hlike => h key ((hkeys key hlike).1 hkey) hlike
  rw [← hsurface, overlapBlock, hlisten]
  cases h : surfaceBlocks (document.remove "dns") with
  | true => simp
  | false => simp

end Gate

/-! ## The switch -/

/-- Why `switch_locked` does not go the graceful way, if it does not. -/
def degradeReason {Doc : Type} (setup : Setup Doc) (current : Option (Active Doc))
    (spec : InstanceSpec) (snapshot : Snapshot Doc) (resolved : ResolvedFeatures) :
    Option DegradeReason :=
  if setup.nativeStore.isSome then some .nativeStoreShared
  else gracefulDegradeReason
    (decide (RuntimeFeature.localIpc ∈ resolved.runtime) &&
      !((current.elim false fun active => hasHttp setup active.plan.effectiveDocument) ||
        ((localIpcSettings setup spec).keepHttpController && hasHttp setup snapshot.document)))
    spec.core.kind (setup.overlapBlock snapshot.document)

theorem switchLocked_eq {Doc : Type} (setup : Setup Doc) (spec : InstanceSpec) :
    switchLocked setup spec = (do
      if !(← runtimeAlive) then do
        discardStale
        startLocked setup spec
        pure (.hard .notRunning)
      else do
        let snapshot ← demand (.load spec.configPath)
        demand (.validateLaunchable spec)
        let resolved ← demand (.resolveFeatures spec)
        let current ← perform .current
        match degradeReason setup current spec snapshot resolved with
        | some reason => do
          hardSwitch setup spec snapshot resolved
          pure (.hard reason)
        | none => gracefulSwitch setup spec snapshot resolved) := by
  unfold switchLocked degradeReason
  congr 1
  funext alive
  split
  · rfl
  · congr 1
    funext snapshot
    congr 1
    funext _
    congr 1
    funext resolved
    congr 1
    funext current
    cases setup.nativeStore.isSome with
    | true => rfl
    | false => rfl

section Switch

variable {platform : Platform} {addresses : Addresses} {dataDir : Option Utf8Path}
  {setup : Setup Document} {current : Option (Active Document)} {spec : InstanceSpec}
  {snapshot : Snapshot Document} {resolved : ResolvedFeatures}

theorem degradeReason_eq_none
    (h : degradeReason (configured platform addresses dataDir setup) current spec snapshot resolved
      = none) :
    RuntimeFeature.localIpc ∈ resolved.runtime ∧ overlapBlock snapshot.document.entries = none := by
  unfold degradeReason gracefulDegradeReason at h
  split at h
  · cases h
  · split at h
    · cases h
    · rename_i hlocal
      split at h
      · cases h
      · refine ⟨?_, ?_⟩
        · simp only [Bool.not_eq_true, Bool.not_eq_false', Bool.and_eq_true] at hlocal
          exact of_decide_eq_true hlocal.1
        · cases hblock : overlapBlock snapshot.document.entries with
          | none => rfl
          | some block =>
            change (configured platform addresses dataDir setup).overlapBlock snapshot.document =
              some block at hblock
            rw [hblock] at h
            cases block with
            | dnsListen => cases h
            | inboundSurface => cases h

theorem prepare_bootstrap_document {epoch : Epoch} {runtime : Finset RuntimeFeature}
    {settings : LocalIpcSettings} {prepared : Prepared Document}
    (hlocal : RuntimeFeature.localIpc ∈ runtime)
    (h : prepare platform snapshot epoch runtime (some settings) true = .ok prepared) :
    ∃ endpoint, prepared.document.entries = bootstrap platform snapshot.document.entries endpoint
      settings.keepHttpController := by
  obtain ⟨heffective, -⟩ := prepare_ok h
  unfold effective at heffective
  simp only [if_pos hlocal, if_true] at heffective
  cases hendpoint : platform.endpoint epoch with
  | error e =>
    rw [hendpoint] at heffective
    cases heffective
  | ok endpoint =>
    rw [hendpoint] at heffective
    refine ⟨endpoint, ?_⟩
    rw [← Except.ok.inj heffective]
    rfl

/-- Where a graceful switch is chosen, its bootstrap opens nothing that the running
core may have open if and only if the gate passes the source without its DNS section
too, and no HTTP key is kept. -/
theorem overlap_closed_iff (platform : Platform) (addresses : Addresses)
    (dataDir : Option Utf8Path) (setup : Setup Document) (current : Option (Active Document))
    (spec : InstanceSpec) (snapshot : Snapshot Document) (resolved : ResolvedFeatures)
    (epoch : Epoch) (prepared : Prepared Document)
    (hgraceful : degradeReason (configured platform addresses dataDir setup) current spec snapshot
      resolved = none)
    (hprepared : (configured platform addresses dataDir setup).prepareBootstrap snapshot epoch
      resolved.runtime (localIpcSettings (configured platform addresses dataDir setup) spec) =
        .ok prepared) :
    Closed prepared.document.entries ↔
      overlapBlock (snapshot.document.entries.remove "dns") = none ∧
        ((localIpcSettings (configured platform addresses dataDir setup) spec).keepHttpController
            = false ∨
          snapshot.document.get externalController = none ∧
            snapshot.document.get externalControllerTls = none) := by
  obtain ⟨hlocal, hblock⟩ := degradeReason_eq_none hgraceful
  obtain ⟨endpoint, hdocument⟩ := prepare_bootstrap_document hlocal hprepared
  rw [hdocument, overlapBlock_remove_dns]
  exact closed_bootstrap_iff (overlapBlock_dns hblock)

end Switch

/-! ## Two sources -/

def unixSetup : Setup Document := configured unixPlatform plainAddresses none documentSetup

def snapshotOf (document : Document) : Snapshot Document := ⟨"/etc/chimera/config.yaml", document⟩

def localFeatures : ResolvedFeatures := ⟨∅, {RuntimeFeature.localIpc}⟩

def portSource : Document := ⟨[("mixed-port", .number (.int 7890))], by decide +kernel⟩

/-- A document with one port: its bootstrap opens nothing. -/
theorem port_source_closed :
    ∃ prepared, degradeReason unixSetup none mihomoSpec (snapshotOf portSource) localFeatures =
        none ∧
      unixSetup.prepareBootstrap (snapshotOf portSource) Epoch.one localFeatures.runtime
        (localIpcSettings unixSetup mihomoSpec) = .ok prepared ∧
      Closed prepared.document.entries := by
  have hgraceful : degradeReason unixSetup none mihomoSpec (snapshotOf portSource)
      localFeatures = none := by decide +kernel
  have hok : (unixSetup.prepareBootstrap (snapshotOf portSource) Epoch.one localFeatures.runtime
      (localIpcSettings unixSetup mihomoSpec)).isOk = true := by decide +kernel
  cases hprepared : unixSetup.prepareBootstrap (snapshotOf portSource) Epoch.one
      localFeatures.runtime (localIpcSettings unixSetup mihomoSpec) with
  | error e =>
    rw [hprepared] at hok
    cases hok
  | ok prepared =>
    refine ⟨prepared, hgraceful, rfl, ?_⟩
    exact (overlap_closed_iff unixPlatform plainAddresses none documentSetup none mihomoSpec
      (snapshotOf portSource) localFeatures Epoch.one prepared hgraceful hprepared).2
      ⟨by decide +kernel, .inl rfl⟩

/-- A tunnel beside a DNS section that listens nowhere. -/
def tunnelSource : Document :=
  ⟨[("dns", .mapping [("listen", .string "")]),
    ("tunnels", .sequence [.string "tcp/udp,127.0.0.1:6553,114.114.114.114:53,proxy"])],
    by decide +kernel⟩

/-- The gate stops at the empty `dns.listen`, and the bootstrap opens the tunnel
beside the core that may have it open. -/
theorem tunnel_source_overlaps :
    ∃ prepared, degradeReason unixSetup none mihomoSpec (snapshotOf tunnelSource)
        localFeatures = none ∧
      unixSetup.prepareBootstrap (snapshotOf tunnelSource) Epoch.one localFeatures.runtime
        (localIpcSettings unixSetup mihomoSpec) = .ok prepared ∧
      ¬Closed prepared.document.entries := by
  have hkept : (match unixSetup.prepareBootstrap (snapshotOf tunnelSource) Epoch.one
        localFeatures.runtime (localIpcSettings unixSetup mihomoSpec) with
      | .ok prepared => decide (prepared.document.get "tunnels" = some (.sequence
          [.string "tcp/udp,127.0.0.1:6553,114.114.114.114:53,proxy"]))
      | .error _ => false) = true := by decide +kernel
  split at hkept
  · rename_i prepared hprepared
    refine ⟨prepared, by decide +kernel, hprepared, ?_⟩
    intro hclosed
    rcases hclosed.collections "tunnels" (by decide) _ (of_decide_eq_true hkept) with
      h | h | h | h <;> cases h
  · cases hkept

end Chimera.Config
