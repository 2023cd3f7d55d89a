import Chimera.Config.Lossless
import Chimera.Config.Overlap

/-! From a bootstrap document to the full one: the patch is there exactly where every
typed field of a `tun` that was disabled can be read. -/

namespace Chimera.Config
open Chimera.Model

/-! ## What reads -/

/-- Every field of the table that is there and is not null has a value of its type. -/
def Reads (addresses : Addresses) (table : List (String × FieldKind)) (document : Mapping) :
    Prop :=
  ∀ name kind, (name, kind) ∈ table → ∀ value, document.get name = some value →
    value = .null ∨ (kind.read addresses value).isSome = true

/-- The `tun` of a document, if it is enabled, has only fields that read. -/
def Restorable (addresses : Addresses) (document : Mapping) : Prop :=
  ∀ tun : Mapping, document.get "tun" = some (.mapping tun) →
    Mapping.get tun "enable" = some (.bool true) → Reads addresses tunTable tun

section Reading

variable {addresses : Addresses} {table : List (String × FieldKind)} {document : Mapping}
  {allowed : List String} {tun : Mapping}

theorem readFields_isSome : (readFields addresses document table).isSome = true ↔
    Reads addresses table document := by
  induction table with
  | nil => exact iff_of_true rfl fun _ _ h => by cases h
  | cons field rest ih =>
    obtain ⟨name, kind⟩ := field
    have hcons : Reads addresses ((name, kind) :: rest) document ↔
        Reads addresses rest document ∧ ∀ value, document.get name = some value →
          value = .null ∨ (kind.read addresses value).isSome = true := by
      constructor
      · intro h
        exact ⟨fun n k hmem => h n k (List.mem_cons_of_mem _ hmem),
          h name kind List.mem_cons_self⟩
      · intro h n k hmem
        rcases List.mem_cons.1 hmem with heq | hrest
        · cases heq
          exact h.2
        · exact h.1 n k hrest
    rw [hcons, ← ih, readFields]
    cases hrest : readFields addresses document rest with
    | none => simp
    | some fields =>
      cases hget : document.get name with
      | none => simp
      | some value =>
        cases hread : kind.read addresses value with
        | some field => cases value <;> simp [hread]
        | none => cases value <;> simp [hread]

theorem reads_filter (hlisted : Listed table allowed) :
    Reads addresses table (tun.filter fun entry => allowed.contains entry.1) ↔
      Reads addresses table tun := by
  have hget : ∀ name kind, (name, kind) ∈ table →
      Mapping.get (tun.filter fun entry => allowed.contains entry.1) name =
        Mapping.get tun name := by
    intro name kind hmem
    rw [get_filter, if_pos]
    rw [hlisted.allowed_eq]
    exact List.mem_cons_of_mem _ (List.mem_map.2 ⟨(name, kind), hmem, rfl⟩)
  constructor
  · intro h name kind hmem value hvalue
    exact h name kind hmem value ((hget name kind hmem).trans hvalue)
  · intro h name kind hmem value hvalue
    exact h name kind hmem value ((hget name kind hmem).symm.trans hvalue)

theorem readNested_isSome (henable : Mapping.get document "enable" = some (.bool true)) :
    (readNested addresses table (.mapping document)).isSome = true ↔
      Reads addresses table document := by
  rw [← readFields_isSome, readNested, henable]
  cases readFields addresses document table with
  | none => simp [Value.asBool]
  | some fields => simp [Value.asBool]

end Reading

/-! ## What zeroing leaves to restore -/

section Zeroed

variable {document : Mapping} {entry : DiffEntry} {key : String}

/-- A port that zeroing changes is a number of 64 bits. -/
theorem zeroPort_changes {value : Value} (h : zeroPort value ≠ value) :
    ∃ n, value.asI64 = some n := by
  by_cases hsome : (value.asI64.filter (· ≠ 0)).isSome = true
  · obtain ⟨n, hn⟩ := Option.isSome_iff_exists.1 hsome
    exact ⟨n, (Option.filter_eq_some_iff.1 hn).1⟩
  · exact absurd (if_neg hsome) h

theorem disableTun_changes {value : Value} (h : disableTun value ≠ value) :
    ∃ tun : Mapping, value = .mapping tun ∧ Mapping.get tun "enable" = some (.bool true) := by
  cases value with
  | mapping tun =>
    by_cases henable : (Mapping.get tun "enable").bind Value.asBool = some true
    · obtain ⟨enable, hget, hbool⟩ := Option.bind_eq_some_iff.1 henable
      exact ⟨tun, rfl, by rw [hget, asBool_eq hbool]⟩
    · exact absurd (if_neg henable) h
  | null | bool _ | number _ | string _ | sequence _ => exact absurd rfl h

/-- Where zeroing changes a document: at ports that are numbers, and at an enabled `tun`. -/
theorem zeroed_ne (h : (zeroInbounds document).get key ≠ document.get key) :
    (key ∈ inboundPortFields ∧ ∃ value n, document.get key = some value ∧ value.asI64 = some n) ∨
      key = "tun" ∧ ∃ tun : Mapping, document.get "tun" = some (.mapping tun) ∧
        Mapping.get tun "enable" = some (.bool true) := by
  rw [get_zeroInbounds] at h
  split at h
  · rename_i hport
    cases hget : document.get key with
    | none => exact absurd (by rw [hget]; rfl) h
    | some value =>
      have hne : zeroPort value ≠ value := fun heq => h (by rw [hget, Option.map_some, heq])
      obtain ⟨n, hn⟩ := zeroPort_changes hne
      exact .inl ⟨hport, value, n, rfl, hn⟩
  · split at h
    · rename_i htun
      subst htun
      cases hget : document.get "tun" with
      | none => exact absurd (by rw [hget]; rfl) h
      | some value =>
        have hne : disableTun value ≠ value := fun heq => h (by rw [hget, Option.map_some, heq])
        obtain ⟨tun, rfl, henable⟩ := disableTun_changes hne
        exact .inr ⟨rfl, tun, rfl, henable⟩
    · exact absurd rfl h

theorem zeroed_tun_ne {tun : Mapping} (htun : document.get "tun" = some (.mapping tun))
    (henable : Mapping.get tun "enable" = some (.bool true)) :
    (zeroInbounds document).get "tun" ≠ document.get "tun" := by
  rw [get_zeroInbounds, if_neg (by decide), if_pos rfl, htun, Option.map_some, disableTun,
    if_pos (by rw [henable]; rfl)]
  intro heq
  have hget : Mapping.get (Mapping.insert tun "enable" (.bool false)) "enable" =
      Mapping.get tun "enable" := by
    rw [Value.mapping.inj (Option.some.inj heq)]
  rw [Mapping.get_insert, if_pos rfl, henable] at hget
  cases hget

/-- All that zeroing changes can be patched. -/
theorem zeroed_patchable (hentry : entry ∈ diff (zeroInbounds document) document) :
    patchable entry = true := by
  obtain ⟨key, hkey⟩ := mem_diff.1 hentry
  have hports : ∀ port ∈ inboundPortFields, patchFields.contains port = true ∧
      patchNestedPathIsSupported [port] = true := by decide
  by_cases hne : (zeroInbounds document).get key = document.get key
  · rw [hne, diffValue_self] at hkey
    cases hkey
  rw [get_zeroInbounds] at hkey
  rcases zeroed_ne hne with ⟨hport, value, n, hvalue, hn⟩ | ⟨rfl, tun, htun, henable⟩
  · have hcomparable : comparable (some (zeroPort value)) (some value) = false := by
      rw [asI64_eq hn]
      unfold comparable
      simp [Value.asMapping]
    rw [if_pos hport, hvalue, Option.map_some, diffValue_leaf _ hcomparable] at hkey
    · cases List.mem_singleton.1 hkey
      obtain ⟨hlisted, hnested⟩ := hports key hport
      exact patchable_iff.2 ⟨rfl, hlisted, hnested⟩
    · intro heq
      rw [get_zeroInbounds, if_pos hport, hvalue, Option.map_some, heq] at hne
      exact hne rfl
  · rw [if_neg (by decide), if_pos rfl, htun, Option.map_some, disableTun,
      if_pos (by rw [henable]; rfl), mem_diffValue_mappings] at hkey
    obtain ⟨field, hfield⟩ := hkey
    rw [Mapping.get_insert] at hfield
    by_cases hself : field = "enable"
    · rw [if_pos hself, hself, henable, diffValue_leaf (by simp) rfl] at hfield
      cases List.mem_singleton.1 hfield
      exact patchable_iff.2 ⟨rfl, by decide, by decide⟩
    · rw [if_neg hself, diffValue_self] at hfield
      cases hfield

end Zeroed

/-! ## The patch -/

section Patch

variable {addresses : Addresses} {desired document : Mapping} {roots : List String}
  {root : String}

/-- A patch document is there if every root is, and is a mapping where it has to be. -/
theorem patchDocument_some {base : Mapping} (h : ∀ root ∈ roots, ∃ value carried,
    desired.get root = some value ∧ patchRoot root value = .ok carried) :
    ∃ document, patchDocument desired roots base = .ok (some document) := by
  induction roots generalizing base with
  | nil => exact ⟨base, rfl⟩
  | cons root rest ih =>
    obtain ⟨value, carried, hvalue, hcarried⟩ := h root List.mem_cons_self
    have hrest : ∃ document, patchDocument desired rest (base.insert root carried) =
        .ok (some document) := ih fun r hr => h r (List.mem_cons_of_mem _ hr)
    obtain ⟨document, hdocument⟩ := hrest
    refine ⟨document, ?_⟩
    rw [patchDocument, hvalue]
    simp only [hcarried, bind, Except.bind]
    exact hdocument

/-- What the patch document of a zeroed document has: ports that read, an enabled `tun`
without the fields that no patch has, and nothing else. -/
structure Carries (desired document : Mapping) : Prop where
  ports : ∀ key ∈ inboundPortFields, ∀ value, document.get key = some value →
    (value.asI64).isSome = true
  enabled : ∀ tun : Mapping, desired.get "tun" = some (.mapping tun) →
    Mapping.get tun "enable" = some (.bool true) → document.get "tun" =
      some (.mapping (tun.filter fun entry => tunPatchFields.contains entry.1))
  disabled : (∀ tun : Mapping, desired.get "tun" = some (.mapping tun) →
    Mapping.get tun "enable" ≠ some (.bool true)) → document.get "tun" = none
  others : ∀ key, key ∉ inboundPortFields → key ≠ "tun" → document.get key = none

theorem patchRoot_port (hport : root ∈ inboundPortFields) (value : Value) :
    patchRoot root value = .ok value := by
  have hnested : ∀ port ∈ inboundPortFields, port ≠ "tun" ∧ port ≠ "tuic-server" := by decide
  obtain ⟨htun, htuic⟩ := hnested root hport
  rw [patchRoot, if_neg htun, if_neg htuic]

theorem zeroed_document (hdesired : desired.Canonical) :
    ∃ document, patchDocument desired (changedRoots (diff (zeroInbounds desired) desired)) [] =
      .ok (some document) ∧ Carries desired document := by
  have hroots (root : String) : root ∈ changedRoots (diff (zeroInbounds desired) desired) ↔
      (zeroInbounds desired).get root ≠ desired.get root :=
    mem_changedRoots (zeroInbounds_canonical hdesired) hdesired
  have hsome : ∃ document, patchDocument desired
      (changedRoots (diff (zeroInbounds desired) desired)) [] = .ok (some document) := by
    refine patchDocument_some fun root hroot => ?_
    rcases zeroed_ne ((hroots root).1 hroot) with ⟨hport, value, n, hvalue, -⟩ | ⟨rfl, tun, htun, -⟩
    · exact ⟨value, value, hvalue, patchRoot_port hport value⟩
    · exact ⟨.mapping tun, _, htun, rfl⟩
  obtain ⟨document, hdocument⟩ := hsome
  have habsent : ∀ key, (zeroInbounds desired).get key = desired.get key →
      document.get key = none := by
    intro key hsame
    rw [(get_patchDocument key hdocument).2 fun hroot => (hroots key).1 hroot hsame]
    rfl
  refine ⟨document, hdocument, ?_, ?_, ?_, ?_⟩
  · intro key hport value hvalue
    by_cases hsame : (zeroInbounds desired).get key = desired.get key
    · rw [habsent key hsame] at hvalue
      cases hvalue
    · obtain ⟨old, carried, hold, hcarried, hget⟩ :=
        (get_patchDocument key hdocument).1 ((hroots key).2 hsame)
      rw [patchRoot_port hport] at hcarried
      cases hcarried
      rw [hget] at hvalue
      cases hvalue
      rcases zeroed_ne hsame with ⟨-, value, n, hvalue, hn⟩ | ⟨rfl, -⟩
      · rw [hold] at hvalue
        cases hvalue
        rw [hn]
        rfl
      · exact absurd hport (by decide)
  · intro tun htun henable
    obtain ⟨old, carried, hold, hcarried, hget⟩ :=
      (get_patchDocument "tun" hdocument).1 ((hroots "tun").2 (zeroed_tun_ne htun henable))
    rw [htun] at hold
    cases hold
    cases hcarried
    exact hget
  · intro hdisabled
    refine habsent "tun" ?_
    by_contra hne
    rcases zeroed_ne hne with ⟨hport, -⟩ | ⟨-, tun, htun, henable⟩
    · exact absurd hport (by decide)
    · exact hdisabled tun htun henable
  · intro key hport htun
    refine habsent key ?_
    rw [get_zeroInbounds, if_neg hport, if_neg htun]

theorem Carries.enable (h : Carries desired document) (root : String)
    (hroot : root = "tun" ∨ root = "tuic-server") : lacksEnable document root = false := by
  rcases hroot with rfl | rfl
  · by_cases henabled : ∃ tun : Mapping, desired.get "tun" = some (.mapping tun) ∧
        Mapping.get tun "enable" = some (.bool true)
    · obtain ⟨tun, htun, henable⟩ := henabled
      rw [lacksEnable, h.enabled tun htun henable]
      simp only [Option.any_some, Value.asMapping, Option.bind_some]
      rw [get_filter, if_pos (by decide), henable]
      rfl
    · rw [lacksEnable, h.disabled fun tun htun henable => henabled ⟨tun, htun, henable⟩]
      rfl
  · rw [lacksEnable, h.others "tuic-server" (by decide) (by decide)]
    rfl

/-- The patch is read if and only if the `tun` that it enables is. -/
theorem Carries.read_isSome (h : Carries desired document) :
    (ConfigPatch.read addresses document).isSome = true ↔ Restorable addresses desired := by
  have hkinds : ∀ field ∈ patchTable, (field.1 ∈ inboundPortFields → field.2 = .i64) ∧
      field.1 ≠ "tun" := by decide
  have hfields : (readFields addresses document patchTable).isSome = true := by
    rw [readFields_isSome]
    intro name kind hmem value hvalue
    obtain ⟨hkind, hname⟩ := hkinds (name, kind) hmem
    by_cases hport : name ∈ inboundPortFields
    · obtain rfl := hkind hport
      right
      rw [FieldKind.read, Option.isSome_map]
      exact h.ports name hport value hvalue
    · rw [h.others name hport hname] at hvalue
      cases hvalue
  have htuic : document.get "tuic-server" = none := h.others "tuic-server" (by decide) (by decide)
  have hread : (ConfigPatch.read addresses document).isSome = true ↔
      (readOptional addresses tunTable (document.get "tun")).isSome = true := by
    obtain ⟨fields, hfields⟩ := Option.isSome_iff_exists.1 hfields
    rw [ConfigPatch.read, hfields, htuic]
    cases readOptional addresses tunTable (document.get "tun") with
    | none => simp
    | some tun => simp [readOptional]
  rw [hread]
  by_cases henabled : ∃ tun : Mapping, desired.get "tun" = some (.mapping tun) ∧
      Mapping.get tun "enable" = some (.bool true)
  · obtain ⟨tun, htun, henable⟩ := henabled
    have hfiltered : Mapping.get (tun.filter fun entry => tunPatchFields.contains entry.1)
        "enable" = some (.bool true) := by
      rw [get_filter, if_pos (by decide), henable]
    have hrestorable : Restorable addresses desired ↔ Reads addresses tunTable tun := by
      constructor
      · intro hall
        exact hall tun htun henable
      · intro hreads other hother _
        rw [htun] at hother
        cases hother
        exact hreads
    rw [h.enabled tun htun henable, readOptional, Option.isSome_map, readNested_isSome hfiltered,
      reads_filter tun_listed, hrestorable]
    · rintro ⟨⟩
  · have hdisabled : ∀ tun : Mapping, desired.get "tun" = some (.mapping tun) →
        Mapping.get tun "enable" ≠ some (.bool true) :=
      fun tun htun henable => henabled ⟨tun, htun, henable⟩
    rw [h.disabled hdisabled]
    exact iff_of_true rfl fun tun htun henable => absurd henable (hdisabled tun htun)

theorem dnsListen_zeroInbounds : dnsListen (zeroInbounds document) = dnsListen document := by
  unfold dnsListen
  rw [get_zeroInbounds, if_neg (by decide), if_neg (by decide)]

theorem buildPatch_of_document (addresses : Addresses) {changes : List DiffEntry}
    (hdocument : patchDocument desired (changedRoots changes) [] = .ok (some document))
    (henable : ["tun", "tuic-server"].any (lacksEnable document) = false) :
    buildPatch addresses desired changes = match ConfigPatch.read addresses document with
      | none => .ok .switch
      | some patch => .ok (.patch patch (collectLeaves [] (.mapping patch.write))) := by
  rw [buildPatch, hdocument]
  simp only [bind, Except.bind, henable]
  rfl

/-- The change from a zeroed document: none where nothing was zeroed, a patch where it
reads, and otherwise a switch. -/
theorem classify_zeroed (addresses : Addresses) (hdesired : desired.Canonical) :
    (zeroInbounds desired = desired →
      classifyDocuments addresses (zeroInbounds desired) desired = .ok .noop) ∧
    (zeroInbounds desired ≠ desired → Restorable addresses desired → ∃ patch projection,
      classifyDocuments addresses (zeroInbounds desired) desired =
        .ok (.patch patch projection)) ∧
    (¬Restorable addresses desired →
      classifyDocuments addresses (zeroInbounds desired) desired = .ok .switch) := by
  have hnil : (diff (zeroInbounds desired) desired).isEmpty = true ↔
      zeroInbounds desired = desired := by
    rw [List.isEmpty_iff, diff_eq_nil_iff (zeroInbounds_canonical hdesired) hdesired]
  have hall : (diff (zeroInbounds desired) desired).all patchable = true :=
    List.all_eq_true.2 fun entry => zeroed_patchable
  have hchanged (hne : zeroInbounds desired ≠ desired) :
      classifyDocuments addresses (zeroInbounds desired) desired =
        buildPatch addresses desired (diff (zeroInbounds desired) desired) := by
    rw [classifyDocuments, if_neg (not_not.2 dnsListen_zeroInbounds)]
    simp only
    rw [if_neg (fun h => hne (hnil.1 h)), if_pos hall]
  obtain ⟨document, hdocument, hcarries⟩ := zeroed_document hdesired
  have henable : ["tun", "tuic-server"].any (lacksEnable document) = false := by
    simp [hcarries.enable]
  have hbuilt := buildPatch_of_document addresses hdocument henable
  have hrestorable : (ConfigPatch.read addresses document).isSome = true ↔
      Restorable addresses desired := hcarries.read_isSome
  refine ⟨?_, ?_, ?_⟩
  · intro hsame
    rw [classifyDocuments, if_neg (not_not.2 dnsListen_zeroInbounds)]
    simp only
    rw [if_pos (hnil.2 hsame)]
  · intro hne hreads
    obtain ⟨patch, hpatch⟩ := Option.isSome_iff_exists.1 (hrestorable.2 hreads)
    exact ⟨patch, _, by rw [hchanged hne, hbuilt, hpatch]⟩
  · intro hreads
    have hnone : ConfigPatch.read addresses document = none := by
      rw [← Option.not_isSome_iff_eq_none, hrestorable]
      exact hreads
    have hne : zeroInbounds desired ≠ desired := by
      intro hsame
      refine hreads fun tun htun henabled => ?_
      exact absurd (by rw [hsame]) (zeroed_tun_ne htun henabled)
    rw [hchanged hne, hbuilt, hnone]

end Patch

/-! ## Bootstrap and full documents -/

section Launch

variable {platform : Platform} {document : Mapping} {endpoint key : String} {keepHttp : Bool}

theorem get_rewrite_other (hkey : key ∉ controllerFields) :
    (rewriteManagedController platform document endpoint keepHttp).get key = document.get key := by
  simp only [controllerFields, List.mem_cons, List.not_mem_nil, or_false, not_or] at hkey
  obtain ⟨hhttp, htls, hpipe, hunix, -⟩ := hkey
  have hlocal : key ≠ platform.localField := by
    rcases localField_cases platform with h | h
    · rw [h]
      exact hpipe
    · rw [h]
      exact hunix
  rw [get_rewriteManagedController, if_neg hlocal, if_neg]
  simp [hhttp, htls, hpipe, hunix]

/-- A bootstrap document is the full one, zeroed. -/
theorem bootstrap_eq (hdocument : document.Canonical) :
    bootstrap platform document endpoint keepHttp =
      zeroInbounds (rewriteManagedController platform document endpoint keepHttp) := by
  refine (rewriteManagedController_canonical (zeroInbounds_canonical hdocument)).ext
    (zeroInbounds_canonical (rewriteManagedController_canonical hdocument)) fun key => ?_
  rw [get_zeroInbounds]
  by_cases hkey : key ∈ controllerFields
  · have hplain : ∀ key ∈ controllerFields, key ∉ inboundPortFields ∧ key ≠ "tun" := by decide
    obtain ⟨hport, htun⟩ := hplain key hkey
    rw [if_neg hport, if_neg htun, get_rewriteManagedController, get_rewriteManagedController,
      get_zeroInbounds, if_neg hport, if_neg htun]
  · rw [get_rewrite_other hkey, get_rewrite_other hkey, get_rewrite_other (by decide),
      get_zeroInbounds]

end Launch

/-- A bootstrap document can be restored to the full one if and only if every field of
an enabled `tun` reads. What cannot be restored is refused before anything is launched,
and no difference of the two asks for a reload. -/
theorem restorable_iff (platform : Platform) (addresses : Addresses) (document : Document)
    (endpoint : String) (keepHttp : Bool) :
    ((∃ restoration, restorationPatch addresses
        (bootstrap platform document.entries endpoint keepHttp)
        (rewriteManagedController platform document.entries endpoint keepHttp) =
          .ok restoration) ↔ Restorable addresses document.entries) ∧
    (¬Restorable addresses document.entries → restorationPatch addresses
        (bootstrap platform document.entries endpoint keepHttp)
        (rewriteManagedController platform document.entries endpoint keepHttp) =
          .error (.invalidConfig
            "graceful bootstrap cannot be restored losslessly with ConfigPatch")) ∧
    classifyDocuments addresses (bootstrap platform document.entries endpoint keepHttp)
      (rewriteManagedController platform document.entries endpoint keepHttp) ≠ .ok .reload := by
  have hcanonical : (rewriteManagedController platform document.entries endpoint
      keepHttp).Canonical := rewriteManagedController_canonical document.canonical
  have hrestorable : Restorable addresses (rewriteManagedController platform document.entries
      endpoint keepHttp) ↔ Restorable addresses document.entries := by
    unfold Restorable
    rw [get_rewrite_other (by decide)]
  rw [bootstrap_eq document.canonical, ← hrestorable]
  generalize rewriteManagedController platform document.entries endpoint keepHttp = full
    at hcanonical
  obtain ⟨hnoop, hpatch, hswitch⟩ := classify_zeroed addresses hcanonical
  unfold restorationPatch
  by_cases hreads : Restorable addresses full
  · by_cases hsame : zeroInbounds full = full
    · rw [hnoop hsame]
      exact ⟨iff_of_true ⟨none, rfl⟩ hreads, fun h => absurd hreads h, by simp⟩
    · obtain ⟨patch, projection, hpatch⟩ := hpatch hsame hreads
      rw [hpatch]
      exact ⟨iff_of_true ⟨some patch, rfl⟩ hreads, fun h => absurd hreads h, by simp⟩
  · rw [hswitch hreads]
    refine ⟨iff_of_false ?_ hreads, fun _ => rfl, by simp⟩
    intro h
    obtain ⟨restoration, h⟩ := h
    cases h

/-- A `tun` whose MTU is a text. -/
def textMtuDocument : Document :=
  ⟨[("tun", .mapping [("enable", .bool true), ("mtu", .string "jumbo")])], rfl⟩

/-- The gate passes it, and its bootstrap cannot be restored. -/
theorem text_mtu_not_restored : overlapBlock textMtuDocument.entries = none ∧
    restorationPatch plainAddresses
      (bootstrap unixPlatform textMtuDocument.entries "/run/chimera/core-1.sock" false)
      (rewriteManagedController unixPlatform textMtuDocument.entries "/run/chimera/core-1.sock"
        false) = .error (.invalidConfig
          "graceful bootstrap cannot be restored losslessly with ConfigPatch") := by
  refine ⟨by decide +kernel, ?_⟩
  have hswitch : classifyDocuments plainAddresses
      (bootstrap unixPlatform textMtuDocument.entries "/run/chimera/core-1.sock" false)
      (rewriteManagedController unixPlatform textMtuDocument.entries "/run/chimera/core-1.sock"
        false) = .ok .switch := by decide +kernel
  rw [restorationPatch, hswitch]
  rfl

end Chimera.Config
