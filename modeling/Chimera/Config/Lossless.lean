import Chimera.Config.Classify

/-! What a patch loses: a core that merges it into its document has the desired one if
and only if every value that the patch carries comes back from its type as it was. -/

namespace Chimera.Config
open Chimera.Model Chimera.Manager

/-! ## What comes through -/

/-- A value that is carried under a field of this type arrives: a `null` is not
carried, so it has to be there already. -/
def Survives (addresses : Addresses) (kind : FieldKind) (current : Option Value) :
    Option Value → Prop
  | none => True
  | some .null => current = some .null
  | some value => Spelled addresses kind value

/-- Every field of the patch arrives: the changed ones, and all of `tun` and
`tuic-server` where anything in them changed. -/
structure Kept (addresses : Addresses) (current desired : Mapping) : Prop where
  fields : ∀ name kind, (name, kind) ∈ patchTable → current.get name ≠ desired.get name →
    Survives addresses kind (current.get name) (desired.get name)
  tun : current.get "tun" ≠ desired.get "tun" → ∀ name kind, (name, kind) ∈ tunTable →
    Survives addresses kind ((mappingOf (current.get "tun")).get name)
      ((mappingOf (desired.get "tun")).get name)
  tuicServer : current.get "tuic-server" ≠ desired.get "tuic-server" →
    ∀ name kind, (name, kind) ∈ tuicServerTable →
      Survives addresses kind ((mappingOf (current.get "tuic-server")).get name)
        ((mappingOf (desired.get "tuic-server")).get name)

section Values

variable {addresses : Addresses} {kind : FieldKind} {value : Value} {field : FieldValue}
  {current : Option Value}

theorem scalars_canonical {α : Type} {f : α → Value} (hf : ∀ x, (f x).canonical = true)
    (values : List α) : (Value.sequence (values.map f)).canonical = true := by
  change Value.canonicalItems (values.map f) = true
  rw [Value.canonicalItems_iff]
  intro v hv
  obtain ⟨x, -, rfl⟩ := List.mem_map.1 hv
  exact hf x

/-- Only `users` is written as a mapping. -/
theorem write_asMapping (h : kind.read addresses value = some field) (hkind : kind ≠ .users) :
    field.write.asMapping = none ∧ field.write.canonical = true := by
  cases kind with
  | users => exact absurd rfl hkind
  | i64 | u32 | bool | text | choice _ | stack =>
    obtain ⟨x, -, rfl⟩ := Option.map_eq_some_iff.1 h
    exact ⟨rfl, rfl⟩
  | i64s | u32s | texts | nets | addrs =>
    obtain ⟨x, -, rfl⟩ := Option.map_eq_some_iff.1 h
    exact ⟨rfl, scalars_canonical (fun _ => rfl) x⟩

theorem write_canonical (h : kind.read addresses value = some field)
    (hvalue : value.canonical = true) : field.write.canonical = true := by
  by_cases hkind : kind = .users
  · subst hkind
    rw [(write_read_iff h).2 trivial]
    exact hvalue
  · exact (write_asMapping h hkind).2

theorem mergeValue_of_asMapping (h : value.asMapping = none) : mergeValue current value = value := by
  cases value with
  | mapping m => cases h
  | null | bool _ | number _ | string _ | sequence _ => rfl

/-- A mapping of texts over one that it covers. -/
theorem merge_texts {target patch : Mapping} (htarget : target.Canonical)
    (hpatch : patch.Canonical) (htexts : ∀ key v, patch.get key = some v → v.asMapping = none)
    (hcovers : ∀ key, patch.get key = none → target.get key = none) :
    merge target patch = patch := by
  have hordered := (Mapping.canonical_iff.1 hpatch).1
  have hentries := Value.canonicalEntries_iff.2 (Mapping.canonical_iff.1 hpatch).2
  refine (merge_canonical target patch htarget hentries).ext hpatch ?_
  intro key
  cases hkey : patch.get key with
  | none => rw [get_merge_other hkey, hcovers key hkey]
  | some v => rw [get_merge hordered hkey, mergeValue_of_asMapping (htexts key v hkey)]

/-- A carried value arrives if and only if it is spelled as its type prints it. -/
theorem arrives_iff (h : kind.read addresses value = some field) (hvalue : value.canonical = true)
    (hcurrent : ∀ v, current = some v → v.canonical = true)
    (hcovers : ∀ target patch : Mapping, current = some (.mapping target) → value = .mapping patch →
      ∀ key, patch.get key = none → target.get key = none) :
    mergeValue current field.write = value ↔ Spelled addresses kind value := by
  by_cases hkind : kind = .users
  · subst hkind
    have hwrite : field.write = value := (write_read_iff h).2 trivial
    refine iff_of_true ?_ trivial
    rw [hwrite]
    cases value with
    | mapping patch =>
      cases current with
      | none => rfl
      | some c =>
        cases c with
        | mapping target =>
          change Value.mapping (merge target patch) = .mapping patch
          have htexts : ∀ key v, Mapping.get patch key = some v → v.asMapping = none := by
            intro key v hv
            obtain ⟨users, -, rfl⟩ := Option.map_eq_some_iff.1 h
            rw [FieldValue.write, Value.mapping.injEq] at hwrite
            rw [← hwrite] at hv
            obtain ⟨user, -, huser⟩ := List.mem_map.1 (Lib.Keyed.lookup_mem hv)
            cases huser
            rfl
          rw [merge_texts (hcurrent _ rfl) hvalue htexts (hcovers target patch rfl rfl)]
        | null | bool _ | number _ | string _ | sequence _ => rfl
    | null | bool _ | number _ | string _ | sequence _ => cases h
  · rw [mergeValue_of_asMapping (write_asMapping h hkind).1]
    exact write_read_iff h

end Values

section Tables

variable {addresses : Addresses} {table : List (String × FieldKind)} {document base target written : Mapping}
  {fields : List (String × FieldValue)} {name : String} {kind : FieldKind}

theorem writeFields_canonical (hdocument : document.Canonical)
    (h : readFields addresses document table = some fields) (hbase : base.Canonical) :
    (writeFields base fields).Canonical := by
  induction table generalizing fields base with
  | nil =>
    cases h
    exact hbase
  | cons entry rest ih =>
    obtain ⟨other, kind⟩ := entry
    simp only [readFields, Option.bind_eq_bind, Option.bind_eq_some_iff] at h
    obtain ⟨others, hothers, h⟩ := h
    split at h
    · cases h
      exact ih hothers hbase
    · cases h
      exact ih hothers hbase
    · rename_i value _ hvalue
      obtain ⟨field, hfield, heq⟩ := Option.bind_eq_some_iff.1 h
      cases heq
      change (writeFields (base.insert other field.write) others).Canonical
      exact ih hothers (hbase.insert (write_canonical hfield (hdocument.of_get hvalue)))

/-- A field of a struct arrives if and only if its value survives. -/
theorem field_arrives_iff (hnames : (table.map Prod.fst).Nodup) (hdocument : document.Canonical)
    (h : readFields addresses document table = some fields) (hmem : (name, kind) ∈ table)
    (hbase : base.get name = none) (hordered : Lib.Keyed.Ordered written)
    (hwritten : written.get name = (writeFields base fields).get name) (htarget : target.Canonical)
    (hkept : document.get name = none → target.get name = none)
    (hcovers : ∀ inner patch : Mapping, target.get name = some (.mapping inner) →
      document.get name = some (.mapping patch) →
        ∀ key, patch.get key = none → inner.get key = none) :
    (merge target written).get name = document.get name ↔
      Survives addresses kind (target.get name) (document.get name) := by
  have hfields := get_writeFields base hnames h hmem
  rw [← hwritten, hbase] at hfields
  rcases hfields with ⟨habsent, hnone⟩ | ⟨value, field, hvalue, hnull, hfield, hsome⟩
  · rw [get_merge_other hnone]
    rcases habsent with habsent | habsent
    · rw [habsent]
      exact iff_of_true (hkept habsent) trivial
    · rw [habsent]
      exact Iff.rfl
  · rw [get_merge hordered hsome, hvalue, Option.some.injEq]
    have hsurvives : Survives addresses kind (target.get name) (some value) ↔
        Spelled addresses kind value := by
      cases value with
      | null => exact absurd rfl hnull
      | bool _ | number _ | string _ | sequence _ | mapping _ => exact Iff.rfl
    rw [hsurvives]
    refine arrives_iff hfield (hdocument.of_get hvalue) (fun v hv => htarget.of_get hv) ?_
    intro inner patch hinner hpatch
    exact hcovers inner patch hinner (by rw [hvalue, hpatch])

end Tables

/-! ## What a patch is made of -/

section Roots

variable {addresses : Addresses} {current desired document : Mapping} {key root name : String}
  {entry : DiffEntry}

theorem mem_changedRoots (hcurrent : current.Canonical) (hdesired : desired.Canonical) :
    key ∈ changedRoots (diff current desired) ↔ current.get key ≠ desired.get key := by
  rw [changedRoots, List.mem_insertionSort, List.mem_dedup, List.mem_filterMap]
  constructor
  · intro h heq
    obtain ⟨entry, hentry, hhead⟩ := h
    obtain ⟨other, hother⟩ := mem_diff.1 hentry
    obtain ⟨rest, hpath⟩ := diffValue_path hother
    rw [hpath, List.cons_append, List.head?_cons, Option.some.injEq] at hhead
    subst hhead
    rw [heq, diffValue_self] at hother
    cases hother
  · intro hne
    obtain ⟨entry, hentry, rest, hpath⟩ := exists_entry_of_ne hcurrent hdesired hne
    exact ⟨entry, hentry, by rw [hpath]; rfl⟩

theorem filter_canonical {m : Mapping} (p : String → Bool) (hm : m.Canonical) :
    Mapping.Canonical (m.filter fun entry => p entry.1) := by
  obtain ⟨hordered, hentries⟩ := Mapping.canonical_iff.1 hm
  exact Mapping.canonical_iff.2 ⟨List.Pairwise.filter _ hordered, fun entry hentry =>
    hentries entry (List.mem_filter.1 hentry).1⟩

theorem filterMapping_ok {value carried : Value} {allowed : List String}
    (h : filterMapping value allowed = .ok carried) : ∃ m : Mapping, value = .mapping m ∧
      carried = .mapping (m.filter fun entry => allowed.contains entry.1) := by
  cases value with
  | mapping m => exact ⟨m, rfl, (Except.ok.inj h).symm⟩
  | null | bool _ | number _ | string _ | sequence _ => cases h

theorem patchRoot_canonical {value carried : Value} (hvalue : value.canonical = true)
    (h : patchRoot root value = .ok carried) : carried.canonical = true := by
  unfold patchRoot at h
  split at h
  · obtain ⟨m, rfl, rfl⟩ := filterMapping_ok h
    exact filter_canonical _ hvalue
  · split at h
    · obtain ⟨m, rfl, rfl⟩ := filterMapping_ok h
      exact filter_canonical _ hvalue
    · cases h
      exact hvalue

/-- The document of a patch has the changed roots and no other field. -/
theorem get_patchDocument (key : String) {roots : List String} {base : Mapping}
    (h : patchDocument desired roots base = .ok (some document)) :
    (key ∈ roots → ∃ value carried, desired.get key = some value ∧
      patchRoot key value = .ok carried ∧ document.get key = some carried) ∧
    (key ∉ roots → document.get key = base.get key) := by
  induction roots generalizing base with
  | nil =>
    cases h
    exact ⟨nofun, fun _ => rfl⟩
  | cons root rest ih =>
    rw [patchDocument] at h
    split at h
    · cases h
    · rename_i value hvalue
      cases hcarried : patchRoot root value with
      | error e =>
        rw [hcarried] at h
        cases h
      | ok carried =>
        rw [hcarried] at h
        obtain ⟨hmem, hother⟩ := ih h
        constructor
        · intro hkey
          by_cases hrest : key ∈ rest
          · exact hmem hrest
          · rcases List.mem_cons.1 hkey with heq | hrest'
            · subst heq
              refine ⟨value, carried, hvalue, hcarried, ?_⟩
              rw [hother hrest, Mapping.get_insert, if_pos rfl]
            · exact absurd hrest' hrest
        · intro hkey
          rw [List.mem_cons, not_or] at hkey
          rw [hother hkey.2, Mapping.get_insert, if_neg hkey.1]

theorem patchDocument_canonical {roots : List String} {base : Mapping}
    (hdesired : desired.Canonical) (hbase : base.Canonical)
    (h : patchDocument desired roots base = .ok (some document)) : document.Canonical := by
  induction roots generalizing base with
  | nil =>
    cases h
    exact hbase
  | cons root rest ih =>
    rw [patchDocument] at h
    split at h
    · cases h
    · rename_i value hvalue
      cases hcarried : patchRoot root value with
      | error e =>
        rw [hcarried] at h
        cases h
      | ok carried =>
        rw [hcarried] at h
        exact ih (hbase.insert (patchRoot_canonical (hdesired.of_get hvalue) hcarried)) h

end Roots

/-! ## What every entry of a patch allows -/

section Entries

variable {current desired : Option Value} {path : List String} {entry : DiffEntry}

theorem patchable_iff : patchable entry = true ↔ entry.new.isSome = true ∧
    entry.path.head?.any patchFields.contains = true ∧
    patchNestedPathIsSupported entry.path = true := by
  rw [patchable, Bool.and_eq_true, Bool.and_eq_true, and_assoc]

/-- Nothing is removed where every entry has a new value. -/
theorem absent_of_new (path : List String)
    (hcurrent : ∀ v, current = some v → v.canonical = true)
    (hnew : ∀ entry ∈ diffValue current desired path, entry.new.isSome = true)
    (hdesired : desired = none) : current = none := by
  by_contra hne
  have hnil : diffValue current desired path ≠ [] := by
    refine diffValue_ne_nil hcurrent ?_ ?_
    · intro v hv
      rw [hdesired] at hv
      cases hv
    · rw [hdesired]
      exact hne
  obtain ⟨entry, hentry⟩ := List.exists_mem_of_ne_nil _ hnil
  have hsome := hnew entry hentry
  rw [diffValue_removed hdesired hentry] at hsome
  cases hsome

theorem covers_of_new {inner patch : Mapping}
    (hcurrent : ∀ v, current = some v → v.canonical = true)
    (hnew : ∀ entry ∈ diffValue current desired path, entry.new.isSome = true)
    (hinner : current = some (.mapping inner)) (hpatch : desired = some (.mapping patch)) :
    ∀ key, patch.get key = none → inner.get key = none := by
  intro key hkey
  subst hinner hpatch
  have hmapping : inner.Canonical := hcurrent _ rfl
  refine absent_of_new (path ++ [key]) (fun _ hv => hmapping.of_get hv) ?_ hkey
  intro entry hentry
  exact hnew entry (mem_diffValue_mappings.2 ⟨key, hentry⟩)

/-- A field that is patched key by key: its desired value is a mapping, and its keys
differ where there are entries below it. -/
theorem nested_of_supported {root : String}
    (hcurrent : ∀ v, current = some v → v.canonical = true) (hne : current ≠ desired)
    (hsupported : patchNestedPathIsSupported [root] = false)
    (hall : ∀ entry ∈ diffValue current desired [root], patchable entry = true) :
    (current = none ∨ current = some (.mapping (mappingOf current))) ∧
      desired = some (.mapping (mappingOf desired)) ∧
      ∀ key, ∀ entry ∈ diffValue ((mappingOf current).get key) ((mappingOf desired).get key)
        [root, key], patchable entry = true := by
  have hkeys : comparable current desired = true ∧ bothKeys current desired ≠ [] := by
    by_contra hleaf
    have hentry : (⟨[root], desired⟩ : DiffEntry) ∈ diffValue current desired [root] := by
      rw [diffValue, if_neg hne, if_neg hleaf]
      exact List.mem_singleton_self _
    have hpath := (patchable_iff.1 (hall _ hentry)).2.2
    rw [hsupported] at hpath
    cases hpath
  have hbelow : ∀ key, ∀ entry ∈ diffValue ((mappingOf current).get key)
      ((mappingOf desired).get key) [root, key], patchable entry = true := by
    intro key entry hentry
    exact hall entry ((mem_diffValue_keys hne hkeys.1 hkeys.2).2 ⟨key, hentry⟩)
  rcases comparable_cases hkeys.1 with ⟨rfl, m, rfl⟩ | ⟨m, rfl, hnone | ⟨m', rfl⟩⟩
  · exact ⟨.inl rfl, rfl, hbelow⟩
  · have hremoved := absent_of_new [root] hcurrent
      (fun entry hentry => (patchable_iff.1 (hall entry hentry)).1) hnone
    cases hremoved
  · exact ⟨.inr rfl, rfl, hbelow⟩

end Entries

/-! ## A nested patch -/

section Nested

variable {addresses : Addresses} {table : List (String × FieldKind)} {patch : NestedPatch}
  {current desired : Option Value} {root : String}

/-- The table of a nested struct and the names that a patch may have. -/
structure Listed (table : List (String × FieldKind)) (allowed : List String) : Prop where
  names : (table.map Prod.fst).Nodup
  allowed_eq : allowed = "enable" :: table.map Prod.fst
  enable : "enable" ∉ table.map Prod.fst

theorem tun_listed : Listed tunTable tunPatchFields where
  names := by decide
  allowed_eq := by decide
  enable := by decide

theorem tuicServer_listed : Listed tuicServerTable tuicServerPatchFields where
  names := by decide
  allowed_eq := by decide
  enable := by decide

theorem merge_nil {written : Mapping} (hwritten : written.Canonical) :
    merge [] written = written := by
  have hordered := (Mapping.canonical_iff.1 hwritten).1
  have hentries := Value.canonicalEntries_iff.2 (Mapping.canonical_iff.1 hwritten).2
  refine (merge_canonical [] written .nil hentries).ext hwritten ?_
  intro key
  cases hkey : written.get key with
  | none => exact get_merge_other hkey
  | some v =>
    rw [get_merge hordered hkey]
    cases v with
    | mapping m => rfl
    | null | bool _ | number _ | string _ | sequence _ => rfl

theorem get_filter (m : Mapping) (allowed : List String) (key : String) :
    Mapping.get (m.filter fun entry => allowed.contains entry.1) key =
      if key ∈ allowed then m.get key else none := by
  rw [Mapping.get, Lib.Keyed.lookup_filter]
  simp only [List.contains_iff_mem]
  rfl

theorem readNested_ok {document : Mapping}
    (h : readNested addresses table (.mapping document) = some patch) :
    (∀ b, document.get "enable" = some (.bool b) → patch.enable = b) ∧
      readFields addresses document table = some patch.fields := by
  rw [readNested] at h
  cases hvalue : Mapping.get document "enable" with
  | none =>
    rw [hvalue] at h
    obtain ⟨enable, -, hrest⟩ := Option.bind_eq_some_iff.1 h
    obtain ⟨fields, hfields, heq⟩ := Option.bind_eq_some_iff.1 hrest
    cases heq
    exact ⟨nofun, hfields⟩
  | some value =>
    rw [hvalue] at h
    obtain ⟨enable, henable, hrest⟩ := Option.bind_eq_some_iff.1 h
    obtain ⟨fields, hfields, heq⟩ := Option.bind_eq_some_iff.1 hrest
    cases heq
    refine ⟨?_, hfields⟩
    intro b hb
    cases hb
    cases henable
    rfl

theorem nested_write_canonical {document : Mapping} (hdocument : document.Canonical)
    (h : readFields addresses document table = some patch.fields) : patch.write.Canonical :=
  writeFields_canonical hdocument h rfl

/-- A nested patch makes the desired mapping if and only if every field of its table
survives: `enable` always arrives, and what is not in the table did not change. -/
theorem nested_arrives_iff {allowed : List String} {target wanted : Mapping} {b : Bool}
    (hlisted : Listed table allowed) (htarget : target.Canonical) (hwanted : wanted.Canonical)
    (hsupported : ∀ key rest, patchNestedPathIsSupported (root :: key :: rest) = true →
      key ∈ allowed)
    (hall : ∀ key, ∀ entry ∈ diffValue (target.get key) (wanted.get key) [root, key],
      patchable entry = true)
    (henable : wanted.get "enable" = some (.bool b))
    (hread : readNested addresses table
      (.mapping (wanted.filter fun entry => allowed.contains entry.1)) = some patch) :
    merge target patch.write = wanted ↔ ∀ name kind, (name, kind) ∈ table →
      Survives addresses kind (target.get name) (wanted.get name) := by
  have hdocument := filter_canonical allowed.contains hwanted
  have hmem : ∀ name kind, (name, kind) ∈ table → name ∈ allowed := by
    intro name kind hentry
    rw [hlisted.allowed_eq]
    exact List.mem_cons_of_mem _ (List.mem_map_of_mem hentry)
  have henabled : "enable" ∈ allowed := by
    rw [hlisted.allowed_eq]
    exact List.mem_cons_self
  obtain ⟨hread, hfields⟩ := readNested_ok hread
  have hb := hread b (by rw [get_filter, if_pos henabled, henable])
  have hwritten := nested_write_canonical hdocument hfields
  have hordered := (Mapping.canonical_iff.1 hwritten).1
  have hentries := Value.canonicalEntries_iff.2 (Mapping.canonical_iff.1 hwritten).2
  have hnew : ∀ key, ∀ entry ∈ diffValue (target.get key) (wanted.get key) [root, key],
      entry.new.isSome = true :=
    fun key entry hentry => (patchable_iff.1 (hall key entry hentry)).1
  have harrives : ∀ name kind, (name, kind) ∈ table →
      ((merge target patch.write).get name = wanted.get name ↔
        Survives addresses kind (target.get name) (wanted.get name)) := by
    intro name kind hentry
    have hget := get_filter wanted allowed name
    rw [if_pos (hmem name kind hentry)] at hget
    have hbase : Mapping.get [("enable", Value.bool patch.enable)] name = none := by
      have hne : name ≠ "enable" := by
        intro heq
        subst heq
        exact hlisted.enable (List.mem_map_of_mem hentry)
      simp [Mapping.get, Lib.Keyed.lookup_cons_eq, hne]
    rw [← hget]
    refine field_arrives_iff hlisted.names hdocument hfields hentry hbase hordered rfl htarget ?_ ?_
    · rw [hget]
      exact absent_of_new [root, name] (fun _ hv => htarget.of_get hv) (hnew name)
    · intro inner other
      rw [hget]
      exact covers_of_new (fun _ hv => htarget.of_get hv) (hnew name)
  constructor
  · intro heq name kind hentry
    exact (harrives name kind hentry).1 (by rw [heq])
  · intro hsurvives
    refine (merge_canonical target patch.write htarget hentries).ext hwanted ?_
    intro key
    by_cases hkey : key ∈ allowed
    · rw [hlisted.allowed_eq] at hkey
      rcases List.mem_cons.1 hkey with rfl | htable
      · have hnone := readFields_names hfields hlisted.enable
        have hget : patch.write.get "enable" = some (.bool b) := by
          rw [NestedPatch.write, get_writeFields_other hnone, hb]
          rfl
        rw [get_merge hordered hget, henable]
        rfl
      · obtain ⟨entry, hentry, rfl⟩ := List.mem_map.1 htable
        exact (harrives entry.1 entry.2 hentry).2 (hsurvives entry.1 entry.2 hentry)
    · -- a field that no patch has is as it was
      have hnone : patch.write.get key = none := by
        rw [hlisted.allowed_eq, List.mem_cons, not_or] at hkey
        rw [NestedPatch.write, get_writeFields_other (readFields_names hfields hkey.2)]
        simp [Mapping.get, Lib.Keyed.lookup_cons_eq, hkey.1]
      rw [get_merge_other hnone]
      by_contra hne
      obtain ⟨entry, hentry⟩ := List.exists_mem_of_ne_nil _ (diffValue_ne_nil
        (fun _ hv => htarget.of_get hv) (fun _ hv => hwanted.of_get hv) hne)
      obtain ⟨rest, hpath⟩ := diffValue_path hentry
      have hsupport := (patchable_iff.1 (hall key entry hentry)).2.2
      rw [hpath] at hsupport
      exact hkey (hsupported key rest hsupport)

end Nested

/-! ## The whole patch -/

section Whole

variable {addresses : Addresses} {current desired document written : Mapping} {root : String}
  {patch : ConfigPatch} {projection : List (List String × Value)}

theorem below_root (hall : ∀ entry ∈ diff current desired, patchable entry = true) (root : String) :
    ∀ entry ∈ diffValue (current.get root) (desired.get root) [root], patchable entry = true :=
  fun entry hentry => hall entry (mem_diff.2 ⟨root, hentry⟩)

theorem has_enable {m : Mapping} (hdocument : document.get root = some (.mapping m))
    (h : lacksEnable document root = false) : ∃ b, m.get "enable" = some (.bool b) := by
  rw [lacksEnable, hdocument] at h
  simp only [Option.any_some, Value.asMapping, Option.bind_some, Option.isNone_eq_false_iff,
    Option.isSome_iff_exists, Option.bind_eq_some_iff] at h
  obtain ⟨b, value, hvalue, hb⟩ := h
  exact ⟨b, by rw [hvalue, asBool_eq hb]⟩

theorem merge_root {c : Option Value} {p : Mapping} (hp : p.Canonical)
    (hc : c = none ∨ c = some (.mapping (mappingOf c))) :
    mergeValue c (.mapping p) = .mapping (merge (mappingOf c) p) := by
  rcases hc with hnone | hsome
  · subst hnone
    change Value.mapping p = .mapping (merge [] p)
    rw [merge_nil hp]
  · rw [hsome]
    rfl

/-- A nested root field arrives if and only if each of its fields survives, where it
changed at all. -/
theorem root_arrives_iff {table : List (String × FieldKind)} {allowed : List String}
    {nested : Option NestedPatch} (hlisted : Listed table allowed) (hcurrent : current.Canonical)
    (hdesired : desired.Canonical) (hleaf : patchNestedPathIsSupported [root] = false)
    (hsupported : ∀ key rest, patchNestedPathIsSupported (root :: key :: rest) = true →
      key ∈ allowed)
    (hfilter : ∀ value, patchRoot root value = filterMapping value allowed)
    (hall : ∀ entry ∈ diff current desired, patchable entry = true)
    (hdocument : patchDocument desired (changedRoots (diff current desired)) [] =
      .ok (some document))
    (henable : lacksEnable document root = false)
    (hread : readOptional addresses table (document.get root) = some nested)
    (hordered : Lib.Keyed.Ordered written)
    (hwritten : written.get root = nested.map fun patch => .mapping patch.write) :
    (merge current written).get root = desired.get root ↔
      (current.get root ≠ desired.get root → ∀ name kind, (name, kind) ∈ table →
        Survives addresses kind ((mappingOf (current.get root)).get name)
          ((mappingOf (desired.get root)).get name)) := by
  obtain ⟨hchanged, hunchanged⟩ := get_patchDocument root hdocument
  rw [mem_changedRoots hcurrent hdesired] at hchanged hunchanged
  by_cases hne : current.get root = desired.get root
  · rw [hunchanged fun h => h hne] at hread
    cases hread
    rw [get_merge_other hwritten]
    exact iff_of_true hne fun h => absurd hne h
  · obtain ⟨value, carried, hvalue, hcarried, hget⟩ := hchanged hne
    obtain ⟨hfrom, hto, hbelow⟩ := nested_of_supported (fun _ hv => hcurrent.of_get hv) hne hleaf
      (below_root hall root)
    rw [hfilter] at hcarried
    obtain ⟨m, rfl, rfl⟩ := filterMapping_ok hcarried
    have hm : mappingOf (desired.get root) = m := by
      rw [hvalue]
      rfl
    rw [hm] at hbelow ⊢
    have htarget : (mappingOf (current.get root)).Canonical := by
      rcases hfrom with hnone | hsome
      · rw [hnone]
        exact .nil
      · exact hcurrent.of_get hsome
    have hwanted : m.Canonical := hdesired.of_get hvalue
    obtain ⟨b, hb⟩ := has_enable hget henable
    rw [get_filter, if_pos (by rw [hlisted.allowed_eq]; exact List.mem_cons_self)] at hb
    rw [hget] at hread
    obtain ⟨inner, hinner, rfl⟩ := Option.map_eq_some_iff.1 hread
    have harrives := nested_arrives_iff hlisted htarget hwanted hsupported hbelow hb hinner
    have hcanonical : inner.write.Canonical :=
      nested_write_canonical (filter_canonical _ hwanted) (readNested_ok hinner).2
    rw [get_merge hordered hwritten, merge_root hcanonical hfrom, hvalue, Option.some.injEq,
      Value.mapping.injEq, harrives]
    rw [hvalue] at hne
    exact ⟨fun h _ => h, fun h => h hne⟩

theorem writeOptional_canonical {table : List (String × FieldKind)} {nested : Option NestedPatch}
    (hdocument : document.Canonical)
    (h : readOptional addresses table (document.get root) = some nested)
    (hwritten : written.Canonical) : (writeOptional written root nested).Canonical := by
  cases nested with
  | none => exact hwritten
  | some inner =>
    cases hvalue : document.get root with
    | none =>
      rw [hvalue] at h
      cases h
    | some value =>
      rw [hvalue] at h
      cases value with
      | mapping m =>
        obtain ⟨read, hread, heq⟩ := Option.map_eq_some_iff.1 h
        cases heq
        exact hwritten.insert (nested_write_canonical (hdocument.of_get hvalue)
          (readNested_ok hread).2)
      | null | bool _ | number _ | string _ | sequence _ => cases h

theorem patch_write_canonical (hdocument : document.Canonical)
    (h : ConfigPatch.read addresses document = some patch) : patch.write.Canonical := by
  simp only [ConfigPatch.read, Option.bind_eq_bind, Option.bind_eq_some_iff] at h
  obtain ⟨fields, hfields, tun, htun, tuicServer, htuic, heq⟩ := h
  cases heq
  exact writeOptional_canonical hdocument htuic
    (writeOptional_canonical hdocument htun (writeFields_canonical hdocument hfields .nil))

theorem classify_patch (h : classifyDocuments addresses current desired =
    .ok (.patch patch projection)) :
    (∀ entry ∈ diff current desired, patchable entry = true) ∧
      ∃ document, patchDocument desired (changedRoots (diff current desired)) [] =
          .ok (some document) ∧
        lacksEnable document "tun" = false ∧ lacksEnable document "tuic-server" = false ∧
        ConfigPatch.read addresses document = some patch := by
  simp only [classifyDocuments] at h
  split at h
  · cases h
  · split at h
    · cases h
    · split at h
      · rename_i hall
        refine ⟨List.all_eq_true.1 hall, ?_⟩
        rw [buildPatch] at h
        cases hdocument : patchDocument desired (changedRoots (diff current desired)) [] with
        | error e =>
          rw [hdocument] at h
          cases h
        | ok found =>
          rw [hdocument] at h
          cases found with
          | none => cases h
          | some document =>
            change (if ["tun", "tuic-server"].any (lacksEnable document) = true then _ else _) =
              _ at h
            split at h
            · cases h
            · rename_i henable
              simp only [List.any_cons, List.any_nil, Bool.or_false, Bool.or_eq_true, not_or,
                Bool.not_eq_true] at henable
              split at h
              · cases h
              · rename_i read hread
                cases h
                exact ⟨document, rfl, henable.1, henable.2, hread⟩
      · split at h
        · cases h
        · cases h

theorem patchTable_names : (patchTable.map Prod.fst).Nodup := by
  decide

/-- The patch fields are those of the typed struct. -/
theorem patchFields_listed : ∀ key ∈ patchFields, key = "tun" ∨ key = "tuic-server" ∨
    key ∈ patchTable.map Prod.fst := by
  decide

theorem patchTable_roots : ∀ key ∈ patchTable.map Prod.fst, key ≠ "tun" ∧ key ≠ "tuic-server" ∧
    key ∈ patchFields := by
  decide

theorem get_writeOptional {nested : Option NestedPatch} (key : String) :
    (writeOptional written root nested).get key =
      if key = root then (nested.map fun patch => .mapping patch.write).or (written.get root)
      else written.get key := by
  cases nested with
  | none =>
    by_cases h : key = root
    · rw [if_pos h, h]
      rfl
    · rw [if_neg h]
      rfl
  | some patch => exact Mapping.get_insert

theorem supported_tun {key : String} {rest : List String}
    (h : patchNestedPathIsSupported ("tun" :: key :: rest) = true) : key ∈ tunPatchFields := by
  simpa [patchNestedPathIsSupported] using h

theorem supported_tuicServer {key : String} {rest : List String}
    (h : patchNestedPathIsSupported ("tuic-server" :: key :: rest) = true) :
    key ∈ tuicServerPatchFields := by
  simpa [patchNestedPathIsSupported] using h

/-- A root field that no nested struct reads arrives if and only if it survives,
where it changed. -/
theorem plain_arrives_iff {name : String} {kind : FieldKind} {fields : List (String × FieldValue)}
    (hcurrent : current.Canonical) (hdesired : desired.Canonical)
    (hall : ∀ entry ∈ diff current desired, patchable entry = true)
    (hdocument : patchDocument desired (changedRoots (diff current desired)) [] =
      .ok (some document))
    (hfields : readFields addresses document patchTable = some fields)
    (hmem : (name, kind) ∈ patchTable) (hordered : Lib.Keyed.Ordered written)
    (hwritten : written.get name = (writeFields [] fields).get name) :
    (merge current written).get name = desired.get name ↔
      (current.get name ≠ desired.get name →
        Survives addresses kind (current.get name) (desired.get name)) := by
  obtain ⟨htun, htuic, -⟩ := patchTable_roots name (List.mem_map_of_mem hmem)
  have hcanonical := patchDocument_canonical hdesired .nil hdocument
  have hnew : ∀ entry ∈ diffValue (current.get name) (desired.get name) [name],
      entry.new.isSome = true :=
    fun entry hentry => (patchable_iff.1 (below_root hall name entry hentry)).1
  obtain ⟨hchanged, hunchanged⟩ := get_patchDocument name hdocument
  rw [mem_changedRoots hcurrent hdesired] at hchanged hunchanged
  by_cases hne : current.get name = desired.get name
  · have hnone : written.get name = none := by
      rw [hwritten]
      rcases get_writeFields [] patchTable_names hfields hmem with ⟨-, h⟩ | ⟨value, -, h, -⟩
      · exact h
      · rw [hunchanged fun h => h hne] at h
        cases h
    rw [get_merge_other hnone]
    exact iff_of_true hne fun h => absurd hne h
  · obtain ⟨value, carried, hvalue, hcarried, hget⟩ := hchanged hne
    rw [patchRoot, if_neg htun, if_neg htuic] at hcarried
    cases hcarried
    rw [← hget] at hvalue
    rw [hvalue] at hnew hne ⊢
    have harrives := field_arrives_iff patchTable_names hcanonical hfields hmem rfl hordered
      hwritten hcurrent
      (absent_of_new [name] (fun _ hv => hcurrent.of_get hv) hnew)
      (fun _ _ => covers_of_new (fun _ hv => hcurrent.of_get hv) hnew)
    rw [harrives]
    exact ⟨fun h _ => h, fun h => h hne⟩

/-- A key that no patch has is as it was. -/
theorem unpatched_same (hcurrent : current.Canonical) (hdesired : desired.Canonical)
    (hall : ∀ entry ∈ diff current desired, patchable entry = true) {key : String}
    (hkey : key ∉ patchFields) : current.get key = desired.get key := by
  by_contra hne
  obtain ⟨entry, hentry, rest, hpath⟩ := exists_entry_of_ne hcurrent hdesired hne
  have hroot := (patchable_iff.1 (hall entry hentry)).2.1
  rw [hpath, List.head?_cons, Option.any_some] at hroot
  exact hkey (List.contains_iff_mem.1 hroot)

end Whole

/-- A patch makes the desired document of the current one if and only if every value
that it carries comes back from its type as it was: none of them is a `null` that the
current document has not, a stack is one with a name, addresses are spelled as they are
printed. -/
theorem patch_lossless_iff (addresses : Addresses) (current desired : Document)
    (patch : ConfigPatch) (projection : List (List String × Value))
    (h : classifyDocuments addresses current.entries desired.entries =
      .ok (.patch patch projection)) :
    merge current.entries patch.write = desired.entries ↔
      Kept addresses current.entries desired.entries := by
  have hcurrent := current.canonical
  have hdesired := desired.canonical
  obtain ⟨hall, document, hdocument, htun, htuic, hread⟩ := classify_patch h
  have hwritten := patch_write_canonical (patchDocument_canonical hdesired .nil hdocument) hread
  have hordered := (Mapping.canonical_iff.1 hwritten).1
  have hentries := Value.canonicalEntries_iff.2 (Mapping.canonical_iff.1 hwritten).2
  simp only [ConfigPatch.read, Option.bind_eq_bind, Option.bind_eq_some_iff] at hread
  obtain ⟨fields, hfields, tun, hreadTun, tuicServer, hreadTuic, heq⟩ := hread
  cases heq
  -- what is written under each key
  have hplain : ∀ key, key ≠ "tun" → key ≠ "tuic-server" →
      (ConfigPatch.write ⟨fields, tun, tuicServer⟩).get key = (writeFields [] fields).get key := by
    intro key hne hne'
    rw [ConfigPatch.write, get_writeOptional, if_neg hne', get_writeOptional, if_neg hne]
  have hunlisted : ∀ key, key ∉ patchTable.map Prod.fst → (writeFields [] fields).get key = none := by
    intro key hkey
    rw [get_writeFields_other (readFields_names hfields hkey)]
    rfl
  have hgetTun : (ConfigPatch.write ⟨fields, tun, tuicServer⟩).get "tun" =
      tun.map fun patch => .mapping patch.write := by
    rw [ConfigPatch.write, get_writeOptional, if_neg (by decide), get_writeOptional, if_pos rfl,
      hunlisted "tun" (by decide), Option.or_none]
  have hgetTuic : (ConfigPatch.write ⟨fields, tun, tuicServer⟩).get "tuic-server" =
      tuicServer.map fun patch => .mapping patch.write := by
    rw [ConfigPatch.write, get_writeOptional, if_pos rfl, get_writeOptional, if_neg (by decide),
      hunlisted "tuic-server" (by decide), Option.or_none]
  have harrives : ∀ name kind, (name, kind) ∈ patchTable →
      ((merge current.entries (ConfigPatch.write ⟨fields, tun, tuicServer⟩)).get name =
        desired.entries.get name ↔ (current.entries.get name ≠ desired.entries.get name →
          Survives addresses kind (current.entries.get name) (desired.entries.get name))) := by
    intro name kind hmem
    obtain ⟨hne, hne', -⟩ := patchTable_roots name (List.mem_map_of_mem hmem)
    exact plain_arrives_iff hcurrent hdesired hall hdocument hfields hmem hordered
      (hplain name hne hne')
  have htunArrives := root_arrives_iff tun_listed hcurrent hdesired rfl (fun _ _ => supported_tun)
    (fun _ => rfl) hall hdocument htun hreadTun hordered hgetTun
  have htuicArrives := root_arrives_iff tuicServer_listed hcurrent hdesired rfl
    (fun _ _ => supported_tuicServer) (fun _ => rfl) hall hdocument htuic hreadTuic hordered hgetTuic
  constructor
  · intro hmerge
    rw [hmerge] at harrives htunArrives htuicArrives
    exact ⟨fun name kind hmem => (harrives name kind hmem).1 rfl, htunArrives.1 rfl,
      htuicArrives.1 rfl⟩
  · intro hkept
    refine (merge_canonical _ _ hcurrent hentries).ext hdesired ?_
    intro key
    by_cases hkey : key ∈ patchFields
    · rcases patchFields_listed key hkey with rfl | rfl | hlisted
      · exact htunArrives.2 hkept.tun
      · exact htuicArrives.2 hkept.tuicServer
      · obtain ⟨entry, hmem, rfl⟩ := List.mem_map.1 hlisted
        exact (harrives entry.1 entry.2 hmem).2 (hkept.fields entry.1 entry.2 hmem)
    · have hnone : (ConfigPatch.write ⟨fields, tun, tuicServer⟩).get key = none := by
        have hne : key ≠ "tun" := fun h => hkey (by rw [h]; decide)
        have hne' : key ≠ "tuic-server" := fun h => hkey (by rw [h]; decide)
        rw [hplain key hne hne', hunlisted key fun h => hkey (patchTable_roots key h).2.2]
      rw [get_merge_other hnone]
      exact unpatched_same hcurrent hdesired hall hkey

/-- A `tun` that is enabled, with this MTU and the stack `gvisor`. -/
def tunMapping (mtu : Int) : Mapping :=
  ((Mapping.insert [] "enable" (.bool true)).insert "mtu" (.number (.int mtu))).insert "stack"
    (.string "gvisor")

theorem tunMapping_canonical (mtu : Int) : (tunMapping mtu).Canonical :=
  ((Mapping.Canonical.nil.insert rfl).insert rfl).insert rfl

def tunDocument (mtu : Int) : Document :=
  ⟨Mapping.insert [] "tun" (.mapping (tunMapping mtu)), .insert .nil (tunMapping_canonical mtu)⟩

def lanDocument (allowed : Bool) : Document := ⟨[("allow-lan", .bool allowed)], rfl⟩

def lanPatch (allowed : Bool) : ConfigPatch := ⟨[("allow-lan", .bool allowed)], none, none⟩

/-- A patch of the MTU leaves a stack that nobody asked for. -/
theorem tun_patch_alters_stack : ∃ patch projection,
    classifyDocuments plainAddresses (tunDocument 1400).entries (tunDocument 1500).entries =
      .ok (.patch patch projection) ∧
    merge (tunDocument 1400).entries patch.write = [("tun", .mapping [("enable", .bool true),
      ("mtu", .number (.int 1500)), ("stack", .string "Unknown")])] ∧
    merge (tunDocument 1400).entries patch.write ≠ (tunDocument 1500).entries :=
  ⟨⟨[], some ⟨true, [("stack", .stack .unknown), ("mtu", .u32 1500)]⟩, none⟩,
    [(["tun", "enable"], .bool true), (["tun", "mtu"], .number (.int 1500)),
      (["tun", "stack"], .string "Unknown")],
    by decide +kernel, by decide +kernel, by decide +kernel⟩

theorem lan_patch_lossless : ∃ projection,
    classifyDocuments plainAddresses (lanDocument false).entries (lanDocument true).entries =
      .ok (.patch (lanPatch true) projection) ∧
    (merge (lanDocument false).entries (lanPatch true).write = (lanDocument true).entries ↔
      Kept plainAddresses (lanDocument false).entries (lanDocument true).entries) ∧
    merge (lanDocument false).entries (lanPatch true).write = (lanDocument true).entries :=
  ⟨[(["allow-lan"], .bool true)], by decide +kernel,
    patch_lossless_iff plainAddresses (lanDocument false) (lanDocument true) (lanPatch true)
      [(["allow-lan"], .bool true)] (by decide +kernel),
    by decide +kernel⟩

end Chimera.Config
