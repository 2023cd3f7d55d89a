import Chimera.Config.Mihomo

/-! The body of `PATCH /configs`: typed fields that are absent or have a value, how
they are read from a document and written back. -/

namespace Chimera.Config

/-- `TunStack`; any other text is read as `unknown`. -/
inductive TunStack where
  | gvisor | system | mixed | unknown
  deriving DecidableEq, Repr

def TunStack.read (text : String) : TunStack :=
  if text = "gVisor" then .gvisor
  else if text = "system" then .system
  else if text = "mixed" then .mixed
  else .unknown

def TunStack.text : TunStack → String
  | .gvisor => "gVisor"
  | .system => "system"
  | .mixed => "mixed"
  | .unknown => "Unknown"

/-- The type of a field. -/
inductive FieldKind where
  | i64 | u32 | bool | text
  | i64s | u32s | texts
  /-- `Vec<IpNet>` and `Vec<IpAddr>`. -/
  | nets | addrs
  /-- A closed enumeration with these names. -/
  | choice (names : List String)
  | stack
  /-- `IndexMap<String, String>`. -/
  | users
  deriving DecidableEq, Repr

inductive FieldValue where
  | i64 (value : Int)
  | u32 (value : Nat)
  | bool (value : Bool)
  | text (value : String)
  | i64s (values : List Int)
  | u32s (values : List Nat)
  | texts (values : List String)
  /-- As they are printed. -/
  | nets (values : List String)
  | addrs (values : List String)
  | choice (name : String)
  | stack (value : TunStack)
  | users (values : List (String × String))
  deriving DecidableEq, Repr

/-- What `ipnet` and `std::net` print of an address that they can parse. -/
structure Addresses where
  net : String → Option String
  addr : String → Option String

def tunnelModes : List String := ["global", "rule", "direct"]

def logLevels : List String := ["debug", "info", "warning", "error", "silent"]

def findProcessModes : List String := ["strict", "always", "off"]

/-- `ConfigPatch` besides `tun` and `tuic-server`. -/
def patchTable : List (String × FieldKind) :=
  [("port", .i64), ("socks-port", .i64), ("redir-port", .i64), ("tproxy-port", .i64),
    ("mixed-port", .i64), ("ss-config", .text), ("vmess-config", .text), ("tcptun-config", .text),
    ("udptun-config", .text), ("allow-lan", .bool), ("skip-auth-prefixes", .nets),
    ("lan-allowed-ips", .nets), ("lan-disallowed-ips", .nets), ("bind-address", .text),
    ("mode", .choice tunnelModes), ("log-level", .choice logLevels), ("ipv6", .bool),
    ("sniffing", .bool), ("tcp-concurrent", .bool), ("find-process-mode", .choice findProcessModes),
    ("interface-name", .text)]

/-- `TunPatch` besides `enable`. -/
def tunTable : List (String × FieldKind) :=
  [("device", .text), ("stack", .stack), ("dns-hijack", .texts), ("auto-route", .bool),
    ("auto-detect-interface", .bool), ("mtu", .u32), ("gso", .bool), ("gso-max-size", .u32),
    ("inet6-address", .nets), ("iproute2-table-index", .i64), ("iproute2-rule-index", .i64),
    ("auto-redirect", .bool), ("auto-redirect-input-mark", .u32),
    ("auto-redirect-output-mark", .u32), ("auto-redirect-iproute2-fallback-rule-index", .i64),
    ("loopback-address", .addrs), ("strict-route", .bool), ("route-address", .nets),
    ("route-address-set", .texts), ("route-exclude-address", .nets),
    ("route-exclude-address-set", .texts), ("include-interface", .texts),
    ("exclude-interface", .texts), ("include-uid", .u32s), ("include-uid-range", .texts),
    ("exclude-uid", .u32s), ("exclude-uid-range", .texts), ("include-android-user", .i64s),
    ("include-package", .texts), ("exclude-package", .texts), ("include-mac-address", .texts),
    ("exclude-mac-address", .texts), ("endpoint-independent-nat", .bool), ("udp-timeout", .i64),
    ("icmp-timeout", .i64), ("file-descriptor", .i64), ("inet4-route-address", .nets),
    ("inet6-route-address", .nets), ("inet4-route-exclude-address", .nets),
    ("inet6-route-exclude-address", .nets), ("recvmsgx", .bool), ("sendmsgx", .bool)]

/-- `TuicServerPatch` besides `enable`. -/
def tuicServerTable : List (String × FieldKind) :=
  [("listen", .text), ("token", .texts), ("users", .users), ("certificate", .text),
    ("private-key", .text), ("congestion-controller", .text), ("max-idle-time", .i64),
    ("authentication-timeout", .i64), ("alpn", .texts), ("max-udp-relay-packet-size", .i64),
    ("cwnd", .i64), ("bbr-profile", .text)]

/-- `TunPatch` and `TuicServerPatch`; `enable` is always written. -/
structure NestedPatch where
  enable : Bool
  fields : List (String × FieldValue)
  deriving DecidableEq, Repr

structure ConfigPatch where
  fields : List (String × FieldValue)
  tun : Option NestedPatch
  tuicServer : Option NestedPatch
  deriving DecidableEq, Repr

/-! ## Reading -/

def Value.asU32 : Value → Option Nat
  | .number (.int n) => if 0 ≤ n ∧ n < 2 ^ 32 then some n.toNat else none
  | _ => none

/-- A sequence whose items all read. -/
def readItems {α : Type} (read : Value → Option α) : Value → Option (List α)
  | .sequence items => items.mapM read
  | _ => none

def readEntry (entry : String × Value) : Option (String × String) :=
  entry.2.asStr.map fun text => (entry.1, text)

def FieldKind.read (addresses : Addresses) : FieldKind → Value → Option FieldValue
  | .i64, value => value.asI64.map .i64
  | .u32, value => value.asU32.map .u32
  | .bool, value => value.asBool.map .bool
  | .text, value => value.asStr.map .text
  | .i64s, value => (readItems Value.asI64 value).map .i64s
  | .u32s, value => (readItems Value.asU32 value).map .u32s
  | .texts, value => (readItems Value.asStr value).map .texts
  | .nets, value => (readItems (fun item => item.asStr.bind addresses.net) value).map .nets
  | .addrs, value => (readItems (fun item => item.asStr.bind addresses.addr) value).map .addrs
  | .choice names, value => (value.asStr.filter names.contains).map .choice
  | .stack, value => value.asStr.map fun text => .stack (TunStack.read text)
  | .users, .mapping entries => (entries.mapM readEntry).map .users
  | .users, _ => none

/-- The fields of a struct whose fields are all optional: `null` is no value, a key
that is no field is passed over. -/
def readFields (addresses : Addresses) (document : Mapping) :
    List (String × FieldKind) → Option (List (String × FieldValue))
  | [] => some []
  | (name, kind) :: rest => do
    let fields ← readFields addresses document rest
    match document.get name with
    | none | some .null => some fields
    | some value => do
      let field ← kind.read addresses value
      some ((name, field) :: fields)

def readNested (addresses : Addresses) (table : List (String × FieldKind)) :
    Value → Option NestedPatch
  | .mapping document => do
    let enable ← match Mapping.get document "enable" with
      | none => some false
      | some value => value.asBool
    let fields ← readFields addresses document table
    some ⟨enable, fields⟩
  | _ => none

/-- An optional struct. -/
def readOptional (addresses : Addresses) (table : List (String × FieldKind)) :
    Option Value → Option (Option NestedPatch)
  | none | some .null => some none
  | some value => (readNested addresses table value).map some

/-- `from_value::<ConfigPatch>`. -/
def ConfigPatch.read (addresses : Addresses) (document : Mapping) : Option ConfigPatch := do
  let fields ← readFields addresses document patchTable
  let tun ← readOptional addresses tunTable (document.get "tun")
  let tuicServer ← readOptional addresses tuicServerTable (document.get "tuic-server")
  some ⟨fields, tun, tuicServer⟩

/-! ## Writing -/

def FieldValue.write : FieldValue → Value
  | .i64 n => .number (.int n)
  | .u32 n => .number (.int n)
  | .bool b => .bool b
  | .text s => .string s
  | .i64s ns => .sequence (ns.map fun n => .number (.int n))
  | .u32s ns => .sequence (ns.map fun n : Nat => .number (.int n))
  | .texts values | .nets values | .addrs values => .sequence (values.map .string)
  | .choice name => .string name
  | .stack s => .string s.text
  | .users entries => .mapping (entries.map fun entry => (entry.1, .string entry.2))

def writeFields (document : Mapping) (fields : List (String × FieldValue)) : Mapping :=
  fields.foldl (fun document field => document.insert field.1 field.2.write) document

def NestedPatch.write (patch : NestedPatch) : Mapping :=
  writeFields [("enable", .bool patch.enable)] patch.fields

def writeOptional (document : Mapping) (key : String) : Option NestedPatch → Mapping
  | some patch => document.insert key (.mapping patch.write)
  | none => document

/-- `to_value`: what is absent is not written. -/
def ConfigPatch.write (patch : ConfigPatch) : Mapping :=
  writeOptional (writeOptional (writeFields [] patch.fields) "tun" patch.tun) "tuic-server"
    patch.tuicServer

/-! ## Merging -/

mutual

/-- A value over the one that is there: two mappings are merged key by key. -/
def mergeValue (target : Option Value) : Value → Value
  | .mapping patch => match target with
    | some (.mapping entries) => .mapping (merge entries patch)
    | _ => .mapping patch
  | value => value

def merge (target : Mapping) : List (String × Value) → Mapping
  | [] => target
  | (key, value) :: rest => merge (target.insert key (mergeValue (target.get key) value)) rest

end

/-! ## What comes back -/

section Fields

variable {addresses : Addresses} {document base target patch : Mapping} {key name : String}
  {kind : FieldKind} {value : Value} {field : FieldValue}

theorem map_of_mapM {α β : Type} {read : α → Option β} {write : β → α} {items : List α}
    {values : List β} (hread : ∀ item value, read item = some value → write value = item)
    (h : items.mapM read = some values) : values.map write = items := by
  induction items generalizing values with
  | nil =>
    simp at h
    simp [h]
  | cons item rest ih =>
    simp only [List.mapM_cons, Option.bind_eq_bind, Option.bind_eq_some_iff] at h
    obtain ⟨value, hvalue, others, hothers, heq⟩ := h
    cases heq
    rw [List.map_cons, hread item value hvalue, ih hothers]

/-- Addresses come back as they were if each is spelled as it is printed. -/
theorem map_of_mapM_iff {parse : String → Option String} {items : List Value}
    {values : List String}
    (h : items.mapM (fun item => item.asStr.bind parse) = some values) :
    values.map Value.string = items ↔ ∀ text, .string text ∈ items → parse text = some text := by
  induction items generalizing values with
  | nil =>
    simp at h
    simp [h]
  | cons item rest ih =>
    simp only [List.mapM_cons, Option.bind_eq_bind, Option.bind_eq_some_iff] at h
    obtain ⟨printed, ⟨text, htext, hparse⟩, others, hothers, heq⟩ := h
    cases heq
    cases item with
    | string s =>
      cases htext
      rw [List.map_cons, List.cons.injEq, ih hothers]
      constructor
      · intro hall
        obtain ⟨hhead, hrest⟩ := hall
        cases hhead
        intro other hother
        rcases List.mem_cons.1 hother with heq | hmem
        · cases heq
          exact hparse
        · exact hrest other hmem
      · intro hall
        have hself := hall text List.mem_cons_self
        rw [hparse] at hself
        cases hself
        exact ⟨rfl, fun other hother => hall other (List.mem_cons_of_mem _ hother)⟩
    | null | bool _ | number _ | sequence _ | mapping _ => cases htext

/-- The text of a value is the one that its type prints: a stack that has a name,
addresses as they are printed. -/
def Spelled (addresses : Addresses) : FieldKind → Value → Prop
  | .stack, .string text => text ∈ ["gVisor", "system", "mixed", "Unknown"]
  | .nets, .sequence items => ∀ text, .string text ∈ items → addresses.net text = some text
  | .addrs, .sequence items => ∀ text, .string text ∈ items → addresses.addr text = some text
  | _, _ => True

theorem TunStack.text_read_iff {text : String} :
    (TunStack.read text).text = text ↔ text ∈ ["gVisor", "system", "mixed", "Unknown"] := by
  unfold TunStack.read
  split
  · rename_i h
    simp [TunStack.text, h]
  · split
    · rename_i h
      simp [TunStack.text, h]
    · split
      · rename_i h
        simp [TunStack.text, h]
      · rename_i h h' h''
        simp [TunStack.text, h, h', h'', eq_comm]

theorem asStr_eq {text : String} (h : value.asStr = some text) : value = .string text := by
  cases value with
  | string s =>
    cases h
    rfl
  | null | bool _ | number _ | sequence _ | mapping _ => cases h

theorem asBool_eq {b : Bool} (h : value.asBool = some b) : value = .bool b := by
  cases value with
  | bool b =>
    cases h
    rfl
  | null | string _ | number _ | sequence _ | mapping _ => cases h

theorem asI64_eq {n : Int} (h : value.asI64 = some n) : value = .number (.int n) := by
  cases value with
  | number number =>
    cases number with
    | int m =>
      simp only [Value.asI64] at h
      split at h
      · cases h
        rfl
      · cases h
    | float _ => cases h
  | null | string _ | bool _ | sequence _ | mapping _ => cases h

theorem asU32_eq {n : Nat} (h : value.asU32 = some n) : value = .number (.int n) := by
  cases value with
  | number number =>
    cases number with
    | int m =>
      simp only [Value.asU32] at h
      split at h
      · rename_i hrange
        cases h
        rw [Int.toNat_of_nonneg hrange.1]
      · cases h
    | float _ => cases h
  | null | string _ | bool _ | sequence _ | mapping _ => cases h

theorem readItems_eq {α : Type} {read : Value → Option α} {values : List α}
    (h : readItems read value = some values) :
    ∃ items, value = .sequence items ∧ items.mapM read = some values := by
  cases value with
  | sequence items => exact ⟨items, rfl, h⟩
  | null | string _ | bool _ | number _ | mapping _ => cases h

theorem write_read_items {α : Type} {read : Value → Option α} (write : α → Value)
    {values : List α} (hread : ∀ item value, read item = some value → write value = item)
    (h : readItems read value = some values) : .sequence (values.map write) = value := by
  obtain ⟨items, rfl, hitems⟩ := readItems_eq h
  rw [map_of_mapM hread hitems]

/-- A value that its field's type reads is written back as it was if and only if it
is spelled as the type prints it. -/
theorem write_read_iff (h : kind.read addresses value = some field) :
    field.write = value ↔ Spelled addresses kind value := by
  cases kind with
  | i64 =>
    obtain ⟨n, hn, rfl⟩ := Option.map_eq_some_iff.1 h
    exact iff_of_true (asI64_eq hn).symm trivial
  | u32 =>
    obtain ⟨n, hn, rfl⟩ := Option.map_eq_some_iff.1 h
    exact iff_of_true (asU32_eq hn).symm trivial
  | bool =>
    obtain ⟨b, hb, rfl⟩ := Option.map_eq_some_iff.1 h
    exact iff_of_true (asBool_eq hb).symm trivial
  | text =>
    obtain ⟨text, htext, rfl⟩ := Option.map_eq_some_iff.1 h
    exact iff_of_true (asStr_eq htext).symm trivial
  | i64s =>
    obtain ⟨ns, hns, rfl⟩ := Option.map_eq_some_iff.1 h
    exact iff_of_true (write_read_items (fun n => .number (.int n))
      (fun _ _ h => (asI64_eq h).symm) hns) trivial
  | u32s =>
    obtain ⟨ns, hns, rfl⟩ := Option.map_eq_some_iff.1 h
    exact iff_of_true (write_read_items (fun n : Nat => .number (.int n))
      (fun _ _ h => (asU32_eq h).symm) hns) trivial
  | texts =>
    obtain ⟨texts, htexts, rfl⟩ := Option.map_eq_some_iff.1 h
    exact iff_of_true (write_read_items .string (fun _ _ h => (asStr_eq h).symm) htexts) trivial
  | nets =>
    obtain ⟨printed, hprinted, rfl⟩ := Option.map_eq_some_iff.1 h
    obtain ⟨items, rfl, hitems⟩ := readItems_eq hprinted
    rw [FieldValue.write, Value.sequence.injEq]
    exact map_of_mapM_iff hitems
  | addrs =>
    obtain ⟨printed, hprinted, rfl⟩ := Option.map_eq_some_iff.1 h
    obtain ⟨items, rfl, hitems⟩ := readItems_eq hprinted
    rw [FieldValue.write, Value.sequence.injEq]
    exact map_of_mapM_iff hitems
  | choice names =>
    obtain ⟨name, hname, rfl⟩ := Option.map_eq_some_iff.1 h
    exact iff_of_true (asStr_eq (Option.filter_eq_some_iff.1 hname).1).symm trivial
  | stack =>
    obtain ⟨text, htext, rfl⟩ := Option.map_eq_some_iff.1 h
    obtain rfl := asStr_eq htext
    rw [FieldValue.write, Value.string.injEq]
    exact TunStack.text_read_iff
  | users =>
    cases value with
    | mapping entries =>
      obtain ⟨users, husers, rfl⟩ := Option.map_eq_some_iff.1 h
      refine iff_of_true ?_ trivial
      rw [FieldValue.write, Value.mapping.injEq]
      refine map_of_mapM ?_ husers
      intro entry user huser
      obtain ⟨text, htext, rfl⟩ := Option.map_eq_some_iff.1 huser
      rw [← asStr_eq htext]
    | null | string _ | bool _ | number _ | sequence _ => cases h

theorem readFields_names {table : List (String × FieldKind)} {fields : List (String × FieldValue)}
    (h : readFields addresses document table = some fields) (hname : name ∉ table.map Prod.fst) :
    name ∉ fields.map Prod.fst := by
  induction table generalizing fields with
  | nil =>
    cases h
    exact List.not_mem_nil
  | cons entry rest ih =>
    obtain ⟨other, kind⟩ := entry
    rw [List.map_cons, List.mem_cons, not_or] at hname
    simp only [readFields, Option.bind_eq_bind, Option.bind_eq_some_iff] at h
    obtain ⟨others, hothers, h⟩ := h
    have hrest := ih hothers hname.2
    split at h
    · cases h
      exact hrest
    · cases h
      exact hrest
    · obtain ⟨field, -, heq⟩ := Option.bind_eq_some_iff.1 h
      cases heq
      rw [List.map_cons, List.mem_cons, not_or]
      exact ⟨hname.1, hrest⟩

theorem get_writeFields_other {fields : List (String × FieldValue)}
    (hname : name ∉ fields.map Prod.fst) : (writeFields base fields).get name = base.get name := by
  induction fields generalizing base with
  | nil => rfl
  | cons entry rest ih =>
    rw [List.map_cons, List.mem_cons, not_or] at hname
    change (writeFields (base.insert entry.1 entry.2.write) rest).get name = base.get name
    rw [ih hname.2, Mapping.get_insert, if_neg hname.1]

/-- A field that is read is written under its name; one that is absent or `null` is
not written. -/
theorem get_writeFields (base : Mapping) {table : List (String × FieldKind)}
    {fields : List (String × FieldValue)}
    (hnames : (table.map Prod.fst).Nodup) (h : readFields addresses document table = some fields)
    (hmem : (name, kind) ∈ table) :
    (document.get name = none ∨ document.get name = some .null) ∧
        (writeFields base fields).get name = base.get name ∨
      ∃ value field, document.get name = some value ∧ value ≠ .null ∧
        kind.read addresses value = some field ∧
        (writeFields base fields).get name = some field.write := by
  induction table generalizing fields base with
  | nil => cases hmem
  | cons entry rest ih =>
    obtain ⟨other, otherKind⟩ := entry
    rw [List.map_cons, List.nodup_cons] at hnames
    simp only [readFields, Option.bind_eq_bind, Option.bind_eq_some_iff] at h
    obtain ⟨others, hothers, h⟩ := h
    rcases List.mem_cons.1 hmem with heq | hlater
    · cases heq
      have habsent : name ∉ others.map Prod.fst := readFields_names hothers hnames.1
      split at h
      · rename_i hget
        cases h
        exact .inl ⟨.inl hget, get_writeFields_other habsent⟩
      · rename_i hget
        cases h
        exact .inl ⟨.inr hget, get_writeFields_other habsent⟩
      · rename_i value hnull hget
        obtain ⟨field, hfield, heq⟩ := Option.bind_eq_some_iff.1 h
        cases heq
        refine .inr ⟨value, field, hget, ?_, hfield, ?_⟩
        · intro hvalue
          exact hnull (by rw [hvalue])
        · change (writeFields (base.insert name field.write) others).get name = _
          rw [get_writeFields_other habsent, Mapping.get_insert, if_pos rfl]
    · -- the first field of the table is another one
      have hname : name ≠ other := by
        intro heq
        subst heq
        exact hnames.1 (List.mem_map.2 ⟨_, hlater, rfl⟩)
      split at h
      · cases h
        exact ih _ hnames.2 hothers hlater
      · cases h
        exact ih _ hnames.2 hothers hlater
      · obtain ⟨field, -, heq⟩ := Option.bind_eq_some_iff.1 h
        cases heq
        have hbase : (base.insert other field.write).get name = base.get name := by
          rw [Mapping.get_insert, if_neg hname]
        rw [← hbase]
        exact ih _ hnames.2 hothers hlater

/-! ## What a merge leaves -/

theorem get_merge_other (hkey : patch.get key = none) : (merge target patch).get key =
    target.get key := by
  induction patch generalizing target with
  | nil => rw [merge]
  | cons entry rest ih =>
    obtain ⟨k, v⟩ := entry
    rw [Mapping.get, Lib.Keyed.lookup_cons_eq] at hkey
    split at hkey
    · cases hkey
    · rename_i hk
      rw [merge, ih hkey, Mapping.get_insert, if_neg hk]

theorem get_merge (hpatch : Lib.Keyed.Ordered patch) (hkey : patch.get key = some value) :
    (merge target patch).get key = some (mergeValue (target.get key) value) := by
  induction patch generalizing target with
  | nil => cases hkey
  | cons entry rest ih =>
    obtain ⟨k, v⟩ := entry
    obtain ⟨hhead, hrest⟩ := List.pairwise_cons.1 hpatch
    rw [Mapping.get, Lib.Keyed.lookup_cons_eq] at hkey
    split at hkey
    · rename_i hk
      cases hkey
      subst hk
      rw [merge, get_merge_other (Lib.Keyed.lookup_none_of_lt hhead), Mapping.get_insert,
        if_pos rfl]
    · rename_i hk
      rw [merge, ih hrest hkey, Mapping.get_insert, if_neg hk]

mutual

theorem mergeValue_canonical : ∀ (target : Option Value) (value : Value),
    (∀ v, target = some v → v.canonical = true) → value.canonical = true →
      (mergeValue target value).canonical = true
  | target, .mapping patch, htarget, hvalue => by
    have hentries := Value.canonicalEntries_iff.2 (Mapping.canonical_iff.1 hvalue).2
    cases target with
    | none => exact hvalue
    | some t =>
      cases t with
      | mapping entries => exact merge_canonical entries patch (htarget _ rfl) hentries
      | null | string _ | bool _ | number _ | sequence _ => exact hvalue
  | _, .null, _, hvalue => hvalue
  | _, .bool _, _, hvalue => hvalue
  | _, .number _, _, hvalue => hvalue
  | _, .string _, _, hvalue => hvalue
  | _, .sequence _, _, hvalue => hvalue

theorem merge_canonical : ∀ (target : Mapping) (patch : List (String × Value)),
    target.Canonical → Value.canonicalEntries patch = true → (merge target patch).Canonical
  | target, [], htarget, _ => by rw [merge]; exact htarget
  | target, (key, value) :: rest, htarget, hpatch => by
    rw [Value.canonicalEntries, Bool.and_eq_true] at hpatch
    rw [merge]
    refine merge_canonical _ rest (htarget.insert ?_) hpatch.2
    exact mergeValue_canonical _ value (fun v h => htarget.of_get h) hpatch.1

end

end Fields

end Chimera.Config
