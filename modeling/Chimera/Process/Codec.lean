import Mathlib.Data.List.Nodup
import Mathlib.Data.List.Perm.Subperm
import Chimera.Process.Record

/-! What `parse_epoch_record` accepts: six lines in any order, one of each field.
The reading is exact but for the spelling of the numbers, which may carry a plus
sign, and for the end of the last line. A record that is cut off in its last line
may still be one, of a shorter path. -/

namespace Chimera.Process
open Chimera.Lib.Utf8 Chimera.Lib.Fields

/-- A field as a line. -/
def joined (field : Text × Text) : Text := field.1 ++ '=' :: field.2

/-- The texts of the six fields. -/
structure Values where
  version : Text
  pid : Text
  epoch : Text
  executable : Text
  startToken : Text
  runtimeConfig : Text

def Values.fields (v : Values) : Fields :=
  [("version".toList, v.version), ("pid".toList, v.pid), ("epoch".toList, v.epoch),
    ("executable".toList, v.executable), ("start-token".toList, v.startToken),
    ("runtime-config".toList, v.runtimeConfig)]

/-- The versions that a platform reads, with the tokens they may come with. -/
def Supported (target : Target) (version startToken : Nat) : Prop :=
  version = 2 ∧ (target = .macos → startToken < 2 ^ 32) ∨
    target = .macos ∧ version = 3 ∧ 2 ^ 32 ≤ startToken ∧ startToken % 2 ^ 20 < 10 ^ 6

/-- The values are those of the record: numbers in range, and lower-case hexadecimal. -/
structure Values.Spell (v : Values) (target : Target) (record : EpochPidRecord) : Prop where
  version : ∃ n, Spells (2 ^ 32) v.version n ∧ Supported target n record.startToken.toNat
  pid : Spells (2 ^ 32) v.pid record.pid.toNat
  epoch : Spells (2 ^ 64) v.epoch record.epoch.toNat
  executable : v.executable = hexEncode (encode record.executable)
  startToken : Spells (2 ^ 64) v.startToken record.startToken.toNat
  runtimeConfig : v.runtimeConfig = hexEncode record.runtimeConfig
  path : ∃ path, record.runtimeConfig = encode path

/-- Lines that are the six fields of a record, in any order. -/
def Accepted (target : Target) (lines : List Text) (record : EpochPidRecord) : Prop :=
  ∃ v : Values, lines.Perm (v.fields.map joined) ∧ v.Spell target record

section Lines

variable {target : Target} {record read : EpochPidRecord} {raw t path key value : Text}
  {fields found : Fields} {more : List Text} {v : Values}

/-- The loop over the lines: every one is a field, and no key comes twice. -/
theorem collectFields_ok (hkeys : (fields.map Prod.fst).Nodup) :
    collectFields fields more = .ok found ↔ ∃ new, found = fields ++ new ∧
      more = new.map joined ∧ (∀ field ∈ new, '=' ∉ field.1) ∧ (found.map Prod.fst).Nodup := by
  induction more generalizing fields with
  | nil =>
    constructor
    · intro h
      cases h
      exact ⟨[], (List.append_nil _).symm, rfl, nofun, hkeys⟩
    · intro ⟨new, hfound, hnew, _⟩
      rw [List.map_eq_nil_iff.1 hnew.symm, List.append_nil] at hfound
      rw [hfound]
      rfl
  | cons line more ih =>
    constructor
    · intro h
      unfold collectFields at h
      split at h
      · cases h
      · rename_i key value hsplit
        obtain ⟨rfl, hkey⟩ := splitOnce_eq_some hsplit
        split at h
        · cases h
        · rename_i hfresh
          rw [Bool.not_eq_true, Option.isSome_eq_false_iff, Option.isNone_iff_eq_none,
            List.lookup_eq_none_iff] at hfresh
          have hadded : ((fields ++ [(key, value)]).map Prod.fst).Nodup := by
            rw [List.map_append, List.nodup_append]
            refine ⟨hkeys, by simp, ?_⟩
            intro a ha b hb heq
            obtain ⟨field, hfield, rfl⟩ := List.mem_map.1 ha
            rw [List.map_singleton, List.mem_singleton] at hb
            rw [hb] at heq
            have hne := hfresh field hfield
            rw [heq, bne_self_eq_false] at hne
            cases hne
          obtain ⟨new, rfl, rfl, hnew, hnodup⟩ := (ih hadded).1 h
          refine ⟨(key, value) :: new, by simp, rfl, ?_, by simpa using hnodup⟩
          exact List.forall_mem_cons.2 ⟨hkey, hnew⟩
    · intro ⟨new, hfound, hnew, hplain, hnodup⟩
      cases new with
      | nil => cases hnew
      | cons field new =>
        obtain ⟨key, value⟩ := field
        rw [List.map_cons, List.cons.injEq] at hnew
        obtain ⟨rfl, rfl⟩ := hnew
        have hfound : found = (fields ++ [(key, value)]) ++ new := by rw [hfound]; simp
        have hadded : ((fields ++ [(key, value)]).map Prod.fst).Nodup := by
          rw [hfound, List.map_append] at hnodup
          exact (List.nodup_append.1 hnodup).1
        have hfresh : fields.lookup key = none := by
          rw [List.lookup_eq_none_iff]
          intro field hfield
          rw [List.map_append, List.nodup_append] at hadded
          have hne := hadded.2.2 field.1 (List.mem_map_of_mem hfield) key (by simp)
          simpa using hne.symm
        rw [collectFields, joined, splitOnce_append (hplain _ List.mem_cons_self)]
        simp only [hfresh, Option.isSome_none, Bool.false_eq_true, if_false]
        exact (ih hadded).2 ⟨new, hfound, rfl, fun f hf => hplain f (List.mem_cons_of_mem _ hf),
          hnodup⟩

theorem lookup_of_mem (hkeys : (fields.map Prod.fst).Nodup) (h : (key, value) ∈ fields) :
    fields.lookup key = some value := by
  obtain ⟨front, after, rfl⟩ := List.append_of_mem h
  rw [List.lookup_eq_some_iff]
  refine ⟨front, after, rfl, fun field hfield => ?_⟩
  rw [List.map_append, List.nodup_append] at hkeys
  have hne := hkeys.2.2 field.1 (List.mem_map_of_mem hfield) key (by simp)
  simpa using hne.symm

theorem mem_of_lookup (h : fields.lookup key = some value) : (key, value) ∈ fields := by
  obtain ⟨front, after, rfl, -⟩ := List.lookup_eq_some_iff.1 h
  simp

theorem Values.fields_keys (v : Values) : (v.fields.map Prod.fst).Nodup := by
  show (["version".toList, "pid".toList, "epoch".toList, "executable".toList,
    "start-token".toList, "runtime-config".toList] : List Text).Nodup
  decide

theorem Values.fields_plain (v : Values) : ∀ field ∈ v.fields, '=' ∉ field.1 := by
  have keys : ∀ key ∈ v.fields.map Prod.fst, '=' ∉ key := by
    show ∀ key ∈ (["version".toList, "pid".toList, "epoch".toList, "executable".toList,
      "start-token".toList, "runtime-config".toList] : List Text), '=' ∉ key
    decide
  exact fun field hfield => keys field.1 (List.mem_map_of_mem hfield)

/-- What is looked up of the six fields, when that is all there is. -/
theorem perm_of_lookups (hlength : fields.length = expectedFields.length)
    (h : ∀ field ∈ v.fields, fields.lookup field.1 = some field.2) : v.fields.Perm fields := by
  have hsub : v.fields.Subperm fields := List.subperm_of_subset (List.Nodup.of_map _ v.fields_keys)
    fun field hfield => mem_of_lookup (h field hfield)
  exact hsub.perm_of_length_le (Nat.le_of_eq hlength)

theorem lookups_of_perm (h : v.fields.Perm fields) :
    ∀ field ∈ v.fields, fields.lookup field.1 = some field.2 := by
  have hkeys : (fields.map Prod.fst).Nodup := (h.map Prod.fst).nodup_iff.1 v.fields_keys
  exact fun field hfield => lookup_of_mem hkeys (h.mem_iff.1 hfield)

/-! ## Values -/

theorem parseField_iff {key : String} {bound n : Nat} {text : Text}
    (h : fields.lookup key.toList = some text) :
    parseField bound fields key = .ok n ↔ Spells bound text n := by
  rw [← parseUnsigned_eq_some, parseField, required, h]
  simp only [bind, Except.bind]
  cases parseUnsigned bound text with
  | none => exact ⟨(by rintro ⟨⟩), (by rintro ⟨⟩)⟩
  | some m =>
    show Except.ok m = Except.ok n ↔ some m = some n
    rw [Except.ok.injEq, Option.some.injEq]

theorem textField_iff {key what : String} {text result : Text}
    (h : fields.lookup key.toList = some text) :
    textField fields key what = .ok result ↔ text = hexEncode (encode result) := by
  rw [← hexDecode_ok, textField, required, h]
  simp only [bind, Except.bind]
  cases hbytes : hexDecode text with
  | error e => exact ⟨(by rintro ⟨⟩), (by rintro ⟨⟩)⟩
  | ok bytes =>
    rw [Except.ok.injEq, ← decode_eq_some]
    cases htext : decode bytes with
    | none => simp [Except.mapError, htext]
    | some t => simp [Except.mapError, htext]

theorem checkDarwinToken_ok {version startToken : Nat} :
    checkDarwinToken version startToken = .ok () ↔ ¬ (version = 2 ∧ 2 ^ 32 ≤ startToken) ∧
      ¬ (version = 3 ∧ startToken < 2 ^ 32) ∧
      ¬ (version = 3 ∧ 10 ^ 6 ≤ startToken % 2 ^ 20) := by
  show (if version = 2 ∧ 2 ^ 32 ≤ startToken then _
    else if version = 3 ∧ startToken < 2 ^ 32 then _
    else if version = 3 ∧ 10 ^ 6 ≤ startToken % 2 ^ 20 then _ else Except.ok ()) = _ ↔ _
  split
  · rename_i hlarge
    exact ⟨nofun, fun h => absurd hlarge h.1⟩
  · rename_i hseconds
    split
    · rename_i hsmall
      exact ⟨nofun, fun h => absurd hsmall h.2.1⟩
    · rename_i hprecise
      split
      · rename_i hmicros
        exact ⟨nofun, fun h => absurd hmicros h.2.2⟩
      · rename_i hmicros
        exact ⟨fun _ => ⟨hseconds, hprecise, hmicros⟩, fun _ => rfl⟩

theorem checkVersion_iff {version startToken : Nat} :
    checkVersion target version startToken ↔ Supported target version startToken := by
  show (version = 2 ∨ target = .macos ∧ version = 3) ∧ _ ↔ _
  rw [Supported, checkDarwinToken_ok]
  constructor
  · intro ⟨hversion, hcheck⟩
    rcases hversion with rfl | ⟨hmac, rfl⟩
    · refine .inl ⟨rfl, fun hmac => ?_⟩
      have hok := (hcheck hmac).1
      omega
    · have hok := (hcheck hmac).2
      exact .inr ⟨hmac, rfl, by omega, by omega⟩
  · intro h
    rcases h with ⟨rfl, hsmall⟩ | ⟨hmac, rfl, hlarge, hmicros⟩
    · refine ⟨.inl rfl, fun hmac => ?_⟩
      have hlt := hsmall hmac
      omega
    · exact ⟨.inr ⟨hmac, rfl⟩, fun _ => by omega⟩

theorem readFrom_iff (h : ∀ field ∈ v.fields, fields.lookup field.1 = some field.2) :
    ReadFrom target fields read ↔ v.Spell target read := by
  simp only [Values.fields, List.forall_mem_cons] at h
  obtain ⟨hversion, hpid, hepoch, hexecutable, htoken, hconfig, -⟩ := h
  constructor
  · intro hread
    obtain ⟨n, hn, hcheck⟩ := hread.version
    obtain ⟨path, hpath, hsame⟩ := hread.runtimeConfig
    refine ⟨⟨n, (parseField_iff hversion).1 hn, checkVersion_iff.1 hcheck⟩,
      (parseField_iff hpid).1 hread.pid, (parseField_iff hepoch).1 hread.epoch,
      (textField_iff hexecutable).1 hread.executable,
      (parseField_iff htoken).1 hread.startToken, ?_, path, hsame⟩
    rw [hsame]
    exact (textField_iff hconfig).1 hpath
  · intro hspell
    obtain ⟨n, hn, hcheck⟩ := hspell.version
    obtain ⟨path, hpath⟩ := hspell.path
    refine ⟨⟨n, (parseField_iff hversion).2 hn, checkVersion_iff.2 hcheck⟩,
      (textField_iff hexecutable).2 hspell.executable, ⟨path, ?_, hpath⟩,
      (parseField_iff htoken).2 hspell.startToken, (parseField_iff hpid).2 hspell.pid,
      (parseField_iff hepoch).2 hspell.epoch⟩
    rw [textField_iff hconfig, ← hpath]
    exact hspell.runtimeConfig

theorem exists_map_of_perm {α β : Type} {f : α → β} {m : List α} {l : List β}
    (h : (m.map f).Perm l) : ∃ m', l = m'.map f ∧ m.Perm m' := by
  generalize hsource : m.map f = source at h
  induction h generalizing m with
  | nil => exact ⟨m, hsource.symm, .refl m⟩
  | cons x _ ih =>
    obtain ⟨a, m, rfl, rfl, hm⟩ := List.map_eq_cons_iff.1 hsource
    obtain ⟨m', rfl, hperm⟩ := ih hm
    exact ⟨a :: m', rfl, hperm.cons a⟩
  | swap x y rest =>
    obtain ⟨a, m, rfl, rfl, hm⟩ := List.map_eq_cons_iff.1 hsource
    obtain ⟨b, m, rfl, rfl, rfl⟩ := List.map_eq_cons_iff.1 hm
    exact ⟨b :: a :: m, rfl, .swap b a m⟩
  | trans _ _ ih ih' =>
    obtain ⟨m', hm', hperm⟩ := ih hsource
    obtain ⟨m'', hm'', hperm'⟩ := ih' hm'.symm
    exact ⟨m'', hm'', hperm.trans hperm'⟩

/-- A text is read exactly when its lines are those of a record. -/
theorem parseEpochRecord_iff :
    parseEpochRecord target raw = .ok read ↔ Accepted target (lines raw) read := by
  rw [parseEpochRecord_ok]
  constructor
  · intro ⟨fields, hfields, hlength, hcomplete, hread⟩
    obtain ⟨new, hnew, hlines, -⟩ := (collectFields_ok (by simp)).1 hfields
    rw [List.nil_append] at hnew
    subst hnew
    have value (key : String) (hkey : key ∈ expectedFields) :
        ∃ text, fields.lookup key.toList = some text :=
      Option.isSome_iff_exists.1 (hcomplete key hkey)
    obtain ⟨version, hversion⟩ := value "version" (by decide)
    obtain ⟨pid, hpid⟩ := value "pid" (by decide)
    obtain ⟨epoch, hepoch⟩ := value "epoch" (by decide)
    obtain ⟨executable, hexecutable⟩ := value "executable" (by decide)
    obtain ⟨startToken, htoken⟩ := value "start-token" (by decide)
    obtain ⟨runtimeConfig, hconfig⟩ := value "runtime-config" (by decide)
    have hlookups : ∀ field ∈
        (Values.mk version pid epoch executable startToken runtimeConfig).fields,
        fields.lookup field.1 = some field.2 := by
      simp only [Values.fields, List.forall_mem_cons]
      exact ⟨hversion, hpid, hepoch, hexecutable, htoken, hconfig, nofun⟩
    refine ⟨_, ?_, (readFrom_iff hlookups).1 hread⟩
    rw [hlines]
    exact ((perm_of_lookups hlength hlookups).map joined).symm
  · intro ⟨v, hperm, hspell⟩
    obtain ⟨fields, hlines, hfields⟩ := exists_map_of_perm hperm.symm
    have hlookups := lookups_of_perm hfields
    have hplain : ∀ field ∈ fields, '=' ∉ field.1 :=
      fun field hfield => v.fields_plain field (hfields.mem_iff.2 hfield)
    have hkeys : (fields.map Prod.fst).Nodup := (hfields.map Prod.fst).nodup_iff.1 v.fields_keys
    refine ⟨fields, (collectFields_ok (by simp)).2 ⟨fields, rfl, hlines, hplain, hkeys⟩,
      hfields.length_eq.symm, ?_, (readFrom_iff hlookups).2 hspell⟩
    simp only [Values.fields, List.forall_mem_cons] at hlookups
    obtain ⟨hversion, hpid, hepoch, hexecutable, htoken, hconfig, -⟩ := hlookups
    simp only [expectedFields, List.forall_mem_cons]
    exact ⟨by rw [hepoch]; rfl, by rw [hexecutable]; rfl, by rw [hpid]; rfl, by rw [hconfig]; rfl,
      by rw [htoken]; rfl, by rw [hversion]; rfl, nofun⟩

/-! ## Written records -/

def recordValues (target : Target) (record : EpochPidRecord) (path : Text) : Values :=
  ⟨decimal (recordVersion target record), decimal record.pid.toNat, decimal record.epoch.toNat,
    hexEncode (encode record.executable), decimal record.startToken.toNat,
    hexEncode (encode path)⟩

theorem recordLines_eq :
    recordLines target record path = (recordValues target record path).fields.map joined := rfl

/-- On macOS a token is seconds, or seconds and microseconds. -/
def Produced (target : Target) (startToken : Nat) : Prop :=
  target = .macos → startToken < 2 ^ 32 ∨ startToken % 2 ^ 20 < 10 ^ 6

theorem spells_decimal {bound n : Nat} (h : n < bound) : Spells bound (decimal n) n :=
  parseUnsigned_eq_some.1 (parseUnsigned_decimal h)

theorem recordValues_spell (hpath : record.runtimeConfig = encode path)
    (htoken : Produced target record.startToken.toNat) :
    (recordValues target record path).Spell target record := by
  refine ⟨⟨recordVersion target record, ?_, ?_⟩, spells_decimal record.pid.toNat_lt,
    spells_decimal record.epoch.toNat_lt, rfl, spells_decimal record.startToken.toNat_lt, ?_,
    path, hpath⟩
  · refine spells_decimal ?_
    unfold recordVersion
    split
    · decide
    · decide
  · unfold recordVersion
    split
    · rename_i hprecise
      refine .inr ⟨hprecise.1, rfl, hprecise.2, ?_⟩
      rcases htoken hprecise.1 with hsmall | hmicros
      · exact absurd hprecise.2 (Nat.not_le.2 hsmall)
      · exact hmicros
    · rename_i hseconds
      refine .inl ⟨rfl, fun hmac => ?_⟩
      by_contra hlarge
      exact hseconds ⟨hmac, Nat.not_lt.1 hlarge⟩
  · rw [hpath]
    rfl

theorem lines_unlines_append (h : ∀ line ∈ more, '\n' ∉ line ∧ '\r' ∉ line) :
    lines (unlines more ++ t) = more ++ lines t := by
  induction more with
  | nil => rfl
  | cons line more ih =>
    obtain ⟨hn, hr⟩ := h line List.mem_cons_self
    have hsplit : unlines (line :: more) ++ t = line ++ '\n' :: (unlines more ++ t) := by
      simp [unlines]
    rw [hsplit, lines_append hn hr, ih fun l hl => h l (List.mem_cons_of_mem _ hl)]
    rfl

theorem lines_unlines (h : ∀ line ∈ more, '\n' ∉ line ∧ '\r' ∉ line) :
    lines (unlines more) = more := by
  have happend := lines_unlines_append (t := []) h
  rwa [List.append_nil, lines_nil, List.append_nil] at happend

theorem lines_ne_nil (h : t ≠ []) : lines t ≠ [] := by
  intro hnil
  cases t with
  | nil => exact h rfl
  | cons c t =>
    have hpieces := List.map_eq_nil_iff.1 hnil
    unfold splitInclusive at hpieces
    split at hpieces
    · cases hpieces
    · split at hpieces
      · cases hpieces
      · cases hpieces

theorem serialize_ok (h : serializeEpochRecord target record = .ok t) :
    ∃ path, record.runtimeConfig = encode path ∧ t = unlines (recordLines target record path) := by
  unfold serializeEpochRecord at h
  split at h
  · cases h
  · rename_i path hpath
    exact ⟨path, decode_eq_some.1 hpath, (Except.ok.inj h).symm⟩

theorem parse_serialize (hpath : record.runtimeConfig = encode path)
    (htoken : Produced target record.startToken.toNat) :
    ∃ text, serializeEpochRecord target record = .ok text ∧
      parseEpochRecord target text = .ok record := by
  refine ⟨unlines (recordLines target record path), ?_, ?_⟩
  · rw [serializeEpochRecord, hpath, decode_encode]
  · rw [parseEpochRecord_iff, lines_unlines recordLines_plain, recordLines_eq]
    exact ⟨_, .refl _, recordValues_spell hpath htoken⟩

theorem Accepted.length (h : Accepted target more record) : more.length = 6 := by
  obtain ⟨v, hperm, -⟩ := h
  rw [hperm.length_eq]
  rfl

/-- Nothing may follow a record. -/
theorem extended_rejected (h : serializeEpochRecord target record = .ok t) {extra : Text}
    (hextra : extra ≠ []) : parseEpochRecord target (t ++ extra) ≠ .ok read := by
  obtain ⟨path, -, rfl⟩ := serialize_ok h
  intro hread
  have hlength := (parseEpochRecord_iff.1 hread).length
  rw [lines_unlines_append recordLines_plain, List.length_append] at hlength
  have hsix : (recordLines target record path).length = 6 := rfl
  have hpos := List.length_pos_of_ne_nil (lines_ne_nil hextra)
  omega

theorem joined_inj {field other : Text × Text} (hf : '=' ∉ field.1) (ho : '=' ∉ other.1)
    (h : joined field = joined other) : field = other := by
  have hsplit := congrArg (splitOnce ['=']) h
  rw [joined, joined, splitOnce_append hf, splitOnce_append ho] at hsplit
  exact Option.some.inj hsplit

theorem fieldLine_eq {key : String} {text : Text} :
    fieldLine key text = (key.toList ++ ['=']) ++ text := by
  rw [fieldLine, List.append_assoc]
  rfl

/-- The runtime path is in the last line, when the others are those of a record. -/
theorem last_line {cut : Text} (h : Accepted target ((recordLines target record path).take 5 ++
    [cut]) read) : cut = fieldLine "runtime-config" (hexEncode read.runtimeConfig) := by
  obtain ⟨v, hperm, hspell⟩ := h
  have hconfig : ("runtime-config".toList, v.runtimeConfig) ∈ v.fields := by simp [Values.fields]
  have hmem := hperm.mem_iff.2 (List.mem_map_of_mem (f := joined) hconfig)
  rw [hspell.runtimeConfig] at hmem
  rcases List.mem_append.1 hmem with hmem | hmem
  · -- the first five lines have other keys
    rw [recordLines_eq, ← List.map_take] at hmem
    obtain ⟨field, hfield, hjoined⟩ := List.mem_map.1 hmem
    have hplain := (recordValues target record path).fields_plain field
      (List.mem_of_mem_take hfield)
    have hsame := joined_inj hplain (show '=' ∉ "runtime-config".toList by decide) hjoined
    have hkey := List.mem_map_of_mem (f := Prod.fst) hfield
    rw [hsame] at hkey
    exact absurd hkey (show "runtime-config".toList ∉ (["version".toList, "pid".toList,
      "epoch".toList, "executable".toList, "start-token".toList] : List Text) by decide)
  · exact (List.mem_singleton.1 hmem).symm

/-- What is read of a record that is cut off is the record, up to a shorter path. -/
theorem torn_read (h : serializeEpochRecord target record = .ok raw) (ht : t <+: raw)
    (hread : parseEpochRecord target t = .ok read) :
    read = { record with runtimeConfig := read.runtimeConfig } ∧
      read.runtimeConfig <+: record.runtimeConfig := by
  obtain ⟨path, hpath, rfl⟩ := serialize_ok h
  obtain ⟨hpid, hepoch, hexecutable, htoken⟩ := cut_names ht hread
  obtain ⟨fields, hfields, hlength, -⟩ := parseEpochRecord_ok.1 hread
  obtain ⟨cut, hlines, hcut⟩ := cut_shape ht hfields hlength
  have haccepted := parseEpochRecord_iff.1 hread
  rw [hlines] at haccepted
  rw [last_line haccepted, ← hpath] at hcut
  rw [fieldLine_eq, fieldLine_eq] at hcut
  refine ⟨?_, hexEncode_prefix ((List.prefix_append_right_inj _).1 hcut)⟩
  obtain ⟨pid, epoch, executable, startToken, config⟩ := read
  simp only at hpid hepoch hexecutable htoken
  rw [hpid, hepoch, hexecutable, htoken]

/-- A record that is cut off after some of its path is accepted. -/
theorem torn_accepted {shorter : Text} (htoken : Produced target record.startToken.toNat)
    (hfront : shorter <+: path) :
    let torn := unlines ((recordLines target record path).take 5) ++
      fieldLine "runtime-config" (hexEncode (encode shorter))
    torn <+: unlines (recordLines target record path) ∧
      torn ≠ unlines (recordLines target record path) ∧
      parseEpochRecord target torn = .ok { record with runtimeConfig := encode shorter } := by
  intro torn
  obtain ⟨rest, rfl⟩ := hfront
  have hwhole : unlines (recordLines target record (shorter ++ rest)) =
      torn ++ (hexEncode (encode rest) ++ ['\n']) := by
    have hhex : hexEncode (encode (shorter ++ rest)) =
        hexEncode (encode shorter) ++ hexEncode (encode rest) := by
      rw [encode_append, hexEncode, List.flatMap_append]
      rfl
    simp only [torn, recordLines, hhex, fieldLine, unlines]
    simp
  refine ⟨?_, ?_, ?_⟩
  · rw [hwhole]
    exact List.prefix_append _ _
  · rw [hwhole]
    exact fun hsame => by simpa using List.append_right_eq_self.1 hsame.symm
  · have hplain : ∀ line ∈ (recordLines target record (shorter ++ rest)).take 5,
        '\n' ∉ line ∧ '\r' ∉ line :=
      fun line hline => recordLines_plain line (List.mem_of_mem_take hline)
    have hmem : fieldLine "runtime-config" (hexEncode (encode shorter)) ∈
        recordLines target record shorter := by simp [recordLines]
    have hlast : '\n' ∉ fieldLine "runtime-config" (hexEncode (encode shorter)) :=
      (recordLines_plain _ hmem).1
    have hlines : lines torn = recordLines target { record with runtimeConfig := encode shorter }
        shorter := by
      rw [lines_unlines_append hplain, lines_last hlast (by simp [fieldLine])]
      rfl
    rw [parseEpochRecord_iff, hlines, recordLines_eq]
    exact ⟨_, .refl _, recordValues_spell rfl htoken⟩

end Lines

/-- The record as a codec. Written records are read back; a text is read exactly when
its lines are the six fields, so their order does not matter and nothing may be there
twice or come on top; what is left of a record is rejected, or read as the same
process with a leading part of the path. -/
theorem epochRecord_codec :
    (∀ target record path, record.runtimeConfig = encode path →
      Produced target record.startToken.toNat →
      ∃ text, serializeEpochRecord target record = .ok text ∧
        parseEpochRecord target text = .ok record) ∧
    (∀ target raw read,
      parseEpochRecord target raw = .ok read ↔ Accepted target (lines raw) read) ∧
    (∀ target raw other, (lines raw).Perm (lines other) → ∀ read,
      parseEpochRecord target raw = .ok read ↔ parseEpochRecord target other = .ok read) ∧
    (∀ target record text extra, serializeEpochRecord target record = .ok text → extra ≠ [] →
      ∀ read, parseEpochRecord target (text ++ extra) ≠ .ok read) ∧
    (∀ target record text torn read, serializeEpochRecord target record = .ok text →
      torn <+: text → parseEpochRecord target torn = .ok read →
      read = { record with runtimeConfig := read.runtimeConfig } ∧
        read.runtimeConfig <+: record.runtimeConfig) := by
  refine ⟨fun _ _ _ => parse_serialize, fun _ _ _ => parseEpochRecord_iff, ?_,
    fun _ _ _ _ h hextra _ => extended_rejected h hextra, fun _ _ _ _ _ => torn_read⟩
  intro target raw other hperm read
  rw [parseEpochRecord_iff, parseEpochRecord_iff]
  constructor
  · intro ⟨v, hv, hspell⟩
    exact ⟨v, hperm.symm.trans hv, hspell⟩
  · intro ⟨v, hv, hspell⟩
    exact ⟨v, hperm.trans hv, hspell⟩

/-- The record of the repository's round trip. -/
def sampleRecord : EpochPidRecord :=
  ⟨42, 7, "core=name.exe".toList, 99, encode "C:\\run dir\\config-7.yaml".toList⟩

theorem epochRecord_codec_sample : ∃ text, serializeEpochRecord .macos sampleRecord = .ok text ∧
    parseEpochRecord .macos text = .ok sampleRecord :=
  epochRecord_codec.1 .macos sampleRecord _ rfl fun _ => .inl (by decide)

/-- The end of the last line is cut off, with the name of the file. -/
theorem epochRecord_torn : ∃ text torn read,
    serializeEpochRecord .linux sampleRecord = .ok text ∧ torn <+: text ∧ torn ≠ text ∧
      parseEpochRecord .linux torn = .ok read ∧ read ≠ sampleRecord := by
  have hpath : "C:\\run dir\\".toList <+: "C:\\run dir\\config-7.yaml".toList := by decide
  obtain ⟨hfront, hne, hread⟩ := @torn_accepted .linux sampleRecord
    _ _ (nofun) hpath
  refine ⟨_, _, _, ?_, hfront, hne, hread, ?_⟩
  · rw [serializeEpochRecord, sampleRecord, decode_encode]
  · intro hsame
    have hconfig := encode_inj.1 (congrArg EpochPidRecord.runtimeConfig hsame)
    exact absurd hconfig (by decide)

end Chimera.Process
