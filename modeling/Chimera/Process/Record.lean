import Chimera.Lib.Fields

/-! Epoch pid records: who a started process is, on disk. -/

namespace Chimera.Process
open Chimera.Lib.Utf8 Chimera.Lib.Fields

/-- `target_os`. -/
inductive Target where
  | linux | macos | windows | other
  deriving DecidableEq, Repr

inductive ErrorKind where
  | notFound | permissionDenied | invalidInput | invalidData | timedOut | other
  deriving DecidableEq, Repr

structure IoError where
  kind : ErrorKind
  rawOsError : Option Int
  message : String
  deriving DecidableEq, Repr

def invalidInput (message : String) : IoError := ⟨.invalidInput, none, message⟩

def invalidData (message : String) : IoError := ⟨.invalidData, none, message⟩

def identityError (message : String) : IoError := ⟨.permissionDenied, none, message⟩

def epochPidVersion : Nat := 2

def epochPidVersionDarwinPrecise : Nat := 3

def darwinStartTokenRadix : Nat := 2 ^ 20

def darwinMaxSubsecondMicroseconds : Nat := 1000000

/-- `EpochPidRecord`; a path is its bytes. -/
structure EpochPidRecord where
  pid : UInt32
  epoch : UInt64
  executable : Text
  startToken : UInt64
  runtimeConfig : List UInt8
  deriving DecidableEq

/-! ## Serialization -/

def fieldLine (key : String) (value : Text) : Text := key.toList ++ '=' :: value

def recordVersion (target : Target) (record : EpochPidRecord) : Nat :=
  if target = .macos ∧ 2 ^ 32 ≤ record.startToken.toNat then epochPidVersionDarwinPrecise
  else epochPidVersion

def recordLines (target : Target) (record : EpochPidRecord) (runtimeConfig : Text) : List Text :=
  [fieldLine "version" (decimal (recordVersion target record)),
    fieldLine "pid" (decimal record.pid.toNat),
    fieldLine "epoch" (decimal record.epoch.toNat),
    fieldLine "executable" (hexEncode (encode record.executable)),
    fieldLine "start-token" (decimal record.startToken.toNat),
    fieldLine "runtime-config" (hexEncode (encode runtimeConfig))]

def unlines (lines : List Text) : Text := lines.flatMap (· ++ ['\n'])

def serializeEpochRecord (target : Target) (record : EpochPidRecord) : Except IoError Text :=
  match decode record.runtimeConfig with
  | none => .error (invalidInput "runtime config path must be UTF-8 for an epoch pid record")
  | some runtimeConfig => .ok (unlines (recordLines target record runtimeConfig))

/-! ## Parsing -/

abbrev Fields := List (Text × Text)

def collectFields (fields : Fields) : List Text → Except IoError Fields
  | [] => .ok fields
  | line :: more =>
    match splitOnce ['='] line with
    | none => .error (invalidData "malformed epoch pid record line")
    | some (key, value) =>
      if (fields.lookup key).isSome then .error (invalidData "duplicate epoch pid record field")
      else collectFields (fields ++ [(key, value)]) more

def expectedFields : List String :=
  ["epoch", "executable", "pid", "runtime-config", "start-token", "version"]

def required (fields : Fields) (key : String) : Except IoError Text :=
  match fields.lookup key.toList with
  | some value => .ok value
  | none => .error (invalidData ("missing epoch pid field \x60" ++ key ++ "\x60"))

def parseField (bound : Nat) (fields : Fields) (key : String) : Except IoError Nat := do
  match parseUnsigned bound (← required fields key) with
  | some value => .ok value
  | none => .error (invalidData ("invalid epoch pid field \x60" ++ key ++ "\x60"))

def hexError : HexError → IoError
  | .oddLength => invalidData "hex field has odd length"
  | .badDigit => invalidData "invalid hex field"

/-- A hexadecimal field that holds UTF-8. -/
def textField (fields : Fields) (key what : String) : Except IoError Text := do
  match decode (← (hexDecode (← required fields key)).mapError hexError) with
  | some text => .ok text
  | none => .error (invalidData ("epoch pid " ++ what ++ " is not UTF-8"))

/-- On macOS, version 2 counts seconds and version 3 has microseconds below them. -/
def checkDarwinToken (version startToken : Nat) : Except IoError Unit :=
  if version = epochPidVersion ∧ 2 ^ 32 ≤ startToken then
    .error (invalidData "version-2 Darwin start token is not seconds")
  else if version = epochPidVersionDarwinPrecise ∧ startToken < 2 ^ 32 then
    .error (invalidData "version-3 Darwin start token lacks subsecond precision")
  else if version = epochPidVersionDarwinPrecise ∧
      darwinMaxSubsecondMicroseconds ≤ startToken % darwinStartTokenRadix then
    .error (invalidData "version-3 Darwin start token has invalid microseconds")
  else .ok ()

def parseEpochRecord (target : Target) (raw : Text) : Except IoError EpochPidRecord := do
  let fields ← collectFields [] (lines raw)
  if fields.length ≠ expectedFields.length ∨
      ¬ expectedFields.all fun key => (fields.lookup key.toList).isSome then
    throw (invalidData "epoch pid record fields are incomplete")
  let version ← parseField (2 ^ 32) fields "version"
  if version ≠ epochPidVersion ∧
      ¬ (target = .macos ∧ version = epochPidVersionDarwinPrecise) then
    throw (invalidData s!"unsupported epoch pid record version {version}")
  let executable ← textField fields "executable" "executable"
  let runtimeConfig ← textField fields "runtime-config" "runtime path"
  let startToken ← parseField (2 ^ 64) fields "start-token"
  if target = .macos then checkDarwinToken version startToken
  let pid ← parseField (2 ^ 32) fields "pid"
  let epoch ← parseField (2 ^ 64) fields "epoch"
  pure {
    pid := pid.toUInt32
    epoch := epoch.toUInt64
    executable
    startToken := startToken.toUInt64
    runtimeConfig := encode runtimeConfig }

/-! ## Records that are cut off -/

section Cut

variable {target : Target} {record read : EpochPidRecord} {raw t path : Text}
  {fields found : Fields} {more : List Text} {key : String} {value : Text}

/-- What is cut off has whole lines, and at most one that is cut off itself. -/
theorem lines_unlines_cut (full : List Text) (h : ∀ line ∈ full, '\n' ∉ line ∧ '\r' ∉ line)
    (ht : t <+: unlines full) :
    ∃ k, ∃ last : List Text, lines t = full.take k ++ last ∧ k + last.length ≤ full.length ∧
      (last = [] ∨ ∃ cut line, last = [cut] ∧ full[k]? = some line ∧ cut <+: line) := by
  induction full generalizing t with
  | nil =>
    rw [List.prefix_nil.1 ht]
    exact ⟨0, [], rfl, by simp, .inl rfl⟩
  | cons line full ih =>
    obtain ⟨hn, hr⟩ := h line List.mem_cons_self
    have ht : t <+: line ++ '\n' :: unlines full := by simpa [unlines] using ht
    rcases cut_line_cases ht with hline | ⟨more, rfl, hmore⟩
    · by_cases hne : t = []
      · rw [hne]
        exact ⟨0, [], rfl, by simp, .inl rfl⟩
      · have hnt : '\n' ∉ t := fun hc => hn (hline.subset hc)
        exact ⟨0, [t], by simp [lines_last hnt hne], by simp, .inr ⟨t, line, rfl, rfl, hline⟩⟩
    · obtain ⟨k, last, hlines, hk, hlast⟩ := ih (fun l hl => h l (List.mem_cons_of_mem _ hl)) hmore
      refine ⟨k + 1, last, ?_, ?_, hlast⟩
      · rw [lines_append hn hr, hlines]
        rfl
      · simp only [List.length_cons]
        omega

theorem length_collectFields (h : collectFields fields more = .ok found) :
    found.length = fields.length + more.length := by
  induction more generalizing fields with
  | nil =>
    cases h
    rfl
  | cons line more ih =>
    simp only [collectFields] at h
    split at h
    · cases h
    · split at h
      · cases h
      · rw [ih h]
        simp
        omega

theorem lookup_collectFields (h : collectFields fields more = .ok found)
    (hk : fields.lookup key.toList = some value) : found.lookup key.toList = some value := by
  induction more generalizing fields with
  | nil =>
    cases h
    exact hk
  | cons line more ih =>
    simp only [collectFields] at h
    split at h
    · cases h
    · split at h
      · cases h
      · refine ih h ?_
        rw [List.lookup_append, hk]
        rfl

theorem collectFields_fieldLine (hkey : '=' ∉ key.toList)
    (hnew : fields.lookup key.toList = none) :
    collectFields fields (fieldLine key value :: more) =
      collectFields (fields ++ [(key.toList, value)]) more := by
  simp [collectFields, fieldLine, splitOnce_append hkey, hnew]

theorem except_bind_ok {ε α β : Type} {x : Except ε α} {f : α → Except ε β} {b : β}
    (h : x >>= f = .ok b) : ∃ a, x = .ok a ∧ f a = .ok b := by
  cases x with
  | error e => cases h
  | ok a => exact ⟨a, rfl, h⟩

/-- The version that comes with a token, and the token that a version may have. -/
def checkVersion (target : Target) (version startToken : Nat) : Prop :=
  (version = epochPidVersion ∨ target = .macos ∧ version = epochPidVersionDarwinPrecise) ∧
    (target = .macos → checkDarwinToken version startToken = .ok ())

/-- What an accepted record was read from. -/
structure ReadFrom (target : Target) (fields : Fields) (read : EpochPidRecord) : Prop where
  version : ∃ n, parseField (2 ^ 32) fields "version" = .ok n ∧
    checkVersion target n read.startToken.toNat
  executable : textField fields "executable" "executable" = .ok read.executable
  runtimeConfig : ∃ path, textField fields "runtime-config" "runtime path" = .ok path ∧
    read.runtimeConfig = encode path
  startToken : parseField (2 ^ 64) fields "start-token" = .ok read.startToken.toNat
  pid : parseField (2 ^ 32) fields "pid" = .ok read.pid.toNat
  epoch : parseField (2 ^ 64) fields "epoch" = .ok read.epoch.toNat

theorem parseField_lt {bound n : Nat} (h : parseField bound fields key = .ok n) : n < bound := by
  unfold parseField at h
  obtain ⟨value, -, h⟩ := except_bind_ok h
  split at h
  · rename_i hvalue
    cases h
    exact (parseUnsigned_eq_some.1 hvalue).lt
  · cases h

theorem parseEpochRecord_ok : parseEpochRecord target raw = .ok read ↔
    ∃ fields, collectFields [] (lines raw) = .ok fields ∧ fields.length = expectedFields.length ∧
      (∀ key ∈ expectedFields, (fields.lookup key.toList).isSome = true) ∧
      ReadFrom target fields read := by
  constructor
  · intro h
    unfold parseEpochRecord at h
    obtain ⟨fields, hfields, h⟩ := except_bind_ok h
    simp only at h
    split at h
    · cases h
    rename_i hcomplete
    rw [not_or, not_not, not_not, List.all_eq_true] at hcomplete
    obtain ⟨version, hversion, h⟩ := except_bind_ok h
    split at h
    · cases h
    rename_i hsupported
    obtain ⟨executable, hexecutable, h⟩ := except_bind_ok h
    obtain ⟨runtimeConfig, hconfig, h⟩ := except_bind_ok h
    obtain ⟨startToken, htoken, h⟩ := except_bind_ok h
    have hcheck : (target = .macos → checkDarwinToken version startToken = .ok ()) ∧
        (do
          let pid ← parseField (2 ^ 32) fields "pid"
          let epoch ← parseField (2 ^ 64) fields "epoch"
          pure (⟨pid.toUInt32, epoch.toUInt64, executable, startToken.toUInt64,
            encode runtimeConfig⟩ : EpochPidRecord)) = .ok read := by
      split at h
      · obtain ⟨⟨⟩, hcheck, h⟩ := except_bind_ok h
        exact ⟨fun _ => hcheck, h⟩
      · rename_i hother
        exact ⟨fun hmac => absurd hmac hother, h⟩
    obtain ⟨hcheck, h⟩ := hcheck
    obtain ⟨pid, hpid, h⟩ := except_bind_ok h
    obtain ⟨epoch, hepoch, h⟩ := except_bind_ok h
    cases h
    have htoken' : startToken.toUInt64.toNat = startToken := Nat.mod_eq_of_lt (parseField_lt htoken)
    have hpid' : pid.toUInt32.toNat = pid := Nat.mod_eq_of_lt (parseField_lt hpid)
    have hepoch' : epoch.toUInt64.toNat = epoch := Nat.mod_eq_of_lt (parseField_lt hepoch)
    refine ⟨fields, hfields, hcomplete.1, hcomplete.2, ⟨version, hversion, ?_, ?_⟩, hexecutable,
      ⟨runtimeConfig, hconfig, rfl⟩, ?_, ?_, ?_⟩
    · by_contra hnot
      rw [not_or] at hnot
      exact hsupported hnot
    · rw [htoken']
      exact hcheck
    · rw [htoken', htoken]
    · rw [hpid', hpid]
    · rw [hepoch', hepoch]
  · intro ⟨fields, hfields, hlength, hcomplete, hread⟩
    obtain ⟨⟨version, hversion, hsupported, hcheck⟩, hexecutable, ⟨path, hpath, hconfig⟩, htoken,
      hpid, hepoch⟩ := hread
    have hall : expectedFields.all (fun key => (fields.lookup key.toList).isSome) = true :=
      List.all_eq_true.2 hcomplete
    have hgood : ¬ (fields.length ≠ expectedFields.length ∨
        ¬ expectedFields.all (fun key => (fields.lookup key.toList).isSome) = true) := by
      rw [hall, hlength]
      simp
    have hknown : ¬ (version ≠ epochPidVersion ∧
        ¬ (target = .macos ∧ version = epochPidVersionDarwinPrecise)) := by
      rw [not_and_or, not_not, not_not]
      exact hsupported
    have hsame : (⟨read.pid.toNat.toUInt32, read.epoch.toNat.toUInt64, read.executable,
        read.startToken.toNat.toUInt64, encode path⟩ : EpochPidRecord) = read := by
      rw [← hconfig]
      simp
    unfold parseEpochRecord
    simp only [hfields, bind, Except.bind, hgood, if_false, hversion, hknown, hexecutable, hpath,
      htoken, hpid, hepoch]
    split
    · rename_i hmac
      rw [hcheck hmac]
      exact congrArg Except.ok hsame
    · exact congrArg Except.ok hsame

theorem notMem_decimal {n : Nat} {c : Char} (h : c.isDigit = false) : c ∉ decimal n := by
  intro hc
  rw [isDigit_of_mem_decimal hc] at h
  cases h

theorem notMem_hexEncode {bytes : List UInt8} {c : Char} (h : c ∉ hexDigits) :
    c ∉ hexEncode bytes :=
  fun hc => h (mem_hexEncode hc)

theorem recordLines_plain : ∀ line ∈ recordLines target record path, '\n' ∉ line ∧ '\r' ∉ line := by
  have decimals {key : String} {n : Nat} (hn : '\n' ∉ key.toList) (hr : '\r' ∉ key.toList) :
      '\n' ∉ fieldLine key (decimal n) ∧ '\r' ∉ fieldLine key (decimal n) := by
    simp [fieldLine, hn, hr, notMem_decimal (show '\n'.isDigit = false from rfl),
      notMem_decimal (show '\r'.isDigit = false from rfl)]
  have bytes {key : String} {b : List UInt8} (hn : '\n' ∉ key.toList) (hr : '\r' ∉ key.toList) :
      '\n' ∉ fieldLine key (hexEncode b) ∧ '\r' ∉ fieldLine key (hexEncode b) := by
    have hnb : '\n' ∉ hexEncode b := notMem_hexEncode (by decide)
    have hrb : '\r' ∉ hexEncode b := notMem_hexEncode (by decide)
    simp [fieldLine, hn, hr, hnb, hrb]
  intro line hline
  simp only [recordLines, List.mem_cons, List.not_mem_nil, or_false] at hline
  rcases hline with rfl | rfl | rfl | rfl | rfl | rfl
  · exact decimals (by decide) (by decide)
  · exact decimals (by decide) (by decide)
  · exact decimals (by decide) (by decide)
  · exact bytes (by decide) (by decide)
  · exact decimals (by decide) (by decide)
  · exact bytes (by decide) (by decide)

/-- The lines that say who the process is, once they are all there. -/
theorem collectFields_recordLines
    (h : collectFields [] ((recordLines target record path).take 5 ++ more) = .ok fields) :
    fields.lookup "pid".toList = some (decimal record.pid.toNat) ∧
      fields.lookup "epoch".toList = some (decimal record.epoch.toNat) ∧
      fields.lookup "executable".toList = some (hexEncode (encode record.executable)) ∧
      fields.lookup "start-token".toList = some (decimal record.startToken.toNat) := by
  simp only [recordLines, List.take_succ_cons, List.take_zero, List.cons_append,
    List.nil_append] at h
  rw [collectFields_fieldLine (by decide) rfl, collectFields_fieldLine (by decide) rfl,
    collectFields_fieldLine (by decide) rfl, collectFields_fieldLine (by decide) rfl,
    collectFields_fieldLine (by decide) rfl] at h
  exact ⟨lookup_collectFields h rfl, lookup_collectFields h rfl, lookup_collectFields h rfl,
    lookup_collectFields h rfl⟩

theorem parseField_decimal {bound n : Nat} (h : fields.lookup key.toList = some (decimal n))
    (hn : n < bound) : parseField bound fields key = .ok n := by
  simp [parseField, required, h, parseUnsigned_decimal hn, Bind.bind, Except.bind]

theorem textField_hexEncode {what : String} {text : Text}
    (h : fields.lookup key.toList = some (hexEncode (encode text))) :
    textField fields key what = .ok text := by
  simp [textField, required, h, hexDecode_hexEncode, Except.mapError, Bind.bind, Except.bind]

/-- What is left of a record has all the lines that say who the process is, or is
not accepted. -/
theorem cut_shape (ht : t <+: unlines (recordLines target record path))
    (h : collectFields [] (lines t) = .ok fields) (hlength : fields.length = expectedFields.length) :
    ∃ cut, lines t = (recordLines target record path).take 5 ++ [cut] ∧
      cut <+: fieldLine "runtime-config" (hexEncode (encode path)) := by
  obtain ⟨k, last, hlines, hk, hcut⟩ := lines_unlines_cut _ recordLines_plain ht
  have hcount := length_collectFields h
  have hsix : (recordLines target record path).length = 6 := rfl
  have hexpected : expectedFields.length = 6 := rfl
  rw [hlines, hlength, hexpected, List.length_append, List.length_take, List.length_nil] at hcount
  rcases hcut with rfl | ⟨cut, line, rfl, hline, hfront⟩
  · have hwhole : k = 6 := by
      rw [List.length_nil] at hk hcount
      omega
    subst hwhole
    exact ⟨_, hlines, List.prefix_rfl⟩
  · have hfive : k = 5 := by
      rw [List.length_singleton] at hk hcount
      omega
    subst hfive
    obtain rfl := Option.some.inj hline
    exact ⟨cut, hlines, hfront⟩

theorem cut_names (ht : t <+: unlines (recordLines target record path))
    (h : parseEpochRecord target t = .ok read) :
    read.pid = record.pid ∧ read.epoch = record.epoch ∧ read.executable = record.executable ∧
      read.startToken = record.startToken := by
  obtain ⟨fields, hfields, hlength, -, hread⟩ := parseEpochRecord_ok.1 h
  obtain ⟨cut, hlines, -⟩ := cut_shape ht hfields hlength
  rw [hlines] at hfields
  obtain ⟨hlpid, hlepoch, hlexe, hltoken⟩ := collectFields_recordLines hfields
  have hpid := hread.pid
  have hepoch := hread.epoch
  have hexe := hread.executable
  have htoken := hread.startToken
  rw [parseField_decimal hlpid record.pid.toNat_lt] at hpid
  rw [parseField_decimal hlepoch record.epoch.toNat_lt] at hepoch
  rw [textField_hexEncode hlexe] at hexe
  rw [parseField_decimal hltoken record.startToken.toNat_lt] at htoken
  exact ⟨UInt32.toNat_inj.1 (Except.ok.inj hpid).symm,
    UInt64.toNat_inj.1 (Except.ok.inj hepoch).symm, (Except.ok.inj hexe).symm,
    UInt64.toNat_inj.1 (Except.ok.inj htoken).symm⟩

/-- Whatever is left of a record names the same process, or is not accepted. -/
theorem parseEpochRecord_cut (ht : t <+: unlines (recordLines target record path))
    (h : parseEpochRecord target t = .ok read) :
    read.pid = record.pid ∧ read.executable = record.executable ∧
      read.startToken = record.startToken := by
  obtain ⟨hpid, -, hexe, htoken⟩ := cut_names ht h
  exact ⟨hpid, hexe, htoken⟩

/-- A text without a separator is no record. -/
theorem parseEpochRecord_plain (h : '=' ∉ raw) : parseEpochRecord target raw ≠ .ok read := by
  intro hok
  obtain ⟨fields, hfields, hlength, -⟩ := parseEpochRecord_ok.1 hok
  rcases hlines : lines raw with - | ⟨line, more⟩
  · rw [hlines] at hfields
    cases hfields
    cases hlength
  · have hplain : '=' ∉ line := by
      intro hc
      have hline : line ∈ lines raw := by simp [hlines]
      exact h (mem_of_mem_lines hline hc)
    simp [hlines, collectFields, splitOnce_none hplain] at hfields

end Cut

end Chimera.Process
