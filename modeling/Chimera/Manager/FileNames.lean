import Mathlib.Data.Nat.Pairing
import Chimera.Lib.Fields
import Chimera.Manager.Store

/-! The names of the runtime directory as texts. They are written in four places
and matched in two others: `artifact_epoch` reads the number back, and
`cleanup_artifacts` finds what belongs to a number by its name. -/

namespace Chimera.Manager
open Chimera.Lib.Utf8 Chimera.Lib.Fields

def core : Text := "core-".toList

def config : Text := "config-".toList

def hiddenConfig : Text := ".config-".toList

def yaml : Text := ".yaml".toList

def pidFile : Text := ".pid".toList

def sock : Text := ".sock".toList

def yamlBackup : Text := ".yaml.backup-".toList

def yamlTmp : Text := ".yaml.tmp-".toList

def pidTmp : Text := ".pid.tmp-".toList

/-! ## Writing -/

def artifactRuntimeName (discovered : Nat) : Text := config ++ (decimal discovered ++ yaml)

def artifactPidName (discovered : Nat) : Text := core ++ (decimal discovered ++ pidFile)

def artifactSocketName (discovered : Nat) : Text := core ++ (decimal discovered ++ sock)

/-- `{process}-{counter}`. -/
def unique (process counter : Nat) : Text := decimal process ++ '-' :: decimal counter

/-- The name `stage` takes. -/
def stagedName (epoch process counter : Nat) : Text :=
  hiddenConfig ++ (decimal epoch ++ (yamlTmp ++ unique process counter))

/-- The name `backup` moves to. -/
def backupName (epoch generation : Nat) : Text :=
  config ++ (decimal epoch ++ (yamlBackup ++ decimal generation))

/-- `Path::file_stem`: what stands before the last dot, unless nothing does. -/
def fileStem (name : Text) : Text :=
  let before := ((name.reverse.dropWhile (· ≠ '.')).drop 1).reverse
  if before.isEmpty then name else before

def withExtension (name extension : Text) : Text := fileStem name ++ '.' :: extension

/-- The name `write_epoch_record` writes to, beside a pid file. -/
def pidTempName (path : Text) (process counter : Nat) : Text :=
  withExtension path ("pid.tmp-".toList ++ unique process counter)

/-- What the store and the pid writer create for an epoch. -/
inductive Generated where
  | runtime (epoch : UInt64)
  | staged (epoch : UInt64) (process : UInt32) (counter : UInt64)
  | backup (epoch generation : UInt64)
  | pid (epoch : UInt64)
  | pidTemp (epoch : UInt64) (process : UInt32) (counter : UInt64)
  | socket (epoch : UInt64)
  deriving DecidableEq, Repr

def Generated.epoch : Generated → UInt64
  | .runtime e | .staged e _ _ | .backup e _ | .pid e | .pidTemp e _ _ | .socket e => e

def Generated.fileName : Generated → Text
  | .runtime e => artifactRuntimeName e.toNat
  | .staged e process counter => stagedName e.toNat process.toNat counter.toNat
  | .backup e generation => backupName e.toNat generation.toNat
  | .pid e => artifactPidName e.toNat
  | .pidTemp e process counter =>
    pidTempName (artifactPidName e.toNat) process.toNat counter.toNat
  | .socket e => artifactSocketName e.toNat

/-! ## Matching -/

/-- The part of a name that `artifact_epoch` reads a number from. -/
def epochText (name : Text) : Option Text :=
  ((stripPrefix core name).bind (stripSuffix pidFile)).or
  (((stripPrefix core name).bind (stripSuffix sock)).or
  (((stripPrefix config name).bind fun value =>
    (stripSuffix yaml value).or ((splitOnce yamlBackup value).map Prod.fst)).or
  (((stripPrefix hiddenConfig name).bind fun value =>
    (splitOnce yamlTmp value).map Prod.fst).or
  ((stripPrefix core name).bind fun value => (splitOnce pidTmp value).map Prod.fst))))

def artifactEpoch (name : Text) : Option Nat := do
  let rest ← epochText name
  parseUnsigned (2 ^ 64) rest

/-- What the last loop of `cleanup_artifacts` takes. -/
def isLooseName (discovered : Nat) (name : Text) : Bool :=
  (config ++ decimal discovered ++ yamlBackup).isPrefixOf name ||
    (hiddenConfig ++ decimal discovered ++ yamlTmp).isPrefixOf name ||
    (core ++ decimal discovered ++ pidTmp).isPrefixOf name

/-- What `cleanup_artifacts` removes. -/
def belongs (discovered : Nat) (name : Text) : Bool :=
  name = artifactRuntimeName discovered || name = artifactPidName discovered ||
    name = artifactSocketName discovered || isLooseName discovered name

section Names

variable {n process counter generation : Nat} {name t front : Text} {c : Char}

theorem fileStem_pid : fileStem (artifactPidName n) = core ++ decimal n := by
  have hreverse : (artifactPidName n).reverse =
      'd' :: 'i' :: 'p' :: '.' :: (core ++ decimal n).reverse := by
    rw [artifactPidName, ← List.append_assoc, List.reverse_append]
    rfl
  have hbefore : (((artifactPidName n).reverse.dropWhile (· ≠ '.')).drop 1).reverse =
      core ++ decimal n := by
    rw [hreverse]
    exact List.reverse_reverse _
  rw [fileStem, hbefore]
  exact if_neg (by simp [core])

theorem pidTempName_eq : pidTempName (artifactPidName n) process counter =
    core ++ (decimal n ++ (pidTmp ++ unique process counter)) := by
  have hdot : '.' :: ("pid.tmp-".toList ++ unique process counter) =
      pidTmp ++ unique process counter := rfl
  rw [pidTempName, withExtension, fileStem_pid, hdot, List.append_assoc]

theorem notMem_decimal (h : c.isDigit = false) : c ∉ decimal n := by
  intro hc
  rw [isDigit_of_mem_decimal hc] at h
  cases h

/-- A name that ends with a number has no suffix that ends with a letter. -/
theorem not_suffix_decimal {pat : Text} (hpat : pat.getLast? = some c) (hc : c.isDigit = false) :
    stripSuffix pat (front ++ decimal n) = none := by
  refine stripSuffix_none ?_
  intro ⟨before, hbefore⟩
  have hne : decimal n ≠ [] := Nat.toDigits_ne_nil
  have hlast := congrArg List.getLast? hbefore
  rw [List.getLast?_append_of_ne_nil _ (by rintro rfl; cases hpat), hpat,
    List.getLast?_append_of_ne_nil _ hne] at hlast
  exact notMem_decimal hc (List.mem_of_getLast? hlast.symm)

/-- The three kinds of names begin differently. -/
theorem core_config : stripPrefix core (config ++ t) = none := rfl

theorem core_hidden : stripPrefix core (hiddenConfig ++ t) = none := rfl

theorem config_core : stripPrefix config (core ++ t) = none := rfl

theorem config_hidden : stripPrefix config (hiddenConfig ++ t) = none := rfl

theorem hidden_core : stripPrefix hiddenConfig (core ++ t) = none := rfl

theorem pidFile_sock : stripSuffix pidFile (front ++ sock) = none := by
  refine stripSuffix_none ?_
  intro ⟨before, hbefore⟩
  have hlast := congrArg List.getLast? hbefore
  rw [List.getLast?_append_of_ne_nil _ (by decide), List.getLast?_append_of_ne_nil _ (by decide)]
    at hlast
  exact absurd hlast (by decide)

theorem epochText_fileName (g : Generated) :
    epochText g.fileName = some (decimal g.epoch.toNat) := by
  have digits {n : Nat} : '.' ∉ decimal n := notMem_decimal (by decide)
  cases g with
  | runtime e =>
    show epochText (config ++ (decimal e.toNat ++ yaml)) = some (decimal e.toNat)
    simp only [epochText, core_config, stripPrefix_append, stripSuffix_append, Option.bind_none,
      Option.bind_some, Option.none_or, Option.some_or]
  | staged e process counter =>
    show epochText (hiddenConfig ++ (decimal e.toNat ++ (yamlTmp ++ _))) = some (decimal e.toNat)
    have hsplit {rest : Text} : splitOnce yamlTmp (decimal e.toNat ++ (yamlTmp ++ rest)) =
        some (decimal e.toNat, rest) := splitOnce_pattern digits
    simp only [epochText, core_hidden, config_hidden, stripPrefix_append, hsplit,
      Option.bind_none, Option.bind_some, Option.none_or, Option.some_or, Option.map_some]
  | backup e generation =>
    show epochText (config ++ (decimal e.toNat ++ (yamlBackup ++ decimal generation.toNat))) =
      some (decimal e.toNat)
    have hsplit {rest : Text} : splitOnce yamlBackup (decimal e.toNat ++ (yamlBackup ++ rest)) =
        some (decimal e.toNat, rest) := splitOnce_pattern digits
    have hyaml : stripSuffix yaml
        (decimal e.toNat ++ (yamlBackup ++ decimal generation.toNat)) = none := by
      rw [← List.append_assoc]
      exact not_suffix_decimal (c := 'l') rfl rfl
    simp only [epochText, core_config, stripPrefix_append, hyaml, hsplit,
      Option.bind_none, Option.bind_some, Option.none_or, Option.some_or, Option.map_some]
  | pid e =>
    show epochText (core ++ (decimal e.toNat ++ pidFile)) = some (decimal e.toNat)
    simp only [epochText, stripPrefix_append, stripSuffix_append, Option.bind_some,
      Option.some_or]
  | pidTemp e process counter =>
    show epochText (pidTempName _ _ _) = some (decimal e.toNat)
    have hsplit {rest : Text} : splitOnce pidTmp (decimal e.toNat ++ (pidTmp ++ rest)) =
        some (decimal e.toNat, rest) := splitOnce_pattern digits
    have hsuffix {pat : Text} {c : Char} (hpat : pat.getLast? = some c) (hc : c.isDigit = false) :
        stripSuffix pat (decimal e.toNat ++
          (pidTmp ++ unique process.toNat counter.toNat)) = none := by
      have hsnoc : decimal e.toNat ++ (pidTmp ++ unique process.toNat counter.toNat) =
          (decimal e.toNat ++ (pidTmp ++ (decimal process.toNat ++ ['-']))) ++
            decimal counter.toNat := by
        simp [unique]
      rw [hsnoc]
      exact not_suffix_decimal hpat hc
    rw [pidTempName_eq]
    simp only [epochText, stripPrefix_append, config_core, hidden_core,
      @hsuffix pidFile 'd' rfl rfl, @hsuffix sock 'k' rfl rfl, hsplit,
      Option.bind_none, Option.bind_some, Option.none_or, Option.map_some]
  | socket e =>
    show epochText (core ++ (decimal e.toNat ++ sock)) = some (decimal e.toNat)
    simp only [epochText, stripPrefix_append, pidFile_sock, stripSuffix_append, Option.bind_some,
      Option.none_or, Option.some_or]

theorem artifactEpoch_fileName (g : Generated) : artifactEpoch g.fileName = some g.epoch.toNat := by
  rw [artifactEpoch, epochText_fileName]
  exact parseUnsigned_decimal g.epoch.toNat_lt

/-! ## Names of one number -/

/-- What stands between the first dash of a name and the next dot. -/
def numberText (name : Text) : Text :=
  ((name.dropWhile (· ≠ '-')).drop 1).takeWhile (· ≠ '.')

theorem decimal_inj {m : Nat} (h : decimal n = decimal m) : n = m := by
  have hvalue := congrArg (fun digits => Nat.ofDigitChars 10 digits 0) h
  simpa [decimal] using hvalue

theorem numberText_append (hfront : '-' ∉ front) :
    numberText (front ++ '-' :: (decimal n ++ '.' :: t)) = decimal n := by
  have hdrop : (front ++ '-' :: (decimal n ++ '.' :: t)).dropWhile (· ≠ '-') =
      '-' :: (decimal n ++ '.' :: t) := by
    rw [List.dropWhile_append_of_pos]
    · rfl
    · intro c hc
      exact decide_eq_true fun heq => hfront (heq ▸ hc)
  rw [numberText, hdrop, List.drop_one, List.tail_cons, List.takeWhile_append_of_pos]
  · exact List.append_nil _
  · intro c hc
    exact decide_eq_true fun heq => notMem_decimal (c := '.') (by decide) (heq ▸ hc)

/-- Everything that a cleanup removes has its number in front of the first dot. -/
theorem numberText_belongs (h : belongs n name = true) : numberText name = decimal n := by
  have afterCore {t : Text} : numberText (core ++ (decimal n ++ '.' :: t)) = decimal n :=
    numberText_append (show '-' ∉ "core".toList by decide)
  have afterConfig {t : Text} : numberText (config ++ (decimal n ++ '.' :: t)) = decimal n :=
    numberText_append (show '-' ∉ "config".toList by decide)
  have afterHidden {t : Text} : numberText (hiddenConfig ++ (decimal n ++ '.' :: t)) = decimal n :=
    numberText_append (show '-' ∉ ".config".toList by decide)
  simp only [belongs, isLooseName, Bool.or_eq_true, decide_eq_true_eq,
    List.isPrefixOf_iff_prefix] at h
  rcases h with ((rfl | rfl) | rfl) | (⟨t, rfl⟩ | ⟨t, rfl⟩) | ⟨t, rfl⟩
  · exact afterConfig
  · exact afterCore
  · exact afterCore
  · rw [List.append_assoc, List.append_assoc]
    exact afterConfig
  · rw [List.append_assoc, List.append_assoc]
    exact afterHidden
  · rw [List.append_assoc, List.append_assoc]
    exact afterCore

theorem isLooseName_prefix {kind mark : Text} (h : (kind, mark) ∈
    [(config, yamlBackup), (hiddenConfig, yamlTmp), (core, pidTmp)]) :
    isLooseName n (kind ++ (decimal n ++ (mark ++ t))) = true := by
  have hfront : (kind ++ decimal n ++ mark).isPrefixOf (kind ++ (decimal n ++ (mark ++ t))) =
      true := by
    rw [List.isPrefixOf_iff_prefix]
    exact ⟨t, by simp⟩
  simp only [List.mem_cons, Prod.mk.injEq, List.not_mem_nil, or_false] at h
  rcases h with ⟨rfl, rfl⟩ | ⟨rfl, rfl⟩ | ⟨rfl, rfl⟩
  · rw [isLooseName, hfront]
    rfl
  · rw [isLooseName, hfront, Bool.or_true]
    rfl
  · rw [isLooseName, hfront, Bool.or_true]

theorem isLooseName_staged : isLooseName n (stagedName n process counter) = true := by
  show isLooseName n (hiddenConfig ++ (decimal n ++ (yamlTmp ++ unique process counter))) = true
  exact isLooseName_prefix (by simp)

theorem isLooseName_backup : isLooseName n (backupName n generation) = true := by
  show isLooseName n (config ++ (decimal n ++ (yamlBackup ++ decimal generation))) = true
  exact isLooseName_prefix (by simp)

theorem isLooseName_pidTemp :
    isLooseName n (pidTempName (artifactPidName n) process counter) = true := by
  rw [pidTempName_eq]
  exact isLooseName_prefix (by simp)

theorem isLooseName_length (h : isLooseName n name = true) :
    (decimal n).length + 14 ≤ name.length := by
  simp only [isLooseName, Bool.or_eq_true, List.isPrefixOf_iff_prefix] at h
  rcases h with (h | h) | h
  · have hle := h.length_le
    have hmark : config.length + yamlBackup.length = 20 := rfl
    rw [List.length_append, List.length_append] at hle
    omega
  · have hle := h.length_le
    have hmark : hiddenConfig.length + yamlTmp.length = 18 := rfl
    rw [List.length_append, List.length_append] at hle
    omega
  · have hle := h.length_le
    have hmark : core.length + pidTmp.length = 14 := rfl
    rw [List.length_append, List.length_append] at hle
    omega

/-- The stores' own name for what has this file name; a staging suffix is a pair. -/
def Generated.artifact : Generated → Artifact
  | .runtime e => .config e.toNat
  | .staged e process counter => .staging e.toNat (Nat.pair process.toNat counter.toNat)
  | .backup e generation => .backup e.toNat generation.toNat
  | .pid e => .pid e.toNat
  | .pidTemp e process counter => .pidStaging e.toNat (Nat.pair process.toNat counter.toNat)
  | .socket e => .socket e.toNat

theorem belongs_loose (h : isLooseName n name = true) : belongs n name = true := by
  rw [belongs, h, Bool.or_true]

theorem belongs_self (g : Generated) : belongs g.epoch.toNat g.fileName = true := by
  cases g with
  | runtime e => simp [belongs, Generated.fileName, Generated.epoch]
  | staged e process counter => exact belongs_loose isLooseName_staged
  | backup e generation => exact belongs_loose isLooseName_backup
  | pid e => simp [belongs, Generated.fileName, Generated.epoch]
  | pidTemp e process counter => exact belongs_loose isLooseName_pidTemp
  | socket e => simp [belongs, Generated.fileName, Generated.epoch]

/-- A cleanup takes the generated names of its number, and no other ones. -/
theorem belongs_fileName (g : Generated) : belongs n g.fileName = true ↔ g.epoch.toNat = n := by
  constructor
  · intro h
    exact decimal_inj ((numberText_belongs (belongs_self g)).symm.trans (numberText_belongs h))
  · intro h
    rw [← h, belongs_self]

/-- The stores' model finds what is loose by the kind, the source by the name. -/
theorem isLoose_artifact (g : Generated) : g.artifact.isLoose n = isLooseName n g.fileName := by
  have number (h : isLooseName n g.fileName = true) : g.epoch.toNat = n :=
    (belongs_fileName g).1 (belongs_loose h)
  have fixed (hlength : g.fileName.length < (decimal g.epoch.toNat).length + 14) :
      isLooseName n g.fileName = false := by
    rw [← Bool.not_eq_true]
    intro h
    have hle := isLooseName_length h
    rw [number h] at hlength
    omega
  have marked (h : isLooseName g.epoch.toNat g.fileName = true) :
      decide (g.epoch.toNat = n) = isLooseName n g.fileName := by
    by_cases hn : g.epoch.toNat = n
    · rw [← hn, h, decide_eq_true rfl]
    · rw [decide_eq_false hn]
      exact (Bool.eq_false_iff.2 fun hloose => hn (number hloose)).symm
  cases g with
  | runtime e =>
    have hparts : config.length + yaml.length = 12 := rfl
    refine (fixed ?_).symm
    show (config ++ (decimal e.toNat ++ yaml)).length < (decimal e.toNat).length + 14
    rw [List.length_append, List.length_append]
    omega
  | staged e process counter => exact marked isLooseName_staged
  | backup e generation => exact marked isLooseName_backup
  | pid e =>
    have hparts : core.length + pidFile.length = 9 := rfl
    refine (fixed ?_).symm
    show (core ++ (decimal e.toNat ++ pidFile)).length < (decimal e.toNat).length + 14
    rw [List.length_append, List.length_append]
    omega
  | pidTemp e process counter => exact marked isLooseName_pidTemp
  | socket e =>
    have hparts : core.length + sock.length = 10 := rfl
    refine (fixed ?_).symm
    show (core ++ (decimal e.toNat ++ sock)).length < (decimal e.toNat).length + 14
    rw [List.length_append, List.length_append]
    omega

end Names

end Chimera.Manager
