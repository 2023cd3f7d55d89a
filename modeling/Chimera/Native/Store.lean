import Chimera.Lib.Program
import Chimera.Native.Format
import Chimera.Process.Identity

/-! The native store as a sequence of file operations: taking a lease with its
migrations, and what a lease does around the start and the end of a core. -/

namespace Chimera.Native
open Chimera.Model Chimera.Lib.Utf8 Chimera.Lib.Program Chimera.Process

/-! ## Operations -/

/-- The directories that the store opens: the data root of the host, the store
inside it and what it holds. -/
inductive Dir where
  | data | root | version | home (kind : CoreKind) | migration
  deriving DecidableEq, Repr

structure Place where
  dir : Dir
  name : Option String
  deriving DecidableEq, Repr

inductive StoreError where
  | access (error : IoError)
  | busy (place : Place)
  | unsafePath (place : Place)
  | format (place : Place)
  | ownerMissing
  | recovery (place : Place)
  deriving DecidableEq, Repr

def notFound : StoreError := .access ⟨.notFound, none, "no such file"⟩

/-- The file operations; each may fail. -/
inductive Op : Type → Type
  /-- `Directory::open` and `Directory::child`. -/
  | enter (dir : Dir) : Op (Except StoreError Unit)
  | repairTree (dir : Dir) : Op (Except StoreError Unit)
  | present (dir : Dir) (name : String) : Op (Except StoreError Bool)
  /-- `Directory::read`: opened for reading. -/
  | read (dir : Dir) (name : String) : Op (Except StoreError Unit)
  /-- `Directory::file`: opened for writing. -/
  | file (dir : Dir) (name : String) (create : Bool) : Op (Except StoreError Unit)
  | contents (dir : Dir) (name : String) : Op (Except StoreError Bytes)
  /-- `set_len(0)`. -/
  | truncate (dir : Dir) (name : String) : Op (Except StoreError Unit)
  /-- `write_all`; when it fails, some of the bytes may be there. -/
  | writeAll (dir : Dir) (name : String) (bytes : Bytes) : Op (Except StoreError Unit)
  | syncAll (dir : Dir) (name : String) : Op (Except StoreError Unit)
  | sync (dir : Dir) : Op (Except StoreError Unit)
  | rename (dir : Dir) (old new : String) : Op (Except StoreError Unit)
  | remove (dir : Dir) (name : String) : Op (Except StoreError Unit)
  /-- The lock on `lease.lock`. -/
  | tryLock : Op (Except StoreError Unit)
  /-- The advisory lock of bbolt on the legacy cache. -/
  | tryLockLegacy : Op (Except StoreError Unit)
  /-- Whether the file in the data directory was modified after the home's. -/
  | newer (kind : CoreKind) (name : String) : Op (Except StoreError Bool)
  /-- The pid file that `record_started` is called with. -/
  | pidFile : Op (Except StoreError Bytes)
  | recordedProcessIsAlive (raw : Text) : Op (Except IoError Bool)

abbrev Store := Prog StoreError Op

/-! ## The store -/

inductive StoreOwner where
  | unix (uid gid : UInt32)
  | inherited
  | missing
  deriving DecidableEq, Repr

/-- `FsNativeStore`. -/
structure FsNativeStore where
  owner : StoreOwner
  legacyKind : Option CoreKind
  parsers : Parsers

/-- What an `FsLease` adds to the directories that it pins. -/
structure Lease where
  kind : CoreKind
  deriving DecidableEq, Repr

def cacheName : String := "cache.db"

def selectorName : String := "selector-cache.json"

def importName (name : String) : String := name ++ ".import"

/-- `copy_file`. -/
def copyFile (source : Dir) (sourceName : String) (target : Dir) (name : String) : Store Unit := do
  demand (.file target (importName name) true)
  demand (.truncate target (importName name))
  let bytes ← demand (.contents source sourceName)
  demand (.writeAll target (importName name) bytes)
  demand (.syncAll target (importName name))
  demand (.rename target (importName name) name)
  demand (.sync target)

/-- `copy_once`. -/
def copyOnce (source : Dir) (sourceName : String) (target : Dir) (name : String) : Store Unit := do
  if ← demand (.present target name) then pure ()
  else copyFile source sourceName target name

/-- `validate_selector_json`. -/
def validateSelectorJson (parsers : Parsers) (dir : Dir) : Store Unit := do
  let bytes ← demand (.contents dir selectorName)
  if maxCacheBytes < bytes.length ∨ parsers.selectorJson bytes = false then
    fail (.format ⟨dir, some selectorName⟩)

/-- A marker is written beside its name and renamed. -/
def writeMarker (staged name : String) (text : String) : Store Unit := do
  demand (.file .root staged true)
  demand (.truncate .root staged)
  demand (.writeAll .root staged (encode text.toList))
  demand (.syncAll .root staged)
  demand (.rename .root staged name)
  demand (.sync .root)

/-- `migrate_meow`. -/
def migrateMeow (store : FsNativeStore) (kind : CoreKind) : Store Unit := do
  if ← demand (.present (.home kind) selectorName) then return
  if ← demand (.present .root "meow-migrated.json") then return
  if !(← demand (.present .data selectorName)) then return
  demand (.read .data selectorName)
  validateSelectorJson store.parsers .data
  demand (.enter .migration)
  copyOnce .data selectorName .migration "selector-cache.json.backup"
  copyOnce .data selectorName (.home kind) selectorName
  writeMarker "meow-migrated.new" "meow-migrated.json" "\x7b\"version\":1\x7d"

/-- The core that the legacy cache belongs to; an empty cache is nobody's. -/
def sourceKind (legacyKind : Option CoreKind) : CacheFormat → Except StoreError (Option CoreKind)
  | .yaml => .ok (some (if legacyKind = some .chimeraClient then .chimeraClient else .clashRust))
  | .bolt =>
    match legacyKind with
    | some .mihomo => .ok (some .mihomo)
    | some .clashPremium => .ok (some .clashPremium)
    | _ => .error (.format ⟨.data, some cacheName⟩)
  | .empty => .ok none
  | .unknown => .error (.format ⟨.data, some cacheName⟩)

/-- `migrate`. -/
def migrate (store : FsNativeStore) (kind : CoreKind) : Store Unit := do
  if ← demand (.present (.home kind) cacheName) then return
  if ← demand (.present .root "migration.json") then return
  if !(← demand (.present .data cacheName)) then return
  demand (.read .data cacheName)
  demand .tryLockLegacy
  let old ← demand (.contents .data cacheName)
  match sourceKind store.legacyKind (cacheFormat store.parsers old) with
  | .error e => fail e
  | .ok none => pure ()
  | .ok (some source) =>
    demand (.enter .migration)
    copyOnce .data cacheName .migration "cache.db.backup"
    -- Into its own home, even when the requested core is another one.
    demand (.enter .version)
    demand (.enter (.home source))
    if !(← demand (.present (.home source) cacheName)) then
      copyOnce .data cacheName (.home source) cacheName
    writeMarker "migration.new" "migration.json"
      ("\x7b\"version\":1,\"kind\":\"" ++ source.display ++ "\"\x7d")

def resources : List String :=
  ["Country.mmdb", "geoip.dat", "GeoIP.dat", "geosite.dat", "GeoSite.dat", "geoip.metadb",
    "geoip.db", "ASN.mmdb", "BundleMRS.7z", "wintun.dll"]

/-- `seed_resources`. -/
def seedResources (kind : CoreKind) : List String → Store Unit
  | [] => pure ()
  | name :: more => do
    if ← demand (.present .data name) then
      demand (.read .data name)
      let replace ← if ← demand (.present (.home kind) name) then demand (.newer kind name)
        else pure true
      if replace then copyFile .data name (.home kind) name
    seedResources kind more

def emptyYamlCache : String := "selected: \x7b\x7d\nip_to_host: \x7b\x7d\nhost_to_ip: \x7b\x7d\n"

/-- `FsLease::check_cache`. -/
def checkCache (parsers : Parsers) (kind : CoreKind) : Store Unit := do
  if kind = .meow then
    demand (.file (.home kind) selectorName true)
    let bytes ← demand (.contents (.home kind) selectorName)
    if bytes.length = 0 then
      demand (.writeAll (.home kind) selectorName (encode "\x7b\x7d".toList))
      demand (.syncAll (.home kind) selectorName)
    validateSelectorJson parsers (.home kind)
  else
    demand (.file (.home kind) cacheName true)
    let bytes ← demand (.contents (.home kind) cacheName)
    match kind, cacheFormat parsers bytes with
    | .clashRust, .empty | .chimeraClient, .empty =>
      demand (.writeAll (.home kind) cacheName (encode emptyYamlCache.toList))
      demand (.syncAll (.home kind) cacheName)
    | _, .empty => pure ()
    | .clashRust, .yaml | .chimeraClient, .yaml => pure ()
    | .mihomo, .bolt | .clashPremium, .bolt => pure ()
    | _, _ => fail (.format ⟨.home kind, some cacheName⟩)

/-- `FsNativeStore::directories`. -/
def directories (store : FsNativeStore) (kind : CoreKind) : Store Unit := do
  if store.owner = .missing then fail .ownerMissing
  demand (.enter .data)
  demand (.enter .root)
  demand (.enter .version)
  demand (.enter (.home kind))

/-- `read_to_string`. -/
def readToString (bytes : Bytes) : Store Text :=
  match decode bytes with
  | some text => pure text
  | none => fail (.access (invalidData "stream did not contain valid UTF-8"))

def activeLimit : Nat := 16384

/-- `FsNativeStore::acquire`. -/
def acquire (store : FsNativeStore) (kind : CoreKind) : Store Lease := do
  directories store kind
  -- One core can own native data at a time, across both hosts.
  demand (.file .root "lease.lock" true)
  demand .tryLock
  if ← demand (.present .root "active") then
    demand (.read .root "active")
    let raw ← readToString ((← demand (.contents .root "active")).take activeLimit)
    match ← perform (.recordedProcessIsAlive raw) with
    | .ok false => demand (.remove .root "active")
    | .ok true => fail (.busy ⟨.root, some "active"⟩)
    | .error _ => fail (.recovery ⟨.root, some "active"⟩)
  demand (.repairTree (.home kind))
  if kind = .meow then migrateMeow store kind else migrate store kind
  seedResources kind resources
  checkCache store.parsers kind
  pure ⟨kind⟩

/-! ## Leases -/

/-- `FsLease::prepare_spawn`. -/
def prepareSpawn (parsers : Parsers) (lease : Lease) : Store Unit := do
  demand (.repairTree (.home lease.kind))
  checkCache parsers lease.kind
  demand (.file .root "active" true)
  demand (.truncate .root "active")
  demand (.writeAll .root "active" (encode lease.kind.display.toList))
  demand (.syncAll .root "active")
  demand (.sync .root)

/-- `FsLease::record_started`. -/
def recordStarted : Store Unit := do
  let raw ← readToString (← demand .pidFile)
  match ← perform (.recordedProcessIsAlive raw) with
  | .error e => fail (.access e)
  | .ok _ =>
    demand (.file .root "active.new" true)
    demand (.truncate .root "active.new")
    demand (.writeAll .root "active.new" (encode raw))
    demand (.syncAll .root "active.new")
    demand (.rename .root "active.new" "active")
    demand (.sync .root)

/-- `FsLease::confirm_stopped`. -/
def confirmStopped (lease : Lease) : Store Unit := do
  demand (.repairTree (.home lease.kind))
  demand (.remove .root "active")
  demand (.sync .root)

end Chimera.Native
