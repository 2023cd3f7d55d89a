import Chimera.Lib.Utf8
import Chimera.Model.Spec

/-! What a native cache file is, told from its bytes. -/

namespace Chimera.Native
open Chimera.Model Chimera.Lib.Utf8

abbrev Bytes := List UInt8

/-- As much of a YAML value as the cache check looks at. -/
inductive Yaml where
  | string (text : Text)
  | mapping (entries : List (Yaml × Yaml))
  | other

/-- The parsers of other packages. -/
structure Parsers where
  /-- `serde_yaml_ng::from_slice`. -/
  yaml : Bytes → Option Yaml
  /-- `serde_json` reads a map from strings to strings. -/
  selectorJson : Bytes → Bool

inductive CacheFormat where
  | empty | yaml | bolt | unknown
  deriving DecidableEq, Repr

/-- A little-endian number. -/
def fromLe : Bytes → Nat
  | [] => 0
  | b :: more => b.toNat + 256 * fromLe more

def slice (bytes : Bytes) (start stop : Nat) : Bytes := (bytes.drop start).take (stop - start)

def boltMagic : Nat := 0xed0cdaed

/-- The checksum of a bbolt meta page. -/
def metaHash (bytes : Bytes) : UInt64 :=
  (slice bytes 16 72).foldl (fun h b => (h ^^^ b.toUInt64) * 0x100000001b3) 0xcbf29ce484222325

def validMeta (bytes : Bytes) : Bool :=
  fromLe (slice bytes 16 20) = boltMagic && fromLe (slice bytes 20 24) = 2 &&
    (metaHash bytes).toNat = fromLe (slice bytes 72 80)

def maxCacheBytes : Nat := 64 * 1024 * 1024

def cacheKeys : List String := ["selected", "ip_to_host", "host_to_ip"]

def Yaml.isString : Yaml → Bool
  | .string _ => true
  | _ => false

def Yaml.get (entries : List (Yaml × Yaml)) (key : String) : Option Yaml :=
  (entries.find? fun entry => match entry.1 with
    | .string text => text = key.toList
    | _ => false).map Prod.snd

/-- A mapping from strings to strings. -/
def Yaml.isTable : Yaml → Bool
  | .mapping entries => entries.all fun entry => entry.1.isString && entry.2.isString
  | _ => false

def yamlFormat (parsers : Parsers) (bytes : Bytes) : CacheFormat :=
  match parsers.yaml bytes with
  | some (.mapping map) =>
    if !cacheKeys.any fun key => (Yaml.get map key).isSome then .unknown
    else if cacheKeys.all fun key => ((Yaml.get map key).map Yaml.isTable).getD true then .yaml
    else .unknown
  | _ => .unknown

def cacheFormat (parsers : Parsers) (bytes : Bytes) : CacheFormat :=
  if bytes.length = 0 then .empty
  else if 80 ≤ bytes.length ∧ fromLe (slice bytes 16 20) = boltMagic then
    let pageSize := fromLe (slice bytes 24 28)
    if ¬ (1024 ≤ pageSize ∧ pageSize ≤ 65536) ∨ 2 ^ pageSize.log2 ≠ pageSize ∨
        bytes.length < pageSize * 2 then .unknown
    else if validMeta (bytes.take 80) || validMeta (slice bytes pageSize (pageSize + 80)) then .bolt
    else .unknown
  else if maxCacheBytes < bytes.length then .unknown
  else yamlFormat parsers bytes

@[simp] theorem cacheFormat_nil (parsers : Parsers) : cacheFormat parsers [] = .empty := rfl

end Chimera.Native
