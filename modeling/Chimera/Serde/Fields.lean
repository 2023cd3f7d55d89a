import Mathlib.Data.String.Basic
import Chimera.Lib.Keyed
import Chimera.Serde.Syntax

/-! `DeserializeMap` and `DeserializeFields`: the tables they generate for a struct, and
the decoder that runs on the tables of a struct and the groups that it flattens. A field
has an index in its struct; the fields of a group come after those of the struct. -/

namespace Chimera.Serde
open Chimera.Lib.Fallible

inductive DecodeError where
  | duplicateField (field : String)
  | missingField (field : String)
  | custom (error : String)
  deriving DecidableEq, Repr

/-- The maps that can take what is unknown. -/
inductive SinkKind where
  | indexMap
  | btreeMap
  deriving DecidableEq, Repr

/-- A type that implements `ExtraFields`, with the decoder of its values. -/
structure Sink (ι δ : Type) where
  kind : SinkKind
  deserialize : ι → Except DecodeError δ

inductive DefaultAttr (δ : Type) where
  | none
  | default
  | path (value : δ)

/-- A field of a struct. -/
structure Member (ι δ : Type) where
  member : String
  attributes : List Attribute
  ty : Ty
  /-- `Deserialize` of the type. -/
  deserialize : ι → Except DecodeError δ
  /-- What its visitor makes of an absent value, where the type asks for an option. -/
  visitNone : Option (Except DecodeError δ)
  /-- `Default` of the type. -/
  typeDefault : δ
  /-- `ExtraFields` of the type. -/
  sink : Sink ι δ
  flatten : Bool
  skipDeserializing : Bool
  default : DefaultAttr δ
  deserializeWith : Option (ι → Except DecodeError δ)
  names : Names

/-- Named fields; no two have one name. -/
structure NamedFields (ι δ : Type) where
  fields : List (Member ι δ)
  nodup : (fields.map Member.member).Nodup

inductive StructData (ι δ : Type) where
  | named (fields : NamedFields ι δ)
  | unnamed
  | enum

/-- `syn` gives the attributes of the fields of a struct, Serde's parser the rest. -/
structure StructInput (ι δ : Type) where
  ident : String
  attributes : List Attribute
  fieldAttributes : List (List Attribute)
  container : Except String (Option (StructData ι δ))

variable {ι δ : Type}

/-! ## Checks -/

def readExtra (extra : Bool) (item : Nested) : Except String (Bool × Bool) :=
  if item.path ≠ "extra" ∨ extra then .error "expected a single `extra` marker"
  else .ok (true, false)

def extra (attributes : List Attribute) : Except String Bool :=
  parseMarkers readExtra false attributes

mutual

/-- A path in the type has a segment that is the struct's name, or `Self`. -/
def Ty.mentions (name : String) : Ty → Bool
  | .path _ segments inner =>
    segments.any (fun segment => segment.ident = "Self" || segment.ident = name) ||
      Ty.anyMentions name inner
  | .other inner => Ty.anyMentions name inner

def Ty.anyMentions (name : String) : List Ty → Bool
  | [] => false
  | ty :: rest => ty.mentions name || Ty.anyMentions name rest

end

def rejectRecursion (ty : Ty) (name : String) : Except String Unit :=
  reject (ty.mentions name) "recursive fields are unsupported by direct map derives"

/-! ## Generated code -/

/-- The arm of `read` for a field. -/
structure Arm (ι δ : Type) where
  member : String
  field : String
  decode : ι → Except DecodeError δ

/-- How `finish` gets a field. -/
inductive Finish (δ : Type) where
  /-- `state.member` -/
  | extras
  /-- `finish` of the group. -/
  | group
  /-- The default of a field that is skipped. -/
  | skipped (value : δ)
  /-- What there is, else what stands for it. -/
  | slot (missing : Except DecodeError δ)

/-- The `MapFields` of a struct. -/
structure Code (ι δ : Type) where
  lookup : List (List String × Nat)
  reads : List (Nat × Arm ι δ)
  finishes : List (String × Finish δ)
  flattened : Option String
  extras : Option (Sink ι δ)
  index : Nat

structure Generating (ι δ : Type) where
  code : Code ι δ
  names : List String

def Member.decode (field : Member ι δ) : ι → Except DecodeError δ :=
  field.deserializeWith.getD field.deserialize

/-- `missing`: the type is decoded from a deserializer that has an absent option. -/
def missing (visitNone : Option (Except DecodeError δ)) (name : String) : Except DecodeError δ :=
  visitNone.getD (.error (.missingField name))

/-- What stands for a field that is absent. -/
def Member.missing (field : Member ι δ) : Except DecodeError δ :=
  match field.default with
  | .default => .ok field.typeDefault
  | .path value => .ok value
  | .none =>
    if field.deserializeWith.isSome then .error (.missingField field.names.name)
    else Serde.missing field.visitNone field.names.name

def Member.skippedValue (field : Member ι δ) : δ :=
  match field.default with
  | .path value => value
  | _ => field.typeDefault

def Member.arm (field : Member ι δ) : Arm ι δ := ⟨field.member, field.names.name, field.decode⟩

/-! ## Generating -/

def DefaultAttr.isNone : DefaultAttr δ → Bool
  | .none => true
  | _ => false

/-- A flattened field: the extra sink, or the group. -/
def generateFlattened (deserialize isExtra : Bool) (state : Generating ι δ) (field : Member ι δ) :
    Except String (Generating ι δ) := do
  reject (!field.default.isNone || field.deserializeWith.isSome || field.skipDeserializing)
    "flattened fields cannot have decoding modifiers"
  if isExtra then do
    reject (!deserialize || state.code.extras.isSome || !field.flatten)
      "one #[serde(flatten)] extra sink is allowed on DeserializeMap"
    pure { state with code := { state.code with
      finishes := state.code.finishes ++ [(field.member, .extras)]
      extras := some field.sink } }
  else do
    reject state.code.flattened.isSome "only one flattened field group is supported"
    pure { state with code := { state.code with
      finishes := state.code.finishes ++ [(field.member, .group)]
      flattened := some field.member } }

def generateField (name : String) (deserialize : Bool) (state : Generating ι δ)
    (field : Member ι δ) : Except String (Generating ι δ) := do
  rejectRecursion field.ty name
  let isExtra ← extra field.attributes
  if isExtra || field.flatten then generateFlattened deserialize isExtra state field
  else if field.skipDeserializing then
    pure { state with code := { state.code with
      finishes := state.code.finishes ++ [(field.member, .skipped field.skippedValue)] } }
  else do
    let names ← insertAll "overlapping field names or aliases" state.names field.names.aliases
    let code := state.code
    pure ⟨{ code with
      lookup := code.lookup ++ [(field.names.aliases, code.index)]
      reads := code.reads ++ [(code.index, field.arm)]
      finishes := code.finishes ++ [(field.member, .slot field.missing)]
      index := code.index + 1 }, names⟩

def fieldAttributes : List String :=
  ["rename", "alias", "default", "flatten", "with", "deserialize_with", "serialize_with",
    "skip_serializing", "skip_serializing_if", "skip_deserializing"]

def generate (deserialize : Bool) (input : StructInput ι δ) : Except String (Code ι δ) := do
  validateAttributes ["rename", "rename_all"] input.attributes
  reject (input.attributes.any Attribute.isChimeraSerde) "extra is a field attribute"
  walk (fun _ attributes => validateAttributes fieldAttributes attributes) () input.fieldAttributes
  let container ← input.container
  match container with
  | none => .error "expected a struct"
  | some (.named named) => do
    let state ← walk (generateField input.ident deserialize) ⟨⟨[], [], [], none, none, 0⟩, []⟩
      named.fields
    pure state.code
  | some _ => .error "direct map derives require named structs"

/-! ## Running the generated code

The tables of a struct, and of the groups below it. The state has the slots of each by
how far down it is, and what the sink of the struct has taken. -/

structure DecodeState (ι δ : Type) where
  slots : Nat → String → Option δ
  extra : List (String × δ)

inductive Failure where
  | error (error : DecodeError)
  | panic (message : String)
  deriving DecidableEq, Repr

def DecodeState.start : DecodeState ι δ := ⟨fun _ _ => none, []⟩

def DecodeState.set (state : DecodeState ι δ) (level : Nat) (member : String) (value : δ) :
    DecodeState ι δ :=
  { state with slots := fun l m =>
      if l = level ∧ m = member then some value else state.slots l m }

/-- `field`: the index of a name. -/
def field : List (Code ι δ) → String → Option Nat
  | [], _ => none
  | code :: groups, name =>
    match code.lookup.find? fun arm => name ∈ arm.1 with
    | some arm => some arm.2
    | none =>
      match code.flattened with
      | some _ => (field groups name).map (· + code.index)
      | none => none

/-- What the arm of a field does with a value. -/
def Arm.run (arm : Arm ι δ) (level : Nat) (state : DecodeState ι δ) (value : ι) :
    Except Failure (DecodeState ι δ) :=
  if (state.slots level arm.member).isSome then .error (.error (.duplicateField arm.field))
  else
    match arm.decode value with
    | .ok value => .ok (state.set level arm.member value)
    | .error error => .error (.error error)

def unreachableIndex : String :=
  "internal error: entered unreachable code: invalid generated field index"

/-- `read`: the value of the field that has the index. -/
def read (level : Nat) : List (Code ι δ) → DecodeState ι δ → Nat → ι →
    Except Failure (DecodeState ι δ)
  | [], _, _, _ => .error (.panic unreachableIndex)
  | code :: groups, state, index, value =>
    match code.reads.lookup index with
    | some arm => arm.run level state value
    | none =>
      match code.flattened with
      | some _ => read (level + 1) groups state (index - code.index) value
      | none => .error (.panic unreachableIndex)

/-- `insert` of an `IndexMap`: a key that is there keeps its place. -/
def indexInsert (entries : List (String × δ)) (key : String) (value : δ) : List (String × δ) :=
  match entries with
  | [] => [(key, value)]
  | (k, v) :: rest =>
    if k = key then (k, value) :: rest else (k, v) :: indexInsert rest key value

def SinkKind.insert (kind : SinkKind) (entries : List (String × δ)) (key : String) (value : δ) :
    List (String × δ) :=
  match kind with
  | .indexMap => indexInsert entries key value
  | .btreeMap => Lib.Keyed.put entries key value

/-- `unknown`: into the sink of the struct, else past it. -/
def unknown (codes : List (Code ι δ)) (state : DecodeState ι δ) (key : String) (value : ι) :
    Except Failure (DecodeState ι δ) :=
  match codes.head?.bind Code.extras with
  | none => .ok state
  | some sink =>
    match sink.deserialize value with
    | .ok value => .ok { state with extra := sink.kind.insert state.extra key value }
    | .error error => .error (.error error)

inductive Key where
  | known (field : Nat)
  | unknown (key : String)
  deriving DecidableEq, Repr

/-- `KeySeed`; its two methods differ in who holds the text. -/
def keySeed (codes : List (Code ι δ)) (key : String) : Key :=
  match field codes key with
  | some index => .known index
  | none => .unknown key

/-- One turn of the loop of `visit_map`. -/
def visitEntry (codes : List (Code ι δ)) (state : DecodeState ι δ) (entry : String × ι) :
    Except Failure (DecodeState ι δ) :=
  match keySeed codes entry.1 with
  | .known index => read 0 codes state index entry.2
  | .unknown key => unknown codes state key entry.2

/-- The fields of a struct, and those of the groups below it. -/
abbrev Levels (δ : Type) := List (List (String × δ))

def filled (slot : Option δ) (missing : Except DecodeError δ) : Except DecodeError δ :=
  match slot with
  | some value => .ok value
  | none => missing

/-- The fields of a struct in their order; `group` is how its group finishes. -/
def finishFields (slots : String → Option δ) (group : Except DecodeError (Levels δ)) :
    List (String × Finish δ) → Except DecodeError (List (String × δ) × Levels δ)
  | [] => .ok ([], [])
  | (_, .extras) :: rest => finishFields slots group rest
  | (_, .group) :: rest => do
    let groups ← group
    let (fields, _) ← finishFields slots group rest
    pure (fields, groups)
  | (member, .skipped value) :: rest => do
    let (fields, groups) ← finishFields slots group rest
    pure ((member, value) :: fields, groups)
  | (member, .slot missing) :: rest => do
    let value ← filled (slots member) missing
    let (fields, groups) ← finishFields slots group rest
    pure ((member, value) :: fields, groups)

def finish (level : Nat) : List (Code ι δ) → DecodeState ι δ → Except DecodeError (Levels δ)
  | [], _ => .ok []
  | code :: groups, state => do
    let (fields, below) ←
      finishFields (state.slots level) (finish (level + 1) groups state) code.finishes
    pure (fields :: below)

structure MapOutput (δ : Type) where
  levels : Levels δ
  extra : List (String × δ)

/-- `visit_map`. -/
def visitMap (codes : List (Code ι δ)) (entries : List (String × ι)) :
    Except Failure (MapOutput δ) := do
  let state ← walk (visitEntry codes) .start entries
  let levels ← (finish 0 codes state).mapError Failure.error
  pure ⟨levels, state.extra⟩

end Chimera.Serde
