import Chimera.Serde.Syntax

/-! `DeserializeUntagged`: the code it generates for an enum, and what that code does
with a scalar. The first variant in order that takes the scalar is the answer, however
a text is held. -/

namespace Chimera.Serde
open Chimera.Lib.Fallible

inductive Kind where
  | string
  | number
  | bool
  | null
  deriving DecidableEq, Repr

/-- What the deserializers of `serde::de::value` hold. -/
inductive Scalar where
  | i64 (value : Int64)
  | u64 (value : UInt64)
  | i128 (value : BitVec 128)
  | u128 (value : BitVec 128)
  | f64 (value : Float)
  | bool (value : Bool)
  | str (value : String)
  | borrowedStr (value : String)

/-- What a format hands to a visitor. -/
inductive Input where
  | i8 (value : Int8)
  | i16 (value : Int16)
  | i32 (value : Int32)
  | i64 (value : Int64)
  | i128 (value : BitVec 128)
  | u8 (value : UInt8)
  | u16 (value : UInt16)
  | u32 (value : UInt32)
  | u64 (value : UInt64)
  | u128 (value : BitVec 128)
  | f32 (value : Float32)
  | f64 (value : Float)
  | bool (value : Bool)
  | char (value : Char)
  | str (value : String)
  | borrowedStr (value : String)
  | string (value : String)
  | unit

/-- The method that an input comes to, after the trait's own widenings. -/
inductive Call where
  | scalar (scalar : Scalar)
  | borrowed (text : String)
  | owned (text : String)
  | unit

def Input.call : Input → Call
  | .i8 value => .scalar (.i64 value.toInt64)
  | .i16 value => .scalar (.i64 value.toInt64)
  | .i32 value => .scalar (.i64 value.toInt64)
  | .i64 value => .scalar (.i64 value)
  | .i128 value => .scalar (.i128 value)
  | .u8 value => .scalar (.u64 value.toUInt64)
  | .u16 value => .scalar (.u64 value.toUInt64)
  | .u32 value => .scalar (.u64 value.toUInt64)
  | .u64 value => .scalar (.u64 value)
  | .u128 value => .scalar (.u128 value)
  | .f32 value => .scalar (.f64 value.toFloat)
  | .f64 value => .scalar (.f64 value)
  | .bool value => .scalar (.bool value)
  | .char value => .scalar (.str (String.singleton value))
  | .str value => .scalar (.str value)
  | .borrowedStr value => .borrowed value
  | .string value => .owned value
  | .unit => .unit

/-- What can be decoded from a scalar; the errors of a candidate are dropped. -/
abbrev Decoder (δ : Type) := Scalar → Option δ

/-- A field of a variant: its type, how that is decoded, and its own decoder. -/
structure Payload (δ : Type) where
  attributes : List Attribute
  ty : Ty
  deserialize : Decoder δ
  deserializeWith : Option (Decoder δ)

inductive Style (δ : Type) where
  | unit
  | newtype (field : Payload δ)
  | tuple (fields : List (Payload δ))
  | struct (fields : List (Payload δ))

def Style.fields {δ : Type} : Style δ → List (Payload δ)
  | .unit => []
  | .newtype field => [field]
  | .tuple fields | .struct fields => fields

structure Variant (δ : Type) where
  ident : String
  attributes : List Attribute
  skipDeserializing : Bool
  untagged : Bool
  names : Names
  style : Style δ

inductive TagType where
  | external
  | internal
  | adjacent
  | none
  deriving DecidableEq, Repr

inductive EnumData (δ : Type) where
  | enum (variants : List (Variant δ))
  | struct

/-- What Serde's own parser makes of a declaration. -/
structure EnumContainer (δ : Type) where
  tag : TagType
  data : EnumData δ

structure EnumInput (δ : Type) where
  ident : String
  attributes : List Attribute
  container : Except String (Option (EnumContainer δ))

/-! ## Kinds -/

def numbers : List String :=
  ["u8", "u16", "u32", "u64", "u128", "usize", "i8", "i16", "i32", "i64", "i128", "isize", "f32",
    "f64"]

def inferredKind : Ty → Option Kind
  | .other _ => none
  | .path qself segments _ =>
    match segments.getLast? with
    | none => none
    | some last =>
      let before := (segments.map Segment.ident).dropLast
      let standard := before.isEmpty ||
        (last.ident == "String" && (before == ["std", "string"] || before == ["alloc", "string"])) ||
        (last.ident != "String" &&
          (before == ["std", "primitive"] || before == ["core", "primitive"]))
      if qself || segments.any (fun segment => !segment.bare) || !standard then none
      else if last.ident = "String" then some .string
      else if last.ident = "bool" then some .bool
      else if last.ident ∈ numbers then some .number
      else none

def readKind (kind : Option Kind) (item : Nested) : Except String (Option Kind × Bool) :=
  if item.path ≠ "kind" ∨ kind.isSome then
    .error "expected one kind = \"string\", \"number\", or \"bool\""
  else match item.following with
    | .nothing => .error "expected `=`"
    | .tokens => .error "expected string literal"
    | .literal name =>
      if name = "string" then .ok (some .string, true)
      else if name = "number" then .ok (some .number, true)
      else if name = "bool" then .ok (some .bool, true)
      else .error "unsupported scalar kind"

/-- The marker of a variant. -/
def kind (attributes : List Attribute) : Except String (Option Kind) :=
  parseMarkers readKind none attributes

/-! ## Generated code -/

variable {δ : Type}

/-- `if let Ok(value) = decode { return Ok(Name::ident(value)); }` -/
structure Attempt (δ : Type) where
  ident : String
  decode : Decoder δ

inductive Ending where
  /-- `return Ok(Name::ident(value));` -/
  | move (ident : String)
  /-- `Err(E::custom(error))` -/
  | custom (error : String)
  deriving DecidableEq, Repr

structure Body (δ : Type) where
  attempts : List (Attempt δ)
  ending : Ending

inductive Method where
  | visitI64
  | visitU64
  | visitI128
  | visitU128
  | visitF64
  | visitBool
  | visitStr
  | visitBorrowedStr
  deriving DecidableEq, Repr

/-- The methods of a visitor; what is absent is as in the trait. -/
structure Visitor (δ : Type) where
  expecting : String
  methods : List (Method × Body δ)
  visitString : Option (Body δ)
  visitUnit : Option String

/-- An impl of `StringEnum`: the arms of `known`, and the variant that takes the rest. -/
structure StringEnum where
  variants : List String
  cases : List (List String × String)
  fallback : String

inductive Output (δ : Type) where
  | stringEnum (generated : StringEnum)
  | visitor (generated : Visitor δ)

/-! ## Generating -/

/-- What has been gathered from the variants of an open string enum. -/
structure Gathered where
  cases : List (List String × String)
  names : List String
  seen : List String
  fallback : Option String

def expectedUnits : String :=
  "expected unit variants followed by one #[serde(untagged)] String fallback"

/-- A variant that is not skipped. -/
def gather (state : Gathered) (variant : Variant δ) : Except String Gathered :=
  match variant.style with
  | .unit =>
    if variant.untagged then .error expectedUnits
    else do
      let seen ← insertAll "overlapping variant names or aliases" state.seen variant.names.aliases
      pure { state with
        seen := seen
        names := state.names ++ [variant.names.name]
        cases := state.cases ++ [(variant.names.aliases, variant.ident)] }
  | .newtype field =>
    if variant.untagged ∧ inferredKind field.ty = some .string ∧ state.fallback = none then do
      validateAttributes [] field.attributes
      pure { state with fallback := some variant.ident }
    else .error expectedUnits
  | _ => .error expectedUnits

def gatherVariant (state : Gathered) (variant : Variant δ) : Except String Gathered := do
  validateAttributes ["rename", "alias", "untagged", "skip_serializing", "skip_deserializing"]
    variant.attributes
  let marker ← kind variant.attributes
  reject marker.isSome "open string enums do not use scalar kind markers"
  if variant.skipDeserializing then pure state else gather state variant

def generateStringEnum (variants : List (Variant δ)) : Except String StringEnum := do
  let gathered ← walk gatherVariant ⟨[], [], [], none⟩ variants
  match gathered.fallback with
  | none => .error "an open string enum requires an untagged String fallback"
  | some fallback => pure ⟨gathered.names, gathered.cases, fallback⟩

/-- A variant that is decoded, with its field. -/
structure Decoded (δ : Type) where
  kind : Kind
  ident : String
  field : Option (Payload δ)

def unsupportedVariant : String :=
  "only scalar newtype and null unit variants are supported; " ++
    "object/sequence alternatives require buffering"

/-- The marker has to fit the type, and a custom decoder has to have one. -/
def checkMarker (marker : Option Kind) (kind : Kind) (field : Payload δ) : Except String Unit :=
  if field.deserializeWith.isNone then
    reject (marker.isSome && (inferredKind field.ty).any (· ≠ kind))
      "scalar kind conflicts with the field type"
  else reject marker.isNone "custom decoders need an explicit scalar kind"

/-- A variant that is not skipped. -/
def decodeVariant (variant : Variant δ) : Except String (Decoded δ) := do
  let marker ← kind variant.attributes
  match variant.style with
  | .unit =>
    if marker = none then pure ⟨.null, variant.ident, none⟩ else .error unsupportedVariant
  | .newtype field => do
    validateAttributes ["with", "deserialize_with", "serialize_with"] field.attributes
    match marker.or (inferredKind field.ty) with
    | none => .error ("generic or custom fields need an explicit " ++
        "#[chimera_serde(kind = \"...\")] on the variant")
    | some kind => do
      checkMarker marker kind field
      pure ⟨kind, variant.ident, some field⟩
  | _ => .error unsupportedVariant

def pushVariant (decoded : List (Decoded δ)) (variant : Variant δ) :
    Except String (List (Decoded δ)) := do
  validateAttributes ["skip_serializing", "skip_deserializing"] variant.attributes
  if variant.skipDeserializing then pure decoded
  else do
    let entry ← decodeVariant variant
    pure (decoded ++ [entry])

/-- `deserialize_with` where there is one, else that of the type. -/
def Payload.decode (field : Payload δ) : Decoder δ :=
  field.deserializeWith.getD field.deserialize

def Decoded.attempt (entry : Decoded δ) : Option (Attempt δ) :=
  entry.field.map fun field => ⟨entry.ident, field.decode⟩

def methodKinds : List (Method × Kind) :=
  [(.visitI64, .number), (.visitU64, .number), (.visitI128, .number), (.visitU128, .number),
    (.visitF64, .number), (.visitBool, .bool), (.visitStr, .string), (.visitBorrowedStr, .string)]

def generateMethod (error : String) (decoded : List (Decoded δ)) (kind : Kind) : Option (Body δ) :=
  let candidates := decoded.filter (·.kind = kind)
  if candidates.isEmpty then none
  else some ⟨candidates.filterMap Decoded.attempt, .custom error⟩

/-- A String that is decoded as such can be moved. -/
def Payload.isPlainString (field : Payload δ) : Bool :=
  inferredKind field.ty = some .string && field.deserializeWith.isNone

/-- The loop over the variants for an owned text, up to the first plain String. -/
def generateOwned (error : String) : List (Decoded δ) → Body δ
  | [] => ⟨[], .custom error⟩
  | entry :: rest =>
    match entry.kind, entry.field with
    | .string, some field =>
      if field.isPlainString then ⟨[], .move entry.ident⟩
      else
        let body := generateOwned error rest
        { body with attempts := ⟨entry.ident, field.decode⟩ :: body.attempts }
    | _, _ => generateOwned error rest

def generateVisitor (ident : String) (variants : List (Variant δ)) :
    Except String (Visitor δ) := do
  let decoded ← walk pushVariant [] variants
  let error := "data did not match any scalar variant of " ++ ident
  pure {
    expecting := error
    methods := methodKinds.filterMap fun (method, kind) =>
      (generateMethod error decoded kind).map (method, ·)
    visitString :=
      if decoded.any (·.kind = .string) then some (generateOwned error decoded) else none
    visitUnit := (decoded.find? (·.kind = .null)).map Decoded.ident }

def generateUntagged (input : EnumInput δ) : Except String (Output δ) := do
  validateAttributes ["untagged", "rename", "rename_all"] input.attributes
  reject (input.attributes.any Attribute.isChimeraSerde) "scalar kind belongs on a variant"
  let container ← input.container
  match container with
  | none => .error "expected an enum"
  | some container =>
    match container.data with
    | .struct => .error "DeserializeUntagged requires an enum"
    | .enum variants => do
      reject (variants.any fun variant => variant.style.fields.any fun field =>
        field.attributes.any Attribute.isChimeraSerde) "scalar kind belongs on the variant"
      match container.tag with
      | .external => do pure (.stringEnum (← generateStringEnum variants))
      | .none => do pure (.visitor (← generateVisitor input.ident variants))
      | _ => .error "expected #[serde(untagged)]"

/-! ## Running the generated code -/

/-- A value of the enum. -/
inductive EnumValue (δ : Type) where
  | unit (ident : String)
  | newtype (ident : String) (value : δ)
  deriving DecidableEq, Repr

inductive VisitError where
  | custom (error : String)
  /-- What the trait answers for a method that is absent; `none` for the unit. -/
  | invalidType (unexpected : Option Scalar) (expected : String)
  | unknownVariant (variant : String) (expected : List String)
  | invalidLength (length : Nat) (expected : String)

def Scalar.method : Scalar → Method
  | .i64 _ => .visitI64
  | .u64 _ => .visitU64
  | .i128 _ => .visitI128
  | .u128 _ => .visitU128
  | .f64 _ => .visitF64
  | .bool _ => .visitBool
  | .str _ => .visitStr
  | .borrowedStr _ => .visitBorrowedStr

section Visiting

variable (ofString : String → δ)

def Body.attempted (body : Body δ) (scalar : Scalar) : Option (EnumValue δ) :=
  body.attempts.findSome? fun attempt => (attempt.decode scalar).map (.newtype attempt.ident)

/-- The text is what an ending can move. -/
def Ending.run (text : String) : Ending → Except VisitError (EnumValue δ)
  | .move ident => .ok (.newtype ident (ofString text))
  | .custom error => .error (.custom error)

def Body.run (body : Body δ) (scalar : Scalar) (text : String) :
    Except VisitError (EnumValue δ) :=
  match body.attempted scalar with
  | some value => .ok value
  | none => body.ending.run ofString text

variable (visitor : Visitor δ)

/-- A method that takes a scalar by value, or a text by reference. -/
def Visitor.visitScalar (scalar : Scalar) : Except VisitError (EnumValue δ) :=
  match visitor.methods.lookup scalar.method with
  | some body => body.run ofString scalar ""
  | none => .error (.invalidType (some scalar) visitor.expecting)

def Visitor.runBorrowed (text : String) : Except VisitError (EnumValue δ) :=
  match visitor.methods.lookup .visitBorrowedStr with
  | some body => body.run ofString (.borrowedStr text) ""
  | none => visitor.visitScalar ofString (.str text)

def Visitor.runOwned (text : String) : Except VisitError (EnumValue δ) :=
  match visitor.visitString with
  | some body => body.run ofString (.str text) text
  | none => visitor.visitScalar ofString (.str text)

/-- What the visitor makes of an input. -/
def Visitor.visit (input : Input) : Except VisitError (EnumValue δ) :=
  match input.call with
  | .scalar scalar => visitor.visitScalar ofString scalar
  | .borrowed text => visitor.runBorrowed ofString text
  | .owned text => visitor.runOwned ofString text
  | .unit =>
    match visitor.visitUnit with
    | some ident => .ok (.unit ident)
    | none => .error (.invalidType none visitor.expecting)

end Visiting

/-! ### Open string enums -/

def StringEnum.known (generated : StringEnum) (value : String) : Option (EnumValue String) :=
  (generated.cases.find? fun case => value ∈ case.1).map fun case => .unit case.2

def StringEnum.unknown (generated : StringEnum) (value : String) : EnumValue String :=
  .newtype generated.fallback value

def expectingEnum : String := "a string or a single unit-variant object"

def StringEnum.visitStr (generated : StringEnum) (value : String) : EnumValue String :=
  (generated.known value).getD (generated.unknown value)

def StringEnum.visitString (generated : StringEnum) (value : String) : EnumValue String :=
  (generated.known value).getD (generated.unknown value)

/-- The entries of an object: the key, and whether the value decodes as a unit. -/
def StringEnum.visitMap (generated : StringEnum) :
    List (String × Except VisitError Unit) → Except VisitError (EnumValue String)
  | [] => .error (.invalidLength 0 expectingEnum)
  | (key, value) :: rest =>
    match generated.known key with
    | none => .error (.unknownVariant key generated.variants)
    | some variant => do
      value
      if rest.isEmpty then .ok variant else .error (.invalidLength 2 expectingEnum)

/-- The visitor of `deserialize_string_enum` on what is not an object. -/
def StringEnum.visit (generated : StringEnum) (input : Input) :
    Except VisitError (EnumValue String) :=
  match input.call with
  | .scalar (.str text) | .borrowed text => .ok (generated.visitStr text)
  | .owned text => .ok (generated.visitString text)
  | .scalar scalar => .error (.invalidType (some scalar) expectingEnum)
  | .unit => .error (.invalidType none expectingEnum)

end Chimera.Serde
