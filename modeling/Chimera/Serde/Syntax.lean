import Mathlib.Data.List.Nodup
import Chimera.Lib.Fallible

/-! What the derives see of a declaration: its attributes, the types of its fields and
the names that Serde gives them. Errors are the texts of `syn` errors. -/

namespace Chimera.Serde
open Chimera.Lib.Fallible

/-- What follows the path of a nested item. -/
inductive Following where
  | nothing
  | literal (text : String)
  | tokens
  deriving DecidableEq, Repr

structure Nested where
  path : String
  following : Following
  deriving DecidableEq, Repr

inductive Attribute where
  /-- `serde(..)`: the paths of its items, or why they do not parse. -/
  | serde (items : Except String (List String))
  /-- `chimera_serde(..)`: its items, and why what follows them does not parse. -/
  | chimeraSerde (items : List Nested) (broken : Option String)
  | other

def Attribute.isChimeraSerde : Attribute → Bool
  | .chimeraSerde .. => true
  | _ => false

def reject (refused : Bool) (error : String) : Except String Unit :=
  if refused then .error error else .ok ()

theorem reject_ok {refused : Bool} {error : String} {u : Unit}
    (h : reject refused error = .ok u) : refused = false := by
  cases refused with
  | false => rfl
  | true => cases h

def unsupportedAttribute : String := "unsupported Serde attribute for direct map decoding"

def validateItems (allowed : List String) : List String → Except String Unit
  | [] => .ok ()
  | item :: rest =>
    if item ∈ allowed then validateItems allowed rest else .error unsupportedAttribute

def validateAttributes (allowed : List String) : List Attribute → Except String Unit
  | [] => .ok ()
  | .serde items :: rest => do
    validateItems allowed (← items)
    validateAttributes allowed rest
  | _ :: rest => validateAttributes allowed rest

/-- `parse_nested_meta`, the items given one after the other to `logic`, which says
whether it has read what follows the path. -/
def parseNestedMeta {σ : Type} (logic : σ → Nested → Except String (σ × Bool)) :
    σ → List Nested → Option String → Except String σ
  | s, [], none => .ok s
  | _, [], some error => .error error
  | s, item :: rest, broken => do
    let (s, taken) ← logic s item
    if taken || item.following = .nothing then parseNestedMeta logic s rest broken
    else .error "expected `,`"

/-- The `chimera_serde` attributes, one after the other. -/
def parseMarkers {σ : Type} (logic : σ → Nested → Except String (σ × Bool)) :
    σ → List Attribute → Except String σ
  | s, [] => .ok s
  | s, .chimeraSerde items broken :: rest => do
    parseMarkers logic (← parseNestedMeta logic s items broken) rest
  | s, _ :: rest => parseMarkers logic s rest

section Markers

variable {σ : Type} {logic : σ → Nested → Except String (σ × Bool)} {I : σ → Prop} {s t : σ}

theorem parseNestedMeta_keeps {items : List Nested} {broken : Option String}
    (keep : ∀ s item t taken, I s → logic s item = .ok (t, taken) → I t) (hs : I s)
    (h : parseNestedMeta logic s items broken = .ok t) : I t := by
  induction items generalizing s with
  | nil =>
    cases broken with
    | none =>
      cases h
      exact hs
    | some error => cases h
  | cons item rest ih =>
    rw [parseNestedMeta] at h
    obtain ⟨⟨u, taken⟩, hlogic, h⟩ := bind_ok.1 h
    dsimp only at h
    split at h
    · exact ih (keep s item u taken hs hlogic) h
    · cases h

/-- What reading one item keeps, reading all of them keeps. -/
theorem parseMarkers_keeps {attributes : List Attribute}
    (keep : ∀ s item t taken, I s → logic s item = .ok (t, taken) → I t) (hs : I s)
    (h : parseMarkers logic s attributes = .ok t) : I t := by
  induction attributes generalizing s with
  | nil =>
    cases h
    exact hs
  | cons first rest ih =>
    cases first with
    | chimeraSerde items broken =>
      obtain ⟨u, hitems, h⟩ := bind_ok.1 h
      exact ih (parseNestedMeta_keeps keep hs hitems) h
    | serde items => exact ih hs h
    | other => exact ih hs h

end Markers

/-! ## Types -/

/-- A segment of a path; `bare` when it has no arguments. -/
structure Segment where
  ident : String
  bare : Bool
  deriving DecidableEq, Repr

/-- A type, with the types that stand in it. -/
inductive Ty where
  | path (qself : Bool) (segments : List Segment) (inner : List Ty)
  | other (inner : List Ty)

/-! ## Names -/

/-- The name that Serde reads a field or a variant under, among its aliases. -/
structure Names where
  name : String
  aliases : List String
  name_mem : name ∈ aliases

def Names.of (name : String) (others : List String) : Names :=
  ⟨name, name :: others, List.mem_cons_self⟩

/-- `insert` for each of the names, unless one is there. -/
def insertAll (overlap : String) (seen names : List String) : Except String (List String) :=
  walk (fun seen name => if name ∈ seen then .error overlap else .ok (seen ++ [name])) seen names

theorem insertAll_ok {overlap : String} {seen names all : List String} (hseen : seen.Nodup)
    (h : insertAll overlap seen names = .ok all) : all = seen ++ names ∧ all.Nodup := by
  refine walk_done (I := fun done now => now = seen ++ done ∧ now.Nodup) h
    ⟨(List.append_nil seen).symm, hseen⟩ ?_
  rintro done now name later - ⟨rfl, hnow⟩ hstep
  split at hstep
  · cases hstep
  · rename_i hnew
    cases hstep
    refine ⟨List.append_assoc .., ?_⟩
    rw [← List.concat_eq_append]
    exact hnow.concat hnew

end Chimera.Serde
