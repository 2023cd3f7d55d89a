import Chimera.Serde.Fields

/-! Where the generated tables lead. A name belongs to the outermost struct that has it,
and the index that the tables give it leads to the slot of that field, however many
groups the index is passed through. -/

namespace Chimera.Serde
open Chimera.Lib.Fallible

variable {ι δ : Type}

/-! ## What the declarations say -/

def StructInput.fields (input : StructInput ι δ) : List (Member ι δ) :=
  match input.container with
  | .ok (some (.named named)) => named.fields
  | _ => []

/-- A field that is read from the map by its own names. -/
def Member.isKnown (field : Member ι δ) : Bool := !field.flatten && !field.skipDeserializing

def Member.isExtra (field : Member ι δ) : Bool :=
  match extra field.attributes with
  | .ok isExtra => isExtra
  | .error _ => false

def StructInput.known (input : StructInput ι δ) : List (Member ι δ) :=
  input.fields.filter Member.isKnown

def StructInput.sink (input : StructInput ι δ) : Option (Sink ι δ) :=
  (input.fields.find? Member.isExtra).map Member.sink

/-- The outermost struct that has the name, and its field. -/
def owner (level : Nat) : List (StructInput ι δ) → String → Option (Nat × Member ι δ)
  | [], _ => none
  | input :: groups, name =>
    match input.known.find? fun field => name ∈ field.names.aliases with
    | some field => some (level, field)
    | none => owner (level + 1) groups name

/-- A struct and the groups below it as they are generated: each is flattened by the one
above, and the last one flattens nothing. -/
inductive Compiled : Bool → List (StructInput ι δ) → List (Code ι δ) → Prop
  | last {deserialize : Bool} {input : StructInput ι δ} {code : Code ι δ}
      (accepted : generate deserialize input = .ok code) (flattened : code.flattened = none) :
      Compiled deserialize [input] [code]
  | above {deserialize : Bool} {input : StructInput ι δ} {code : Code ι δ}
      {groups : List (StructInput ι δ)} {codes : List (Code ι δ)}
      (accepted : generate deserialize input = .ok code) (flattened : code.flattened.isSome = true)
      (below : Compiled false groups codes) : Compiled deserialize (input :: groups) (code :: codes)

/-! ## The tables of a struct -/

/-- The tables over the known fields gone through. -/
structure Tables (known : List (Member ι δ)) (code : Code ι δ) : Prop where
  claimed : ∀ name field, known.find? (fun field => name ∈ field.names.aliases) = some field →
    ∃ index < code.index, (code.lookup.find? fun arm => name ∈ arm.1).map Prod.snd = some index ∧
      code.reads.lookup index = some field.arm
  unclaimed : ∀ name, known.find? (fun field => name ∈ field.names.aliases) = none →
    code.lookup.find? (fun arm => name ∈ arm.1) = none
  beyond : ∀ index, code.index ≤ index → code.reads.lookup index = none

/-- How a field is finished. -/
def Member.finish (field : Member ι δ) : Finish δ :=
  if field.isExtra then .extras
  else if field.flatten then .group
  else if field.skipDeserializing then .skipped field.skippedValue
  else .slot field.missing

/-- What is generated for the fields gone through. -/
structure CodeOf (deserialize : Bool) (fields : List (Member ι δ)) (code : Code ι δ) : Prop where
  tables : Tables (fields.filter Member.isKnown) code
  finishes : code.finishes = fields.map fun field => (field.member, field.finish)
  extras : code.extras = (fields.find? Member.isExtra).map Member.sink
  inner : deserialize = false → code.extras = none
  flattened : code.flattened.isSome = true ↔ ∃ field ∈ fields, field.finish = .group
  flatten : ∀ field ∈ fields, field.isExtra = true → field.flatten = true

section Generated

variable {deserialize : Bool} {name : String} {fields known : List (Member ι δ)}
  {field : Member ι δ} {state later : Generating ι δ} {code : Code ι δ}

/-- A further known field gets the next index. -/
theorem Tables.push (h : Tables known code) : Tables (known ++ [field]) { code with
    lookup := code.lookup ++ [(field.names.aliases, code.index)]
    reads := code.reads ++ [(code.index, field.arm)]
    index := code.index + 1 } where
  claimed name other hother := by
    rw [List.find?_append] at hother
    cases hknown : known.find? fun field => name ∈ field.names.aliases with
    | some earlier =>
      obtain ⟨index, hindex, hlookup, hread⟩ := h.claimed name earlier hknown
      rw [hknown] at hother
      obtain rfl := Option.some.inj hother
      obtain ⟨arm, harm, hsnd⟩ := Option.map_eq_some_iff.1 hlookup
      refine ⟨index, Nat.lt_succ_of_lt hindex, ?_, ?_⟩
      · rw [List.find?_append, harm]
        exact congrArg some hsnd
      · rw [List.lookup_append, hread]
        rfl
    | none =>
      rw [hknown, Option.none_or] at hother
      have hname : name ∈ field.names.aliases := by
        have hpred := List.find?_some hother
        obtain rfl := List.mem_singleton.1 (List.mem_of_find?_eq_some hother)
        exact of_decide_eq_true hpred
      obtain rfl := List.mem_singleton.1 (List.mem_of_find?_eq_some hother)
      refine ⟨code.index, Nat.lt_succ_self _, ?_, ?_⟩
      · rw [List.find?_append, h.unclaimed name hknown, Option.none_or, List.find?_cons,
          decide_eq_true hname]
        rfl
      · rw [List.lookup_append, h.beyond code.index (Nat.le_refl _)]
        exact List.lookup_cons_self
  unclaimed name hname := by
    rw [List.find?_append, Option.or_eq_none_iff] at hname
    rw [List.find?_append, h.unclaimed name hname.1, Option.none_or]
    have hfield := List.find?_eq_none.1 hname.2 field List.mem_cons_self
    rw [List.find?_cons, Bool.eq_false_iff.2 hfield]
    rfl
  beyond index hindex := by
    have hne : index ≠ code.index := by
      rintro rfl
      exact Nat.not_succ_le_self _ hindex
    rw [List.lookup_append, h.beyond index (Nat.le_of_succ_le hindex), Option.none_or,
      List.lookup_cons, beq_false_of_ne hne]
    rfl

theorem isExtra_eq {isExtra : Bool} (h : extra field.attributes = .ok isExtra) :
    field.isExtra = isExtra := by
  rw [Member.isExtra, h]

/-- A field that is not known leaves the tables as they are. -/
theorem CodeOf.push {finishes : List (String × Finish δ)} {flattened : Option String}
    (h : CodeOf deserialize fields code) (hknown : field.isKnown = false)
    (hextra : field.isExtra = false) (hfinish : finishes = [(field.member, field.finish)])
    (hflattened : flattened.isSome = true ↔ code.flattened.isSome = true ∨ field.finish = .group) :
    CodeOf deserialize (fields ++ [field]) { code with
      finishes := code.finishes ++ finishes
      flattened := flattened } where
  tables := by
    have hsame : (fields ++ [field]).filter Member.isKnown = fields.filter Member.isKnown := by
      rw [List.filter_append, List.filter_cons, hknown]
      exact List.append_nil _
    rw [hsame]
    exact ⟨h.tables.claimed, h.tables.unclaimed, h.tables.beyond⟩
  finishes := by
    dsimp only
    rw [h.finishes, hfinish, List.map_append]
    rfl
  extras := by
    dsimp only
    rw [List.find?_append, h.extras, List.find?_cons, hextra]
    exact congrArg _ (Option.or_none).symm
  inner := h.inner
  flattened := by
    rw [hflattened, h.flattened]
    simp only [List.mem_append, List.mem_singleton, or_and_right, exists_or, exists_eq_left]
  flatten other hother := by
    rcases List.mem_append.1 hother with hother | hother
    · exact h.flatten other hother
    · rw [List.mem_singleton.1 hother, hextra]
      rintro ⟨⟩

theorem generateFlattened_codeOf {isExtra : Bool} (h : CodeOf deserialize fields state.code)
    (hextra : field.isExtra = isExtra) (hflatten : isExtra = true ∨ field.flatten = true)
    (hstep : generateFlattened deserialize isExtra state field = .ok later) :
    CodeOf deserialize (fields ++ [field]) later.code := by
  obtain ⟨-, -, hstep⟩ := bind_ok.1 hstep
  split at hstep
  · rename_i hisExtra
    obtain ⟨_, hreject, hstep⟩ := bind_ok.1 hstep
    cases hstep
    have hallowed := reject_ok hreject
    simp only [Bool.or_eq_false_iff, Bool.not_eq_false'] at hallowed
    obtain ⟨⟨hdeserialize, hnone⟩, hflat⟩ := hallowed
    have hfieldExtra : field.isExtra = true := hextra.trans hisExtra
    have hfinish : field.finish = .extras := by rw [Member.finish, if_pos hfieldExtra]
    have hknown : (fields ++ [field]).filter Member.isKnown = fields.filter Member.isKnown := by
      rw [List.filter_append, List.filter_cons, Member.isKnown, hflat]
      exact List.append_nil _
    have hfirst : fields.find? Member.isExtra = none := by
      rw [h.extras, Option.isSome_map, Option.isSome_eq_false_iff, Option.isNone_iff_eq_none]
        at hnone
      exact hnone
    refine ⟨?_, ?_, ?_, ?_, ?_, ?_⟩
    · rw [hknown]
      exact ⟨h.tables.claimed, h.tables.unclaimed, h.tables.beyond⟩
    · dsimp only
      rw [h.finishes, List.map_append, List.map_singleton, hfinish]
    · rw [List.find?_append, hfirst, Option.none_or, List.find?_cons, hfieldExtra]
      rfl
    · intro hinner
      rw [hinner] at hdeserialize
      cases hdeserialize
    · rw [h.flattened]
      simp only [List.mem_append, List.mem_singleton, or_and_right, exists_or, exists_eq_left,
        hfinish, reduceCtorEq, or_false]
    · intro other hother hotherExtra
      rcases List.mem_append.1 hother with hother | hother
      · exact h.flatten other hother hotherExtra
      · rw [List.mem_singleton.1 hother]
        exact hflat
  · rename_i hisExtra
    obtain ⟨-, -, hstep⟩ := bind_ok.1 hstep
    cases hstep
    have hflat : field.flatten = true := hflatten.resolve_left hisExtra
    have hnotExtra : field.isExtra = false := hextra.trans (Bool.eq_false_iff.2 hisExtra)
    refine h.push ?_ hnotExtra ?_ ?_
    · rw [Member.isKnown, hflat]
      rfl
    · rw [Member.finish, hnotExtra, hflat]
      rfl
    · rw [Member.finish, hnotExtra, hflat]
      exact ⟨fun _ => .inr rfl, fun _ => rfl⟩

theorem generateField_codeOf (h : CodeOf deserialize fields state.code)
    (hstep : generateField name deserialize state field = .ok later) :
    CodeOf deserialize (fields ++ [field]) later.code := by
  obtain ⟨-, -, hstep⟩ := bind_ok.1 hstep
  obtain ⟨isExtra, hisExtra, hstep⟩ := bind_ok.1 hstep
  have hextra := isExtra_eq hisExtra
  split at hstep
  · rename_i hflatten
    exact generateFlattened_codeOf h hextra (Bool.or_eq_true_iff.1 hflatten) hstep
  · rename_i hplain
    obtain ⟨hisExtra, hflat⟩ := Bool.or_eq_false_iff.1 (Bool.eq_false_iff.2 hplain)
    rw [hisExtra] at hextra
    split at hstep
    · rename_i hskip
      cases hstep
      refine h.push ?_ hextra ?_ ?_
      · rw [Member.isKnown, hskip]
        exact Bool.and_false _
      · rw [Member.finish, hextra, hflat, hskip]
        rfl
      · rw [Member.finish, hextra, hflat, hskip]
        exact ⟨.inl, fun h => h.resolve_right nofun⟩
    · rename_i hskip
      obtain ⟨names, -, hstep⟩ := bind_ok.1 hstep
      cases hstep
      have hknown : (fields ++ [field]).filter Member.isKnown =
          fields.filter Member.isKnown ++ [field] := by
        rw [List.filter_append, List.filter_cons, Member.isKnown, hflat,
          Bool.eq_false_iff.2 hskip]
        rfl
      have hfinish : field.finish = .slot field.missing := by
        rw [Member.finish, hextra, hflat, Bool.eq_false_iff.2 hskip]
        rfl
      refine ⟨?_, ?_, ?_, h.inner, ?_, ?_⟩
      · rw [hknown]
        exact ⟨h.tables.push.claimed, h.tables.push.unclaimed, h.tables.push.beyond⟩
      · dsimp only
        rw [h.finishes, List.map_append, List.map_singleton, hfinish]
      · dsimp only
        rw [List.find?_append, h.extras, List.find?_cons, hextra]
        exact congrArg _ (Option.or_none).symm
      · rw [h.flattened]
        simp only [List.mem_append, List.mem_singleton, or_and_right, exists_or, exists_eq_left,
          hfinish, reduceCtorEq, or_false]
      · intro other hother hotherExtra
        rcases List.mem_append.1 hother with hother | hother
        · exact h.flatten other hother hotherExtra
        · rw [List.mem_singleton.1 hother, hextra] at hotherExtra
          cases hotherExtra

theorem codeOf_nil : CodeOf deserialize ([] : List (Member ι δ)) ⟨[], [], [], none, none, 0⟩ where
  tables := by
    refine ⟨?_, fun _ _ => rfl, fun _ _ => rfl⟩
    intro name field hname
    cases hname
  finishes := rfl
  extras := rfl
  inner _ := rfl
  flattened := by
    constructor
    · intro h
      cases h
    · rintro ⟨_, hmem, -⟩
      cases hmem
  flatten _ hmem := by cases hmem

theorem generate_codeOf {input : StructInput ι δ} (h : generate deserialize input = .ok code) :
    CodeOf deserialize input.fields code := by
  obtain ⟨-, -, h⟩ := bind_ok.1 h
  obtain ⟨-, -, h⟩ := bind_ok.1 h
  obtain ⟨-, -, h⟩ := bind_ok.1 h
  obtain ⟨container, hcontainer, h⟩ := bind_ok.1 h
  split at h
  · cases h
  · rename_i named
    obtain ⟨state, hwalk, h⟩ := bind_ok.1 h
    cases h
    have hfields : input.fields = named.fields := by rw [StructInput.fields, hcontainer]
    rw [hfields]
    refine walk_done (I := fun fields state => CodeOf deserialize fields state.code) hwalk ?_ ?_
    · exact codeOf_nil
    · intro fields state field later _ hcode hstep
      exact generateField_codeOf hcode hstep
  · cases h

end Generated

/-! ## Names and indices -/

section Routing

variable {deserialize : Bool} {inputs : List (StructInput ι δ)} {codes : List (Code ι δ)}
  {level : Nat} {name : String}

/-- A name that no struct has is not found. -/
theorem field_none (h : Compiled deserialize inputs codes)
    (howner : owner level inputs name = none) : field codes name = none := by
  induction h generalizing level with
  | last accepted flattened =>
    rw [owner] at howner
    split at howner
    · cases howner
    · rename_i hname
      rw [field, (generate_codeOf accepted).tables.unclaimed name hname, flattened]
  | above accepted flattened below ih =>
    rw [owner] at howner
    split at howner
    · cases howner
    · rename_i hname
      rw [field, (generate_codeOf accepted).tables.unclaimed name hname]
      dsimp only
      split
      · rw [ih howner]
        rfl
      · rfl

theorem field_own {known : List (Member ι δ)} {code : Code ι δ} {f : Member ι δ}
    (h : Tables known code)
    (hname : known.find? (fun field => name ∈ field.names.aliases) = some f) :
    ∃ index, field (code :: codes) name = some index ∧ ∀ state value,
      read level (code :: codes) state index value = f.arm.run level state value := by
  obtain ⟨index, -, hlookup, hread⟩ := h.claimed name f hname
  obtain ⟨arm, harm, hsnd⟩ := Option.map_eq_some_iff.1 hlookup
  refine ⟨index, ?_, fun state value => ?_⟩
  · rw [field, harm]
    exact congrArg some hsnd
  · rw [read, hread]

/-- A name that a struct has is found, and its index leads to the field. -/
theorem field_some (h : Compiled deserialize inputs codes) {l : Nat} {f : Member ι δ}
    (howner : owner level inputs name = some (l, f)) : ∃ index, field codes name = some index ∧
      ∀ state value, read level codes state index value = f.arm.run l state value := by
  induction h generalizing level with
  | last accepted flattened =>
    rw [owner] at howner
    split at howner
    · rename_i hname
      cases howner
      exact field_own (generate_codeOf accepted).tables hname
    · cases howner
  | above accepted flattened below ih =>
    rename_i code groups codes
    have htables := (generate_codeOf accepted).tables
    rw [owner] at howner
    split at howner
    · rename_i hname
      cases howner
      exact field_own htables hname
    · rename_i hname
      obtain ⟨index, hfield, hread⟩ := ih howner
      obtain ⟨member, hmember⟩ := Option.isSome_iff_exists.1 flattened
      refine ⟨index + code.index, ?_, fun state value => ?_⟩
      · rw [field, htables.unclaimed name hname, hmember]
        dsimp only
        rw [hfield]
        rfl
      · rw [read, htables.beyond _ (Nat.le_add_left ..), hmember]
        dsimp only
        rw [Nat.add_sub_cancel]
        exact hread state value

end Routing

end Chimera.Serde
