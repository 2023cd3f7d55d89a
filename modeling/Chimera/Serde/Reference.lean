import Mathlib.Data.List.Induction
import Chimera.Serde.Routing

/-! What a direct map decoder has to do, said of the declarations and of the entries
only, and that the generated code does it. -/

namespace Chimera.Serde
open Chimera.Lib.Fallible

variable {ι δ : Type}

/-! ## The reference -/

/-- Whose value a name gives: how far down the struct is, and the field. -/
def place (inputs : List (StructInput ι δ)) (name : String) : Option (Nat × String) :=
  (owner 0 inputs name).map fun found => (found.1, found.2.member)

/-- The values that the entries have for a field, under any of its names. -/
def supplied (inputs : List (StructInput ι δ)) (entries : List (String × ι)) (level : Nat)
    (member : String) : List ι :=
  (entries.filter fun entry => place inputs entry.1 = some (level, member)).map Prod.snd

/-- The entries whose names no struct has. -/
def unclaimed (inputs : List (StructInput ι δ)) (entries : List (String × ι)) : List (String × ι) :=
  entries.filter fun entry => place inputs entry.1 = none

/-- A known field of a struct or of a group below it. -/
def Known (inputs : List (StructInput ι δ)) (level : Nat) (field : Member ι δ) : Prop :=
  ∃ input, inputs[level]? = some input ∧ field ∈ input.known

def sinkOf (inputs : List (StructInput ι δ)) : Option (Sink ι δ) :=
  inputs.head?.bind StructInput.sink

/-- A type that makes something of an absent option. -/
def Member.Optional (field : Member ι δ) : Prop := ∃ value, field.visitNone = some (.ok value)

/-- There is no default, and the type is not optional or the decoder is a custom one. -/
def Member.Required (field : Member ι δ) : Prop :=
  field.default.isNone = true ∧ (field.deserializeWith.isSome = true ∨ ¬ field.Optional)

/-- No known field is supplied twice, and what is supplied for it decodes. -/
structure Fits (inputs : List (StructInput ι δ)) (entries : List (String × ι)) : Prop where
  once : ∀ level field, Known inputs level field →
    (supplied inputs entries level field.member).length ≤ 1
  decodes : ∀ level field, Known inputs level field →
    ∀ value ∈ supplied inputs entries level field.member, ∃ v, field.decode value = .ok v
  extras : ∀ sink, sinkOf inputs = some sink →
    ∀ entry ∈ unclaimed inputs entries, ∃ v, sink.deserialize entry.2 = .ok v

/-- When decoding has to succeed. -/
structure Acceptable (inputs : List (StructInput ι δ)) (entries : List (String × ι)) : Prop
    extends Fits inputs entries where
  required : ∀ level field, Known inputs level field → field.Required →
    supplied inputs entries level field.member ≠ []

/-- The default, or what the type makes of an absent option. -/
inductive Member.Absent (field : Member ι δ) : δ → Prop
  | default (h : field.default = .default) : field.Absent field.typeDefault
  | path {value : δ} (h : field.default = .path value) : field.Absent value
  | none {value : δ} (h : field.default = .none) (plain : field.deserializeWith = none)
      (optional : field.visitNone = some (.ok value)) : field.Absent value

/-- What a field has to hold, given the values supplied for it. -/
inductive Member.Holds (field : Member ι δ) (values : List ι) : δ → Prop
  | skipped (h : field.skipDeserializing = true) : field.Holds values field.skippedValue
  | supplied {value : ι} {v : δ} (h : field.skipDeserializing = false) (one : values = [value])
      (decodes : field.decode value = .ok v) : field.Holds values v
  | absent {v : δ} (h : field.skipDeserializing = false) (empty : values = [])
      (absent : field.Absent v) : field.Holds values v

/-- Every field of a struct but the flattened ones, in their order. -/
def FieldsHold (inputs : List (StructInput ι δ)) (entries : List (String × ι)) (level : Nat)
    (input : StructInput ι δ) (fields : List (String × δ)) : Prop :=
  List.Forall₂ (fun field entry => entry.1 = field.member ∧
    field.Holds (supplied inputs entries level field.member) entry.2)
      (input.fields.filter fun field => !field.flatten) fields

/-- What the sink has: for each key the last value, in an `IndexMap` where the key came
first. -/
structure Collected (sink : Sink ι δ) (entries : List (String × ι)) (out : List (String × δ)) :
    Prop where
  last : ∀ key, out.lookup key = ((entries.filter fun entry => entry.1 = key).getLast?).bind
    fun entry => (sink.deserialize entry.2).toOption
  order : match sink.kind with
    | .indexMap => out.map Prod.fst = (entries.map Prod.fst).eraseDups
    | .btreeMap => Lib.Keyed.Ordered out

def ExtrasHold (inputs : List (StructInput ι δ)) (entries : List (String × ι))
    (extra : List (String × δ)) : Prop :=
  match sinkOf inputs with
  | none => extra = []
  | some sink => Collected sink (unclaimed inputs entries) extra

/-- The result that decoding has to have. -/
structure Correct (inputs : List (StructInput ι δ)) (entries : List (String × ι))
    (out : MapOutput δ) : Prop where
  length : out.levels.length = inputs.length
  fields : ∀ level input fields, inputs[level]? = some input → out.levels[level]? = some fields →
    FieldsHold inputs entries level input fields
  extras : ExtrasHold inputs entries out.extra

/-! ## The sink -/

section Sinks

variable {sink : Sink ι δ} {entries : List (String × ι)} {out : List (String × δ)}
  {key other : String} {value : ι} {v : δ}

theorem lookup_indexInsert : (indexInsert out key v).lookup other =
    if other = key then some v else out.lookup other := by
  induction out with
  | nil => simp only [indexInsert, Lib.Keyed.lookup_cons_eq, List.lookup_nil]
  | cons entry rest ih =>
    obtain ⟨k, w⟩ := entry
    unfold indexInsert
    split
    · rename_i hk
      rw [hk, Lib.Keyed.lookup_cons_eq, Lib.Keyed.lookup_cons_eq]
      by_cases hother : other = key
      · rw [if_pos hother, if_pos hother]
      · rw [if_neg hother, if_neg hother, if_neg hother]
    · rename_i hk
      rw [Lib.Keyed.lookup_cons_eq, Lib.Keyed.lookup_cons_eq, ih]
      by_cases hother : other = k
      · rw [if_pos hother, if_pos hother, if_neg fun h => hk (hother.symm.trans h)]
      · rw [if_neg hother, if_neg hother]

theorem indexInsert_keys : (indexInsert out key v).map Prod.fst =
    if key ∈ out.map Prod.fst then out.map Prod.fst else out.map Prod.fst ++ [key] := by
  induction out with
  | nil => rfl
  | cons entry rest ih =>
    obtain ⟨k, w⟩ := entry
    unfold indexInsert
    split
    · rename_i hk
      rw [if_pos (hk ▸ List.mem_cons_self)]
      rfl
    · rename_i hk
      rw [List.map_cons, ih]
      by_cases hmem : key ∈ rest.map Prod.fst
      · have hkey : key ∈ ((k, w) :: rest).map Prod.fst := List.mem_cons_of_mem k hmem
        rw [if_pos hmem, if_pos hkey]
        rfl
      · have hnot : key ∉ ((k, w) :: rest).map Prod.fst := by
          rw [List.map_cons, List.mem_cons]
          rintro (h | h)
          · exact hk h.symm
          · exact hmem h
        rw [if_neg hmem, if_neg hnot]
        rfl

theorem lookup_insert (kind : SinkKind) : (kind.insert out key v).lookup other =
    if other = key then some v else out.lookup other := by
  cases kind with
  | indexMap => exact lookup_indexInsert
  | btreeMap => exact Lib.Keyed.lookup_put

/-- One more entry: the last one of its key. -/
theorem Collected.push (h : Collected sink entries out) (hvalue : sink.deserialize value = .ok v) :
    Collected sink (entries ++ [(key, value)]) (sink.kind.insert out key v) where
  last other := by
    rw [lookup_insert, List.filter_append, List.filter_singleton]
    by_cases hother : other = key
    · rw [if_pos hother, hother, decide_eq_true rfl]
      rw [cond_true, List.getLast?_concat, Option.bind_some, hvalue]
      rfl
    · rw [if_neg hother, h.last, decide_eq_false fun h => hother h.symm]
      exact congrArg (fun l => (List.getLast? l).bind _) (List.append_nil _).symm
  order := by
    have horder := h.order
    cases hkind : sink.kind with
    | indexMap =>
      rw [hkind] at horder
      show (indexInsert out key v).map Prod.fst = _
      rw [indexInsert_keys, horder, List.map_append, List.map_singleton, List.eraseDups_append]
      by_cases hmem : key ∈ entries.map Prod.fst
      · have hgone : [key].removeAll (entries.map Prod.fst) = [] := by simp [List.removeAll, hmem]
        rw [if_pos (List.mem_eraseDups.2 hmem)]
        dsimp only
        rw [hgone]
        exact (List.append_nil _).symm
      · have hleft : [key].removeAll (entries.map Prod.fst) = [key] := by
          simp [List.removeAll, hmem]
        rw [if_neg (mt List.mem_eraseDups.1 hmem)]
        dsimp only
        rw [hleft]
        rfl
    | btreeMap =>
      rw [hkind] at horder
      exact Lib.Keyed.Ordered.put horder

end Sinks

/-! ## The loop -/

section Loop

variable {inputs : List (StructInput ι δ)} {codes : List (Code ι δ)} {name : String}
  {entries : List (String × ι)} {entry : String × ι} {state later : DecodeState ι δ}
  {level l : Nat} {f g : Member ι δ}

theorem owner_known (h : owner level inputs name = some (l, f)) :
    ∃ i input, l = level + i ∧ inputs[i]? = some input ∧ f ∈ input.known := by
  induction inputs generalizing level with
  | nil => cases h
  | cons input groups ih =>
    rw [owner] at h
    split at h
    · rename_i hname
      cases h
      exact ⟨0, input, rfl, rfl, List.mem_of_find?_eq_some hname⟩
    · obtain ⟨i, group, hl, hgroup, hf⟩ := ih h
      exact ⟨i + 1, group, by omega, hgroup, hf⟩

theorem known_of_owner (h : owner 0 inputs name = some (l, f)) : Known inputs l f := by
  obtain ⟨i, input, hl, hinput, hf⟩ := owner_known h
  rw [Nat.zero_add] at hl
  exact ⟨input, hl ▸ hinput, hf⟩

/-- A struct has one field of a name. -/
theorem known_unique (hf : Known inputs l f) (hg : Known inputs l g)
    (h : f.member = g.member) : f = g := by
  obtain ⟨input, hinput, hf⟩ := hf
  obtain ⟨other, hother, hg⟩ := hg
  rw [hinput] at hother
  cases hother
  have hnodup : (input.fields.map Member.member).Nodup := by
    unfold StructInput.fields
    split
    · rename_i named _
      exact named.nodup
    · exact List.nodup_nil
  exact List.inj_on_of_nodup_map hnodup (List.mem_filter.1 hf).1 (List.mem_filter.1 hg).1 h

theorem supplied_append (member : String) : supplied inputs (entries ++ [entry]) level member =
    supplied inputs entries level member ++
      if place inputs entry.1 = some (level, member) then [entry.2] else [] := by
  rw [supplied, List.filter_append, List.map_append, List.filter_singleton]
  by_cases h : place inputs entry.1 = some (level, member)
  · rw [if_pos h, decide_eq_true h]
    rfl
  · rw [if_neg h, decide_eq_false h]
    rfl

theorem unclaimed_append : unclaimed inputs (entries ++ [entry]) =
    unclaimed inputs entries ++ if place inputs entry.1 = none then [entry] else [] := by
  rw [unclaimed, List.filter_append, List.filter_singleton]
  by_cases h : place inputs entry.1 = none
  · rw [if_pos h, decide_eq_true h]
    rfl
  · rw [if_neg h, decide_eq_false h]
    rfl

/-- A slot holds the one value that was supplied for its field. -/
inductive Member.Slot (field : Member ι δ) : List ι → Option δ → Prop
  | empty : field.Slot [] none
  | one {value : ι} {v : δ} (decodes : field.decode value = .ok v) : field.Slot [value] (some v)

section Slots

variable {values : List ι} {slot : Option δ}

theorem Member.Slot.length_le (h : f.Slot values slot) : values.length ≤ 1 := by
  cases h with
  | empty => exact Nat.zero_le 1
  | one => exact Nat.le_refl 1

theorem Member.Slot.decodes_all (h : f.Slot values slot) :
    ∀ value ∈ values, ∃ v, f.decode value = .ok v := by
  intro value hvalue
  cases h with
  | empty => cases hvalue
  | one hdecodes =>
    rw [List.mem_singleton.1 hvalue]
    exact ⟨_, hdecodes⟩

theorem Member.Slot.none (h : f.Slot values none) : values = [] := by
  cases h
  rfl

theorem Member.Slot.nil (h : f.Slot [] slot) : slot = Option.none := by
  cases h
  rfl

end Slots

/-- What the state is after some entries. -/
structure Kept (inputs : List (StructInput ι δ)) (entries : List (String × ι))
    (state : DecodeState ι δ) : Prop where
  slots : ∀ level field, Known inputs level field →
    field.Slot (supplied inputs entries level field.member) (state.slots level field.member)
  decodes : ∀ sink, sinkOf inputs = some sink →
    ∀ entry ∈ unclaimed inputs entries, ∃ v, sink.deserialize entry.2 = .ok v
  extras : ExtrasHold inputs entries state.extra

theorem kept_start : Kept inputs ([] : List (String × ι)) .start where
  slots _ _ _ := .empty
  decodes _ _ _ h := nomatch h
  extras := by
    unfold ExtrasHold
    split
    · rfl
    · refine ⟨fun _ => rfl, ?_⟩
      split
      · rfl
      · exact List.Pairwise.nil

/-- What has been kept fits. -/
theorem Kept.fits (h : Kept inputs entries state) : Fits inputs entries where
  once level field hfield := (h.slots level field hfield).length_le
  decodes level field hfield := (h.slots level field hfield).decodes_all
  extras := h.decodes

theorem sinkOf_eq {deserialize : Bool} (h : Compiled deserialize inputs codes) :
    codes.head?.bind Code.extras = sinkOf inputs := by
  cases h with
  | last accepted flattened => exact (generate_codeOf accepted).extras
  | above accepted flattened below => exact (generate_codeOf accepted).extras

theorem visitEntry_known {deserialize : Bool} (h : Compiled deserialize inputs codes)
    (howner : owner 0 inputs entry.1 = some (l, f)) :
    visitEntry codes state entry = f.arm.run l state entry.2 := by
  obtain ⟨index, hfield, hread⟩ := field_some h howner
  rw [visitEntry, keySeed, hfield]
  exact hread state entry.2

theorem visitEntry_unknown {deserialize : Bool} (h : Compiled deserialize inputs codes)
    (howner : owner 0 inputs entry.1 = none) :
    visitEntry codes state entry = unknown codes state entry.1 entry.2 := by
  rw [visitEntry, keySeed, field_none h howner]

/-- One entry of a known field. -/
theorem Kept.known (h : Kept inputs entries state)
    (howner : owner 0 inputs entry.1 = some (l, f)) (hstep : f.arm.run l state entry.2 = .ok later) :
    Kept inputs (entries ++ [entry]) later := by
  have hplace : place inputs entry.1 = some (l, f.member) := by rw [place, howner]; rfl
  have hknown := known_of_owner howner
  have hslot := h.slots l f hknown
  rw [Arm.run] at hstep
  split at hstep
  · cases hstep
  · rename_i hempty
    have hnone : state.slots l f.member = none := by
      rw [← Option.not_isSome_iff_eq_none]
      exact hempty
    rw [hnone] at hslot
    split at hstep
    · rename_i v hv
      cases hstep
      have hsame : unclaimed inputs (entries ++ [entry]) = unclaimed inputs entries := by
        rw [unclaimed_append, hplace, if_neg nofun, List.append_nil]
      refine ⟨fun level g hg => ?_, ?_, ?_⟩
      · rw [supplied_append, hplace]
        by_cases hhere : (l, f.member) = (level, g.member)
        · obtain ⟨rfl, hmember⟩ := Prod.mk.inj hhere
          obtain rfl := known_unique hknown hg hmember
          rw [hslot.none, if_pos rfl]
          show f.Slot [entry.2] (if l = l ∧ f.member = f.member then some v else _)
          rw [if_pos ⟨rfl, rfl⟩]
          exact .one hv
        · have haway : ¬ (level = l ∧ g.member = f.member) := by
            rintro ⟨rfl, hmember⟩
            exact hhere (by rw [hmember])
          rw [if_neg fun heq => hhere (Option.some.inj heq), List.append_nil]
          show g.Slot _ (if level = l ∧ g.member = f.member then some v else _)
          rw [if_neg haway]
          exact h.slots level g hg
      · rw [hsame]
        exact h.decodes
      · rw [ExtrasHold, hsame]
        exact h.extras
    · cases hstep

/-- One entry that no struct has the name of. -/
theorem Kept.unknown (h : Kept inputs entries state)
    (hsink : codes.head?.bind Code.extras = sinkOf inputs)
    (howner : owner 0 inputs entry.1 = none)
    (hstep : Serde.unknown codes state entry.1 entry.2 = .ok later) :
    Kept inputs (entries ++ [entry]) later := by
  have hplace : place inputs entry.1 = none := by rw [place, howner]; rfl
  have hmore : unclaimed inputs (entries ++ [entry]) = unclaimed inputs entries ++ [entry] := by
    rw [unclaimed_append, if_pos hplace]
  have hslots (level : Nat) (field : Member ι δ) (hfield : Known inputs level field) :
      field.Slot (supplied inputs (entries ++ [entry]) level field.member)
        (state.slots level field.member) := by
    rw [supplied_append, hplace, if_neg nofun, List.append_nil]
    exact h.slots level field hfield
  have hextras := h.extras
  rw [ExtrasHold] at hextras
  rw [Serde.unknown, hsink] at hstep
  split at hstep
  · rename_i hnone
    cases hstep
    rw [hnone] at hextras
    refine ⟨hslots, fun sink hsome => ?_, ?_⟩
    · rw [hnone] at hsome
      cases hsome
    · rw [ExtrasHold, hnone]
      exact hextras
  · rename_i sink hsome
    rw [hsome] at hextras
    split at hstep
    · rename_i v hv
      cases hstep
      refine ⟨hslots, fun other hother => ?_, ?_⟩
      · rw [hsome] at hother
        cases hother
        rw [hmore]
        intro e he
        rcases List.mem_append.1 he with he | he
        · exact h.decodes sink hsome e he
        · rw [List.mem_singleton.1 he]
          exact ⟨v, hv⟩
      · rw [ExtrasHold, hsome, hmore]
        exact hextras.push hv
    · cases hstep

theorem visitEntry_kept {deserialize : Bool} (hcodes : Compiled deserialize inputs codes)
    (h : Kept inputs entries state) (hstep : visitEntry codes state entry = .ok later) :
    Kept inputs (entries ++ [entry]) later := by
  cases howner : owner 0 inputs entry.1 with
  | none =>
    rw [visitEntry_unknown hcodes howner] at hstep
    exact h.unknown (sinkOf_eq hcodes) howner hstep
  | some found =>
    obtain ⟨l, f⟩ := found
    rw [visitEntry_known hcodes howner] at hstep
    exact h.known howner hstep

/-- After the loop, every slot and the sink hold what the entries say. -/
theorem visitEntries_kept {deserialize : Bool} (hcodes : Compiled deserialize inputs codes)
    (hrun : walk (visitEntry codes) .start entries = .ok state) : Kept inputs entries state :=
  walk_done (I := Kept inputs) hrun kept_start fun _ _ _ _ _ h hstep => visitEntry_kept hcodes h hstep

theorem Fits.before (h : Fits inputs (entries ++ [entry])) : Fits inputs entries where
  once level field hfield := by
    have honce := h.once level field hfield
    rw [supplied_append, List.length_append] at honce
    exact Nat.le_trans (Nat.le_add_right ..) honce
  decodes level field hfield value hvalue := by
    refine h.decodes level field hfield value ?_
    rw [supplied_append]
    exact List.mem_append_left _ hvalue
  extras sink hsink e he := by
    refine h.extras sink hsink e ?_
    rw [unclaimed_append]
    exact List.mem_append_left _ he

/-- An entry that fits is taken. -/
theorem visitEntry_ok {deserialize : Bool} (hcodes : Compiled deserialize inputs codes)
    (h : Kept inputs entries state) (hfits : Fits inputs (entries ++ [entry])) :
    ∃ later, visitEntry codes state entry = .ok later := by
  cases howner : owner 0 inputs entry.1 with
  | none =>
    have hplace : place inputs entry.1 = none := by rw [place, howner]; rfl
    rw [visitEntry_unknown hcodes howner, Serde.unknown, sinkOf_eq hcodes]
    cases hsink : sinkOf inputs with
    | none => exact ⟨state, rfl⟩
    | some sink =>
      have hmem : entry ∈ unclaimed inputs (entries ++ [entry]) := by
        rw [unclaimed_append, if_pos hplace]
        exact List.mem_append_right _ List.mem_cons_self
      obtain ⟨v, hv⟩ := hfits.extras sink hsink entry hmem
      dsimp only
      rw [hv]
      exact ⟨_, rfl⟩
  | some found =>
    obtain ⟨l, f⟩ := found
    have hplace : place inputs entry.1 = some (l, f.member) := by rw [place, howner]; rfl
    have hknown := known_of_owner howner
    have hsupplied : supplied inputs (entries ++ [entry]) l f.member =
        supplied inputs entries l f.member ++ [entry.2] := by
      rw [supplied_append, if_pos hplace]
    have hnil : supplied inputs entries l f.member = [] := by
      have honce := hfits.once l f hknown
      rw [hsupplied, List.length_append, List.length_singleton] at honce
      exact List.length_eq_zero_iff.1 (by omega)
    obtain ⟨v, hv⟩ : ∃ v, f.decode entry.2 = .ok v := by
      refine hfits.decodes l f hknown entry.2 ?_
      rw [hsupplied]
      exact List.mem_append_right _ List.mem_cons_self
    have hslot := h.slots l f hknown
    rw [hnil] at hslot
    have hempty : state.slots l f.arm.member = none := hslot.nil
    have hdecode : f.arm.decode entry.2 = .ok v := hv
    rw [visitEntry_known hcodes howner, Arm.run, hempty, hdecode]
    exact ⟨_, rfl⟩

theorem visitEntries_ok {deserialize : Bool} (hcodes : Compiled deserialize inputs codes)
    (hfits : Fits inputs entries) : ∃ state, walk (visitEntry codes) .start entries = .ok state := by
  induction entries using List.reverseRecOn with
  | nil => exact ⟨.start, rfl⟩
  | append_singleton entries entry ih =>
    obtain ⟨state, hrun⟩ := ih hfits.before
    obtain ⟨later, hstep⟩ := visitEntry_ok hcodes (visitEntries_kept hcodes hrun) hfits
    exact ⟨later, walk_append.2 ⟨state, hrun, walk_cons_ok.2 ⟨later, hstep, rfl⟩⟩⟩

end Loop

/-! ## The end -/

theorem missing_ok {f : Member ι δ} {v : δ} : f.missing = .ok v ↔ f.Absent v := by
  unfold Member.missing
  constructor
  · intro h
    split at h
    · rename_i hdefault
      cases h
      exact .default hdefault
    · rename_i value hdefault
      cases h
      exact .path hdefault
    · rename_i hdefault
      split at h
      · cases h
      · rename_i hplain
        refine .none hdefault (Option.not_isSome_iff_eq_none.1 hplain) ?_
        rw [missing] at h
        cases hvisit : f.visitNone with
        | none =>
          rw [hvisit] at h
          cases h
        | some result =>
          rw [hvisit] at h
          exact congrArg some h
  · intro h
    cases h with
    | default h => rw [h]
    | path h => rw [h]
    | none h plain optional =>
      rw [h, plain, optional]
      rfl

/-- A required field is one that nothing can stand for. -/
theorem required_iff {f : Member ι δ} : f.Required ↔ ¬ ∃ v, f.Absent v := by
  constructor
  · rintro ⟨hdefault, hrequired⟩ ⟨v, h⟩
    cases h with
    | default h =>
      rw [h] at hdefault
      cases hdefault
    | path h =>
      rw [h] at hdefault
      cases hdefault
    | none h plain optional =>
      rcases hrequired with hwith | htype
      · rw [plain] at hwith
        cases hwith
      · exact htype ⟨v, optional⟩
  · intro h
    have hdefault : f.default = .none := by
      cases hdefault : f.default with
      | none => rfl
      | default => exact absurd ⟨_, .default hdefault⟩ h
      | path value => exact absurd ⟨value, .path hdefault⟩ h
    refine ⟨by rw [hdefault]; rfl, ?_⟩
    cases hplain : f.deserializeWith with
    | some decode => exact .inl rfl
    | none => exact .inr fun ⟨v, optional⟩ => h ⟨v, .none hdefault hplain optional⟩

/-- What `finish` makes of a field. -/
def FieldOf (slots : String → Option δ) (field : Member ι δ) (entry : String × δ) : Prop :=
  entry.1 = field.member ∧
    if field.skipDeserializing then entry.2 = field.skippedValue
    else filled (slots field.member) field.missing = .ok entry.2

section Finishing

variable {slots : String → Option δ} {group : Except DecodeError (Levels δ)}
  {fields : List (Member ι δ)} {values : List (String × δ)} {groups : Levels δ}

theorem finishFields_group {finishes : List (String × Finish δ)} {member : String} :
    finishFields slots group ((member, .group) :: finishes) = .ok (values, groups) ↔
      group = .ok groups ∧ ∃ below, finishFields slots group finishes = .ok (values, below) := by
  rw [finishFields]
  constructor
  · intro h
    obtain ⟨below, hgroup, h⟩ := bind_ok.1 h
    obtain ⟨⟨rest, others⟩, hrest, h⟩ := bind_ok.1 h
    cases h
    exact ⟨hgroup, others, hrest⟩
  · rintro ⟨hgroup, below, hrest⟩
    rw [hrest, hgroup]
    rfl

theorem finishFields_skipped {finishes : List (String × Finish δ)} {member : String} {value : δ} :
    finishFields slots group ((member, .skipped value) :: finishes) = .ok (values, groups) ↔
      ∃ rest, values = (member, value) :: rest ∧
        finishFields slots group finishes = .ok (rest, groups) := by
  rw [finishFields]
  constructor
  · intro h
    obtain ⟨⟨rest, others⟩, hrest, h⟩ := bind_ok.1 h
    cases h
    exact ⟨rest, rfl, hrest⟩
  · rintro ⟨rest, rfl, hrest⟩
    rw [hrest]
    rfl

theorem finishFields_slot {finishes : List (String × Finish δ)} {member : String}
    {missing : Except DecodeError δ} :
    finishFields slots group ((member, .slot missing) :: finishes) = .ok (values, groups) ↔
      ∃ value rest, values = (member, value) :: rest ∧
        filled (slots member) missing = .ok value ∧
        finishFields slots group finishes = .ok (rest, groups) := by
  rw [finishFields]
  constructor
  · intro h
    obtain ⟨value, hvalue, h⟩ := bind_ok.1 h
    obtain ⟨⟨rest, others⟩, hrest, h⟩ := bind_ok.1 h
    cases h
    exact ⟨value, rest, rfl, hvalue, hrest⟩
  · rintro ⟨value, rest, rfl, hvalue, hrest⟩
    rw [hvalue, hrest]
    rfl

theorem exists_cons {f : Member ι δ} {P : Member ι δ → Prop} :
    (∃ field ∈ f :: fields, P field) ↔ P f ∨ ∃ field ∈ fields, P field := by
  simp only [List.mem_cons, exists_eq_or_imp]

/-- What is finished for the fields, and for the group if there is one. -/
theorem finishFields_ok (hflatten : ∀ field ∈ fields, field.isExtra = true → field.flatten = true) :
    finishFields slots group (fields.map fun field => (field.member, field.finish)) =
        .ok (values, groups) ↔
      List.Forall₂ (FieldOf slots) (fields.filter fun field => !field.flatten) values ∧
        ((∃ field ∈ fields, field.finish = .group) → group = .ok groups) ∧
        ((¬ ∃ field ∈ fields, field.finish = .group) → groups = []) := by
  induction fields generalizing values groups with
  | nil =>
    have hempty : ¬ ∃ field ∈ ([] : List (Member ι δ)), field.finish = .group := by
      rintro ⟨_, hmem, -⟩
      cases hmem
    constructor
    · intro h
      cases h
      exact ⟨.nil, fun hsome => absurd hsome hempty, fun _ => rfl⟩
    · rintro ⟨hvalues, -, hnone⟩
      cases hvalues
      rw [hnone hempty]
      rfl
  | cons field rest ih =>
    have hinner : ∀ other ∈ rest, other.isExtra = true → other.flatten = true :=
      fun other hother => hflatten other (List.mem_cons_of_mem _ hother)
    rw [List.map_cons, exists_cons, List.filter_cons]
    by_cases hextra : field.isExtra = true
    · have hfinish : field.finish = .extras := by rw [Member.finish, if_pos hextra]
      rw [hfinish, finishFields, ih hinner, hflatten field List.mem_cons_self hextra]
      simp only [reduceCtorEq, false_or]
      exact Iff.rfl
    · by_cases hflat : field.flatten = true
      · have hfinish : field.finish = .group := by
          rw [Member.finish, if_neg hextra, if_pos hflat]
        rw [hfinish, finishFields_group, hflat]
        simp only [true_or, forall_const, not_true_eq_false, false_implies, and_true]
        constructor
        · rintro ⟨hgroup, below, hbelow⟩
          exact ⟨((ih hinner).1 hbelow).1, hgroup⟩
        · rintro ⟨hvalues, hgroup⟩
          refine ⟨hgroup, ?_⟩
          by_cases hmore : ∃ field ∈ rest, field.finish = .group
          · exact ⟨groups, (ih hinner).2 ⟨hvalues, fun _ => hgroup, fun hnone => absurd hmore hnone⟩⟩
          · exact ⟨[], (ih hinner).2 ⟨hvalues, fun hsome => absurd hsome hmore, fun _ => rfl⟩⟩
      · have hkept : (!field.flatten) = true := by rw [Bool.eq_false_iff.2 hflat]; rfl
        rw [if_pos hkept, List.forall₂_cons_left_iff]
        by_cases hskip : field.skipDeserializing = true
        · have hfinish : field.finish = .skipped field.skippedValue := by
            rw [Member.finish, if_neg hextra, if_neg hflat, if_pos hskip]
          rw [hfinish, finishFields_skipped]
          simp only [reduceCtorEq, false_or, ih hinner, FieldOf, hskip, if_true]
          constructor
          · rintro ⟨fields, rfl, hfields, hgroups⟩
            exact ⟨⟨_, fields, ⟨rfl, rfl⟩, hfields, rfl⟩, hgroups⟩
          · rintro ⟨⟨⟨_, _⟩, fields, ⟨rfl, rfl⟩, hfields, rfl⟩, hgroups⟩
            exact ⟨fields, rfl, hfields, hgroups⟩
        · have hfinish : field.finish = .slot field.missing := by
            rw [Member.finish, if_neg hextra, if_neg hflat, if_neg hskip]
          rw [hfinish, finishFields_slot]
          simp only [reduceCtorEq, false_or, ih hinner, FieldOf, hskip, if_false]
          constructor
          · rintro ⟨value, fields, rfl, hvalue, hfields, hgroups⟩
            exact ⟨⟨_, fields, ⟨rfl, hvalue⟩, hfields, rfl⟩, hgroups⟩
          · rintro ⟨⟨⟨_, value⟩, fields, ⟨rfl, hvalue⟩, hfields, rfl⟩, hgroups⟩
            exact ⟨value, fields, rfl, hvalue, hfields, hgroups⟩

/-- The levels that a state finishes to. -/
def LevelsOf (state : DecodeState ι δ) (level : Nat) :
    List (StructInput ι δ) → Levels δ → Prop
  | [], levels => levels = []
  | input :: groups, levels => ∃ fields below, levels = fields :: below ∧
      List.Forall₂ (FieldOf (state.slots level)) (input.fields.filter fun field => !field.flatten)
        fields ∧ LevelsOf state (level + 1) groups below

variable {inputs : List (StructInput ι δ)} {codes : List (Code ι δ)} {state : DecodeState ι δ}
  {level : Nat} {deserialize : Bool} {levels : Levels δ}

theorem finish_cons {code : Code ι δ} : finish level (code :: codes) state = .ok levels ↔
    ∃ fields below, levels = fields :: below ∧ finishFields (state.slots level)
      (finish (level + 1) codes state) code.finishes = .ok (fields, below) := by
  rw [finish]
  constructor
  · intro h
    obtain ⟨⟨fields, below⟩, hfields, h⟩ := bind_ok.1 h
    cases h
    exact ⟨fields, below, rfl, hfields⟩
  · rintro ⟨fields, below, rfl, hfields⟩
    rw [hfields]
    rfl

theorem finish_ok (h : Compiled deserialize inputs codes) :
    finish level codes state = .ok levels ↔ LevelsOf state level inputs levels := by
  induction h generalizing level levels with
  | last accepted flattened =>
    have hcode := generate_codeOf accepted
    have hnone := mt hcode.flattened.2 (by rw [flattened]; nofun)
    simp only [finish_cons, hcode.finishes, finishFields_ok hcode.flatten, LevelsOf]
    constructor
    · rintro ⟨fields, below, rfl, hfields, -, hbelow⟩
      exact ⟨fields, below, rfl, hfields, hbelow hnone⟩
    · rintro ⟨fields, below, rfl, hfields, hbelow⟩
      exact ⟨fields, below, rfl, hfields, fun hsome => absurd hsome hnone, fun _ => hbelow⟩
  | above accepted flattened below ih =>
    have hcode := generate_codeOf accepted
    have hsome := hcode.flattened.1 flattened
    simp only [finish_cons, hcode.finishes, finishFields_ok hcode.flatten, LevelsOf]
    constructor
    · rintro ⟨fields, below, rfl, hfields, hbelow, -⟩
      exact ⟨fields, below, rfl, hfields, ih.1 (hbelow hsome)⟩
    · rintro ⟨fields, below, rfl, hfields, hbelow⟩
      exact ⟨fields, below, rfl, hfields, fun _ => ih.2 hbelow, fun hnone => absurd hsome hnone⟩

theorem exists_forall₂ {α β : Type} {R : α → β → Prop} {xs : List α} :
    (∃ ys, List.Forall₂ R xs ys) ↔ ∀ x ∈ xs, ∃ y, R x y := by
  induction xs with
  | nil => exact ⟨fun _ => List.forall_mem_nil _, fun _ => ⟨[], .nil⟩⟩
  | cons x xs ih =>
    rw [List.forall_mem_cons, ← ih]
    constructor
    · rintro ⟨ys, h⟩
      cases h with
      | cons hx hxs => exact ⟨⟨_, hx⟩, _, hxs⟩
    · rintro ⟨⟨y, hx⟩, ys, hxs⟩
      exact ⟨y :: ys, .cons hx hxs⟩

theorem LevelsOf.each (h : LevelsOf state level inputs levels) :
    levels.length = inputs.length ∧ ∀ i input fields, inputs[i]? = some input →
      levels[i]? = some fields → List.Forall₂ (FieldOf (state.slots (level + i)))
        (input.fields.filter fun field => !field.flatten) fields := by
  induction inputs generalizing level levels with
  | nil =>
    rw [LevelsOf] at h
    rw [h]
    exact ⟨rfl, fun _ _ _ hinput => nomatch hinput⟩
  | cons input groups ih =>
    obtain ⟨fields, below, rfl, hfields, hbelow⟩ := h
    obtain ⟨hlength, hgroups⟩ := ih hbelow
    refine ⟨congrArg (· + 1) hlength, fun i other values hother hvalues => ?_⟩
    cases i with
    | zero =>
      cases hother
      cases hvalues
      exact hfields
    | succ i =>
      have hgroup := hgroups i other values hother hvalues
      rw [Nat.add_assoc, Nat.add_comm 1 i] at hgroup
      exact hgroup

/-- A state finishes when something stands in every field. -/
theorem exists_levelsOf : (∃ levels, LevelsOf state level inputs levels) ↔
    ∀ i input, inputs[i]? = some input → ∀ field ∈ input.fields.filter fun field => !field.flatten,
      ∃ entry, FieldOf (state.slots (level + i)) field entry := by
  induction inputs generalizing level with
  | nil => exact ⟨fun _ _ _ hinput => (nomatch hinput), fun _ => ⟨[], rfl⟩⟩
  | cons input groups ih =>
    constructor
    · rintro ⟨_, fields, below, rfl, hfields, hbelow⟩ i other hother
      cases i with
      | zero =>
        cases hother
        exact exists_forall₂.1 ⟨fields, hfields⟩
      | succ i =>
        have hgroup := ih.1 ⟨below, hbelow⟩ i other hother
        rw [Nat.add_assoc, Nat.add_comm 1 i] at hgroup
        exact hgroup
    · intro h
      obtain ⟨fields, hfields⟩ := exists_forall₂.2 (h 0 input rfl)
      obtain ⟨below, hbelow⟩ := ih.2 fun i other hother => by
        rw [Nat.add_assoc, Nat.add_comm 1 i]
        exact h (i + 1) other hother
      exact ⟨fields :: below, fields, below, rfl, hfields, hbelow⟩

variable {field : Member ι δ} {supplied : List ι} {entry : String × δ}

/-- What `finish` makes of a field is what it has to hold. -/
theorem fieldOf_holds (hslot : field.skipDeserializing = false →
    field.Slot supplied (slots field.member)) (h : FieldOf slots field entry) :
    field.Holds supplied entry.2 := by
  obtain ⟨-, hvalue⟩ := h
  split at hvalue
  · rename_i hskip
    rw [hvalue]
    exact .skipped hskip
  · rename_i hskip
    have hkept := Bool.eq_false_iff.2 hskip
    have hslot := hslot hkept
    generalize slots field.member = slot at hslot hvalue
    cases hslot with
    | empty => exact .absent hkept rfl (missing_ok.1 hvalue)
    | one hdecodes =>
      obtain rfl := Except.ok.inj hvalue
      exact .supplied hkept rfl hdecodes

theorem exists_fieldOf (hslot : field.skipDeserializing = false →
    field.Slot supplied (slots field.member)) : (∃ entry, FieldOf slots field entry) ↔
      (field.skipDeserializing = false → field.Required → supplied ≠ []) := by
  cases hskip : field.skipDeserializing with
  | true =>
    refine ⟨nofun, fun _ => ⟨(field.member, field.skippedValue), rfl, ?_⟩⟩
    rw [if_pos hskip]
  | false =>
    have hslot := hslot hskip
    have hvalue : (∃ entry, FieldOf slots field entry) ↔
        ∃ v, filled (slots field.member) field.missing = .ok v := by
      simp only [FieldOf, hskip, Bool.false_eq_true, if_false]
      exact ⟨fun ⟨entry, _, h⟩ => ⟨entry.2, h⟩, fun ⟨v, h⟩ => ⟨(field.member, v), rfl, h⟩⟩
    rw [hvalue, required_iff]
    generalize slots field.member = slot at hslot
    cases hslot with
    | empty =>
      constructor
      · rintro ⟨v, h⟩ _ hrequired
        exact absurd ⟨v, missing_ok.1 h⟩ hrequired
      · intro h
        by_contra hnone
        refine h rfl (fun ⟨v, habsent⟩ => hnone ⟨v, missing_ok.2 habsent⟩) rfl
    | one hdecodes => exact ⟨fun _ _ _ => nofun, fun _ => ⟨_, rfl⟩⟩

end Finishing

/-! ## The decoder and its reference -/

section Decoding

variable {inputs : List (StructInput ι δ)} {codes : List (Code ι δ)}
  {entries : List (String × ι)} {state : DecodeState ι δ} {out : MapOutput δ}

theorem visitMap_ok (hcodes : Compiled true inputs codes) : visitMap codes entries = .ok out ↔
    ∃ state, walk (visitEntry codes) .start entries = .ok state ∧
      LevelsOf state 0 inputs out.levels ∧ out.extra = state.extra := by
  constructor
  · intro h
    obtain ⟨state, hrun, h⟩ := bind_ok.1 h
    obtain ⟨levels, hlevels, h⟩ := bind_ok.1 h
    cases h
    refine ⟨state, hrun, (finish_ok hcodes).1 ?_, rfl⟩
    cases hfinish : finish 0 codes state with
    | error e =>
      rw [hfinish] at hlevels
      cases hlevels
    | ok found =>
      rw [hfinish] at hlevels
      cases hlevels
      rfl
  · rintro ⟨state, hrun, hlevels, hextra⟩
    obtain ⟨levels, extra⟩ := out
    obtain rfl := hextra
    rw [visitMap, hrun]
    show ((finish 0 codes state).mapError Failure.error >>= _) = _
    rw [(finish_ok hcodes).2 hlevels]
    rfl

theorem kept_slot (hkept : Kept inputs entries state) {level : Nat} {input : StructInput ι δ}
    (hinput : inputs[level]? = some input) {field : Member ι δ}
    (hfield : field ∈ input.fields.filter fun field => !field.flatten)
    (hskip : field.skipDeserializing = false) :
    field.Slot (supplied inputs entries level field.member) (state.slots level field.member) := by
  obtain ⟨hmem, hflat⟩ := List.mem_filter.1 hfield
  refine hkept.slots level field ⟨input, hinput, List.mem_filter.2 ⟨hmem, ?_⟩⟩
  rw [Member.isKnown, hflat, hskip]
  rfl

theorem not_panic {deserialize : Bool} (hcodes : Compiled deserialize inputs codes)
    {entry : String × ι} {text : String} : visitEntry codes state entry ≠ .error (.panic text) := by
  intro h
  cases howner : owner 0 inputs entry.1 with
  | none =>
    rw [visitEntry_unknown hcodes howner, unknown] at h
    split at h
    · cases h
    · split at h
      · cases h
      · cases h
  | some found =>
    obtain ⟨l, f⟩ := found
    rw [visitEntry_known hcodes howner, Arm.run] at h
    split at h
    · cases h
    · split at h
      · cases h
      · cases h

/-- For every struct and groups that are accepted, and every entries. Decoding succeeds
when the entries are acceptable, its result is then the one that the reference says, and
it never comes to an index that no field has: an index that is looked up leads to the
field of the outermost struct that has the name. -/
theorem visitMap_reference (hcodes : Compiled true inputs codes) (entries : List (String × ι)) :
    ((∃ out, visitMap codes entries = .ok out) ↔ Acceptable inputs entries) ∧
    (∀ out, visitMap codes entries = .ok out → Correct inputs entries out) ∧
    (∀ text, visitMap codes entries ≠ .error (.panic text)) ∧
    (∀ name index, field codes name = some index → ∃ level found,
      owner 0 inputs name = some (level, found) ∧ ∀ state value,
        read 0 codes state index value = found.arm.run level state value) := by
  refine ⟨⟨?_, ?_⟩, ?_, ?_, ?_⟩
  · rintro ⟨out, h⟩
    obtain ⟨state, hrun, hlevels, -⟩ := (visitMap_ok hcodes).1 h
    have hkept := visitEntries_kept hcodes hrun
    refine ⟨hkept.fits, ?_⟩
    rintro level found ⟨input, hinput, hfound⟩ hrequired
    obtain ⟨hmem, hknown⟩ := List.mem_filter.1 hfound
    obtain ⟨hflat, hskip⟩ := Bool.and_eq_true_iff.1 hknown
    have hfield : found ∈ input.fields.filter fun field => !field.flatten :=
      List.mem_filter.2 ⟨hmem, hflat⟩
    have hentry := exists_levelsOf.1 ⟨out.levels, hlevels⟩ level input hinput found hfield
    rw [Nat.zero_add] at hentry
    exact (exists_fieldOf (kept_slot hkept hinput hfield)).1 hentry (Bool.not_eq_true' _ ▸ hskip)
      hrequired
  · intro haccept
    obtain ⟨state, hrun⟩ := visitEntries_ok hcodes haccept.toFits
    have hkept := visitEntries_kept hcodes hrun
    obtain ⟨levels, hlevels⟩ : ∃ levels, LevelsOf state 0 inputs levels := by
      refine exists_levelsOf.2 fun level input hinput found hfield => ?_
      rw [Nat.zero_add]
      refine (exists_fieldOf (kept_slot hkept hinput hfield)).2 fun hskip hrequired => ?_
      obtain ⟨hmem, hflat⟩ := List.mem_filter.1 hfield
      refine haccept.required level found ⟨input, hinput, List.mem_filter.2 ⟨hmem, ?_⟩⟩ hrequired
      rw [Member.isKnown, hflat, hskip]
      rfl
    exact ⟨⟨levels, state.extra⟩, (visitMap_ok hcodes).2 ⟨state, hrun, hlevels, rfl⟩⟩
  · intro out h
    obtain ⟨state, hrun, hlevels, hextra⟩ := (visitMap_ok hcodes).1 h
    have hkept := visitEntries_kept hcodes hrun
    obtain ⟨hlength, hfields⟩ := hlevels.each
    refine ⟨hlength, fun level input fields hinput hvalues => ?_, hextra ▸ hkept.extras⟩
    have hof := hfields level input fields hinput hvalues
    rw [Nat.zero_add] at hof
    have hboth := (List.forall₂_and_left _ _).2 ⟨fun field => kept_slot hkept hinput, hof⟩
    exact hboth.imp fun field entry h => ⟨h.2.1, fieldOf_holds h.1 h.2⟩
  · intro text h
    rcases bind_error.1 h with hrun | ⟨state, -, h⟩
    · obtain ⟨state, entry, hstep⟩ := walk_error hrun
      exact not_panic hcodes hstep
    · rcases bind_error.1 h with hfinish | ⟨levels, -, h⟩
      · cases hlevels : finish 0 codes state with
        | error e =>
          rw [hlevels] at hfinish
          cases hfinish
        | ok levels =>
          rw [hlevels] at hfinish
          cases hfinish
      · cases h
  · intro name index h
    cases howner : owner 0 inputs name with
    | none =>
      rw [field_none hcodes howner] at h
      cases h
    | some found =>
      obtain ⟨level, found⟩ := found
      obtain ⟨other, hother, hread⟩ := field_some hcodes howner
      rw [hother] at h
      obtain rfl := Option.some.inj h
      exact ⟨level, found, rfl, hread⟩

end Decoding

/-- A struct with an `id`, a group with an optional port, and an `IndexMap` for the rest. -/
theorem visitMap_reference_connection :
    let ty : Ty := .path false [⟨"u16", true⟩] []
    let id : Member Nat (Option Nat) := ⟨"id", [], ty, fun n => .ok (some n), none, none,
      ⟨.indexMap, fun n => .ok (some n)⟩, false, false, .none, none, .of "id" []⟩
    let metadata : Member Nat (Option Nat) := { id with
      member := "metadata", flatten := true, names := .of "metadata" [] }
    let extra : Member Nat (Option Nat) := { id with
      member := "extra", attributes := [.chimeraSerde [⟨"extra", .nothing⟩] none]
      flatten := true, names := .of "extra" [] }
    let port : Member Nat (Option Nat) := { id with
      member := "port", visitNone := some (.ok none), names := .of "sourcePort" ["port"] }
    let outer : StructInput Nat (Option Nat) :=
      ⟨"Connection", [], [], .ok (some (.named ⟨[id, metadata, extra], by decide⟩))⟩
    let group : StructInput Nat (Option Nat) :=
      ⟨"Metadata", [], [], .ok (some (.named ⟨[port], by decide⟩))⟩
    let entries := [("x", 1), ("port", 443), ("y", 2), ("id", 7), ("x", 3)]
    let out : MapOutput (Option Nat) :=
      ⟨[[("id", some 7)], [("port", some 443)]], [("x", some 3), ("y", some 2)]⟩
    ∃ codes, Compiled true [outer, group] codes ∧ visitMap codes entries = .ok out ∧
      Acceptable [outer, group] entries ∧ Correct [outer, group] entries out := by
  intro ty id metadata extra port outer group entries out
  obtain ⟨code, hcode, hflattened⟩ : ∃ code, generate true outer = .ok code ∧
      code.flattened.isSome = true := ⟨_, rfl, rfl⟩
  obtain ⟨inner, hinner, hlast⟩ : ∃ inner, generate false group = .ok inner ∧
      inner.flattened = none := ⟨_, rfl, rfl⟩
  have hcodes : Compiled true [outer, group] [code, inner] :=
    .above hcode hflattened (.last hinner hlast)
  have hrun : visitMap [code, inner] entries = .ok out := by
    cases hcode
    cases hinner
    rfl
  obtain ⟨haccept, hcorrect, -, -⟩ := visitMap_reference hcodes entries
  exact ⟨_, hcodes, hrun, haccept.1 ⟨out, hrun⟩, hcorrect out hrun⟩

end Chimera.Serde
