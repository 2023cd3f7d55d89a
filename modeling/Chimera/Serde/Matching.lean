import Chimera.Lib.Fields
import Chimera.Serde.Untagged

/-! What a generated visitor answers: the first variant of the input's kind whose
decoder takes it. The owned path drops the variants behind a plain String, which takes
every text; an open string enum takes a text that it does not know as it is. -/

namespace Chimera.Serde
open Chimera.Lib.Fallible

/-! ## What a declaration says -/

variable {δ : Type}

def Scalar.kind : Scalar → Kind
  | .bool _ => .bool
  | .str _ | .borrowedStr _ => .string
  | _ => .number

/-- The scalar of an input, a text as such; `none` for null. -/
def Input.scalar (input : Input) : Option Scalar :=
  match input.call with
  | .scalar scalar => some scalar
  | .borrowed text | .owned text => some (.str text)
  | .unit => none

/-- The kind that a variant's marker gives, or its type. -/
def Variant.kindOf (variant : Variant δ) (field : Payload δ) : Option Kind :=
  match kind variant.attributes with
  | .ok marker => marker.or (inferredKind field.ty)
  | .error _ => none

def Payload.takes (field : Payload δ) (ident : String) (scalar : Scalar) : Option (EnumValue δ) :=
  (field.decode scalar).map (.newtype ident)

/-- What a variant makes of an input of its kind. -/
def Variant.accepts (variant : Variant δ) (input : Input) : Option (EnumValue δ) :=
  if variant.skipDeserializing then none
  else match variant.style, input.scalar with
    | .unit, none => some (.unit variant.ident)
    | .newtype field, some scalar =>
      if variant.kindOf field = some scalar.kind then field.takes variant.ident scalar else none
    | _, _ => none

/-- The first variant in order of declaration that accepts the input. -/
def FirstMatch (variants : List (Variant δ)) (input : Input) (value : EnumValue δ) : Prop :=
  ∃ before variant after, variants = before ++ variant :: after ∧
    variant.accepts input = some value ∧ ∀ earlier ∈ before, earlier.accepts input = none

/-- The decoders answer for a text however it is held, and that of a String with it. -/
structure TextDecoders (ofString : String → δ) (variants : List (Variant δ)) : Prop where
  held : ∀ variant ∈ variants, ∀ field, variant.style = .newtype field → ∀ text,
    field.decode (.borrowedStr text) = field.decode (.str text)
  string : ∀ variant ∈ variants, ∀ field, variant.style = .newtype field →
    inferredKind field.ty = some .string → ∀ text, field.deserialize (.str text) =
      some (ofString text)

/-! ## The variants that are decoded -/

/-- What the visitor makes of it, given the scalar. -/
def Decoded.accepts (entry : Decoded δ) (scalar : Option Scalar) : Option (EnumValue δ) :=
  match entry.field, scalar with
  | none, none => some (.unit entry.ident)
  | some field, some scalar =>
    if entry.kind = scalar.kind then field.takes entry.ident scalar else none
  | _, _ => none

theorem accepts_some {entry : Decoded δ} {field : Payload δ} (h : entry.field = some field)
    (scalar : Scalar) : entry.accepts (some scalar) =
      if entry.kind = scalar.kind then field.takes entry.ident scalar else none := by
  simp only [Decoded.accepts, h]

/-- An entry comes from a variant; only that of a unit has no field. -/
structure Decoded.From (entry : Decoded δ) (variant : Variant δ) : Prop where
  null : entry.kind = .null ↔ entry.field = none
  field : ∀ field, entry.field = some field → variant.style = .newtype field

theorem inferredKind_ne_null (ty : Ty) : inferredKind ty ≠ some .null := by
  cases ty with
  | other inner => nofun
  | path qself segments inner =>
    rw [inferredKind]
    split
    · nofun
    · dsimp only
      repeat' split
      all_goals nofun

theorem readKind_ne_null {kind later : Option Kind} {item : Nested} {taken : Bool}
    (h : readKind kind item = .ok (later, taken)) : later ≠ some .null := by
  unfold readKind at h
  repeat' split at h
  all_goals cases h
  all_goals nofun

theorem kind_ne_null {attributes : List Attribute} {marker : Option Kind}
    (h : kind attributes = .ok marker) : marker ≠ some .null := by
  refine parseMarkers_keeps (I := fun kind => kind ≠ some .null) ?_ ?_ h
  · intro _ item later taken _ hread
    exact readKind_ne_null hread
  · nofun

/-- A variant that is decoded, and what comes of it. -/
theorem decodeVariant_ok {variant : Variant δ} {entry : Decoded δ}
    (h : decodeVariant variant = .ok entry) : entry.From variant ∧
      (variant.skipDeserializing = false →
        ∀ input : Input, entry.accepts input.scalar = variant.accepts input) := by
  obtain ⟨marker, hmarker, h⟩ := bind_ok.1 h
  split at h
  · rename_i hstyle
    split at h
    · cases h
      refine ⟨⟨⟨fun _ => rfl, fun _ => rfl⟩, nofun⟩, fun hskip input => ?_⟩
      simp only [Variant.accepts, Decoded.accepts, hskip, hstyle]
      cases input.scalar with
      | none => rfl
      | some scalar => rfl
    · cases h
  · rename_i field hstyle
    obtain ⟨-, -, h⟩ := bind_ok.1 h
    split at h
    · cases h
    · rename_i kind hkind
      obtain ⟨-, -, h⟩ := bind_ok.1 h
      cases h
      have hnull : kind ≠ .null := by
        rintro rfl
        rcases Option.or_eq_some_iff.1 hkind with hsome | ⟨-, hinferred⟩
        · exact kind_ne_null hmarker hsome
        · exact inferredKind_ne_null _ hinferred
      refine ⟨⟨⟨fun h => absurd h hnull, nofun⟩, ?_⟩, fun hskip input => ?_⟩
      · intro other hother
        cases hother
        exact hstyle
      · have hkindOf : variant.kindOf field = some kind := by
          rw [Variant.kindOf, hmarker]
          exact hkind
        simp only [Variant.accepts, Decoded.accepts, hskip, hstyle]
        cases input.scalar with
        | none => rfl
        | some scalar =>
          simp only [hkindOf, Option.some.injEq]
          rfl
  · cases h

/-- The list that the visitor is made of, over the variants gone through. -/
structure Listed (decoded : List (Decoded δ)) (variants : List (Variant δ)) : Prop where
  accepts : ∀ input : Input, decoded.findSome? (fun entry => entry.accepts input.scalar) =
    variants.findSome? fun variant => variant.accepts input
  entries : ∀ entry ∈ decoded, ∃ variant ∈ variants, entry.From variant

theorem pushVariant_listed {decoded later : List (Decoded δ)} {variants : List (Variant δ)}
    {variant : Variant δ} (hlisted : Listed decoded variants)
    (h : pushVariant decoded variant = .ok later) : Listed later (variants ++ [variant]) := by
  obtain ⟨-, -, h⟩ := bind_ok.1 h
  have kept : ∀ entry ∈ decoded, ∃ variant' ∈ variants ++ [variant], entry.From variant' := by
    intro entry hentry
    obtain ⟨origin, horigin, hfrom⟩ := hlisted.entries entry hentry
    exact ⟨origin, List.mem_append_left _ horigin, hfrom⟩
  split at h
  · rename_i hskip
    cases h
    refine ⟨fun input => ?_, kept⟩
    have hnone : variant.accepts input = none := by rw [Variant.accepts, if_pos hskip]
    rw [List.findSome?_append, hlisted.accepts, List.findSome?_cons, hnone]
    exact (Option.or_none).symm
  · rename_i hskip
    obtain ⟨entry, hentry, h⟩ := bind_ok.1 h
    cases h
    obtain ⟨hfrom, haccepts⟩ := decodeVariant_ok hentry
    refine ⟨fun input => ?_, fun other hother => ?_⟩
    · rw [List.findSome?_append, List.findSome?_append, hlisted.accepts, List.findSome?_cons,
        List.findSome?_cons, haccepts (Bool.eq_false_iff.2 hskip)]
      rfl
    · rcases List.mem_append.1 hother with hother | hother
      · exact kept other hother
      · obtain rfl := List.mem_singleton.1 hother
        exact ⟨variant, List.mem_append_right _ List.mem_cons_self, hfrom⟩

theorem pushVariants_listed {variants : List (Variant δ)} {decoded : List (Decoded δ)}
    (h : walk pushVariant [] variants = .ok decoded) : Listed decoded variants :=
  walk_done (I := fun done now => Listed now done) h ⟨fun _ => rfl, nofun⟩
    fun _ _ _ _ _ hlisted hstep => pushVariant_listed hlisted hstep

/-! ## What the visitor answers -/

def orFail (found : Option (EnumValue δ)) (failure : VisitError) :
    Except VisitError (EnumValue δ) :=
  match found with
  | some value => .ok value
  | none => .error failure

theorem orFail_ok {found : Option (EnumValue δ)} {failure : VisitError} {value : EnumValue δ} :
    orFail found failure = .ok value ↔ found = some value := by
  cases found with
  | none => exact ⟨nofun, nofun⟩
  | some other => exact ⟨fun h => congrArg some (Except.ok.inj h), fun h => by cases h; rfl⟩

theorem orFail_error {found : Option (EnumValue δ)} {failure : VisitError} :
    (∃ e, orFail found failure = .error e) ↔ ¬ ∃ value, found = some value := by
  cases found with
  | none => exact ⟨fun _ => nofun, fun _ => ⟨failure, rfl⟩⟩
  | some other => exact ⟨nofun, fun h => absurd ⟨other, rfl⟩ h⟩

section Visits

variable {ofString : String → δ} {ident error : String} {variants : List (Variant δ)}
  {decoded : List (Decoded δ)} {visitor : Visitor δ}

/-- The attempts of a method are the variants of its kind. -/
theorem candidates_attempted (scalar : Scalar) (ending : Ending) :
    Body.attempted ⟨(decoded.filter (·.kind = scalar.kind)).filterMap Decoded.attempt, ending⟩
      scalar = decoded.findSome? fun entry => entry.accepts (some scalar) := by
  induction decoded with
  | nil => rfl
  | cons entry rest ih =>
    rw [List.findSome?_cons, ← ih]
    by_cases hkind : entry.kind = scalar.kind
    · rw [List.filter_cons, if_pos (decide_eq_true hkind), List.filterMap_cons]
      cases hfield : entry.field with
      | none => simp only [Decoded.attempt, Decoded.accepts, hfield, Option.map_none]
      | some field =>
        simp only [Decoded.attempt, Decoded.accepts, hfield, Option.map_some, if_pos hkind,
          Body.attempted, List.findSome?_cons]
        rfl
    · rw [List.filter_cons, if_neg (by simpa using hkind)]
      cases hfield : entry.field with
      | none => simp only [Decoded.accepts, hfield]
      | some field => rw [accepts_some hfield, if_neg hkind]

/-- The text of the last resort, or that of an absent method. -/
def unmatched (decoded : List (Decoded δ)) (error : String) (scalar : Scalar) : VisitError :=
  if decoded.any (·.kind = scalar.kind) then .custom error
  else .invalidType (some scalar) error

theorem generateMethod_eq (kind : Kind) : generateMethod error decoded kind =
    if decoded.any (·.kind = kind) then
      some ⟨(decoded.filter (·.kind = kind)).filterMap Decoded.attempt, .custom error⟩
    else none := by
  have hempty : (decoded.filter (·.kind = kind)).isEmpty = true ↔
      ¬ decoded.any (·.kind = kind) = true := by
    simp [List.filter_eq_nil_iff]
  by_cases hany : decoded.any (·.kind = kind) = true
  · rw [generateMethod, if_neg (mt hempty.1 (not_not.2 hany)), if_pos hany]
  · rw [generateMethod, if_pos (hempty.2 hany), if_neg hany]

theorem lookup_filterMap {κ α β : Type} [DecidableEq κ] {l : List (κ × α)}
    (hl : (l.map Prod.fst).Nodup) (g : α → Option β) (key : κ) :
    (l.filterMap fun entry => (g entry.2).map (entry.1, ·)).lookup key = (l.lookup key).bind g := by
  induction l with
  | nil => rfl
  | cons entry rest ih =>
    obtain ⟨k, a⟩ := entry
    obtain ⟨hk, hrest⟩ := List.nodup_cons.1 hl
    rw [List.filterMap_cons, List.lookup_cons]
    by_cases hkey : key = k
    · rw [hkey, beq_self_eq_true]
      show _ = g a
      cases g a with
      | none =>
        have habsent : rest.lookup k = none := by
          refine List.lookup_eq_none_iff.2 fun other hother => bne_iff_ne.2 ?_
          rintro rfl
          exact hk (List.mem_map.2 ⟨other, hother, rfl⟩)
        rw [Option.map_none, ← hkey, ih hrest, hkey, habsent]
        rfl
      | some b => exact List.lookup_cons_self
    · rw [beq_false_of_ne hkey, ← ih hrest]
      cases g a with
      | none => rfl
      | some b =>
        show List.lookup key ((k, b) :: _) = _
        rw [List.lookup_cons, beq_false_of_ne hkey]

theorem lookup_method (scalar : Scalar) : methodKinds.lookup scalar.method = some scalar.kind := by
  cases scalar <;> rfl

/-- What a visitor was made from. -/
structure Visitor.Built (visitor : Visitor δ) (variants : List (Variant δ))
    (decoded : List (Decoded δ)) : Prop where
  listed : Listed decoded variants
  methods : ∀ scalar : Scalar, visitor.methods.lookup scalar.method =
    generateMethod visitor.expecting decoded scalar.kind
  visitString : visitor.visitString = if decoded.any (·.kind = .string) then
    some (generateOwned visitor.expecting decoded) else none
  visitUnit : visitor.visitUnit = (decoded.find? (·.kind = .null)).map Decoded.ident

theorem generateVisitor_ok (h : generateVisitor ident variants = .ok visitor) :
    ∃ decoded, visitor.Built variants decoded := by
  obtain ⟨decoded, hdecoded, h⟩ := bind_ok.1 h
  cases h
  refine ⟨decoded, pushVariants_listed hdecoded, fun scalar => ?_, rfl, rfl⟩
  have hlookup := lookup_filterMap (l := methodKinds) (by decide)
    (generateMethod ("data did not match any scalar variant of " ++ ident) decoded) scalar.method
  rw [lookup_method] at hlookup
  exact hlookup

/-- A method that takes a scalar. -/
theorem visitScalar_eq (hbuilt : visitor.Built variants decoded) (scalar : Scalar) :
    visitor.visitScalar ofString scalar =
      orFail (decoded.findSome? fun entry => entry.accepts (some scalar))
        (unmatched decoded visitor.expecting scalar) := by
  rw [Visitor.visitScalar, hbuilt.methods, generateMethod_eq, unmatched,
    ← candidates_attempted scalar (.custom visitor.expecting)]
  by_cases hany : decoded.any (·.kind = scalar.kind) = true
  · rw [if_pos hany, if_pos hany]
    rfl
  · have hnone : decoded.filter (·.kind = scalar.kind) = [] := by
      simpa [List.filter_eq_nil_iff] using hany
    rw [if_neg hany, if_neg hany, hnone]
    rfl

/-- A plain String among the variants takes every text. -/
theorem plainString_decode (htexts : TextDecoders ofString variants)
    (hlisted : Listed decoded variants) {entry : Decoded δ} (hentry : entry ∈ decoded)
    {field : Payload δ} (hfield : entry.field = some field) (hplain : field.isPlainString = true)
    (text : String) : field.decode (.str text) = some (ofString text) := by
  obtain ⟨variant, hvariant, hfrom⟩ := hlisted.entries entry hentry
  obtain ⟨hkind, hnone⟩ := Bool.and_eq_true_iff.1 hplain
  rw [Payload.decode, Option.isNone_iff_eq_none.1 hnone]
  exact htexts.string variant hvariant field (hfrom.field field hfield) (of_decide_eq_true hkind)
    text

theorem run_cons (attempt : Attempt δ) (body : Body δ) (scalar : Scalar) (text : String) :
    Body.run ofString { body with attempts := attempt :: body.attempts } scalar text =
      match attempt.decode scalar with
      | some value => .ok (.newtype attempt.ident value)
      | none => body.run ofString scalar text := by
  simp only [Body.run, Body.attempted, List.findSome?_cons]
  cases attempt.decode scalar with
  | none => rfl
  | some value => rfl

/-- The owned path drops what comes after a plain String. -/
theorem generateOwned_run (text : String)
    (hplain : ∀ entry ∈ decoded, ∀ field, entry.field = some field →
      field.isPlainString = true → field.decode (.str text) = some (ofString text)) :
    (generateOwned error decoded).run ofString (.str text) text =
      orFail (decoded.findSome? fun entry => entry.accepts (some (.str text))) (.custom error) := by
  induction decoded with
  | nil => rfl
  | cons entry rest ih =>
    have hrest := ih fun other hother => hplain other (List.mem_cons_of_mem _ hother)
    have skip (hnone : entry.accepts (some (.str text)) = none)
        (howned : generateOwned error (entry :: rest) = generateOwned error rest) :
        (generateOwned error (entry :: rest)).run ofString (.str text) text =
          orFail ((entry :: rest).findSome? fun entry => entry.accepts (some (.str text)))
            (.custom error) := by
      rw [howned, hrest, List.findSome?_cons, hnone]
    cases hfield : entry.field with
    | none =>
      refine skip ?_ ?_
      · simp only [Decoded.accepts, hfield]
      · rw [generateOwned, hfield]
        cases entry.kind <;> rfl
    | some field =>
      by_cases hkind : entry.kind = .string
      · have haccepts : entry.accepts (some (.str text)) = field.takes entry.ident (.str text) := by
          rw [accepts_some hfield]
          exact if_pos hkind
        rw [List.findSome?_cons, haccepts, Payload.takes, generateOwned, hkind, hfield]
        dsimp only
        split
        · rename_i hstring
          rw [hplain entry List.mem_cons_self field hfield hstring]
          rfl
        · rw [run_cons, hrest]
          dsimp only
          cases field.decode (.str text) with
          | none => rfl
          | some value => rfl
      · refine skip ?_ ?_
        · rw [accepts_some hfield]
          exact if_neg hkind
        · rw [generateOwned, hfield]
          cases hentry : entry.kind with
          | string => exact absurd hentry hkind
          | _ => rfl

theorem unit_accepts (hlisted : Listed decoded variants) :
    (decoded.find? (·.kind = .null)).map (fun entry => EnumValue.unit entry.ident) =
      decoded.findSome? fun entry => entry.accepts none := by
  have hnull : ∀ entry ∈ decoded, entry.kind = .null ↔ entry.field = none := by
    intro entry hentry
    obtain ⟨variant, -, hfrom⟩ := hlisted.entries entry hentry
    exact hfrom.null
  clear hlisted
  induction decoded with
  | nil => rfl
  | cons entry rest ih =>
    have hrest := ih fun other hother => hnull other (List.mem_cons_of_mem _ hother)
    rw [List.find?_cons, List.findSome?_cons, ← hrest]
    cases hfield : entry.field with
    | none =>
      rw [decide_eq_true ((hnull entry List.mem_cons_self).2 hfield)]
      simp only [Decoded.accepts, hfield, Option.map_some]
    | some field =>
      have hkind : entry.kind ≠ .null := by
        intro h
        rw [(hnull entry List.mem_cons_self).1 h] at hfield
        cases hfield
      rw [decide_eq_false hkind]
      simp only [Decoded.accepts, hfield]

theorem findSome?_congr {α β : Type} {l : List α} {f g : α → Option β}
    (h : ∀ a ∈ l, f a = g a) : l.findSome? f = l.findSome? g := by
  induction l with
  | nil => rfl
  | cons a rest ih =>
    rw [List.findSome?_cons, List.findSome?_cons, h a List.mem_cons_self,
      ih fun b hb => h b (List.mem_cons_of_mem _ hb)]

theorem runBorrowed_eq (hbuilt : visitor.Built variants decoded)
    (htexts : TextDecoders ofString variants) (text : String) :
    visitor.runBorrowed ofString text = visitor.visitScalar ofString (.str text) := by
  have hheld : (decoded.findSome? fun entry => entry.accepts (some (.borrowedStr text))) =
      decoded.findSome? fun entry => entry.accepts (some (.str text)) := by
    refine findSome?_congr fun entry hentry => ?_
    obtain ⟨variant, hvariant, hfrom⟩ := hbuilt.listed.entries entry hentry
    cases hfield : entry.field with
    | none => simp only [Decoded.accepts, hfield]
    | some field =>
      have hsame := htexts.held variant hvariant field (hfrom.field field hfield) text
      rw [accepts_some hfield, accepts_some hfield, Payload.takes, hsame]
      rfl
  have hmethod : visitor.methods.lookup .visitBorrowedStr =
      generateMethod visitor.expecting decoded .string := hbuilt.methods (.borrowedStr text)
  rw [Visitor.runBorrowed, hmethod, generateMethod_eq]
  by_cases hany : decoded.any (·.kind = .string) = true
  · have hattempted : Body.attempted
        ⟨(decoded.filter (·.kind = .string)).filterMap Decoded.attempt, .custom visitor.expecting⟩
        (.borrowedStr text) = decoded.findSome? fun entry => entry.accepts
          (some (.borrowedStr text)) := candidates_attempted (.borrowedStr text) _
    rw [if_pos hany, visitScalar_eq hbuilt, ← hheld, ← hattempted, unmatched]
    exact congrArg (orFail _) (if_pos hany).symm
  · rw [if_neg hany]

theorem runOwned_eq (hbuilt : visitor.Built variants decoded)
    (htexts : TextDecoders ofString variants) (text : String) :
    visitor.runOwned ofString text = visitor.visitScalar ofString (.str text) := by
  rw [Visitor.runOwned, hbuilt.visitString]
  by_cases hany : decoded.any (·.kind = .string) = true
  · rw [if_pos hany, visitScalar_eq hbuilt, unmatched]
    refine (generateOwned_run text fun entry hentry field hfield hplain =>
      plainString_decode htexts hbuilt.listed hentry hfield hplain text).trans ?_
    exact congrArg _ (if_pos hany).symm
  · rw [if_neg hany]

/-- The answer is the first match, and the failure depends on the scalar only. -/
theorem visit_eq (h : generateVisitor ident variants = .ok visitor)
    (htexts : TextDecoders ofString variants) : ∃ failure : Option Scalar → VisitError,
      ∀ input, visitor.visit ofString input =
        orFail (variants.findSome? fun variant => variant.accepts input) (failure input.scalar) := by
  obtain ⟨decoded, hbuilt⟩ := generateVisitor_ok h
  refine ⟨fun scalar => match scalar with
    | some scalar => unmatched decoded visitor.expecting scalar
    | none => .invalidType none visitor.expecting, fun input => ?_⟩
  rw [← hbuilt.listed.accepts, Visitor.visit, Input.scalar]
  cases input.call with
  | scalar scalar => exact visitScalar_eq hbuilt scalar
  | borrowed text => exact (runBorrowed_eq hbuilt htexts text).trans (visitScalar_eq hbuilt _)
  | owned text => exact (runOwned_eq hbuilt htexts text).trans (visitScalar_eq hbuilt _)
  | unit =>
    dsimp only
    rw [← unit_accepts hbuilt.listed, hbuilt.visitUnit]
    cases decoded.find? (·.kind = .null) with
    | none => rfl
    | some entry => rfl

end Visits

/-! ## Open string enums -/

/-- A variant with names of its own. -/
def Variant.isKnown (variant : Variant δ) : Bool :=
  !variant.skipDeserializing && variant.style.fields.isEmpty

/-- The variant that takes what is not known. -/
def Variant.isFallback (variant : Variant δ) : Prop :=
  variant.skipDeserializing = false ∧ variant.untagged = true ∧
    ∃ field, variant.style = .newtype field ∧ inferredKind field.ty = some .string

def Variant.case (variant : Variant δ) : List String × String :=
  (variant.names.aliases, variant.ident)

/-- What is gathered from the variants gone through. -/
structure GatheredFrom (variants : List (Variant δ)) (gathered : Gathered) : Prop where
  cases : gathered.cases = (variants.filter Variant.isKnown).map Variant.case
  names : gathered.names = (variants.filter Variant.isKnown).map (·.names.name)
  seen : gathered.seen = gathered.cases.flatMap Prod.fst
  nodup : gathered.seen.Nodup
  fallback : ∀ ident, gathered.fallback = some ident →
    ∃ variant ∈ variants, variant.isFallback ∧ variant.ident = ident

section Gathering

variable {variants : List (Variant δ)} {variant : Variant δ} {gathered later : Gathered}
  {generated : StringEnum}

theorem GatheredFrom.fallback_append (h : GatheredFrom variants gathered) (ident : String)
    (hident : gathered.fallback = some ident) :
    ∃ later ∈ variants ++ [variant], later.isFallback ∧ later.ident = ident := by
  obtain ⟨earlier, hearlier, hrest⟩ := h.fallback ident hident
  exact ⟨earlier, List.mem_append_left _ hearlier, hrest⟩

theorem GatheredFrom.skip (h : GatheredFrom variants gathered) (hskip : variant.isKnown = false) :
    GatheredFrom (variants ++ [variant]) gathered where
  cases := by
    rw [List.filter_append, List.filter_cons, hskip]
    simpa using h.cases
  names := by
    rw [List.filter_append, List.filter_cons, hskip]
    simpa using h.names
  seen := h.seen
  nodup := h.nodup
  fallback := h.fallback_append

theorem gatherVariant_from (h : GatheredFrom variants gathered)
    (hstep : gatherVariant gathered variant = .ok later) :
    GatheredFrom (variants ++ [variant]) later := by
  obtain ⟨-, -, hstep⟩ := bind_ok.1 hstep
  obtain ⟨marker, -, hstep⟩ := bind_ok.1 hstep
  obtain ⟨-, -, hstep⟩ := bind_ok.1 hstep
  split at hstep
  · rename_i hskip
    cases hstep
    exact h.skip (by rw [Variant.isKnown, hskip]; rfl)
  · rename_i hskip
    unfold gather at hstep
    split at hstep
    · rename_i hstyle
      split at hstep
      · cases hstep
      · obtain ⟨seen, hseen, hstep⟩ := bind_ok.1 hstep
        cases hstep
        have hknown : variant.isKnown = true := by
          rw [Variant.isKnown, Bool.eq_false_iff.2 hskip, hstyle]
          rfl
        obtain ⟨hall, hnodup⟩ := insertAll_ok h.nodup hseen
        refine ⟨?_, ?_, ?_, hnodup, h.fallback_append⟩
        · rw [List.filter_append, List.filter_cons, if_pos hknown, List.map_append, h.cases]
          rfl
        · rw [List.filter_append, List.filter_cons, if_pos hknown, List.map_append, h.names]
          rfl
        · rw [hall, h.seen, List.flatMap_append, List.flatMap_singleton]
    · rename_i field hstyle
      split at hstep
      · rename_i hfallback
        obtain ⟨-, -, hstep⟩ := bind_ok.1 hstep
        cases hstep
        have hknown : variant.isKnown = false := by
          rw [Variant.isKnown, hstyle]
          exact Bool.and_false _
        have hskipped := h.skip hknown
        refine ⟨hskipped.cases, hskipped.names, hskipped.seen, hskipped.nodup, ?_⟩
        rintro _ ⟨⟩
        exact ⟨variant, List.mem_append_right _ List.mem_cons_self,
          ⟨Bool.eq_false_iff.2 hskip, hfallback.1, field, hstyle, hfallback.2.1⟩, rfl⟩
      · cases hstep
    · cases hstep

/-- An accepted open string enum. -/
structure StringEnum.From (generated : StringEnum) (variants : List (Variant δ)) : Prop where
  cases : generated.cases = (variants.filter Variant.isKnown).map Variant.case
  names : generated.variants = (variants.filter Variant.isKnown).map (·.names.name)
  nodup : (generated.cases.flatMap Prod.fst).Nodup
  fallback : ∃ variant ∈ variants, variant.isFallback ∧ variant.ident = generated.fallback

theorem generateStringEnum_ok (h : generateStringEnum variants = .ok generated) :
    generated.From variants := by
  obtain ⟨gathered, hwalk, h⟩ := bind_ok.1 h
  have hgathered : GatheredFrom variants gathered :=
    walk_done (I := GatheredFrom) hwalk ⟨rfl, rfl, rfl, List.nodup_nil, nofun⟩
      fun _ _ _ _ _ hfrom hstep => gatherVariant_from hfrom hstep
  split at h
  · cases h
  · rename_i fallback hfallback
    cases h
    exact ⟨hgathered.cases, hgathered.names, hgathered.seen ▸ hgathered.nodup,
      hgathered.fallback fallback hfallback⟩

/-- No text is among the names of two cases. -/
theorem find_case {cases : List (List String × String)} {case : List String × String}
    {text : String} (hnodup : (cases.flatMap Prod.fst).Nodup) (hcase : case ∈ cases)
    (htext : text ∈ case.1) : cases.find? (fun case => text ∈ case.1) = some case := by
  induction cases with
  | nil => cases hcase
  | cons first rest ih =>
    rw [List.flatMap_cons] at hnodup
    obtain ⟨-, hrest, hapart⟩ := List.nodup_append.1 hnodup
    rw [List.find?_cons]
    rcases List.mem_cons.1 hcase with rfl | hcase
    · rw [decide_eq_true htext]
    · have hfirst : text ∉ first.1 := by
        intro hmem
        exact hapart text hmem text (List.mem_flatMap.2 ⟨case, hcase, htext⟩) rfl
      rw [decide_eq_false hfirst]
      exact ih hrest hcase

variable {text : String}

theorem known_variant (h : generated.From variants) (hvariant : variant ∈ variants)
    (hknown : variant.isKnown = true) (htext : text ∈ variant.names.aliases) :
    generated.known text = some (.unit variant.ident) := by
  have hcase : variant.case ∈ generated.cases := by
    rw [h.cases]
    exact List.mem_map_of_mem (List.mem_filter.2 ⟨hvariant, hknown⟩)
  rw [StringEnum.known, find_case h.nodup hcase htext]
  rfl

theorem known_none (h : generated.From variants)
    (htext : ∀ variant ∈ variants, variant.isKnown = true → text ∉ variant.names.aliases) :
    generated.known text = none := by
  rw [StringEnum.known, h.cases, Option.map_eq_none_iff, List.find?_eq_none]
  intro case hcase
  obtain ⟨variant, hvariant, rfl⟩ := List.mem_map.1 hcase
  obtain ⟨hmem, hknown⟩ := List.mem_filter.1 hvariant
  rw [decide_eq_true_eq]
  exact htext variant hmem hknown

/-- An object is accepted when it has one entry: a known name with a unit. -/
theorem visitMap_object {entries : List (String × Except VisitError Unit)} {value : EnumValue String} :
    generated.visitMap entries = .ok value ↔
      ∃ key, entries = [(key, .ok ())] ∧ generated.known key = some value := by
  constructor
  · intro h
    match entries with
    | [] => cases h
    | (key, entry) :: rest =>
      rw [StringEnum.visitMap] at h
      split at h
      · cases h
      · rename_i variant hknown
        obtain ⟨_, rfl, h⟩ := bind_ok.1 h
        split at h
        · rename_i hrest
          cases h
          exact ⟨key, by rw [List.isEmpty_iff.1 hrest], hknown⟩
        · cases h
  · rintro ⟨key, rfl, hknown⟩
    rw [StringEnum.visitMap, hknown]
    rfl

end Gathering

/-! ## Both shapes -/

def EnumInput.variants (input : EnumInput δ) : List (Variant δ) :=
  match input.container with
  | .ok (some ⟨_, .enum variants⟩) => variants
  | _ => []

/-- For every enum that is accepted. The visitor of an untagged one answers with the
first variant that accepts the input, fails where there is none, and answers the same
for a text however it comes. That of an open string enum answers with the variant that
has the text among its names, else with the text. -/
theorem generateUntagged_correct (ofString : String → δ) {input : EnumInput δ} {output : Output δ}
    (h : generateUntagged input = .ok output) :
    match output with
    | .visitor visitor => TextDecoders ofString input.variants →
      (∀ (x : Input) (value : EnumValue δ),
        visitor.visit ofString x = .ok value ↔ FirstMatch input.variants x value) ∧
      (∀ x : Input, (∃ e, visitor.visit ofString x = .error e) ↔
        ¬ ∃ value, FirstMatch input.variants x value) ∧
      ∀ text, visitor.visit ofString (.borrowedStr text) = visitor.visit ofString (.str text) ∧
        visitor.visit ofString (.string text) = visitor.visit ofString (.str text)
    | .stringEnum generated => ∀ text, ∀ x ∈ [Input.str text, .borrowedStr text, .string text],
      (∀ variant ∈ input.variants, variant.isKnown = true →
        text = variant.names.name ∨ text ∈ variant.names.aliases →
          generated.visit x = .ok (.unit variant.ident)) ∧
      ((∀ variant ∈ input.variants, variant.isKnown = true →
        text ≠ variant.names.name ∧ text ∉ variant.names.aliases) →
          ∃ variant ∈ input.variants, variant.isFallback ∧
            generated.visit x = .ok (.newtype variant.ident text)) := by
  obtain ⟨-, -, h⟩ := bind_ok.1 h
  obtain ⟨-, -, h⟩ := bind_ok.1 h
  obtain ⟨container, hcontainer, h⟩ := bind_ok.1 h
  split at h
  · cases h
  · rename_i container
    split at h
    · cases h
    · rename_i variants hdata
      obtain ⟨-, -, h⟩ := bind_ok.1 h
      have hvariants : input.variants = variants := by
        rw [EnumInput.variants, hcontainer]
        obtain ⟨tag, data⟩ := container
        cases hdata
        rfl
      rw [hvariants]
      split at h
      · obtain ⟨generated, hgenerated, h⟩ := bind_ok.1 h
        cases h
        have hfrom := generateStringEnum_ok hgenerated
        intro text x hx
        have hvisit : generated.visit x =
            .ok ((generated.known text).getD (generated.unknown text)) := by
          simp only [List.mem_cons, List.not_mem_nil, or_false] at hx
          rcases hx with rfl | rfl | rfl
          · rfl
          · rfl
          · rfl
        rw [hvisit]
        constructor
        · intro variant hvariant hknown htext
          have halias : text ∈ variant.names.aliases := by
            rcases htext with rfl | htext
            · exact variant.names.name_mem
            · exact htext
          rw [known_variant hfrom hvariant hknown halias]
          rfl
        · intro hother
          obtain ⟨variant, hvariant, hfallback, hident⟩ := hfrom.fallback
          refine ⟨variant, hvariant, hfallback, ?_⟩
          rw [known_none hfrom fun variant hvariant hknown => (hother variant hvariant hknown).2,
            hident]
          rfl
      · obtain ⟨visitor, hvisitor, h⟩ := bind_ok.1 h
        cases h
        intro htexts
        obtain ⟨failure, hvisit⟩ := visit_eq hvisitor htexts
        refine ⟨fun x value => ?_, fun x => ?_, fun text => ?_⟩
        · rw [hvisit, orFail_ok]
          exact List.findSome?_eq_some_iff
        · rw [hvisit, orFail_error]
          exact not_congr (exists_congr fun value => List.findSome?_eq_some_iff)
        · rw [hvisit (.borrowedStr text), hvisit (.string text), hvisit (.str text)]
          exact ⟨rfl, rfl⟩
      · cases h

/-! ### The scalar of the README

`enum Scalar { Number(u16), Decimal(u16), Text(String), Null }`, whose `Decimal` is read
from a text by `from_str`. -/

/-- A `u16` or a String. -/
abbrev Held := UInt16 ⊕ String

/-- `u16::deserialize`. -/
def deserializeU16 : Decoder Held
  | .u64 value => if value < 65536 then some (.inl value.toUInt16) else none
  | .i64 value =>
    if 0 ≤ value ∧ value < 65536 then some (.inl value.toInt.toNat.toUInt16) else none
  | _ => none

/-- `from_str`, of a `u16`. -/
def fromStrU16 : Decoder Held
  | .str text | .borrowedStr text =>
    (Lib.Fields.parseUnsigned 65536 text.toList).map fun value => .inl value.toUInt16
  | _ => none

/-- `String::deserialize`. -/
def deserializeString : Decoder Held
  | .str text | .borrowedStr text => some (.inr text)
  | _ => none

def tyU16 : Ty := .path false [⟨"u16", true⟩] []

def scalarVariants : List (Variant Held) :=
  [⟨"Number", [], false, false, .of "Number" [], .newtype ⟨[], tyU16, deserializeU16, none⟩⟩,
    ⟨"Decimal", [.chimeraSerde [⟨"kind", .literal "string"⟩] none], false, false,
      .of "Decimal" [],
      .newtype ⟨[.serde (.ok ["deserialize_with"])], tyU16, deserializeU16, some fromStrU16⟩⟩,
    ⟨"Text", [], false, false, .of "Text" [],
      .newtype ⟨[], .path false [⟨"String", true⟩] [], deserializeString, none⟩⟩,
    ⟨"Null", [], false, false, .of "Null" [], .unit⟩]

theorem scalarVariants_texts : TextDecoders .inr scalarVariants := by
  have hfield : ∀ variant ∈ scalarVariants, ∀ field, variant.style = .newtype field →
      (∀ text, field.decode (.borrowedStr text) = field.decode (.str text)) ∧
      (inferredKind field.ty = some .string → field.deserialize = deserializeString) := by
    intro variant hvariant field hstyle
    simp only [scalarVariants, List.mem_cons, List.not_mem_nil, or_false] at hvariant
    rcases hvariant with rfl | rfl | rfl | rfl <;> cases hstyle
    · exact ⟨fun _ => rfl, nofun⟩
    · exact ⟨fun _ => rfl, nofun⟩
    · exact ⟨fun _ => rfl, fun _ => rfl⟩
  constructor
  · intro variant hvariant field hstyle text
    exact (hfield variant hvariant field hstyle).1 text
  · intro variant hvariant field hstyle hkind text
    rw [(hfield variant hvariant field hstyle).2 hkind]
    rfl

theorem generateUntagged_correct_scalar :
    let input : EnumInput Held :=
      ⟨"Scalar", [.serde (.ok ["untagged"])], .ok (some ⟨.none, .enum scalarVariants⟩)⟩
    ∃ visitor, generateUntagged input = .ok (.visitor visitor) ∧
      visitor.visit .inr (.u64 443) = .ok (.newtype "Number" (.inl 443)) ∧
      visitor.visit .inr (.borrowedStr "443") = .ok (.newtype "Decimal" (.inl 443)) ∧
      visitor.visit .inr (.string "a") = .ok (.newtype "Text" (.inr "a")) ∧
      visitor.visit .inr .unit = .ok (.unit "Null") := by
  intro input
  obtain ⟨visitor, hvisitor⟩ : ∃ visitor, generateUntagged input = .ok (.visitor visitor) :=
    ⟨_, rfl⟩
  obtain ⟨hmatch, -, -⟩ := generateUntagged_correct .inr hvisitor scalarVariants_texts
  refine ⟨visitor, hvisitor, (hmatch _ _).2 ⟨[], _, _, rfl, rfl, nofun⟩,
    (hmatch _ _).2 ⟨[_], _, _, rfl, rfl, ?_⟩, (hmatch _ _).2 ⟨[_, _], _, _, rfl, rfl, ?_⟩,
    (hmatch _ _).2 ⟨[_, _, _], _, _, rfl, rfl, ?_⟩⟩
  · rw [List.forall_mem_singleton]
    rfl
  · rw [List.forall_mem_cons, List.forall_mem_singleton]
    exact ⟨rfl, rfl⟩
  · rw [List.forall_mem_cons, List.forall_mem_cons, List.forall_mem_singleton]
    exact ⟨rfl, rfl, rfl⟩

end Chimera.Serde
