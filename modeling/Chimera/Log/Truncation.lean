import Chimera.Log.Conserved

/-! A record and the lines that continue it, as the caps leave them: each text is cut
to a leading part, the record says so, and a text that was cut is not continued, but
for a root whose cut leaves room. -/

namespace Chimera.Log
open Chimera.Model Chimera.Lib.Utf8

/-- The record of a root and of the lines that continue it. -/
def record (root : LogFrame) (lines : List Text) : Checked Pending := do
  let frame ← boundFrame root
  lines.foldlM Pending.append ⟨frame, 0⟩

section Records

variable {root : LogFrame} {lines rest : List Text} {line : Text} {held next : Pending}

@[simp] theorem record_nil : record root [] = .ok ⟨root.bounded, 0⟩ := by
  simp [record, boundFrame_eq]

theorem record_snoc :
    record root (lines ++ [line]) = record root lines >>= fun held => held.append line := by
  simp only [record, boundFrame_eq, Checked.ok_bind, List.foldlM_append, List.foldlM_cons,
    List.foldlM_nil, bind_pure]

/-- A record is never refused. -/
theorem record_returns (root : LogFrame) (lines : List Text) :
    ∃ held, record root lines = .ok held := by
  induction lines using List.reverseRecOn with
  | nil => exact ⟨_, record_nil⟩
  | append_singleton lines line ih =>
    obtain ⟨held, hheld⟩ := ih
    obtain ⟨next, hnext, -⟩ := held.append_eq line
    exact ⟨next, by simp [record_snoc, hheld, hnext]⟩

theorem record_snoc_ok (h : record root (lines ++ [line]) = .ok next) :
    ∃ held, record root lines = .ok held ∧ held.append line = .ok next := by
  obtain ⟨held, hheld⟩ := record_returns root lines
  rw [record_snoc, hheld] at h
  exact ⟨held, hheld, h⟩

end Records

/-! ## One line more -/

section Lines

variable {text line kept : Text} {maxBytes : Nat} {cut : Bool} {held next : Pending}

theorem Appended.grows (h : Appended text line maxBytes kept cut) : text <+: kept := by
  cases h with
  | whole _ => exact List.prefix_append _ _
  | part _ _ _ => exact List.prefix_append _ _
  | full _ => exact List.prefix_rfl

theorem Appended.le (h : Appended text line maxBytes kept cut) (ht : size text ≤ maxBytes) :
    size kept ≤ maxBytes := by
  have hnewline : '\n'.utf8Size = 1 := rfl
  cases h with
  | whole hs =>
    simp only [size_append, size_cons, hnewline]
    omega
  | part hs _ _ =>
    have hpart := size_fitting_le line (maxBytes - size text - 1)
    simp only [size_append, size_cons, hnewline]
    omega
  | full _ => exact ht

/-- What is kept leads the whole, and is the whole unless something was left behind. -/
theorem Appended.leads (h : Appended text line maxBytes kept cut) :
    kept <+: text ++ '\n' :: line ∧ (cut = true ↔ kept ≠ text ++ '\n' :: line) := by
  cases h with
  | whole _ => simp
  | part hs _ hcut =>
    have hp := fitting_start line (maxBytes - size text - 1)
    have hle := size_fitting_le line (maxBytes - size text - 1)
    refine ⟨(List.prefix_append_right_inj _).2 ((List.prefix_cons_inj _).2 hp), ?_⟩
    simp only [true_iff]
    intro heq
    have hwhole : fitting line (maxBytes - size text - 1) = line := by simpa using heq
    rw [hwhole] at hle
    omega
  | full _ => simp

/-- A record that takes no more lines only says that it is truncated. -/
theorem append_stopped (h : held.continuations = maxContinuationLines) :
    held.append line = .ok { held with frame := { held.frame with truncated := true } } := by
  simp [Pending.append, h]

/-- What a line does to a record that takes it. -/
theorem append_taken (h : held.continuations ≠ maxContinuationLines)
    (hnext : held.append line = .ok next) :
    ∃ raw rawCut message messageCut,
      Appended held.frame.raw line maxLogTextBytes raw rawCut ∧
      Appended held.frame.message line maxLogTextBytes message messageCut ∧
      next = if rawCut || messageCut then
          ⟨{ held.frame with raw, message, truncated := true }, maxContinuationLines⟩
        else ⟨{ held.frame with raw, message }, held.continuations + 1⟩ := by
  obtain ⟨raw, rawCut, hraw, hrawKept⟩ := appendBounded_eq held.frame.raw line maxLogTextBytes
  obtain ⟨message, messageCut, hmessage, hmessageKept⟩ :=
    appendBounded_eq held.frame.message line maxLogTextBytes
  refine ⟨raw, rawCut, message, messageCut, hrawKept, hmessageKept, ?_⟩
  simp only [Pending.append, h, if_false, hraw, hmessage, Checked.ok_bind, Checked.pure_eq] at hnext
  split at hnext
  · rename_i hcut
    rw [if_pos hcut]
    exact (Except.ok.inj hnext).symm
  · rename_i hcut
    rw [if_neg hcut]
    exact (Except.ok.inj hnext).symm

theorem append_grows (h : held.append line = .ok next) :
    held.frame.raw <+: next.frame.raw ∧ held.frame.message <+: next.frame.message := by
  by_cases hstop : held.continuations = maxContinuationLines
  · rw [append_stopped hstop] at h
    cases h
    exact ⟨List.prefix_rfl, List.prefix_rfl⟩
  · obtain ⟨raw, rawCut, message, messageCut, hraw, hmessage, rfl⟩ := append_taken hstop h
    split
    · exact ⟨hraw.grows, hmessage.grows⟩
    · exact ⟨hraw.grows, hmessage.grows⟩

end Lines

/-! ## Whole or marked -/

/-- Nothing is missing of the root and of the lines that continue it. -/
def Complete (root : LogFrame) (lines : List Text) (frame : LogFrame) : Prop :=
  frame.raw = root.raw ++ marked lines ∧ frame.message = root.message ++ marked lines ∧
    frame.target = root.target ∧ frame.timestamp = root.timestamp ∧ frame.fields = root.fields

/-- The texts lead what they are made of, and the frame says whether something is
missing. -/
structure Faithful (root : LogFrame) (lines : List Text) (frame : LogFrame) : Prop where
  raw : frame.raw <+: root.raw ++ marked lines
  message : frame.message <+: root.message ++ marked lines
  tells : frame.truncated = true ↔ ¬Complete root lines frame

/-- The cut of a text at its cap, which a character stands across, leaves room that
the next line uses. -/
def Spills (text line : Text) : Prop :=
  maxLogTextBytes < size text ∧ size (fitting text maxLogTextBytes) < maxLogTextBytes ∧
    (line = [] ∨
      fitting line (maxLogTextBytes - size (fitting text maxLogTextBytes) - 1) ≠ [])

/-- The line behind the root does not spill into the room that a cut left. -/
def Flush (root : LogFrame) (lines : List Text) : Prop :=
  ∀ line, lines.head? = some line → ¬Spills root.raw line ∧ ¬Spills root.message line

section Whole

variable {root : LogFrame} {lines : List Text} {line text kept : Text} {cut : Bool}
  {held next : Pending}

theorem fitting_eq_self {n : Nat} : fitting text n = text ↔ size text ≤ n := by
  constructor
  · intro h
    rw [← h]
    exact size_fitting_le text n
  · exact fitting_of_size_le

theorem fitting_ne {n : Nat} (h : n < size text) (more : Text) : fitting text n ≠ text ++ more := by
  intro heq
  have hle := size_fitting_le text n
  rw [heq, size_append] at hle
  omega

theorem bounded_fields_eq {fields : List LogField} :
    (fields.take maxLogFields).map LogField.bounded = fields ↔
      fields.length ≤ maxLogFields ∧ (fields.take maxLogFields).any LogField.overlong = false := by
  have hfield (field : LogField) : field.bounded = field ↔ field.overlong = false := by
    obtain ⟨key, value⟩ := field
    simp [LogField.bounded, LogField.overlong, fitting_eq_self]
  by_cases hlen : fields.length ≤ maxLogFields
  · simp only [hlen, true_and, List.take_of_length_le hlen, List.any_eq_false, Bool.not_eq_true]
    have hmap : fields.map LogField.bounded = fields ↔ ∀ field ∈ fields, field.bounded = field := by
      simpa using @List.map_eq_map_iff _ _ LogField.bounded fields id
    rw [hmap]
    exact forall₂_congr fun field _ => hfield field
  · simp only [hlen, false_and, iff_false]
    intro heq
    have hlength := congrArg List.length heq
    simp only [List.length_map, List.length_take] at hlength
    omega

/-- Nothing but the message and the raw line is cut exactly when nothing else is over
its cap. -/
theorem rest_complete : root.overlong = false ↔ root.bounded.target = root.target ∧
    root.bounded.timestamp = root.timestamp ∧ root.bounded.fields = root.fields := by
  have htarget : root.bounded.target = root.target ↔
      (root.target.any fun t => decide (maxLogTargetBytes < size t)) = false := by
    cases hroot : root.target <;> simp [LogFrame.bounded, hroot, fitting_eq_self]
  have htimestamp : root.bounded.timestamp = root.timestamp ↔
      (root.timestamp.any fun t => decide (maxLogTimestampRawBytes < size t.raw)) = false := by
    cases hroot : root.timestamp with
    | none => simp [LogFrame.bounded, hroot]
    | some timestamp =>
      obtain ⟨raw, unixMs, inferred⟩ := timestamp
      simp [LogFrame.bounded, hroot, fitting_eq_self]
  have hfields : root.bounded.fields = root.fields ↔ root.fields.length ≤ maxLogFields ∧
      (root.fields.take maxLogFields).any LogField.overlong = false := bounded_fields_eq
  rw [htarget, htimestamp, hfields]
  simp only [LogFrame.overlong, Bool.or_eq_false_iff, decide_eq_false_iff_not, Nat.not_lt,
    and_assoc]

/-- How a record goes on: every text whole, or the root cut, or something left behind
for good. -/
inductive Growth (root : LogFrame) (lines : List Text) (held : Pending) : Prop
  | whole : size root.raw ≤ maxLogTextBytes → size root.message ≤ maxLogTextBytes →
      held.frame = { root.bounded with
        raw := root.raw ++ marked lines, message := root.message ++ marked lines } →
      Growth root lines held
  | cut : lines = [] → held = ⟨root.bounded, 0⟩ →
      maxLogTextBytes < size root.raw ∨ maxLogTextBytes < size root.message →
      Growth root lines held
  | stopped : held.continuations = maxContinuationLines → held.frame.truncated = true →
      held.frame.raw <+: root.raw ++ marked lines →
      held.frame.message <+: root.message ++ marked lines →
      ¬(held.frame.raw = root.raw ++ marked lines ∧
        held.frame.message = root.message ++ marked lines) →
      Growth root lines held

theorem growth_root : Growth root [] ⟨root.bounded, 0⟩ := by
  by_cases hraw : size root.raw ≤ maxLogTextBytes
  · by_cases hmessage : size root.message ≤ maxLogTextBytes
    · refine .whole hraw hmessage ?_
      simp [LogFrame.bounded, fitting_of_size_le hraw, fitting_of_size_le hmessage]
    · exact .cut rfl rfl (.inr (by omega))
  · exact .cut rfl rfl (.inl (by omega))

/-- A cut text that has no room for the next line stays as it is. -/
theorem Appended.stuck (h : Appended (fitting text maxLogTextBytes) line maxLogTextBytes kept cut)
    (ht : maxLogTextBytes < size text) (hs : ¬Spills text line) :
    kept = fitting text maxLogTextBytes ∧ cut = true := by
  have hno (hroom : size (fitting text maxLogTextBytes) < maxLogTextBytes) :
      line ≠ [] ∧
        fitting line (maxLogTextBytes - size (fitting text maxLogTextBytes) - 1) = [] := by
    constructor
    · intro hline
      exact hs ⟨ht, hroom, .inl hline⟩
    · by_contra hne
      exact hs ⟨ht, hroom, .inr hne⟩
  cases h with
  | whole hle =>
    have hroom : size (fitting text maxLogTextBytes) < maxLogTextBytes := by omega
    obtain ⟨hline, hnone⟩ := hno hroom
    rw [fitting_of_size_le (by omega)] at hnone
    exact absurd hnone hline
  | part hroom hsome _ => exact absurd (hno hroom).2 hsome
  | full _ => exact ⟨rfl, rfl⟩

/-- One line more: what is whole grows, or stops with something left behind. -/
theorem Growth.append (h : Growth root lines held)
    (hflush : lines = [] → ¬Spills root.raw line ∧ ¬Spills root.message line)
    (hnext : held.append line = .ok next) : Growth root (lines ++ [line]) next := by
  have hmarked : marked (lines ++ [line]) = marked lines ++ '\n' :: line := by simp
  by_cases hstop : held.continuations = maxContinuationLines
  · rw [append_stopped hstop] at hnext
    cases hnext
    have behind {text : Text} (hlead : text <+: root.raw ++ marked lines) :
        text <+: root.raw ++ marked (lines ++ [line]) ∧
          text ≠ root.raw ++ marked (lines ++ [line]) := by
      rw [hmarked, ← List.append_assoc]
      refine ⟨hlead.trans (List.prefix_append _ _), ?_⟩
      intro heq
      have hlength := hlead.length_le
      simp only [heq, List.length_append, List.length_cons] at hlength
      omega
    have leads {text whole : Text} (hlead : text <+: whole ++ marked lines) :
        text <+: whole ++ marked (lines ++ [line]) := by
      rw [hmarked, ← List.append_assoc]
      exact hlead.trans (List.prefix_append _ _)
    cases h with
    | whole hraw hmessage hframe =>
      have hrawEq : held.frame.raw = root.raw ++ marked lines := by rw [hframe]
      have hmessageEq : held.frame.message = root.message ++ marked lines := by rw [hframe]
      exact .stopped hstop rfl (behind (hrawEq ▸ List.prefix_rfl)).1
        (leads (hmessageEq ▸ List.prefix_rfl)) fun hall =>
          (behind (hrawEq ▸ List.prefix_rfl)).2 hall.1
    | cut _ hheld _ =>
      simp [hheld, maxContinuationLines] at hstop
    | stopped _ _ hraw hmessage _ =>
      exact .stopped hstop rfl (behind hraw).1 (leads hmessage) fun hall => (behind hraw).2 hall.1
  · obtain ⟨raw, rawCut, message, messageCut, hraw, hmessage, rfl⟩ := append_taken hstop hnext
    cases h with
    | whole hrawFits hmessageFits hframe =>
      rw [hframe] at hraw hmessage
      obtain ⟨hrawLeads, hrawCut⟩ := hraw.leads
      obtain ⟨hmessageLeads, hmessageCut⟩ := hmessage.leads
      rw [List.append_assoc, ← hmarked] at hrawLeads hrawCut hmessageLeads hmessageCut
      by_cases hany : (rawCut || messageCut) = true
      · rw [if_pos hany]
        refine .stopped rfl rfl hrawLeads hmessageLeads ?_
        intro hall
        rcases Bool.or_eq_true _ _ ▸ hany with hc | hc
        · exact hrawCut.1 hc hall.1
        · exact hmessageCut.1 hc hall.2
      · rw [if_neg hany]
        simp only [Bool.or_eq_true, not_or] at hany
        have hrawWhole : raw = root.raw ++ marked (lines ++ [line]) := by
          by_contra hne
          exact hany.1 (hrawCut.2 hne)
        have hmessageWhole : message = root.message ++ marked (lines ++ [line]) := by
          by_contra hne
          exact hany.2 (hmessageCut.2 hne)
        exact .whole hrawFits hmessageFits (by rw [hframe, hrawWhole, hmessageWhole])
    | cut hlines hheld hover =>
      obtain ⟨hrawFlush, hmessageFlush⟩ := hflush hlines
      subst hlines hheld
      -- a text that was cut stays, the other one takes what it can
      have text {text kept : Text} {cut : Bool} (hflush : ¬Spills text line)
          (h : Appended (fitting text maxLogTextBytes) line maxLogTextBytes kept cut) :
          kept <+: text ++ marked [line] ∧ (maxLogTextBytes < size text →
            cut = true ∧ kept ≠ text ++ marked [line]) := by
        by_cases hover : maxLogTextBytes < size text
        · obtain ⟨rfl, rfl⟩ := h.stuck hover hflush
          exact ⟨(fitting_start text _).trans (List.prefix_append _ _),
            fun _ => ⟨rfl, fitting_ne hover _⟩⟩
        · rw [fitting_of_size_le (by omega)] at h
          exact ⟨by simpa using h.leads.1, fun hlt => absurd hlt hover⟩
      obtain ⟨hrawLeads, hrawOver⟩ := text hrawFlush hraw
      obtain ⟨hmessageLeads, hmessageOver⟩ := text hmessageFlush hmessage
      have hany : (rawCut || messageCut) = true := by
        rcases hover with hover | hover
        · simp [(hrawOver hover).1]
        · simp [(hmessageOver hover).1]
      rw [if_pos hany]
      refine .stopped rfl rfl hrawLeads hmessageLeads ?_
      intro hall
      rcases hover with hover | hover
      · exact (hrawOver hover).2 hall.1
      · exact (hmessageOver hover).2 hall.2
    | stopped hstopped _ _ _ _ => exact absurd hstopped hstop

theorem growth_of_flush (hflush : Flush root lines) (h : record root lines = .ok held) :
    Growth root lines held := by
  induction lines using List.reverseRecOn generalizing held with
  | nil =>
    rw [record_nil] at h
    cases h
    exact growth_root
  | append_singleton lines line ih =>
    obtain ⟨before, hbefore, hnext⟩ := record_snoc_ok h
    refine (ih ?_ hbefore).append ?_ hnext
    · intro first hfirst
      exact hflush first (by rw [List.head?_append, hfirst]; rfl)
    · rintro rfl
      exact hflush line rfl

theorem Growth.faithful (h : Growth root lines held) (hroot : root.truncated = false) :
    Faithful root lines held.frame := by
  cases h with
  | whole hraw hmessage hframe =>
    rw [hframe]
    refine ⟨List.prefix_rfl, List.prefix_rfl, ?_⟩
    have htruncated : root.bounded.truncated = root.overlong := by
      simp [LogFrame.bounded, hroot, hraw, hmessage]
    simp only [Complete, htruncated, true_and, ← rest_complete, Bool.not_eq_false]
  | cut hlines hheld hover =>
    subst hlines hheld
    refine ⟨(fitting_start _ _).trans (List.prefix_append _ _),
      (fitting_start _ _).trans (List.prefix_append _ _), ?_⟩
    have hmark : root.bounded.truncated = true := by
      rcases hover with hover | hover
      · simp [LogFrame.bounded, hover]
      · simp [LogFrame.bounded, hover]
    simp only [hmark, true_iff]
    intro hall
    rcases hover with hover | hover
    · exact fitting_ne hover _ hall.1
    · exact fitting_ne hover _ hall.2.1
  | stopped _ hmark hraw hmessage hshort =>
    refine ⟨hraw, hmessage, ?_⟩
    simp only [hmark, true_iff]
    exact fun hall => hshort ⟨hall.1, hall.2.1⟩

theorem record_grows {rest : List Text} (h : record root (lines ++ rest) = .ok held) :
    ∃ before, record root lines = .ok before ∧ before.frame.raw <+: held.frame.raw ∧
      before.frame.message <+: held.frame.message := by
  induction rest using List.reverseRecOn generalizing held with
  | nil => exact ⟨held, by simpa using h, List.prefix_rfl, List.prefix_rfl⟩
  | append_singleton rest line ih =>
    rw [← List.append_assoc] at h
    obtain ⟨last, hlast, hnext⟩ := record_snoc_ok h
    obtain ⟨before, hbefore, hraw, hmessage⟩ := ih hlast
    obtain ⟨hrawGrows, hmessageGrows⟩ := append_grows hnext
    exact ⟨before, hbefore, hraw.trans hrawGrows, hmessage.trans hmessageGrows⟩

/-- Behind a cut that leaves room stands a newline where the text has a character of
several bytes. -/
theorem Spills.hole {final more : Text} (hs : Spills text line)
    (h : Appended (fitting text maxLogTextBytes) line maxLogTextBytes kept cut)
    (hfinal : kept <+: final) : ¬final <+: text ++ more := by
  obtain ⟨hover, hroom, huse⟩ := hs
  have hnewline : fitting text maxLogTextBytes ++ ['\n'] <+: kept := by
    cases h with
    | whole _ => exact ⟨line, by simp⟩
    | part _ _ _ => exact ⟨_, List.append_assoc _ _ _⟩
    | full hfull =>
      rcases hfull with hfull | ⟨hline, hnone⟩
      · omega
      · rcases huse with huse | huse
        · exact absurd huse hline
        · exact absurd hnone huse
  obtain ⟨c, rest, htext, hc⟩ := fitting_rest hover
  intro hlead
  have hsplit : text ++ more = fitting text maxLogTextBytes ++ (c :: (rest ++ more)) := by
    calc text ++ more = (fitting text maxLogTextBytes ++ c :: rest) ++ more := by rw [← htext]
      _ = fitting text maxLogTextBytes ++ (c :: (rest ++ more)) := by simp
  have hclash := (hnewline.trans hfinal).trans hlead
  rw [hsplit] at hclash
  have hhead := (List.prefix_append_right_inj _).1 hclash
  obtain ⟨rfl, -⟩ := List.cons_prefix_cons.1 hhead
  have hsize : '\n'.utf8Size = 1 := rfl
  omega

theorem not_faithful (hspill : ¬Flush root lines) (h : record root lines = .ok held) :
    ¬Faithful root lines held.frame := by
  simp only [Flush, not_forall] at hspill
  obtain ⟨line, hline, hspill⟩ := hspill
  obtain ⟨rest, rfl⟩ : ∃ rest, lines = line :: rest := by
    cases lines with
    | nil => cases hline
    | cons first rest =>
      cases hline
      exact ⟨rest, rfl⟩
  obtain ⟨first, hfirst, hrawGrows, hmessageGrows⟩ := record_grows (show record root ([line] ++ rest) = .ok held from h)
  obtain ⟨start, hstart, happend⟩ := record_snoc_ok (show record root ([] ++ [line]) = .ok first from hfirst)
  rw [record_nil] at hstart
  cases hstart
  obtain ⟨raw, rawCut, message, messageCut, hraw, hmessage, rfl⟩ :=
    append_taken (by simp [maxContinuationLines]) happend
  have hrawKept : raw <+: held.frame.raw := by
    split at hrawGrows <;> exact hrawGrows
  have hmessageKept : message <+: held.frame.message := by
    split at hmessageGrows <;> exact hmessageGrows
  intro hfaithful
  by_cases hs : Spills root.raw line
  · exact hs.hole hraw hrawKept hfaithful.raw
  · have hs' : Spills root.message line := by
      by_contra hs'
      exact hspill ⟨hs, hs'⟩
    exact hs'.hole hmessage hmessageKept hfaithful.message

end Whole

/-- The record of a line and its continuations has leading parts of their texts and
says so exactly when the first continuation does not spill into the room behind a cut
of the line. -/
theorem truncation_faithful_iff {chrono : Chrono} {p : LogParser} {push : Push} {root : LogFrame}
    (hroot : Opens chrono p push root) (lines : List Text) :
    (∃ held, record root lines = .ok held ∧ Faithful root lines held.frame) ↔
      Flush root lines := by
  constructor
  · intro h
    obtain ⟨held, hheld, hfaithful⟩ := h
    by_contra hspill
    exact not_faithful hspill hheld hfaithful
  · intro hflush
    obtain ⟨held, hheld⟩ := record_returns root lines
    exact ⟨held, hheld, (growth_of_flush hflush hheld).faithful hroot.truncated⟩

/-- A root that was not cut leaves no room behind a cut. -/
theorem flush_of_size_le {root : LogFrame} {lines : List Text}
    (hraw : size root.raw ≤ maxLogTextBytes) (hmessage : size root.message ≤ maxLogTextBytes) :
    Flush root lines := by
  intro line _
  constructor
  · intro hs
    exact absurd hs.1 (by omega)
  · intro hs
    exact absurd hs.1 (by omega)

/-- A line on stderr at a fixed instant, and the record that it opens. -/
def errorPush (line : Text) : Push := ⟨.stderr, line, ⟨1785283200, 0, 28800⟩⟩

def errorRoot (line : Text) : LogFrame where
  at_ := 1785283200000
  epoch := 1
  kind := .clashPremium
  stream := .stderr
  level := .error
  timestamp := none
  target := none
  message := line
  fields := []
  raw := line
  truncated := false

theorem errorRoot_opens {line : Text} (hplain : stripAnsi line = .ok line)
    (herror : "Error:".toList.isPrefixOf line = true) :
    Opens bareChrono (LogParser.new .clashPremium 1) (errorPush line) (errorRoot line) := by
  have hline : plainLine line = line := by rw [plainLine, hplain]
  have hhead : premiumHead bareChrono line = none := by
    simp only [premiumHead]
    split
    · rfl
    · cases hraw : getTo line 8 with
      | none => rfl
      | some rawTime => rfl
  have hheader : (LogParser.new .clashPremium 1).parseHeader bareChrono
      (plainLine (errorPush line).line) (errorPush line).observedAt =
        .ok (none, LogParser.new .clashPremium 1) := by
    simp only [errorPush, hline, LogParser.parseHeader, LogParser.new, parsePremium, hhead,
      Checked.pure_eq, Checked.ok_bind]
  have hopens := Opens.plain hheader
  simp only [errorPush, hline, herror, LogParser.plainLevel, if_true] at hopens
  exact hopens

/-- An error and a line that explains it. -/
theorem short_error_faithful : ∃ held,
    record (errorRoot "Error: invalid config".toList) ["proxies: [[[".toList] = .ok held ∧
      Faithful (errorRoot "Error: invalid config".toList) ["proxies: [[[".toList] held.frame :=
  (truncation_faithful_iff (errorRoot_opens (by decide +kernel) (by decide)) _).2
    (flush_of_size_le (by decide) (by decide))

/-- An error of one byte more than the cap, whose last character stands across it. -/
def overlongError : Text := "Error:".toList ++ (List.replicate 16377 'a' ++ ['é'])

theorem overlongError_eq :
    overlongError = "Error:".toList ++ (List.replicate 16377 'a' ++ ['é']) := rfl

theorem overlongError_plain : stripAnsi overlongError = .ok overlongError := by
  have hnone : 0x1b ∉ encode overlongError := by
    have hstart : 0x1b ∉ encode "Error:".toList := by decide
    have hlast : 0x1b ∉ encode ['é'] := by decide
    have hmiddle : 0x1b ∉ encode (List.replicate 16377 'a') := by
      intro hmem
      obtain ⟨c, hc, hbyte⟩ := List.mem_flatMap.1 hmem
      obtain rfl := List.eq_of_mem_replicate hc
      exact absurd hbyte (by decide)
    simp only [overlongError_eq, encode_append, List.mem_append, not_or]
    exact ⟨hstart, hmiddle, hlast⟩
  simp [stripAnsi, hnone]

/-- The cut leaves one byte, which the newline of an empty line takes. -/
theorem overlongError_spills : Spills overlongError [] := by
  have hstart : size "Error:".toList = 6 := by decide
  have hlast : 'é'.utf8Size = 2 := by decide
  have ha : 'a'.utf8Size = 1 := by decide
  have hsize : size overlongError = 16385 := by
    simp only [overlongError_eq, size_append, size_replicate, size_cons, size_nil, hstart, hlast, ha]
  have hfront : size (fitting overlongError maxLogTextBytes) = 16383 := by
    have hcap : maxLogTextBytes = 16384 := rfl
    rw [overlongError_eq, hcap, fitting_append (by rw [hstart]; omega), fitting_append
      (by rw [size_replicate, hstart, ha]; omega)]
    simp only [size_append, size_replicate, hstart, ha, fitting, hlast]
    decide
  refine ⟨?_, ?_, .inl rfl⟩
  · rw [hsize]
    decide
  · rw [hfront]
    decide

/-- The newline of an empty line stands where the cut error goes on with a character. -/
theorem cut_error_continued :
    Opens bareChrono (LogParser.new .clashPremium 1) (errorPush overlongError)
      (errorRoot overlongError) ∧
    ∃ held, record (errorRoot overlongError) [[]] = .ok held ∧
      ¬Faithful (errorRoot overlongError) [[]] held.frame := by
  constructor
  · exact errorRoot_opens overlongError_plain (List.isPrefixOf_iff_prefix.2 (List.prefix_append _ _))
  obtain ⟨held, hheld⟩ := record_returns (errorRoot overlongError) [[]]
  refine ⟨held, hheld, not_faithful ?_ hheld⟩
  intro hflush
  exact (hflush [] rfl).1 overlongError_spills

end Chimera.Log
