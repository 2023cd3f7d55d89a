import Chimera.Log.Parser

/-! What the caps do to a record: every text is cut to its longest leading part that
fits, and the record says so. None of it can panic. -/

namespace Chimera.Log
open Chimera.Model Chimera.Lib.Utf8

section Texts

variable {text line : Text} {maxBytes : Nat}

@[simp] theorem Checked.ok_bind {α β : Type} (a : α) (f : α → Checked β) :
    ((Except.ok a : Checked α) >>= f) = f a := rfl

@[simp] theorem Checked.pure_eq {α : Type} (a : α) : (pure a : Checked α) = .ok a := rfl

theorem sliceTo_leading {a : Text} (h : a <+: text) : sliceTo text (size a) = .ok a := by
  obtain ⟨b, rfl⟩ := h
  simp [sliceTo]

/-- Counting down from anywhere ends at the last boundary before it. -/
theorem charBoundaryAtOrBelow_eq (text : Text) (n : Nat) :
    charBoundaryAtOrBelow text n = .ok (size (fitting text n)) := by
  induction n with
  | zero =>
    have hzero : size (fitting text 0) = 0 := Nat.le_zero.1 (size_fitting_le text 0)
    simp [charBoundaryAtOrBelow, hzero]
  | succ n ih =>
    have hle := size_fitting_le text (n + 1)
    by_cases h : isBoundary text (n + 1) = true
    · obtain ⟨kept, hp, hs, -⟩ := getTo_of_isBoundary h
      have hkept := size_le_of_prefix (prefix_fitting hp (le_of_eq hs))
      have hsize : size (fitting text (n + 1)) = n + 1 := by omega
      simp [charBoundaryAtOrBelow, h, hsize]
    · have hne : size (fitting text (n + 1)) ≠ n + 1 := by
        intro hsize
        exact h (hsize ▸ isBoundary_of_start (fitting_start text (n + 1)))
      have hlong := prefix_fitting (fitting_start text (n + 1)) (n := n) (by omega)
      have hshort := prefix_fitting (fitting_start text n) (n := n + 1)
        (Nat.le_succ_of_le (size_fitting_le text n))
      have hsame : fitting text (n + 1) = fitting text n :=
        hlong.eq_of_length_le hshort.length_le
      simp [charBoundaryAtOrBelow, h, ih, hsame]

theorem truncateText_eq (text : Text) (maxBytes : Nat) :
    truncateText text maxBytes = .ok (fitting text maxBytes, decide (maxBytes < size text)) := by
  by_cases h : size text ≤ maxBytes
  · simp [truncateText, h, fitting_of_size_le h]
  · simp [truncateText, h, charBoundaryAtOrBelow_eq, sliceTo_leading (fitting_start text maxBytes),
      Nat.lt_of_not_le h]

/-- How a line is appended: whole behind its newline, in part, or not at all. -/
inductive Appended (text line : Text) (maxBytes : Nat) : Text → Bool → Prop
  | whole : size text + 1 + size line ≤ maxBytes →
      Appended text line maxBytes (text ++ '\n' :: line) false
  | part : size text < maxBytes → fitting line (maxBytes - size text - 1) ≠ [] →
      maxBytes < size text + 1 + size line →
      Appended text line maxBytes (text ++ '\n' :: fitting line (maxBytes - size text - 1)) true
  | full : maxBytes ≤ size text ∨ line ≠ [] ∧ fitting line (maxBytes - size text - 1) = [] →
      Appended text line maxBytes text true

theorem appendBounded_eq (text line : Text) (maxBytes : Nat) :
    ∃ kept cut, appendBounded text line maxBytes = .ok (kept, cut) ∧
      Appended text line maxBytes kept cut := by
  unfold appendBounded
  split
  · rename_i hfull
    exact ⟨text, true, rfl, .full (.inl hfull)⟩
  rename_i hroom
  split
  · rename_i hempty
    obtain rfl := List.isEmpty_iff.1 hempty
    exact ⟨_, false, rfl, .whole (by simp only [size_nil]; omega)⟩
  rename_i hline
  rw [List.isEmpty_iff] at hline
  have hfirst : checkedSub maxBytes (size text) = .ok (maxBytes - size text) :=
    if_pos (by omega)
  have hbudget : checkedSub (maxBytes - size text) 1 = .ok (maxBytes - size text - 1) :=
    if_pos (by omega)
  -- the smaller of budget and length cuts as the budget does
  have hmin : fitting line (min (maxBytes - size text - 1) (size line)) =
      fitting line (maxBytes - size text - 1) := by
    by_cases hfits : size line ≤ maxBytes - size text - 1
    · rw [Nat.min_eq_right hfits, fitting_of_size_le le_rfl, fitting_of_size_le hfits]
    · rw [Nat.min_eq_left (by omega)]
  simp only [hfirst, hbudget, charBoundaryAtOrBelow_eq, hmin, Checked.ok_bind, size_eq_zero,
    sliceTo_leading (fitting_start line _)]
  by_cases hnone : fitting line (maxBytes - size text - 1) = []
  · exact ⟨text, true, by simp [hnone], .full (.inr ⟨hline, hnone⟩)⟩
  by_cases hfits : size line ≤ maxBytes - size text - 1
  · refine ⟨text ++ '\n' :: line, false, ?_, .whole (by omega)⟩
    simp [fitting_of_size_le hfits, hline]
  · have hle := size_fitting_le line (maxBytes - size text - 1)
    have hcut : size (fitting line (maxBytes - size text - 1)) < size line := by omega
    refine ⟨_, true, ?_, .part (by omega) hnone (by omega)⟩
    simp [hnone, hcut]

end Texts

/-! ## Frames -/

section Frames

def LogField.bounded (field : LogField) : LogField :=
  ⟨fitting field.key maxLogFieldTextBytes, fitting field.value maxLogFieldTextBytes⟩

def LogField.overlong (field : LogField) : Bool :=
  decide (maxLogFieldTextBytes < size field.key) || decide (maxLogFieldTextBytes < size field.value)

theorem boundFields_eq (fields : List LogField) :
    boundFields fields = .ok (fields.map LogField.bounded, fields.any LogField.overlong) := by
  induction fields with
  | nil => rfl
  | cons field rest ih =>
    simp [boundFields, boundField, truncateText_eq, ih, LogField.bounded, LogField.overlong]

theorem boundTarget_eq (target : Option Text) : boundTarget target =
    .ok (target.map (fitting · maxLogTargetBytes),
      target.any fun t => decide (maxLogTargetBytes < size t)) := by
  cases target <;> simp [boundTarget, truncateText_eq]

theorem boundTimestamp_eq (timestamp : Option LogTimestamp) : boundTimestamp timestamp =
    .ok (timestamp.map fun t => { t with raw := fitting t.raw maxLogTimestampRawBytes },
      timestamp.any fun t => decide (maxLogTimestampRawBytes < size t.raw)) := by
  cases timestamp <;> simp [boundTimestamp, truncateText_eq]

/-- Something of the frame besides its message and raw is over its cap. -/
def LogFrame.overlong (frame : LogFrame) : Bool :=
  (frame.target.any fun t => decide (maxLogTargetBytes < size t)) ||
    (frame.timestamp.any fun t => decide (maxLogTimestampRawBytes < size t.raw)) ||
    decide (maxLogFields < frame.fields.length) ||
    (frame.fields.take maxLogFields).any LogField.overlong

/-- A frame within its caps. -/
def LogFrame.bounded (frame : LogFrame) : LogFrame :=
  { frame with
    message := fitting frame.message maxLogTextBytes
    raw := fitting frame.raw maxLogTextBytes
    target := frame.target.map (fitting · maxLogTargetBytes)
    timestamp := frame.timestamp.map fun t => { t with raw := fitting t.raw maxLogTimestampRawBytes }
    fields := (frame.fields.take maxLogFields).map LogField.bounded
    truncated := frame.truncated || decide (maxLogTextBytes < size frame.message) ||
      decide (maxLogTextBytes < size frame.raw) || frame.overlong }

theorem boundFrame_eq (frame : LogFrame) : boundFrame frame = .ok frame.bounded := by
  simp only [boundFrame, truncateText_eq, boundTarget_eq, boundTimestamp_eq, boundFields_eq,
    Checked.ok_bind, Checked.pure_eq, LogFrame.bounded, LogFrame.overlong, Bool.or_assoc]

/-- A frame that is not marked has its whole text. -/
theorem LogFrame.bounded_raw {frame : LogFrame} (h : frame.bounded.truncated = false) :
    frame.bounded.raw = frame.raw := by
  simp only [LogFrame.bounded, Bool.or_eq_false_iff, decide_eq_false_iff_not, Nat.not_lt] at h
  exact fitting_of_size_le h.1.2

theorem Pending.append_eq (p : Pending) (line : Text) :
    ∃ q, p.append line = .ok q ∧ q.frame.stream = p.frame.stream ∧
      (q.frame.truncated = false →
        p.frame.truncated = false ∧ q.frame.raw = p.frame.raw ++ '\n' :: line) := by
  unfold Pending.append
  split
  · exact ⟨_, rfl, rfl, nofun⟩
  obtain ⟨raw, rawCut, hraw, hwhole⟩ := appendBounded_eq p.frame.raw line maxLogTextBytes
  obtain ⟨message, messageCut, hmessage, -⟩ :=
    appendBounded_eq p.frame.message line maxLogTextBytes
  simp only [hraw, hmessage, Checked.ok_bind]
  split
  · exact ⟨_, rfl, rfl, nofun⟩
  · rename_i hcut
    simp only [Bool.or_eq_true, not_or, Bool.not_eq_true] at hcut
    refine ⟨_, rfl, rfl, fun ht => ⟨ht, ?_⟩⟩
    cases hwhole with
    | whole _ => rfl
    | part _ _ _ => exact absurd hcut.1 (by simp)
    | full _ => exact absurd hcut.1 (by simp)

end Frames

end Chimera.Log
