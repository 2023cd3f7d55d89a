import Mathlib.Data.Bool.AllAny
import Chimera.Lib.Fields
import Chimera.Log.Header

/-! The scanner of logfmt lines reads back what was written: quoted values with
their escapes, bare values as they stand, and any whitespace between the fields. -/

namespace Chimera.Log
open Chimera.Lib.Utf8

/-! ## Writing -/

def asciiWhitespace : List Char := [' ', '\t', '\n', '\x0c', '\r']

/-- A character of a quoted value. -/
def escapeChar : Char → Text
  | '\\' => ['\\', '\\']
  | '"' => ['\\', '"']
  | '\n' => ['\\', 'n']
  | '\r' => ['\\', 'r']
  | '\t' => ['\\', 't']
  | c => [c]

def quote (value : Text) : Text := '"' :: value.flatMap escapeChar ++ ['"']

/-- A field as it is written, quoted or bare, with the whitespace behind it. -/
structure WrittenField where
  key : Text
  value : Text
  quoted : Bool
  gap : Text

def WrittenField.pair (field : WrittenField) : Text × Text := (field.key, field.value)

def WrittenField.text (field : WrittenField) : Text :=
  field.key ++ '=' :: (if field.quoted then quote field.value else field.value)

/-- A line, with the whitespace before its first field. -/
def writtenLine (lead : Text) : List WrittenField → Text
  | [] => lead
  | field :: fields => lead ++ (field.text ++ writtenLine field.gap fields)

def Blank (gap : Text) : Prop := ∀ c ∈ gap, c ∈ asciiWhitespace

instance {gap : Text} : Decidable (Blank gap) := List.decidableBAll _ gap

/-- The key is one, and so is a value that is written bare. -/
structure WrittenField.Plain (field : WrittenField) : Prop where
  key_ne : field.key ≠ []
  key : ∀ c ∈ field.key, c ≠ '=' ∧ c ∉ asciiWhitespace
  bare_ne : field.quoted = false → field.value ≠ []
  bare : field.quoted = false → ∀ c ∈ field.value, c ∉ asciiWhitespace
  bare_head : field.quoted = false → field.value.head? ≠ some '"'
  gap : Blank field.gap

/-- Whitespace stands between two fields; behind the last one it may be missing. -/
def Separated (fields : List WrittenField) : Prop := ∀ field ∈ fields.dropLast, field.gap ≠ []

instance {fields : List WrittenField} : Decidable (Separated fields) :=
  List.decidableBAll _ fields.dropLast

/-! ## Bytes -/

section Bytes

variable {t gap key value : Text} {c : Char} {byte : UInt8} {l rest : List UInt8}

theorem mem_of_mem_encode (hc : String.utf8EncodeChar c = [byte]) (hbyte : byte < 0x80)
    (h : byte ∈ encode t) : c ∈ t := by
  obtain ⟨front, after, hsplit⟩ := List.append_of_mem h
  obtain ⟨front, after, rfl, -⟩ := encode_ascii hc hbyte hsplit
  exact List.mem_append_right front List.mem_cons_self

/-- The whitespace bytes are the whitespace characters. -/
theorem whitespace_byte (byte : UInt8) : isAsciiWhitespace byte = true ↔
    ∃ c ∈ asciiWhitespace, String.utf8EncodeChar c = [byte] := by
  rw [← List.any_iff_exists_prop]
  revert byte
  refine Chimera.Lib.Fields.forall_byte ?_
  decide +kernel

theorem not_whitespace (h : ∀ c ∈ t, c ∉ asciiWhitespace) :
    ∀ byte ∈ encode t, isAsciiWhitespace byte = false := by
  intro byte hbyte
  by_contra hws
  rw [Bool.not_eq_false] at hws
  obtain ⟨c, hc, hcbyte⟩ := (whitespace_byte byte).1 hws
  have hlow : byte < 0x80 := by
    simp only [isAsciiWhitespace, Bool.or_eq_true, decide_eq_true_eq] at hws
    rcases hws with (((rfl | rfl) | rfl) | rfl) | rfl <;> decide
  exact h c (mem_of_mem_encode hcbyte hlow hbyte) hc

theorem blank_bytes (h : Blank gap) : ∀ byte ∈ encode gap, isAsciiWhitespace byte = true := by
  intro byte hbyte
  obtain ⟨c, hc, hbyte⟩ := List.mem_flatMap.1 hbyte
  have single : ∀ c ∈ asciiWhitespace, ∃ b, String.utf8EncodeChar c = [b] := by
    intro c hc
    simp only [asciiWhitespace, List.mem_cons, List.not_mem_nil, or_false] at hc
    rcases hc with rfl | rfl | rfl | rfl | rfl <;> exact ⟨_, rfl⟩
  obtain ⟨b, hb⟩ := single c (h c hc)
  rw [hb, List.mem_singleton] at hbyte
  rw [hbyte]
  exact (whitespace_byte b).2 ⟨c, h c hc, hb⟩

/-! ## Reading -/

theorem scanKey_append (h : ∀ byte ∈ l, byte ≠ 0x3d ∧ isAsciiWhitespace byte = false) :
    scanKey (l ++ 0x3d :: rest) = some (l, rest) := by
  induction l with
  | nil => rfl
  | cons byte l ih =>
    obtain ⟨hne, hws⟩ := h byte List.mem_cons_self
    rw [List.cons_append, scanKey, if_neg hne, hws, ih fun b hb => h b (List.mem_cons_of_mem _ hb)]
    rfl

theorem scanQuoted_plain (h : ∀ byte ∈ l, byte ≠ 0x22 ∧ byte ≠ 0x5c) :
    scanQuoted (l ++ rest) = (scanQuoted rest).map fun (value, rest) => (l ++ value, rest) := by
  induction l with
  | nil => simp
  | cons byte l ih =>
    obtain ⟨hquote, hslash⟩ := h byte List.mem_cons_self
    have hstep : scanQuoted (byte :: (l ++ rest)) =
        (scanQuoted (l ++ rest)).map fun (value, rest) => (byte :: value, rest) := by
      simp only [scanQuoted]
    rw [List.cons_append, hstep, ih fun b hb => h b (List.mem_cons_of_mem _ hb), Option.map_map]
    rfl

/-- One character of a quoted value, whatever follows it. -/
theorem scanQuoted_escapeChar (c : Char) : scanQuoted (encode (escapeChar c) ++ rest) =
    (scanQuoted rest).map fun (value, rest) => (encode [c] ++ value, rest) := by
  unfold escapeChar
  split
  · rfl
  · rfl
  · rfl
  · rfl
  · rfl
  · rename_i hslash hquote _ _ _
    refine scanQuoted_plain fun byte hbyte => ⟨fun h => ?_, fun h => ?_⟩
    · subst h
      exact hquote (List.mem_singleton.1 (mem_of_mem_encode rfl (by decide) hbyte)).symm
    · subst h
      exact hslash (List.mem_singleton.1 (mem_of_mem_encode rfl (by decide) hbyte)).symm

/-- The closing quote is the first one that no backslash escapes. -/
theorem scanQuoted_escaped : scanQuoted (encode (value.flatMap escapeChar) ++ 0x22 :: rest) =
    some (encode value, rest) := by
  induction value with
  | nil => rfl
  | cons c value ih =>
    rw [List.flatMap_cons, encode_append, List.append_assoc, scanQuoted_escapeChar, ih]
    simp

/-- Nothing follows, or whitespace does. -/
def EndsField (rest : List UInt8) : Prop := ∀ byte ∈ rest.head?, isAsciiWhitespace byte = true

theorem scanValue_quoted (hrest : EndsField rest) :
    scanValue (encode (quote value) ++ rest) = some (encode value, rest) := by
  have hbytes : encode (quote value) ++ rest =
      0x22 :: (encode (value.flatMap escapeChar) ++ 0x22 :: rest) := by
    simp [quote, String.utf8EncodeChar]
  rw [hbytes]
  simp only [scanValue, scanQuoted_escaped, Option.filter_some]
  cases rest with
  | nil => rfl
  | cons byte rest => exact if_pos (hrest byte rfl)

theorem scanValue_bare (hne : value ≠ []) (hvalue : ∀ c ∈ value, c ∉ asciiWhitespace)
    (hhead : value.head? ≠ some '"') (hrest : EndsField rest) :
    scanValue (encode value ++ rest) = some (encode value, rest) := by
  have hplain : ∀ byte ∈ encode value, (!isAsciiWhitespace byte) = true := by
    intro byte hbyte
    rw [not_whitespace hvalue byte hbyte]
    rfl
  have hfirst : ∀ more, encode value ++ rest ≠ 0x22 :: more := by
    intro more heq
    cases value with
    | nil => exact hne rfl
    | cons c value =>
      have hbyte : (0x22 : UInt8) ∈ encode [c] := by
        rw [encode_cons, List.append_assoc] at heq
        rw [encode_cons, encode_nil, List.append_nil]
        cases hc : String.utf8EncodeChar c with
        | nil => exact absurd hc String.utf8EncodeChar_ne_nil
        | cons byte bytes =>
          rw [hc] at heq
          rw [(List.cons.inj heq).1]
          exact List.mem_cons_self
      have hmem := mem_of_mem_encode (c := '"') rfl (by decide) hbyte
      exact hhead (by rw [List.mem_singleton.1 hmem, List.head?_cons])
  have hbare : scanValue (encode value ++ rest) =
      some ((encode value ++ rest).takeWhile (!isAsciiWhitespace ·),
        (encode value ++ rest).dropWhile (!isAsciiWhitespace ·)) := by
    unfold scanValue
    split
    · rename_i more heq
      exact absurd heq (hfirst more)
    · rfl
  have hstop : rest.takeWhile (!isAsciiWhitespace ·) = [] ∧
      rest.dropWhile (!isAsciiWhitespace ·) = rest := by
    cases rest with
    | nil => exact ⟨rfl, rfl⟩
    | cons byte rest => simp [hrest byte rfl]
  rw [hbare, List.takeWhile_append_of_pos hplain, List.dropWhile_append_of_pos hplain, hstop.1,
    hstop.2, List.append_nil]

end Bytes

/-! ## Lines -/

section Lines

variable {lead : Text} {field : WrittenField} {fields : List WrittenField} {rest : List UInt8}

/-- One field and what follows it. -/
theorem WrittenField.Plain.scan (h : field.Plain) (hrest : EndsField rest) :
    scanKey (encode field.text ++ rest) = some (encode field.key,
      encode (if field.quoted then quote field.value else field.value) ++ rest) ∧
    scanValue (encode (if field.quoted then quote field.value else field.value) ++ rest) =
      some (encode field.value, rest) := by
  constructor
  · have hbytes : encode field.text ++ rest = encode field.key ++
        0x3d :: (encode (if field.quoted then quote field.value else field.value) ++ rest) := by
      simp [WrittenField.text, String.utf8EncodeChar]
    rw [hbytes]
    refine scanKey_append fun byte hbyte => ⟨fun heq => ?_, ?_⟩
    · subst heq
      exact (h.key _ (mem_of_mem_encode (c := '=') rfl (by decide) hbyte)).1 rfl
    · exact not_whitespace (fun c hc => (h.key c hc).2) byte hbyte
  · cases hquoted : field.quoted with
    | true => exact scanValue_quoted hrest
    | false => exact scanValue_bare (h.bare_ne hquoted) (h.bare hquoted) (h.bare_head hquoted) hrest

theorem WrittenField.Plain.head_stays (h : field.Plain) :
    (encode field.text ++ rest).dropWhile isAsciiWhitespace = encode field.text ++ rest := by
  obtain ⟨c, key, hkey⟩ := List.exists_cons_of_ne_nil h.key_ne
  obtain ⟨first, bytes, hc⟩ := List.exists_cons_of_ne_nil (String.utf8EncodeChar_ne_nil (c := c))
  have hfirst : isAsciiWhitespace first = false := by
    refine not_whitespace (fun c hc => (h.key c hc).2) first ?_
    rw [hkey, encode_cons, hc]
    exact List.mem_cons_self
  rw [WrittenField.text, hkey, List.cons_append, encode_cons, hc]
  exact List.dropWhile_cons_of_neg (by simp [hfirst])

theorem lead_append (lead : Text) (fields : List WrittenField) :
    ∃ more, writtenLine lead fields = lead ++ more := by
  cases fields with
  | nil => exact ⟨[], (List.append_nil lead).symm⟩
  | cons field fields => exact ⟨_, rfl⟩

/-- What follows a field begins with whitespace. -/
theorem endsField (hgap : Blank lead) (hsep : fields ≠ [] → lead ≠ []) :
    EndsField (encode (writtenLine lead fields)) := by
  intro byte hbyte
  cases lead with
  | nil =>
    cases fields with
    | nil => cases hbyte
    | cons field fields => exact absurd rfl (hsep (by simp))
  | cons c lead =>
    obtain ⟨more, hmore⟩ := lead_append (c :: lead) fields
    obtain ⟨first, bytes, hc⟩ := List.exists_cons_of_ne_nil (String.utf8EncodeChar_ne_nil (c := c))
    have hfirst : byte = first := by
      rw [hmore, List.cons_append, encode_cons, hc] at hbyte
      exact (Option.some.inj hbyte).symm
    refine blank_bytes hgap byte ?_
    rw [encode_cons, hc, hfirst]
    exact List.mem_cons_self

/-- One turn of the loop. -/
theorem scanPairs_turn {fuel : Nat} {bytes l mid : List UInt8} {key value : Text}
    (hdrop : bytes.dropWhile isAsciiWhitespace = l) (hkey : scanKey l = some (encode key, mid))
    (hne : key ≠ []) (hvalue : scanValue mid = some (encode value, rest)) :
    scanPairs (fuel + 1) bytes = (scanPairs fuel rest).map ((key, value) :: ·) := by
  have hbytes : (encode key).isEmpty = false := by
    obtain ⟨c, key, rfl⟩ := List.exists_cons_of_ne_nil hne
    rw [List.isEmpty_eq_false_iff, encode_cons]
    exact List.append_ne_nil_of_left_ne_nil String.utf8EncodeChar_ne_nil _
  cases l with
  | nil => cases hkey
  | cons byte l =>
    rw [scanPairs, hdrop]
    simp only [hkey, hbytes, hvalue, decode_encode, bind, Option.bind_some]
    cases scanPairs fuel rest with
    | none => rfl
    | some pairs => rfl

theorem scanPairs_written {fuel : Nat} (hlead : Blank lead) (hplain : ∀ f ∈ fields, f.Plain)
    (hsep : Separated fields) (hfuel : fields.length < fuel) :
    scanPairs fuel (encode (writtenLine lead fields)) = some (fields.map WrittenField.pair) := by
  induction fields generalizing lead fuel with
  | nil =>
    obtain ⟨fuel, rfl⟩ := Nat.exists_eq_succ_of_ne_zero (Nat.ne_of_gt hfuel)
    have hdrop : (encode (writtenLine lead [])).dropWhile isAsciiWhitespace = [] := by
      have happend := @List.dropWhile_append_of_pos _ _ _ [] (blank_bytes hlead)
      rwa [List.append_nil] at happend
    rw [Nat.succ_eq_add_one, scanPairs, hdrop]
    rfl
  | cons field fields ih =>
    obtain ⟨fuel, rfl⟩ := Nat.exists_eq_succ_of_ne_zero (Nat.ne_of_gt (Nat.zero_lt_of_lt hfuel))
    have hfield : field.Plain := hplain field List.mem_cons_self
    have hgap : fields ≠ [] → field.gap ≠ [] := by
      intro hfields
      refine hsep field ?_
      rw [List.dropLast_cons_of_ne_nil hfields]
      exact List.mem_cons_self
    have hmore : Separated fields := by
      intro f hf
      refine hsep f ?_
      rw [List.dropLast_cons_of_ne_nil (by rintro rfl; cases hf)]
      exact List.mem_cons_of_mem _ hf
    obtain ⟨hkey, hvalue⟩ := hfield.scan (endsField hfield.gap hgap)
    have hdrop : (encode (writtenLine lead (field :: fields))).dropWhile isAsciiWhitespace =
        encode field.text ++ encode (writtenLine field.gap fields) := by
      rw [writtenLine, encode_append, encode_append,
        List.dropWhile_append_of_pos (blank_bytes hlead), hfield.head_stays]
    rw [Nat.succ_eq_add_one, scanPairs_turn hdrop hkey hfield.key_ne hvalue,
      ih hfield.gap (fun f hf => hplain f (List.mem_cons_of_mem _ hf)) hmore
        (Nat.lt_of_succ_lt_succ hfuel)]
    rfl

theorem length_le_line : fields.length ≤ (encode (writtenLine lead fields)).length := by
  induction fields generalizing lead with
  | nil => exact Nat.zero_le _
  | cons field fields ih =>
    have hrest := @ih field.gap
    have htext : 0 < (encode field.text).length := by
      rw [WrittenField.text, encode_append, encode_cons, List.length_append, List.length_append]
      have heq : 0 < (String.utf8EncodeChar '=').length := by decide
      omega
    rw [writtenLine, encode_append, encode_append, List.length_append, List.length_append,
      List.length_cons]
    omega

end Lines

/-- Scanning inverts writing, whatever the gaps between the fields are and whichever
of the values are quoted. -/
theorem scanLogfmt_written (lead : Text) (fields : List WrittenField) (hlead : Blank lead)
    (hplain : ∀ field ∈ fields, field.Plain) (hsep : Separated fields) :
    scanLogfmt (writtenLine lead fields) = some (fields.map WrittenField.pair) :=
  scanPairs_written hlead hplain hsep (Nat.lt_succ_of_le length_le_line)

/-- A quoted value that holds a line end and both escapes, a bare one that holds the
separator, and a gap of two characters. -/
theorem scanLogfmt_written_two :
    scanLogfmt (" msg=\"a\\nb \\\"\\\\\" \tlevel=x=1".toList) =
      some [("msg".toList, "a\nb \"\\".toList), ("level".toList, "x=1".toList)] :=
  scanLogfmt_written [' ']
    [⟨"msg".toList, "a\nb \"\\".toList, true, [' ', '\t']⟩,
      ⟨"level".toList, "x=1".toList, false, []⟩]
    (by decide)
    (List.forall_mem_cons.2
      ⟨⟨by decide, List.all_iff_forall_prop.1 (by decide), nofun, nofun, nofun, by decide⟩,
        List.forall_mem_singleton.2
          ⟨by decide, List.all_iff_forall_prop.1 (by decide), fun _ => by decide,
            fun _ => List.all_iff_forall_prop.1 (by decide), fun _ => by decide, by decide⟩⟩)
    (by decide)

end Chimera.Log
