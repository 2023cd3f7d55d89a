import Chimera.Lib.Radix
import Chimera.Control.Command

/-! Reading an operation id back. The length check counts bytes and the filter
lets dashes through, so a dash in the last part is left to `from_str_radix`. What
is accepted is the text of the id, and no other spelling of it. -/

namespace Chimera.Control
open Chimera.Lib.Utf8 Chimera.Lib.Fields Chimera.Lib.Radix

structure ParseOperationIdError where
  deriving DecidableEq, Repr

def ParseOperationIdError.display (_ : ParseOperationIdError) : String :=
  "an operation id must be lowercase hexadecimal in 16-8-8 format"

/-- The bytes that an operation id is spelled with. -/
def isIdByte (byte : UInt8) : Bool :=
  byte == 0x2d || (0x30 ≤ byte && byte ≤ 0x39) || (0x61 ≤ byte && byte ≤ 0x66)

def OperationId.fromStr (value : String) : Except ParseOperationIdError OperationId := do
  let some (nanos, rest) := splitOnce ['-'] value.toList | throw ⟨⟩
  let some (pid, counter) := splitOnce ['-'] rest | throw ⟨⟩
  if size nanos ≠ 16 ∨ size pid ≠ 8 ∨ size counter ≠ 8 ∨ !(encode value.toList).all isIdByte then
    throw ⟨⟩
  let some nanos := fromStrRadix (2 ^ 64) nanos | throw ⟨⟩
  let some pid := fromStrRadix (2 ^ 32) pid | throw ⟨⟩
  let some counter := fromStrRadix (2 ^ 32) counter | throw ⟨⟩
  return ⟨nanos.toUInt64, pid.toUInt32, counter.toUInt32⟩

section Spelling

variable {c : Char} {t : Text} {id : OperationId} {text : String}

/-- The bytes of the spelling are the digits and the dash, one byte each. -/
theorem isIdByte_iff (byte : UInt8) :
    isIdByte byte = true ↔ ∃ c ∈ '-' :: hexDigits, encode [c] = [byte] := by
  rw [← List.any_iff_exists_prop]
  revert byte
  refine forall_byte ?_
  decide +kernel

theorem size_hex (h : ∀ c ∈ t, c ∈ hexDigits) : size t = t.length := by
  have one : ∀ c ∈ hexDigits, c.utf8Size = 1 := List.all_iff_forall_prop.1 (by decide)
  induction t with
  | nil => rfl
  | cons c t ih =>
    rw [size, one c (h c List.mem_cons_self), ih fun c hc => h c (List.mem_cons_of_mem _ hc),
      List.length_cons, Nat.add_comm]

/-- What the filter lets through, by characters. -/
theorem all_isIdByte : (encode t).all isIdByte = true ↔ ∀ c ∈ t, c ∈ '-' :: hexDigits := by
  have one (c : Char) : (∀ byte ∈ encode [c], isIdByte byte = true) ↔ c ∈ '-' :: hexDigits := by
    constructor
    · intro h
      have hc : encode [c] = String.utf8EncodeChar c := List.append_nil _
      rw [hc] at h
      rcases encodeChar_cases c with ⟨byte, -, hbyte⟩ | ⟨hne, hwide⟩
      · rw [hbyte] at hc h
        obtain ⟨d, hd, hdbyte⟩ := (isIdByte_iff byte).1 (h byte List.mem_cons_self)
        rw [← hdbyte, encode_inj] at hc
        rwa [(List.cons.inj hc).1]
      · obtain ⟨byte, hbyte⟩ := List.exists_mem_of_ne_nil _ hne
        have hle := hwide byte hbyte
        have hid := h byte hbyte
        simp only [isIdByte, Bool.or_eq_true, Bool.and_eq_true, beq_iff_eq,
          decide_eq_true_eq] at hid
        simp only [UInt8.le_iff_toNat_le, UInt8.reduceToNat] at hle hid
        rcases hid with (rfl | hid) | hid
        · exact absurd hle (by decide)
        · omega
        · omega
    · intro h byte hbyte
      have single : ∀ c ∈ '-' :: hexDigits, encode [c] = [c.toNat.toUInt8] :=
        List.all_iff_forall_prop.1 (by decide)
      rw [single c h] at hbyte
      exact (isIdByte_iff byte).2 ⟨c, h, by rw [single c h, List.mem_singleton.1 hbyte]⟩
  rw [List.all_eq_true]
  simp only [encode, List.mem_flatMap]
  constructor
  · intro h c hc
    refine (one c).1 fun byte hbyte => h byte ⟨c, hc, ?_⟩
    simpa [encode] using hbyte
  · rintro h byte ⟨c, hc, hbyte⟩
    exact (one c).2 (h c hc) byte (by simpa [encode] using hbyte)

theorem display_toList : id.display.toList = hexText 16 id.nanos.toNat ++
    '-' :: (hexText 8 id.pid.toNat ++ '-' :: hexText 8 id.counter.toNat) := by
  simp [OperationId.display, hexPadded, hexText]

/-- One part: digits in its width, and their number. -/
theorem part_iff {width n : Nat} (hw : 0 < width) (h : ∀ c ∈ t, c ∈ '-' :: hexDigits) :
    size t = width ∧ fromStrRadix (16 ^ width) t = some n ↔
      n < 16 ^ width ∧ t = hexText width n := by
  constructor
  · intro ⟨hsize, hread⟩
    have hhex : ∀ c ∈ t, c ∈ hexDigits := by
      intro c hc
      rcases List.mem_cons.1 (h c hc) with rfl | hhex
      · rw [fromStrRadix_none hc (by decide) (by decide)] at hread
        cases hread
      · exact hhex
    have hlen := hsize
    rw [size_hex hhex] at hlen
    subst hlen
    exact (fromStrRadix_digits (List.ne_nil_of_length_pos hw) hhex).1 hread
  · intro ⟨hn, htext⟩
    have hhex : ∀ c ∈ t, c ∈ hexDigits := by
      rw [htext]
      exact fun c => mem_hexText
    have hlen : t.length = width := by rw [htext, length_hexText hw hn]
    subst hlen
    exact ⟨size_hex hhex,
      (fromStrRadix_digits (List.ne_nil_of_length_pos hw) hhex).2 ⟨hn, htext⟩⟩

/-- The bounds of the number types, by the widths of the parts. -/
theorem bounds : (2 : Nat) ^ 64 = 16 ^ 16 ∧ (2 : Nat) ^ 32 = 16 ^ 8 := by decide

theorem no_dash {width n : Nat} : '-' ∉ hexText width n := by
  intro h
  exact absurd (mem_hexText h) (by decide)

theorem display_all : ∀ c ∈ id.display.toList, c ∈ '-' :: hexDigits := by
  intro c hc
  have digit {width n : Nat} (h : c ∈ hexText width n) : c ∈ '-' :: hexDigits :=
    List.mem_cons_of_mem _ (mem_hexText h)
  rw [display_toList, List.mem_append, List.mem_cons, List.mem_append, List.mem_cons] at hc
  rcases hc with hc | rfl | hc | rfl | hc
  · exact digit hc
  · exact List.mem_cons_self
  · exact digit hc
  · exact List.mem_cons_self
  · exact digit hc

theorem fromStr_display (id : OperationId) : OperationId.fromStr id.display = .ok id := by
  have hall := all_isIdByte.2 (@display_all id)
  have digits {width n : Nat} : ∀ c ∈ hexText width n, c ∈ '-' :: hexDigits :=
    fun c hc => List.mem_cons_of_mem _ (mem_hexText hc)
  have hnanos := (part_iff (n := id.nanos.toNat) (by decide : 0 < 16) digits).2
    ⟨id.nanos.toNat_lt, rfl⟩
  have hpid := (part_iff (n := id.pid.toNat) (by decide : 0 < 8) digits).2
    ⟨id.pid.toNat_lt, rfl⟩
  have hcounter := (part_iff (n := id.counter.toNat) (by decide : 0 < 8) digits).2
    ⟨id.counter.toNat_lt, rfl⟩
  have hfirst : splitOnce ['-'] id.display.toList = some (hexText 16 id.nanos.toNat,
      hexText 8 id.pid.toNat ++ '-' :: hexText 8 id.counter.toNat) := by
    rw [display_toList, splitOnce_append no_dash]
  have hrest : splitOnce ['-'] (hexText 8 id.pid.toNat ++ '-' :: hexText 8 id.counter.toNat) =
      some (hexText 8 id.pid.toNat, hexText 8 id.counter.toNat) := splitOnce_append no_dash
  simp only [OperationId.fromStr, hfirst, hrest, hall, hnanos.1, hpid.1, hcounter.1, bounds,
    hnanos.2, hpid.2, hcounter.2]
  simp [pure, Except.pure]

theorem fromStr_ok (h : OperationId.fromStr text = .ok id) : text = id.display := by
  unfold OperationId.fromStr at h
  split at h
  · rename_i nanos rest hfirst
    split at h
    · rename_i pid counter hrest
      simp only [bind, Except.bind] at h
      split at h
      · cases h
      · rename_i hgood
        simp only [not_or, not_not, Bool.not_eq_true', Bool.not_eq_false] at hgood
        obtain ⟨hnanos, hpid, hcounter, hall⟩ := hgood
        obtain ⟨htext, -⟩ := splitOnce_eq_some hfirst
        obtain ⟨rfl, -⟩ := splitOnce_eq_some hrest
        have hmem := all_isIdByte.1 hall
        rw [htext] at hmem
        simp only [pure, Except.pure, bounds] at h
        split at h
        · rename_i nanosRead hn
          split at h
          · rename_i pidRead hp
            split at h
            · rename_i counterRead hc
              obtain ⟨hnlt, rfl⟩ := (part_iff (by decide)
                fun c hc => hmem c (by simp [hc])).1 ⟨hnanos, hn⟩
              obtain ⟨hplt, rfl⟩ := (part_iff (by decide)
                fun c hc => hmem c (by simp [hc])).1 ⟨hpid, hp⟩
              obtain ⟨hclt, rfl⟩ := (part_iff (by decide)
                fun c hc => hmem c (by simp [hc])).1 ⟨hcounter, hc⟩
              obtain rfl := Except.ok.inj h
              have hn' : nanosRead.toUInt64.toNat = nanosRead := Nat.mod_eq_of_lt hnlt
              have hp' : pidRead.toUInt32.toNat = pidRead := Nat.mod_eq_of_lt hplt
              have hc' : counterRead.toUInt32.toNat = counterRead := Nat.mod_eq_of_lt hclt
              refine String.toList_inj.1 ?_
              rw [htext, display_toList, hn', hp', hc']
            · cases h
          · cases h
        · cases h
    · cases h
  · cases h

theorem fromStr_iff : OperationId.fromStr text = .ok id ↔ text = id.display := by
  constructor
  · exact fromStr_ok
  · intro htext
    rw [htext, fromStr_display]

end Spelling

/-- Reading inverts writing, what is read is the text of an id, and texts name ids
one to one. -/
theorem operationId_spelling :
    (∀ id : OperationId, OperationId.fromStr id.display = .ok id) ∧
    (∀ text, (∃ id, OperationId.fromStr text = .ok id) ↔ ∃ id : OperationId, text = id.display) ∧
    (∀ text id, OperationId.fromStr text = .ok id ↔ text = id.display) ∧
    Function.Injective OperationId.display := by
  refine ⟨fromStr_display, fun text => exists_congr fun id => fromStr_iff,
    fun text id => fromStr_iff, ?_⟩
  intro id id' hsame
  have hread := fromStr_display id
  rw [hsame, fromStr_display] at hread
  exact (Except.ok.inj hread).symm

/-- `from_str_radix` would take the sign, and the filter the dash. -/
example : (OperationId.fromStr "00010a107f80ff42-00010a10-+f80ff42").toOption = none ∧
    (OperationId.fromStr "00010a107f80ff42-00010a10-7f80-f42").toOption = none := by decide

end Chimera.Control
