import Mathlib.Data.Bool.AllAny
import Mathlib.Data.Nat.Digits.Lemmas
import Chimera.Lib.Fields

/-! Numbers in base sixteen. They are written in lower case and to a width; what
reads them allows either case and a plus sign, and stops at an overflow. Among
the texts of lower-case digits alone, every number has one of each width. -/

namespace Chimera.Lib.Radix
open Chimera.Lib.Utf8 Chimera.Lib.Fields

/-- A number with zeros before it up to the width. -/
def hexText (width n : Nat) : Text :=
  List.replicate (width - (Nat.toDigits 16 n).length) '0' ++ Nat.toDigits 16 n

/-- The value of a digit, of either case. -/
def digitValue (c : Char) : Option Nat :=
  if '0' ≤ c ∧ c ≤ '9' then some (c.toNat - 0x30)
  else if 'a' ≤ c ∧ c ≤ 'f' then some (c.toNat - 0x61 + 10)
  else if 'A' ≤ c ∧ c ≤ 'F' then some (c.toNat - 0x41 + 10)
  else none

/-- One more digit, while the number stays below the bound. -/
def pushDigit (bound value : Nat) (c : Char) : Option Nat := do
  let digit ← digitValue c
  if 16 * value + digit < bound then some (16 * value + digit) else none

/-- `from_str_radix` of a type without negative numbers. -/
def fromStrRadix (bound : Nat) (src : Text) : Option Nat :=
  let digits := if src.head? = some '+' then src.tail else src
  if digits.isEmpty then none else digits.foldlM (pushDigit bound) 0

variable {t : Text} {ds : List Nat} {c : Char} {n bound width : Nat}

/-- The number that digits write, the highest first. -/
def value (ds : List Nat) : Nat := Nat.ofDigits 16 ds.reverse

@[simp] theorem value_snoc {d : Nat} : value (ds ++ [d]) = 16 * value ds + d := by
  rw [value, List.reverse_append, List.reverse_singleton, List.singleton_append,
    Nat.ofDigits_cons, Nat.add_comm]
  rfl

theorem value_zeros : value (List.replicate n 0 ++ ds) = value ds := by
  simp [value, Nat.ofDigits_append_replicate_zero]

theorem value_lt (h : ∀ d ∈ ds, d < 16) : value ds < 16 ^ ds.length := by
  have hlt := Nat.ofDigits_lt_base_pow_length (b := 16) (l := ds.reverse) (by omega)
    fun d hd => h d (List.mem_reverse.1 hd)
  rwa [List.length_reverse] at hlt

theorem value_inj {ds' : List Nat} (h : ∀ d ∈ ds, d < 16) (h' : ∀ d ∈ ds', d < 16)
    (hlen : ds.length = ds'.length) (hv : value ds = value ds') : ds = ds' := by
  refine List.reverse_injective (Nat.ofDigits_inj_of_len_eq (b := 16) (by omega) ?_ ?_ ?_ hv)
  · rw [List.length_reverse, List.length_reverse, hlen]
  · exact fun d hd => h d (List.mem_reverse.1 hd)
  · exact fun d hd => h' d (List.mem_reverse.1 hd)

theorem digitValue_digitChar {d : Nat} (h : d < 16) : digitValue d.digitChar = some d := by
  have all : ∀ d : Fin 16, digitValue d.val.digitChar = some d.val := by decide
  exact all ⟨d, h⟩

theorem digitChar_mem {d : Nat} (h : d < 16) : d.digitChar ∈ hexDigits := by
  have all : ∀ d : Fin 16, d.val.digitChar ∈ hexDigits := by decide
  exact all ⟨d, h⟩

/-- Texts of lower-case digits are the ones that digits write. -/
theorem exists_digits (h : ∀ c ∈ t, c ∈ hexDigits) :
    ∃ ds : List Nat, t = ds.map Nat.digitChar ∧ ∀ d ∈ ds, d < 16 := by
  have digit : ∀ c ∈ hexDigits, ∃ d, d < 16 ∧ c = Nat.digitChar d :=
    List.all_iff_forall_prop.1 (by decide)
  induction t with
  | nil => exact ⟨[], rfl, nofun⟩
  | cons c t ih =>
    obtain ⟨d, hd, rfl⟩ := digit c (h c List.mem_cons_self)
    obtain ⟨ds, rfl, hds⟩ := ih fun c hc => h c (List.mem_cons_of_mem _ hc)
    exact ⟨d :: ds, rfl, List.forall_mem_cons.2 ⟨hd, hds⟩⟩

theorem toDigits_digits (n : Nat) : ∃ ds : List Nat,
    Nat.toDigits 16 n = ds.map Nat.digitChar ∧ (∀ d ∈ ds, d < 16) ∧ value ds = n := by
  induction n using Nat.strongRecOn with
  | ind n ih =>
    by_cases hn : n < 16
    · refine ⟨[n], Nat.toDigits_of_lt_base hn, by simpa using hn, by simp [value]⟩
    · obtain ⟨ds, hds, hsmall, hv⟩ := ih (n / 16) (by omega)
      refine ⟨ds ++ [n % 16], ?_, ?_, ?_⟩
      · rw [Nat.toDigits_of_base_le (by omega) (by omega), hds, List.map_append]
        rfl
      · intro d hd
        rcases List.mem_append.1 hd with hd | hd
        · exact hsmall d hd
        · rw [List.mem_singleton.1 hd]
          exact Nat.mod_lt n (by omega)
      · rw [value_snoc, hv]
        omega

theorem length_hexText (hw : 0 < width) (h : n < 16 ^ width) :
    (hexText width n).length = width := by
  have hle := (Nat.length_toDigits_le_iff (b := 16) (by omega) hw).2 h
  rw [hexText, List.length_append, List.length_replicate]
  omega

theorem hexText_digits (width n : Nat) : ∃ ds : List Nat,
    hexText width n = ds.map Nat.digitChar ∧ (∀ d ∈ ds, d < 16) ∧ value ds = n := by
  obtain ⟨ds, hds, hsmall, hv⟩ := toDigits_digits n
  refine ⟨List.replicate (width - (Nat.toDigits 16 n).length) 0 ++ ds, ?_, ?_, ?_⟩
  · rw [hexText, hds, List.map_append, List.map_replicate]
    rfl
  · intro d hd
    rcases List.mem_append.1 hd with hd | hd
    · rw [List.eq_of_mem_replicate hd]
      omega
    · exact hsmall d hd
  · rw [value_zeros, hv]

theorem mem_hexText (h : c ∈ hexText width n) : c ∈ hexDigits := by
  obtain ⟨ds, hds, hsmall, -⟩ := hexText_digits width n
  rw [hds] at h
  obtain ⟨d, hd, rfl⟩ := List.mem_map.1 h
  exact digitChar_mem (hsmall d hd)

theorem foldlM_digits (hb : 0 < bound) (h : ∀ d ∈ ds, d < 16) :
    (ds.map Nat.digitChar).foldlM (pushDigit bound) 0 =
      if value ds < bound then some (value ds) else none := by
  induction ds using List.reverseRecOn with
  | nil => simp [value, hb]
  | append_singleton ds d ih =>
    have hd : d < 16 := h d (by simp)
    rw [List.map_append, List.foldlM_append, ih fun d hd => h d (List.mem_append_left _ hd),
      value_snoc]
    by_cases hv : value ds < bound
    · simp [hv, pushDigit, digitValue_digitChar hd]
    · have hover : ¬ 16 * value ds + d < bound := by omega
      simp [hv, hover]

/-- What is read of lower-case digits alone is the number they write, to their width. -/
theorem fromStrRadix_digits (hne : t ≠ []) (h : ∀ c ∈ t, c ∈ hexDigits) :
    fromStrRadix (16 ^ t.length) t = some n ↔ n < 16 ^ t.length ∧ t = hexText t.length n := by
  obtain ⟨ds, rfl, hds⟩ := exists_digits h
  have hplus : (ds.map Nat.digitChar).head? ≠ some '+' := by
    intro hc
    exact absurd (h _ (List.mem_of_head? hc)) (by decide)
  rw [List.length_map]
  have hread : fromStrRadix (16 ^ ds.length) (ds.map Nat.digitChar) = some (value ds) := by
    simp only [fromStrRadix, hplus, if_false, List.isEmpty_iff, hne]
    rw [foldlM_digits (Nat.pow_pos (by omega)) hds, if_pos (value_lt hds)]
  have hpos : 0 < ds.length := List.length_pos_of_ne_nil fun hnil => hne (by rw [hnil]; rfl)
  rw [hread, Option.some.injEq]
  constructor
  · rintro rfl
    refine ⟨value_lt hds, ?_⟩
    obtain ⟨ds', htext, hds', hv⟩ := hexText_digits ds.length (value ds)
    have hlen := length_hexText hpos (value_lt hds)
    rw [htext, List.length_map] at hlen
    rw [htext, value_inj hds hds' hlen.symm hv.symm]
  · intro ⟨hn, htext⟩
    obtain ⟨ds', htext', hds', hv⟩ := hexText_digits ds.length n
    have hread' := foldlM_digits (show 0 < 16 ^ ds.length from Nat.pow_pos (by omega)) hds'
    rw [← htext', ← htext, foldlM_digits (Nat.pow_pos (by omega)) hds, if_pos (value_lt hds), hv,
      if_pos hn] at hread'
    exact Option.some.inj hread'

/-- A character that is no digit is not read over, but for the sign. -/
theorem fromStrRadix_none (hc : c ∈ t) (hplus : c ≠ '+') (h : digitValue c = none) :
    fromStrRadix bound t = none := by
  have stuck {l : Text} {v : Nat} (hl : c ∈ l) : l.foldlM (pushDigit bound) v = none := by
    induction l generalizing v with
    | nil => cases hl
    | cons d l ih =>
      rw [List.foldlM_cons]
      rcases List.mem_cons.1 hl with rfl | hl
      · simp [pushDigit, h]
      · cases pushDigit bound v d with
        | none => rfl
        | some v' => exact ih hl
  have hmem : c ∈ if t.head? = some '+' then t.tail else t := by
    split
    · rename_i hhead
      cases t with
      | nil => cases hc
      | cons d t =>
        rcases List.mem_cons.1 hc with rfl | hc
        · exact absurd (Option.some.inj hhead) hplus
        · exact hc
    · exact hc
  rw [fromStrRadix, stuck hmem]
  exact ite_self none

end Chimera.Lib.Radix
