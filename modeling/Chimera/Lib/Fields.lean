import Chimera.Lib.Utf8

/-! Small text records: lines, decimal numbers and bytes in hexadecimal, each
with its reader beside its writer. -/

namespace Chimera.Lib.Fields
open Chimera.Lib.Utf8

/-! ## Lines -/

/-- Pieces that end with a line feed, the last one perhaps without it. -/
def splitInclusive : Text → List Text
  | [] => []
  | c :: t =>
    if c = '\n' then [c] :: splitInclusive t
    else match splitInclusive t with
      | [] => [[c]]
      | line :: more => (c :: line) :: more

/-- A line without its end, a line feed that may follow a carriage return. -/
def stripEnd (line : Text) : Text :=
  if line.getLast? = some '\n' then
    if line.dropLast.getLast? = some '\r' then line.dropLast.dropLast else line.dropLast
  else line

def lines (t : Text) : List Text := (splitInclusive t).map stripEnd

section Lines

variable {line rest t : Text}

theorem splitInclusive_append (h : '\n' ∉ line) :
    splitInclusive (line ++ '\n' :: rest) = (line ++ ['\n']) :: splitInclusive rest := by
  induction line with
  | nil => simp [splitInclusive]
  | cons c line ih =>
    have hc : c ≠ '\n' := fun hc => h (by simp [hc])
    have hline := ih fun hl => h (List.mem_cons_of_mem c hl)
    simp only [List.cons_append, splitInclusive, hc, if_false, hline]

theorem splitInclusive_last (h : '\n' ∉ line) (hne : line ≠ []) : splitInclusive line = [line] := by
  induction line with
  | nil => exact absurd rfl hne
  | cons c line ih =>
    have hc : c ≠ '\n' := fun hc => h (by simp [hc])
    have hline : '\n' ∉ line := fun hl => h (List.mem_cons_of_mem c hl)
    cases line with
    | nil => simp [splitInclusive, hc]
    | cons d line => rw [splitInclusive, ih hline (by simp)]; simp [hc]

theorem stripEnd_append (h : '\r' ∉ line) : stripEnd (line ++ ['\n']) = line := by
  have hlast : line.getLast? ≠ some '\r' := fun hl => h (List.mem_of_getLast? hl)
  simp [stripEnd, hlast]

theorem stripEnd_last (h : '\n' ∉ line) : stripEnd line = line := by
  have hlast : line.getLast? ≠ some '\n' := fun hl => h (List.mem_of_getLast? hl)
  simp [stripEnd, hlast]

@[simp] theorem lines_nil : lines [] = [] := rfl

/-- The first line, when its end is there. -/
theorem lines_append (hn : '\n' ∉ line) (hr : '\r' ∉ line) :
    lines (line ++ '\n' :: rest) = line :: lines rest := by
  simp [lines, splitInclusive_append hn, stripEnd_append hr]

theorem lines_last (hn : '\n' ∉ line) (hne : line ≠ []) : lines line = [line] := by
  simp [lines, splitInclusive_last hn hne, stripEnd_last hn]

theorem mem_of_mem_splitInclusive {c : Char} (hl : line ∈ splitInclusive t) (hc : c ∈ line) :
    c ∈ t := by
  induction t generalizing line with
  | nil => cases hl
  | cons d t ih =>
    simp only [splitInclusive] at hl
    split at hl
    · rcases List.mem_cons.1 hl with rfl | hl
      · rw [List.mem_singleton.1 hc]
        exact List.mem_cons_self
      · exact List.mem_cons_of_mem d (ih hl hc)
    · split at hl
      · rw [List.mem_singleton.1 hl, List.mem_singleton] at hc
        rw [hc]
        exact List.mem_cons_self
      · rename_i first more heq
        have first_mem : first ∈ splitInclusive t := by simp [heq]
        rcases List.mem_cons.1 hl with rfl | hl
        · rcases List.mem_cons.1 hc with rfl | hc
          · exact List.mem_cons_self
          · exact List.mem_cons_of_mem d (ih first_mem hc)
        · have hmore : line ∈ splitInclusive t := by simp [heq, hl]
          exact List.mem_cons_of_mem d (ih hmore hc)

theorem mem_of_mem_lines {c : Char} (hl : line ∈ lines t) (hc : c ∈ line) : c ∈ t := by
  obtain ⟨piece, hpiece, rfl⟩ := List.mem_map.1 hl
  refine mem_of_mem_splitInclusive hpiece ?_
  unfold stripEnd at hc
  split at hc
  · split at hc
    · exact List.dropLast_subset _ (List.dropLast_subset _ hc)
    · exact List.dropLast_subset _ hc
  · exact hc

/-- A text that is cut off ends inside its first line or goes on after it. -/
theorem cut_line_cases (h : t <+: line ++ '\n' :: rest) :
    t <+: line ∨ ∃ more, t = line ++ '\n' :: more ∧ more <+: rest := by
  induction line generalizing t with
  | nil =>
    cases t with
    | nil => exact .inl (List.nil_prefix)
    | cons c t =>
      obtain ⟨rfl, ht⟩ := List.cons_prefix_cons.1 h
      exact .inr ⟨t, rfl, ht⟩
  | cons d line ih =>
    cases t with
    | nil => exact .inl (List.nil_prefix)
    | cons c t =>
      obtain ⟨rfl, ht⟩ := List.cons_prefix_cons.1 h
      rcases ih ht with hl | ⟨more, rfl, hmore⟩
      · exact .inl (List.cons_prefix_cons.2 ⟨rfl, hl⟩)
      · exact .inr ⟨more, rfl, hmore⟩

/-- The key before the first separator and what follows it. -/
theorem splitOnce_append {key value : Text} {c : Char} (h : c ∉ key) :
    splitOnce [c] (key ++ c :: value) = some (key, value) := by
  induction key with
  | nil => simp [splitOnce]
  | cons d key ih =>
    have hd : c ≠ d := fun hd => h (by simp [hd])
    have hkey := ih fun hk => h (List.mem_cons_of_mem d hk)
    simp [splitOnce, hkey, hd]

theorem splitOnce_none {c : Char} (h : c ∉ t) : splitOnce [c] t = none := by
  induction t with
  | nil => rfl
  | cons d t ih =>
    have hd : c ≠ d := fun hd => h (by simp [hd])
    have ht := ih fun hk => h (List.mem_cons_of_mem d hk)
    simp [splitOnce, ht, hd]

theorem splitOnce_eq_some {key value : Text} {c : Char}
    (h : splitOnce [c] t = some (key, value)) : t = key ++ c :: value ∧ c ∉ key := by
  have hmem : c ∈ t := by
    by_contra hnot
    rw [splitOnce_none hnot] at h
    cases h
  obtain ⟨front, after, rfl, hfront⟩ := List.eq_append_cons_of_mem hmem
  rw [splitOnce_append hfront] at h
  cases h
  exact ⟨rfl, hfront⟩

end Lines

/-! ## Prefixes and suffixes -/

def stripPrefix (pat t : Text) : Option Text :=
  if pat.isPrefixOf t then some (t.drop pat.length) else none

def stripSuffix (pat t : Text) : Option Text :=
  if pat.isSuffixOf t then some (t.take (t.length - pat.length)) else none

section Affixes

variable {pat t rest : Text}

theorem stripPrefix_append : stripPrefix pat (pat ++ rest) = some rest := by
  simp [stripPrefix]

theorem stripSuffix_append : stripSuffix pat (rest ++ pat) = some rest := by
  simp [stripSuffix]

theorem stripSuffix_none (h : ¬ pat <:+ t) : stripSuffix pat t = none := by
  rw [stripSuffix, if_neg]
  rwa [List.isSuffixOf_iff_suffix]

/-- The first occurrence, when nothing before it has its first character. -/
theorem splitOnce_pattern {key : Text} {c : Char} (h : c ∉ key) :
    splitOnce (c :: pat) (key ++ (c :: pat ++ rest)) = some (key, rest) := by
  induction key with
  | nil => simp [splitOnce]
  | cons d key ih =>
    have hd : c ≠ d := fun hd => h (by simp [hd])
    have hkey := ih fun hk => h (List.mem_cons_of_mem d hk)
    rw [List.cons_append, splitOnce, hkey]
    simp [hd]

end Affixes

/-! ## Decimal numbers -/

def decimal (n : Nat) : Text := Nat.toDigits 10 n

/-- A number below the bound: digits, after a plus sign if there is one. -/
def parseUnsigned (bound : Nat) (text : Text) : Option Nat :=
  let digits := if text.head? = some '+' then text.tail else text
  if digits.isEmpty || !digits.all Char.isDigit then none
  else if Nat.ofDigitChars 10 digits 0 < bound then some (Nat.ofDigitChars 10 digits 0)
  else none

theorem isDigit_of_mem_decimal {n : Nat} {c : Char} (h : c ∈ decimal n) : c.isDigit = true :=
  Nat.isDigit_of_mem_toDigits (by decide) (by decide) h

/-- Decimal digits and their number, with a plus sign or without. -/
structure Spells (bound : Nat) (text : Text) (n : Nat) : Prop where
  lt : n < bound
  digits : ∃ digits, (text = digits ∨ text = '+' :: digits) ∧ digits ≠ [] ∧
    (∀ c ∈ digits, c.isDigit = true) ∧ Nat.ofDigitChars 10 digits 0 = n

theorem parseUnsigned_eq_some {bound n : Nat} {text : Text} :
    parseUnsigned bound text = some n ↔ Spells bound text n := by
  have hsame : text = (if text.head? = some '+' then text.tail else text) ∨
      text = '+' :: (if text.head? = some '+' then text.tail else text) := by
    cases text with
    | nil => exact .inl rfl
    | cons c text =>
      by_cases hc : c = '+'
      · exact .inr (by simp [hc])
      · exact .inl (by simp [hc])
  constructor
  · intro h
    unfold parseUnsigned at h
    simp only at h
    generalize (if text.head? = some '+' then text.tail else text) = digits at h hsame
    split at h
    · cases h
    · rename_i hdigits
      rw [Bool.or_eq_true, not_or, Bool.not_eq_true', Bool.not_eq_false, List.all_eq_true] at hdigits
      split at h
      · rename_i hlt
        cases h
        exact ⟨hlt, digits, hsame, fun hnil => hdigits.1 (by rw [hnil]; rfl), hdigits.2, rfl⟩
      · cases h
  · intro ⟨hlt, digits, htext, hne, hall, hn⟩
    have hread : (if text.head? = some '+' then text.tail else text) = digits := by
      rcases htext with rfl | rfl
      · have hplus : text.head? ≠ some '+' := by
          intro hc
          exact absurd (hall _ (List.mem_of_head? hc)) (by decide)
        rw [if_neg hplus]
      · rfl
    have hall : digits.all Char.isDigit = true := List.all_eq_true.2 hall
    unfold parseUnsigned
    simp only [hread]
    simp [hne, hall, hn, hlt]

theorem parseUnsigned_decimal {bound n : Nat} (h : n < bound) :
    parseUnsigned bound (decimal n) = some n := by
  have hvalue : Nat.ofDigitChars 10 (decimal n) 0 = n :=
    Nat.ofDigitChars_toDigits (by decide) (by decide)
  rw [parseUnsigned_eq_some]
  exact ⟨h, decimal n, .inl rfl, Nat.toDigits_ne_nil, fun c hc => isDigit_of_mem_decimal hc, hvalue⟩

/-! ## Bytes in hexadecimal -/

def hexDigits : List Char := "0123456789abcdef".toList

/-- The digit of the lower four bits. -/
def hexDigit (n : UInt8) : Char := hexDigits.getD (n &&& 0x0f).toNat '0'

def hexEncode (bytes : List UInt8) : Text :=
  bytes.flatMap fun byte : UInt8 => [hexDigit (byte >>> 4), hexDigit byte]

inductive HexError where
  | oddLength | badDigit
  deriving DecidableEq, Repr

def hexNibble (value : UInt8) : Except HexError UInt8 :=
  if 0x30 ≤ value ∧ value ≤ 0x39 then .ok (value - 0x30)
  else if 0x61 ≤ value ∧ value ≤ 0x66 then .ok (value - 0x61 + 10)
  else .error .badDigit

def hexPairs : List UInt8 → Except HexError (List UInt8)
  | high :: low :: more => do
    let high ← hexNibble high
    let low ← hexNibble low
    let more ← hexPairs more
    pure ((high <<< 4 ||| low) :: more)
  | _ => pure []

/-- Pairs of digits; what is not ASCII is no digit. -/
def hexDecode (value : Text) : Except HexError (List UInt8) :=
  if (encode value).length % 2 = 1 then .error .oddLength else hexPairs (encode value)

section Hex

variable {bytes : List UInt8}

theorem forall_byte {P : UInt8 → Prop} (h : ∀ n : Fin 256, P (UInt8.ofFin n)) : ∀ b, P b :=
  fun b => h b.toFin

theorem hexNibble_hexDigit (n : UInt8) :
    encode [hexDigit n] = [(hexDigit n).toNat.toUInt8] ∧
      hexNibble (hexDigit n).toNat.toUInt8 = .ok (n &&& 0x0f) := by
  revert n
  refine forall_byte ?_
  decide +kernel

theorem encode_hexEncode_cons (b : UInt8) : encode (hexEncode (b :: bytes)) =
    (hexDigit (b >>> 4)).toNat.toUInt8 :: (hexDigit b).toNat.toUInt8 ::
      encode (hexEncode bytes) := by
  have high := (hexNibble_hexDigit (b >>> 4)).1
  have low := (hexNibble_hexDigit b).1
  have split : hexEncode (b :: bytes) = [hexDigit (b >>> 4)] ++ ([hexDigit b] ++ hexEncode bytes) :=
    rfl
  rw [split, encode_append, encode_append, high, low]
  rfl

theorem length_hexEncode : (encode (hexEncode bytes)).length = 2 * bytes.length := by
  induction bytes with
  | nil => rfl
  | cons b bytes ih =>
    rw [encode_hexEncode_cons]
    simp [ih]
    omega

theorem nibbles (b : UInt8) : (b >>> 4 &&& 0x0f) <<< 4 ||| (b &&& 0x0f) = b := by
  revert b
  refine forall_byte ?_
  decide +kernel

theorem hexPairs_hexEncode : hexPairs (encode (hexEncode bytes)) = .ok bytes := by
  induction bytes with
  | nil => rfl
  | cons b bytes ih =>
    rw [encode_hexEncode_cons]
    simp only [hexPairs, (hexNibble_hexDigit _).2, ih]
    exact congrArg (fun x => Except.ok (x :: bytes)) (nibbles b)

theorem hexDecode_hexEncode : hexDecode (hexEncode bytes) = .ok bytes := by
  have heven : (encode (hexEncode bytes)).length % 2 ≠ 1 := by
    rw [length_hexEncode]
    omega
  rw [hexDecode, if_neg heven, hexPairs_hexEncode]

theorem hexNibble_ok {b n : UInt8} (h : hexNibble b = .ok n) :
    n < 16 ∧ (hexDigit n).toNat.toUInt8 = b := by
  have all : ∀ b, ∀ n ∈ (hexNibble b).toOption, n < 16 ∧ (hexDigit n).toNat.toUInt8 = b := by
    refine forall_byte ?_
    decide +kernel
  exact all b n (by rw [h]; rfl)

/-- The digits of a byte are the ones it was put together from. -/
theorem hexDigit_halves {high low : UInt8} (hhigh : high < 16) (hlow : low < 16) :
    hexDigit ((high <<< 4 ||| low) >>> 4) = hexDigit high ∧
      hexDigit (high <<< 4 ||| low) = hexDigit low := by
  have all : ∀ i j : Fin 16,
      hexDigit ((UInt8.ofNat i <<< 4 ||| UInt8.ofNat j) >>> 4) = hexDigit (UInt8.ofNat i) ∧
      hexDigit (UInt8.ofNat i <<< 4 ||| UInt8.ofNat j) = hexDigit (UInt8.ofNat j) := by
    decide +kernel
  have hpair := all ⟨high.toNat, hhigh⟩ ⟨low.toNat, hlow⟩
  rwa [UInt8.ofNat_toNat, UInt8.ofNat_toNat] at hpair

theorem hexPairs_ok {l : List UInt8} (h : hexPairs l = .ok bytes) (heven : l.length % 2 = 0) :
    l = encode (hexEncode bytes) := by
  induction l using hexPairs.induct generalizing bytes with
  | case1 high low more ih =>
    unfold hexPairs at h
    cases hhigh : hexNibble high with
    | error e =>
      rw [hhigh] at h
      cases h
    | ok x =>
      cases hlow : hexNibble low with
      | error e =>
        rw [hhigh, hlow] at h
        cases h
      | ok y =>
        cases hmore : hexPairs more with
        | error e =>
          rw [hhigh, hlow, hmore] at h
          cases h
        | ok rest =>
          rw [hhigh, hlow, hmore] at h
          cases h
          obtain ⟨hx, hxhigh⟩ := hexNibble_ok hhigh
          obtain ⟨hy, hylow⟩ := hexNibble_ok hlow
          obtain ⟨hfirst, hsecond⟩ := hexDigit_halves hx hy
          have hrest : more.length % 2 = 0 := by
            simp only [List.length_cons] at heven
            omega
          rw [encode_hexEncode_cons, hfirst, hsecond, hxhigh, hylow, ← ih hmore hrest]
  | case2 l hl =>
    cases l with
    | nil =>
      cases h
      rfl
    | cons b l =>
      cases l with
      | nil => cases heven
      | cons c l => exact absurd rfl (hl b c l)

/-- What is decoded was encoded: the digits of a text of bytes are unique. -/
theorem hexDecode_ok {value : Text} : hexDecode value = .ok bytes ↔ value = hexEncode bytes := by
  constructor
  · intro h
    unfold hexDecode at h
    split at h
    · cases h
    · exact encode_inj.1 (hexPairs_ok h (by omega))
  · intro h
    rw [h, hexDecode_hexEncode]

theorem take_hexEncode (n : Nat) : (hexEncode bytes).take (2 * n) = hexEncode (bytes.take n) := by
  induction n generalizing bytes with
  | zero => simp [hexEncode]
  | succ n ih =>
    cases bytes with
    | nil => simp [hexEncode]
    | cons b bytes =>
      have hrest := @ih bytes
      simp only [hexEncode] at hrest
      simp [hexEncode, Nat.mul_succ, hrest]

theorem hexEncode_prefix {more : List UInt8} (h : hexEncode bytes <+: hexEncode more) :
    bytes <+: more := by
  have hlen : (hexEncode bytes).length = 2 * bytes.length := by
    simp [hexEncode, Nat.mul_comm]
  have htake := List.prefix_iff_eq_take.1 h
  rw [hlen, take_hexEncode] at htake
  have hbytes := hexDecode_ok.2 htake
  rw [hexDecode_hexEncode] at hbytes
  rw [Except.ok.inj hbytes]
  exact List.take_prefix _ _

theorem mem_hexEncode {c : Char} (h : c ∈ hexEncode bytes) : c ∈ hexDigits := by
  obtain ⟨b, -, hb⟩ := List.mem_flatMap.1 h
  have digit : ∀ n : UInt8, hexDigit n ∈ hexDigits := by
    refine forall_byte ?_
    decide +kernel
  simp only [List.mem_cons, List.not_mem_nil, or_false] at hb
  rcases hb with rfl | rfl
  · exact digit _
  · exact digit _

end Hex

end Chimera.Lib.Fields
