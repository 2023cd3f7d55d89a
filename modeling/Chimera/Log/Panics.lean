import Chimera.Log.Bounds

/-! Where the parser panics: at a clash-rs source that a whitespace of more than
one byte precedes, and at a first Premium record observed outside the calendar.
Every other call returns. -/

namespace Chimera.Log
open Chimera.Model Chimera.Lib.Utf8

/-- The computation does not panic. -/
def Returns {α : Type} (p : Checked α) : Prop := ∃ a, p = .ok a

section Returns

variable {α β : Type} {p : Checked α} {f : α → Checked β}

@[simp] theorem Returns.ok (a : α) : Returns (.ok a : Checked α) := ⟨a, rfl⟩

@[simp] theorem returns_error (e : Panic) : ¬Returns (.error e : Checked α) := nofun

theorem Returns.bind (hp : Returns p) (hf : ∀ a, p = .ok a → Returns (f a)) :
    Returns (p >>= f) := by
  obtain ⟨a, rfl⟩ := hp
  exact hf a rfl

end Returns

/-! ## Escapes -/

section Ansi

variable {bs rest : List UInt8}

/-- Bytes that are no ASCII pass through plain text, -/
theorem stripBytes_plain_wide (h : ∀ b ∈ bs, (0x80 : UInt8) ≤ b) :
    stripBytes .plain (bs ++ rest) = bs ++ stripBytes .plain rest := by
  induction bs with
  | nil => rfl
  | cons b bs ih =>
    have hb : b ≠ 0x1b := by
      rintro rfl
      exact absurd (h _ List.mem_cons_self) (by decide)
    simp [stripBytes, hb, ih fun x hx => h x (List.mem_cons_of_mem _ hx)]

/-- and do not end a control sequence. -/
theorem stripBytes_sequence_wide (h : ∀ b ∈ bs, (0x80 : UInt8) ≤ b) :
    stripBytes .sequence (bs ++ rest) = stripBytes .sequence rest := by
  induction bs with
  | nil => rfl
  | cons b bs ih =>
    have hb : ¬(0x40 ≤ b ∧ b ≤ 0x7e) := by
      intro hb
      have hle : (0x80 : UInt8) ≤ 0x7e := UInt8.le_trans (h b List.mem_cons_self) hb.2
      exact absurd hle (by decide)
    simp [stripBytes, hb, ih fun x hx => h x (List.mem_cons_of_mem _ hx)]

/-- Whole characters are dropped, so what is left is a text again. -/
theorem stripBytes_encode (mode : AnsiMode) (t : Text) :
    ∃ u, stripBytes mode (encode t) = encode u := by
  induction t generalizing mode with
  | nil => exact ⟨[], by cases mode <;> rfl⟩
  | cons c t ih =>
    have keep {rest : List UInt8} (h : ∃ u, rest = encode u) :
        ∃ u, String.utf8EncodeChar c ++ rest = encode u := by
      obtain ⟨u, rfl⟩ := h
      exact ⟨c :: u, rfl⟩
    rcases encodeChar_cases c with ⟨b, -, hb⟩ | ⟨hne, hwide⟩
    · rw [hb] at keep
      rw [encode_cons, hb]
      cases mode with
      | plain =>
        simp only [List.cons_append, List.nil_append, stripBytes]
        split
        · exact ih .escape
        · exact keep (ih .plain)
      | escape =>
        simp only [List.cons_append, List.nil_append, stripBytes]
        split
        · exact ih .sequence
        · split
          · exact ih .escape
          · exact keep (ih .plain)
      | sequence =>
        simp only [List.cons_append, List.nil_append, stripBytes]
        split
        · exact ih .plain
        · exact ih .sequence
    · rw [encode_cons]
      cases mode with
      | plain =>
        rw [stripBytes_plain_wide hwide]
        exact keep (ih .plain)
      | sequence =>
        rw [stripBytes_sequence_wide hwide]
        exact ih .sequence
      | escape =>
        -- behind an escape its first byte is plain text
        have hplain : stripBytes .escape (String.utf8EncodeChar c ++ encode t) =
            stripBytes .plain (String.utf8EncodeChar c ++ encode t) := by
          obtain ⟨b, bs, hbs⟩ := List.exists_cons_of_ne_nil hne
          rw [hbs] at hwide ⊢
          have hb := hwide b List.mem_cons_self
          have hopen : b ≠ 0x5b := by rintro rfl; exact absurd hb (by decide)
          have hescape : b ≠ 0x1b := by rintro rfl; exact absurd hb (by decide)
          simp [stripBytes, hopen, hescape]
        rw [hplain, stripBytes_plain_wide hwide]
        exact keep (ih .plain)

theorem stripAnsi_returns (line : Text) : Returns (stripAnsi line) := by
  unfold stripAnsi
  split
  · exact .ok _
  · obtain ⟨u, hu⟩ := stripBytes_encode .plain line
    simp [hu]

end Ansi

/-! ## Tokens and numbers -/

theorem sliceTo_append (a b : Text) : sliceTo (a ++ b) (size a) = .ok a := by simp [sliceTo]

theorem sliceFrom_append (a b : Text) : sliceFrom (a ++ b) (size a) = .ok b := by simp [sliceFrom]

theorem takeToken_returns (input : Text) : Returns (takeToken input) := by
  unfold takeToken
  simp only
  cases hfind : find isWhitespace (trimStart input) with
  | none => exact .ok _
  | some stop =>
    obtain ⟨a, c, b, ht, rfl, -, -⟩ := find_eq_some hfind
    rw [ht]
    simp [sliceTo_append, sliceFrom_append]

theorem parseMeow_returns (chrono : Chrono) (line : Text) : Returns (parseMeow chrono line) := by
  unfold parseMeow
  refine (takeToken_returns line).bind fun first _ => ?_
  cases first with
  | none => exact .ok _
  | some token =>
    refine (takeToken_returns token.2).bind fun second _ => ?_
    cases second with
    | none => exact .ok _
    | some token => exact .ok _

theorem digits_lt (digits : Text) (h : digits.all isDigit = true) (n : Nat) :
    digits.foldl (fun n c => n * 10 + digitValue c) n < (n + 1) * 10 ^ digits.length := by
  induction digits generalizing n with
  | nil => simp
  | cons c digits ih =>
    simp only [List.all_cons, Bool.and_eq_true] at h
    have hc : digitValue c ≤ 9 := by
      have h9 := h.1
      simp only [isDigit, Bool.and_eq_true, decide_eq_true_eq] at h9
      have : c.toNat ≤ '9'.toNat := h9.2
      have h9 : '9'.toNat = 57 := rfl
      have h0 : '0'.toNat = 48 := rfl
      unfold digitValue
      omega
    refine lt_of_lt_of_le (ih h.2 _) ?_
    rw [List.length_cons, pow_succ, Nat.mul_comm (10 ^ _) 10, ← Nat.mul_assoc]
    refine Nat.mul_le_mul_right _ ?_
    show n * 10 + digitValue c + 1 ≤ (n + 1) * 10
    omega

theorem length_le_size (t : Text) : t.length ≤ size t := by
  induction t with
  | nil => exact le_rfl
  | cons c t ih =>
    have hc := c.utf8Size_pos
    simp only [List.length_cons, size_cons]
    omega

/-- A number has no more digits than its text has bytes. -/
theorem parseU32_lt {text : Text} {value : Nat} (h : parseU32 text = some value) :
    value < 10 ^ size text := by
  unfold parseU32 at h
  generalize hdigits : (if text.head? = some '+' then text.tail else text) = digits at h
  have hlength : digits.length ≤ text.length := by
    rw [← hdigits]
    split
    · simp
    · exact le_rfl
  by_cases hbad : (digits.isEmpty || !digits.all isDigit) = true
  · simp [hbad] at h
  · simp only [hbad, Bool.false_eq_true, if_false] at h
    split at h
    · cases h
      simp only [Bool.or_eq_true, Bool.not_eq_true', not_or, Bool.not_eq_false] at hbad
      refine lt_of_lt_of_le (digits_lt _ hbad.2 0) ?_
      rw [Nat.zero_add, Nat.one_mul]
      exact Nat.pow_le_pow_right (by decide) (le_trans hlength (length_le_size text))
    · cases h

theorem clashRsNanos_returns {value digits : Nat} (hd : digits ≤ 9) (hv : value < 10 ^ digits) :
    Returns (clashRsNanos value digits) := by
  have hpow : 10 ^ (9 - digits) ≤ 10 ^ 9 := Nat.pow_le_pow_right (by decide) (Nat.sub_le _ _)
  have hproduct : value * 10 ^ (9 - digits) ≤ 10 ^ 9 :=
    calc value * 10 ^ (9 - digits) ≤ 10 ^ digits * 10 ^ (9 - digits) :=
          Nat.mul_le_mul_right _ (le_of_lt hv)
      _ = 10 ^ 9 := by rw [← pow_add, Nat.add_sub_cancel' hd]
  have hsub : checkedSub 9 digits = .ok (9 - digits) := if_pos hd
  have hfactor : checkedMul 1 (10 ^ (9 - digits)) = .ok (10 ^ (9 - digits)) := by
    rw [checkedMul, Nat.one_mul, if_pos (by omega)]
  have hmul : checkedMul value (10 ^ (9 - digits)) = .ok (value * 10 ^ (9 - digits)) :=
    if_pos (by omega)
  simp only [clashRsNanos, hsub, hfactor, hmul, Checked.ok_bind]
  exact .ok _

/-! ## clash-rs -/

theorem digits_returns {bytes : List UInt8} (hlength : 18 ≤ bytes.length) (numbers : List (Nat × Nat))
    (hnumbers : ∀ x ∈ numbers, x.1 ≤ x.2 ∧ x.2 ≤ 18) :
    Returns (numbers.allM fun (start, stop) => do
      return (← byteSlice bytes start stop).all isAsciiDigit) := by
  induction numbers with
  | nil => exact .ok _
  | cons x numbers ih =>
    have hx := hnumbers x List.mem_cons_self
    have hslice : byteSlice bytes x.1 x.2 = .ok ((bytes.drop x.1).take (x.2 - x.1)) :=
      if_pos ⟨hx.1, le_trans hx.2 hlength⟩
    simp only [List.allM, hslice, Checked.ok_bind, Checked.pure_eq]
    split
    · exact ih fun y hy => hnumbers y (List.mem_cons_of_mem _ hy)
    · exact .ok _

/-- A recognized timestamp has at most nine digits after the seconds. -/
theorem clashRsTimestampEnd_eq (line : Text) :
    ∃ stop, clashRsTimestampEnd line = .ok stop ∧ ∀ n, stop = some n → n ≤ 27 := by
  unfold clashRsTimestampEnd
  simp only
  split
  · exact ⟨none, rfl, (by rintro _ ⟨⟩)⟩
  rename_i hseparators
  have hlast : (encode line)[17]? = some 0x3a := by
    simp only [Bool.not_eq_true, Bool.not_eq_false', List.all_eq_true] at hseparators
    simpa using hseparators (17, 0x3a) (by simp [clashRsSeparators])
  have hlength : 18 ≤ (encode line).length := by
    have := (List.getElem?_eq_some_iff.1 hlast).1
    omega
  obtain ⟨ok, hok⟩ := digits_returns hlength clashRsNumbers (by decide)
  rw [hok]
  simp only [Checked.ok_bind]
  split
  · exact ⟨none, rfl, (by rintro _ ⟨⟩)⟩
  have htail : byteSlice (encode line) 18 (encode line).length = .ok
      (((encode line).drop 18).take ((encode line).length - 18)) := if_pos ⟨hlength, le_rfl⟩
  simp only [htail, Checked.ok_bind]
  refine ⟨_, rfl, ?_⟩
  intro n hn
  split at hn
  · cases hn
    omega
  · cases hn

theorem clashRsHead_eq (line : Text) :
    ∃ head, clashRsHead line = .ok head ∧
      ∀ rawTime level rest, head = some (rawTime, level, rest) → size rawTime ≤ 27 := by
  obtain ⟨stop, hstop, hle⟩ := clashRsTimestampEnd_eq line
  unfold clashRsHead
  rw [hstop]
  simp only [Checked.ok_bind]
  cases stop with
  | none => exact ⟨none, rfl, nofun⟩
  | some n =>
    simp only
    cases hto : getTo line n with
    | none => exact ⟨none, rfl, nofun⟩
    | some rawTime =>
      cases hfrom : getFrom line n with
      | none => exact ⟨none, rfl, nofun⟩
      | some tail =>
        obtain ⟨token, htoken⟩ := takeToken_returns tail
        simp only [htoken, Checked.ok_bind]
        cases token with
        | none => exact ⟨none, rfl, nofun⟩
        | some token =>
          refine ⟨_, rfl, ?_⟩
          intro raw level rest heq
          obtain ⟨_, -, hpair⟩ := Option.map_eq_some_iff.1 heq
          cases hpair
          obtain ⟨b, -, rfl⟩ := getTo_eq_some.1 hto
          exact hle _ rfl

theorem clashRsUnixMs_returns {chrono : Chrono} {raw : Text} {offset : Int}
    (h : size raw ≤ 27) : Returns (clashRsUnixMs chrono raw offset) := by
  unfold clashRsUnixMs
  cases hfrom : getFrom raw 18 with
  | none => exact .ok _
  | some subsecond =>
    simp only
    cases hvalue : parseU32 subsecond with
    | none => exact .ok _
    | some value =>
      obtain ⟨a, rfl, ha⟩ := getFrom_eq_some.1 hfrom
      rw [size_append] at h
      exact (clashRsNanos_returns (by omega) (parseU32_lt hvalue)).bind fun _ _ => .ok _

/-! ### Sources -/

/-- What stands before the colon of a `head` that ends in a line number. -/
def beforeLine (head : Text) : Option Text := do
  let colon ← rfind (· = ':') head
  let digits ← getFrom head (colon + 1)
  if digits.isEmpty || !(encode digits).all isAsciiDigit then none else getTo head colon

/-- The last whitespace before the colon has more than one byte. -/
def endsWide (before : Text) : Bool :=
  match before.reverse.find? isWhitespace with
  | some c => decide (1 < c.utf8Size)
  | none => false

/-- Nothing stands between the last whitespace and the colon. -/
def isBare (before : Text) : Bool :=
  match before.getLast? with
  | some c => isWhitespace c
  | none => true

/-- The first line number with a file before it has that file behind a wide
whitespace. -/
def wideSource (rest : Text) : List Nat → Bool
  | [] => false
  | separator :: more => match (getTo rest separator).bind beforeLine with
    | none => wideSource rest more
    | some before => endsWide before || (isBare before && wideSource rest more)

section Sources

variable {head message rest before : Text}

/-- The last whitespace of a text, by its offset. -/
theorem lastWhitespace (before : Text) :
    (rfind isWhitespace before = none ∧ endsWide before = false ∧
      (isBare before = true ↔ before = [])) ∨
    ∃ a c b, before = a ++ c :: b ∧ rfind isWhitespace before = some (size a) ∧
      (endsWide before = true ↔ 1 < c.utf8Size) ∧ (isBare before = true ↔ b = []) := by
  cases hr : rfind isWhitespace before with
  | none =>
    have hnone := rfind_eq_none.1 hr
    refine .inl ⟨rfl, ?_, ?_⟩
    · have hfind : before.reverse.find? isWhitespace = none := by
        rw [List.find?_eq_none]
        intro x hx
        simp [hnone x (List.mem_reverse.1 hx)]
      rw [endsWide, hfind]
    · unfold isBare
      split
      · rename_i c hc
        have hmem := List.mem_of_getLast? hc
        rw [hnone c hmem]
        constructor
        · nofun
        · rintro rfl
          cases hc
      · rename_i hlast
        exact ⟨fun _ => List.getLast?_eq_none_iff.1 hlast, fun _ => rfl⟩
  | some i =>
    obtain ⟨a, c, b, rfl, rfl, hc, hb⟩ := rfind_eq_some.1 hr
    refine .inr ⟨a, c, b, rfl, rfl, ?_, ?_⟩
    · have hfind : (a ++ c :: b).reverse.find? isWhitespace = some c := by
        rw [List.reverse_append, List.reverse_cons, List.append_assoc, List.find?_append]
        have hnone : b.reverse.find? isWhitespace = none := by
          rw [List.find?_eq_none]
          intro x hx
          simp [hb x (List.mem_reverse.1 hx)]
        simp [hnone, hc]
      rw [endsWide, hfind]
      simp
    · unfold isBare
      rw [List.getLast?_append]
      cases hlast : b.getLast? with
      | none =>
        have hnil := List.getLast?_eq_none_iff.1 hlast
        subst hnil
        simp [hc]
      | some x =>
        have hx := hb x (List.mem_of_getLast? hlast)
        have hne : b ≠ [] := by
          rintro rfl
          cases hlast
        rw [List.getLast?_cons, hlast]
        simp [hx, hne]

/-- One occurrence of `": "`: no line number, a panic, no file, or the source. -/
theorem clashRsAnchor_cases (h : rest = head ++ ": ".toList ++ message) :
    (beforeLine head = none ∧ clashRsAnchor rest (size head) = .ok none) ∨
    ∃ before, beforeLine head = some before ∧
      ((endsWide before = true ∧ clashRsAnchor rest (size head) = .error .slice) ∨
        (endsWide before = false ∧ isBare before = true ∧
          clashRsAnchor rest (size head) = .ok none) ∨
        (endsWide before = false ∧ isBare before = false ∧
          ∃ target, clashRsAnchor rest (size head) = .ok (some (target, message)))) := by
  have hhead : sliceTo rest (size head) = .ok head := by
    rw [h, List.append_assoc, sliceTo_append]
  have hmessage : sliceFrom rest (size head + 2) = .ok message := by
    have hsize : size head + 2 = size (head ++ ": ".toList) := by
      rw [size_append]
      rfl
    rw [h, hsize, sliceFrom_append]
  unfold clashRsAnchor
  simp only [hhead, Checked.ok_bind]
  cases hcolon : rfind (· = ':') head with
  | none =>
    refine .inl ⟨?_, rfl⟩
    simp [beforeLine, hcolon]
  | some colon =>
    obtain ⟨before, c, digits, rfl, rfl, hc, hdigits⟩ := rfind_eq_some.1 hcolon
    simp only [decide_eq_true_eq] at hc
    subst hc
    have hsize : size before + 1 = size (before ++ [':']) := by
      rw [size_append]
      rfl
    have hafter : getFrom (before ++ ':' :: digits) (size before + 1) = some digits := by
      rw [List.append_cons, hsize, getFrom_append]
    have hslice : sliceFrom (before ++ ':' :: digits) (size before + 1) = .ok digits := by
      rw [sliceFrom, hafter]
    simp only [hslice, sliceTo_append, Checked.ok_bind]
    by_cases hbad : (digits.isEmpty || !(encode digits).all isAsciiDigit) = true
    · refine .inl ⟨?_, by rw [if_pos hbad]; rfl⟩
      simp only [beforeLine, hcolon, Option.bind_eq_bind, Option.bind_some, hafter, hbad, if_true]
    refine .inr ⟨before, ?_, ?_⟩
    · simp only [beforeLine, hcolon, Option.bind_eq_bind, Option.bind_some, hafter, hbad,
        Bool.false_eq_true, if_false, getTo_append]
    rw [if_neg hbad]
    rcases lastWhitespace before with ⟨hr, hwide, hbare⟩ | ⟨a, c, b, rfl, hr, hwide, hbare⟩
    · simp only [hr]
      by_cases hnil : before = []
      · subst hnil
        exact .inr (.inl ⟨hwide, rfl, rfl⟩)
      · have hne : ¬0 = size before := by
          intro h0
          exact hnil (size_eq_zero.1 h0.symm)
        have hb : isBare before = false := by
          rw [← Bool.not_eq_true, hbare]
          exact hnil
        have hwhole : sliceFrom (before ++ ':' :: digits) 0 = .ok (before ++ ':' :: digits) := by
          simp [sliceFrom, getFrom]
        refine .inr (.inr ⟨hwide, hb, before ++ ':' :: digits, ?_⟩)
        rw [if_neg hne]
        simp only [hwhole, hmessage, Checked.ok_bind]
        rfl
    · simp only [hr]
      by_cases hw : 1 < c.utf8Size
      · have hne : ¬size a + 1 = size (a ++ c :: b) := by
          rw [size_append, size_cons]
          omega
        refine .inl ⟨hwide.2 hw, ?_⟩
        rw [if_neg hne]
        have hnone : getFrom (a ++ c :: b ++ ':' :: digits) (size a + 1) = none := by
          by_contra hsome
          obtain ⟨after, hafter⟩ := Option.ne_none_iff_exists'.1 hsome
          obtain ⟨front, hfront, hoff⟩ := getFrom_eq_some.1 hafter
          exact no_boundary_inside (by simpa using hfront) hw hoff
        rw [show sliceFrom (a ++ c :: b ++ ':' :: digits) (size a + 1) = .error .slice by
          rw [sliceFrom, hnone]]
        rfl
      · have hone : c.utf8Size = 1 := by
          have := c.utf8Size_pos
          omega
        have hnarrow : endsWide (a ++ c :: b) = false := by
          rw [← Bool.not_eq_true, hwide]
          exact hw
        have hstart : size a + 1 = size (a ++ [c]) := by simp [hone]
        by_cases hnil : b = []
        · subst hnil
          refine .inr (.inl ⟨hnarrow, hbare.2 rfl, ?_⟩)
          rw [if_pos hstart]
          rfl
        · have hne : ¬size a + 1 = size (a ++ c :: b) := by
            have := size_pos hnil
            rw [size_append, size_cons, hone]
            omega
          have hb : isBare (a ++ c :: b) = false := by
            rw [← Bool.not_eq_true, hbare]
            exact hnil
          have htarget : sliceFrom (a ++ c :: b ++ ':' :: digits) (size a + 1) =
              .ok (b ++ ':' :: digits) := by
            rw [hstart, List.append_cons a c b, List.append_assoc, sliceFrom_append]
          refine .inr (.inr ⟨hnarrow, hb, b ++ ':' :: digits, ?_⟩)
          rw [if_neg hne]
          simp only [htarget, hmessage, Checked.ok_bind]
          rfl

theorem clashRsSourceFrom_returns (separators : List Nat)
    (h : ∀ separator ∈ separators, ∃ head message, rest = head ++ ": ".toList ++ message ∧
      separator = size head) :
    Returns (clashRsSourceFrom rest separators) ↔ wideSource rest separators = false := by
  induction separators with
  | nil => exact ⟨fun _ => rfl, fun _ => .ok _⟩
  | cons separator more ih =>
    obtain ⟨head, message, hrest, rfl⟩ := h separator List.mem_cons_self
    have hmore := ih fun s hs => h s (List.mem_cons_of_mem _ hs)
    have hto : getTo rest (size head) = some head := by
      rw [hrest, List.append_assoc, getTo_append]
    rcases clashRsAnchor_cases hrest with ⟨hbefore, hanchor⟩ | ⟨before, hbefore, hcases⟩
    · simp only [clashRsSourceFrom, hanchor, Checked.ok_bind, wideSource, hto, Option.bind_some,
        hbefore]
      exact hmore
    · rcases hcases with ⟨hwide, hanchor⟩ | ⟨hwide, hbare, hanchor⟩ | ⟨hwide, hbare, target, hanchor⟩
      · simp only [clashRsSourceFrom, hanchor, wideSource, hto, Option.bind_some, hbefore, hwide,
          Bool.true_or, Bool.true_eq_false, iff_false]
        exact returns_error _
      · simp only [clashRsSourceFrom, hanchor, Checked.ok_bind, wideSource, hto, Option.bind_some,
          hbefore, hwide, hbare, Bool.false_or, Bool.true_and]
        exact hmore
      · simp only [clashRsSourceFrom, hanchor, Checked.ok_bind, wideSource, hto, Option.bind_some,
          hbefore, hwide, hbare, Bool.false_or, Bool.false_and, iff_true]
        exact .ok _

end Sources

/-! ## Calls -/

/-- The header of a clash-rs record runs into a wide source. -/
def clashRsWide (line : Text) : Bool :=
  match clashRsHead line with
  | .ok (some (_, _, rest)) => wideSource rest (matchIndices ": ".toList rest)
  | _ => false

/-- A Premium record sets the clock from an observation outside the calendar. -/
def premiumAdrift (chrono : Chrono) (clock : Clock) (line : Text) (observedAt : Observed) : Bool :=
  clock.isNone && (premiumHead chrono line).isSome &&
    !chrono.holds ((observedAt.secs + observedAt.offset).fdiv 86400)

/-- The line without its escapes cannot be read. -/
def LogParser.unreadable (chrono : Chrono) (p : LogParser) (line : Text) (observedAt : Observed) :
    Bool :=
  match p.kind with
  | .mihomo | .meow => false
  | .clashRust | .chimeraClient => clashRsWide line
  | .clashPremium => premiumAdrift chrono p.premiumClock line observedAt

def LogParser.breaks (chrono : Chrono) (p : LogParser) : Call → Bool
  | .finish => false
  | .push _ line observedAt => match stripAnsi line with
    | .ok line => p.unreadable chrono line observedAt
    | .error _ => false

section Calls

variable {chrono : Chrono} {p : LogParser} {line : Text} {observedAt : Observed}

theorem parseClashRs_returns :
    Returns (parseClashRs chrono line observedAt) ↔ clashRsWide line = false := by
  obtain ⟨head, hhead, hsize⟩ := clashRsHead_eq line
  unfold parseClashRs clashRsWide
  simp only [hhead, Checked.ok_bind]
  cases head with
  | none => exact ⟨fun _ => rfl, fun _ => .ok _⟩
  | some parts =>
    obtain ⟨rawTime, level, rest⟩ := parts
    simp only
    have hsource := @clashRsSourceFrom_returns rest (matchIndices ": ".toList rest) ?_
    · rw [← hsource]
      constructor
      · intro h
        rcases hs : clashRsSource rest with e | source
        · rw [hs] at h
          exact absurd h (returns_error e)
        · exact ⟨source, hs⟩
      · intro h
        refine Returns.bind h fun source _ => ?_
        cases source with
        | none => exact .ok _
        | some source =>
          exact (clashRsUnixMs_returns (hsize rawTime level rest rfl)).bind fun _ _ => .ok _
    · intro separator hs
      obtain ⟨head, message, hrest, hoff⟩ := mem_matchIndices hs
      exact ⟨head, message, hrest, hoff⟩

theorem dated_returns {time : NaiveTime} {offset : Int} (clock : Clock) (date : Option Int) :
    Returns (match date with
      | none => pure (none, clock)
      | some date => pure (localUnixMs chrono date time offset, some (date, time)) :
        Checked (Option Int × Clock)) := by
  cases date with
  | none => exact .ok _
  | some date => exact .ok _

theorem premiumUnixMs_returns {time : NaiveTime} {clock : Clock} :
    Returns (premiumUnixMs chrono time observedAt clock) ↔
      (clock.isNone && !chrono.holds ((observedAt.secs + observedAt.offset).fdiv 86400)) = false := by
  unfold premiumUnixMs
  cases clock with
  | some previous =>
    simp only [Option.isNone_some, Bool.false_and, iff_true]
    split
    · exact dated_returns (some previous) (chrono.day? (previous.1 + 1))
    · exact dated_returns (some previous) (some previous.1)
  | none =>
    simp only [Option.isNone_none, Bool.true_and, Bool.not_eq_false', Observed.dateNaive]
    split
    · rename_i hholds
      simp only [hholds, iff_true, Checked.ok_bind]
      split
      · exact dated_returns none (chrono.day? _)
      · exact dated_returns none (some _)
    · rename_i hholds
      constructor
      · intro h
        exact absurd h (returns_error _)
      · intro h
        exact absurd h hholds

theorem parsePremium_returns {clock : Clock} :
    Returns (parsePremium chrono line observedAt clock) ↔
      premiumAdrift chrono clock line observedAt = false := by
  unfold parsePremium premiumAdrift
  cases hhead : premiumHead chrono line with
  | none => simp
  | some parts =>
    obtain ⟨rawTime, time, level, body⟩ := parts
    simp only [Option.isSome_some, Bool.and_true]
    rw [← @premiumUnixMs_returns chrono observedAt time]
    constructor
    · intro h
      rcases hr : premiumUnixMs chrono time observedAt clock with e | r
      · rw [hr] at h
        exact absurd h (returns_error e)
      · exact ⟨r, rfl⟩
    · intro h
      exact h.bind fun _ _ => .ok _

theorem parseHeader_returns :
    Returns (p.parseHeader chrono line observedAt) ↔ p.unreadable chrono line observedAt = false := by
  have seq {α β : Type} {q : Checked α} {f : α → β} : Returns (do pure (f (← q))) ↔ Returns q := by
    constructor
    · intro h
      rcases hq : q with e | a
      · rw [hq] at h
        exact absurd h (returns_error e)
      · exact .ok a
    · intro h
      exact h.bind fun _ _ => .ok _
  unfold LogParser.parseHeader LogParser.unreadable
  cases p.kind with
  | mihomo => simp
  | meow => simp only [iff_true]; exact seq.2 (parseMeow_returns chrono line)
  | clashRust | chimeraClient => exact seq.trans parseClashRs_returns
  | clashPremium => exact seq.trans parsePremium_returns

theorem pushPlain_returns {stream : LogStream} :
    Returns (p.pushPlain stream line observedAt) := by
  unfold LogParser.pushPlain
  simp only
  split
  · rename_i pending _
    obtain ⟨next, hnext, -⟩ := pending.append_eq line
    rw [hnext]
    exact .ok _
  · refine Returns.bind ?_ fun _ _ => .ok _
    exact ⟨_, boundFrame_eq _⟩

/-- A call returns, unless its line cannot be read. -/
theorem call_returns (call : Call) :
    Returns (p.call chrono call) ↔ p.breaks chrono call = false := by
  cases call with
  | finish => exact ⟨fun _ => rfl, fun _ => .ok _⟩
  | push stream line observedAt =>
    obtain ⟨plain, hplain⟩ := stripAnsi_returns line
    simp only [LogParser.call, LogParser.pushAt, LogParser.breaks, hplain, Checked.ok_bind]
    rw [← parseHeader_returns]
    constructor
    · intro h
      rcases hr : p.parseHeader chrono plain observedAt with e | r
      · rw [hr] at h
        exact absurd h (returns_error e)
      · exact .ok r
    · intro h
      refine h.bind fun r _ => ?_
      obtain ⟨parsed, q⟩ := r
      cases parsed with
      | none => exact pushPlain_returns
      | some parsed =>
        refine Returns.bind ?_ fun _ _ => .ok _
        exact ⟨_, boundFrame_eq _⟩

end Calls

/-! ## Runs -/

/-- No call of the run breaks the parser in the state it finds it in. -/
def LogParser.Unbroken (chrono : Chrono) : LogParser → List Call → Prop
  | _, [] => True
  | p, call :: rest => p.breaks chrono call = false ∧
    ∀ q frames, p.call chrono call = .ok (q, frames) → q.Unbroken chrono rest

/-- A run of the parser panics at no call exactly when no line is a clash-rs
record whose source follows a whitespace of several bytes, nor a first Premium
record observed outside the calendar. -/
theorem parser_returns_iff (chrono : Chrono) (p : LogParser) (calls : List Call) :
    (∃ r, p.calls chrono calls = .ok r) ↔ p.Unbroken chrono calls := by
  induction calls generalizing p with
  | nil => exact ⟨fun _ => trivial, fun _ => ⟨_, rfl⟩⟩
  | cons call rest ih =>
    simp only [LogParser.Unbroken, LogParser.calls]
    rw [← call_returns]
    constructor
    · intro h
      rcases hcall : p.call chrono call with e | ⟨q, frames⟩
      · rw [hcall] at h
        exact absurd h (returns_error e)
      · refine ⟨.ok _, ?_⟩
        intro q' frames' heq
        cases heq
        rw [← ih]
        rw [hcall] at h
        simp only [Checked.ok_bind] at h
        rcases hrest : q.calls chrono rest with e | r
        · rw [hrest] at h
          exact absurd h (returns_error e)
        · exact ⟨r, rfl⟩
    · intro h
      obtain ⟨⟨⟨q, frames⟩, hcall⟩, hrest⟩ := h
      obtain ⟨r, hr⟩ := (ih q).2 (hrest q frames hcall)
      simp only [hcall, hr, Checked.ok_bind]
      exact ⟨_, rfl⟩

/-- A calendar whose parsers are not asked. -/
def bareChrono : Chrono where
  parseRfc3339 := fun _ => none
  parseTime := fun _ => none
  fromYmd := fun _ _ _ => none
  minDay := -95746129
  maxDay := 95026237

/-- A clash-rs record with an ideographic space in the path of its source. -/
def wideLine : Text := "26-07-29 00:16:35:1 INFO a\u3000b.rs:1: x".toList

theorem wide_source_panics : (LogParser.new .clashRust 1).calls bareChrono
    [.push .stdout wideLine ⟨1785283200, 0, 28800⟩, .finish] = .error .slice := by
  decide +kernel

end Chimera.Log
