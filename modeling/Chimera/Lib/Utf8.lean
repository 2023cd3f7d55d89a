import Mathlib.Data.List.Basic
import Mathlib.Data.Nat.Bitwise

/-! Strings as lists of characters, addressed by byte offsets of their UTF-8
encoding. An offset that splits a character is no boundary, and a slice at it
does not exist; what a search returns is always a boundary. -/

namespace Chimera.Lib.Utf8

abbrev Text := List Char

/-- The length in bytes. -/
def size : Text → Nat
  | [] => 0
  | c :: t => c.utf8Size + size t

def encode (t : Text) : List UInt8 := t.flatMap String.utf8EncodeChar

def decode (bytes : List UInt8) : Option Text :=
  bytes.toByteArray.utf8Decode?.map Array.toList

/-- The text before and after a byte offset, when that is a boundary. -/
def split : Text → Nat → Option (Text × Text)
  | t, 0 => some ([], t)
  | [], _ + 1 => none
  | c :: t, n + 1 =>
    if c.utf8Size ≤ n + 1 then (split t (n + 1 - c.utf8Size)).map fun (a, b) => (c :: a, b)
    else none

def isBoundary (t : Text) (i : Nat) : Bool := (split t i).isSome

def getTo (t : Text) (i : Nat) : Option Text := (split t i).map Prod.fst

def getFrom (t : Text) (i : Nat) : Option Text := (split t i).map Prod.snd

def get (t : Text) (i j : Nat) : Option Text :=
  if i ≤ j then (getFrom t i).bind (getTo · (j - i)) else none

/-- The longest leading part of at most `n` bytes. -/
def fitting : Text → Nat → Text
  | [], _ => []
  | c :: t, n => if c.utf8Size ≤ n then c :: fitting t (n - c.utf8Size) else []

/-! ## Searching -/

/-- The offset of the first character that satisfies `p`. -/
def find (p : Char → Bool) : Text → Option Nat
  | [] => none
  | c :: t => if p c then some 0 else (find p t).map (c.utf8Size + ·)

/-- The offset of the last character that satisfies `p`. -/
def rfind (p : Char → Bool) : Text → Option Nat
  | [] => none
  | c :: t => match rfind p t with
    | some i => some (c.utf8Size + i)
    | none => if p c then some 0 else none

/-- The offsets of the disjoint occurrences of `pat`, from `at` on; the next
`skip` characters belong to an occurrence that was found. -/
def matchIndicesFrom (pat : Text) : Nat → Nat → Text → List Nat
  | _, _, [] => []
  | skip + 1, start, c :: t => matchIndicesFrom pat skip (start + c.utf8Size) t
  | 0, start, c :: t =>
    if pat.isPrefixOf (c :: t) then
      start :: matchIndicesFrom pat (pat.length - 1) (start + c.utf8Size) t
    else matchIndicesFrom pat 0 (start + c.utf8Size) t

def matchIndices (pat t : Text) : List Nat := matchIndicesFrom pat 0 0 t

/-- What stands before and after the first occurrence of `pat`. -/
def splitOnce (pat : Text) : Text → Option (Text × Text)
  | [] => none
  | c :: t =>
    if pat.isPrefixOf (c :: t) then some ([], (c :: t).drop pat.length)
    else (splitOnce pat t).map fun (a, b) => (c :: a, b)

/-- The Unicode property White_Space. -/
def isWhitespace (c : Char) : Bool :=
  (9 ≤ c.toNat && c.toNat ≤ 13) || c.toNat = 0x20 || c.toNat = 0x85 || c.toNat = 0xa0 ||
    c.toNat = 0x1680 || (0x2000 ≤ c.toNat && c.toNat ≤ 0x200a) || c.toNat = 0x2028 ||
    c.toNat = 0x2029 || c.toNat = 0x202f || c.toNat = 0x205f || c.toNat = 0x3000

def trimStart (t : Text) : Text := t.dropWhile isWhitespace

/-! ## Sizes and encodings -/

section Sizes

variable {a b t : Text} {c : Char}

@[simp] theorem size_nil : size [] = 0 := rfl

@[simp] theorem size_cons : size (c :: t) = c.utf8Size + size t := rfl

@[simp] theorem size_append : size (a ++ b) = size a + size b := by
  induction a with
  | nil => simp
  | cons c a ih => simp [ih, Nat.add_assoc]

theorem size_pos (h : t ≠ []) : 0 < size t := by
  cases t with
  | nil => exact absurd rfl h
  | cons c t =>
    have hc := c.utf8Size_pos
    simp only [size_cons]
    omega

@[simp] theorem size_eq_zero : size t = 0 ↔ t = [] := by
  constructor
  · intro h
    by_contra hne
    have hpos := size_pos hne
    omega
  · intro h
    rw [h]
    rfl

@[simp] theorem encode_nil : encode [] = [] := rfl

@[simp] theorem encode_cons : encode (c :: t) = String.utf8EncodeChar c ++ encode t := rfl

@[simp] theorem encode_append : encode (a ++ b) = encode a ++ encode b := by
  simp [encode]

@[simp] theorem length_encode : (encode t).length = size t := by
  induction t with
  | nil => rfl
  | cons c t ih => simp [ih]

@[simp] theorem decode_encode : decode (encode t) = some t := by
  have h : (encode t).toByteArray = t.utf8Encode := rfl
  rw [decode, h, List.utf8Decode?_utf8Encode]
  simp

/-- A character is one ASCII byte, or bytes that are no ASCII. -/
theorem encodeChar_cases (c : Char) :
    (∃ b, b < 0x80 ∧ String.utf8EncodeChar c = [b]) ∨
    (String.utf8EncodeChar c ≠ [] ∧ ∀ b ∈ String.utf8EncodeChar c, 0x80 ≤ b) := by
  have le_ofNat {n : Nat} (h : 0x80 ≤ n) (h' : n < 256) : (0x80 : UInt8) ≤ UInt8.ofNat n := by
    rw [UInt8.le_iff_toNat_le, UInt8.toNat_ofNat', Nat.mod_eq_of_lt h']
    exact h
  unfold String.utf8EncodeChar
  simp only
  split
  · rename_i h
    refine .inl ⟨_, ?_, rfl⟩
    rw [UInt8.lt_iff_toNat_lt, UInt8.toNat_ofNat', Nat.mod_eq_of_lt (by omega)]
    exact Nat.lt_of_le_of_lt h (by decide)
  · refine .inr ⟨?_, ?_⟩
    · split
      · simp
      · split <;> simp
    · intro b hb
      split at hb
      · simp only [List.mem_cons, List.not_mem_nil, or_false] at hb
        rcases hb with rfl | rfl
        · exact le_ofNat (by omega) (by omega)
        · exact le_ofNat (by omega) (by omega)
      · split at hb
        · simp only [List.mem_cons, List.not_mem_nil, or_false] at hb
          rcases hb with rfl | rfl | rfl
          · exact le_ofNat (by omega) (by omega)
          · exact le_ofNat (by omega) (by omega)
          · exact le_ofNat (by omega) (by omega)
        · simp only [List.mem_cons, List.not_mem_nil, or_false] at hb
          rcases hb with rfl | rfl | rfl | rfl
          · exact le_ofNat (by omega) (by omega)
          · exact le_ofNat (by omega) (by omega)
          · exact le_ofNat (by omega) (by omega)
          · exact le_ofNat (by omega) (by omega)

end Sizes

/-! ## Boundaries -/

section Boundaries

variable {a b t : Text} {i j : Nat} {p : Char → Bool}

@[simp] theorem split_zero : split t 0 = some ([], t) := by
  cases t <;> rfl

theorem split_cons {c : Char} (h : c.utf8Size ≤ i) :
    split (c :: t) i = (split t (i - c.utf8Size)).map fun (a, b) => (c :: a, b) := by
  have hpos := c.utf8Size_pos
  obtain ⟨n, rfl⟩ : ∃ n, i = n + 1 := ⟨i - 1, by omega⟩
  simp only [split, h, if_true]

/-- Where one text ends and another begins is a boundary. -/
@[simp] theorem split_append : split (a ++ b) (size a) = some (a, b) := by
  induction a with
  | nil => simp
  | cons c a ih =>
    rw [List.cons_append, size_cons, split_cons (by omega), Nat.add_sub_cancel_left, ih]
    rfl

theorem split_eq_some : split t i = some (a, b) ↔ t = a ++ b ∧ i = size a := by
  constructor
  · intro h
    induction t generalizing a i with
    | nil =>
      cases i with
      | zero => cases h; exact ⟨rfl, rfl⟩
      | succ n => cases h
    | cons c t ih =>
      cases i with
      | zero => cases h; exact ⟨rfl, rfl⟩
      | succ n =>
        simp only [split] at h
        split at h
        · rename_i hc
          obtain ⟨⟨x, y⟩, hxy, heq⟩ := Option.map_eq_some_iff.1 h
          cases heq
          obtain ⟨rfl, hi⟩ := ih hxy
          refine ⟨rfl, ?_⟩
          simp only [size_cons]
          omega
        · cases h
  · rintro ⟨rfl, rfl⟩
    exact split_append

@[simp] theorem getTo_append : getTo (a ++ b) (size a) = some a := by simp [getTo]

@[simp] theorem getFrom_append : getFrom (a ++ b) (size a) = some b := by simp [getFrom]

theorem getTo_eq_some : getTo t i = some a ↔ ∃ b, t = a ++ b ∧ i = size a := by
  simp [getTo, split_eq_some]

theorem getFrom_eq_some : getFrom t i = some b ↔ ∃ a, t = a ++ b ∧ i = size a := by
  simp [getFrom, split_eq_some]

@[simp] theorem isBoundary_zero : isBoundary t 0 = true := by simp [isBoundary]

/-- Before a boundary stands a prefix. -/
theorem getTo_of_isBoundary (h : isBoundary t i = true) :
    ∃ a, a <+: t ∧ size a = i ∧ getTo t i = some a := by
  obtain ⟨⟨a, b⟩, hab⟩ := Option.isSome_iff_exists.1 h
  obtain ⟨rfl, rfl⟩ := split_eq_some.1 hab
  exact ⟨a, List.prefix_append a b, rfl, getTo_append⟩

/-- Behind the first byte of a longer character is no boundary. -/
theorem no_boundary_inside {front after : Text} {c : Char} (h : a ++ c :: b = front ++ after)
    (hc : 1 < c.utf8Size) : ¬size a + 1 = size front := by
  intro hs
  rcases List.append_eq_append_iff.1 h with ⟨m, rfl, hm⟩ | ⟨m, rfl, -⟩
  · cases m with
    | nil => simp at hs
    | cons d m =>
      rw [List.cons_append] at hm
      cases hm
      simp only [size_append, size_cons] at hs
      omega
  · simp only [size_append] at hs
    omega

/-! ## Leading parts -/

theorem size_le_of_prefix (h : a <+: t) : size a ≤ size t := by
  obtain ⟨b, rfl⟩ := h
  simp

@[simp] theorem size_replicate {n : Nat} {c : Char} :
    size (List.replicate n c) = n * c.utf8Size := by
  induction n with
  | zero => simp
  | succ n ih => simp [List.replicate_succ, ih, Nat.succ_mul, Nat.add_comm]

/-- A leading part ends at a boundary. -/
theorem isBoundary_of_start (h : a <+: t) : isBoundary t (size a) = true := by
  obtain ⟨b, rfl⟩ := h
  simp [isBoundary]

theorem fitting_start (t : Text) (n : Nat) : fitting t n <+: t := by
  induction t generalizing n with
  | nil => simp [fitting]
  | cons c t ih =>
    simp only [fitting]
    split
    · exact (List.prefix_cons_inj c).2 (ih _)
    · exact List.nil_prefix

theorem size_fitting_le (t : Text) (n : Nat) : size (fitting t n) ≤ n := by
  induction t generalizing n with
  | nil => simp [fitting]
  | cons c t ih =>
    simp only [fitting]
    split
    · rename_i hc
      have hrest := ih (n - c.utf8Size)
      simp only [size_cons]
      omega
    · simp

/-- No longer leading part fits. -/
theorem prefix_fitting {n : Nat} (h : a <+: t) (hs : size a ≤ n) : a <+: fitting t n := by
  induction t generalizing a n with
  | nil => simp [List.prefix_nil.1 h]
  | cons c t ih =>
    cases a with
    | nil => exact List.nil_prefix
    | cons d a =>
      obtain ⟨rfl, hrest⟩ := List.cons_prefix_cons.1 h
      simp only [size_cons] at hs
      have hd : d.utf8Size ≤ n := by omega
      simp only [fitting, hd, if_true]
      exact (List.prefix_cons_inj d).2 (ih hrest (by omega))

theorem fitting_of_size_le {n : Nat} (h : size t ≤ n) : fitting t n = t :=
  (fitting_start t n).eq_of_length_le (prefix_fitting List.prefix_rfl h).length_le

theorem fitting_append {n : Nat} (h : size a ≤ n) :
    fitting (a ++ b) n = a ++ fitting b (n - size a) := by
  induction a generalizing n with
  | nil => simp
  | cons c a ih =>
    simp only [size_cons] at h
    have hc : c.utf8Size ≤ n := by omega
    simp only [List.cons_append, fitting, hc, if_true, size_cons, ih (n := n - c.utf8Size) (by omega),
      Nat.sub_sub]

/-- What is left out begins with a character that does not fit. -/
theorem fitting_rest {n : Nat} (h : n < size t) :
    ∃ c rest, t = fitting t n ++ c :: rest ∧ n < size (fitting t n) + c.utf8Size := by
  induction t generalizing n with
  | nil => simp at h
  | cons c t ih =>
    by_cases hc : c.utf8Size ≤ n
    · simp only [size_cons] at h
      obtain ⟨d, rest, ht, hd⟩ := ih (n := n - c.utf8Size) (by omega)
      refine ⟨d, rest, ?_, ?_⟩
      · simp only [fitting, hc, if_true, List.cons_append]
        rw [← ht]
      · simp only [fitting, hc, if_true, size_cons]
        omega
    · exact ⟨c, t, by simp [fitting, hc], by simp [fitting, hc]; omega⟩

/-! ## Where a search ends -/

theorem find_eq_some (h : find p t = some i) :
    ∃ a c b, t = a ++ c :: b ∧ i = size a ∧ p c = true ∧ ∀ x ∈ a, p x = false := by
  induction t generalizing i with
  | nil => cases h
  | cons c t ih =>
    simp only [find] at h
    split at h
    · rename_i hc
      cases h
      exact ⟨[], c, t, rfl, rfl, hc, by simp⟩
    · rename_i hc
      obtain ⟨j, hj, rfl⟩ := Option.map_eq_some_iff.1 h
      obtain ⟨a, d, b, rfl, rfl, hd, ha⟩ := ih hj
      refine ⟨c :: a, d, b, rfl, rfl, hd, ?_⟩
      intro x hx
      rcases List.mem_cons.1 hx with rfl | hx
      · simpa using hc
      · exact ha x hx

theorem rfind_eq_none : rfind p t = none ↔ ∀ x ∈ t, p x = false := by
  induction t with
  | nil => simp [rfind]
  | cons c t ih =>
    simp only [rfind]
    cases hr : rfind p t with
    | some i =>
      rw [hr] at ih
      simp only [reduceCtorEq, false_iff] at ih
      simp only [reduceCtorEq, List.mem_cons, forall_eq_or_imp, false_iff, not_and]
      exact fun _ => ih
    | none =>
      rw [hr] at ih
      simp only [true_iff] at ih
      simp only [List.mem_cons, forall_eq_or_imp]
      cases hc : p c with
      | true => simp
      | false => simpa using ih

theorem rfind_eq_some : rfind p t = some i ↔
    ∃ a c b, t = a ++ c :: b ∧ i = size a ∧ p c = true ∧ ∀ x ∈ b, p x = false := by
  constructor
  · intro h
    induction t generalizing i with
    | nil => cases h
    | cons c t ih =>
      simp only [rfind] at h
      split at h
      · rename_i j hj
        cases h
        obtain ⟨a, d, b, rfl, rfl, hd, hb⟩ := ih hj
        exact ⟨c :: a, d, b, rfl, rfl, hd, hb⟩
      · rename_i hnone
        split at h
        · rename_i hc
          cases h
          exact ⟨[], c, t, rfl, rfl, hc, rfind_eq_none.1 hnone⟩
        · cases h
  · rintro ⟨a, c, b, rfl, rfl, hc, hb⟩
    induction a with
    | nil => simp [rfind, rfind_eq_none.2 hb, hc]
    | cons d a ih => simp [rfind, ih]

theorem mem_matchIndicesFrom {pat : Text} {skip start : Nat}
    (h : i ∈ matchIndicesFrom pat skip start t) :
    ∃ a b, t = a ++ pat ++ b ∧ i = start + size a := by
  induction t generalizing skip start with
  | nil => simp [matchIndicesFrom] at h
  | cons c t ih =>
    have later {skip : Nat} (h : i ∈ matchIndicesFrom pat skip (start + c.utf8Size) t) :
        ∃ a b, c :: t = a ++ pat ++ b ∧ i = start + size a := by
      obtain ⟨a, b, rfl, rfl⟩ := ih h
      exact ⟨c :: a, b, rfl, by simp [Nat.add_assoc]⟩
    cases skip with
    | succ skip => exact later h
    | zero =>
      simp only [matchIndicesFrom] at h
      split at h
      · rename_i hpat
        rcases List.mem_cons.1 h with rfl | h
        · obtain ⟨b, hb⟩ := List.isPrefixOf_iff_prefix.1 hpat
          exact ⟨[], b, by rw [← hb]; rfl, by simp⟩
        · exact later h
      · exact later h

/-- An occurrence begins and ends at boundaries. -/
theorem mem_matchIndices {pat : Text} (h : i ∈ matchIndices pat t) :
    ∃ a b, t = a ++ pat ++ b ∧ i = size a := by
  obtain ⟨a, b, ht, hi⟩ := mem_matchIndicesFrom h
  exact ⟨a, b, ht, by omega⟩

end Boundaries

/-! ## Encodings that are read back -/

section Readings

variable {a b s t : Text} {x y : List UInt8} {c d : Char}

theorem encode_inj : encode a = encode b ↔ a = b := by
  constructor
  · intro h
    have hdecode : decode (encode a) = decode (encode b) := by rw [h]
    simpa using hdecode
  · exact congrArg encode

theorem decode_eq_some {bytes : List UInt8} : decode bytes = some t ↔ bytes = encode t := by
  constructor
  · intro h
    obtain ⟨chars, hchars, rfl⟩ := Option.map_eq_some_iff.1 h
    have hbytes : chars.toList.utf8Encode = bytes.toByteArray := by
      have hget := ByteArray.utf8Encode_get_utf8Decode? (b := bytes.toByteArray)
        (h := by rw [hchars]; rfl)
      simpa only [hchars, Option.get_some] using hget
    have hlist := congrArg (fun b : ByteArray => b.data.toList) hbytes
    simpa [List.utf8Encode, encode] using hlist.symm
  · intro h
    rw [h, decode_encode]

theorem encodeChar_append_inj
    (h : String.utf8EncodeChar c ++ x = String.utf8EncodeChar d ++ y) : c = d ∧ x = y := by
  have hdecode := congrArg (fun bytes : List UInt8 => bytes.toByteArray.utf8DecodeChar? 0) h
  simp only [List.toByteArray_append, ByteArray.utf8DecodeChar?_utf8EncodeChar_append] at hdecode
  obtain rfl := Option.some.inj hdecode
  exact ⟨rfl, List.append_cancel_left h⟩

/-- A text up to a separator that it does not have: another one with the same encoding is
the same text, or goes on behind the separator. -/
theorem encode_field {sep : Char} (hsep : sep ∉ a)
    (h : encode (a ++ sep :: s) ++ x = encode (b ++ sep :: t) ++ y) :
    (a = b ∧ encode s ++ x = encode t ++ y) ∨
      ∃ rest, b = a ++ sep :: rest ∧ encode s ++ x = encode (rest ++ sep :: t) ++ y := by
  induction a generalizing b with
  | nil =>
    cases b with
    | nil =>
      simp only [List.nil_append, encode_cons, List.append_assoc] at h
      exact .inl ⟨rfl, (encodeChar_append_inj h).2⟩
    | cons d b =>
      simp only [List.nil_append, List.cons_append, encode_cons, List.append_assoc] at h
      obtain ⟨rfl, hrest⟩ := encodeChar_append_inj h
      exact .inr ⟨b, rfl, by simpa using hrest⟩
  | cons c a ih =>
    simp only [List.mem_cons, not_or] at hsep
    cases b with
    | nil =>
      simp only [List.nil_append, List.cons_append, encode_cons, List.append_assoc] at h
      exact absurd (encodeChar_append_inj h).1.symm hsep.1
    | cons d b =>
      simp only [List.cons_append, encode_cons, List.append_assoc] at h
      obtain ⟨rfl, hrest⟩ := encodeChar_append_inj h
      rcases ih hsep.2 hrest with ⟨rfl, hbytes⟩ | ⟨rest, rfl, hbytes⟩
      · exact .inl ⟨rfl, hbytes⟩
      · exact .inr ⟨rest, rfl, hbytes⟩

/-- An ASCII byte of an encoding is a character of the text. -/
theorem encode_ascii {byte : UInt8} (hc : String.utf8EncodeChar c = [byte]) (hbyte : byte < 0x80)
    (h : encode a = x ++ byte :: y) :
    ∃ front rest, a = front ++ c :: rest ∧ x = encode front ∧ y = encode rest := by
  induction a generalizing x with
  | nil => simp at h
  | cons d a ih =>
    rw [encode_cons] at h
    rcases encodeChar_cases d with ⟨first, -, hd⟩ | ⟨-, hwide⟩
    · cases x with
      | nil =>
        have hhead : String.utf8EncodeChar d ++ encode a = String.utf8EncodeChar c ++ y := by
          rw [h, hc]
          rfl
        obtain ⟨rfl, hrest⟩ := encodeChar_append_inj hhead
        exact ⟨[], a, rfl, rfl, hrest.symm⟩
      | cons z x =>
        rw [hd] at h
        simp only [List.cons_append, List.nil_append, List.cons.injEq] at h
        obtain ⟨front, rest, rfl, rfl, rfl⟩ := ih h.2
        exact ⟨d :: front, rest, rfl, by simp [hd, h.1], rfl⟩
    · rcases List.append_eq_append_iff.1 h with ⟨more, hx, hmore⟩ | ⟨more, hd, hmore⟩
      · obtain ⟨front, rest, rfl, rfl, rfl⟩ := ih hmore
        exact ⟨d :: front, rest, rfl, by rw [hx]; rfl, rfl⟩
      · cases more with
        | nil =>
          obtain ⟨front, rest, rfl, hfront, rfl⟩ := ih (x := []) (by simpa using hmore.symm)
          exact ⟨d :: front, rest, rfl, by simpa [← hfront] using hd.symm, rfl⟩
        | cons z more =>
          -- a character of several bytes has no ASCII byte
          obtain ⟨rfl, -⟩ := List.cons.inj hmore
          have hle := hwide byte (by rw [hd]; simp)
          exact absurd hbyte (UInt8.not_lt.2 hle)

end Readings

end Chimera.Lib.Utf8
