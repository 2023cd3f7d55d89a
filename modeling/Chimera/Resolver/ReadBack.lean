import Chimera.Resolver.Scutil

/-! What `scutil` prints of the key, and that the controller reads the servers back from it. -/

namespace Chimera.Resolver
open Chimera.Model Chimera.Manager Chimera.Lib.Utf8 Chimera.Lib.Fields Chimera.Lib.Program

/-- An IPv4 or IPv6 address, of digits, points and colons. -/
def IsAddress (server : Text) : Prop :=
  server ≠ [] ∧ ∀ c ∈ server, c ∈ "0123456789abcdefABCDEF.:".toList

def shownEntries : Nat → List Text → List Text
  | _, [] => []
  | n, server :: servers =>
    ("    ".toList ++ decimal n ++ " : ".toList ++ server) :: shownEntries (n + 1) servers

def unlines (ls : List Text) : Text := ls.flatMap (· ++ ['\n'])

def shownLines (servers : List Text) : List Text :=
  ["<dictionary> \x7b".toList, "  ServerAddresses : <array> \x7b".toList] ++
    shownEntries 0 servers ++ ["  \x7d".toList, "\x7d".toList]

/-- What `show` prints of the key. -/
def shown : Option (List Text) → Text
  | none => "  No such key\n".toList
  | some servers => unlines (shownLines servers)

section ReadBack

variable {t server : Text} {servers : List Text}

theorem trim_self (hne : t ≠ []) (hhead : isWhitespace (t.head hne) = false)
    (hlast : isWhitespace (t.getLast hne) = false) : trim t = t := by
  obtain ⟨first, rest, rfl⟩ := List.exists_cons_of_ne_nil hne
  have hstart : trimStart (first :: rest) = first :: rest := by
    simpa [trimStart] using hhead
  rw [trim, hstart, List.rdropWhile_eq_self_iff]
  simpa using hlast

theorem trim_blank : trim (' ' :: t) = trim t := rfl

/-- A blank after the end. -/
theorem trim_concat (hne : t ≠ []) (hhead : isWhitespace (t.head hne) = false)
    (hlast : isWhitespace (t.getLast hne) = false) : trim (t ++ [' ']) = t := by
  obtain ⟨first, rest, rfl⟩ := List.exists_cons_of_ne_nil hne
  have hstart : trimStart (first :: rest ++ [' ']) = first :: rest ++ [' '] := by
    simpa [trimStart] using hhead
  have hself : (first :: rest).rdropWhile isWhitespace = first :: rest := by
    rw [List.rdropWhile_eq_self_iff]
    simpa using hlast
  rw [trim, hstart, List.rdropWhile_concat_pos _ _ _ (by decide), hself]

/-- A character of an address or a number. -/
def isSolid (a : Char) : Bool := !isWhitespace a && a != 'N'

/-- A character inside of a line that is not of `No such key`. -/
def isInline (a : Char) : Bool := a != '\n' && a != '\r' && a != 'N'

theorem isSolid_iff {a : Char} : isSolid a = true ↔ isWhitespace a = false ∧ a ≠ 'N' := by
  simp [isSolid]

theorem inline_solid {a : Char} (h : isSolid a = true) : isInline a = true := by
  obtain ⟨hblank, hN⟩ := isSolid_iff.1 h
  have hline : a ≠ '\n' ∧ a ≠ '\r' := by
    constructor <;> rintro rfl <;> cases hblank
  simp [isInline, hline, hN]

theorem IsAddress.solid (h : IsAddress server) {a : Char} (ha : a ∈ server) :
    isSolid a = true := by
  have hall : "0123456789abcdefABCDEF.:".toList.all isSolid = true := by decide
  exact List.all_eq_true.1 hall a (h.2 a ha)

theorem IsAddress.head_last (h : IsAddress server) : isWhitespace (server.head h.1) = false ∧
    isWhitespace (server.getLast h.1) = false :=
  ⟨(isSolid_iff.1 (h.solid (List.head_mem h.1))).1,
    (isSolid_iff.1 (h.solid (List.getLast_mem h.1))).1⟩

theorem solid_decimal {n : Nat} {a : Char} (ha : a ∈ decimal n) : isSolid a = true ∧ a ≠ ':' := by
  have hdigit := isDigit_of_mem_decimal ha
  simp only [Char.isDigit, Bool.and_eq_true, decide_eq_true_eq, ge_iff_le,
    UInt32.le_iff_toNat_le] at hdigit
  have hlow : 48 ≤ a.toNat := hdigit.1
  have hhigh : a.toNat ≤ 57 := hdigit.2
  refine ⟨isSolid_iff.2 ⟨?_, ?_⟩, ?_⟩
  · simp [isWhitespace]
    omega
  · rintro rfl
    revert hhigh
    decide
  · rintro rfl
    revert hhigh
    decide

theorem blank_decimal {n : Nat} (hne : decimal n ≠ []) :
    isWhitespace ((decimal n).head hne) = false ∧
      isWhitespace ((decimal n).getLast hne) = false :=
  ⟨(isSolid_iff.1 (solid_decimal (List.head_mem hne)).1).1,
    (isSolid_iff.1 (solid_decimal (List.getLast_mem hne)).1).1⟩

theorem trim_address (h : IsAddress server) : trim server = server :=
  trim_self h.1 h.head_last.1 h.head_last.2

theorem lines_unlines (h : ∀ line ∈ servers, '\n' ∉ line ∧ '\r' ∉ line) :
    lines (unlines servers) = servers := by
  induction servers with
  | nil => rfl
  | cons line rest ih =>
    have hline := h line List.mem_cons_self
    have hrest := ih fun l hl => h l (List.mem_cons_of_mem _ hl)
    rw [unlines, List.flatMap_cons, List.append_assoc, List.singleton_append,
      lines_append hline.1 hline.2]
    exact congrArg (line :: ·) hrest

theorem entryOf_entry {n : Nat} (h : IsAddress server) :
    entryOf ("    ".toList ++ decimal n ++ " : ".toList ++ server) = some server := by
  have hdecimal : decimal n ≠ [] := Nat.toDigits_ne_nil
  have hline : "    ".toList ++ decimal n ++ " : ".toList ++ server =
      ' ' :: ' ' :: ' ' :: ' ' :: ((decimal n ++ [' ']) ++ ':' :: ' ' :: server) := by simp
  have htrim : trim ((decimal n ++ [' ']) ++ ':' :: ' ' :: server) =
      (decimal n ++ [' ']) ++ ':' :: ' ' :: server := by
    refine trim_self (by simp) ?_ ?_
    · simpa [List.head_append, hdecimal] using (blank_decimal hdecimal).1
    · simpa [List.getLast_append, List.getLast_cons, h.1] using h.head_last.2
  have hkey : ':' ∉ decimal n ++ [' '] := by
    simp only [List.mem_append, List.mem_singleton, not_or]
    exact ⟨fun hm => (solid_decimal hm).2 rfl, by decide⟩
  have hdigits : trim (decimal n ++ [' ']) = decimal n :=
    trim_concat hdecimal (blank_decimal hdecimal).1 (blank_decimal hdecimal).2
  have hall : ∀ a ∈ decimal n, a.isDigit = true := fun a ha => isDigit_of_mem_decimal ha
  rw [entryOf, hline, trim_blank, trim_blank, trim_blank, trim_blank, htrim,
    splitOnce_append hkey]
  simpa [hdigits, trim_blank, trim_address h] using hall

theorem filterMap_entries (h : ∀ server ∈ servers, IsAddress server) {n : Nat} :
    (shownEntries n servers).filterMap entryOf = servers := by
  induction servers generalizing n with
  | nil => rfl
  | cons server servers ih =>
    have hserver := entryOf_entry (n := n) (h server List.mem_cons_self)
    have hrest := ih (n := n + 1) fun s hs => h s (List.mem_cons_of_mem _ hs)
    simp only [shownEntries, List.filterMap_cons, hserver, hrest]

theorem inline_entries {n : Nat} (h : ∀ server ∈ servers, IsAddress server) :
    ∀ line ∈ shownEntries n servers, line.all isInline = true := by
  induction servers generalizing n with
  | nil => simp [shownEntries]
  | cons server servers ih =>
    have hdecimal : (decimal n).all isInline = true :=
      List.all_eq_true.2 fun a ha => inline_solid (solid_decimal ha).1
    have hserver : server.all isInline = true :=
      List.all_eq_true.2 fun a ha => inline_solid ((h server List.mem_cons_self).solid ha)
    have hblank : "    ".toList.all isInline = true := by decide
    have hcolon : " : ".toList.all isInline = true := by decide
    simp only [shownEntries, List.mem_cons, forall_eq_or_imp]
    exact ⟨by simp only [List.all_append, hblank, hdecimal, hcolon, hserver, Bool.and_self],
      ih fun s hs => h s (List.mem_cons_of_mem _ hs)⟩

theorem inline_shownLines (h : ∀ server ∈ servers, IsAddress server) {line : Text}
    (hline : line ∈ shownLines servers) {a : Char} (ha : a ∈ line) : isInline a = true := by
  have hfirst : ["<dictionary> \x7b".toList, "  ServerAddresses : <array> \x7b".toList].all
      (·.all isInline) = true := by decide
  have hlast : ["  \x7d".toList, "\x7d".toList].all (·.all isInline) = true := by decide
  obtain hfront | hend := List.mem_append.1 hline
  · obtain hstart | hentry := List.mem_append.1 hfront
    · exact List.all_eq_true.1 (List.all_eq_true.1 hfirst line hstart) a ha
    · exact List.all_eq_true.1 (inline_entries h line hentry) a ha
  · exact List.all_eq_true.1 (List.all_eq_true.1 hlast line hend) a ha

theorem shownServers_shown (h : ∀ server ∈ servers, IsAddress server) :
    shownServers (shown (some servers)) = servers := by
  have hlines : lines (shown (some servers)) = shownLines servers :=
    lines_unlines fun line hline => ⟨fun hn => absurd (inline_shownLines h hline hn) (by decide),
      fun hr => absurd (inline_shownLines h hline hr) (by decide)⟩
  have hfixed : entryOf "<dictionary> \x7b".toList = none ∧
      entryOf "  ServerAddresses : <array> \x7b".toList = none ∧
      entryOf "  \x7d".toList = none ∧ entryOf "\x7d".toList = none := by decide
  obtain ⟨hopen, harray, hclose, hend⟩ := hfixed
  change (lines (shown (some servers))).filterMap entryOf = servers
  simp only [hlines, shownLines, List.filterMap_append, List.filterMap_cons, hopen, harray, hclose,
    hend, List.filterMap_nil, List.nil_append, List.append_nil, filterMap_entries h]

theorem shown_present (h : ∀ server ∈ servers, IsAddress server) :
    ¬ "No such key".toList <:+: shown (some servers) ∧
      "<dictionary>".toList <:+: shown (some servers) := by
  refine ⟨fun habsent => ?_, [], " \x7b\n".toList ++ unlines ((shownLines servers).drop 1), ?_⟩
  · obtain ⟨line, hline, ha⟩ := List.mem_flatMap.1 (habsent.subset (by decide : 'N' ∈ _))
    obtain ha | ha := List.mem_append.1 ha
    · exact absurd (inline_shownLines h hline ha) (by decide)
    · revert ha
      decide
  · rfl

theorem shown_absent : "No such key".toList <:+: shown none := by decide

end ReadBack

end Chimera.Resolver
