import Chimera.Lib.Fields

/-! The lexing of a POSIX command line that has no expansions, and the string literals of
AppleScript, each with the quoting that keeps a text literal. What lies outside of the
fragment is not lexed, so a line that is lexed means what it is lexed to. -/

namespace Chimera.Lib.Shell
open Chimera.Lib.Fields

/-- `str::replace` of a character. -/
def replace (a : Char) (instead text : List Char) : List Char :=
  text.flatMap fun c => if c = a then instead else [c]

/-! ## The shell -/

inductive Token where
  | word (text : List Char)
  | pipe
  deriving DecidableEq

/-- Between words, in a word, between single quotes, or after a backslash. -/
inductive Mode where
  | blank
  | word (text : List Char)
  | quoted (text : List Char)
  | escaped (text : List Char)

/-- Characters that stand for themselves wherever they are. -/
def isPlain (c : Char) : Bool := c.isAlphanum || c ∈ ['/', '.', '_', '-', '%', ',', ':', '@', '+']

/-- The mode after a character of a word. -/
def Mode.next (text : List Char) (c : Char) : Option Mode :=
  if c = '\'' then some (.quoted text)
  else if c = '\\' then some (.escaped text)
  else if isPlain c then some (.word (text ++ [c]))
  else none

def lex : Mode → List Char → Option (List Token)
  | .blank, [] => some []
  | .word text, [] => some [.word text]
  | .quoted _, [] | .escaped _, [] => none
  | .blank, c :: rest =>
    if c = ' ' then lex .blank rest
    else if c = '|' then (lex .blank rest).map (.pipe :: ·)
    else (Mode.next [] c).bind fun mode => lex mode rest
  | .word text, c :: rest =>
    if c = ' ' then (lex .blank rest).map (.word text :: ·)
    else if c = '|' then (lex .blank rest).map fun tokens => .word text :: .pipe :: tokens
    else (Mode.next text c).bind fun mode => lex mode rest
  | .quoted text, c :: rest =>
    if c = '\'' then lex (.word text) rest else lex (.quoted (text ++ [c])) rest
  | .escaped text, c :: rest => if c = '\n' then none else lex (.word (text ++ [c])) rest

/-- The commands of a pipeline, after the words of the first. None is empty. -/
def commands : List (List Char) → List Token → Option (List (List (List Char)))
  | words, [] => if words = [] then none else some [words]
  | words, .word text :: rest => commands (words ++ [text]) rest
  | words, .pipe :: rest => if words = [] then none else (commands [] rest).map (words :: ·)

def pipeline (line : List Char) : Option (List (List (List Char))) :=
  (lex .blank line).bind (commands [])

/-- A text between single quotes, each of its own closed, escaped and opened again. -/
def quote (text : List Char) : List Char :=
  '\'' :: replace '\'' ['\'', '\\', '\'', '\''] text ++ ['\'']

section Quote

variable {text w rest : List Char}

theorem lex_replace : lex (.quoted w) (replace '\'' ['\'', '\\', '\'', '\''] text ++ rest) =
    lex (.quoted (w ++ text)) rest := by
  induction text generalizing w with
  | nil => simp [replace]
  | cons c text ih =>
    by_cases hc : c = '\''
    · subst hc
      have hnext := ih (w := w ++ ['\''])
      simpa [replace, lex, Mode.next] using hnext
    · have hnext := ih (w := w ++ [c])
      simpa [replace, lex, hc] using hnext

theorem next_plain {c : Char} (hc : isPlain c = true) :
    c ≠ ' ' ∧ c ≠ '|' ∧ Mode.next w c = some (.word (w ++ [c])) := by
  have hne : ∀ d, isPlain d = false → c ≠ d := by
    rintro d hd rfl
    cases hd.symm.trans hc
  refine ⟨hne _ (by decide), hne _ (by decide), ?_⟩
  simp [Mode.next, hc, hne '\'' (by decide), hne '\\' (by decide)]

theorem lex_plain (h : text.all isPlain = true) :
    lex (.word w) (text ++ rest) = lex (.word (w ++ text)) rest := by
  induction text generalizing w with
  | nil => simp
  | cons c text ih =>
    rw [List.all_cons, Bool.and_eq_true] at h
    obtain ⟨hspace, hpipe, hnext⟩ := next_plain (w := w) h.1
    have hrest := ih (w := w ++ [c]) h.2
    simpa [lex, hspace, hpipe, hnext] using hrest

/-- A plain text is lexed to itself. -/
theorem lex_word (hne : text ≠ []) (h : text.all isPlain = true) :
    lex .blank (text ++ rest) = lex (.word text) rest := by
  obtain ⟨c, text, rfl⟩ := List.exists_cons_of_ne_nil hne
  rw [List.all_cons, Bool.and_eq_true] at h
  obtain ⟨hspace, hpipe, hnext⟩ := next_plain (w := []) h.1
  have hrest : lex (.word [c]) (text ++ rest) = lex (.word (c :: text)) rest := lex_plain h.2
  simpa [lex, hspace, hpipe, hnext] using hrest

@[simp] theorem lex_space : lex (.word w) (' ' :: rest) =
    (lex .blank rest).map (.word w :: ·) := by
  simp [lex]

@[simp] theorem lex_pipe : lex .blank ('|' :: ' ' :: rest) =
    (lex .blank rest).map (.pipe :: ·) := by
  simp [lex]

/-- A quoted text is lexed to itself. -/
theorem lex_quote : lex .blank (quote text ++ rest) = lex (.word text) rest := by
  have hopen : lex .blank (quote text ++ rest) =
      lex (.quoted []) (replace '\'' ['\'', '\\', '\'', '\''] text ++ '\'' :: rest) := by
    simp [quote, lex, Mode.next]
  rw [hopen, lex_replace]
  simp [lex]

end Quote

/-! ## AppleScript -/

/-- What the character after a backslash stands for. -/
def unescape (c : Char) : Option Char :=
  if c = '\\' ∨ c = '"' then some c
  else if c = 'n' then some '\n'
  else if c = 'r' then some '\r'
  else if c = 't' then some '\t'
  else none

/-- A string literal after its opening quote, and what follows it. -/
def literal : List Char → Option (List Char × List Char)
  | [] => none
  | '"' :: rest => some ([], rest)
  | ['\\'] => none
  | '\\' :: c :: rest => do
    let c ← unescape c
    let (text, rest) ← literal rest
    pure (c :: text, rest)
  | c :: rest => do
    let (text, rest) ← literal rest
    pure (c :: text, rest)

def escape (text : List Char) : List Char :=
  replace '"' ['\\', '"'] (replace '\\' ['\\', '\\'] text)

def administrator : List Char := '"' :: " with administrator privileges".toList

/-- The command line of `do shell script`, run with administrator privileges. -/
def doShellScript (source : List Char) : Option (List Char) := do
  let (text, rest) ← literal (← stripPrefix "do shell script \"".toList source)
  if '"' :: rest = administrator then pure text else none

section Literal

variable {text rest : List Char}

theorem escape_cons (c : Char) : escape (c :: text) =
    (if c = '\\' ∨ c = '"' then ['\\', c] else [c]) ++ escape text := by
  by_cases hb : c = '\\'
  · subst hb
    simp [escape, replace]
  · by_cases hq : c = '"'
    · subst hq
      simp [escape, replace]
    · simp [escape, replace, hb, hq]

/-- An escaped text is read as itself. -/
theorem literal_escape : literal (escape text ++ '"' :: rest) = some (text, rest) := by
  induction text with
  | nil => rfl
  | cons c text ih =>
    rw [escape_cons]
    split
    · rename_i hc
      simp [literal, unescape, hc, ih]
    · rename_i hc
      rw [not_or] at hc
      simp [literal, hc, ih]

theorem doShellScript_escape :
    doShellScript ("do shell script \"".toList ++ escape text ++ administrator) = some text := by
  rw [doShellScript, List.append_assoc, stripPrefix_append]
  simp [administrator, literal_escape]

end Literal

end Chimera.Lib.Shell
