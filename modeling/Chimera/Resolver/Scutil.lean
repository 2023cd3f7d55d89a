import Chimera.Lib.Fields
import Chimera.Lib.Program
import Chimera.Lib.Shell
import Chimera.Manager.World
import Mathlib.Data.List.DropRight

/-! The macOS DNS controller: one key of the dynamic store, set and removed with `scutil`,
and read back after either. A change needs an authorization of the user, who is not asked
again after one that was not given. -/

namespace Chimera.Resolver
open Chimera.Model Chimera.Manager Chimera.Lib.Utf8 Chimera.Lib.Fields Chimera.Lib.Program

/-! ## `scutil` -/

inductive DnsError where
  | command (text : Text)
  | io (text : String)

structure Output where
  success : Bool
  stdout : Text
  stderr : Text

inductive MacPrim : Type → Type
  /-- `is_elevated`. -/
  | privileged : MacPrim Bool
  /-- `authorization_failed`. -/
  | latch : MacPrim Bool
  | setLatch (failed : Bool) : MacPrim Unit
  | spawn (program : Text) (args : List Text) : MacPrim (Except String Unit)
  /-- `write_all` to the command's `stdin`. -/
  | feed (script : Text) : MacPrim (Except String Unit)
  | wait : MacPrim (Except String Output)

def scutilPath : Text := "/usr/sbin/scutil".toList

def osascriptPath : Text := "/usr/bin/osascript".toList

def authorizationScript (script : Text) : Text :=
  let quoted := '\'' :: Lib.Shell.replace '\'' ['\'', '\\', '\'', '\''] script ++ ['\'']
  let shell := "/usr/bin/printf '%s' ".toList ++ quoted ++ " | /usr/sbin/scutil".toList
  let escaped := Lib.Shell.replace '"' ['\\', '"'] (Lib.Shell.replace '\\' ['\\', '\\'] shell)
  "do shell script \"".toList ++ escaped ++ "\" with administrator privileges".toList

def trim (t : Text) : Text := (trimStart t).rdropWhile isWhitespace

def validateScutilOutput (stdout : Text) (mutating : Bool) : Prog DnsError MacPrim Unit :=
  if mutating && trim stdout ≠ [] then fail (.command (trim stdout)) else pure ()

/-- An operation under `?`. -/
def call {α : Type} (op : MacPrim (Except String α)) : Prog DnsError MacPrim α :=
  .call op fun r => .ret (r.mapError DnsError.io)

/-- The command is waited for, and its output looked at. -/
def collect (elevated mutating : Bool) : Prog DnsError MacPrim Text := do
  let output ← call .wait
  if output.success then do
    validateScutilOutput output.stdout mutating
    if elevated then perform (.setLatch false)
    pure output.stdout
  else do
    if elevated then perform (.setLatch true)
    fail (.command output.stderr)

def authorizationFailed : Text :=
  "macOS DNS authorization previously failed; restart Chimera to retry".toList

/-- The elevated command. The latch is left set on cancellation, timeout, or failure. -/
def scutilElevated (script : Text) : Prog DnsError MacPrim Text := do
  if ← perform .latch then fail (.command authorizationFailed)
  else do
    perform (.setLatch true)
    call (.spawn osascriptPath ["-e".toList, authorizationScript script])
    collect true true

def scutilPlain (script : Text) (mutating : Bool) : Prog DnsError MacPrim Text := do
  call (.spawn scutilPath [])
  call (.feed script)
  collect false mutating

def scutil (script : Text) (mutating : Bool) : Prog DnsError MacPrim Text := do
  if mutating then do
    if ← perform .privileged then scutilPlain script true else scutilElevated script
  else scutilPlain script false

/-! ## The controller -/

/-- `MacosDnsController`, with the `Debug` text of what is read back. -/
structure Controller where
  storeKey : Text
  debug : Option (List Text) → Text

variable (c : Controller)

def Controller.showScript : Text := "show ".toList ++ c.storeKey ++ ['\n']

def Controller.setScript (servers : List Text) : Text :=
  "d.init\nd.add ServerAddresses * ".toList ++ [' '].intercalate servers ++
    "\nset ".toList ++ c.storeKey ++ ['\n']

def Controller.removeScript : Text := "remove ".toList ++ c.storeKey ++ ['\n']

/-- The entry of an array, in a line that shows one. -/
def entryOf (line : Text) : Option Text :=
  ((splitOnce [':'] (trim line)).filter fun entry => (trim entry.1).all Char.isDigit).map
    fun entry => trim entry.2

def shownServers (output : Text) : List Text := (lines output).filterMap entryOf

def Controller.readBack : Prog DnsError MacPrim (Option (List Text)) := do
  let output ← scutil c.showScript false
  if "No such key".toList <:+: output then pure none
  else if "<dictionary>".toList <:+: output then pure (some (shownServers output))
  else fail (.command (trim output))

def addresses (intent : DnsIntent) : List Text := intent.servers.map String.toList

def Controller.apply (intent : DnsIntent) (runtimeEpoch : Epoch) :
    Prog DnsError MacPrim DnsOverrideRecord := do
  let previous := (← c.readBack).getD []
  if previous ≠ addresses intent then do
    let _ ← scutil (c.setScript (addresses intent)) true
  let observed ← c.readBack
  if observed ≠ some (addresses intent) then
    fail (.command ("read-back mismatch after apply: ".toList ++ c.debug observed))
  else pure {
    iface := String.ofList c.storeKey
    previous := previous.map String.ofList
    applied := intent.servers
    runtimeEpoch := runtimeEpoch.get
    ownerGeneration := none
    state := .applied }

def Controller.restore : Prog DnsError MacPrim Unit := do
  if (← c.readBack).isNone then pure ()
  else do
    let _ ← scutil c.removeScript true
    if (← c.readBack).isSome then
      fail (.command "read-back still shows the override after restore".toList)
    else pure ()

/-! ## The authorization -/

def printfPath : Text := "/usr/bin/printf".toList

/-- The line that `osascript` hands to the shell. -/
def authorizationLine (script : Text) : Text :=
  printfPath ++ ' ' :: (Lib.Shell.quote "%s".toList ++
    ' ' :: (Lib.Shell.quote script ++ ' ' :: '|' :: ' ' :: scutilPath))

theorem doShellScript_authorization (script : Text) :
    Lib.Shell.doShellScript (authorizationScript script) = some (authorizationLine script) := by
  have hstart : "/usr/bin/printf '%s' ".toList =
      printfPath ++ ' ' :: (Lib.Shell.quote "%s".toList ++ [' ']) := by decide
  have hend : " | /usr/sbin/scutil".toList = ' ' :: '|' :: ' ' :: scutilPath := by decide
  have hshell : "/usr/bin/printf '%s' ".toList ++ Lib.Shell.quote script ++
      " | /usr/sbin/scutil".toList = authorizationLine script := by
    rw [hstart, hend, authorizationLine]
    simp only [List.append_assoc, List.cons_append, List.nil_append]
  have hoptions : "\" with administrator privileges".toList = Lib.Shell.administrator := by decide
  have hline : authorizationScript script = "do shell script \"".toList ++
      Lib.Shell.escape ("/usr/bin/printf '%s' ".toList ++ Lib.Shell.quote script ++
        " | /usr/sbin/scutil".toList) ++ "\" with administrator privileges".toList := rfl
  rw [hline, hshell, hoptions, Lib.Shell.doShellScript_escape]

/-- Whatever the script: it is the one argument that is printed into `scutil`. -/
theorem authorization_is_literal (script : Text) :
    (Lib.Shell.doShellScript (authorizationScript script)).bind Lib.Shell.pipeline =
      some [[printfPath, "%s".toList, script], [scutilPath]] := by
  have hlex : Lib.Shell.lex .blank (authorizationLine script) =
      some [.word printfPath, .word "%s".toList, .word script, .pipe, .word scutilPath] := by
    have hend : Lib.Shell.lex .blank scutilPath = some [.word scutilPath] := by
      have hword : Lib.Shell.lex .blank (scutilPath ++ []) = Lib.Shell.lex (.word scutilPath) [] :=
        Lib.Shell.lex_word (by decide) (by decide)
      simpa [Lib.Shell.lex] using hword
    rw [authorizationLine, Lib.Shell.lex_word (by decide) (by decide), Lib.Shell.lex_space,
      Lib.Shell.lex_quote, Lib.Shell.lex_space, Lib.Shell.lex_quote, Lib.Shell.lex_space,
      Lib.Shell.lex_pipe, hend]
    rfl
  rw [doShellScript_authorization, Option.bind_some, Lib.Shell.pipeline, hlex]
  simp [Lib.Shell.commands]

end Chimera.Resolver
