import Chimera.Resolver.ReadBack
import Mathlib.Data.List.Chain

/-! The host of the controller: the key, the commands that act on it, and the prompts its user
is shown. A call may be dropped at any of its operations, with a command still running. -/

namespace Chimera.Resolver
open Chimera.Model Chimera.Manager Chimera.Lib.Utf8 Chimera.Lib.Fields Chimera.Lib.Program

variable {c : Controller}

/-- What the scripts do to the key. -/
structure DynamicStore (c : Controller) where
  effect : Text → Option (List Text) → Option (List Text)
  show_effect : ∀ key, effect c.showScript key = key
  set_effect : ∀ servers key, (∀ server ∈ servers, IsAddress server) →
    effect (c.setScript servers) key = some servers
  remove_effect : ∀ key, effect c.removeScript key = none

/-- The entries between blanks, to the end of the line, after the start of the first. -/
def entries (word : Text) : Text → List Text
  | [] => [word].filter (· ≠ [])
  | a :: rest =>
    if a = '\n' then [word].filter (· ≠ [])
    else if a = ' ' then [word].filter (· ≠ []) ++ entries [] rest
    else entries (word ++ [a]) rest

section Scripted

variable {w server rest : Text} {servers : List Text}

theorem entries_server (h : ∀ a ∈ server, a ≠ '\n' ∧ a ≠ ' ') :
    entries w (server ++ rest) = entries (w ++ server) rest := by
  induction server generalizing w with
  | nil => simp
  | cons a server ih =>
    obtain ⟨hline, hblank⟩ := h a List.mem_cons_self
    have hrest := ih (w := w ++ [a]) fun b hb => h b (List.mem_cons_of_mem _ hb)
    simpa [entries, hline, hblank] using hrest

theorem entries_servers (h : ∀ server ∈ servers, IsAddress server) :
    entries [] ([' '].intercalate servers ++ '\n' :: rest) = servers := by
  have hword : ∀ {server : Text}, IsAddress server → ∀ {more : Text},
      entries [] (server ++ more) = entries server more := by
    intro server hserver more
    refine entries_server fun a ha => ?_
    have hblank := (isSolid_iff.1 (hserver.solid ha)).1
    constructor <;> rintro rfl <;> cases hblank
  induction servers with
  | nil => simp [entries]
  | cons server servers ih =>
    have hserver := h server List.mem_cons_self
    cases servers with
    | nil =>
      rw [List.intercalate_singleton, hword hserver]
      simp [entries, hserver.1]
    | cons next servers =>
      have hrest := ih fun s hs => h s (List.mem_cons_of_mem _ hs)
      rw [List.intercalate_cons_cons, List.append_assoc, List.append_assoc, hword hserver,
        List.singleton_append]
      simp [entries, hserver.1, hrest]

theorem stripPrefix_setScript :
    stripPrefix "d.init\nd.add ServerAddresses * ".toList (c.setScript servers) =
      some ([' '].intercalate servers ++ '\n' :: ("set ".toList ++ c.storeKey ++ ['\n'])) := by
  have hline : "\nset ".toList = '\n' :: "set ".toList := by decide
  have hscript : c.setScript servers = "d.init\nd.add ServerAddresses * ".toList ++
      ([' '].intercalate servers ++ '\n' :: ("set ".toList ++ c.storeKey ++ ['\n'])) := by
    unfold Controller.setScript
    simp only [hline, List.append_assoc, List.cons_append]
  exact hscript ▸ stripPrefix_append

theorem head_setScript : (c.setScript servers).head? = some 'd' := rfl

theorem head_showScript : c.showScript.head? = some 's' := rfl

theorem head_removeScript : c.removeScript.head? = some 'r' := rfl

end Scripted

/-- `scutil`, as far as these scripts go. -/
def DynamicStore.scripted (c : Controller) : DynamicStore c where
  effect := fun script key =>
    if script = c.showScript then key
    else if script = c.removeScript then none
    else (stripPrefix "d.init\nd.add ServerAddresses * ".toList script).map (entries [])
  show_effect := fun key => if_pos rfl
  set_effect := fun servers key h => by
    have hshow : c.setScript servers ≠ c.showScript := fun heq => by
      have hhead := congrArg List.head? heq
      simp [head_setScript, head_showScript] at hhead
    have hremove : c.setScript servers ≠ c.removeScript := fun heq => by
      have hhead := congrArg List.head? heq
      simp [head_setScript, head_removeScript] at hhead
    simp only [if_neg hshow, if_neg hremove, stripPrefix_setScript, Option.map_some,
      entries_servers h]
  remove_effect := fun key => by
    have hremove : c.removeScript ≠ c.showScript := fun heq => by
      have hhead := congrArg List.head? heq
      simp [head_removeScript, head_showScript] at hhead
    rw [if_neg hremove, if_pos rfl]

inductive Prompt where
  | asked
  | granted
  deriving DecidableEq

/-- The servers under the key, `authorization_failed`, the running command with its script
once it has one, and the prompts so far, the last one first. -/
structure Mac where
  key : Option (List Text)
  latch : Bool
  elevated : Bool
  child : Option Text
  prompts : List Prompt

/-- The script that `osascript` hands on to `scutil`. -/
def heard (args : List Text) : Option Text := do
  let source ← args[1]?
  let commands ← Lib.Shell.pipeline (← Lib.Shell.doShellScript source)
  (commands.head?.bind fun words => words[2]?)

/-- A command may act once it has its script, or never. -/
def DynamicStore.Acts (store : DynamicStore c) (child : Option Text)
    (key key' : Option (List Text)) : Prop :=
  key' = key ∨ ∃ script, child = some script ∧ key' = store.effect script key

/-- The user has let the command run, and it has nothing to say. -/
def Mac.Granted (m : Mac) (output : Output) : Prop :=
  m.elevated = true ∧ output.success = true ∧ trim output.stdout = []

instance (m : Mac) (output : Output) : Decidable (m.Granted output) :=
  inferInstanceAs (Decidable (_ ∧ _ ∧ _))

def DynamicStore.step (store : DynamicStore c) :
    ∀ {β : Type}, MacPrim β → Mac → β → Mac → Prop
  | _, .privileged, m, _, m' => m' = m
  | _, .latch, m, r, m' => r = m.latch ∧ m' = m
  | _, .setLatch failed, m, _, m' => m' = { m with latch := failed }
  | _, .spawn program args, m, r, m' => match r with
    | .error _ => m' = m
    | .ok () =>
      if program = osascriptPath then ∃ key, store.Acts (heard args) m.key key ∧
        m' = { m with key, elevated := true, child := heard args, prompts := .asked :: m.prompts }
      else m' = { m with elevated := false, child := none }
  | _, .feed script, m, _, m' => ∃ key, store.Acts (some script) m.key key ∧
      m' = { m with key, child := some script }
  | _, .wait, m, r, m' => ∃ key, store.Acts m.child m.key key ∧ match r with
    | .error _ => m' = { m with key, child := none }
    | .ok output => (m.child = some c.showScript → output.success = true →
        output.stdout = shown m.key) ∧
      m' = { m with
        key
        child := none
        prompts := if m.Granted output then .granted :: m.prompts else m.prompts }

/-- The host, with what holds wherever a call may be dropped. -/
def DynamicStore.reading (store : DynamicStore c) (I : Mac → Prop) : Reading MacPrim Mac where
  step := store.step
  pre := fun _ m => I m

/-- The life of a controller: its calls one after another, each of them gone through or dropped
anywhere. A command that was dropped has acted or never will, and others may write the key. -/
inductive DynamicStore.Life (store : DynamicStore c) (others : Option (List Text) → Prop)
    (m₀ : Mac) : List DnsIntent → Mac → Prop
  | start : store.Life others m₀ [] m₀
  | apply {intents : List DnsIntent} {m m' : Mac} (intent : DnsIntent) (runtimeEpoch : Epoch)
      {key : Option (List Text)} : store.Life others m₀ intents m →
      (c.apply intent runtimeEpoch).At store.step m m' → store.Acts m'.child m'.key key →
      store.Life others m₀ (intent :: intents) { m' with key, child := none }
  | restore {intents : List DnsIntent} {m m' : Mac} {key : Option (List Text)} :
      store.Life others m₀ intents m → c.restore.At store.step m m' →
      store.Acts m'.child m'.key key →
      store.Life others m₀ intents { m' with key, child := none }
  | written {intents : List DnsIntent} {m : Mac} {key : Option (List Text)} :
      store.Life others m₀ intents m → others key → store.Life others m₀ intents { m with key }

section Commands

variable {store : DynamicStore c} {I : Mac → Prop} {m m' : Mac} {script : Text}
  {target : Option (List Text)}

theorem heard_authorization (script : Text) :
    heard ["-e".toList, authorizationScript script] = some script := by
  have hliteral := authorization_is_literal script
  rw [doShellScript_authorization, Option.bind_some] at hliteral
  simp [heard, doShellScript_authorization, hliteral]

/-- Only this script is given to a command. -/
def OfScript (script : Text) {β : Type} : MacPrim β → Prop
  | .spawn program args => program = osascriptPath → heard args = some script
  | .feed s => s = script
  | _ => True

theorem only_collect {elevated mutating : Bool} :
    (collect elevated mutating).Only (OfScript script) := by
  have hset : ∀ failed, (perform (.setLatch failed) : Prog DnsError MacPrim Unit).Only
      (OfScript script) := fun _ => Prog.Only.perform trivial
  refine Prog.Only.bind ⟨trivial, fun _ => trivial⟩ fun output => ?_
  split
  · refine Prog.Only.bind ?_ fun _ => ?_
    · unfold validateScutilOutput
      split <;> trivial
    · dsimp only
      split
      · exact Prog.Only.bind (hset false) fun _ => trivial
      · trivial
  · dsimp only
    split
    · exact Prog.Only.bind (hset true) fun _ => trivial
    · trivial

theorem only_scutil {mutating : Bool} : (scutil script mutating).Only (OfScript script) := by
  have hplain : ∀ {mutating}, (scutilPlain script mutating).Only (OfScript script) := by
    intro mutating
    have hspawn : OfScript script (.spawn scutilPath []) := fun h => absurd h (by decide)
    refine Prog.Only.bind ⟨hspawn, fun _ => trivial⟩ fun _ => ?_
    exact Prog.Only.bind ⟨rfl, fun _ => trivial⟩ fun _ => only_collect
  have helevated : (scutilElevated script).Only (OfScript script) := by
    refine Prog.Only.bind (Prog.Only.perform trivial) fun failed => ?_
    split
    · trivial
    · refine Prog.Only.bind (Prog.Only.perform trivial) fun _ => ?_
      refine Prog.Only.bind ⟨fun _ => heard_authorization script, fun _ => trivial⟩ fun _ => ?_
      exact only_collect
  unfold scutil
  split
  · refine Prog.Only.bind (Prog.Only.perform trivial) fun privileged => ?_
    split
    · exact hplain
    · exact helevated
  · exact hplain

/-- A key that what still runs may only leave alone or bring to the target. -/
structure DynamicStore.Settling (store : DynamicStore c) (old target : Option (List Text))
    (m : Mac) : Prop where
  key : m.key = old ∨ m.key = target
  child : ∀ s, m.child = some s → ∀ key, store.effect s key = key ∨ store.effect s key = target

theorem DynamicStore.Settling.acts {old key : Option (List Text)} {child : Option Text}
    (hkey : m.key = old ∨ m.key = target)
    (hchild : ∀ s, child = some s → ∀ key, store.effect s key = key ∨ store.effect s key = target)
    (h : store.Acts child m.key key) : key = old ∨ key = target := by
  obtain rfl | ⟨s, hs, rfl⟩ := h
  · exact hkey
  · obtain hsame | hnew := hchild s hs m.key
    · exact hsame.symm ▸ hkey
    · exact .inr hnew

/-- While a script runs that leaves a key alone or brings it to the target. -/
theorem settling_step {β : Type} {op : MacPrim β} {b : β} {old : Option (List Text)}
    (heffect : ∀ key, store.effect script key = key ∨ store.effect script key = target)
    (hop : OfScript script op) (h : store.Settling old target m) (hstep : store.step op m b m') :
    store.Settling old target m' := by
  have hnone : ∀ s, (none : Option Text) = some s → ∀ key,
      store.effect s key = key ∨ store.effect s key = target := fun s hs => by cases hs
  cases op with
  | privileged =>
    obtain rfl : m' = m := hstep
    exact h
  | latch =>
    obtain ⟨-, rfl⟩ : _ ∧ m' = m := hstep
    exact h
  | setLatch failed =>
    obtain rfl : m' = { m with latch := failed } := hstep
    exact ⟨h.key, h.child⟩
  | spawn program args =>
    cases b with
    | error e =>
      obtain rfl : m' = m := hstep
      exact h
    | ok _ =>
      simp only [DynamicStore.step] at hstep
      split at hstep
      · rename_i hprogram
        obtain ⟨key, hacts, rfl⟩ := hstep
        have hheard : ∀ s, heard args = some s → ∀ key,
            store.effect s key = key ∨ store.effect s key = target := by
          intro s hs
          obtain rfl : script = s := Option.some.inj ((hop hprogram).symm.trans hs)
          exact heffect
        exact ⟨DynamicStore.Settling.acts h.key hheard hacts, hheard⟩
      · obtain rfl := hstep
        exact ⟨h.key, hnone⟩
  | feed s =>
    obtain rfl : s = script := hop
    obtain ⟨key, hacts, rfl⟩ := hstep
    have hfed : ∀ s', some s = some s' → ∀ key,
        store.effect s' key = key ∨ store.effect s' key = target := by
      intro s' hs
      obtain rfl : s = s' := Option.some.inj hs
      exact heffect
    exact ⟨DynamicStore.Settling.acts h.key hfed hacts, hfed⟩
  | wait =>
    obtain ⟨key, hacts, hwait⟩ := hstep
    have hkey := DynamicStore.Settling.acts h.key h.child hacts
    cases b with
    | error e =>
      obtain rfl : m' = _ := hwait
      exact ⟨hkey, hnone⟩
    | ok output =>
      obtain ⟨-, rfl⟩ := hwait
      exact ⟨hkey, hnone⟩

/-- The script is run to an end or dropped, and the key settles. -/
theorem settles {mutating : Bool} {old : Option (List Text)} (hm : store.Settling old target m)
    (heffect : ∀ key, store.effect script key = key ∨ store.effect script key = target)
    (hI : ∀ m', store.Settling old target m' → I m') :
    (scutil script mutating).wp (store.reading I)
      (fun _ m' => store.Settling old target m') m :=
  Prog.Only.keeps only_scutil (fun _ m' _ h => hI m' h)
    (fun _ _ _ _ hop hstep h => settling_step heffect hop h hstep) hm

end Commands

section Prompted

variable {store : DynamicStore c} {m m' : Mac}

/-- The key is read back where there is none. -/
theorem at_absent {α : Type} {f : Option (List Text) → Prog DnsError MacPrim α}
    (hkey : m.key = none)
    (hrest : (f none).At store.step { m with elevated := false, child := none } m') :
    (c.readBack >>= f).At store.step m m' := by
  have hspawn : store.step (.spawn scutilPath []) m (.ok ())
      { m with elevated := false, child := none } := by
    simp only [DynamicStore.step, if_neg (show scutilPath ≠ osascriptPath by decide)]
  have hfeed : store.step (.feed c.showScript) { m with elevated := false, child := none } (.ok ())
      { m with elevated := false, child := some c.showScript } := ⟨m.key, .inl rfl, rfl⟩
  have hwait : store.step .wait { m with elevated := false, child := some c.showScript }
      (.ok ⟨true, shown none, []⟩) { m with elevated := false, child := none } := by
    refine ⟨m.key, .inl rfl, fun _ _ => by rw [hkey], ?_⟩
    have hungranted : ¬ Mac.Granted { m with elevated := false, child := some c.showScript }
        ⟨true, shown none, []⟩ := fun hg => by cases hg.1
    rw [if_neg hungranted]
  refine Prog.at_call hspawn (Prog.at_call hfeed (Prog.at_call hwait ?_))
  change (Prog.bind (if "No such key".toList <:+: shown none then pure none
    else if "<dictionary>".toList <:+: shown none then pure (some (shownServers (shown none)))
    else fail (.command (trim (shown none)))) f).At _ _ _
  rw [if_pos shown_absent]
  exact hrest

def nyanpasuDns : Controller where
  storeKey := "State:/Network/Service/nyanpasu-dns/DNS".toList
  debug := fun _ => []

def loopback : DnsIntent := ⟨["127.0.0.1"]⟩

def quiet : Mac := ⟨none, false, false, none, []⟩

/-- A prompt was shown, and the call dropped before it was answered. -/
def prompted : Mac := ⟨none, true, true, none, [.asked]⟩

theorem life_prompted : (DynamicStore.scripted nyanpasuDns).Life (fun _ => False) quiet [loopback]
    prompted := by
  have hat : (nyanpasuDns.apply loopback ⟨1, by decide, by decide⟩).At
      (DynamicStore.scripted nyanpasuDns).step quiet
      ⟨none, true, true, some (nyanpasuDns.setScript (addresses loopback)), [.asked]⟩ := by
    refine at_absent rfl ?_
    have hnew : ([] : List Text) ≠ addresses loopback := by decide
    dsimp only [Option.getD_none]
    rw [if_pos hnew]
    refine Prog.at_call (b := false) (t := quiet) rfl ?_
    refine Prog.at_call (b := false) (t := quiet) ⟨rfl, rfl⟩ ?_
    refine Prog.at_call (b := ()) (t := { quiet with latch := true }) rfl ?_
    refine Prog.at_call (b := .ok ()) (t := ⟨none, true, true,
      some (nyanpasuDns.setScript (addresses loopback)), [.asked]⟩) ?_ ?_
    · exact ⟨none, .inl rfl, by rw [heard_authorization]; rfl⟩
    · exact Or.inl rfl
  exact .apply loopback _ .start hat (.inl rfl)

/-- The same call is refused from then on. -/
def refused : Mac := ⟨none, true, false, none, [.asked]⟩

theorem life_refused : (DynamicStore.scripted nyanpasuDns).Life (fun _ => False) prompted [loopback]
    refused := by
  have hat : (nyanpasuDns.apply loopback ⟨1, by decide, by decide⟩).At
      (DynamicStore.scripted nyanpasuDns).step prompted refused := by
    refine at_absent rfl ?_
    have hnew : ([] : List Text) ≠ addresses loopback := by decide
    dsimp only [Option.getD_none]
    rw [if_pos hnew]
    refine Prog.at_call (b := false) (t := refused) rfl ?_
    exact Prog.at_call (b := true) (t := refused) ⟨rfl, rfl⟩ rfl
  exact .apply loopback _ .start hat (.inl rfl)

end Prompted

section Contract

variable {store : DynamicStore c} {I : Mac → Prop} {m₀ m m' : Mac}
  {old target : Option (List Text)}

/-- A command was given the script without privileges, and went through or was dropped; the
key never left `K`. -/
structure Mac.Ran (script : Text) (K : Option (List Text) → Prop) (m m' : Mac) : Prop where
  key : K m'.key
  latch : m'.latch = m.latch
  prompts : m'.prompts = m.prompts
  child : ∀ s, m'.child = some s → m.child = some s ∨ s = script

/-- A command without privileges shows no prompt, and its script keeps what it keeps of the
key. -/
theorem plain_spec {script : Text} {mutating : Bool} {K : Option (List Text) → Prop}
    (hkey : K m.key) (heffect : ∀ key, K key → K (store.effect script key))
    (hI : ∀ m', m.Ran script K m' → I m') :
    (scutilPlain script mutating).wp (store.reading I) (fun r m' => m.Ran script K m' ∧
      ∀ output, r = .ok output → script = c.showScript → ∃ key, K key ∧ output = shown key) m := by
  have hacts : ∀ {key key'}, K key → store.Acts (some script) key key' → K key' := by
    rintro key key' hold (rfl | ⟨s, hs, rfl⟩)
    · exact hold
    · exact Option.some.inj hs ▸ heffect key hold
  have hself : m.Ran script K m := ⟨hkey, rfl, rfl, fun _ hs => .inl hs⟩
  have hnone : ∀ {key}, K key → m.Ran script K { m with key, elevated := false, child := none } :=
    fun h => ⟨h, rfl, rfl, fun _ hs => by cases hs⟩
  have hfed : ∀ {key}, K key →
      m.Ran script K { m with key, elevated := false, child := some script } :=
    fun h => ⟨h, rfl, rfl, fun _ hs => .inr (Option.some.inj hs).symm⟩
  refine (Prog.wp_bind ..).2 ⟨hI m hself, ?_⟩
  intro r m₁ hspawn
  cases r with
  | error e =>
    obtain rfl : m₁ = m := hspawn
    exact ⟨hself, fun _ hr => by cases hr⟩
  | ok _ =>
  obtain rfl : m₁ = { m with elevated := false, child := none } := hspawn
  refine (Prog.wp_bind ..).2 ⟨hI _ (hnone hkey), ?_⟩
  intro r m₂ hfeed
  obtain ⟨key, hact, rfl⟩ := hfeed
  have hkey₂ : K key := hacts hkey hact
  cases r with
  | error e => exact ⟨hfed hkey₂, fun _ hr => by cases hr⟩
  | ok _ =>
  refine (Prog.wp_bind ..).2 ⟨hI _ (hfed hkey₂), ?_⟩
  intro r m₃ hwait
  obtain ⟨key', hact, hwait⟩ := hwait
  have hkey₃ : K key' := hacts hkey₂ hact
  cases r with
  | error e =>
    obtain rfl : m₃ = _ := hwait
    exact ⟨hnone hkey₃, fun _ hr => by cases hr⟩
  | ok output =>
    obtain ⟨houtput, rfl⟩ := hwait
    have hungranted : ¬ Mac.Granted
        { m with key, elevated := false, child := some script } output := fun hg => by cases hg.1
    rw [if_neg hungranted]
    change (if output.success then _ else _ : Prog DnsError MacPrim Text).wp _ _ _
    split
    · rename_i hsuccess
      unfold validateScutilOutput
      split
      · exact ⟨hnone hkey₃, fun _ hr => by cases hr⟩
      · refine ⟨hnone hkey₃, fun _ hr hshow => ⟨key, hkey₂, ?_⟩⟩
        cases hr
        exact houtput (congrArg some hshow) hsuccess
    · exact ⟨hnone hkey₃, fun _ hr => by cases hr⟩

/-- The key was looked at, with the command of that perhaps still running. -/
structure Controller.Looked (c : Controller) (m m' : Mac) : Prop where
  key : m'.key = m.key
  latch : m'.latch = m.latch
  prompts : m'.prompts = m.prompts
  child : ∀ s, m'.child = some s → m.child = some s ∨ s = c.showScript

/-- `show` looks at the key. -/
theorem show_spec (hI : ∀ m', c.Looked m m' → I m') :
    (scutil c.showScript false).wp (store.reading I) (fun r m' => c.Looked m m' ∧
      ∀ output, r = .ok output → output = shown m.key) m := by
  have hlooked : ∀ m', m.Ran c.showScript (· = m.key) m' → c.Looked m m' := fun _ h =>
    ⟨h.key, h.latch, h.prompts, h.child⟩
  have hshow : ∀ key, key = m.key → store.effect c.showScript key = m.key := fun key hkey =>
    (store.show_effect key).trans hkey
  refine Prog.wp_mono
    (plain_spec (K := (· = m.key)) rfl hshow fun m' h => hI m' (hlooked m' h)) ?_
  intro r m' ⟨hran, houtput⟩
  refine ⟨hlooked m' hran, fun output hr => ?_⟩
  obtain ⟨key, rfl, hshown⟩ := houtput output hr rfl
  exact hshown

/-- The addresses are written as addresses. -/
def Plain (key : Option (List Text)) : Prop := ∀ servers, key = some servers →
  ∀ server ∈ servers, IsAddress server

theorem readBack_spec (hplain : Plain m.key) (hI : ∀ m', c.Looked m m' → I m') :
    c.readBack.wp (store.reading I) (fun r m' => c.Looked m m' ∧
      ∀ observed, r = .ok observed → observed = m.key) m := by
  refine Prog.wp_seq (show_spec hI) (fun e m' h => ⟨h.1, fun _ hr => by cases hr⟩) ?_
  intro output m' ⟨hlooked, houtput⟩
  obtain rfl := houtput output rfl
  cases hkey : m.key with
  | none =>
    rw [if_pos shown_absent]
    exact ⟨hlooked, fun _ hr => by cases hr; rfl⟩
  | some servers =>
    have hservers := hplain servers hkey
    rw [if_neg (shown_present hservers).1, if_pos (shown_present hservers).2,
      shownServers_shown hservers]
    exact ⟨hlooked, fun _ hr => by cases hr; rfl⟩

/-- Between the key as a call found it and the key as it is to leave it, with nobody asked
where nothing was to be done. -/
structure DynamicStore.Towards (store : DynamicStore c) (m₀ : Mac)
    (target : Option (List Text)) (m : Mac) : Prop extends store.Settling m₀.key target m where
  asked : m₀.key = target → m.prompts = m₀.prompts

theorem DynamicStore.Towards.looked (h : store.Towards m₀ target m) (hm : c.Looked m m') :
    store.Towards m₀ target m' where
  key := hm.key ▸ h.key
  asked := fun hkey => hm.prompts.trans (h.asked hkey)
  child := by
    intro s hs key
    obtain hs | rfl := hm.child s hs
    · exact h.child s hs key
    · exact .inl (store.show_effect key)

theorem towards_start (hchild : m.child = none) : store.Towards m target m where
  key := .inl rfl
  asked := fun _ => rfl
  child := fun s hs => by
    rw [hchild] at hs
    cases hs

theorem DynamicStore.Settling.plain (h : store.Settling old target m) (hold : Plain old)
    (htarget : Plain target) : Plain m.key := by
  intro servers hservers
  obtain hkey | hkey := h.key
  · exact hold servers (hkey ▸ hservers)
  · exact htarget servers (hkey ▸ hservers)

/-- What `apply` returns, from the key as it found it. -/
def Controller.recordOf (c : Controller) (key : Option (List Text)) (intent : DnsIntent)
    (runtimeEpoch : Epoch) : DnsOverrideRecord where
  iface := String.ofList c.storeKey
  previous := (key.getD []).map String.ofList
  applied := intent.servers
  runtimeEpoch := runtimeEpoch.get
  ownerGeneration := none
  state := .applied

theorem plain_addresses {servers : List Text} (h : ∀ server ∈ servers, IsAddress server) :
    Plain (some servers) := fun _ hs => by
  cases hs
  exact h

/-- The key is read back on its way. -/
theorem readBack_towards {α : Type} {f : Option (List Text) → Prog DnsError MacPrim α}
    {Q : Except DnsError α → Mac → Prop} (hplain : Plain m.key) (h : store.Towards m₀ target m)
    (herror : ∀ e m', store.Towards m₀ target m' → Q (.error e) m')
    (hrest : ∀ m', m'.key = m.key → store.Towards m₀ target m' →
      (f m.key).wp (store.reading (store.Towards m₀ target)) Q m') :
    (c.readBack >>= f).wp (store.reading (store.Towards m₀ target)) Q m := by
  refine Prog.wp_seq (readBack_spec hplain fun _ hm => h.looked hm)
    (fun e m' hm => herror e m' (h.looked hm.1)) ?_
  intro observed m' ⟨hlooked, hobserved⟩
  obtain rfl := hobserved observed rfl
  exact hrest m' hlooked.key (h.looked hlooked)

/-- The key is sent on its way. -/
theorem scutil_towards {script : Text} {mutating : Bool} (h : store.Towards m₀ target m)
    (hkey : m₀.key ≠ target) (heffect : ∀ key, store.effect script key = target) :
    (scutil script mutating).wp (store.reading (store.Towards m₀ target))
      (fun _ m' => store.Towards m₀ target m') m := by
  have htowards : ∀ m', store.Settling m₀.key target m' → store.Towards m₀ target m' :=
    fun _ hm => ⟨hm, fun hsame => absurd hsame hkey⟩
  exact Prog.wp_mono (settles h.toSettling (fun key => .inr (heffect key)) htowards)
    fun _ m' hm => htowards m' hm

theorem apply_spec {intent : DnsIntent} {runtimeEpoch : Epoch} (hplain : Plain m.key)
    (hchild : m.child = none) (hservers : ∀ server ∈ addresses intent, IsAddress server) :
    (c.apply intent runtimeEpoch).wp (store.reading (store.Towards m (some (addresses intent))))
      (fun r m' => store.Towards m (some (addresses intent)) m' ∧ ∀ record, r = .ok record →
        m'.key = some (addresses intent) ∧ record = c.recordOf m.key intent runtimeEpoch) m := by
  refine readBack_towards hplain (towards_start hchild)
    (fun e m' h => ⟨h, fun _ hr => by cases hr⟩) fun m₁ _ hread => ?_
  have hconfirm : ∀ m₂, store.Towards m (some (addresses intent)) m₂ →
      (c.readBack >>= fun observed => if observed ≠ some (addresses intent) then
        fail (.command ("read-back mismatch after apply: ".toList ++ c.debug observed))
        else pure (c.recordOf m.key intent runtimeEpoch)).wp
      (store.reading (store.Towards m (some (addresses intent))))
      (fun r m' => store.Towards m (some (addresses intent)) m' ∧ ∀ record, r = .ok record →
        m'.key = some (addresses intent) ∧ record = c.recordOf m.key intent runtimeEpoch) m₂ := by
    intro m₂ h₂
    have hplain₂ := h₂.plain hplain (plain_addresses hservers)
    refine readBack_towards hplain₂ h₂ (fun e m' h => ⟨h, fun _ hr => by cases hr⟩)
      fun m₃ hkey₃ h₃ => ?_
    split
    · exact ⟨h₃, fun _ hr => by cases hr⟩
    · rename_i heq
      refine ⟨h₃, fun _ hr => ?_⟩
      cases hr
      exact ⟨hkey₃.trans (not_not.1 heq), rfl⟩
  dsimp only
  split
  · rename_i hdiffer
    have hkey : m.key ≠ some (addresses intent) := fun hm => hdiffer (by rw [hm]; rfl)
    have hset : ∀ key, store.effect (c.setScript (addresses intent)) key =
        some (addresses intent) := fun key => store.set_effect _ key hservers
    refine Prog.wp_seq (scutil_towards hread hkey hset)
      (fun e m' h => ⟨h, fun _ hr => by cases hr⟩) ?_
    intro _ m₂ h₂
    exact hconfirm m₂ h₂
  · exact hconfirm m₁ hread

theorem restore_spec (hplain : Plain m.key) (hchild : m.child = none) :
    c.restore.wp (store.reading (store.Towards m none)) (fun r m' => store.Towards m none m' ∧
      (r = .ok () → m'.key = none)) m := by
  refine readBack_towards hplain (towards_start hchild)
    (fun e m' h => ⟨h, fun hr => by cases hr⟩) fun m₁ hkey₁ hread => ?_
  split
  · rename_i habsent
    exact ⟨hread, fun _ => hkey₁.trans (Option.isNone_iff_eq_none.1 habsent)⟩
  rename_i hpresent
  have hkey : m.key ≠ none := fun hm => hpresent (by rw [hm]; rfl)
  refine Prog.wp_seq (scutil_towards hread hkey store.remove_effect)
    (fun e m' h => ⟨h, fun hr => by cases hr⟩) ?_
  intro _ m₂ h₂
  have hplain₂ := h₂.plain hplain fun _ hs => by cases hs
  refine readBack_towards hplain₂ h₂ (fun e m' h => ⟨h, fun hr => by cases hr⟩)
    fun m₃ hkey₃ h₃ => ?_
  split
  · exact ⟨h₃, fun hr => by cases hr⟩
  · rename_i hnone
    exact ⟨h₃, fun _ => hkey₃.trans (by simpa using hnone)⟩

/-- Where a dropped call leaves the key, whether or not its command still acts. -/
theorem dropped {α : Type} {p : Prog DnsError MacPrim α}
    {Q : Except DnsError α → Mac → Prop} {key : Option (List Text)}
    (hp : p.wp (store.reading (store.Towards m target))
      (fun r m' => store.Towards m target m' ∧ Q r m') m) (h : p.At store.step m m')
    (hacts : store.Acts m'.child m'.key key) : key = m.key ∨ key = target := by
  have htowards : store.Towards m target m' :=
    Prog.wp_at hp h (fun _ _ h => h) fun _ _ h => h.1
  exact DynamicStore.Settling.acts htowards.key htowards.child hacts

/-- Where the key comes from. -/
structure DynamicStore.Owned (store : DynamicStore c) (others : Option (List Text) → Prop)
    (m₀ : Mac) (intents : List DnsIntent) (m : Mac) : Prop where
  key : m.key = m₀.key ∨ m.key = none ∨
    (∃ intent ∈ intents, m.key = some (addresses intent)) ∨ others m.key
  child : m.child = none

variable {others : Option (List Text) → Prop} {intents : List DnsIntent}

theorem DynamicStore.Owned.plain (h : store.Owned others m₀ intents m) (hplain : Plain m₀.key)
    (hothers : ∀ key, others key → Plain key)
    (hintents : ∀ intent ∈ intents, ∀ server ∈ addresses intent, IsAddress server) :
    Plain m.key := by
  obtain hkey | hkey | ⟨intent, hi, hkey⟩ | hkey := h.key
  · exact hkey ▸ hplain
  · intro servers hs
    cases hkey.symm.trans hs
  · exact hkey ▸ plain_addresses (hintents intent hi)
  · exact hothers _ hkey

theorem life_owned (hplain : Plain m₀.key) (hchild : m₀.child = none)
    (hothers : ∀ key, others key → Plain key)
    (hintents : ∀ intent ∈ intents, ∀ server ∈ addresses intent, IsAddress server)
    (h : store.Life others m₀ intents m) : store.Owned others m₀ intents m := by
  induction h with
  | start => exact ⟨.inl rfl, hchild⟩
  | apply intent runtimeEpoch _ hat hacts ih =>
    have hrest := ih fun i hi => hintents i (List.mem_cons_of_mem _ hi)
    have hplain' := hrest.plain hplain hothers fun i hi => hintents i (List.mem_cons_of_mem _ hi)
    have hservers := hintents intent List.mem_cons_self
    refine ⟨?_, rfl⟩
    obtain rfl | rfl := dropped (apply_spec hplain' hrest.child hservers) hat hacts
    · obtain hkey | hkey | ⟨i, hi, hkey⟩ | hkey := hrest.key
      · exact .inl hkey
      · exact .inr (.inl hkey)
      · exact .inr (.inr (.inl ⟨i, List.mem_cons_of_mem _ hi, hkey⟩))
      · exact .inr (.inr (.inr hkey))
    · exact .inr (.inr (.inl ⟨intent, List.mem_cons_self, rfl⟩))
  | restore _ hat hacts ih =>
    have hrest := ih hintents
    have hplain' := hrest.plain hplain hothers hintents
    refine ⟨?_, rfl⟩
    obtain rfl | rfl := dropped (restore_spec hplain' hrest.child) hat hacts
    · exact hrest.key
    · exact .inr (.inl rfl)
  | written _ hkey ih => exact ⟨.inr (.inr (.inr hkey)), (ih hintents).child⟩

/-- The key is never but the one found, none, one to be applied, or another's; and wherever it
is, `apply` and `restore` bring it where they are to, or leave it. -/
theorem override_is_owned (hplain : Plain m₀.key) (hchild : m₀.child = none)
    (hothers : ∀ key, others key → Plain key)
    (hintents : ∀ intent ∈ intents, ∀ server ∈ addresses intent, IsAddress server)
    (h : store.Life others m₀ intents m) :
    (m.key = m₀.key ∨ m.key = none ∨ (∃ intent ∈ intents, m.key = some (addresses intent)) ∨
      others m.key) ∧
    (∀ intent runtimeEpoch, (∀ server ∈ addresses intent, IsAddress server) →
      (c.apply intent runtimeEpoch).wp (store.reading (store.Towards m (some (addresses intent))))
        (fun r m' => store.Towards m (some (addresses intent)) m' ∧ ∀ record, r = .ok record →
          m'.key = some (addresses intent) ∧ record = c.recordOf m.key intent runtimeEpoch) m) ∧
    c.restore.wp (store.reading (store.Towards m none)) (fun r m' => store.Towards m none m' ∧
      (r = .ok () → m'.key = none)) m := by
  have howned := life_owned hplain hchild hothers hintents h
  have hplain' := howned.plain hplain hothers hintents
  exact ⟨howned.key, fun _ _ hservers => apply_spec hplain' howned.child hservers,
    restore_spec hplain' howned.child⟩

theorem loopback_address : IsAddress "127.0.0.1".toList := by
  have hall : "127.0.0.1".toList.all ("0123456789abcdefABCDEF.:".toList.contains ·) = true := by
    decide
  exact ⟨by decide, fun a ha => List.contains_iff_mem.1 (List.all_eq_true.1 hall a ha)⟩

theorem prompted_restored : nyanpasuDns.restore.wp
    ((DynamicStore.scripted nyanpasuDns).reading
      ((DynamicStore.scripted nyanpasuDns).Towards prompted none))
    (fun r m' => (DynamicStore.scripted nyanpasuDns).Towards prompted none m' ∧
      (r = .ok () → m'.key = none)) prompted :=
  (override_is_owned (fun _ h => by cases h) rfl (fun _ h => h.elim) (by
    intro intent hintent server hserver
    obtain rfl := List.mem_singleton.1 hintent
    obtain rfl := List.mem_singleton.1 hserver
    exact loopback_address) life_prompted).2.2

end Contract

section Authorization

variable {store : DynamicStore c} {J : Mac → Prop} {m₀ m m' : Mac} {script : Text}

/-- The program keeps it, wherever it is dropped. -/
def Keeps {α : Type} (store : DynamicStore c) (J : Mac → Prop) (p : Prog DnsError MacPrim α) :
    Prop := ∀ m, J m → p.wp (store.reading J) (fun _ m' => J m') m

theorem Keeps.ret {α : Type} (r : Except DnsError α) : Keeps store J (.ret r) := fun _ hm => hm

theorem Keeps.bind {α β : Type} {p : Prog DnsError MacPrim α} {f : α → Prog DnsError MacPrim β}
    (hp : Keeps store J p) (hf : ∀ x, Keeps store J (f x)) : Keeps store J (p >>= f) :=
  fun m hm => Prog.wp_seq (hp m hm) (fun _ _ h => h) fun x m' h => hf x m' h

/-- What is about the latch and the prompts a command without privileges keeps. -/
theorem keeps_plain {mutating : Bool} (hJ : ∀ m m' : Mac, m'.latch = m.latch →
    m'.prompts = m.prompts → J m → J m') : Keeps store J (scutilPlain script mutating) := by
  intro m hm
  have hran : ∀ m', m.Ran script (fun _ => True) m' → J m' := fun m' h =>
    hJ m m' h.latch h.prompts hm
  exact Prog.wp_mono (plain_spec trivial (fun _ _ => trivial) hran) fun _ m' h => hran m' h.1

theorem keeps_scutil (hplain : ∀ script mutating, Keeps store J (scutilPlain script mutating))
    (helevated : ∀ script, Keeps store J (scutilElevated script)) (script : Text)
    (mutating : Bool) : Keeps store J (scutil script mutating) := by
  unfold scutil
  split
  · intro m hm
    refine Prog.wp_perform_bind hm fun privileged m₁ hm₁ => ?_
    obtain rfl : m₁ = m := hm₁
    split
    · exact hplain script true m₁ hm
    · exact helevated script m₁ hm
  · exact hplain script false

theorem keeps_readBack (hscutil : ∀ script mutating, Keeps store J (scutil script mutating)) :
    Keeps store J c.readBack := by
  refine Keeps.bind (hscutil _ _) fun output => ?_
  split
  · exact Keeps.ret _
  · split <;> exact Keeps.ret _

theorem keeps_apply (hscutil : ∀ script mutating, Keeps store J (scutil script mutating))
    {intent : DnsIntent} {runtimeEpoch : Epoch} :
    Keeps store J (c.apply intent runtimeEpoch) := by
  refine Keeps.bind (keeps_readBack hscutil) fun observed => ?_
  have hconfirm : Keeps store J (c.readBack >>= fun after =>
      if after ≠ some (addresses intent) then
        fail (.command ("read-back mismatch after apply: ".toList ++ c.debug after))
      else pure (c.recordOf observed intent runtimeEpoch)) := by
    refine Keeps.bind (keeps_readBack hscutil) fun after => ?_
    split <;> exact Keeps.ret _
  dsimp only
  split
  · exact Keeps.bind (hscutil _ _) fun _ => hconfirm
  · exact hconfirm

theorem keeps_restore (hscutil : ∀ script mutating, Keeps store J (scutil script mutating)) :
    Keeps store J c.restore := by
  refine Keeps.bind (keeps_readBack hscutil) fun observed => ?_
  split
  · exact Keeps.ret _
  · refine Keeps.bind (hscutil _ _) fun _ => ?_
    refine Keeps.bind (keeps_readBack hscutil) fun observed => ?_
    split <;> exact Keeps.ret _

theorem life_keeps {others : Option (List Text) → Prop} {intents : List DnsIntent}
    (hscutil : ∀ script mutating, Keeps store J (scutil script mutating))
    (hhost : ∀ m key child, J m → J { m with key, child }) (hm₀ : J m₀)
    (h : store.Life others m₀ intents m) : J m := by
  have hat : ∀ {α : Type} {p : Prog DnsError MacPrim α} {m m' : Mac}, Keeps store J p → J m →
      p.At store.step m m' → J m' := fun hp hm h =>
    Prog.wp_at (hp _ hm) h (fun _ _ h => h) fun _ _ h => h
  induction h with
  | start => exact hm₀
  | apply intent runtimeEpoch _ h _ ih => exact hhost _ _ _ (hat (keeps_apply hscutil) ih h)
  | restore _ h _ ih => exact hhost _ _ _ (hat (keeps_restore hscutil) ih h)
  | written _ _ ih => exact hhost _ _ _ ih

/-- Nobody is asked again after a prompt that was not granted, and with the latch open the
last one was. -/
structure Mac.Restrained (m : Mac) : Prop where
  chain : m.prompts.IsChain fun later earlier => later = .asked → earlier = .granted
  latched : m.latch = false → m.prompts.head? ≠ some .asked

/-- The command of a prompt is waited for, and the latch is opened again once the prompt was
granted. -/
theorem collect_elevated (helevated : m.elevated = true) (hlatch : m.latch = true)
    (hm : m.Restrained) : (collect true true).wp (store.reading Mac.Restrained)
      (fun _ m' => m'.Restrained) m := by
  refine (Prog.wp_bind ..).2 ⟨hm, ?_⟩
  intro r m' hwait
  obtain ⟨key, -, hwait⟩ := hwait
  cases r with
  | error e =>
    obtain rfl : m' = _ := hwait
    exact ⟨hm.chain, hm.latched⟩
  | ok output =>
    obtain ⟨-, rfl⟩ := hwait
    change (if output.success then _ else _ : Prog DnsError MacPrim Text).wp _ _ _
    have hclosed : ∀ {key child} (prompts : List Prompt),
        (prompts.IsChain fun later earlier => later = .asked → earlier = .granted) →
        Mac.Restrained { m with key, child, prompts } := fun _ hchain =>
      ⟨hchain, fun hopen => absurd (hlatch.symm.trans hopen) (by decide)⟩
    by_cases hgranted : m.Granted output
    · have hchain : (Prompt.granted :: m.prompts).IsChain fun later earlier =>
          later = .asked → earlier = .granted := hm.chain.cons fun _ _ hlater => by cases hlater
      have hvalid : validateScutilOutput output.stdout true = pure () := by
        simp [validateScutilOutput, hgranted.2.2]
      rw [if_pos hgranted, if_pos hgranted.2.1, hvalid]
      refine Prog.wp_perform_bind (hclosed _ hchain) fun _ m'' hm'' => ?_
      obtain rfl : m'' = _ := hm''
      exact ⟨hchain, fun _ hhead => by cases hhead⟩
    · rw [if_neg hgranted]
      split
      · rename_i hsuccess
        have hloud : trim output.stdout ≠ [] := fun hquiet =>
          hgranted ⟨helevated, hsuccess, hquiet⟩
        have hinvalid : validateScutilOutput output.stdout true =
            fail (.command (trim output.stdout)) := by
          simp [validateScutilOutput, hloud]
        rw [hinvalid]
        exact hclosed _ hm.chain
      · refine Prog.wp_perform_bind (hclosed _ hm.chain) fun _ m'' hm'' => ?_
        obtain rfl : m'' = _ := hm''
        exact ⟨hm.chain, fun h => by cases h⟩

theorem restrained_elevated : Keeps store Mac.Restrained (scutilElevated script) := by
  intro m hm
  refine Prog.wp_perform_bind hm fun failed m₁ hlatch => ?_
  obtain ⟨rfl, rfl⟩ := hlatch
  split
  · exact hm
  rename_i hopen
  have hlast := hm.latched (Bool.eq_false_iff.2 hopen)
  have hset : Mac.Restrained { m₁ with latch := true } := ⟨hm.chain, fun h => by cases h⟩
  refine Prog.wp_perform_bind hm fun _ m₂ hm₂ => ?_
  obtain rfl : m₂ = { m₁ with latch := true } := hm₂
  refine (Prog.wp_bind ..).2 ⟨hset, ?_⟩
  intro r m₃ hspawn
  cases r with
  | error e =>
    obtain rfl : m₃ = _ := hspawn
    exact hset
  | ok _ =>
    obtain ⟨key, -, rfl⟩ := hspawn
    refine collect_elevated rfl rfl
      ⟨hm.chain.cons fun earlier hearlier _ => ?_, fun h => by cases h⟩
    cases earlier with
    | asked => exact absurd hearlier hlast
    | granted => rfl

theorem restrained_scutil : ∀ script mutating,
    Keeps store Mac.Restrained (scutil script mutating) :=
  keeps_scutil (fun _ _ => keeps_plain fun _ _ hlatch hprompts hm =>
    ⟨hprompts ▸ hm.chain, hlatch ▸ hprompts ▸ hm.latched⟩) fun _ => restrained_elevated

/-- With the latch set nobody is asked. -/
theorem latched_scutil {prompts : List Prompt} : ∀ script mutating,
    Keeps store (fun m => m.latch = true ∧ m.prompts = prompts) (scutil script mutating) := by
  refine keeps_scutil (fun _ _ => keeps_plain fun _ _ hlatch hprompts hm =>
    ⟨hlatch.trans hm.1, hprompts.trans hm.2⟩) fun script m hm => ?_
  refine Prog.wp_perform_bind hm fun failed m₁ hlatch => ?_
  obtain ⟨rfl, rfl⟩ := hlatch
  rw [if_pos hm.1]
  exact hm

/-- Over the whole life of a controller every prompt but the first is shown right after one
that was granted; and once the latch is set between two calls there are no more. -/
theorem asked_after_granted {others : Option (List Text) → Prop} {intents : List DnsIntent}
    (hprompts : m₀.prompts = []) (h : store.Life others m₀ intents m) :
    (m.prompts.IsChain fun later earlier => later = .asked → earlier = .granted) ∧
    (m.prompts.head? = some .asked → ∀ intents' m', store.Life others m intents' m' →
      m'.prompts = m.prompts) := by
  have hstart : m₀.Restrained := ⟨hprompts ▸ .nil, fun _ hhead => by simp [hprompts] at hhead⟩
  have hm := life_keeps restrained_scutil (fun _ _ _ h => ⟨h.chain, h.latched⟩) hstart h
  refine ⟨hm.chain, fun hhead intents' m' h' => ?_⟩
  have hlatch : m.latch = true := by
    by_contra hopen
    exact hm.latched (Bool.eq_false_iff.2 hopen) hhead
  exact (life_keeps latched_scutil (fun _ _ _ h => h) ⟨hlatch, rfl⟩ h').2

theorem refused_once : refused.prompts = prompted.prompts :=
  (asked_after_granted rfl life_prompted).2 rfl [loopback] refused life_refused

end Authorization

end Chimera.Resolver
