import Chimera.Manager.Numbers
import Chimera.Manager.Steady

/-! What a rejected change leaves in the runtime directory. A candidate's names
may be anywhere in its sweep until its cleanup; what an apply stages and backs
up is followed name by name. Once the old epoch is retired nothing is asked of
the names, unless its plan comes back. -/

namespace Chimera.Manager
open Chimera.Model Chimera.Lib.Program Chimera.Lib.Transition

variable {Doc : Type} {setup : Setup Doc} {env : Env Doc} {X names n m : Set Artifact} {L : Nat}
  {firm : Prop} {α β : Type}

/-! ## The books -/

namespace Books

/-- The candidate `L + 1` has no live runtime. -/
structure Still (L : Nat) (a : Books Doc) : Prop where
  le_last : L ≤ a.last
  ended : L < a.last → ¬Lives (L + 1) a.trace

/-- No epoch up to `L` is current. -/
structure Gone (L : Nat) (a : Books Doc) : Prop where
  le_last : L ≤ a.last
  newer : ∀ active, a.current = some active → L < active.plan.revision.epoch.get

variable {a a' : Books Doc} {op : Op Doc β} {b : β}

theorem le_last_step (ha : L ≤ a.last) (hop : op.constructs = false) (h : Books.step op a b a') :
    L ≤ a'.last := by
  cases op with
  | panic _ => exact h.elim
  | boot _ => cases hop
  | current | lastSpec | quarantine | take =>
    rw [h.2]
    exact ha
  | nextEpoch =>
    rw [h.2]
    exact ha.trans (Nat.le_succ _)
  | launch _ _ =>
    cases b with
    | ok _ => exact ha.trans (congrArg Books.last h.2).ge
    | error e => exact ha.trans (congrArg Books.last h).ge
  | cleanupEpoch _ _ | reap _ =>
    cases b with
    | ok _ => exact ha.trans (congrArg Books.last h).ge
    | error e => exact ha.trans (congrArg Books.last h).ge
  | _ => exact ha.trans (congrArg Books.last h).ge

/-- Only a launch of the candidate disturbs it. -/
theorem Still.step (ha : a.Still L) (hop : op.constructs = false) (hstart : ¬op.starts (L + 1))
    (h : Books.step op a b a') : a'.Still L := by
  refine ⟨le_last_step ha.le_last hop h, ?_⟩
  have hended := ha.ended
  cases op with
  | panic _ => exact h.elim
  | boot _ => cases hop
  | current | lastSpec | quarantine | take =>
    rw [h.2]
    exact hended
  | nextEpoch =>
    obtain ⟨hepoch, rfl⟩ := h
    intro hlt hlives
    refine hended ?_ hlives.2
    have hne := hlives.1
    rw [hepoch] at hne
    have hlt : L < a.last + 1 := hlt
    omega
  | launch _ plan =>
    cases b with
    | ok _ =>
      obtain ⟨-, rfl⟩ := h
      intro hlt hlives
      exact hlives.elim hstart (hended hlt)
    | error e =>
      obtain rfl := h
      exact hended
  | stop _ _ =>
    obtain rfl := h
    intro hlt hlives
    cases b with
    | ok _ => exact hended hlt hlives.2
    | error e => exact hended hlt hlives
  | cleanupEpoch _ _ | reap _ =>
    cases b with
    | ok _ =>
      obtain rfl := h
      exact hended
    | error e =>
      obtain rfl := h
      exact hended
  | _ =>
    obtain rfl := h
    exact hended

end Books

/-- The operation makes no epoch up to `L` current, and constructs nothing. -/
def Op.past (L : Nat) {β : Type} : Op Doc β → Prop
  | .install _ plan _ => L < plan.revision.epoch.get
  | .adopt _ | .reconcileOrphan | .boot _ => False
  | _ => True

theorem Books.Gone.step {a a' : Books Doc} {op : Op Doc β} {b : β} (ha : a.Gone L)
    (hop : op.past L) (h : Books.step op a b a') : a'.Gone L := by
  have hconstructs : op.constructs = false := by
    cases op with
    | boot _ | reconcileOrphan => exact hop.elim
    | _ => rfl
  refine ⟨le_last_step ha.le_last hconstructs h, ?_⟩
  have hnewer := ha.newer
  cases op with
  | panic _ => exact h.elim
  | boot _ | adopt _ | reconcileOrphan => exact hop.elim
  | current | lastSpec | quarantine | nextEpoch =>
    rw [h.2]
    exact hnewer
  | take =>
    rw [h.2]
    intro active hactive
    cases hactive
  | install inst plan _ =>
    obtain rfl := h
    intro active hactive
    cases hactive
    exact hop
  | retainSource spec =>
    obtain rfl := h
    intro active hactive
    obtain ⟨before, hbefore, rfl⟩ := Option.map_eq_some_iff.1 hactive
    exact hnewer before hbefore
  | launch _ _ =>
    cases b with
    | ok _ =>
      obtain ⟨-, rfl⟩ := h
      exact hnewer
    | error e =>
      obtain rfl := h
      exact hnewer
  | cleanupEpoch _ _ | reap _ =>
    cases b with
    | ok _ =>
      obtain rfl := h
      exact hnewer
    | error e =>
      obtain rfl := h
      exact hnewer
  | _ =>
    obtain rfl := h
    exact hnewer

/-! ## The names -/

/-- The names that other runtimes write. -/
def others (X : Set Artifact) : Set Artifact := {a | a.ofRuntime = true ∧ a ∈ X}

/-- What the candidate or another runtime may have left. -/
def litter (X : Set Artifact) (L : Nat) : Set Artifact := others X ∪ swept (L + 1)

theorem not_others {a : Artifact} (ha : a.ofRuntime = false) : a ∉ others X := by
  intro h
  rw [h.1] at ha
  cases ha

theorem Op.written_still {op : Op Doc β} {a : Books Doc} (ha : a.Still L)
    (hop : ¬op.starts (L + 1)) : op.written X L a = others X := by
  ext x
  constructor
  · intro hx
    refine ⟨hx.1, ?_⟩
    rcases hx.2 with hX | ⟨-, hlt, hstart | hlives⟩
    · exact hX
    · exact absurd hstart hop
    · exact absurd hlives (ha.ended hlt)
  · exact fun hx => ⟨hx.1, .inl hx.2⟩

theorem Op.written_litter {op : Op Doc β} {a : Books Doc} : op.written X L a ⊆ litter X L := by
  intro x hx
  obtain ⟨hruntime, hX | ⟨hnumber, -⟩⟩ := hx
  · exact .inl ⟨hruntime, hX⟩
  · refine .inr ?_
    cases x with
    | pid _ | socket _ | pidStaging _ _ => exact decide_eq_true hnumber
    | _ => cases hruntime

namespace Shelf

/-- Nothing but the candidate's own names, and those of other runtimes, differs
from `n`. -/
structure Scattered (X : Set Artifact) (L : Nat) (n : Set Artifact) (s : Shelf Doc) : Prop where
  le_last : L ≤ s.books.last
  names : s.names \ litter X L = n

/-- So it is, and the candidate has no runtime to write more of them. -/
structure Loose (X : Set Artifact) (L : Nat) (n : Set Artifact) (s : Shelf Doc) : Prop where
  still : s.books.Still L
  names : s.names \ litter X L = n

/-- The names are `n`, apart from those of other runtimes. -/
structure Rests (X : Set Artifact) (L : Nat) (n : Set Artifact) (s : Shelf Doc) : Prop where
  still : s.books.Still L
  names : s.names \ others X = n

end Shelf

/-- The operation leaves the names to others, and the candidate alone. -/
def Op.mild (L : Nat) {β : Type} : Op Doc β → Prop
  | .launch _ plan => plan.revision.epoch.get ≠ L + 1
  | .stage _ _ | .dropStaged _ | .commitNew _ _ | .commitReplace _ _ | .backup _ _ | .restore _
  | .removeBackup _ | .cleanupEpoch _ _ | .cleanupArtifacts _ | .reconcileOrphan | .boot _ => False
  | _ => True

/-- What the operation does to names, it does to names of epoch `number`. -/
def Op.about (number : Nat) {β : Type} : Op Doc β → Prop
  | .stage epoch _ => epoch.get = number
  | .dropStaged staged | .commitReplace staged _ => staged.epoch.get = number
  | .commitNew staged epoch => staged.epoch.get = number ∧ epoch.get = number
  | .cleanupEpoch _ epoch => epoch.get = number
  | .backup _ _ | .restore _ | .removeBackup _ | .cleanupArtifacts _ | .reconcileOrphan
  | .boot _ => False
  | _ => True

section Steps

variable {op : Op Doc β} {b : β} {s s' : Shelf Doc}

theorem Op.mild_constructs (hop : op.mild L) : op.constructs = false := by
  cases op with
  | boot _ | reconcileOrphan => exact hop.elim
  | _ => rfl

theorem Op.mild_starts (hop : op.mild L) : ¬op.starts (L + 1) := by
  cases op with
  | launch site plan => exact hop
  | _ => exact id

theorem Op.about_constructs {number : Nat} (hop : op.about number) : op.constructs = false := by
  cases op with
  | boot _ | reconcileOrphan => exact hop.elim
  | _ => rfl

/-- What an operation does to the names where the candidate has no runtime. -/
theorem Shelf.Rests.on (hs : s.Rests X L n) (hop : ¬op.starts (L + 1))
    (h : (shelfReading X L names firm).step op s b s') :
    op.onNames L firm n b (s'.names \ others X) := by
  have hon := h.2.1
  rw [Op.written_still hs.still hop, hs.names] at hon
  exact hon

theorem Shelf.Rests.step (hs : s.Rests X L n) (hop : op.mild L)
    (h : (shelfReading X L names firm).step op s b s') : s'.Rests X L n := by
  refine ⟨hs.still.step (Op.mild_constructs hop) (Op.mild_starts hop) h.1, ?_⟩
  have hon := hs.on (Op.mild_starts hop) h
  cases op with
  | stage _ _ | dropStaged _ | commitNew _ _ | commitReplace _ _ | backup _ _ | restore _
  | removeBackup _ | cleanupEpoch _ _ | cleanupArtifacts _ | reconcileOrphan | boot _ =>
    exact hop.elim
  | _ => exact hon

theorem staged_swept {staged : Staged} {number : Nat} (h : staged.epoch.get = number) :
    staged.artifact ∈ swept number := decide_eq_true h

theorem config_swept {epoch : Epoch} {number : Nat} (h : epoch.get = number) :
    Artifact.config epoch.get ∈ swept number := decide_eq_true h

theorem Shelf.Scattered.step (hs : s.Scattered X L n) (hop : op.about (L + 1))
    (h : (shelfReading X L names firm).step op s b s') : s'.Scattered X L n := by
  refine ⟨Books.le_last_step hs.le_last (Op.about_constructs hop) h.1, ?_⟩
  have hon := h.2.1
  have hsub : op.written X L s.books ⊆ litter X L := Op.written_litter
  have outer (k : Set Artifact) : (k \ op.written X L s.books) \ litter X L = k \ litter X L := by
    rw [Set.sdiff_sdiff, Set.union_eq_self_of_subset_left hsub]
  rw [← hs.names, ← outer s'.names, ← outer s.names]
  have own {a : Artifact} (ha : a ∈ swept (L + 1)) : a ∈ litter X L := .inr ha
  cases op with
  | stage epoch contents =>
    cases b with
    | ok staged =>
      obtain ⟨hepoch, -, hnew⟩ := hon
      rw [hnew, Set.insert_sdiff_of_mem _ (own (staged_swept (hepoch ▸ hop)))]
    | error e =>
      rcases hon.1 with hsame | ⟨suffix, hnew⟩
      · rw [hsame]
      · have hmem : Artifact.staging epoch.get suffix ∈ swept (L + 1) := decide_eq_true hop
        rw [hnew, Set.insert_sdiff_of_mem _ (own hmem)]
  | dropStaged staged | commitReplace staged _ =>
    rw [show s'.names \ _ = _ from hon, sdiff_singleton_sdiff (own (staged_swept hop))]
  | commitNew staged epoch =>
    have moved (k : Set Artifact) :
        (insert (Artifact.config epoch.get) k \ {staged.artifact}) \ litter X L = k \ litter X L := by
      rw [sdiff_singleton_sdiff (own (staged_swept hop.1)),
        Set.insert_sdiff_of_mem _ (own (config_swept hop.2))]
    have dropped (k : Set Artifact) : (k \ {staged.artifact}) \ litter X L = k \ litter X L :=
      sdiff_singleton_sdiff (own (staged_swept hop.1))
    cases b with
    | ok path => rw [show s'.names \ _ = _ from hon, moved]
    | error e =>
      rcases hon.1 with hsame | hnew
      · rw [hsame, dropped]
      · rw [hnew, moved]
  | cleanupEpoch site epoch =>
    have hop : epoch.get = L + 1 := hop
    have hlt : L < epoch.get := by omega
    rw [hon hlt, hop, Set.sdiff_sdiff, Set.union_eq_self_of_subset_left fun _ => own]
  | backup _ _ | restore _ | removeBackup _ | cleanupArtifacts _ | reconcileOrphan | boot _ =>
    exact hop.elim
  | _ => exact congrArg (· \ litter X L) hon

theorem Shelf.Loose.scattered (hs : s.Loose X L n) : s.Scattered X L n :=
  ⟨hs.still.le_last, hs.names⟩

theorem Shelf.Loose.step (hs : s.Loose X L n) (hop : op.about (L + 1)) (hstart : ¬op.starts (L + 1))
    (h : (shelfReading X L names firm).step op s b s') : s'.Loose X L n :=
  ⟨hs.still.step (Op.about_constructs hop) hstart h.1, (hs.scattered.step hop h).names⟩

theorem Op.mild_about (hop : op.mild L) : op.about (L + 1) := by
  cases op with
  | stage _ _ | dropStaged _ | commitNew _ _ | commitReplace _ _ | backup _ _ | restore _
  | removeBackup _ | cleanupEpoch _ _ | cleanupArtifacts _ | reconcileOrphan | boot _ =>
    exact hop.elim
  | _ => trivial

/-- Where the candidate is at rest, what it may have left is taken out of `n`. -/
theorem Shelf.Rests.loose (hs : s.Rests X L n) (hn : n \ swept (L + 1) = m) : s.Loose X L m := by
  refine ⟨hs.still, ?_⟩
  rw [litter, ← Set.sdiff_sdiff, hs.names, hn]

/-- A property of the names that mild operations keep. -/
def Lasting (X names : Set Artifact) (L : Nat) (firm : Prop) (I : Shelf Doc → Prop) : Prop :=
  ∀ {β : Type} (op : Op Doc β) (b : β) (s s' : Shelf Doc), op.mild L →
    (shelfReading X L names firm).step op s b s' → I s → I s'

theorem rests_lasting : Lasting X names L firm (Shelf.Rests X L n : Shelf Doc → Prop) :=
  fun _ _ _ _ hop h hs => hs.step hop h

theorem loose_lasting : Lasting X names L firm (Shelf.Loose X L n : Shelf Doc → Prop) :=
  fun _ _ _ _ hop h hs => hs.step (Op.mild_about hop) (Op.mild_starts hop) h

end Steps

/-! ## Functions -/

/-- The program leaves the names to others, and the candidate alone. -/
abbrev Mild (L : Nat) (p : Control Doc α) : Prop := p.Only fun op => op.mild L

/-- The program makes no epoch up to `L` current. -/
abbrev Past (L : Nat) (p : Control Doc α) : Prop := p.Only fun op => op.past L

section Functions

variable {s : Shelf Doc} {I : Shelf Doc → Prop}

theorem Mild.keeps {p : Control Doc α} (hp : Mild L p) (hI : Lasting X names L firm I) (hs : I s) :
    p.wp (shelfReading X L names firm) (fun _ s' => I s') s :=
  Prog.Only.keeps (R := shelfReading X L names firm) (I := I) hp (fun _ _ _ _ => trivial)
    (fun op s s' b hop h hs => hI op b s s' hop h hs) hs

theorem Past.gone {p : Control Doc α} (hp : Past L p) (hs : s.books.Gone L) :
    p.wp (shelfReading X L names firm) (fun _ s' => s'.books.Gone L) s :=
  Prog.Only.keeps (R := shelfReading X L names firm) (I := fun s : Shelf Doc => s.books.Gone L) hp
    (fun _ _ _ _ => trivial) (fun _ _ _ _ hop h hs => hs.step hop h.1) hs

theorem Op.steady_past {op : Op Doc β} (hop : op.steady = true) : op.past L := by
  cases op with
  | install _ _ _ | adopt _ | reconcileOrphan | boot _ => cases hop
  | _ => trivial

theorem Steady.past {p : Control Doc α} (hp : Steady p) : Past L p :=
  hp.mono fun _ hop => Op.steady_past hop

/-- A publication succeeds, and keeps what mild operations keep. -/
theorem publishInstance_lasting (hI : Lasting X names L firm I) (hs : I s) (inst : Instance)
    (state : CoreState) (plan : EpochPlan Doc) :
    (publishInstance inst state plan).wp (shelfReading X L names firm)
      (fun r s' => r = .ok () ∧ I s') s := by
  refine Prog.wp_perform_bind trivial ?_
  intro snapshot s₁ h₁
  have hs₁ := hI _ _ _ _ (by trivial) h₁ hs
  have announced : (announceConfig state snapshot.instanceId plan).wp (shelfReading X L names firm)
      (fun r s' => r = .ok () ∧ I s') s₁ := by
    unfold announceConfig
    split
    · exact (Prog.wp_perform _).2 ⟨trivial, fun _ _ h => ⟨rfl, hI _ _ _ _ (by trivial) h hs₁⟩⟩
    · exact ⟨rfl, hs₁⟩
  refine Prog.wp_seq announced (fun _ _ h => by cases h.1) ?_
  intro _ s₂ hs₂
  refine (Prog.wp_perform _).2 ⟨trivial, ?_⟩
  intro _ s₃ h₃
  exact ⟨rfl, hI _ _ _ _ (by trivial) h₃ hs₂.2⟩

theorem republishRetained_lasting (hI : Lasting X names L firm I) (hs : I s) :
    (republishRetained : Control Doc Unit).wp (shelfReading X L names firm)
      (fun r s' => r = .ok () ∧ I s') s := by
  refine Prog.wp_perform_bind trivial ?_
  intro current s₁ h₁
  have hs₁ := hI _ _ _ _ (by trivial) h₁ hs
  cases current with
  | none => exact ⟨rfl, hs₁⟩
  | some active =>
    refine Prog.wp_perform_bind trivial ?_
    intro status s₂ h₂
    exact publishInstance_lasting hI (hI _ _ _ _ (by trivial) h₂ hs₁) _ _ _

theorem installAndPublish_lasting (hI : Lasting X names L firm I) (hs : I s) (inst : Instance)
    (plan : EpochPlan Doc) (rollback : Bool) :
    (installAndPublish inst plan rollback).wp (shelfReading X L names firm)
      (fun r s' => r = .ok () ∧ I s') s := by
  refine Prog.wp_perform_bind trivial ?_
  intro pid s₁ h₁
  have hs₁ := hI _ _ _ _ (by trivial) h₁ hs
  refine Prog.wp_perform_bind trivial ?_
  intro _ s₂ h₂
  exact publishInstance_lasting hI (hI _ _ _ _ (by trivial) h₂ hs₁) _ _ _

/-- What all the operations of a replacement are. -/
theorem spawnReplacement_only {P : ∀ {β : Type}, Op Doc β → Prop} {plan : EpochPlan Doc}
    (deactivate : P (.dnsDeactivate plan)) (activate : P (.dnsActivate plan))
    (launch : P (.launch .replacement plan)) (ready : ∀ inst, P (.waitReady inst))
    (stop : ∀ inst, P (.stop .replacement inst)) :
    (spawnReplacement plan : Control Doc Instance).Only P := by
  refine (Prog.Only.demand deactivate).bind fun _ => (Prog.Only.demand activate).bind fun _ => ?_
  refine (Prog.Only.demand launch).bind fun inst => (Prog.Only.perform (ready inst)).bind fun r => ?_
  cases r with
  | ok _ => exact .ret _
  | error e =>
    refine (Prog.Only.perform (stop inst)).bind fun r => ?_
    cases r with
    | ok _ => exact .ret _
    | error e => exact .ret _

theorem spawnReplacement_mild {plan : EpochPlan Doc} (h : plan.revision.epoch.get ≠ L + 1) :
    Mild L (spawnReplacement plan) :=
  spawnReplacement_only trivial trivial h (fun _ => trivial) fun _ => trivial

theorem spawnReplacement_past (plan : EpochPlan Doc) : Past L (spawnReplacement plan) :=
  spawnReplacement_only trivial trivial trivial (fun _ => trivial) fun _ => trivial

/-! ### The candidate -/

/-- The cleanup of a candidate takes what it may have left. -/
theorem cleanupQuietly_rests {epoch : Epoch} (he : epoch.get = L + 1) (hs : s.Loose X L n) :
    (cleanupQuietly epoch : Control Doc Unit).wp (shelfReading X L names firm)
      (fun r s' => r = .ok () ∧ s'.Rests X L n) s := by
  refine Prog.wp_perform_bind trivial ?_
  intro r s₁ h₁
  refine ⟨rfl, hs.still.step rfl id h₁.1, ?_⟩
  have hon := h₁.2.1
  rw [Op.written_still hs.still id] at hon
  have hlt : L < epoch.get := by omega
  rw [hon hlt, he, Set.sdiff_sdiff]
  exact hs.names

theorem abandonCandidate_rests {epoch : Epoch} {error : Error} (he : epoch.get = L + 1)
    (hs : s.Loose X L n) :
    (abandonCandidate epoch error : Control Doc α).wp (shelfReading X L names firm)
      (fun _ s' => s'.Rests X L n) s := by
  refine Prog.wp_seq (cleanupQuietly_rests he hs) (fun _ _ h => h.2) ?_
  intro _ s₁ h₁
  exact Prog.wp_seq (republishRetained_lasting rests_lasting h₁.2) (fun _ _ h => h.2) fun _ _ h => h.2

theorem latchQuarantine_latched (epoch : Epoch) (error : Error) :
    (latchQuarantine epoch error : Control Doc α).wp (shelfReading X L names firm)
      (fun _ s' => s'.books.quarantine ≠ []) s := by
  refine Prog.wp_perform_bind trivial ?_
  intro _ s₁ h₁
  have hlatched : s₁.books.quarantine ≠ [] := by
    rw [show s₁.books = _ from h₁.1]
    exact recordQuarantine_ne_nil _ _ _
  refine Prog.wp_perform_bind trivial ?_
  intro list s₂ h₂
  have hkept : s₂.books.quarantine ≠ [] := by
    rw [h₂.1.2]
    exact hlatched
  split
  · refine Prog.wp_perform_bind trivial ?_
    intro _ s₃ h₃
    show s₃.books.quarantine ≠ []
    rw [show s₃.books = s₂.books from h₃.1]
    exact hkept
  · exact Prog.wp_perform_bind trivial fun b _ _ => nomatch b

/-- The stop of a candidate, once confirmed, ends what it writes. -/
theorem Shelf.Scattered.stopped {site : Site} {inst : Instance} {s' : Shelf Doc}
    (hs : s.Scattered X L n) (hi : inst.epoch.get = L + 1)
    (h : (shelfReading X L names firm).step (.stop site inst) s (.ok ()) s') : s'.Loose X L n := by
  refine ⟨⟨Books.le_last_step hs.le_last rfl h.1, ?_⟩, (hs.step (by trivial) h).names⟩
  intro _ hlives
  rw [show s'.books = _ from h.1] at hlives
  exact hlives.1 hi

/-- A launch that fails disturbs nothing. -/
theorem Shelf.Loose.refused {site : Site} {plan : EpochPlan Doc} {e : Error} {s' : Shelf Doc}
    (hs : s.Loose X L n)
    (h : (shelfReading X L names firm).step (.launch site plan) s (.error e) s') :
    s'.Loose X L n := by
  refine ⟨⟨Books.le_last_step hs.still.le_last rfl h.1, ?_⟩, (hs.scattered.step (by trivial) h).names⟩
  rw [show s'.books = _ from h.1]
  exact hs.still.ended

/-! ### Preparing -/

theorem dropStagedFile_rests {staged : Staged} (hs : s.Rests X L n) :
    (dropStagedFile staged : Control Doc Unit).wp (shelfReading X L names firm)
      (fun r s' => r = .ok () ∧ s'.books = s.books ∧ s'.Rests X L (n \ {staged.artifact})) s := by
  refine Prog.wp_perform_bind trivial ?_
  intro r s₁ h₁
  exact ⟨rfl, h₁.1, hs.still.step rfl id h₁.1, hs.on id h₁⟩

theorem removeBackupQuietly_rests {saved : Backup} (hs : s.Rests X L n) :
    (removeBackupQuietly saved : Control Doc Unit).wp (shelfReading X L names firm)
      (fun r s' => r = .ok () ∧ s'.books = s.books ∧ s'.Rests X L (n \ {saved.artifact})) s := by
  refine Prog.wp_perform_bind trivial ?_
  intro r s₁ h₁
  exact ⟨rfl, h₁.1, hs.still.step rfl id h₁.1, hs.on id h₁⟩

/-- A staged file that the core rejects is dropped. -/
theorem checkStaged_rests {spec : InstanceSpec} {staged : Staged} (hnew : staged.artifact ∉ n)
    (hs : s.Rests X L (insert staged.artifact n)) :
    (checkStaged setup spec staged).wp (shelfReading X L names firm)
      (fun r s' => s'.books = s.books ∧ (r = .ok () → s'.Rests X L (insert staged.artifact n)) ∧
        ∀ e, r = .error e → s'.Rests X L n) s := by
  refine Prog.wp_perform_bind trivial ?_
  intro r s₁ h₁
  have hs₁ := hs.step (by trivial) h₁
  cases r with
  | ok _ => exact ⟨h₁.1, fun _ => hs₁, nofun⟩
  | error e =>
    refine Prog.wp_seq (dropStagedFile_rests hs₁) (fun _ _ h => by cases h.1) ?_
    intro _ s₂ h₂
    obtain ⟨-, hbooks, hs₂⟩ := h₂
    rw [Set.insert_sdiff_self_of_notMem hnew] at hs₂
    exact ⟨hbooks.trans h₁.1, nofun, fun _ _ => hs₂⟩

/-- What a preparation of the candidate leaves. -/
def PreparedNames (X m : Set Artifact) (L : Nat) (firm : Prop) (s : Shelf Doc)
    (r : Except Error (EpochPlan Doc)) (s' : Shelf Doc) : Prop :=
  s'.books = s.books ∧ s'.Loose X L m ∧ ∀ e, r = .error e → firm → s'.Rests X L m

theorem Shelf.Rests.prepared {r : Except Error (EpochPlan Doc)} {s' : Shelf Doc}
    (hm : m \ swept (L + 1) = m) (hbooks : s'.books = s.books) (hs : s'.Rests X L m) :
    PreparedNames X m L firm s r s' :=
  ⟨hbooks, hs.loose hm, fun _ _ _ => hs⟩

theorem prepareLaunchWithFeatures_rests {spec : InstanceSpec} {epoch : Epoch}
    {snapshot : Snapshot Doc} {resolved : ResolvedFeatures} (hm : m \ swept (L + 1) = m)
    (he : epoch.get = L + 1) (hs : s.Rests X L m) :
    (prepareLaunchWithFeatures setup spec epoch snapshot resolved).wp (shelfReading X L names firm)
      (PreparedNames X m L firm s) s := by
  have own {a : Artifact} (ha : a ∈ swept (L + 1)) : a ∉ m := by
    rw [← hm]
    exact fun h => h.2 ha
  unfold prepareLaunchWithFeatures
  rw [Prog.wp_bind, Prog.wp_ret]
  cases setup.prepareFull snapshot epoch resolved.runtime (localIpcSettings setup spec) with
  | error e => exact hs.prepared hm rfl
  | ok full =>
    rw [Prog.andThen_ok, Prog.wp_bind, Prog.wp_ret]
    cases nativePaths setup spec full with
    | error e => exact hs.prepared hm rfl
    | ok prepared =>
      refine Prog.wp_demand_bind trivial ?_ ?_
      · intro e s₁ h₁
        have hstill := hs.still.step rfl id h₁.1
        obtain ⟨hnames, hfirm⟩ := hs.on id h₁
        refine ⟨h₁.1, ?_, fun _ _ hf => ⟨hstill, hfirm hf⟩⟩
        rcases hnames with hsame | ⟨suffix, hnew⟩
        · exact Shelf.Rests.loose ⟨hstill, hsame⟩ hm
        · refine Shelf.Rests.loose ⟨hstill, hnew⟩ ?_
          have hmem : Artifact.staging epoch.get suffix ∈ swept (L + 1) := decide_eq_true he
          rw [Set.insert_sdiff_of_mem _ hmem, hm]
      intro staged s₁ h₁
      obtain ⟨hepoch, hnew, hnames⟩ := hs.on id h₁
      have hstaged : staged.artifact ∈ swept (L + 1) := staged_swept (hepoch ▸ he)
      have hs₁ : s₁.Rests X L (insert staged.artifact m) := ⟨hs.still.step rfl id h₁.1, hnames⟩
      refine Prog.wp_seq (checkStaged_rests hnew hs₁) ?_ ?_
      · intro e s₂ h₂
        exact (h₂.2.2 e rfl).prepared hm (h₂.1.trans h₁.1)
      intro _ s₂ h₂
      have hs₂ := h₂.2.1 rfl
      have hbooks := h₂.1.trans h₁.1
      have dropped : insert staged.artifact m \ {staged.artifact} = m :=
        Set.insert_sdiff_self_of_notMem hnew
      have moved : (insert (Artifact.config epoch.get) (insert staged.artifact m) \
          {staged.artifact}) \ swept (L + 1) = m := by
        rw [sdiff_singleton_sdiff hstaged, Set.insert_sdiff_of_mem _ (config_swept he),
          Set.insert_sdiff_of_mem _ hstaged, hm]
      refine Prog.wp_demand_bind trivial ?_ ?_
      · intro e s₃ h₃
        have hstill := hs₂.still.step rfl id h₃.1
        obtain ⟨hnames, hfirm⟩ := hs₂.on id h₃
        rw [dropped] at hnames hfirm
        refine ⟨h₃.1.trans hbooks, ?_, fun _ _ hf => ⟨hstill, hfirm hf⟩⟩
        rcases hnames with hsame | hnew
        · exact Shelf.Rests.loose ⟨hstill, hsame⟩ hm
        · exact Shelf.Rests.loose ⟨hstill, hnew⟩ moved
      intro path s₃ h₃
      refine ⟨h₃.1.trans hbooks, ?_, nofun⟩
      exact Shelf.Rests.loose ⟨hs₂.still.step rfl id h₃.1, hs₂.on id h₃⟩ moved

/-- What is prepared is the epoch's. -/
theorem prepareLaunchWithFeatures_epoch {spec : InstanceSpec} {epoch : Epoch}
    {snapshot : Snapshot Doc} {resolved : ResolvedFeatures} :
    (prepareLaunchWithFeatures setup spec epoch snapshot resolved).wp (shelfReading X L names firm)
      (fun r _ => ∀ plan, r = .ok plan → plan.revision.epoch = epoch) s := by
  have any {γ : Type} (p : Control Doc γ) (s : Shelf Doc) :
      p.wp (shelfReading X L names firm) (fun _ _ => True) s := Prog.wp_true fun _ _ => trivial
  refine Prog.wp_seq (any _ _) (fun _ _ _ _ h => by cases h) ?_
  intro full s₁ _
  refine Prog.wp_seq (any _ _) (fun _ _ _ _ h => by cases h) ?_
  intro prepared s₂ _
  refine Prog.wp_seq (any _ _) (fun _ _ _ _ h => by cases h) ?_
  intro staged s₃ _
  refine Prog.wp_seq (any _ _) (fun _ _ _ _ h => by cases h) ?_
  intro _ s₄ _
  refine Prog.wp_seq (any _ _) (fun _ _ _ _ h => by cases h) ?_
  intro path s₅ _ plan hplan
  cases hplan
  rfl

theorem prepareLaunch_epoch {spec : InstanceSpec} {epoch : Epoch} {snapshot : Snapshot Doc} :
    (prepareLaunch setup spec epoch snapshot).wp (shelfReading X L names firm)
      (fun r _ => ∀ plan, r = .ok plan → plan.revision.epoch = epoch) s := by
  refine Prog.wp_demand_bind trivial (fun _ _ _ _ h => by cases h) ?_
  intro _ s₁ _
  refine Prog.wp_demand_bind trivial (fun _ _ _ _ h => by cases h) ?_
  intro resolved s₂ _
  exact prepareLaunchWithFeatures_epoch

theorem prepareLaunch_rests {spec : InstanceSpec} {epoch : Epoch} {snapshot : Snapshot Doc}
    (hm : m \ swept (L + 1) = m) (he : epoch.get = L + 1) (hs : s.Rests X L m) :
    (prepareLaunch setup spec epoch snapshot).wp (shelfReading X L names firm)
      (PreparedNames X m L firm s) s := by
  refine Prog.wp_demand_bind trivial ?_ ?_
  · intro e s₁ h₁
    exact (hs.step (by trivial) h₁).prepared hm h₁.1
  intro _ s₁ h₁
  have hs₁ := hs.step (by trivial) h₁
  refine Prog.wp_demand_bind trivial ?_ ?_
  · intro e s₂ h₂
    exact (hs₁.step (by trivial) h₂).prepared hm (h₂.1.trans h₁.1)
  intro resolved s₂ h₂
  refine Prog.wp_mono (prepareLaunchWithFeatures_rests hm he (hs₁.step (by trivial) h₂)) ?_
  intro r s₃ h₃
  exact ⟨h₃.1.trans (h₂.1.trans h₁.1), h₃.2⟩

/-! ### Retiring -/

/-- What retiring leaves: no current epoch, and the plan that was. -/
structure RetiredFrom (L : Nat) (I : Shelf Doc → Prop) (s : Shelf Doc)
    (r : Except Error (Except RetireFailure (Option (EpochPlan Doc)))) (s' : Shelf Doc) :
    Prop where
  answered : ∀ e, r ≠ .error e
  gone : s'.books.Gone L
  kept : I s'
  old : ∀ plan, r = .ok (.ok (some plan)) →
    ∃ active, s.books.current = some active ∧ active.plan = plan

theorem retireCurrent_shelf {site : Site} (hI : Lasting X names L firm I) (hs : I s)
    (hL : L ≤ s.books.last) :
    (retireCurrent site).wp (shelfReading X L names firm) (RetiredFrom L I s) s := by
  refine Prog.wp_perform_bind trivial ?_
  intro current s₁ h₁
  have hs₁ := hI _ _ _ _ (by trivial) h₁ hs
  obtain ⟨⟨hcurrent, hbooks⟩, -⟩ := h₁
  have hg₁ : s₁.books.Gone L := by
    rw [hbooks]
    refine ⟨hL, ?_⟩
    intro active hactive
    cases hactive
  cases current with
  | none => exact ⟨nofun, hg₁, hs₁, fun _ h => by cases h⟩
  | some active =>
    refine Prog.wp_perform_bind trivial ?_
    intro _ s₂ h₂
    have hs₂ := hI _ _ _ _ (by trivial) h₂ hs₁
    have hg₂ := hg₁.step (by trivial) h₂.1
    refine Prog.wp_perform_bind trivial ?_
    intro r s₃ h₃
    have hs₃ := hI _ _ _ _ (by trivial) h₃ hs₂
    have hg₃ := hg₂.step (by trivial) h₃.1
    cases r with
    | ok _ =>
      refine ⟨nofun, hg₃, hs₃, ?_⟩
      intro plan hplan
      cases hplan
      exact ⟨active, hcurrent.symm, rfl⟩
    | error e => exact ⟨nofun, hg₃, hs₃, fun _ h => by cases h⟩

theorem retireOld_shelf {message : String} {next : EpochPlan Doc → Control Doc α}
    {onFailure : RetireFailure → Control Doc α} {T : Except Error α → Shelf Doc → Prop}
    (hI : Lasting X names L firm I) (hs : I s) (hL : L ≤ s.books.last)
    (retired : ∀ active s', s.books.current = some active → s'.books.Gone L → I s' →
      (next active.plan).wp (shelfReading X L names firm) T s')
    (failed : ∀ failure s', s'.books.Gone L → I s' →
      (onFailure failure).wp (shelfReading X L names firm) T s') :
    (retireOld message next onFailure).wp (shelfReading X L names firm) T s := by
  refine Prog.wp_seq (retireCurrent_shelf hI hs hL) (fun e _ h => absurd rfl (h.answered e)) ?_
  intro r s₁ h₁
  obtain ⟨-, hgone, hkept, hold⟩ := h₁
  cases r with
  | error failure => exact failed failure s₁ hgone hkept
  | ok plan =>
    cases plan with
    | none => exact Prog.wp_perform_bind trivial fun b _ _ => nomatch b
    | some plan =>
      obtain ⟨active, hactive, rfl⟩ := hold plan rfl
      exact retired active s₁ hactive hgone hkept

/-- Where no old plan comes back, nothing is asked of the names any more. -/
theorem retireOld_gone {message : String} {next : EpochPlan Doc → Control Doc α}
    {onFailure : RetireFailure → Control Doc α} (hL : L ≤ s.books.last)
    (hnext : ∀ plan, Past L (next plan)) (hfail : ∀ failure, Past L (onFailure failure)) :
    (retireOld message next onFailure).wp (shelfReading X L names firm)
      (fun _ s' => s'.books.Gone L) s :=
  retireOld_shelf (I := fun _ => True) (fun _ _ _ _ _ _ _ => trivial) trivial hL
    (fun active _ _ hg _ => (hnext active.plan).gone hg) fun failure _ hg _ => (hfail failure).gone hg

theorem discardStale_gone (hL : L ≤ s.books.last) :
    (discardStale : Control Doc Unit).wp (shelfReading X L names firm)
      (fun _ s' => s'.books.Gone L) s := by
  refine Prog.wp_seq (retireCurrent_shelf (I := fun _ => True) (fun _ _ _ _ _ _ _ => trivial)
    trivial hL) (fun _ _ h => h.gone) ?_
  intro r s₁ h₁
  refine Past.gone ?_ h₁.gone
  cases r with
  | ok plan =>
    cases plan with
    | none => exact .ret _
    | some plan => exact .demand (by trivial)
  | error failure =>
    simp only
    split
    · exact (latchQuarantine_steady _ _).past
    · exact .ret _

theorem startPrepared_past {plan : EpochPlan Doc} (hlt : L < plan.revision.epoch.get) :
    Past L (startPrepared plan) := by
  have reject (error : Error) : Past L (rejectLaunch plan.revision.epoch error : Control Doc Unit) :=
    (rejectLaunch_steady _ _).past
  have restore (error : Error) : Past L (do
      restoreDnsQuietly
      rejectLaunch plan.revision.epoch error : Control Doc Unit) :=
    ((Prog.Only.perform (by trivial)).bind fun _ => .ret _).bind fun _ => reject error
  refine (Prog.Only.perform (by trivial)).bind fun r => ?_
  cases r with
  | error e => exact restore e
  | ok _ =>
  refine (Prog.Only.perform (by trivial)).bind fun r => ?_
  cases r with
  | error e => exact reject e
  | ok _ =>
  refine (Prog.Only.perform (by trivial)).bind fun _ => ?_
  refine (Prog.Only.perform (by trivial)).bind fun r => ?_
  cases r with
  | error e => exact restore e
  | ok inst =>
  refine (Prog.Only.perform (by trivial)).bind fun r => ?_
  cases r with
  | error e =>
    refine (Prog.Only.perform (by trivial)).bind fun r => ?_
    cases r with
    | ok _ => exact restore e
    | error e => exact (latchQuarantine_steady _ _).past
  | ok _ =>
  refine (Prog.Only.perform (by trivial)).bind fun pid => ?_
  exact (publishRunning_steady _ _ _).past.bind fun _ => .perform (by exact hlt)

theorem startLocked_gone {spec : InstanceSpec} (hg : s.books.Gone L) :
    (startLocked setup spec).wp (shelfReading X L names firm) (fun _ s' => s'.books.Gone L) s := by
  refine Prog.wp_perform_bind trivial ?_
  intro epoch s₁ h₁
  have hg₁ := hg.step (by trivial) h₁.1
  have hlt : L < epoch.get := by
    have hepoch : epoch.get = s.books.last + 1 := h₁.1.1
    have hle := hg.le_last
    omega
  refine Prog.wp_perform_bind trivial ?_
  intro r s₂ h₂
  have hg₂ := hg₁.step (by trivial) h₂.1
  cases r with
  | error e => exact (publishAndFail_steady e).past.gone hg₂
  | ok snapshot =>
  refine Prog.wp_attempt_seq
    (Prog.wp_and ((prepareLaunch_steady spec epoch snapshot).past.gone hg₂) prepareLaunch_epoch) ?_
  intro r s₃ h₃
  cases r with
  | error e => exact (rejectLaunch_steady _ _).past.gone h₃.1
  | ok plan =>
    refine (startPrepared_past ?_).gone h₃.1
    rw [h₃.2 plan rfl]
    exact hlt

/-! ## Switching -/

/-- The old epoch is gone, an epoch is quarantined, or the names are `n`. -/
def Shelf.Tidy (X : Set Artifact) (L : Nat) (n : Set Artifact) (s : Shelf Doc) : Prop :=
  s.books.Gone L ∨ s.books.quarantine ≠ [] ∨ s.Rests X L n

/-- The postcondition of a change. -/
abbrev EndsTidy (X m : Set Artifact) (L : Nat) (_ : Except Error α) (s : Shelf Doc) : Prop :=
  s.Tidy X L m

theorem Shelf.Rests.tidy (hs : s.Rests X L n) : s.Tidy X L n := .inr (.inr hs)

theorem Past.tidy {p : Control Doc α} (hp : Past L p) (hs : s.books.Gone L) :
    p.wp (shelfReading X L names firm) (EndsTidy X m L) s :=
  Prog.wp_mono (hp.gone hs) fun _ _ h => .inl h

theorem abandonCandidate_tidy {epoch : Epoch} {error : Error} (he : epoch.get = L + 1)
    (hs : s.Loose X L m) :
    (abandonCandidate epoch error : Control Doc α).wp (shelfReading X L names firm)
      (EndsTidy X m L) s :=
  Prog.wp_mono (abandonCandidate_rests he hs) fun _ _ h => h.tidy

/-- No name is the candidate's before it is allocated. -/
def Fresh (m : Set Artifact) (L : Nat) : Prop :=
  ∀ epoch : Epoch, epoch.get = L + 1 → m \ swept (L + 1) = m

/-- What the allocation of the candidate leaves. -/
theorem Shelf.Rests.allocated {epoch : Epoch} {s' : Shelf Doc} (hs : s.Rests X L m)
    (hL : s.books.last = L) (h : (shelfReading X L names firm).step .nextEpoch s epoch s') :
    epoch.get = L + 1 ∧ s'.Rests X L m := by
  refine ⟨?_, hs.step (by trivial) h⟩
  rw [← hL]
  exact h.1.1

theorem hardSwitch_tidy {spec : InstanceSpec} {snapshot : Snapshot Doc}
    {resolved : ResolvedFeatures} (hfresh : Fresh m L) (hL : s.books.last = L)
    (hs : s.Rests X L m) :
    (hardSwitch setup spec snapshot resolved).wp (shelfReading X L names firm)
      (EndsTidy X m L) s := by
  refine Prog.wp_perform_bind trivial ?_
  intro epoch s₁ h₁
  obtain ⟨he, hs₁⟩ := hs.allocated hL h₁
  have hm := hfresh epoch he
  refine Prog.wp_attempt_seq
    (Prog.wp_and (prepareLaunchWithFeatures_rests hm he hs₁) prepareLaunchWithFeatures_epoch) ?_
  intro r s₂ h₂
  obtain ⟨⟨-, hs₂, -⟩, hepoch⟩ := h₂
  cases r with
  | error e => exact abandonCandidate_tidy he hs₂
  | ok plan =>
  refine Prog.wp_perform_bind trivial ?_
  intro r s₃ h₃
  have hs₃ := loose_lasting _ _ _ _ (by trivial) h₃ hs₂
  cases r with
  | error e => exact abandonCandidate_tidy he hs₃
  | ok _ =>
  refine Prog.wp_perform_bind trivial ?_
  intro old s₄ h₄
  have hs₄ := loose_lasting _ _ _ _ (by trivial) h₄ hs₃
  refine Prog.wp_perform_bind trivial ?_
  intro _ s₅ h₅
  have hs₅ := loose_lasting _ _ _ _ (by trivial) h₅ hs₄
  refine Prog.wp_mono (retireOld_gone hs₅.still.le_last ?_ ?_) fun _ _ h => .inl h
  · intro retired
    refine (Prog.Only.perform (by trivial)).bind fun r => ?_
    cases r with
    | error e => exact (publishAndFail_steady e).past
    | ok _ =>
      refine startPrepared_past ?_
      rw [hepoch plan rfl, he]
      exact Nat.lt_succ_self L
  · intro failure
    exact (cleanupQuietly_steady epoch).past.bind fun _ => (stopFailed_steady _ _).past

/-! ### The graceful switch -/

/-- The program keeps to the names of epoch `L + 1`, and starts no runtime. -/
abbrev Tame (L : Nat) (p : Control Doc α) : Prop :=
  p.Only fun op => op.about (L + 1) ∧ ¬op.starts (L + 1)

theorem Tame.loose {p : Control Doc α} (hp : Tame L p) (hs : s.Loose X L n) :
    p.wp (shelfReading X L names firm) (fun _ s' => s'.Loose X L n) s :=
  Prog.Only.keeps (R := shelfReading X L names firm) (I := Shelf.Loose X L n) hp
    (fun _ _ _ _ => trivial) (fun _ _ _ _ hop h hs => hs.step hop.1 hop.2 h) hs

theorem dropStagedFile_tame {staged : Staged} (h : staged.epoch.get = L + 1) :
    Tame L (dropStagedFile staged : Control Doc Unit) :=
  (Prog.Only.perform (by exact ⟨h, id⟩)).bind fun _ => .ret _

/-- A drop and what follows it, by what the drop leaves. -/
theorem dropStagedFile_then {staged : Staged} {f : Unit → Control Doc α}
    {T : Except Error α → Shelf Doc → Prop}
    (next : ∀ r s', (shelfReading X L names firm).step (.dropStaged staged) s r s' →
      (f ()).wp (shelfReading X L names firm) T s') :
    (dropStagedFile staged >>= f).wp (shelfReading X L names firm) T s :=
  (Prog.wp_bind ..).2 (Prog.wp_perform_bind trivial next)

theorem checkStaged_tame {spec : InstanceSpec} {staged : Staged} (h : staged.epoch.get = L + 1) :
    Tame L (checkStaged setup spec staged) := by
  refine (Prog.Only.perform (by exact ⟨trivial, id⟩)).bind fun r => ?_
  cases r with
  | ok _ => exact .ret _
  | error e => exact (dropStagedFile_tame h).bind fun _ => .ret _

theorem orDrop_loose {staged : Staged} {p : Control Doc α} (h : staged.epoch.get = L + 1)
    (hp : p.wp (shelfReading X L names firm) (fun _ s' => s'.Loose X L n) s) :
    (orDrop staged p).wp (shelfReading X L names firm) (fun _ s' => s'.Loose X L n) s := by
  refine Prog.wp_attempt_seq hp ?_
  intro r s₁ hs₁
  cases r with
  | ok _ => exact hs₁
  | error e => exact Tame.loose ((dropStagedFile_tame h).bind fun _ => .ret _) hs₁

/-- What the preparation of a graceful switch leaves. -/
structure GracefulNames (X m : Set Artifact) (L : Nat) (epoch : Epoch)
    (r : Except Error (PreparedGraceful Doc)) (s' : Shelf Doc) : Prop where
  loose : s'.Loose X L m
  epochs : ∀ p, r = .ok p → p.plan.revision.epoch = epoch ∧ p.fullStaged.epoch = epoch

theorem Shelf.Loose.unprepared {epoch : Epoch} {e : Error} {s' : Shelf Doc}
    (hs : s'.Loose X L m) : GracefulNames X m L epoch (.error e) s' :=
  ⟨hs, fun _ h => by cases h⟩

/-- The files of a graceful switch are the candidate's, whether all could be
prepared or not. -/
theorem prepareGraceful_names {spec : InstanceSpec} {epoch : Epoch} {snapshot : Snapshot Doc}
    {resolved : ResolvedFeatures} (he : epoch.get = L + 1) (hs : s.Loose X L m) :
    (prepareGraceful setup spec epoch snapshot resolved).wp (shelfReading X L names firm)
      (GracefulNames X m L epoch) s := by
  unfold prepareGraceful
  rw [Prog.wp_bind, Prog.wp_ret]
  cases setup.prepareFull snapshot epoch resolved.runtime (localIpcSettings setup spec) with
  | error e => exact hs.unprepared
  | ok full =>
    rw [Prog.andThen_ok, Prog.wp_bind, Prog.wp_ret]
    cases setup.prepareBootstrap snapshot epoch resolved.runtime (localIpcSettings setup spec) with
    | error e => exact hs.unprepared
    | ok bootstrap =>
      rw [Prog.andThen_ok]
      split
      · exact hs.unprepared
      rw [Prog.wp_bind, Prog.wp_ret]
      cases setup.restorationPatch bootstrap.document full.document with
      | error e => exact hs.unprepared
      | ok patch =>
        refine Prog.wp_demand_bind trivial ?_ ?_
        · intro e s₁ h₁
          exact (hs.step (by exact he) id h₁).unprepared
        intro fullStaged s₁ h₁
        have hs₁ := hs.step (by exact he) id h₁
        obtain rfl : fullStaged.epoch = epoch := h₁.2.1.1
        refine Prog.wp_seq ((checkStaged_tame he).loose hs₁) (fun _ _ h => h.unprepared) ?_
        intro _ s₂ hs₂
        refine Prog.wp_seq (orDrop_loose he ?_) (fun _ _ h => h.unprepared) ?_
        · refine Prog.wp_demand_bind trivial (fun e s₃ h₃ => hs₂.step (by exact he) id h₃) ?_
          intro staged s₃ h₃
          have hs₃ := hs₂.step (by exact he) id h₃
          have hstaged : staged.epoch.get = L + 1 := by
            rw [show staged.epoch = _ from h₃.2.1.1]
            exact he
          refine Prog.wp_seq ((checkStaged_tame hstaged).loose hs₃) (fun _ _ h => h) ?_
          intro _ s₄ hs₄
          exact Tame.loose (.demand ⟨⟨hstaged, he⟩, id⟩) hs₄
        · intro path s₃ hs₃
          refine ⟨hs₃, ?_⟩
          intro p hp
          cases hp
          exact ⟨rfl, rfl⟩

/-- A bootstrap is turned down: its stop is confirmed, and its names go, or it is
quarantined. -/
theorem rejectBootstrap_tidy {inst : Instance} {epoch : Epoch} {error : Error} {text : String}
    (he : epoch.get = L + 1) (hi : inst.epoch = epoch) (hs : s.Scattered X L m) :
    (rejectBootstrap inst epoch error text : Control Doc α).wp (shelfReading X L names firm)
      (EndsTidy X m L) s := by
  refine Prog.wp_perform_bind trivial ?_
  intro r s₁ h₁
  cases r with
  | ok _ => exact abandonCandidate_tidy he (hs.stopped (hi ▸ he) h₁)
  | error e => exact Prog.wp_mono (latchQuarantine_latched _ _) fun _ _ h => .inr (.inl h)

theorem completeSwitch_past {inst : Instance} {plan : EpochPlan Doc} {old : Epoch}
    {outcome : SwitchOutcome} (hlt : L < plan.revision.epoch.get) :
    Past L (completeSwitch inst plan old outcome) := by
  refine (Prog.Only.perform (by trivial)).bind fun pid => ?_
  refine (publishRunning_steady _ _ _).past.bind fun _ => ?_
  refine (Prog.Only.perform (by exact hlt)).bind fun _ => ?_
  exact (Prog.Only.demand (by trivial)).bind fun _ => .ret _

theorem replaceBootstrap_past {inst : Instance} {plan : EpochPlan Doc} {old : Epoch}
    (hlt : L < plan.revision.epoch.get) : Past L (replaceBootstrap inst plan old) := by
  refine (Prog.Only.perform (by trivial)).bind fun r => ?_
  cases r with
  | error e => exact (stopFailed_steady _ _).past
  | ok _ =>
    refine (spawnReplacement_past plan).attempt.bind fun r => ?_
    cases r with
    | error e =>
      simp only
      split
      · exact (latchQuarantine_steady _ _).past
      · exact (rejectLaunch_steady _ _).past
    | ok replacement => exact completeSwitch_past hlt

theorem takeOver_gone {inst : Instance} {plan : EpochPlan Doc} {fullStaged : Staged}
    (hlt : L < plan.revision.epoch.get) (hL : L ≤ s.books.last) :
    (takeOver inst plan fullStaged).wp (shelfReading X L names firm)
      (fun _ s' => s'.books.Gone L) s := by
  refine retireOld_gone hL ?_ ?_
  · intro retired
    refine (Prog.Only.perform (by trivial)).bind fun r => ?_
    cases r with
    | error e => exact (commitFailed_steady _ _ _).past
    | ok warning =>
      refine (Prog.Only.perform (by trivial)).bind fun reconciled => ?_
      split
      · exact (completeSwitch_past hlt).attempt.bind fun _ => .ret _
      · exact (replaceBootstrap_past hlt).attempt.bind fun _ => .ret _
  · intro failure
    exact (dropStagedFile_steady _).past.bind fun _ => (retreatFromBoth_steady _ _ _).past

theorem gracefulSwitch_tidy {spec : InstanceSpec} {snapshot : Snapshot Doc}
    {resolved : ResolvedFeatures} (hfresh : Fresh m L) (hL : s.books.last = L)
    (hs : s.Rests X L m) :
    (gracefulSwitch setup spec snapshot resolved).wp (shelfReading X L names firm)
      (EndsTidy X m L) s := by
  refine Prog.wp_perform_bind trivial ?_
  intro old s₁ h₁
  have hs₁ := hs.step (by trivial) h₁
  have hL₁ : s₁.books.last = L := by
    rw [h₁.1.2]
    exact hL
  refine Prog.wp_perform_bind trivial ?_
  intro epoch s₂ h₂
  obtain ⟨he, hs₂⟩ := hs₁.allocated hL₁ h₂
  refine Prog.wp_attempt_seq (prepareGraceful_names he (hs₂.loose (hfresh epoch he))) ?_
  intro r s₃ h₃
  obtain ⟨hs₃, hepochs⟩ := h₃
  cases r with
  | error e => exact abandonCandidate_tidy he hs₃
  | ok p =>
  obtain ⟨plan, fullStaged⟩ := p
  obtain ⟨hplan, hstaged⟩ : plan.revision.epoch = epoch ∧ fullStaged.epoch = epoch := hepochs _ rfl
  have own : fullStaged.epoch.get = L + 1 := hstaged ▸ he
  refine Prog.wp_perform_bind trivial ?_
  intro r s₄ h₄
  have hs₄ := loose_lasting _ _ _ _ (by trivial) h₄ hs₃
  cases r with
  | error e =>
    refine Prog.wp_perform_bind trivial ?_
    intro _ s₅ h₅
    have hs₅ := loose_lasting _ _ _ _ (by trivial) h₅ hs₄
    refine dropStagedFile_then fun _ s₆ h₆ => ?_
    exact abandonCandidate_tidy he (hs₅.step (by exact own) id h₆)
  | ok _ =>
  refine Prog.wp_perform_bind trivial ?_
  intro _ s₅ h₅
  have hs₅ := loose_lasting _ _ _ _ (by trivial) h₅ hs₄
  refine Prog.wp_perform_bind trivial ?_
  intro r s₆ h₆
  cases r with
  | error e =>
    refine dropStagedFile_then fun _ s₇ h₇ => ?_
    exact abandonCandidate_tidy he ((hs₅.refused h₆).step (by exact own) id h₇)
  | ok inst =>
  -- From here on the bootstrap lives, and writes its names.
  have hs₆ := hs₅.scattered.step (by trivial) h₆
  have hi : inst.epoch = epoch := h₆.1.1.trans hplan
  refine Prog.wp_perform_bind trivial ?_
  intro r s₇ h₇
  have hs₇ := hs₆.step (by trivial) h₇
  cases r with
  | error e =>
    refine dropStagedFile_then fun _ s₈ h₈ => ?_
    exact rejectBootstrap_tidy he hi (hs₇.step (by exact own) h₈)
  | ok _ =>
  refine Prog.wp_perform_bind trivial ?_
  intro r s₈ h₈
  have hs₈ := hs₇.step (by trivial) h₈
  cases r with
  | error e =>
    refine dropStagedFile_then fun _ s₉ h₉ => ?_
    exact rejectBootstrap_tidy he hi (hs₈.step (by exact own) h₉)
  | ok _ =>
  refine Prog.wp_mono (takeOver_gone ?_ hs₈.le_last) fun _ _ h => .inl h
  rw [hplan, he]
  exact Nat.lt_succ_self L

/-- Whether an instance is alive is asked of the world alone. -/
theorem runtimeAlive_rests {T : Except Error Bool → Shelf Doc → Prop}
    (next : ∀ alive s', s'.books = s.books →
      (∀ n, s.Rests X L n → s'.Rests X L n) → T (.ok alive) s') :
    (runtimeAlive : Control Doc Bool).wp (shelfReading X L names firm) T s := by
  refine Prog.wp_perform_bind trivial ?_
  intro current s₁ h₁
  cases current with
  | none => exact next _ s₁ h₁.1.2 fun n hs => hs.step (by trivial) h₁
  | some active =>
    refine Prog.wp_perform_bind trivial ?_
    intro status s₂ h₂
    refine next _ s₂ (Eq.trans h₂.1 h₁.1.2) ?_
    exact fun n hs => (hs.step (by trivial) h₁).step (by trivial) h₂

theorem switchLocked_tidy {spec : InstanceSpec} (hfresh : Fresh m L)
    (hL : s.books.last = L) (hs : s.Rests X L m) :
    (switchLocked setup spec).wp (shelfReading X L names firm) (EndsTidy X m L) s := by
  refine (Prog.wp_bind ..).2 (runtimeAlive_rests ?_)
  intro alive s₁ hbooks hrests
  have hs₁ := hrests m hs
  have hL₁ : s₁.books.last = L := by
    rw [hbooks]
    exact hL
  rw [Prog.andThen_ok]
  split
  · refine Prog.wp_seq (discardStale_gone hL₁.ge) (fun _ _ h => .inl h) ?_
    intro _ s₂ h₂
    exact Prog.wp_seq (startLocked_gone h₂) (fun _ _ h => .inl h) fun _ _ h => .inl h
  refine Prog.wp_demand_bind trivial (fun e s₂ h₂ => (hs₁.step (by trivial) h₂).tidy) ?_
  intro snapshot s₂ h₂
  have hs₂ := hs₁.step (by trivial) h₂
  refine Prog.wp_demand_bind trivial (fun e s₃ h₃ => (hs₂.step (by trivial) h₃).tidy) ?_
  intro _ s₃ h₃
  have hs₃ := hs₂.step (by trivial) h₃
  refine Prog.wp_demand_bind trivial (fun e s₄ h₄ => (hs₃.step (by trivial) h₄).tidy) ?_
  intro resolved s₄ h₄
  have hs₄ := hs₃.step (by trivial) h₄
  refine Prog.wp_perform_bind trivial ?_
  intro current s₅ h₅
  have hs₅ := hs₄.step (by trivial) h₅
  have hbooks₅ : s₅.books = s₁.books := h₅.1.2.trans (Eq.trans h₄.1 (Eq.trans h₃.1 h₂.1))
  have hL₅ : s₅.books.last = L := by
    rw [hbooks₅]
    exact hL₁
  dsimp only
  split
  · exact Prog.wp_seq (hardSwitch_tidy hfresh hL₅ hs₅) (fun _ _ h => h) fun _ _ h => h
  · split
    · exact Prog.wp_seq (hardSwitch_tidy hfresh hL₅ hs₅) (fun _ _ h => h) fun _ _ h => h
    · exact gracefulSwitch_tidy hfresh hL₅ hs₅

/-! ## Applying -/

/-- The old plan comes back over its own file, or nothing is current. -/
theorem rollBack_tidy {oldPlan : EpochPlan Doc} {applyText text : String}
    {onSuccess : Control Doc Unit} (hold : oldPlan.revision.epoch.get ≠ L + 1)
    (hg : s.books.Gone L) (hs : s.Rests X L n)
    (success : ∀ s', s'.Rests X L n → onSuccess.wp (shelfReading X L names firm) (EndsTidy X m L) s') :
    (rollBack oldPlan applyText text onSuccess).wp (shelfReading X L names firm)
      (EndsTidy X m L) s := by
  refine Prog.wp_perform_bind trivial ?_
  intro _ s₁ h₁
  have hs₁ := hs.step (by trivial) h₁
  have hg₁ := hg.step (by trivial) h₁.1
  refine Prog.wp_attempt_seq (Prog.wp_and ((spawnReplacement_mild hold).keeps rests_lasting hs₁)
    ((spawnReplacement_past oldPlan).gone hg₁)) ?_
  intro r s₂ h₂
  obtain ⟨hs₂, hg₂⟩ := h₂
  cases r with
  | ok inst =>
    refine Prog.wp_seq (installAndPublish_lasting rests_lasting hs₂ inst oldPlan true)
      (fun _ _ h => by cases h.1) ?_
    intro _ s₃ h₃
    exact Prog.wp_seq (success s₃ h₃.2) (fun _ _ h => h) fun _ _ h => h
  | error e =>
    simp only
    split
    · exact (latchQuarantine_steady _ _).past.tidy hg₂
    · exact (publishAndFail_steady _).past.tidy hg₂

/-- A restart is undone: the file is restored, and its backup removed. -/
theorem rollBackRestart_tidy {oldPlan : EpochPlan Doc} {saved : Backup} {applyText : String}
    (hold : oldPlan.revision.epoch.get ≠ L + 1) (hnew : saved.artifact ∉ m) (hg : s.books.Gone L)
    (hs : s.Rests X L (insert saved.artifact m)) :
    (rollBackRestart oldPlan saved applyText).wp (shelfReading X L names firm)
      (EndsTidy X m L) s := by
  refine Prog.wp_perform_bind trivial ?_
  intro r s₁ h₁
  have hg₁ := hg.step (by trivial) h₁.1
  cases r with
  | error e => exact (publishAndFail_steady _).past.tidy hg₁
  | ok warning =>
    have hs₁ : s₁.Rests X L (insert saved.artifact m) :=
      ⟨hs.still.step rfl id h₁.1, hs.on id h₁ warning rfl⟩
    refine Prog.wp_attempt_seq (rollBack_tidy hold hg₁ hs₁ ?_) fun _ _ h => h
    intro s₂ hs₂
    refine Prog.wp_mono (removeBackupQuietly_rests hs₂) ?_
    intro r s₃ h₃
    rw [Set.insert_sdiff_self_of_notMem hnew] at h₃
    exact h₃.2.2.tidy

/-- The change needs a restart, with the file already replaced and the old one
backed up. -/
theorem restartWithCompensation_tidy {desired : EpochPlan Doc} {saved : Backup} (hf : firm)
    (hm : m = names \ others X) (hnew : saved.artifact ∉ m)
    (hdesired : desired.revision.epoch.get ≠ L + 1)
    (hcurrent : ∃ active, s.books.current = some active ∧ active.plan.revision.epoch.get ≤ L)
    (hs : s.Rests X L (insert saved.artifact m)) :
    (restartWithCompensation desired saved).wp (shelfReading X L names firm)
      (EndsTidy X m L) s := by
  obtain ⟨active, hactive, hle⟩ := hcurrent
  refine Prog.wp_demand_bind trivial ?_ ?_
  · -- the deactivation does not fail: the backup is there, and nothing is staged
    intro e s₁ h₁
    refine absurd rfl (h₁.2.2 hf ?_ ?_ ?_ e)
    · rw [hactive]
      rfl
    · refine ⟨saved, ?_, ?_⟩
      · have hmem : saved.artifact ∈ s.names \ others X := by
          rw [hs.names]
          exact Set.mem_insert _ _
        exact hmem.1
      · intro hmem
        rw [hm] at hnew
        exact hnew ⟨hmem, not_others rfl⟩
    · intro staged hstaged
      have hmem : staged.artifact ∈ insert saved.artifact m := by
        rw [← hs.names]
        exact ⟨hstaged.1, not_others rfl⟩
      rcases hmem with heq | hmem
      · cases heq
      · rw [hm] at hmem
        exact hstaged.2 hmem.1
  intro _ s₁ h₁
  have hs₁ := hs.step (by trivial) h₁
  have hactive₁ : s₁.books.current = some active := by
    rw [show s₁.books = s.books from h₁.1]
    exact hactive
  refine retireOld_shelf rests_lasting hs₁ hs₁.still.le_last ?_ ?_
  · intro old s₂ hold hg₂ hs₂
    obtain rfl : active = old := Option.some.inj (hactive₁.symm.trans hold)
    have hne : active.plan.revision.epoch.get ≠ L + 1 := by omega
    refine Prog.wp_perform_bind trivial ?_
    intro _ s₃ h₃
    have hs₃ := hs₂.step (by trivial) h₃
    have hg₃ := hg₂.step (by trivial) h₃.1
    refine Prog.wp_attempt_seq (Prog.wp_and ((spawnReplacement_mild hdesired).keeps rests_lasting hs₃)
      ((spawnReplacement_past desired).gone hg₃)) ?_
    intro r s₄ h₄
    obtain ⟨hs₄, hg₄⟩ := h₄
    cases r with
    | ok inst =>
      refine Prog.wp_seq (installAndPublish_lasting rests_lasting hs₄ inst desired false)
        (fun _ _ h => by cases h.1) ?_
      intro _ s₅ h₅
      refine Prog.wp_seq (removeBackupQuietly_rests h₅.2) (fun _ _ h => by cases h.1) ?_
      intro _ s₆ h₆
      rw [Set.insert_sdiff_self_of_notMem hnew] at h₆
      exact h₆.2.2.tidy
    | error e =>
      simp only
      split
      · exact (latchQuarantine_steady _ _).past.tidy hg₄
      · exact rollBackRestart_tidy hne hnew hg₄ hs₄
  · intro failure s₂ hg₂ _
    exact (retireFailed_steady _ _).past.tidy hg₂

/-- A replacement of the candidate: it is at rest again, or in doubt. -/
theorem spawnReplacement_loose {plan : EpochPlan Doc} (he : plan.revision.epoch.get = L + 1)
    (hs : s.Loose X L n) :
    (spawnReplacement plan).wp (shelfReading X L names firm)
      (fun r s' => ∀ e, r = .error e → ¬e.isStopUnconfirmed = true → s'.Loose X L n) s := by
  refine Prog.wp_demand_bind trivial ?_ ?_
  · intro e s₁ h₁ _ _ _
    exact loose_lasting _ _ _ _ (by trivial) h₁ hs
  intro _ s₁ h₁
  have hs₁ := loose_lasting _ _ _ _ (by trivial) h₁ hs
  refine Prog.wp_demand_bind trivial ?_ ?_
  · intro e s₂ h₂ _ _ _
    exact loose_lasting _ _ _ _ (by trivial) h₂ hs₁
  intro _ s₂ h₂
  have hs₂ := loose_lasting _ _ _ _ (by trivial) h₂ hs₁
  refine Prog.wp_demand_bind trivial ?_ ?_
  · intro e s₃ h₃ _ _ _
    exact hs₂.refused h₃
  intro inst s₃ h₃
  have hs₃ := hs₂.scattered.step (by trivial) h₃
  have hi : inst.epoch.get = L + 1 := by
    rw [show inst.epoch = _ from h₃.1.1]
    exact he
  refine Prog.wp_perform_bind trivial ?_
  intro r s₄ h₄
  have hs₄ := hs₃.step (by trivial) h₄
  cases r with
  | ok _ => exact fun _ h => by cases h
  | error e =>
    refine Prog.wp_perform_bind trivial ?_
    intro r s₅ h₅
    cases r with
    | ok _ => exact fun _ _ _ => hs₄.stopped hi h₅
    | error stopError =>
      intro e h hdoubt
      cases h
      exact absurd rfl hdoubt

theorem switchWithCompensation_tidy {input : InstanceSpec} {snapshot : Snapshot Doc} (hf : firm)
    (hfresh : Fresh m L) (hL : s.books.last = L)
    (hcurrent : ∀ active, s.books.current = some active → active.plan.revision.epoch.get ≤ L)
    (hs : s.Rests X L m) :
    (switchWithCompensation setup input snapshot).wp (shelfReading X L names firm)
      (EndsTidy X m L) s := by
  refine Prog.wp_perform_bind trivial ?_
  intro epoch s₁ h₁
  obtain ⟨he, hs₁⟩ := hs.allocated hL h₁
  refine Prog.wp_seq (Prog.wp_and (prepareLaunch_rests (hfresh epoch he) he hs₁) prepareLaunch_epoch) ?_ ?_
  · intro e s₂ h₂
    exact (h₂.1.2.2 e rfl hf).tidy
  intro desired s₂ h₂
  obtain ⟨⟨hbooks, hs₂, -⟩, hepoch⟩ := h₂
  have hdesired : desired.revision.epoch = epoch := hepoch _ rfl
  refine Prog.wp_perform_bind trivial ?_
  intro r s₃ h₃
  have hs₃ := loose_lasting _ _ _ _ (by trivial) h₃ hs₂
  cases r with
  | error e =>
    refine Prog.wp_seq (cleanupQuietly_rests he hs₃) (fun _ _ h => h.2.tidy) ?_
    intro _ s₄ h₄
    exact h₄.2.tidy
  | ok _ =>
  have hcurrent₃ : s₃.books.current = s.books.current := by
    rw [show s₃.books = s₂.books from h₃.1, hbooks, h₁.1.2]
    rfl
  refine retireOld_shelf loose_lasting hs₃ hs₃.still.le_last ?_ ?_
  · intro old s₄ hold hg₄ hs₄
    have hne : old.plan.revision.epoch.get ≠ L + 1 := by
      have hle := hcurrent old (hcurrent₃.symm.trans hold)
      omega
    refine Prog.wp_perform_bind trivial ?_
    intro _ s₅ h₅
    have hs₅ := loose_lasting _ _ _ _ (by trivial) h₅ hs₄
    have hg₅ := hg₄.step (by trivial) h₅.1
    refine Prog.wp_attempt_seq (Prog.wp_and (spawnReplacement_loose (hdesired ▸ he) hs₅)
      ((spawnReplacement_past desired).gone hg₅)) ?_
    intro r s₆ h₆
    obtain ⟨hs₆, hg₆⟩ := h₆
    cases r with
    | ok inst =>
      have hlt : L < desired.revision.epoch.get := by
        rw [hdesired, he]
        exact Nat.lt_succ_self L
      refine Past.tidy ?_ hg₆
      refine Prog.Only.bind ?_ fun _ => (cleanupQuietly_steady _).past.bind fun _ => .ret _
      refine (Prog.Only.perform (by trivial)).bind fun pid => ?_
      exact (Prog.Only.perform (by exact hlt)).bind fun _ => (publishRunning_steady _ _ _).past
    | error e =>
      simp only
      split
      · exact (latchQuarantine_steady _ _).past.tidy hg₆
      · rename_i hdoubt
        refine Prog.wp_seq (Prog.wp_and (cleanupQuietly_rests he (hs₆ e rfl hdoubt))
          ((cleanupQuietly_steady epoch).past.gone hg₆)) (fun _ _ h => .inl h.2) ?_
        intro _ s₇ h₇
        exact rollBack_tidy hne h₇.2 h₇.1.2 fun _ h => h.tidy
  · intro failure s₄ hg₄ _
    refine Past.tidy ?_ hg₄
    exact (cleanupQuietly_steady epoch).past.bind fun _ => (retireFailed_steady _ _).past

/-- What the preparation of an apply leaves: its staged file, where it succeeds. -/
def PreparedApplyNames (X m : Set Artifact) (L : Nat) (epoch : Epoch) (s : Shelf Doc)
    (r : Except Error (PreparedApply Doc)) (s' : Shelf Doc) : Prop :=
  s'.books = s.books ∧ (∀ e, r = .error e → s'.Rests X L m) ∧ ∀ p, r = .ok p →
    p.plan.revision.epoch = epoch ∧ p.staged.artifact ∉ m ∧
      s'.Rests X L (insert p.staged.artifact m)

theorem Shelf.Rests.unprepared {epoch : Epoch} {e : Error} {s' : Shelf Doc}
    (hbooks : s'.books = s.books) (hs : s'.Rests X L m) :
    PreparedApplyNames X m L epoch s (.error e) s' :=
  ⟨hbooks, fun _ _ => hs, fun _ h => by cases h⟩

theorem prepareApply_names {current : Active Doc} {input : InstanceSpec} {snapshot : Snapshot Doc}
    (hf : firm) (hs : s.Rests X L m) :
    (prepareApply setup current input snapshot).wp (shelfReading X L names firm)
      (PreparedApplyNames X m L current.plan.revision.epoch s) s := by
  refine Prog.wp_demand_bind trivial (fun e s₁ h₁ => (hs.step (by trivial) h₁).unprepared h₁.1) ?_
  intro _ s₁ h₁
  have hs₁ := hs.step (by trivial) h₁
  refine Prog.wp_demand_bind trivial ?_ ?_
  · intro e s₂ h₂
    exact (hs₁.step (by trivial) h₂).unprepared (Eq.trans h₂.1 h₁.1)
  intro resolved s₂ h₂
  have hs₂ := hs₁.step (by trivial) h₂
  have hbooks₂ : s₂.books = s.books := Eq.trans h₂.1 h₁.1
  rw [Prog.wp_bind, Prog.wp_ret]
  cases setup.prepareFull snapshot current.plan.revision.epoch resolved.runtime
      (localIpcSettings setup input) with
  | error e => exact hs₂.unprepared hbooks₂
  | ok full =>
    rw [Prog.andThen_ok, Prog.wp_bind, Prog.wp_ret]
    cases nativePaths setup input full with
    | error e => exact hs₂.unprepared hbooks₂
    | ok prepared =>
      refine Prog.wp_demand_bind trivial ?_ ?_
      · intro e s₃ h₃
        refine Shelf.Rests.unprepared (Eq.trans h₃.1 hbooks₂) ?_
        exact ⟨hs₂.still.step rfl id h₃.1, (hs₂.on id h₃).2 hf⟩
      intro staged s₃ h₃
      obtain ⟨-, hnew, hnames⟩ := hs₂.on id h₃
      have hs₃ : s₃.Rests X L (insert staged.artifact m) := ⟨hs₂.still.step rfl id h₃.1, hnames⟩
      refine Prog.wp_seq (checkStaged_rests hnew hs₃) ?_ ?_
      · intro e s₄ h₄
        exact (h₄.2.2 e rfl).unprepared (h₄.1.trans (Eq.trans h₃.1 hbooks₂))
      intro _ s₄ h₄
      obtain ⟨hbooks₄, hs₄, -⟩ := h₄
      simp only [Prog.wp_bind, nextGeneration]
      split
      · refine ⟨hbooks₄.trans (Eq.trans h₃.1 hbooks₂), (fun _ h => by cases h), ?_⟩
        intro p hp
        cases hp
        exact ⟨rfl, hnew, hs₄ rfl⟩
      · exact Prog.wp_perform_bind trivial fun b _ _ => nomatch b

/-- What is left once a change is committed or refused. -/
structure Committed (X m : Set Artifact) (L : Nat) (saved : Backup) (s : Shelf Doc)
    (r : Except Error (Option String)) (s' : Shelf Doc) : Prop where
  refused : ∀ e, r = .error e → s'.Tidy X L m
  taken : ∀ warning, r = .ok warning →
    s'.books = s.books ∧ s'.Rests X L (insert saved.artifact m)

theorem Committed.of_error {saved : Backup} {e : Error} {s' : Shelf Doc} (h : s'.Tidy X L m) :
    Committed X m L saved s (.error e) s' :=
  ⟨fun _ _ => h, fun _ h => by cases h⟩

/-- A change that is refused takes its backup and its staged file with it. -/
theorem retract_committed {saved : Backup} {staged : Staged} {error : Error} {s' : Shelf Doc}
    (hsaved : saved.artifact ∉ m) (hstaged : staged.artifact ∉ m)
    (hs : s'.Rests X L (insert saved.artifact (insert staged.artifact m))) :
    (do
      removeBackupQuietly saved
      dropStagedFile staged
      fail error : Control Doc (Option String)).wp (shelfReading X L names firm)
      (Committed X m L saved s) s' := by
  have hne : saved.artifact ∉ insert staged.artifact m := by
    rintro (heq | hmem)
    · cases heq
    · exact hsaved hmem
  refine Prog.wp_seq (removeBackupQuietly_rests hs) (fun _ _ h => by cases h.1) ?_
  intro _ s₁ h₁
  rw [Set.insert_sdiff_self_of_notMem hne] at h₁
  refine Prog.wp_seq (dropStagedFile_rests h₁.2.2) (fun _ _ h => by cases h.1) ?_
  intro _ s₂ h₂
  rw [Set.insert_sdiff_self_of_notMem hstaged] at h₂
  exact .of_error h₂.2.2.tidy

theorem commitChange_committed {saved : Backup} {prepared : PreparedApply Doc}
    (hsaved : saved.artifact ∉ m) (hstaged : prepared.staged.artifact ∉ m)
    (hs : s.Rests X L (insert saved.artifact (insert prepared.staged.artifact m))) :
    (commitChange saved prepared).wp (shelfReading X L names firm) (Committed X m L saved s) s := by
  refine Prog.wp_perform_bind trivial ?_
  intro r s₁ h₁
  have hs₁ := hs.step (by trivial) h₁
  cases r with
  | error e => exact retract_committed hsaved hstaged hs₁
  | ok _ =>
  refine Prog.wp_perform_bind trivial ?_
  intro r s₂ h₂
  have hs₂ := hs₁.step (by trivial) h₂
  cases r with
  | error e =>
    refine Prog.wp_perform_bind trivial ?_
    intro _ s₃ h₃
    exact retract_committed hsaved hstaged (hs₂.step (by trivial) h₃)
  | ok _ =>
  refine Prog.wp_perform_bind trivial ?_
  intro current s₃ h₃
  have hs₃ := hs₂.step (by trivial) h₃
  have hbooks₃ : s₃.books = s.books := h₃.1.2.trans (Eq.trans h₂.1 h₁.1)
  cases current with
  | none =>
    have hg₃ : s₃.books.Gone L := by
      refine ⟨hs₃.still.le_last, ?_⟩
      intro active hactive
      rw [h₃.1.2, ← h₃.1.1] at hactive
      cases hactive
    refine dropStagedFile_then fun _ s₄ h₄ => ?_
    exact .of_error (.inl (hg₃.step (by trivial) h₄.1))
  | some active =>
  refine Prog.wp_perform_bind trivial ?_
  intro r s₄ h₄
  have hs₄ : s₄.Rests X L (insert saved.artifact m) := by
    refine ⟨hs₃.still.step rfl id h₄.1, ?_⟩
    have hon : s₄.names \ others X = _ \ {prepared.staged.artifact} := hs₃.on id h₄
    rw [hon, Set.insert_comm]
    refine Set.insert_sdiff_self_of_notMem ?_
    rintro (heq | hmem)
    · cases heq
    · exact hstaged hmem
  cases r with
  | error e =>
    refine Prog.wp_perform_bind trivial ?_
    intro _ s₅ h₅
    refine Prog.wp_seq (removeBackupQuietly_rests (hs₄.step (by trivial) h₅))
      (fun _ _ h => by cases h.1) ?_
    intro _ s₆ h₆
    rw [Set.insert_sdiff_self_of_notMem hsaved] at h₆
    exact .of_error h₆.2.2.tidy
  | ok warning =>
    exact ⟨(fun _ h => by cases h), fun _ _ => ⟨Eq.trans h₄.1 hbooks₃, hs₄⟩⟩

/-- Adopting a change removes its backup. -/
theorem adoptInPlace_rests {active : Active Doc} {desired : EpochPlan Doc} {saved : Backup}
    (hsaved : saved.artifact ∉ m) (hs : s.Rests X L (insert saved.artifact m)) :
    (adoptInPlace active desired saved).wp (shelfReading X L names firm)
      (fun _ s' => s'.Rests X L m) s := by
  refine Prog.wp_perform_bind trivial ?_
  intro _ s₁ h₁
  have hs₁ := hs.step (by trivial) h₁
  refine Prog.wp_perform_bind trivial ?_
  intro pid s₂ h₂
  have hs₂ := hs₁.step (by trivial) h₂
  refine Prog.wp_seq (publishInstance_lasting rests_lasting hs₂ _ _ _) (fun _ _ h => by cases h.1) ?_
  intro _ s₃ h₃
  refine Prog.wp_perform_bind trivial ?_
  intro _ s₄ h₄
  refine Prog.wp_mono (removeBackupQuietly_rests (h₃.2.step (by trivial) h₄)) ?_
  intro r s₅ h₅
  rw [Set.insert_sdiff_self_of_notMem hsaved] at h₅
  exact h₅.2.2

/-- What the backup of a change leaves, its staged file dropped where it failed. -/
structure BackedUp (X m : Set Artifact) (L : Nat) (staged : Staged) (s : Shelf Doc)
    (r : Except Error Backup) (s' : Shelf Doc) : Prop where
  books : s'.books = s.books
  failed : ∀ e, r = .error e → s'.Rests X L m
  saved : ∀ saved, r = .ok saved → saved.artifact ∉ m ∧
    s'.Rests X L (insert saved.artifact (insert staged.artifact m))

theorem backup_backedUp {epoch : Epoch} {generation : Nat} {staged : Staged} (hf : firm)
    (hstaged : staged.artifact ∉ m) (hs : s.Rests X L (insert staged.artifact m)) :
    (orDrop staged (demand (.backup epoch generation)) : Control Doc Backup).wp
      (shelfReading X L names firm) (BackedUp X m L staged s) s := by
  refine (Prog.wp_bind ..).2 ((Prog.wp_attempt ..).2 ((Prog.wp_demand _).2 ⟨trivial, ?_⟩))
  intro r s₁ h₁
  have hstill := hs.still.step rfl id h₁.1
  have hon := hs.on id h₁
  cases r with
  | ok saved =>
    obtain ⟨-, hnew, hnames⟩ := hon
    refine ⟨h₁.1, (fun _ h => by cases h), ?_⟩
    intro saved hsaved
    cases hsaved
    exact ⟨fun h => hnew (Set.mem_insert_of_mem _ h), hstill, hnames⟩
  | error e =>
    have hs₁ : s₁.Rests X L (insert staged.artifact m) := ⟨hstill, hon hf⟩
    refine Prog.wp_seq (dropStagedFile_rests hs₁) (fun _ _ h => by cases h.1) ?_
    intro _ s₂ h₂
    obtain ⟨-, hbooks, hs₂⟩ := h₂
    rw [Set.insert_sdiff_self_of_notMem hstaged] at hs₂
    exact ⟨hbooks.trans h₁.1, fun _ _ => hs₂, fun _ h => by cases h⟩

theorem applyChange_tidy {active : Active Doc} {prepared : PreparedApply Doc}
    {outcome : ConfigRevision → ApplyOutcome} (hf : firm) (hm : m = names \ others X)
    (hstaged : prepared.staged.artifact ∉ m)
    (hepoch : prepared.plan.revision.epoch = active.plan.revision.epoch)
    (hcurrent : s.books.current = some active) (hle : active.plan.revision.epoch.get ≤ L)
    (hs : s.Rests X L (insert prepared.staged.artifact m)) :
    (applyChange active prepared outcome).wp (shelfReading X L names firm) (EndsTidy X m L) s := by
  have hdesired : prepared.plan.revision.epoch.get ≠ L + 1 := by
    rw [hepoch]
    omega
  refine Prog.wp_seq (backup_backedUp hf hstaged hs) (fun e _ h => (h.failed e rfl).tidy) ?_
  intro saved s₁ h₁
  obtain ⟨hsaved, hs₁⟩ := h₁.saved saved rfl
  refine Prog.wp_seq (commitChange_committed hsaved hstaged hs₁) (fun e _ h => h.refused e rfl) ?_
  intro warning s₂ h₂
  obtain ⟨hbooks₂, hs₂⟩ := h₂.taken warning rfl
  refine Prog.wp_perform_bind trivial ?_
  intro reconciled s₃ h₃
  have hs₃ := hs₂.step (by trivial) h₃
  have hcurrent₃ : s₃.books.current = some active := by
    rw [show s₃.books = s₂.books from h₃.1, hbooks₂, h₁.books]
    exact hcurrent
  split
  · exact Prog.wp_seq (adoptInPlace_rests hsaved hs₃) (fun _ _ h => h.tidy) fun _ _ h => h.tidy
  · exact Prog.wp_attempt_seq (restartWithCompensation_tidy hf hm hsaved hdesired
      ⟨active, hcurrent₃, hle⟩ hs₃) fun _ _ h => h

theorem applyLocked_tidy {input : InstanceSpec} {expected : Option RevisionId} (hf : firm)
    (hm : m = names \ others X) (hfresh : Fresh m L) (hL : s.books.last = L)
    (hcurrent : ∀ active, s.books.current = some active → active.plan.revision.epoch.get ≤ L)
    (hs : s.Rests X L m) :
    (applyLocked setup input expected).wp (shelfReading X L names firm) (EndsTidy X m L) s := by
  refine Prog.wp_perform_bind trivial ?_
  intro current s₁ h₁
  have hs₁ := hs.step (by trivial) h₁
  cases current with
  | none => exact hs₁.tidy
  | some active =>
  have hactive : s.books.current = some active := h₁.1.1.symm
  refine Prog.wp_perform_bind trivial ?_
  intro status s₂ h₂
  have hs₂ := hs₁.step (by trivial) h₂
  have hbooks₂ : s₂.books = s.books := Eq.trans h₂.1 h₁.1.2
  split
  · exact hs₂.tidy
  simp only
  split
  · exact hs₂.tidy
  refine Prog.wp_demand_bind trivial (fun e s₃ h₃ => (hs₂.step (by trivial) h₃).tidy) ?_
  intro snapshot s₃ h₃
  have hs₃ := hs₂.step (by trivial) h₃
  refine Prog.wp_seq (prepareApply_names hf hs₃) (fun e _ h => (h.2.1 e rfl).tidy) ?_
  intro prepared s₄ h₄
  obtain ⟨hbooks₄, -, hprepared⟩ := h₄
  obtain ⟨hepoch, hstaged, hs₄⟩ := hprepared prepared rfl
  have hbooks : s₄.books = s.books := hbooks₄.trans (Eq.trans h₃.1 hbooks₂)
  have hcurrent₄ : s₄.books.current = some active := by
    rw [hbooks]
    exact hactive
  have dropped {s' s'' : Shelf Doc} {r : Except Error Unit}
      (hs' : s'.Rests X L (insert prepared.staged.artifact m))
      (h : (shelfReading X L names firm).step (.dropStaged prepared.staged) s' r s'') :
      s''.Rests X L m := by
    refine ⟨hs'.still.step rfl id h.1, ?_⟩
    have hon : s''.names \ others X = _ \ {prepared.staged.artifact} := hs'.on id h
    rw [hon, Set.insert_sdiff_self_of_notMem hstaged]
  split
  · exact dropStagedFile_then fun _ s₅ h₅ => (dropped hs₄ h₅).tidy
  · refine Prog.wp_perform_bind trivial ?_
    intro _ s₅ h₅
    have hs₅ := hs₄.step (by trivial) h₅
    refine Prog.wp_perform_bind trivial ?_
    intro _ s₆ h₆
    have hs₆ := hs₅.step (by trivial) h₆
    exact dropStagedFile_then fun _ s₇ h₇ => (dropped hs₆ h₇).tidy
  · refine dropStagedFile_then fun _ s₅ h₅ => ?_
    have hbooks₅ : s₅.books = s.books := Eq.trans h₅.1 hbooks
    refine switchWithCompensation_tidy hf hfresh ?_ ?_ (dropped hs₄ h₅)
    · rw [hbooks₅]
      exact hL
    · rw [hbooks₅]
      exact hcurrent
  · exact applyChange_tidy hf hm hstaged hepoch hcurrent₄ (hcurrent active hactive) hs₄
  · exact applyChange_tidy hf hm hstaged hepoch hcurrent₄ (hcurrent active hactive) hs₄

/-! ## The operations -/

theorem finishDnsConverge_tidy {result : Except Error α} (hs : s.Tidy X L m) :
    (finishDnsConverge result).wp (shelfReading X L names firm) (EndsTidy X m L) s := by
  have keep {s' : Shelf Doc} (hbooks : s'.books = s.books)
      (hrests : s.Rests X L m → s'.Rests X L m) : s'.Tidy X L m := by
    rcases hs with hgone | hlatched | hs
    · exact .inl (hbooks ▸ hgone)
    · exact .inr (.inl (hbooks ▸ hlatched))
    · exact .inr (.inr (hrests hs))
  refine (Prog.wp_bind ..).2 (runtimeAlive_rests ?_)
  intro alive s₁ hbooks₁ hrests₁
  rw [Prog.andThen_ok]
  split
  · refine Prog.wp_perform_bind trivial ?_
    intro dns s₂ h₂
    exact keep (Eq.trans h₂.1 hbooks₁) fun h => (hrests₁ m h).step (by trivial) h₂
  · exact keep hbooks₁ (hrests₁ m)

/-- A gated change with its converge tail. -/
theorem changed_tidy {p : Control Doc α} (hs : s.Rests X L m)
    (hp : ∀ s', s'.books = s.books → s'.Rests X L m →
      p.wp (shelfReading X L names firm) (EndsTidy X m L) s') :
    (do
      rejectQuarantine
      let result ← p.attempt
      finishDnsConverge result : Control Doc α).wp (shelfReading X L names firm)
      (EndsTidy X m L) s := by
  refine (Prog.wp_bind ..).2 (Prog.wp_perform_bind trivial ?_)
  intro list s₁ h₁
  have hs₁ := hs.step (by trivial) h₁
  split
  · exact hs₁.tidy
  · exact Prog.wp_attempt_seq (hp s₁ h₁.1.2 hs₁) fun _ _ h => finishDnsConverge_tidy h

theorem reconcileLocked_tidy {spec : InstanceSpec} {expected : Option RevisionId} (hf : firm)
    (hm : m = names \ others X) (hfresh : Fresh m L) (hL : s.books.last = L)
    (hcurrent : ∀ active, s.books.current = some active → active.plan.revision.epoch.get ≤ L)
    (hs : s.Rests X L m) :
    (reconcileLocked setup spec expected).wp (shelfReading X L names firm) (EndsTidy X m L) s := by
  refine (Prog.wp_bind ..).2 (runtimeAlive_rests ?_)
  intro alive s₁ hbooks hrests
  have hs₁ := hrests m hs
  have hL₁ : s₁.books.last = L := by
    rw [hbooks]
    exact hL
  rw [Prog.andThen_ok]
  split
  · refine applyLocked_tidy hf hm hfresh hL₁ ?_ hs₁
    rw [hbooks]
    exact hcurrent
  · cases expected with
    | some expected => exact hs₁.tidy
    | none =>
      refine Prog.wp_seq (discardStale_gone hL₁.ge) (fun _ _ h => .inl h) ?_
      intro _ s₂ h₂
      refine Prog.wp_seq (startLocked_gone h₂) (fun _ _ h => .inl h) ?_
      intro _ s₃ h₃
      refine Past.tidy ?_ h₃
      refine (Prog.Only.perform (by trivial)).bind fun current => ?_
      cases current with
      | none => exact (expect_steady _).past
      | some active => exact .ret _

end Functions

/-- The operations that change a running core. -/
def Command.changes : Command → Bool
  | .switch _ | .applyConfig _ _ | .reconcile _ _ => true
  | _ => false

/-- Those of them that may go on to no cleanup. -/
def Command.applies : Command → Bool
  | .applyConfig _ _ | .reconcile _ _ => true
  | _ => false

theorem program_tidy {command : Command} {s : Shelf Doc} (hcommand : command.changes = true)
    (hm : m = names \ others X) (hfresh : Fresh m L) (hL : s.books.last = L)
    (hcurrent : ∀ active, s.books.current = some active → active.plan.revision.epoch.get ≤ L)
    (hs : s.Rests X L m) :
    (program setup command).wp (shelfReading X L names (command.applies = true))
      (EndsTidy X m L) s := by
  have last {s' : Shelf Doc} (hbooks : s'.books = s.books) : s'.books.last = L := by
    rw [hbooks]
    exact hL
  have current {s' : Shelf Doc} (hbooks : s'.books = s.books) :
      ∀ active, s'.books.current = some active → active.plan.revision.epoch.get ≤ L := by
    rw [hbooks]
    exact hcurrent
  cases command with
  | switch spec =>
    refine Prog.wp_seq (changed_tidy hs fun s' hbooks hs' => ?_) (fun _ _ h => h) fun _ _ h => h
    exact switchLocked_tidy hfresh (last hbooks) hs'
  | applyConfig spec expected =>
    refine Prog.wp_seq (changed_tidy hs fun s' hbooks hs' => ?_) (fun _ _ h => h) fun _ _ h => h
    exact applyLocked_tidy rfl hm hfresh (last hbooks) (current hbooks) hs'
  | reconcile spec expected =>
    refine Prog.wp_seq (changed_tidy hs fun s' hbooks hs' => ?_) (fun _ _ h => h) fun _ _ h => h
    exact reconcileLocked_tidy rfl hm hfresh (last hbooks) (current hbooks) hs'
  | start _ | stop | shutdown | restart | recoverQuarantine => cases hcommand

theorem reachable_fresh {artifacts : Directory} {recordFile : Option (List UInt8)}
    {recordStaging : Option RecordStaging} {s : System Doc}
    (hs : (manager setup env artifacts recordFile recordStaging).Reachable s)
    (hup : s.up = true)
    (hX : ∀ a ∈ s.world.names, a.ofRuntime = true → a.number = s.world.ctrl.last + 1 → a ∈ X) :
    Fresh (s.world.names \ others X) s.world.ctrl.last := by
  intro epoch hepoch
  refine sdiff_eq_left.2 (Set.disjoint_left.2 ?_)
  intro a ha hswept
  have hnumber := swept_number hswept
  cases hruntime : a.ofRuntime with
  | true => exact ha.2 ⟨hruntime, hX a ha.1 hruntime hnumber⟩
  | false =>
    have hout : a ∉ runtimes := not_runtime (fun _ h => h) hruntime
    have hlt : a.number < 2 ^ 64 := by
      rw [hnumber, ← hepoch]
      exact epoch.lt
    have hle := reachable_counted hs hup a ⟨ha.1, hout⟩ hlt
    omega

/-- A change that ends with the old epoch still installed, and none quarantined,
leaves the directory with the names it found, apart from those that runtimes
other than the candidate's write; so no config of a later epoch is there.

The removals it makes succeed. An apply that fails after the change of
permissions of its staged file, the synchronization of the directory after a new
link, or a DNS deactivation with the backup already made, goes on to no
cleanup: these steps do not fail. -/
theorem change_leaves_no_litter (setup : Setup Doc) (env : Env Doc) (artifacts : Directory)
    (recordFile : Option (List UInt8)) (recordStaging : Option RecordStaging) {s : System Doc}
    (hs : (manager setup env artifacts recordFile recordStaging).Reachable s) (hup : s.up = true)
    {command : Command} (hcommand : command.changes = true) {active retained : Active Doc}
    (hactive : s.world.ctrl.current = some active) {X : Set Artifact}
    (hX : ∀ a ∈ s.world.names, a.ofRuntime = true → a.number = s.world.ctrl.last + 1 → a ∈ X)
    (tended : Along (handle setup env) (fun op v => Tended setup env X s.world.ctrl.last op v)
      (program setup command) s.world)
    (removing : Along (handle setup env) (fun op v => Removing setup env s.world.ctrl.last op v)
      (program setup command) s.world)
    (unbroken : command.applies = true → Along (handle setup env)
      (fun op v => Firm setup env s.world.names op v) (program setup command) s.world)
    {r : Except Error Reply} {t : World Doc}
    (hr : exec (handle setup env) (program setup command) s.world = (.ok r, t))
    (hretained : t.ctrl.current = some retained)
    (hepoch : retained.plan.revision.epoch = active.plan.revision.epoch)
    (hquarantine : t.ctrl.quarantine = []) :
    (∀ a, ¬(a.ofRuntime = true ∧ a ∈ X) → (a ∈ t.names ↔ a ∈ s.world.names)) ∧
      ∀ epoch : Epoch, s.world.ctrl.last < epoch.get → Artifact.config epoch.get ∉ t.names := by
  have hgood := reachable_good hs hup false
  have hle {a : Active Doc} (ha : s.world.ctrl.current = some a) :
      a.plan.revision.epoch.get ≤ s.world.ctrl.last := (hgood.standing a ha).held.le_last
  have firmly : Along (handle setup env) (fun op v => command.applies = true →
      Firm setup env s.world.names op v) (program setup command) s.world := by
    cases happlies : command.applies with
    | true => exact (unbroken happlies).mono fun _ _ h _ => h
    | false => exact along_of_forall (h := handle setup env) (fun _ _ h => by cases h) _
  have hfresh := reachable_fresh hs hup hX
  have hrests : s.world.shelf.Rests X s.world.ctrl.last (s.world.names \ others X) :=
    ⟨⟨le_rfl, fun hlt => absurd hlt (lt_irrefl _)⟩, rfl⟩
  have hwp : (program setup command).wp
      (shelfReading X s.world.ctrl.last s.world.names (command.applies = true))
      (EndsTidy X (s.world.names \ others X) s.world.ctrl.last) s.world.shelf :=
    program_tidy hcommand rfl hfresh rfl (fun a ha => hle ha) hrests
  have htidy := (shelfReading_sound setup env X s.world.ctrl.last s.world.names
    (command.applies = true)).returns (tended.and (removing.and firmly)) hwp hr
  rcases htidy with hgone | hlatched | hnames
  · have hlt : s.world.ctrl.last < retained.plan.revision.epoch.get := hgone.newer retained hretained
    have hle := hle hactive
    rw [hepoch] at hlt
    omega
  · exact absurd hquarantine hlatched
  · have same (a : Artifact) (ha : a ∉ others X) : a ∈ t.names ↔ a ∈ s.world.names := by
      have hmem := Set.ext_iff.1 hnames.names a
      constructor
      · exact fun h => (hmem.1 ⟨h, ha⟩).1
      · exact fun h => (hmem.2 ⟨h, ha⟩).1
    refine ⟨same, ?_⟩
    intro epoch hlt hmem
    have hfound := (same _ (not_others rfl)).1 hmem
    have hle : epoch.get ≤ s.world.ctrl.last :=
      reachable_counted hs hup _ ⟨hfound, not_runtime (fun _ h => h) rfl⟩ epoch.lt
    omega

/-! ### A host whose bootstraps do not get ready -/

/-- The second core never answers, and every stop answers `stopped`. -/
def unreadyEnv (stopped : Except Error Unit) : Env Nat :=
  { plainEnv 7 with
    resolveFeatures := fun _ _ => .ok ⟨∅, {.localIpc}⟩
    waitReady := fun tick => if tick < 40 then .ok () else .error (.io "not ready")
    stop := fun _ => stopped }

/-- Neither a backup's removal nor a cleanup fails. -/
def Op.cleans (setup : Setup Doc) (env : Env Doc) {β : Type} : Op Doc β → World Doc → Bool
  | .removeBackup saved, v => match (handle setup env (.removeBackup saved) v).1 with
    | .ok (.error _) => false
    | _ => true
  | .cleanupEpoch site epoch, v => match (handle setup env (.cleanupEpoch site epoch) v).1 with
    | .ok (.error _) => false
    | _ => true
  | _, _ => true

theorem removing_of_cleans (hfault : ∀ tick, env.fault tick = none) {last : Nat} {op : Op Doc β}
    {v : World Doc} (h : op.cleans setup env v = true) : Removing setup env last op v := by
  have store {ε γ : Type} (p : Prog ε StorePrim γ) :
      Along (storeHandle env) (fun op u => op.removing env u) p v := by
    refine along_of_forall (h := storeHandle env) (fun op u => ?_) p
    cases op with
    | remove _ => exact hfault _
    | _ => trivial
  cases op with
  | stage _ _ | dropStaged _ | commitNew _ _ | commitReplace _ _ | backup _ _ | restore _ =>
    exact store _
  | removeBackup saved =>
    intro e t he
    simp only [Op.cleans, he] at h
    cases h
  | cleanupEpoch site epoch =>
    intro _ e t he
    simp only [Op.cleans, he] at h
    cases h
  | _ => trivial

theorem unready_bootstrap_rejected :
    ((manager plainSetup (unreadyEnv (.ok ())) [] none none).run
      (manager plainSetup (unreadyEnv (.ok ())) [] none none).init
      [.build, .call (.start plainSpec)]).any (fun s => s.up &&
        ((s.world.artifacts.map Prod.fst).all fun a => !a.ofRuntime) &&
        decide (Along (handle plainSetup (unreadyEnv (.ok ())))
          (fun op v => op.cleans plainSetup (unreadyEnv (.ok ())) v = true)
          (program plainSetup (.switch plainSpec)) s.world) &&
        match exec (handle plainSetup (unreadyEnv (.ok ())))
          (program plainSetup (.switch plainSpec)) s.world with
        | (.ok (.error _), t) => decide (s.world.ctrl.last < t.ctrl.last) &&
          t.ctrl.quarantine.isEmpty && s.world.ctrl.current.any fun active =>
            t.ctrl.current.any fun retained =>
              retained.plan.revision.epoch = active.plan.revision.epoch
        | _ => false) = true := by
  decide +kernel

/-- A bootstrap that is not ready is stopped, and leaves nothing. -/
theorem unready_bootstrap_leaves_no_litter :
    ∃ s t, (manager plainSetup (unreadyEnv (.ok ())) [] none none).Reachable s ∧
      (∃ e, exec (handle plainSetup (unreadyEnv (.ok ())))
        (program plainSetup (.switch plainSpec)) s.world = (.ok (.error e), t)) ∧
      s.world.ctrl.last < t.ctrl.last ∧
      (∀ a, ¬(a.ofRuntime = true ∧ a ∈ (∅ : Set Artifact)) → (a ∈ t.names ↔ a ∈ s.world.names)) ∧
      ∀ epoch : Epoch, s.world.ctrl.last < epoch.get → Artifact.config epoch.get ∉ t.names := by
  obtain ⟨s, hs, ho⟩ := (Option.any_eq_true _ _).1 unready_bootstrap_rejected
  obtain ⟨ho, hrejected⟩ := (Bool.and_eq_true _ _).mp ho
  obtain ⟨ho, hcleans⟩ := (Bool.and_eq_true _ _).mp ho
  obtain ⟨hup, hstore⟩ := (Bool.and_eq_true _ _).mp ho
  split at hrejected
  · rename_i e t hr
    obtain ⟨hlast, hcurrent⟩ := (Bool.and_eq_true _ _).mp hrejected
    obtain ⟨hlast, hquarantine⟩ := (Bool.and_eq_true _ _).mp hlast
    obtain ⟨active, hactive, hretained⟩ := (Option.any_eq_true _ _).1 hcurrent
    obtain ⟨retained, hretained, hepoch⟩ := (Option.any_eq_true _ _).1 hretained
    have hreach := Machine.run_reachable .init hs
    refine ⟨s, t, hreach, ⟨e, hr⟩, of_decide_eq_true hlast, ?_⟩
    refine change_leaves_no_litter _ _ _ _ _ hreach hup rfl hactive ?_ ?_ ?_
      (fun h => by cases h) hr hretained (of_decide_eq_true hepoch) (List.isEmpty_iff.1 hquarantine)
    · intro a ha hruntime _
      have hnot := List.all_eq_true.1 hstore a (mem_map_fst ha)
      rw [hruntime] at hnot
      cases hnot
    · exact along_of_forall (h := handle plainSetup _)
        (fun _ _ _ _ _ _ _ h _ => absurd h List.not_mem_nil) _
    · exact (of_decide_eq_true hcleans).mono fun _ _ h => removing_of_cleans (fun _ => rfl) h
  · cases hrejected

theorem doubtful_bootstrap_rejected :
    ((manager plainSetup (unreadyEnv (.error (.stopUnconfirmed "still running")))
      [] none none).run (manager plainSetup (unreadyEnv (.error (.stopUnconfirmed "still running")))
      [] none none).init [.build, .call (.start plainSpec)]).any (fun s => s.up &&
        match exec (handle plainSetup (unreadyEnv (.error (.stopUnconfirmed "still running"))))
          (program plainSetup (.switch plainSpec)) s.world with
        | (.ok (.error _), t) => decide (
            s.world.ctrl.current.map (fun active => active.plan.revision.epoch) = some Epoch.one ∧
            t.ctrl.current.map (fun active => active.plan.revision.epoch) = some Epoch.one ∧
            (t.artifacts.find (.config 2)).isSome = true ∧
            (s.world.artifacts.find (.config 2)).isSome = false)
        | _ => false) = true := by
  decide +kernel

/-- A bootstrap that is not ready and cannot be stopped is quarantined, with its
config beside the old epoch's. -/
theorem doubtful_bootstrap_leaves_config :
    ∃ s e t, (manager plainSetup (unreadyEnv (.error (.stopUnconfirmed "still running")))
        [] none none).Reachable s ∧ s.up = true ∧
      exec (handle plainSetup (unreadyEnv (.error (.stopUnconfirmed "still running"))))
        (program plainSetup (.switch plainSpec)) s.world = (.ok (.error e), t) ∧
      s.world.ctrl.current.map (fun active => active.plan.revision.epoch) = some Epoch.one ∧
      t.ctrl.current.map (fun active => active.plan.revision.epoch) = some Epoch.one ∧
      Artifact.config 2 ∈ t.names ∧ Artifact.config 2 ∉ s.world.names := by
  obtain ⟨s, hs, ho⟩ := (Option.any_eq_true _ _).1 doubtful_bootstrap_rejected
  obtain ⟨hup, ho⟩ := (Bool.and_eq_true _ _).mp ho
  split at ho
  · rename_i e t hr
    obtain ⟨hold, hkept, hleft, hnew⟩ := of_decide_eq_true ho
    refine ⟨s, e, t, Machine.run_reachable .init hs, hup, hr, hold, hkept, hleft, ?_⟩
    intro hmem
    have hfound : (s.world.artifacts.find (.config 2)).isSome = true := hmem
    rw [hnew] at hfound
    cases hfound
  · cases ho

end Chimera.Manager
