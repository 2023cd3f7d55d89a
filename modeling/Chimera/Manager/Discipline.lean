import Chimera.Manager.Books

/-! What the books have to show after every transaction: revisions that only
grow, epochs past everything that was found on disk, a retained spec that goes
with the current plan, and no unconfirmed stop outside quarantine. -/

namespace Chimera.Manager
open Chimera.Model Chimera.Lib.Program

variable {Doc : Type}

/-! ## Reading the history

The history is newest first, and goes back over earlier managers of the same
directory; what concerns one manager ends at its `built`. -/

/-- The plans this manager committed. -/
def commits : List (Event Doc) → List (EpochPlan Doc)
  | [] | .built _ :: _ => []
  | .committed plan _ :: rest => plan :: commits rest
  | _ :: rest => commits rest

/-- The numbers this manager found in its directory. -/
def found : List (Event Doc) → List Nat
  | [] => []
  | .built numbers :: _ => numbers
  | _ :: rest => found rest

/-- Revisions are compared by epoch, then by generation. -/
def revisionKey (revision : ConfigRevision) : Nat ×ₗ Nat :=
  toLex (revision.epoch.get, revision.generation)

/-- Every newly committed plan is past every plan committed before it, and every
allocated epoch past every number found at construction. -/
def Disciplined : List (Event Doc) → Prop
  | [] | .built _ :: _ => True
  | .committed plan false :: rest =>
    (∀ p ∈ commits rest, revisionKey p.revision < revisionKey plan.revision) ∧ Disciplined rest
  | .allocated epoch :: rest => (∀ n ∈ found rest, n < epoch.get) ∧ Disciplined rest
  | _ :: rest => Disciplined rest

/-- A launch, at a site that counts, or a stop could not confirm the epoch's
death. -/
def Event.Reports (counts : Site → Bool) : Event Doc → Epoch → Prop
  | .launched site e (.error error), epoch =>
    counts site = true ∧ error.isStopUnconfirmed = true ∧ e = epoch
  | .stopped e (.error error), epoch => error.isStopUnconfirmed = true ∧ e = epoch
  | _, _ => False

/-- The epoch was reported so and has not been released since. -/
def Unconfirmed (counts : Site → Bool) : List (Event Doc) → Epoch → Prop
  | [], _ | .built _ :: _, _ => False
  | .released e :: rest, epoch => e ≠ epoch ∧ Unconfirmed counts rest epoch
  | event :: rest, epoch => event.Reports counts epoch ∨ Unconfirmed counts rest epoch

instance (counts : Site → Bool) : ∀ (event : Event Doc) (epoch : Epoch),
    Decidable (event.Reports counts epoch)
  | .launched _ _ (.error _), _ => inferInstanceAs (Decidable (_ ∧ _ ∧ _))
  | .stopped _ (.error _), _ => inferInstanceAs (Decidable (_ ∧ _))
  | .launched _ _ (.ok _), _ | .stopped _ (.ok _), _ | .built _, _ | .allocated _, _
  | .committed _ _, _ | .reaped _ _, _ | .cleaned _, _ | .released _, _ =>
    inferInstanceAs (Decidable False)

instance decidableUnconfirmed (counts : Site → Bool) : ∀ (trace : List (Event Doc)) (epoch : Epoch),
    Decidable (Unconfirmed counts trace epoch)
  | [], _ | .built _ :: _, _ => inferInstanceAs (Decidable False)
  | .released _ :: rest, epoch =>
    have := decidableUnconfirmed counts rest epoch
    inferInstanceAs (Decidable (_ ∧ _))
  | .launched _ _ _ :: rest, epoch | .stopped _ _ :: rest, epoch | .allocated _ :: rest, epoch
  | .committed _ _ :: rest, epoch | .reaped _ _ :: rest, epoch | .cleaned _ :: rest, epoch =>
    have := decidableUnconfirmed counts rest epoch
    inferInstanceAs (Decidable (_ ∨ _))

/-- A reaper found the epoch's process dead, and the epoch has not been released
since. -/
def Dead : List (Event Doc) → Epoch → Prop
  | [], _ | .built _ :: _, _ => False
  | .reaped e outcome :: rest, epoch => (e = epoch ∧ outcome ≠ .notFound) ∨ Dead rest epoch
  | .released e :: rest, epoch => e ≠ epoch ∧ Dead rest epoch
  | _ :: rest, epoch => Dead rest epoch

/-- Every epoch was dead when it was released, and had just been cleaned. -/
def Justified : List (Event Doc) → Prop
  | [] | .built _ :: _ => True
  | .released epoch :: rest =>
    Dead rest epoch ∧ (∃ earlier, rest = .cleaned epoch :: earlier) ∧ Justified rest
  | _ :: rest => Justified rest

/-- The launches whose unconfirmed failure is latched. -/
def latchedSite : Site → Bool
  | .replacement => true
  | _ => false

/-! ## Plain events -/

/-- What a runtime or a cleanup logs. -/
def Event.isPlain : Event Doc → Bool
  | .launched _ _ _ | .stopped _ _ | .reaped _ _ | .cleaned _ => true
  | _ => false

section Plain

variable {event : Event Doc} {rest : List (Event Doc)}

theorem commits_plain (h : event.isPlain = true) : commits (event :: rest) = commits rest := by
  cases event <;> first | rfl | cases h

theorem found_plain (h : event.isPlain = true) : found (event :: rest) = found rest := by
  cases event <;> first | rfl | cases h

theorem disciplined_plain (h : event.isPlain = true) :
    Disciplined (event :: rest) ↔ Disciplined rest := by
  cases event <;> first | exact Iff.rfl | cases h

theorem unconfirmed_plain {counts : Site → Bool} {epoch : Epoch} (h : event.isPlain = true) :
    Unconfirmed counts (event :: rest) epoch ↔
      event.Reports counts epoch ∨ Unconfirmed counts rest epoch := by
  cases event <;> first | exact Iff.rfl | cases h

theorem justified_plain (h : event.isPlain = true) :
    Justified (event :: rest) ↔ Justified rest := by
  cases event <;> first | exact Iff.rfl | cases h

theorem Dead.plain {epoch : Epoch} (hd : Dead rest epoch) (h : event.isPlain = true) :
    Dead (event :: rest) epoch := by
  cases event <;> first | exact hd | exact .inr hd | cases h

end Plain

/-- The books differ by plain events, which report nothing but epochs of `X`. -/
def Logged (X : Set Epoch) (a a' : Books Doc) : Prop :=
  ∃ new, a' = { a with trace := new ++ a.trace } ∧
    ∀ event ∈ new, event.isPlain = true ∧ ∀ epoch, event.Reports latchedSite epoch → epoch ∈ X

section Logged

variable {a a' a'' : Books Doc} {X Y : Set Epoch}

theorem Logged.refl : Logged X a a := ⟨[], rfl, by simp⟩

theorem Logged.cons {event : Event Doc} (hp : event.isPlain = true)
    (hr : ∀ epoch, event.Reports latchedSite epoch → epoch ∈ X) : Logged X a (a.log event) :=
  ⟨[event], rfl, by simpa using ⟨hp, hr⟩⟩

/-- A launch or a stop that succeeds reports nothing. -/
theorem Logged.launched (site : Site) (epoch : Epoch) :
    Logged ∅ a (a.log (.launched site epoch (.ok ()))) :=
  .cons rfl nofun

theorem Logged.stopped (epoch : Epoch) : Logged ∅ a (a.log (.stopped epoch (.ok ()))) :=
  .cons rfl nofun

theorem Logged.trans (h : Logged X a a') (h' : Logged X a' a'') : Logged X a a'' := by
  obtain ⟨new, rfl, hnew⟩ := h
  obtain ⟨newer, rfl, hnewer⟩ := h'
  refine ⟨newer ++ new, by simp, ?_⟩
  intro event he
  rcases List.mem_append.1 he with he | he
  · exact hnewer event he
  · exact hnew event he

theorem Logged.mono (h : Logged X a a') (hX : X ⊆ Y) : Logged Y a a' := by
  obtain ⟨new, ha, hnew⟩ := h
  exact ⟨new, ha, fun event he => ⟨(hnew event he).1, fun e hr => hX ((hnew event he).2 e hr)⟩⟩

theorem Logged.current (h : Logged X a a') : a'.current = a.current := by
  obtain ⟨new, rfl, -⟩ := h
  rfl

theorem Logged.last (h : Logged X a a') : a'.last = a.last := by
  obtain ⟨new, rfl, -⟩ := h
  rfl

theorem Logged.quarantine (h : Logged X a a') : a'.quarantine = a.quarantine := by
  obtain ⟨new, rfl, -⟩ := h
  rfl

theorem Logged.commits (h : Logged X a a') : commits a'.trace = commits a.trace := by
  obtain ⟨new, rfl, hnew⟩ := h
  induction new with
  | nil => rfl
  | cons event new ih =>
    rw [List.cons_append, commits_plain (hnew event (by simp)).1]
    exact ih fun e he => hnew e (by simp [he])

end Logged

/-! ## The invariant -/

/-- Every committed plan's revision is at most this one. -/
def Books.Top (a : Books Doc) (revision : ConfigRevision) : Prop :=
  ∀ p ∈ commits a.trace, revisionKey p.revision ≤ revisionKey revision

/-- Every committed plan's revision is before this one. -/
def Books.Below (a : Books Doc) (revision : ConfigRevision) : Prop :=
  ∀ p ∈ commits a.trace, revisionKey p.revision < revisionKey revision

/-- What is known of a plan that is, or could again be, the current one. -/
structure Books.Held (a : Books Doc) (plan : EpochPlan Doc) : Prop where
  top : a.Top plan.revision
  le_last : plan.revision.epoch.get ≤ a.last

/-- An epoch that no commit has used. -/
structure Books.Fresh (a : Books Doc) (epoch : Epoch) : Prop where
  above : ∀ p ∈ commits a.trace, p.revision.epoch.get < epoch.get
  le_last : epoch.get ≤ a.last

structure Books.Standing (a : Books Doc) (active : Active Doc) : Prop where
  aligned : active.inst.epoch = active.plan.revision.epoch
  retained : a.lastSpec = some active.plan.sourceSpec
  held : a.Held active.plan

/-- Where a transaction began: the plan that was current, the quarantined
epochs and the history; and whether the transaction is a recovery. -/
structure Context (Doc : Type) where
  old : Option (EpochPlan Doc)
  entries : List QuarantinedEpoch
  base : List (Event Doc)
  recovery : Bool

def Books.context (a : Books Doc) (recovery : Bool) : Context Doc :=
  ⟨a.current.map Active.plan, a.quarantine, a.trace, recovery⟩

/-- The epoch has an entry. -/
def Latched (list : List QuarantinedEpoch) (epoch : Epoch) : Prop := ∃ q ∈ list, q.epoch = epoch

instance (list : List QuarantinedEpoch) (epoch : Epoch) : Decidable (Latched list epoch) :=
  inferInstanceAs (Decidable (∃ q ∈ list, _))

/-- What the transaction did so far: it went back to no plan but the old one,
released nothing outside a recovery, and no entry left without its release. -/
structure Since (c : Context Doc) (list : List QuarantinedEpoch) (trace new : List (Event Doc)) :
    Prop where
  trace : trace = new ++ c.base
  rollbacks : ∀ plan, .committed plan true ∈ new → c.old = some plan
  releases : ∀ epoch, .released epoch ∈ new → c.recovery = true
  kept : ∀ epoch, Latched c.entries epoch → Latched list epoch ∨ .released epoch ∈ new

/-- Unconfirmed epochs outside quarantine are in `E`. -/
structure Good (c : Context Doc) (E : Set Epoch) (a : Books Doc) : Prop where
  standing : ∀ active, a.current = some active → a.Standing active
  bounded : ∀ p ∈ commits a.trace, p.revision.epoch.get ≤ a.last
  seeded : ∀ n ∈ found a.trace, n ≤ a.last
  disciplined : Disciplined a.trace
  settled : ∀ epoch, Unconfirmed latchedSite a.trace epoch → epoch ∈ E ∨ Latched a.quarantine epoch
  unique : (a.quarantine.map QuarantinedEpoch.epoch).Nodup
  proven : ∀ q ∈ a.quarantine, q.deathProven = true → Dead a.trace q.epoch
  justified : Justified a.trace
  since : ∃ new, Since c a.quarantine a.trace new

section Good

variable {c c' : Context Doc} {E E' X : Set Epoch} {a a' : Books Doc} {epoch : Epoch}
  {inst : Instance} {plan : EpochPlan Doc}

theorem Good.mono (h : Good c E a) (hE : E ⊆ E') : Good c E' a :=
  { h with settled := fun e hu => (h.settled e hu).imp_left fun he => hE he }

/-- A new transaction begins. -/
theorem Good.rebase (recovery : Bool) (h : Good c E a) : Good (a.context recovery) E a :=
  { h with since := ⟨[], rfl, by simp, by simp, fun _ hl => .inl hl⟩ }

/-- An event that is neither a rollback nor a release. -/
theorem Since.log {event : Event Doc} {list : List QuarantinedEpoch}
    {trace new : List (Event Doc)} (h : Since c list trace new)
    (hc : ∀ plan, event ≠ .committed plan true) (hr : ∀ epoch, event ≠ .released epoch) :
    Since c list (event :: trace) (event :: new) where
  trace := congrArg (event :: ·) h.trace
  rollbacks := by
    intro plan hm
    rcases List.mem_cons.1 hm with he | hm
    · exact absurd he.symm (hc plan)
    · exact h.rollbacks plan hm
  releases := by
    intro epoch hm
    rcases List.mem_cons.1 hm with he | hm
    · exact absurd he.symm (hr epoch)
    · exact h.releases epoch hm
  kept := fun epoch hl => (h.kept epoch hl).imp_right (List.mem_cons_of_mem _)

theorem Books.Held.logged (h : a.Held plan) (hl : Logged X a a') : a'.Held plan := by
  refine ⟨?_, ?_⟩
  · intro p hp
    rw [hl.commits] at hp
    exact h.top p hp
  · rw [hl.last]
    exact h.le_last

theorem Books.Fresh.logged (h : a.Fresh epoch) (hl : Logged X a a') : a'.Fresh epoch := by
  refine ⟨?_, ?_⟩
  · intro p hp
    rw [hl.commits] at hp
    exact h.above p hp
  · rw [hl.last]
    exact h.le_last

theorem Books.Standing.same {active : Active Doc} (h : a.Standing active)
    (last : a.last ≤ a'.last) (spec : a'.lastSpec = a.lastSpec)
    (hc : commits a'.trace = commits a.trace) : a'.Standing active := by
  refine ⟨h.aligned, spec.trans h.retained, ⟨?_, le_trans h.held.le_last last⟩⟩
  intro p hp
  rw [hc] at hp
  exact h.held.top p hp

theorem Good.log {event : Event Doc} (h : Good c E a) (hp : event.isPlain = true)
    (hr : ∀ e, event.Reports latchedSite e → e ∈ E) : Good c E (a.log event) where
  standing := by
    intro active hc
    exact (h.standing active hc).same le_rfl rfl (commits_plain hp)
  bounded := by
    simp only [Books.log, commits_plain hp]
    exact h.bounded
  seeded := by
    simp only [Books.log, found_plain hp]
    exact h.seeded
  disciplined := (disciplined_plain hp).2 h.disciplined
  settled := by
    intro e hu
    rcases (unconfirmed_plain hp).1 hu with hu | hu
    · exact .inl (hr e hu)
    · exact h.settled e hu
  unique := h.unique
  proven := fun q hq hd => (h.proven q hq hd).plain hp
  justified := (justified_plain hp).2 h.justified
  since := by
    obtain ⟨new, hnew⟩ := h.since
    refine ⟨event :: new, hnew.log ?_ ?_⟩
    · rintro plan rfl
      cases hp
    · rintro epoch rfl
      cases hp

theorem Good.cleaned (h : Good c E a) : Good c E (a.log (.cleaned epoch)) :=
  h.log rfl fun _ hr => False.elim hr

theorem Good.reaped {outcome : OrphanReapOutcome} (h : Good c E a) :
    Good c E (a.log (.reaped epoch outcome)) :=
  h.log rfl fun _ hr => False.elim hr

theorem Good.logged (h : Good c E a) (hl : Logged X a a') : Good c (E ∪ X) a' := by
  obtain ⟨new, rfl, hnew⟩ := hl
  induction new with
  | nil => exact h.mono Set.subset_union_left
  | cons event new ih =>
    have hrest := ih fun e he => hnew e (by simp [he])
    obtain ⟨hp, hr⟩ := hnew event (by simp)
    exact hrest.log hp fun e he => .inr (hr e he)

/-- Nothing is reported. -/
theorem Good.quiet (h : Good c E a) (hl : Logged ∅ a a') : Good c E a' := by
  simpa using h.logged hl

theorem Good.take (h : Good c E a) : Good c E { a with current := none } :=
  { h with standing := by simp }

/-! ### Quarantine -/

theorem map_updateEntry {list : List QuarantinedEpoch} {f : QuarantinedEpoch → QuarantinedEpoch}
    (hf : ∀ q, (f q).epoch = q.epoch) {e : Epoch} :
    (updateEntry e f list).map QuarantinedEpoch.epoch = list.map QuarantinedEpoch.epoch := by
  induction list with
  | nil => rfl
  | cons q rest ih =>
    simp only [updateEntry]
    split
    · simp [hf]
    · simp [ih]

/-- An entry is a former one, or the changed entry of its epoch. -/
theorem mem_updateEntry {list : List QuarantinedEpoch} {f : QuarantinedEpoch → QuarantinedEpoch}
    {e : Epoch} {q : QuarantinedEpoch} (h : q ∈ updateEntry e f list) :
    q ∈ list ∨ ∃ old ∈ list, old.epoch = e ∧ q = f old := by
  induction list with
  | nil => cases h
  | cons x rest ih =>
    simp only [updateEntry] at h
    split at h
    · rename_i hx
      rcases List.mem_cons.1 h with rfl | h
      · exact .inr ⟨x, by simp, hx, rfl⟩
      · exact .inl (by simp [h])
    · rcases List.mem_cons.1 h with rfl | h
      · exact .inl (by simp)
      · rcases ih h with h | ⟨old, ho, he, hq⟩
        · exact .inl (by simp [h])
        · exact .inr ⟨old, by simp [ho], he, hq⟩

theorem latched_iff {list : List QuarantinedEpoch} {e : Epoch} :
    Latched list e ↔ e ∈ list.map QuarantinedEpoch.epoch := by
  simp [Latched]

theorem latched_updateEntry {list : List QuarantinedEpoch}
    {f : QuarantinedEpoch → QuarantinedEpoch} (hf : ∀ q, (f q).epoch = q.epoch) {e e' : Epoch} :
    Latched (updateEntry e f list) e' ↔ Latched list e' := by
  rw [latched_iff, latched_iff, map_updateEntry hf]

theorem latched_recordQuarantine {list : List QuarantinedEpoch} {e e' : Epoch} {reason : String} :
    Latched (recordQuarantine list e reason) e' ↔ e = e' ∨ Latched list e' := by
  simp only [recordQuarantine]
  split
  · rename_i hany
    obtain ⟨q, hq, he⟩ := List.any_eq_true.1 hany
    rw [latched_updateEntry (f := fun q => { q with reason }) fun _ => rfl]
    constructor
    · exact .inr
    · rintro (rfl | h)
      · exact ⟨q, hq, by simpa using he⟩
      · exact h
  · simp [Latched, or_and_right, exists_or, or_comm, eq_comm]

theorem nodup_recordQuarantine {list : List QuarantinedEpoch} {e : Epoch} {reason : String}
    (h : (list.map QuarantinedEpoch.epoch).Nodup) :
    ((recordQuarantine list e reason).map QuarantinedEpoch.epoch).Nodup := by
  simp only [recordQuarantine]
  split
  · rw [map_updateEntry (f := fun q => { q with reason }) fun _ => rfl]
    exact h
  · rename_i hany
    rw [List.map_append]
    refine List.nodup_append.2 ⟨h, by simp, ?_⟩
    intro x hx y hy hxy
    obtain ⟨q, hq, rfl⟩ := List.mem_map.1 hx
    obtain rfl : y = e := by simpa using hy
    exact hany (List.any_eq_true.2 ⟨q, hq, by simpa using hxy⟩)

/-- Recording proves no death. -/
theorem proven_recordQuarantine {list : List QuarantinedEpoch} {e : Epoch} {reason : String}
    {q : QuarantinedEpoch} (hq : q ∈ recordQuarantine list e reason)
    (hd : q.deathProven = true) : ∃ old ∈ list, old.epoch = q.epoch ∧ old.deathProven = true := by
  simp only [recordQuarantine] at hq
  split at hq
  · rcases mem_updateEntry hq with hq | ⟨old, ho, -, rfl⟩
    · exact ⟨q, hq, rfl, hd⟩
    · exact ⟨old, ho, rfl, hd⟩
  · rcases List.mem_append.1 hq with hq | hq
    · exact ⟨q, hq, rfl, hd⟩
    · obtain rfl : q = ⟨e, reason, false⟩ := by simpa using hq
      cases hd

theorem latched_releaseEpoch {list : List QuarantinedEpoch} {e e' : Epoch} (h : Latched list e')
    (hne : e' ≠ e) : Latched (releaseEpoch list e) e' := by
  obtain ⟨q, hq, rfl⟩ := h
  exact ⟨q, List.mem_filter.2 ⟨hq, by simpa using hne⟩, rfl⟩

/-- The quarantine changes and keeps its epochs. -/
theorem Since.requarantine {list list' : List QuarantinedEpoch} {trace new : List (Event Doc)}
    (h : Since c list trace new) (hl : ∀ e, Latched list e → Latched list' e) :
    Since c list' trace new :=
  { h with kept := fun e he => (h.kept e he).imp_left (hl e) }

theorem Good.record {reason : String} (h : Good c (insert epoch E) a) :
    Good c E { a with quarantine := recordQuarantine a.quarantine epoch reason } :=
  { h with
    standing := fun active hc => (h.standing active hc).same le_rfl rfl rfl
    settled := by
      intro e hu
      rcases h.settled e hu with (rfl | he) | hq
      · exact .inr (latched_recordQuarantine.2 (.inl rfl))
      · exact .inl he
      · exact .inr (latched_recordQuarantine.2 (.inr hq))
    unique := nodup_recordQuarantine h.unique
    proven := by
      intro q hq hd
      obtain ⟨old, ho, he, hd⟩ := proven_recordQuarantine hq hd
      rw [← he]
      exact h.proven old ho hd
    since := by
      obtain ⟨new, hnew⟩ := h.since
      exact ⟨new, hnew.requarantine fun e he => latched_recordQuarantine.2 (.inr he)⟩ }

theorem Good.proveDeath (h : Good c E a) (hdead : Dead a.trace epoch) :
    Good c E { a with quarantine := Manager.proveDeath a.quarantine epoch } := by
  have hl : ∀ e, Latched (Manager.proveDeath a.quarantine epoch) e ↔ Latched a.quarantine e :=
    fun e => latched_updateEntry (f := fun q => { q with deathProven := true }) fun _ => rfl
  exact { h with
    standing := fun active hc => (h.standing active hc).same le_rfl rfl rfl
    settled := fun e hu => (h.settled e hu).imp_right (hl e).2
    unique := by
      rw [Manager.proveDeath, map_updateEntry (f := fun q => { q with deathProven := true })
        fun _ => rfl]
      exact h.unique
    proven := by
      intro q hq hd
      rcases mem_updateEntry hq with hq | ⟨old, ho, rfl, rfl⟩
      · exact h.proven q hq hd
      · exact hdead
    since := by
      obtain ⟨new, hnew⟩ := h.since
      exact ⟨new, hnew.requarantine fun e he => (hl e).2 he⟩ }

/-- A recovery releases a dead epoch whose artifacts it has just removed. -/
theorem Good.release (h : Good c E a) (hc : c.recovery = true) (hdead : Dead a.trace epoch)
    (hcleaned : ∃ earlier, a.trace = .cleaned epoch :: earlier) :
    Good c E ({ a with quarantine := releaseEpoch a.quarantine epoch }.log (.released epoch)) where
  standing := fun active hc => (h.standing active hc).same le_rfl rfl rfl
  bounded := h.bounded
  seeded := h.seeded
  disciplined := h.disciplined
  settled := by
    rintro e ⟨hne, hu⟩
    exact (h.settled e hu).imp_right fun hl => latched_releaseEpoch hl (Ne.symm hne)
  unique := h.unique.sublist (List.filter_sublist.map _)
  proven := by
    intro q hq hd
    obtain ⟨hq, hne⟩ := List.mem_filter.1 hq
    exact ⟨fun he => by simp [he] at hne, h.proven q hq hd⟩
  justified := ⟨hdead, hcleaned, h.justified⟩
  since := by
    obtain ⟨new, hnew⟩ := h.since
    refine ⟨.released epoch :: new, congrArg _ hnew.trace, ?_, fun _ _ => hc, ?_⟩
    · simpa using hnew.rollbacks
    · intro e he
      by_cases heq : e = epoch
      · exact .inr (by simp [heq])
      · rcases hnew.kept e he with hl | hr
        · exact .inl (latched_releaseEpoch hl heq)
        · exact .inr (List.mem_cons_of_mem _ hr)

/-! ### Epochs and commits -/

theorem Good.allocate (h : Good c E a) (he : epoch.get = a.last + 1) :
    Good c E ({ a with last := a.last + 1 }.log (.allocated epoch)) where
  standing := by
    intro active hc
    exact (h.standing active hc).same (Nat.le_succ _) rfl rfl
  bounded := fun p hp => Nat.le_succ_of_le (h.bounded p hp)
  seeded := fun n hn => Nat.le_succ_of_le (h.seeded n hn)
  disciplined := by
    refine ⟨?_, h.disciplined⟩
    intro n hn
    have := h.seeded n hn
    omega
  settled := by
    rintro e (hu | hu)
    · cases hu
    · exact h.settled e hu
  unique := h.unique
  proven := h.proven
  justified := h.justified
  since := by
    obtain ⟨new, hnew⟩ := h.since
    exact ⟨.allocated epoch :: new, hnew.log (fun _ h => by cases h) (fun _ h => by cases h)⟩

theorem Good.fresh (h : Good c E a) (he : epoch.get = a.last + 1) :
    ({ a with last := a.last + 1 }.log (.allocated epoch)).Fresh epoch := by
  refine ⟨?_, ?_⟩
  · intro p hp
    have := h.bounded p hp
    omega
  · simp only [Books.log]
    omega

theorem Books.Fresh.below (h : a.Fresh epoch) (hp : plan.revision.epoch = epoch) :
    a.Below plan.revision := by
  intro p hm
  refine (Prod.Lex.toLex_lt_toLex).2 (.inl ?_)
  rw [hp]
  exact h.above p hm

/-- The next generation of the same epoch. -/
theorem Books.Held.below {old : EpochPlan Doc} (h : a.Held old)
    (he : plan.revision.epoch = old.revision.epoch)
    (hg : old.revision.generation < plan.revision.generation) : a.Below plan.revision := by
  intro p hm
  refine lt_of_le_of_lt (h.top p hm) ((Prod.Lex.toLex_lt_toLex).2 (.inr ⟨?_, hg⟩))
  rw [he]

/-- A commit, new or back to the old plan. -/
theorem Good.commit (rollback : Bool) (h : Good c E a) (active : Active Doc)
    (aligned : active.inst.epoch = active.plan.revision.epoch)
    (top : a.Top active.plan.revision) (le_last : active.plan.revision.epoch.get ≤ a.last)
    (new : rollback = false → a.Below active.plan.revision)
    (old : rollback = true → c.old = some active.plan) :
    Good c E ({ a with
      current := some active
      lastSpec := some active.plan.sourceSpec }.log (.committed active.plan rollback)) where
  standing := by
    intro x hx
    obtain rfl : active = x := Option.some.inj hx
    refine ⟨aligned, rfl, ⟨?_, le_last⟩⟩
    intro p hp
    rcases List.mem_cons.1 hp with rfl | hp
    · exact le_rfl
    · exact top p hp
  bounded := by
    intro p hp
    rcases List.mem_cons.1 hp with rfl | hp
    · exact le_last
    · exact h.bounded p hp
  seeded := h.seeded
  disciplined := by
    cases rollback with
    | false => exact ⟨new rfl, h.disciplined⟩
    | true => exact h.disciplined
  settled := by
    rintro e (hu | hu)
    · cases hu
    · exact h.settled e hu
  unique := h.unique
  proven := h.proven
  justified := h.justified
  since := by
    obtain ⟨events, hnew⟩ := h.since
    refine ⟨.committed active.plan rollback :: events, congrArg _ hnew.trace, ?_, ?_, ?_⟩
    · intro p hm
      rcases List.mem_cons.1 hm with heq | hm
      · cases heq
        exact old rfl
      · exact hnew.rollbacks p hm
    · simpa using hnew.releases
    · exact fun e he => (hnew.kept e he).imp_right (List.mem_cons_of_mem _)

/-- The current plan's spec is replaced, in the plan and as the retained one. -/
theorem Good.retain {spec : InstanceSpec} (h : Good c E a) :
    Good c E { a.retainSource spec with lastSpec := some spec } :=
  { h with
    standing := by
      intro active hc
      obtain ⟨before, hb, rfl⟩ := Option.map_eq_some_iff.1 hc
      have hs := h.standing before hb
      exact ⟨hs.aligned, rfl, ⟨hs.held.top, hs.held.le_last⟩⟩ }

theorem le_foldl_max (l : List Nat) (m : Nat) : m ≤ l.foldl max m := by
  induction l generalizing m with
  | nil => exact le_rfl
  | cons x rest ih => exact le_trans (le_max_left m x) (ih _)

theorem mem_le_foldl_max {l : List Nat} {n : Nat} (h : n ∈ l) (m : Nat) : n ≤ l.foldl max m := by
  induction l generalizing m with
  | nil => cases h
  | cons x rest ih =>
    rcases List.mem_cons.1 h with rfl | h
    · exact le_trans (le_max_right m n) (le_foldl_max rest _)
    · exact ih h _

/-- A manager has just been built. -/
theorem Good.boot {numbers : List Nat} {trace : List (Event Doc)} :
    Good ⟨none, [], .built numbers :: trace, false⟩ ∅
      ⟨numbers.foldl max 0, none, none, [], .built numbers :: trace⟩ where
  standing := by simp
  bounded := by simp [commits]
  seeded := fun n hn => mem_le_foldl_max hn 0
  disciplined := trivial
  settled := by simp [Unconfirmed]
  unique := by simp
  proven := by simp
  justified := trivial
  since := ⟨[], rfl, by simp, by simp, fun _ hl => .inl hl⟩

end Good

end Chimera.Manager
