import Chimera.Manager.Transactions

/-! The books over whole runs: the apply transaction with its compensations,
the public operations, and every state that a manager's operations leave. -/

namespace Chimera.Manager
open Chimera.Model Chimera.Lib.Program Chimera.Lib.Transition

variable {Doc : Type} {c : Context Doc} {a : Books Doc} {α : Type}
  {T : Except Error α → Books Doc → Prop}

/-! ## Applying -/

theorem prepareApply_wp {setup : Setup Doc} {current : Active Doc} {input : InstanceSpec}
    {snapshot : Snapshot Doc} {T : Except Error (PreparedApply Doc) → Books Doc → Prop}
    (hg : Good c ∅ a) (he : current.plan.revision.epoch.get ≤ a.last) (error : ∀ e, T (.error e) a)
    (ok : ∀ p, p.plan.revision.epoch = current.plan.revision.epoch →
      p.plan.revision.generation = current.plan.revision.generation + 1 → T (.ok p) a) :
    (prepareApply setup current input snapshot).wp (booksReading c) T a := by
  refine Prog.wp_demand_bind nofun ?_ ?_
  · rintro e _ rfl
    exact error e
  rintro _ _ rfl
  refine Prog.wp_demand_bind nofun ?_ ?_
  · rintro e _ rfl
    exact error e
  rintro resolved a rfl
  rw [Prog.wp_bind, Prog.wp_ret]
  cases setup.prepareFull snapshot current.plan.revision.epoch resolved.runtime
      (localIpcSettings setup input) with
  | error e => exact error e
  | ok full =>
    rw [Prog.andThen_ok, Prog.wp_bind, Prog.wp_ret]
    cases nativePaths setup input full with
    | error e => exact error e
    | ok prepared =>
      refine Prog.wp_demand_bind (fun _ => ⟨rfl, he⟩) ?_ ?_
      · rintro e _ rfl
        exact error e
      rintro staged _ rfl
      refine (Prog.wp_bind ..).2 (checkStaged_wp ?_)
      rintro (e | _)
      · exact error e
      simp only [Prog.andThen_ok, Prog.wp_bind, nextGeneration]
      split
      · exact ok _ rfl rfl
      · exact expect_wp hg

/-- The plan could follow the current one in its epoch. -/
def Books.Next (a : Books Doc) (desired : EpochPlan Doc) : Prop :=
  ∀ plan, a.current.map Active.plan = some plan →
    desired.revision.epoch = plan.revision.epoch ∧
      plan.revision.generation < desired.revision.generation

theorem installAndPublish_wp {inst : Instance} {plan : EpochPlan Doc} {rollback : Bool}
    {T : Except Error Unit → Books Doc → Prop} (hg : Good c ∅ a)
    (hi : inst.epoch = plan.revision.epoch) (hh : a.Held plan ∨ a.Below plan.revision)
    (le_last : plan.revision.epoch.get ≤ a.last) (new : rollback = false → a.Below plan.revision)
    (old : rollback = true → c.old = some plan) (h : ∀ a', Good c ∅ a' → T (.ok ()) a') :
    (installAndPublish inst plan rollback).wp (booksReading c) T a := by
  refine Prog.wp_perform_bind nofun ?_
  rintro pid a rfl
  refine Prog.wp_perform_bind nofun ?_
  rintro _ _ rfl
  have top : a.Top plan.revision := by
    rcases hh with hh | hb
    · exact hh.top
    · exact fun p hp => le_of_lt (hb p hp)
  have hg₁ := hg.commit rollback ⟨inst, plan⟩ hi top le_last new old
  refine Prog.wp_mono (publishInstance_silent _ _ _ c _) ?_
  rintro r a' ⟨rfl, rfl⟩
  exact h _ hg₁

theorem retireFailed_wp {text : String} {failure : RetireFailure}
    (hg : Good c (doubtful failure.error failure.epoch) a)
    (h : ∀ e a', Good c ∅ a' → T (.error e) a') :
    (retireFailed text failure : Control Doc α).wp (booksReading c) T a := by
  unfold retireFailed
  split
  · exact latchQuarantine_wp (hg.mono (doubtful_subset _ _)) (h _)
  · rename_i hne
    exact publishAndFail_wp (h _ _ (hg.mono (doubtful_of_not hne)))

theorem rollBack_good {oldPlan : EpochPlan Doc} {applyText text : String}
    {onSuccess : Control Doc Unit} (hg : Good c ∅ a) (hh : a.Held oldPlan)
    (hold : c.old = some oldPlan) (hs : Silent onSuccess) :
    (rollBack oldPlan applyText text onSuccess).wp (booksReading c)
      (fun _ a' => Good c ∅ a') a := by
  refine Prog.wp_perform_bind nofun ?_
  rintro _ _ rfl
  refine Prog.wp_attempt_seq (spawnReplacement_spec oldPlan) ?_
  rintro (error | inst) a₁ hr
  · have hg₁ := hg.replacement_failed hr
    simp only
    split
    · exact latchQuarantine_wp (hg₁.mono (doubtful_subset _ _)) fun a' h => h
    · rename_i hne
      exact publishAndFail_wp (hg₁.mono (doubtful_of_not hne))
  · have hh₁ := hh.logged hr.2
    refine (Prog.wp_bind ..).2 (installAndPublish_wp (hg.quiet hr.2) hr.1 (.inl hh₁) hh₁.le_last
      nofun (fun _ => hold) ?_)
    intro a₂ hg₂
    exact hs.then hg₂

theorem rollBackRestart_good {oldPlan : EpochPlan Doc} {saved : Backup} {applyText : String}
    (hg : Good c ∅ a) (hh : a.Held oldPlan) (hold : c.old = some oldPlan) :
    (rollBackRestart oldPlan saved applyText).wp (booksReading c) (fun _ a' => Good c ∅ a') a := by
  refine Prog.wp_perform_bind nofun ?_
  rintro (error | warning) _ rfl
  · exact publishAndFail_wp hg
  · exact Prog.wp_attempt_seq (rollBack_good hg hh hold (removeBackupQuietly_silent saved))
      fun _ _ h => h

theorem restartWithCompensation_good {desired : EpochPlan Doc} {saved : Backup} (hg : Good c ∅ a)
    (hold : c.old = a.current.map Active.plan) (hn : a.Next desired) :
    (restartWithCompensation desired saved).wp (booksReading c) (fun _ a' => Good c ∅ a') a := by
  refine Prog.wp_demand_bind nofun ?_ ?_
  · rintro e _ rfl
    exact hg
  rintro _ _ rfl
  refine retireOld_wp hg ?_ ?_
  · intro oldPlan a₁ hplan hh _ hg₁
    obtain ⟨hepoch, hgen⟩ := hn oldPlan hplan
    refine Prog.wp_perform_bind nofun ?_
    rintro _ _ rfl
    refine Prog.wp_attempt_seq (spawnReplacement_spec desired) ?_
    rintro (error | inst) a₂ hr
    · have hg₂ := hg₁.replacement_failed hr
      simp only
      split
      · exact latchQuarantine_wp (hg₂.mono (doubtful_subset _ _)) fun a' h => h
      · rename_i hne
        exact rollBackRestart_good (hg₂.mono (doubtful_of_not hne)) (hh.logged hr)
          (hold.trans hplan)
    · have hh₂ := hh.logged hr.2
      have hb := hh₂.below hepoch hgen
      refine (Prog.wp_bind ..).2 (installAndPublish_wp (hg₁.quiet hr.2) hr.1 (.inr hb)
        (by rw [hepoch]; exact hh₂.le_last) (fun _ => hb) nofun ?_)
      intro a₃ hg₃
      exact (removeBackupQuietly_silent saved).then hg₃
  · intro failure a₁ hg₁
    exact retireFailed_wp hg₁ fun _ _ h => h

theorem switchWithCompensation_good {setup : Setup Doc} {input : InstanceSpec}
    {snapshot : Snapshot Doc} (hg : Good c ∅ a) (hold : c.old = a.current.map Active.plan) :
    (switchWithCompensation setup input snapshot).wp (booksReading c)
      (fun _ a' => Good c ∅ a') a := by
  refine Prog.wp_perform_bind (fun _ => ⟨rfl, hg⟩) ?_
  rintro epoch _ ⟨he, rfl⟩
  have hg₁ := hg.allocate he
  have hf := hg.fresh he
  refine (Prog.wp_bind ..).2 (prepareLaunch_wp hf.le_last (fun _ => hg₁) ?_)
  rintro desired rfl
  refine Prog.wp_perform_bind nofun ?_
  rintro (error | _) _ rfl
  · exact (cleanupQuietly_quiet _).then fun a' hl => hg₁.quiet hl
  refine retireOld_wp hg₁ ?_ ?_
  · intro oldPlan a₂ hplan hh hfresh hg₂
    refine Prog.wp_perform_bind nofun ?_
    rintro _ _ rfl
    refine Prog.wp_attempt_seq (spawnReplacement_spec desired) ?_
    rintro (error | inst) a₃ hr
    · have hg₃ := hg₂.replacement_failed hr
      simp only
      split
      · exact latchQuarantine_wp (hg₃.mono (doubtful_subset _ _)) fun a' h => h
      · rename_i hne
        refine (cleanupQuietly_quiet _).then fun a₄ hl => ?_
        exact rollBack_good ((hg₃.mono (doubtful_of_not hne)).quiet hl)
          ((hh.logged hr).logged hl) (hold.trans hplan) fun _ _ => ⟨rfl, rfl⟩
    · have hf₃ := (hfresh _ hf).logged hr.2
      refine (Prog.wp_bind ..).2 (installAndPublish_wp (hg₂.quiet hr.2) hr.1
        (.inr (hf₃.below rfl)) hf₃.le_last (fun _ => hf₃.below rfl) nofun ?_)
      intro a₄ hg₄
      exact (cleanupQuietly_quiet _).then fun a₅ hl => hg₄.quiet hl
  · intro failure a₂ hg₂
    refine (cleanupQuietly_quiet _).then fun a₃ hl => ?_
    exact retireFailed_wp (hg₂.quiet hl) fun _ _ h => h

theorem commitChange_wp {saved : Backup} {prepared : PreparedApply Doc}
    {T : Except Error (Option String) → Books Doc → Prop} (h : ∀ r, T r a) :
    (commitChange saved prepared).wp (booksReading c) T a := by
  refine Prog.wp_perform_bind nofun ?_
  rintro (error | _) _ rfl
  · exact (removeBackupQuietly_silent _).then ((dropStagedFile_silent _).then (h _))
  refine Prog.wp_perform_bind nofun ?_
  rintro (error | _) _ rfl
  · refine Prog.wp_perform_bind nofun ?_
    rintro _ _ rfl
    exact (removeBackupQuietly_silent _).then ((dropStagedFile_silent _).then (h _))
  refine Prog.wp_perform_bind nofun ?_
  rintro current _ ⟨-, rfl⟩
  split
  · exact (dropStagedFile_silent _).then (h _)
  refine Prog.wp_perform_bind nofun ?_
  rintro (error | warning) _ rfl
  · refine Prog.wp_perform_bind nofun ?_
    rintro _ _ rfl
    exact (removeBackupQuietly_silent _).then (h _)
  · exact h _

/-- The adopted plan and its spec, once both are in the books. -/
theorem Good.adopted {active : Active Doc} {desired : EpochPlan Doc} (hg : Good c ∅ a)
    (hc : a.current = some active) (hn : a.Next desired) :
    Good c ∅ { a.adopt desired with lastSpec := some desired.sourceSpec } := by
  have hs := hg.standing active hc
  obtain ⟨hepoch, hgen⟩ := hn active.plan (by rw [hc]; rfl)
  have hb := hs.held.below hepoch hgen
  have hcommit := hg.commit false ⟨active.inst, desired⟩
    (hs.aligned.trans hepoch.symm) (fun p hp => le_of_lt (hb p hp))
    (by rw [hepoch]; exact hs.held.le_last) (fun _ => hb) nofun
  have heq : { a.adopt desired with lastSpec := some desired.sourceSpec } =
      { a with
        current := some ⟨active.inst, desired⟩
        lastSpec := some desired.sourceSpec }.log (.committed desired false) := by
    simp [Books.adopt, Books.log, hc]
  rw [heq]
  exact hcommit

theorem applyChange_good {active : Active Doc} {prepared : PreparedApply Doc}
    {outcome : ConfigRevision → ApplyOutcome} (hg : Good c ∅ a) (hc : a.current = some active)
    (hold : c.old = a.current.map Active.plan) (hn : a.Next prepared.plan) :
    (applyChange active prepared outcome).wp (booksReading c) (fun _ a' => Good c ∅ a') a := by
  refine (Prog.wp_bind ..).2 (orDrop_wp ?_)
  refine (Prog.wp_demand _).2 ⟨nofun, ?_⟩
  rintro (e | saved) a rfl
  · exact hg
  refine (Prog.wp_bind ..).2 (commitChange_wp ?_)
  rintro (e | warning)
  · exact hg
  refine Prog.wp_perform_bind nofun ?_
  rintro reconciled a rfl
  split
  · refine Prog.wp_seq (Q := fun r a' => r = .ok () ∧ Good c ∅ a') ?_ ?_ ?_
    · refine Prog.wp_perform_bind nofun ?_
      rintro _ _ rfl
      refine Prog.wp_perform_bind nofun ?_
      rintro pid _ rfl
      refine (publishInstance_silent _ _ _).then ?_
      refine Prog.wp_perform_bind nofun ?_
      rintro _ _ rfl
      refine Prog.wp_mono (removeBackupQuietly_silent saved c _) ?_
      rintro r a' ⟨rfl, rfl⟩
      exact ⟨rfl, hg.adopted hc hn⟩
    · rintro e a' ⟨-, h⟩
      exact h
    · rintro _ a' ⟨-, h⟩
      exact h
  · exact Prog.wp_attempt_seq (restartWithCompensation_good hg hold hn) fun _ _ h => h

theorem applyLocked_good {setup : Setup Doc} {input : InstanceSpec}
    {expected : Option RevisionId} (hg : Good c ∅ a) (hold : c.old = a.current.map Active.plan) :
    (applyLocked setup input expected).wp (booksReading c) (fun _ a' => Good c ∅ a') a := by
  refine Prog.wp_perform_bind (by rintro ⟨⟩) ?_
  rintro current a ⟨rfl, rfl⟩
  split
  · exact hg
  rename_i active hc
  refine Prog.wp_perform_bind (by rintro ⟨⟩) ?_
  rintro status a rfl
  split
  · exact hg
  simp only
  split
  · exact hg
  refine Prog.wp_demand_bind (by rintro ⟨⟩) ?_ ?_
  · rintro e _ rfl
    exact hg
  rintro snapshot a rfl
  refine (Prog.wp_bind ..).2 (prepareApply_wp hg (hg.standing active hc).held.le_last
    (fun _ => hg) ?_)
  intro prepared hepoch hgen
  have hn : a.Next prepared.plan := by
    intro plan hplan
    rw [hc] at hplan
    obtain rfl : active.plan = plan := Option.some.inj hplan
    exact ⟨hepoch, by omega⟩
  simp only [Prog.andThen_ok]
  split
  · exact (dropStagedFile_silent _).then hg
  · refine Prog.wp_perform_bind (by rintro ⟨⟩) ?_
    rintro _ _ rfl
    refine Prog.wp_perform_bind (by rintro ⟨⟩) ?_
    rintro _ _ rfl
    exact (dropStagedFile_silent _).then hg.retain
  · exact (dropStagedFile_silent _).then (switchWithCompensation_good hg hold)
  · exact applyChange_good hg hc hold hn
  · exact applyChange_good hg hc hold hn

/-! ## Operations -/

theorem finishDnsConverge_wp {result : Except Error α} (h : ∀ r, T r a) :
    (finishDnsConverge result).wp (booksReading c) T a := by
  refine (Prog.wp_bind ..).2 (runtimeAlive_wp ?_)
  intro alive
  simp only [Prog.andThen_ok]
  split
  · refine Prog.wp_perform_bind (by rintro ⟨⟩) ?_
    rintro dns _ rfl
    exact h _
  · exact h _

theorem rejectQuarantine_wp {T : Except Error Unit → Books Doc → Prop} (error : ∀ e, T (.error e) a)
    (ok : T (.ok ()) a) : (rejectQuarantine : Control Doc Unit).wp (booksReading c) T a := by
  refine Prog.wp_perform_bind nofun ?_
  rintro list _ ⟨-, rfl⟩
  split
  · exact error _
  · exact ok

/-- A gated transaction with its converge tail. -/
theorem converged_good {p : Control Doc α} (hp : p.wp (booksReading c) (fun _ a' => Good c ∅ a') a) :
    (p.attempt >>= finishDnsConverge).wp (booksReading c) (fun _ a' => Good c ∅ a') a :=
  Prog.wp_attempt_seq hp fun _ _ h => finishDnsConverge_wp fun _ => h

theorem start_good {setup : Setup Doc} {spec : InstanceSpec} (hg : Good c ∅ a) :
    (start setup spec).wp (booksReading c) (fun _ a' => Good c ∅ a') a := by
  refine (Prog.wp_bind ..).2 (rejectQuarantine_wp (fun _ => hg) ?_)
  refine (Prog.wp_bind ..).2 (runtimeAlive_wp ?_)
  intro alive
  simp only [Prog.andThen_ok]
  split
  · exact hg
  · refine Prog.wp_seq (discardStale_good hg) (fun _ _ h => h) ?_
    intro _ a₁ hg₁
    exact converged_good (startLocked_good hg₁)

theorem switch_good {setup : Setup Doc} {spec : InstanceSpec} (hg : Good c ∅ a) :
    (switch setup spec).wp (booksReading c) (fun _ a' => Good c ∅ a') a :=
  (Prog.wp_bind ..).2 (rejectQuarantine_wp (fun _ => hg) (converged_good (switchLocked_good hg)))

theorem restart_good {setup : Setup Doc} (hg : Good c ∅ a) :
    (restart setup).wp (booksReading c) (fun _ a' => Good c ∅ a') a := by
  refine (Prog.wp_bind ..).2 (rejectQuarantine_wp (fun _ => hg) ?_)
  refine Prog.wp_perform_bind nofun ?_
  rintro spec _ ⟨-, rfl⟩
  split
  · exact hg
  · exact converged_good (switchLocked_good hg)

theorem applyConfig_good {setup : Setup Doc} {input : InstanceSpec} {expected : Option RevisionId}
    (hg : Good c ∅ a) (hold : c.old = a.current.map Active.plan) :
    (applyConfig setup input expected).wp (booksReading c) (fun _ a' => Good c ∅ a') a :=
  (Prog.wp_bind ..).2
    (rejectQuarantine_wp (fun _ => hg) (converged_good (applyLocked_good hg hold)))

theorem reconcileLocked_good {setup : Setup Doc} {spec : InstanceSpec}
    {expected : Option RevisionId} (hg : Good c ∅ a) (hold : c.old = a.current.map Active.plan) :
    (reconcileLocked setup spec expected).wp (booksReading c) (fun _ a' => Good c ∅ a') a := by
  refine (Prog.wp_bind ..).2 (runtimeAlive_wp ?_)
  intro alive
  simp only [Prog.andThen_ok]
  split
  · exact applyLocked_good hg hold
  · split
    · exact hg
    · refine Prog.wp_seq (discardStale_good hg) (fun _ _ h => h) ?_
      intro _ a₁ hg₁
      refine Prog.wp_seq (startLocked_good hg₁) (fun _ _ h => h) ?_
      intro _ a₂ hg₂
      refine Prog.wp_perform_bind (by rintro ⟨⟩) ?_
      rintro current _ ⟨-, rfl⟩
      split
      · exact hg₂
      · exact expect_wp hg₂

theorem reconcile_good {setup : Setup Doc} {spec : InstanceSpec} {expected : Option RevisionId}
    (hg : Good c ∅ a) (hold : c.old = a.current.map Active.plan) :
    (reconcile setup spec expected).wp (booksReading c) (fun _ a' => Good c ∅ a') a :=
  (Prog.wp_bind ..).2
    (rejectQuarantine_wp (fun _ => hg) (converged_good (reconcileLocked_good hg hold)))

/-! ## Recovery -/

section Recovery

variable {P : Books Doc → Prop} {entry : QuarantinedEpoch}

/-- What the recovery of one entry leaves of the others, and of its own epoch
when it fails. -/
structure Recovered (c : Context Doc) (epoch : Epoch) (a : Books Doc) (failure : Option String)
    (a' : Books Doc) : Prop where
  good : Good c ∅ a'
  dead : ∀ e ≠ epoch, Dead a.trace e → Dead a'.trace e
  latched : ∀ e, failure.isSome ∨ e ≠ epoch → Latched a.quarantine e → Latched a'.quarantine e

/-- A recovery of an epoch ends well. -/
def RecoveredOk (c : Context Doc) (epoch : Epoch) (a : Books Doc)
    (r : Except Error (Option String)) (a' : Books Doc) : Prop :=
  ∃ failure, r = .ok failure ∧ Recovered c epoch a failure a'

theorem cleanupEntry_spec (hg : Good c ∅ a) (hc : c.recovery = true)
    (hdead : Dead a.trace entry.epoch) :
    (cleanupEntry entry).wp (readBooks P) (RecoveredOk c entry.epoch a) a := by
  refine Prog.wp_perform_bind nofun ?_
  rintro (error | _) a rfl
  · exact ⟨_, rfl, hg, fun _ _ h => h, fun _ _ h => h⟩
  refine Prog.wp_perform_bind nofun ?_
  rintro _ _ rfl
  refine ⟨_, rfl, hg.cleaned.release hc hdead ⟨_, rfl⟩, ?_, ?_⟩
  · exact fun e hne h => ⟨Ne.symm hne, h⟩
  · rintro e (hf | hne) h
    · cases hf
    · exact latched_releaseEpoch h hne

theorem recoverEntry_spec (hg : Good c ∅ a) (hc : c.recovery = true)
    (hdead : entry.deathProven = true → Dead a.trace entry.epoch) :
    (recoverEntry entry).wp (readBooks P) (RecoveredOk c entry.epoch a) a := by
  unfold recoverEntry
  split
  · rename_i hd
    exact cleanupEntry_spec hg hc (hdead hd)
  refine Prog.wp_perform_bind nofun ?_
  rintro (error | outcome) a₁ rfl
  · exact ⟨_, rfl, hg, fun _ _ h => h, fun _ _ h => h⟩
  have proven (ho : outcome ≠ .notFound) :
      (perform (.proveDeath entry.epoch) >>= fun _ => cleanupEntry entry :
        Control Doc (Option String)).wp (readBooks P) (RecoveredOk c entry.epoch a)
        (a.log (.reaped entry.epoch outcome)) := by
    have hdead : Dead (a.log (.reaped entry.epoch outcome)).trace entry.epoch := .inl ⟨rfl, ho⟩
    refine Prog.wp_perform_bind nofun ?_
    rintro _ _ rfl
    refine Prog.wp_mono (cleanupEntry_spec (hg.reaped.proveDeath hdead) hc hdead) ?_
    rintro r a' ⟨failure, rfl, h⟩
    refine ⟨failure, rfl, h.good, fun e hne hd => h.dead e hne (.inr hd), fun e he hl => ?_⟩
    exact h.latched e he ((latched_updateEntry
      (f := fun q => { q with deathProven := true }) fun _ => rfl).2 hl)
  cases outcome with
  | notFound => exact ⟨_, rfl, hg.reaped, fun _ _ h => .inr h, fun _ _ h => h⟩
  | alreadyExited => exact proven (by simp)
  | killed => exact proven (by simp)

/-- The loop. Its entries are distinct, so the recovery of one leaves the next
as the snapshot has it. -/
theorem recoverEntries_spec {entries : List QuarantinedEpoch} (hg : Good c ∅ a)
    (hc : c.recovery = true) (hnodup : (entries.map QuarantinedEpoch.epoch).Nodup)
    (hdead : ∀ q ∈ entries, q.deathProven = true → Dead a.trace q.epoch)
    (hlatched : ∀ q ∈ entries, Latched a.quarantine q.epoch) :
    (recoverEntries entries).wp (readBooks P) (fun r a' => ∃ failures, r = .ok failures ∧
      Good c ∅ a' ∧ (failures ≠ [] → a'.quarantine ≠ []) ∧
      ∀ e ∉ entries.map QuarantinedEpoch.epoch, Latched a.quarantine e → Latched a'.quarantine e)
      a := by
  induction entries generalizing a with
  | nil => exact ⟨[], rfl, hg, by simp, fun _ _ h => h⟩
  | cons entry rest ih =>
    obtain ⟨hnot, hrest⟩ := List.nodup_cons.1 hnodup
    have hne : ∀ q ∈ rest, q.epoch ≠ entry.epoch := by
      intro q hq he
      exact hnot (he ▸ List.mem_map_of_mem hq)
    refine Prog.wp_seq (recoverEntry_spec hg hc (hdead entry (by simp))) ?_ ?_
    · rintro e a' ⟨failure, hr, -⟩
      cases hr
    rintro failure a₁ ⟨_, hr, h₁⟩
    cases hr
    refine Prog.wp_seq (ih h₁.good hrest ?_ ?_) ?_ ?_
    · intro q hq hd
      exact h₁.dead _ (hne q hq) (hdead q (by simp [hq]) hd)
    · intro q hq
      exact h₁.latched _ (.inr (hne q hq)) (hlatched q (by simp [hq]))
    · rintro e a' ⟨failures, hr, -⟩
      cases hr
    rintro failures a₂ ⟨_, hr, hg₂, hfail, hkept⟩
    cases hr
    refine ⟨_, rfl, hg₂, ?_, ?_⟩
    · intro hany
      cases failure with
      | none => exact hfail (by simpa using hany)
      | some text =>
        have hl := hkept entry.epoch hnot (h₁.latched _ (.inl rfl) (hlatched entry (by simp)))
        obtain ⟨q, hq, -⟩ := hl
        exact List.ne_nil_of_mem hq
    · intro e he hl
      simp only [List.map_cons, List.mem_cons, not_or] at he
      exact hkept e he.2 (h₁.latched e (.inr he.1) hl)

/-- A recovery never panics: its books are in order whatever a panic needs. -/
theorem recoverQuarantine_spec (hg : Good c ∅ a) (hc : c.recovery = true) :
    (recoverQuarantine : Control Doc Unit).wp (readBooks P) (fun _ a' => Good c ∅ a') a := by
  refine Prog.wp_perform_bind nofun ?_
  rintro quarantined _ ⟨rfl, rfl⟩
  split
  · exact hg
  refine Prog.wp_seq (recoverEntries_spec hg hc hg.unique hg.proven
    fun q hq => ⟨q, hq, rfl⟩) ?_ ?_
  · rintro e a' ⟨_, hr, -⟩
    cases hr
  rintro failures a₁ ⟨_, hr, hg₁, hfail, -⟩
  cases hr
  split
  · refine Prog.wp_demand_bind nofun ?_ ?_
    · rintro e _ rfl
      exact hg₁
    rintro _ _ rfl
    refine (Prog.wp_perform _).2 ⟨nofun, ?_⟩
    rintro _ _ rfl
    exact hg₁
  · rename_i hany
    refine Prog.wp_perform_bind nofun ?_
    rintro list _ ⟨rfl, rfl⟩
    split
    · exact hg₁
    · rename_i hnil
      exact absurd hnil (hfail (by simpa using hany))

end Recovery

/-- The context of an operation that begins with these books. -/
def Command.context (command : Command) (a : Books Doc) : Context Doc :=
  a.context (match command with
    | .recoverQuarantine => true
    | _ => false)

/-- Every operation of the manager. -/
theorem program_good (setup : Setup Doc) (command : Command) (hg : Good (command.context a) ∅ a) :
    (program setup command).wp (booksReading (command.context a))
      (fun _ a' => Good (command.context a) ∅ a') a := by
  cases command with
  | start spec => exact Prog.wp_seq (start_good hg) (fun _ _ h => h) fun _ _ h => h
  | stop => exact Prog.wp_seq (stop_good hg) (fun _ _ h => h) fun _ _ h => h
  | shutdown => exact Prog.wp_seq (shutdown_good hg) (fun _ _ h => h) fun _ _ h => h
  | switch spec => exact Prog.wp_seq (switch_good hg) (fun _ _ h => h) fun _ _ h => h
  | restart => exact Prog.wp_seq (restart_good hg) (fun _ _ h => h) fun _ _ h => h
  | applyConfig spec expected =>
    exact Prog.wp_seq (applyConfig_good hg rfl) (fun _ _ h => h) fun _ _ h => h
  | reconcile spec expected =>
    exact Prog.wp_seq (reconcile_good hg rfl) (fun _ _ h => h) fun _ _ h => h
  | recoverQuarantine =>
    exact Prog.wp_seq (recoverQuarantine_spec hg rfl) (fun _ _ h => h) fun _ _ h => h

/-! ## Every run -/

section Reachable

variable {setup : Setup Doc} {env : Env Doc} {artifacts : Directory}
  {recordFile : Option (List UInt8)} {recordStaging : Option RecordStaging} {s t : System Doc}

/-- An operation that does not crash the manager leaves the books in order,
whether it returns or panics. -/
theorem call_good {command : Command} {w u : World Doc} {r : Except Abort (Except Error Reply)}
    (hg : Good (command.context w.books) ∅ w.books)
    (hr : exec (handle setup env) (program setup command) w = (r, u)) (hc : r ≠ .error .crash) :
    Good (command.context w.books) ∅ u.books := by
  have hwp := program_good setup command hg
  have hG : Along (handle setup env) (fun _ _ => True) (program setup command) w :=
    along_of_forall (h := handle setup env) (fun _ _ => trivial) _
  have hsound := readBooks_sound setup env (Good (command.context w.books) ∅)
  rcases r with (_ | message) | r
  · exact absurd rfl hc
  · obtain ⟨β, op, v, hpre, hop⟩ := hsound.aborts hG hwp hr
    obtain ⟨hpanic, rfl⟩ := handle_panic hop
    exact Op.needs_panic hpanic (hpre (by rw [hpanic, Bool.true_or, Bool.true_or])).2
  · exact hsound.returns hG hwp hr

/-- An operation of a manager constructs nothing. -/
theorem call_constructs_nothing (setup : Setup Doc) (env : Env Doc) {command : Command}
    {w : World Doc}
    (hg : Good (command.context w.books) ∅ w.books) :
    Along (handle setup env) (fun op _ => op.constructs = false) (program setup command) w := by
  have hG : Along (handle setup env) (fun _ _ => True) (program setup command) w :=
    along_of_forall (h := handle setup env) (fun _ _ => trivial) _
  refine ((readBooks_sound setup env (Good (command.context w.books) ∅)).along hG
    (program_good setup command hg)).mono ?_
  intro β op u hpre
  by_contra hop
  rw [Bool.not_eq_false] at hop
  have hconstructs := (hpre (by rw [hop, Bool.or_true, Bool.true_or])).1
  rw [hop] at hconstructs
  cases hconstructs

/-- How a construction ends: with the books of a new manager. -/
theorem build_books {w u : World Doc}
    (hr : exec (handle setup env) build w = (.ok (.ok ()), u)) :
    ∃ numbers trace, u.books = ⟨numbers.foldl max 0, none, none, [], .built numbers :: trace⟩ := by
  have freely : Reading.Sound (⟨Books.step, fun _ _ => True⟩ : Reading (Op Doc) (Books Doc))
      (handle setup env) (fun _ _ => True) World.books :=
    ⟨fun op w t b _ h => books_step setup env op w t b h⟩
  have boots : (build : Control Doc Unit).wp ⟨Books.step, fun _ _ => True⟩ (fun r a' => r = .ok () →
      ∃ numbers trace, a' = ⟨numbers.foldl max 0, none, none, [], .built numbers :: trace⟩)
      w.books := by
    refine Prog.wp_demand_bind trivial (fun e a' _ h => by cases h) ?_
    intro numbers a₁ _
    refine Prog.wp_seq (Prog.wp_true fun _ _ => trivial) (fun e a' _ h => by cases h) ?_
    intro _ a₂ _
    refine Prog.wp_perform_bind trivial ?_
    intro _ a₃ _
    refine (Prog.wp_perform _).2 ⟨trivial, ?_⟩
    rintro _ _ rfl -
    exact ⟨numbers, a₃.trace, rfl⟩
  exact freely.returns (along_of_forall (h := handle setup env) (fun _ _ => trivial) _) boots hr rfl

/-- While a manager is there, its books are in order, for whatever comes next. -/
theorem reachable_good
    (hs : (manager setup env artifacts recordFile recordStaging).Reachable s) (hup : s.up = true)
    (recovery : Bool) : Good (s.world.books.context recovery) ∅ s.world.books := by
  revert hup
  suffices h : s.up = true → ∃ c, Good c ∅ s.world.books by
    intro hup
    obtain ⟨c, hg⟩ := h hup
    exact hg.rebase recovery
  refine hs.invariant (I := fun s => s.up = true → ∃ c, Good c ∅ s.world.books)
    (by simp [manager]) ?_
  intro s label t ih _ hstep hup
  rcases System.step_cases hstep with
    ⟨-, -, r, hr, hiff⟩ | ⟨command, -, hs, r, hr, hiff⟩ | ⟨-, rfl⟩
  · obtain rfl := hiff.1 hup
    obtain ⟨numbers, trace, hb⟩ := build_books hr
    exact ⟨_, hb ▸ Good.boot⟩
  · have hc : r ≠ .error .crash := by
      intro hcrash
      rw [hiff.2 hcrash] at hup
      cases hup
    obtain ⟨c, hg⟩ := ih hs
    exact ⟨_, call_good (hg.rebase _) hr hc⟩
  · simpa using ih hup

/-- What an operation did to the books of a manager that lives on. -/
theorem call_since {command : Command} (hs : (manager setup env artifacts recordFile
    recordStaging).Reachable s) (hstep : s.step setup env (.call command) = some t)
    (hup : t.up = true) :
    ∃ new, Since (command.context s.world.books) t.world.books.quarantine t.world.books.trace
      new := by
  rcases System.step_cases hstep with
    ⟨h, -⟩ | ⟨other, h, hs', r, hr, hiff⟩ | ⟨h, -⟩
  · cases h
  · cases h
    have hc : r ≠ .error .crash := by
      intro hcrash
      rw [hiff.2 hcrash] at hup
      cases hup
    exact (call_good (reachable_good hs hs' _) hr hc).since
  · cases h

end Reachable

end Chimera.Manager
