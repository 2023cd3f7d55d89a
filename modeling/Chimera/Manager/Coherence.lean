import Chimera.Manager.Session

/-! Every transaction publishes each state with its own epoch's plan, so a
session shows no state beside another epoch's revision. -/

namespace Chimera.Manager
open Chimera.Model Chimera.Lib.Program Chimera.Lib.Transition

variable {Doc : Type} {α : Type} {P : α → Prop} {pin : Option Epoch} {setup : Setup Doc}

/-! ## Preparing and starting -/

theorem planFor_epoch {spec : InstanceSpec} {epoch : Epoch} {generation : Nat} {path : Utf8Path}
    {resolved : ResolvedFeatures} {snapshot : Snapshot Doc} {prepared : Prepared Doc} :
    (planFor setup spec epoch generation path resolved snapshot prepared).revision.epoch = epoch :=
  rfl

theorem prepareLaunchWithFeatures_yields {spec : InstanceSpec} {epoch : Epoch}
    {snapshot : Snapshot Doc} {resolved : ResolvedFeatures} :
    Yields pin (fun plan => plan.revision.epoch = epoch)
      (prepareLaunchWithFeatures setup spec epoch snapshot resolved) := by
  refine (ret_publishes _).bind fun full _ => ?_
  refine (ret_publishes _).bind fun prepared _ => ?_
  refine Yields.demanded rfl fun staged => ?_
  refine (checkStaged_publishes setup spec staged).bind fun _ _ => ?_
  exact Yields.demanded rfl fun path => .pure planFor_epoch

theorem prepareLaunch_yields {spec : InstanceSpec} {epoch : Epoch} {snapshot : Snapshot Doc} :
    Yields pin (fun plan => plan.revision.epoch = epoch)
      (prepareLaunch setup spec epoch snapshot) := by
  refine Yields.demanded rfl fun _ => ?_
  exact Yields.demanded rfl fun resolved => prepareLaunchWithFeatures_yields

theorem launch_yields (site : Site) (plan : EpochPlan Doc) :
    Yields pin (fun r : Except Error Instance => ∀ inst, r = .ok inst →
      inst.epoch = plan.revision.epoch) (perform (.launch site plan)) := by
  refine Yields.perform (fun _ _ => trivial) nofun ?_
  intro a r a' _ hs inst hr
  rw [hr] at hs
  exact hs.1

/-- A plan is published under its own epoch. -/
theorem publish_publishes {state : CoreState} {plan : EpochPlan Doc}
    (h : ∀ e, carriedEpoch state = some e → plan.revision.epoch = e) :
    Publishes pin (perform (.publish state (some plan)) : Control Doc Unit) :=
  Publishes.perform (fun _ _ e he => congrArg some (h e he)) nofun

theorem install_publishes {inst : Instance} {plan : EpochPlan Doc} {rollback : Bool}
    (h : inst.epoch = plan.revision.epoch) :
    Publishes none (perform (.install inst plan rollback) : Control Doc Unit) :=
  Publishes.perform (fun _ _ => h) fun _ => rfl

theorem startPrepared_publishes (plan : EpochPlan Doc) : Publishes none (startPrepared plan) := by
  refine Yields.next rfl fun activated => ?_
  split
  · exact restoreDnsQuietly_publishes.bind fun _ _ => rejectLaunch_yields
  refine Yields.next rfl fun deactivated => ?_
  split
  · exact rejectLaunch_yields
  refine (publish_publishes ?_).bind fun _ _ => ?_
  · intro e he
    cases he
    rfl
  refine (launch_yields _ plan).bind fun launched hlaunched => ?_
  split
  · exact restoreDnsQuietly_publishes.bind fun _ _ => rejectLaunch_yields
  rename_i inst
  refine Yields.next rfl fun ready => ?_
  split
  · refine Yields.next rfl fun stopped => ?_
    split
    · exact restoreDnsQuietly_publishes.bind fun _ _ => rejectLaunch_yields
    · exact latchQuarantine_yields
  refine Yields.next rfl fun pid => ?_
  refine publishRunning_publishes.bind fun _ _ => ?_
  exact install_publishes (hlaunched inst rfl)

theorem startLocked_publishes (spec : InstanceSpec) :
    Publishes none (startLocked setup spec) := by
  refine Yields.next rfl fun epoch => ?_
  refine Yields.next rfl fun loaded => ?_
  split
  · exact publishAndFail_yields
  refine prepareLaunch_yields.attempt.bind fun prepared _ => ?_
  split
  · exact rejectLaunch_yields
  · exact startPrepared_publishes _

/-! ## Retiring -/

theorem retireCurrent_publishes (site : Site) :
    Publishes pin (retireCurrent site :
      Control Doc (Except RetireFailure (Option (EpochPlan Doc)))) := by
  refine Yields.next rfl fun current => ?_
  split
  · exact .pure trivial
  refine Yields.next rfl fun _ => ?_
  refine Yields.next rfl fun stopped => ?_
  split
  · exact .pure trivial
  · exact .pure trivial

theorem discardStale_publishes : Publishes pin (discardStale : Control Doc Unit) := by
  refine (retireCurrent_publishes _).bind fun retired _ => ?_
  split
  · exact .pure trivial
  · exact Publishes.freeDemand rfl
  · exact latchOrFail_yields .fail

theorem stopFailed_yields {epoch : Epoch} {error : Error} :
    Yields pin P (stopFailed epoch error : Control Doc α) :=
  latchOrFail_yields publishAndFail_yields

theorem stopped_publishes (reason : Option StopReason) :
    Publishes pin (perform (.publish (.stopped reason) none) : Control Doc Unit) :=
  Publishes.perform (fun _ _ => nofun) nofun

theorem stopActive_publishes {active : Active Doc}
    (h : active.inst.epoch = active.plan.revision.epoch) :
    Publishes pin (stopActive active) := by
  refine (publish_publishes ?_).bind fun _ _ => ?_
  · intro e he
    cases he
    exact h.symm
  refine Yields.next rfl fun stopped => ?_
  split
  · exact stopFailed_yields
  refine Yields.next rfl fun cleaned => ?_
  split
  · exact publishAndFail_yields
  · exact stopped_publishes _

theorem stopEnded_publishes {active : Active Doc} {captured : InstanceStatus}
    (h : active.inst.epoch = active.plan.revision.epoch) :
    Publishes pin (stopEnded active captured) := by
  refine (publish_publishes ?_).bind fun _ _ => ?_
  · intro e he
    rw [carriedEpoch_instance he, h]
  refine Yields.next rfl fun stopped => ?_
  split
  · exact latchOrFail_yields .fail
  refine Yields.next rfl fun cleaned => ?_
  split
  · exact publishAndFail_yields
  · exact .fail

theorem stop_publishes : Publishes pin (stop : Control Doc Unit) := by
  refine Yields.demanded rfl fun _ => ?_
  refine take_yields.bind fun current hcurrent => ?_
  split
  · exact .fail
  rename_i active
  refine Yields.next rfl fun captured => ?_
  refine Yields.next rfl fun _ => ?_
  split
  · exact stopEnded_publishes (hcurrent active rfl)
  · exact stopActive_publishes (hcurrent active rfl)

theorem shutdown_publishes : Publishes pin (shutdown : Control Doc Unit) := by
  refine Yields.demanded rfl fun _ => ?_
  refine take_yields.bind fun current hcurrent => ?_
  split
  · exact .pure trivial
  rename_i active
  exact Yields.next rfl fun _ => stopActive_publishes (hcurrent active rfl)

theorem retireOld_publishes {message : String} {next : EpochPlan Doc → Control Doc α}
    {onFailure : RetireFailure → Control Doc α} (hnext : ∀ plan, Publishes pin (next plan))
    (hfailed : ∀ failure, Publishes pin (onFailure failure)) :
    Publishes pin (retireOld message next onFailure) := by
  refine (retireCurrent_publishes _).bind fun retired _ => ?_
  split
  · exact hnext _
  · exact expect_yields
  · exact hfailed _

/-! ## Switching -/

theorem spawnReplacement_yields (plan : EpochPlan Doc) :
    Yields pin (fun inst => inst.epoch = plan.revision.epoch) (spawnReplacement plan) := by
  refine Yields.demanded rfl fun _ => ?_
  refine Yields.demanded rfl fun _ => ?_
  refine Yields.bind (P := fun inst => inst.epoch = plan.revision.epoch) ?_ fun inst hinst => ?_
  · intro a ha
    refine (Prog.wp_demand _).2 ⟨trivial, ?_⟩
    intro r a' hs
    have hop : coherentOp (.launch .replacement plan) a := trivial
    refine ⟨ha.step hop nofun hs, ?_⟩
    intro inst hr
    rw [hr] at hs
    exact hs.1
  refine Yields.next rfl fun ready => ?_
  split
  · exact .pure hinst
  refine Yields.next rfl fun stopped => ?_
  split
  · exact .fail
  · exact .fail

theorem switching_publishes {source : Option Epoch} {epoch : Epoch} {plan : EpochPlan Doc}
    (h : plan.revision.epoch = epoch) :
    Publishes pin (perform (.publish (.switching source epoch) (some plan)) : Control Doc Unit) := by
  refine publish_publishes ?_
  intro e he
  cases he
  exact h

theorem hardSwitch_publishes {spec : InstanceSpec} {snapshot : Snapshot Doc}
    {resolved : ResolvedFeatures} : Publishes none (hardSwitch setup spec snapshot resolved) := by
  refine Yields.next rfl fun epoch => ?_
  refine prepareLaunchWithFeatures_yields.attempt.bind fun prepared hprepared => ?_
  split
  · exact abandonCandidate_yields
  rename_i plan
  refine Yields.next rfl fun deactivated => ?_
  split
  · exact abandonCandidate_yields
  refine Yields.next rfl fun old => ?_
  refine (switching_publishes (hprepared plan rfl)).bind fun _ _ => ?_
  refine retireOld_publishes ?_ ?_
  · intro retired
    refine Yields.next rfl fun cleaned => ?_
    split
    · exact publishAndFail_yields
    · exact startPrepared_publishes plan
  · intro failure
    exact (cleanupQuietly_publishes epoch).bind fun _ _ => stopFailed_yields

theorem prepareGraceful_yields {spec : InstanceSpec} {epoch : Epoch} {snapshot : Snapshot Doc}
    {resolved : ResolvedFeatures} :
    Yields pin (fun p => p.plan.revision.epoch = epoch)
      (prepareGraceful setup spec epoch snapshot resolved) := by
  refine (ret_publishes _).bind fun full _ => ?_
  refine (ret_publishes _).bind fun bootstrap _ => ?_
  split
  · exact .fail
  refine (ret_publishes _).bind fun _ _ => ?_
  refine Yields.demanded rfl fun fullStaged => ?_
  refine (checkStaged_publishes setup spec fullStaged).bind fun _ _ => ?_
  refine Yields.bind (P := fun _ => True) (orDrop_yields ?_) fun path _ => .pure rfl
  refine Yields.demanded rfl fun staged => ?_
  exact (checkStaged_publishes setup spec staged).bind fun _ _ => Publishes.freeDemand rfl

theorem rejectBootstrap_yields {inst : Instance} {epoch : Epoch} {error : Error} {text : String} :
    Yields pin P (rejectBootstrap inst epoch error text : Control Doc α) := by
  refine Yields.next rfl fun stopped => ?_
  split
  · exact abandonCandidate_yields
  · exact latchQuarantine_yields

theorem retreatFromBoth_yields {inst : Instance} {epoch : Epoch} {failure : RetireFailure} :
    Yields pin P (retreatFromBoth inst epoch failure : Control Doc α) := by
  refine Yields.next rfl fun stopped => ?_
  split
  · exact (cleanupQuietly_publishes epoch).bind fun _ _ => stopFailed_yields
  · split
    · exact Yields.next rfl fun _ => latchQuarantine_yields
    · exact latchQuarantine_yields

theorem commitFailed_yields {inst : Instance} {epoch : Epoch} {error : Error} :
    Yields pin P (commitFailed inst epoch error : Control Doc α) := by
  refine Yields.next rfl fun stopped => ?_
  split
  · exact (cleanupQuietly_publishes epoch).bind fun _ _ => stopFailed_yields
  · exact latchQuarantine_yields

theorem completeSwitch_publishes {inst : Instance} {plan : EpochPlan Doc} {old : Epoch}
    {outcome : SwitchOutcome} (hi : inst.epoch = plan.revision.epoch) :
    Publishes none (completeSwitch inst plan old outcome) := by
  refine Yields.next rfl fun pid => ?_
  refine publishRunning_publishes.bind fun _ _ => ?_
  refine (install_publishes hi).bind fun _ _ => ?_
  exact Yields.demanded rfl fun _ => .pure trivial

theorem replaceBootstrap_publishes {inst : Instance} {plan : EpochPlan Doc} {old : Epoch} :
    Publishes none (replaceBootstrap inst plan old) := by
  refine Yields.next rfl fun stopped => ?_
  split
  · exact stopFailed_yields
  refine (spawnReplacement_yields plan).attempt.bind fun replaced hreplaced => ?_
  split
  · exact latchOrFail_yields rejectLaunch_yields
  · exact completeSwitch_publishes (hreplaced _ rfl)

theorem takeOver_publishes {inst : Instance} {plan : EpochPlan Doc} {fullStaged : Staged}
    (hi : inst.epoch = plan.revision.epoch) : Publishes none (takeOver inst plan fullStaged) := by
  refine retireOld_publishes ?_ ?_
  · intro retired
    refine Yields.next rfl fun committed => ?_
    split
    · exact commitFailed_yields
    refine Yields.next rfl fun reconciled => ?_
    split
    · exact (completeSwitch_publishes hi).attempt.bind fun _ _ => ret_publishes _
    · exact replaceBootstrap_publishes.attempt.bind fun _ _ => ret_publishes _
  · intro failure
    exact (dropStagedFile_publishes fullStaged).bind fun _ _ => retreatFromBoth_yields

theorem gracefulSwitch_publishes {spec : InstanceSpec} {snapshot : Snapshot Doc}
    {resolved : ResolvedFeatures} :
    Publishes none (gracefulSwitch setup spec snapshot resolved) := by
  refine Yields.next rfl fun old => ?_
  refine Yields.next rfl fun epoch => ?_
  refine prepareGraceful_yields.attempt.bind fun prepared hprepared => ?_
  split
  · exact abandonCandidate_yields
  rename_i plan fullStaged
  have hplan : plan.revision.epoch = epoch := hprepared _ rfl
  refine Yields.next rfl fun activated => ?_
  split
  · exact Yields.next rfl fun _ =>
      (dropStagedFile_publishes fullStaged).bind fun _ _ => abandonCandidate_yields
  refine (switching_publishes hplan).bind fun _ _ => ?_
  refine (launch_yields _ plan).bind fun launched hlaunched => ?_
  split
  · exact (dropStagedFile_publishes fullStaged).bind fun _ _ => abandonCandidate_yields
  rename_i inst
  refine Yields.next rfl fun ready => ?_
  split
  · exact (dropStagedFile_publishes fullStaged).bind fun _ _ => rejectBootstrap_yields
  refine Yields.next rfl fun deactivated => ?_
  split
  · exact (dropStagedFile_publishes fullStaged).bind fun _ _ => rejectBootstrap_yields
  · exact takeOver_publishes (hlaunched inst rfl)

theorem runtimeAlive_publishes : Publishes pin (runtimeAlive : Control Doc Bool) := by
  refine Yields.next rfl fun current => ?_
  split
  · exact .pure trivial
  · exact Yields.next rfl fun _ => .pure trivial

theorem switchLocked_publishes (spec : InstanceSpec) :
    Publishes none (switchLocked setup spec) := by
  refine runtimeAlive_publishes.bind fun alive _ => ?_
  split
  · exact discardStale_publishes.bind fun _ _ =>
      (startLocked_publishes spec).bind fun _ _ => .pure trivial
  refine Yields.demanded rfl fun snapshot => ?_
  refine Yields.demanded rfl fun _ => ?_
  refine Yields.demanded rfl fun resolved => ?_
  refine Yields.next rfl fun current => ?_
  split
  · exact hardSwitch_publishes.bind fun _ _ => .pure trivial
  · simp only
    split
    · exact hardSwitch_publishes.bind fun _ _ => .pure trivial
    · exact gracefulSwitch_publishes

/-! ## Applying -/

theorem prepareApply_yields {current : Active Doc} {input : InstanceSpec}
    {snapshot : Snapshot Doc} :
    Yields pin (fun p => p.plan.revision.epoch = current.plan.revision.epoch)
      (prepareApply setup current input snapshot) := by
  refine Yields.demanded rfl fun _ => ?_
  refine Yields.demanded rfl fun resolved => ?_
  refine (ret_publishes _).bind fun full _ => ?_
  refine (ret_publishes _).bind fun prepared _ => ?_
  refine Yields.demanded rfl fun staged => ?_
  refine (checkStaged_publishes setup input staged).bind fun _ _ => ?_
  refine Yields.bind (P := fun _ => True) ?_ fun generation _ => .pure rfl
  unfold nextGeneration
  split
  · exact .pure trivial
  · exact expect_yields

theorem installAndPublish_publishes {inst : Instance} {plan : EpochPlan Doc} {rollback : Bool}
    (h : inst.epoch = plan.revision.epoch) :
    Publishes none (installAndPublish inst plan rollback) := by
  refine Yields.next rfl fun pid => ?_
  exact (install_publishes h).bind fun _ _ => publishRunning_publishes

theorem retireFailed_yields {text : String} {failure : RetireFailure} :
    Yields pin P (retireFailed text failure : Control Doc α) :=
  latchOrFail_yields publishAndFail_yields

theorem restarting_publishes (plan : EpochPlan Doc) : Publishes pin
    (perform (.publish (.restarting plan.revision.epoch 0) (some plan)) : Control Doc Unit) := by
  refine publish_publishes ?_
  intro e he
  cases he
  rfl

theorem rollBack_publishes {oldPlan : EpochPlan Doc} {applyText text : String}
    {onSuccess : Control Doc Unit} (hs : Publishes none onSuccess) :
    Publishes none (rollBack oldPlan applyText text onSuccess) := by
  refine (restarting_publishes oldPlan).bind fun _ _ => ?_
  refine (spawnReplacement_yields oldPlan).attempt.bind fun replaced hreplaced => ?_
  split
  · refine (installAndPublish_publishes (hreplaced _ rfl)).bind fun _ _ => ?_
    exact hs.bind fun _ _ => .pure trivial
  · exact latchOrFail_yields publishAndFail_yields

theorem rollBackRestart_publishes {oldPlan : EpochPlan Doc} {saved : Backup} {applyText : String} :
    Publishes none (rollBackRestart oldPlan saved applyText) := by
  refine Yields.next rfl fun restored => ?_
  split
  · exact publishAndFail_yields
  · exact (rollBack_publishes (removeBackupQuietly_publishes saved)).attempt.bind fun _ _ =>
      ret_publishes _

theorem restartWithCompensation_publishes (desired : EpochPlan Doc) (saved : Backup) :
    Publishes none (restartWithCompensation desired saved) := by
  refine Yields.demanded rfl fun _ => ?_
  refine retireOld_publishes ?_ fun failure => retireFailed_yields
  intro oldPlan
  refine (restarting_publishes desired).bind fun _ _ => ?_
  refine (spawnReplacement_yields desired).attempt.bind fun replaced hreplaced => ?_
  split
  · refine (installAndPublish_publishes (hreplaced _ rfl)).bind fun _ _ => ?_
    exact (removeBackupQuietly_publishes saved).bind fun _ _ => .pure trivial
  · exact latchOrFail_yields rollBackRestart_publishes

theorem switchWithCompensation_publishes {input : InstanceSpec} {snapshot : Snapshot Doc} :
    Publishes none (switchWithCompensation setup input snapshot) := by
  refine Yields.next rfl fun epoch => ?_
  refine prepareLaunch_yields.bind fun desired _ => ?_
  refine Yields.next rfl fun deactivated => ?_
  split
  · exact (cleanupQuietly_publishes epoch).bind fun _ _ => .fail
  refine retireOld_publishes ?_ ?_
  · intro oldPlan
    refine (switching_publishes rfl).bind fun _ _ => ?_
    refine (spawnReplacement_yields desired).attempt.bind fun replaced hreplaced => ?_
    split
    · refine (installAndPublish_publishes (hreplaced _ rfl)).bind fun _ _ => ?_
      exact (cleanupQuietly_publishes _).bind fun _ _ => .pure trivial
    · refine latchOrFail_yields ?_
      exact (cleanupQuietly_publishes epoch).bind fun _ _ => rollBack_publishes (.pure trivial)
  · intro failure
    exact (cleanupQuietly_publishes epoch).bind fun _ _ => retireFailed_yields

theorem commitChange_publishes {saved : Backup} {prepared : PreparedApply Doc} :
    Publishes pin (commitChange saved prepared) := by
  have giveUp {error : Error} : Publishes pin (do
      removeBackupQuietly saved
      dropStagedFile prepared.staged
      fail error : Control Doc (Option String)) :=
    (removeBackupQuietly_publishes saved).bind fun _ _ =>
      (dropStagedFile_publishes prepared.staged).bind fun _ _ => .fail
  refine Yields.next rfl fun deactivated => ?_
  split
  · exact giveUp
  refine Yields.next rfl fun activated => ?_
  split
  · exact Yields.next rfl fun _ => giveUp
  refine Yields.next rfl fun current => ?_
  split
  · exact (dropStagedFile_publishes prepared.staged).bind fun _ _ => .fail
  refine Yields.next rfl fun committed => ?_
  split
  · exact Yields.next rfl fun _ => (removeBackupQuietly_publishes saved).bind fun _ _ => .fail
  · exact .pure trivial

theorem adoptInPlace_publishes {active : Active Doc} {desired : EpochPlan Doc} {saved : Backup} :
    Publishes (some desired.revision.epoch) (adoptInPlace active desired saved) := by
  refine Yields.bind (P := fun _ => True) ?_ fun _ _ => ?_
  · refine Publishes.perform ?_ nofun
    intro a ha current hcurrent
    exact (ha.pinned _ current rfl hcurrent).symm
  refine Yields.next rfl fun pid => ?_
  refine publishRunning_publishes.bind fun _ _ => ?_
  exact Yields.next rfl fun _ => removeBackupQuietly_publishes saved

/-- What a pinned beginning leaves, an unpinned end takes over. -/
theorem Yields.unpinned {β : Type} {Q : β → Prop} {p : Control Doc α} {f : α → Control Doc β}
    {a : Books Doc} (hp : Yields pin P p) (ha : a.Pinned pin)
    (hf : ∀ x a', P x → a'.Pinned pin →
      (f x).wp publicationReading (fun r a' => a'.Pinned none ∧ ∀ y, r = .ok y → Q y) a') :
    (p >>= f).wp publicationReading (fun r a' => a'.Pinned none ∧ ∀ y, r = .ok y → Q y) a := by
  refine Prog.wp_seq (hp a ha) ?_ ?_
  · intro e a' he
    exact ⟨he.1.unpin, nofun⟩
  · intro x a' hx
    exact hf x a' (hx.2 x rfl) hx.1

theorem applyChange_unpinned {active : Active Doc} {prepared : PreparedApply Doc}
    {outcome : ConfigRevision → ApplyOutcome} {a : Books Doc}
    (ha : a.Pinned (some prepared.plan.revision.epoch)) :
    (applyChange active prepared outcome).wp publicationReading
      (fun r a' => a'.Pinned none ∧ ∀ y, r = .ok y → True) a := by
  refine (orDrop_yields (Publishes.freeDemand rfl)).unpinned ha fun saved a₁ _ h₁ => ?_
  refine commitChange_publishes.unpinned h₁ fun warning a₂ _ h₂ => ?_
  refine (Publishes.free rfl).unpinned h₂ fun reconciled a₃ _ h₃ => ?_
  split
  · exact adoptInPlace_publishes.unpinned h₃ fun _ a₄ _ h₄ => ⟨h₄.unpin, fun _ _ => trivial⟩
  · exact ((restartWithCompensation_publishes prepared.plan saved).attempt.bind fun _ _ =>
      ret_publishes _) a₃ h₃.unpin

theorem applyLocked_publishes {input : InstanceSpec} {expected : Option RevisionId} :
    Publishes none (applyLocked setup input expected) := by
  intro a ha
  refine Prog.wp_perform_bind trivial ?_
  intro current a₀ hs
  obtain ⟨hcurrent, rfl⟩ := hs
  split
  · exact ⟨ha, nofun⟩
  rename_i active
  -- until the change is adopted or given up, the slot keeps this instance
  have hpin : a₀.Pinned (some active.plan.revision.epoch) := by
    refine ⟨ha.aligned, ?_⟩
    intro epoch other he hother
    rw [← hcurrent] at hother
    cases hother
    cases he
    rfl
  refine (Publishes.free rfl).unpinned hpin fun status a₁ _ h₁ => ?_
  split
  · exact ⟨h₁.unpin, nofun⟩
  simp only
  split
  · exact ⟨h₁.unpin, nofun⟩
  refine (Publishes.freeDemand rfl).unpinned h₁ fun snapshot a₂ _ h₂ => ?_
  refine prepareApply_yields.unpinned h₂ fun prepared a₃ hprepared h₃ => ?_
  have drop {p : Control Doc ApplyOutcome} (hp : Publishes none p) :=
    ((dropStagedFile_publishes prepared.staged).bind fun _ _ => hp) a₃ h₃.unpin
  split
  · exact drop .fail
  · exact (Yields.next rfl fun _ => Yields.next rfl fun _ =>
      (dropStagedFile_publishes prepared.staged).bind fun _ _ => .pure trivial) a₃ h₃.unpin
  · exact drop switchWithCompensation_publishes
  · exact applyChange_unpinned (hprepared ▸ h₃)
  · exact applyChange_unpinned (hprepared ▸ h₃)

/-! ## Operations -/

theorem finishDnsConverge_publishes (result : Except Error α) :
    Publishes pin (finishDnsConverge result : Control Doc α) := by
  refine runtimeAlive_publishes.bind fun alive _ => ?_
  split
  · exact Yields.next rfl fun _ => ret_publishes _
  · exact ret_publishes _

theorem reconcileLocked_publishes {spec : InstanceSpec} {expected : Option RevisionId} :
    Publishes none (reconcileLocked setup spec expected) := by
  refine runtimeAlive_publishes.bind fun alive _ => ?_
  split
  · exact applyLocked_publishes
  · split
    · exact .fail
    · refine discardStale_publishes.bind fun _ _ => ?_
      refine (startLocked_publishes spec).bind fun _ _ => ?_
      refine Yields.next rfl fun current => ?_
      split
      · exact .pure trivial
      · exact expect_yields

/-- The frame of `start`, `switch`, `restart`, `apply` and `reconcile`. -/
theorem converging_publishes {p : Control Doc α} (hp : Publishes none p) :
    Publishes none (do finishDnsConverge (← p.attempt) : Control Doc α) :=
  hp.attempt.bind fun result _ => finishDnsConverge_publishes result

theorem recoverEntry_publishes (entry : QuarantinedEpoch) :
    Publishes pin (recoverEntry entry : Control Doc (Option String)) := by
  have cleanup : Publishes pin (cleanupEntry entry : Control Doc (Option String)) := by
    refine Yields.next rfl fun cleaned => ?_
    split
    · exact Yields.next rfl fun _ => .pure trivial
    · exact .pure trivial
  unfold recoverEntry
  split
  · exact cleanup
  · refine Yields.next rfl fun reaped => ?_
    split
    · exact .pure trivial
    · exact Yields.next rfl fun _ => cleanup
    · exact .pure trivial

theorem recoverEntries_publishes (entries : List QuarantinedEpoch) :
    Publishes pin (recoverEntries entries : Control Doc (List String)) := by
  induction entries with
  | nil => exact .pure trivial
  | cons entry rest ih =>
    exact (recoverEntry_publishes entry).bind fun _ _ => ih.bind fun _ _ => .pure trivial

theorem recoverQuarantine_publishes : Publishes pin (recoverQuarantine : Control Doc Unit) := by
  refine Yields.next rfl fun quarantined => ?_
  split
  · exact .pure trivial
  refine (recoverEntries_publishes quarantined).bind fun failures _ => ?_
  split
  · exact Yields.demanded rfl fun _ => stopped_publishes none
  · refine Yields.next rfl fun remaining => ?_
    split
    · exact .fail
    · exact expect_yields

theorem program_publishes (setup : Setup Doc) (command : Command) :
    Publishes none (program setup command) := by
  have reply {β : Type} {p : Control Doc β} {f : β → Reply} (hp : Publishes none p) :
      Publishes none (do return f (← p) : Control Doc Reply) :=
    hp.bind fun _ _ => .pure trivial
  cases command with
  | start spec =>
    refine reply (f := fun _ => .done) (rejectQuarantine_publishes.bind fun _ _ => ?_)
    refine runtimeAlive_publishes.bind fun alive _ => ?_
    split
    · exact .fail
    · exact discardStale_publishes.bind fun _ _ => converging_publishes (startLocked_publishes spec)
  | stop => exact reply (f := fun _ => .done) stop_publishes
  | shutdown => exact reply (f := fun _ => .done) shutdown_publishes
  | switch spec =>
    exact reply (rejectQuarantine_publishes.bind fun _ _ =>
      converging_publishes (switchLocked_publishes spec))
  | restart =>
    refine reply (rejectQuarantine_publishes.bind fun _ _ => ?_)
    refine Yields.next rfl fun last => ?_
    split
    · exact .fail
    · exact converging_publishes (switchLocked_publishes _)
  | applyConfig spec expected =>
    exact reply (rejectQuarantine_publishes.bind fun _ _ =>
      converging_publishes applyLocked_publishes)
  | reconcile spec expected =>
    exact reply (rejectQuarantine_publishes.bind fun _ _ =>
      converging_publishes reconcileLocked_publishes)
  | recoverQuarantine => exact reply (f := fun _ => .done) recoverQuarantine_publishes

/-! ## Sessions -/

section Sessions

variable {env : Env Doc} {w t : World Doc}

/-- An operation that is no publication leaves the status alone. -/
theorem handle_status {β : Type} {op : Op Doc β} (h : op.isFree = true) :
    (handle setup env.quiet op w).2.status = w.status := by
  have hcall {β : Type} {call : Nat → World Doc → β × World Doc} {w : World Doc}
      (hc : (call w.tick (w.elapse env.quiet)).2.status = (w.elapse env.quiet).status) :
      (outside env.quiet call w).2.status = w.status :=
    outside_same (f := World.status) rfl hc
  have hstore {ε α : Type} (p : Prog ε StorePrim α) (w : World Doc) :
      (exec (storeHandle env.quiet) p w).2.status = w.status :=
    exec_same (h := storeHandle env.quiet) (fun op w => storeHandle_same (f := World.status)
      (fun _ => rfl) (fun _ _ => rfl) (fun _ _ => rfl) op w) p
  have hdns {ε α : Type} (p : Prog ε (DnsPrim Doc) α) (w : World Doc) :
      (exec (dnsHandle env.quiet) p w).2.status = w.status :=
    exec_same (h := dnsHandle env.quiet) (fun op w => dnsHandle_same (f := World.status)
      (fun _ => rfl) (fun _ _ => rfl) (fun _ _ _ _ => rfl) op w) p
  cases op with
  | publish _ _ | publishSnapshot _ _ _ _ | install _ _ _ | adopt _ | boot _ => cases h
  | panic _ | current | lastSpec | quarantine | take | retainSource _ | retainSpec _ | record _ _
  | proveDeath _ | release _ | commitConfig _ => rfl
  | nextEpoch =>
    simp only [handle]
    split
    · rfl
    · rfl
  | launch _ _ | reap _ =>
    refine hcall ?_
    split
    · rfl
    · rfl
  | instanceStatus _ | abortForwarder _ | pid _ | waitReady _ | stop _ _ | reconciled
  | checkConfig _ | load _ | validateLaunchable _ | resolveFeatures _ | cleanupController _
  | reapOrphan _ => exact hcall rfl
  | cleanupEpoch _ epoch =>
    refine afterwards_keeps (I := fun t => t.status = w.status) (hcall rfl) ?_
    intro u hu
    exact afterwards_keeps (I := fun t => t.status = w.status)
      ((hstore (cleanupArtifacts setup epoch.get) u).trans hu) fun v hv => hv
  | stage _ _ | dropStaged _ | commitNew _ _ | commitReplace _ _ | backup _ _ | restore _
  | removeBackup _ | cleanupArtifacts _ | artifactEpochs | pidExists _ => exact hstore _ w
  | dnsActivate _ | dnsDeactivate _ | dnsConverge | dnsRestore | reconcileOrphan => exact hdns _ w

/-- A publication that is answered sets the status, and a crash leaves it. -/
theorem outside_status (env : Env Doc) (w : World Doc)
    (publication : Int → CoreStatus → CoreStatus) :
    (outside env.quiet (fun tick w => ((), { w with
      status := publication (env.now tick) w.status })) w).2.status = w.status ∨
    ∃ now, (outside env.quiet (fun tick w => ((), { w with
      status := publication (env.now tick) w.status })) w).2.status =
        publication now w.status := by
  unfold outside
  split
  · exact .inl rfl
  · exact .inr ⟨env.now w.tick, rfl⟩

/-- What one operation of a transaction does to the published status. -/
theorem handle_coherent {β : Type} {op : Op Doc β} (setup : Setup Doc) (env : Env Doc)
    (hop : coherentOp op w.books)
    (hw : Coherent w.status) :
    Coherent (handle setup env.quiet op w).2.status ∧
      Stamped w.status (handle setup env.quiet op w).2.status := by
  have same (h : (handle setup env.quiet op w).2.status = w.status) :
      Coherent (handle setup env.quiet op w).2.status ∧
        Stamped w.status (handle setup env.quiet op w).2.status := by
    rw [h]
    exact ⟨hw, .refl _⟩
  by_cases hfree : op.isFree = true
  · exact same (handle_status hfree)
  cases op with
  | boot found => exact hop.elim
  | install _ _ _ | adopt _ => exact same rfl
  | publish state plan =>
    rcases outside_status env w fun now status => publishState now state plan status
      with h | ⟨now, h⟩
    · exact same h
    · refine ⟨?_, ?_⟩
      · rw [show (handle setup env.quiet (.publish state plan) w).2.status = _ from h]
        exact publishState_coherent hop
      · rw [show (handle setup env.quiet (.publish state plan) w).2.status = _ from h]
        exact .of_rule rfl rfl
  | publishSnapshot inst snapshot state plan =>
    rcases outside_status env w fun now status => publishSnapshot now inst snapshot state plan status
      with h | ⟨now, h⟩
    · exact same h
    · refine ⟨?_, ?_⟩
      · rw [show (handle setup env.quiet (.publishSnapshot inst snapshot state plan) w).2.status = _
          from h]
        exact publishSnapshot_coherent hop
      · rw [show (handle setup env.quiet (.publishSnapshot inst snapshot state plan) w).2.status = _
          from h]
        exact .of_rule rfl rfl
  | _ => exact absurd rfl hfree

/-- Beside the manager, a status is published by a forwarder's event only. -/
theorem background_status (now : Int) (w : World Doc) (b : Background) :
    (World.background now w b).status = w.status ∨
    ∃ epoch inst, (Turn.background now b).delivers w = some epoch ∧
      (World.background now w b).status = publishEpochStatus now epoch inst w.status := by
  cases b with
  | report number status =>
    simp only [World.background]
    split
    · exact .inl rfl
    · exact .inl rfl
  | artifact entry node =>
    simp only [World.background]
    split
    · exact .inl rfl
    · exact .inl rfl
  | forward number =>
    simp only [World.background, World.forward, Turn.delivers]
    split
    · exact .inl rfl
    · rename_i epoch hepoch
      split
      · exact .inr ⟨epoch, _, hepoch, rfl⟩
      · exact .inl rfl

theorem background_books (now : Int) (w : World Doc) (b : Background) :
    (World.background now w b).books = w.books := by
  obtain ⟨_, _, _, _, _, h⟩ := World.background_frame now w b
  rw [h]
  rfl

/-- The rest of a transaction publishes coherently. -/
structure Session.Sound (s : Session Doc) : Prop where
  coherent : Coherent s.world.status
  pinned : s.phase ≠ .gone → s.world.books.Pinned none
  rest : ∀ rest, s.phase = .within rest →
    rest.wp publicationReading (fun _ a' => a'.Pinned none) s.world.books

theorem Session.Sound.init (w : World Doc) (now : Int) (found : List Nat) :
    Session.Sound ⟨w.boot now found, .idle⟩ where
  coherent := .initial now
  pinned := fun _ => .of_none rfl
  rest := fun _ h => by cases h

/-- Beside a transaction its books stay as they are. -/
theorem Session.Sound.beside {s : Session Doc} (h : s.Sound)
    (hs : Coherent t.status) (hb : t.books = s.world.books) : Session.Sound ⟨t, s.phase⟩ where
  coherent := hs
  pinned := hb ▸ h.pinned
  rest := fun rest hr => hb ▸ h.rest rest hr

theorem Session.Sound.operate {rest : Control Doc Reply} (h : Session.Sound ⟨w, .within rest⟩) :
    (Session.operate setup env w rest).Sound ∧
      Stamped w.status (Session.operate setup env w rest).world.status := by
  have hwp := h.rest rest rfl
  cases rest with
  | ret r =>
    exact ⟨⟨h.coherent, fun _ => h.pinned (by simp), fun _ hr => by cases hr⟩, .refl _⟩
  | call op next =>
    obtain ⟨hop, hnext⟩ := hwp
    obtain ⟨hcoherent, hstamped⟩ := handle_coherent setup env hop h.coherent
    simp only [Session.operate]
    rcases hr : handle setup env.quiet op w with ⟨x | b, u⟩
    · rw [hr] at hcoherent hstamped
      cases x with
      | crash => exact ⟨⟨hcoherent, fun hg => absurd rfl hg, fun _ hr => by cases hr⟩, hstamped⟩
      | panic message =>
        obtain ⟨-, rfl⟩ := handle_panic hr
        exact ⟨⟨hcoherent, fun _ => h.pinned (by simp), fun _ hr => by cases hr⟩, hstamped⟩
    · rw [hr] at hcoherent hstamped
      have hstep := books_step setup env.quiet op w u b hr
      have hpinned := (h.pinned (by simp)).step hop (fun _ => rfl) hstep
      refine ⟨⟨hcoherent, fun _ => hpinned, ?_⟩, hstamped⟩
      intro rest' hrest
      cases hrest
      exact hnext b u.books hstep

/-- What one turn does: the session stays sound, and the time of the last change
moves only with the state. -/
theorem Session.Sound.step {s t : Session Doc} {turn : Turn} (h : s.Sound)
    (hs : Session.step setup env s turn = some t) :
    t.Sound ∧ Stamped s.world.status t.world.status := by
  obtain ⟨w, phase⟩ := s
  cases turn with
  | call command =>
    simp only [Session.step] at hs
    split at hs
    · cases hs
      refine ⟨⟨h.coherent, fun _ => h.pinned (by simp), ?_⟩, .refl _⟩
      intro rest hr
      cases hr
      exact Prog.wp_mono (program_publishes setup command w.books (h.pinned (by simp)))
        fun _ _ hr => hr.1
    · cases hs
  | operation =>
    simp only [Session.step] at hs
    split at hs
    · cases hs
      exact h.operate
    · cases hs
  | background now b =>
    have hnext : t = ⟨World.background now w b, phase⟩ := by
      simp only [Session.step] at hs
      split at hs
      · cases hs
      · cases hs
        rfl
    rw [hnext]
    rcases background_status now w b with hstatus | ⟨epoch, inst, -, hstatus⟩
    · exact ⟨h.beside (by rw [hstatus]; exact h.coherent) (background_books now w b),
        by rw [hstatus]; exact .refl _⟩
    · exact ⟨h.beside (by rw [hstatus]; exact h.coherent.forwarded now epoch inst)
        (background_books now w b), by rw [hstatus]; exact publishEpochStatus_stamped _ _ _ _⟩
  | late now epoch inst =>
    have hnext : t = ⟨{ w with status := publishEpochStatus now epoch inst w.status }, phase⟩ := by
      simp only [Session.step] at hs
      split at hs
      · cases hs
      · cases hs
        rfl
    rw [hnext]
    exact ⟨h.beside (h.coherent.forwarded now epoch inst) rfl, publishEpochStatus_stamped _ _ _ _⟩

/-- A forwarder's event for an epoch that is not the published revision's. -/
theorem Session.step_stale {s t : Session Doc} {turn : Turn} {epoch : Epoch}
    (hs : Session.step setup env s turn = some t) (hturn : turn.delivers s.world = some epoch)
    (hepoch : s.world.status.revision.map ConfigRevision.epoch ≠ some epoch) :
    t.world.status = s.world.status := by
  cases turn with
  | call command | operation => cases hturn
  | background now b =>
    simp only [Session.step] at hs
    split at hs
    · cases hs
    · cases hs
      rcases background_status now s.world b with hstatus | ⟨other, inst, hother, hstatus⟩
      · exact hstatus
      · rw [hturn] at hother
        cases hother
        exact hstatus.trans (publishEpochStatus_other hepoch)
  | late now other inst =>
    cases hturn
    simp only [Session.step] at hs
    split at hs
    · cases hs
    · cases hs
      exact publishEpochStatus_other hepoch

end Sessions

/-! ## No mixed epochs -/

/-- In every order of a manager's publications and its forwarders' events, a
published state stands beside its own epoch's revision, an event of another
epoch changes nothing, and the time of the last change moves only with the
state. -/
theorem status_never_mixes_epochs (setup : Setup Doc) (env : Env Doc) (w : World Doc) (now : Int)
    (found : List Nat) {s : Session Doc} (h : (session setup env w now found).Reachable s) :
    Coherent s.world.status ∧
    ∀ turn t, Session.step setup env s turn = some t →
      (∀ epoch, turn.delivers s.world = some epoch →
        s.world.status.revision.map ConfigRevision.epoch ≠ some epoch →
          t.world.status = s.world.status) ∧
      Stamped s.world.status t.world.status := by
  have hsound : s.Sound := by
    refine h.invariant (.init w now found) ?_
    intro s turn t hs _ hstep
    exact (hs.step hstep).1
  refine ⟨hsound.coherent, ?_⟩
  intro turn t hstep
  exact ⟨fun epoch hturn hepoch => Session.step_stale hstep hturn hepoch, (hsound.step hstep).2⟩

/-- The core is started, and a switch to a second epoch has published when the
first epoch's forwarder speaks up late. -/
def lateForwarder : List Turn :=
  .call (.start plainSpec) :: List.replicate 23 .operation ++
    .call (.switch plainSpec) :: List.replicate 20 .operation ++
    [.late 7 Epoch.one ⟨none, .running 42, none⟩]

def plainSession : Machine (Session Nat) Turn :=
  session plainSetup (plainEnv 4) (World.initial [] none none) 0 []

def Session.after (turns : List Turn) : Session Nat :=
  (plainSession.run plainSession.init turns).getD plainSession.init

theorem late_forwarder_ignored :
    carriedEpoch (Session.after lateForwarder).world.status.state = Epoch.new 2 ∧
    (Session.after lateForwarder).world.status.revision.map ConfigRevision.epoch = Epoch.new 2 := by
  have hsome : (plainSession.run plainSession.init lateForwarder).isSome = true := by
    decide +kernel
  have hrun : plainSession.run plainSession.init lateForwarder =
      some (Session.after lateForwarder) := by
    rw [Session.after, ← Option.get_eq_getD (h := hsome), Option.some_get]
  have hstate : carriedEpoch (Session.after lateForwarder).world.status.state = Epoch.new 2 := by
    decide +kernel
  have hcoherent := (status_never_mixes_epochs plainSetup (plainEnv 4)
    (World.initial [] none none) 0 [] (Machine.run_reachable .init hrun)).1
  exact ⟨hstate, hcoherent _ hstate⟩

end Chimera.Manager
