import Chimera.Manager.Manager

/-! The functions that a transaction prepares, publishes and fails with: they
change neither the current runtime nor the host, whatever is answered. -/

namespace Chimera.Manager
open Chimera.Model Chimera.Lib.Program

variable {Doc : Type} {setup : Setup Doc} {α : Type}

/-- The operations whose answer and effect nothing else tells about. -/
def Op.steady {β : Type} : Op Doc β → Bool
  | .take | .install _ _ _ | .adopt _ | .retainSource _ | .launch _ _ | .dnsActivate _
  | .dnsDeactivate _ | .dnsConverge | .dnsRestore | .reconcileOrphan | .boot _ => false
  | _ => true

/-- The program changes neither the current runtime nor the host. -/
abbrev Steady (p : Control Doc α) : Prop := p.Only fun op => op.steady = true

theorem publishTerminalError_steady (error : Error) :
    Steady (publishTerminalError error : Control Doc Unit) := .perform rfl

theorem publishAndFail_steady (error : Error) : Steady (publishAndFail error : Control Doc α) :=
  (publishTerminalError_steady error).bind fun _ => .ret _

theorem expect_steady (message : String) : Steady (expect message : Control Doc α) :=
  (Prog.Only.perform rfl).bind fun b => nomatch b

theorem latchQuarantine_steady (epoch : Epoch) (error : Error) :
    Steady (latchQuarantine epoch error : Control Doc α) := by
  refine (Prog.Only.perform rfl).bind fun _ => (Prog.Only.perform rfl).bind fun list => ?_
  split
  · exact (publishTerminalError_steady _).bind fun _ => .ret _
  · exact expect_steady _

theorem publishInstance_steady (inst : Instance) (state : CoreState) (plan : EpochPlan Doc) :
    Steady (publishInstance inst state plan) := by
  refine (Prog.Only.perform rfl).bind fun snapshot => Prog.Only.bind ?_ fun _ => .perform rfl
  unfold announceConfig
  split
  · exact .perform rfl
  · exact .ret _

theorem publishRunning_steady (inst : Instance) (pid : Option Nat) (plan : EpochPlan Doc) :
    Steady (publishRunning inst pid plan) :=
  publishInstance_steady _ _ _

theorem republishRetained_steady : Steady (republishRetained : Control Doc Unit) := by
  refine (Prog.Only.perform rfl).bind fun current => ?_
  cases current with
  | none => exact .ret _
  | some active => exact (Prog.Only.perform rfl).bind fun _ => publishInstance_steady _ _ _

theorem dropStagedFile_steady (staged : Staged) :
    Steady (dropStagedFile staged : Control Doc Unit) :=
  (Prog.Only.perform rfl).bind fun _ => .ret _

theorem removeBackupQuietly_steady (saved : Backup) :
    Steady (removeBackupQuietly saved : Control Doc Unit) :=
  (Prog.Only.perform rfl).bind fun _ => .ret _

theorem cleanupQuietly_steady (epoch : Epoch) : Steady (cleanupQuietly epoch : Control Doc Unit) :=
  (Prog.Only.perform rfl).bind fun _ => .ret _

theorem rejectLaunch_steady (epoch : Epoch) (error : Error) :
    Steady (rejectLaunch epoch error : Control Doc α) :=
  (cleanupQuietly_steady epoch).bind fun _ => publishAndFail_steady error

theorem abandonCandidate_steady (epoch : Epoch) (error : Error) :
    Steady (abandonCandidate epoch error : Control Doc α) :=
  (cleanupQuietly_steady epoch).bind fun _ => republishRetained_steady.bind fun _ => .ret _

theorem stopFailed_steady (epoch : Epoch) (error : Error) :
    Steady (stopFailed epoch error : Control Doc α) := by
  unfold stopFailed
  split
  · exact latchQuarantine_steady _ _
  · exact publishAndFail_steady _

theorem retireFailed_steady (text : String) (failure : RetireFailure) :
    Steady (retireFailed text failure : Control Doc α) := by
  unfold retireFailed
  split
  · exact latchQuarantine_steady _ _
  · exact publishAndFail_steady _

theorem orDrop_steady {staged : Staged} {p : Control Doc α} (hp : Steady p) :
    Steady (orDrop staged p) := by
  refine hp.attempt.bind fun r => ?_
  cases r with
  | ok x => exact .ret _
  | error e => exact (dropStagedFile_steady staged).bind fun _ => .ret _

theorem checkStaged_steady (spec : InstanceSpec) (staged : Staged) :
    Steady (checkStaged setup spec staged) := by
  refine (Prog.Only.perform rfl).bind fun r => ?_
  cases r with
  | ok _ => exact .ret _
  | error e => exact (dropStagedFile_steady staged).bind fun _ => .ret _

theorem prepareLaunchWithFeatures_steady (spec : InstanceSpec) (epoch : Epoch)
    (snapshot : Snapshot Doc) (resolved : ResolvedFeatures) :
    Steady (prepareLaunchWithFeatures setup spec epoch snapshot resolved) := by
  refine (Prog.Only.ret _).bind fun full => (Prog.Only.ret _).bind fun prepared => ?_
  refine (Prog.Only.demand rfl).bind fun staged => (checkStaged_steady spec staged).bind fun _ => ?_
  exact (Prog.Only.demand rfl).bind fun _ => .ret _

theorem prepareLaunch_steady (spec : InstanceSpec) (epoch : Epoch) (snapshot : Snapshot Doc) :
    Steady (prepareLaunch setup spec epoch snapshot) :=
  (Prog.Only.demand rfl).bind fun _ => (Prog.Only.demand rfl).bind fun resolved =>
    prepareLaunchWithFeatures_steady spec epoch snapshot resolved

theorem prepareGraceful_steady (spec : InstanceSpec) (epoch : Epoch) (snapshot : Snapshot Doc)
    (resolved : ResolvedFeatures) :
    Steady (prepareGraceful setup spec epoch snapshot resolved) := by
  refine (Prog.Only.ret _).bind fun full => (Prog.Only.ret _).bind fun bootstrap => ?_
  split
  · exact .ret _
  refine (Prog.Only.ret _).bind fun _ => (Prog.Only.demand rfl).bind fun fullStaged => ?_
  refine (checkStaged_steady spec fullStaged).bind fun _ => Prog.Only.bind ?_ fun _ => .ret _
  refine orDrop_steady ((Prog.Only.demand rfl).bind fun staged => ?_)
  exact (checkStaged_steady spec staged).bind fun _ => .demand rfl

theorem prepareApply_steady (current : Active Doc) (input : InstanceSpec)
    (snapshot : Snapshot Doc) : Steady (prepareApply setup current input snapshot) := by
  refine (Prog.Only.demand rfl).bind fun _ => (Prog.Only.demand rfl).bind fun resolved => ?_
  refine (Prog.Only.ret _).bind fun full => (Prog.Only.ret _).bind fun prepared => ?_
  refine (Prog.Only.demand rfl).bind fun staged => (checkStaged_steady input staged).bind fun _ => ?_
  refine Prog.Only.bind ?_ fun _ => .ret _
  unfold nextGeneration
  split
  · exact .ret _
  · exact expect_steady _

theorem rejectBootstrap_steady (inst : Instance) (epoch : Epoch) (error : Error) (text : String) :
    Steady (rejectBootstrap inst epoch error text : Control Doc α) := by
  refine (Prog.Only.perform rfl).bind fun r => ?_
  cases r with
  | ok _ => exact abandonCandidate_steady _ _
  | error e => exact latchQuarantine_steady _ _

theorem retreatFromBoth_steady (inst : Instance) (epoch : Epoch) (failure : RetireFailure) :
    Steady (retreatFromBoth inst epoch failure : Control Doc α) := by
  refine (Prog.Only.perform rfl).bind fun r => ?_
  cases r with
  | ok _ => exact (cleanupQuietly_steady _).bind fun _ => stopFailed_steady _ _
  | error e =>
    simp only
    split
    · exact (Prog.Only.perform rfl).bind fun _ => latchQuarantine_steady _ _
    · exact latchQuarantine_steady _ _

theorem commitFailed_steady (inst : Instance) (epoch : Epoch) (error : Error) :
    Steady (commitFailed inst epoch error : Control Doc α) := by
  refine (Prog.Only.perform rfl).bind fun r => ?_
  cases r with
  | ok _ => exact (cleanupQuietly_steady _).bind fun _ => stopFailed_steady _ _
  | error e => exact latchQuarantine_steady _ _

theorem rejectQuarantine_steady : Steady (rejectQuarantine : Control Doc Unit) := by
  refine (Prog.Only.perform rfl).bind fun list => ?_
  split
  · exact .ret _
  · exact .ret _

end Chimera.Manager
