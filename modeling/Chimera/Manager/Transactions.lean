import Chimera.Manager.Discipline

/-! Every control transaction keeps the books. One specification for each
function, over the books reading; a panic may only happen where the books are
in order, since the manager lives on after it, and a file is staged only for an
epoch that was allocated. -/

namespace Chimera.Manager
open Chimera.Model Chimera.Lib.Program

variable {Doc : Type}

def Op.stages {β : Type} : Op Doc β → Bool
  | .stage _ _ => true
  | _ => false

/-- What a guarded operation needs: an allocated epoch to stage for, and `P`
elsewhere. -/
def Op.needs (P : Books Doc → Prop) {β : Type} : Op Doc β → Books Doc → Prop
  | .stage epoch _, a => epoch.get ≤ a.last
  | _, a => P a

theorem Op.needs_panic {P : Books Doc → Prop} {β : Type} {op : Op Doc β} {a : Books Doc}
    (hop : op.mayPanic = true) (h : op.needs P a) : P a := by
  cases op with
  | panic _ => exact h
  | nextEpoch => exact h
  | _ => cases hop

/-- The operations on the books, where a panic needs `P`, a stage an allocated
epoch, and nothing is constructed. -/
def readBooks (P : Books Doc → Prop) : Reading (Op Doc) (Books Doc) where
  step := Books.step
  pre := fun op a => (op.mayPanic || op.constructs || op.stages) = true →
    op.constructs = false ∧ op.needs P a

theorem readBooks_sound (setup : Setup Doc) (env : Env Doc) (P : Books Doc → Prop) :
    (readBooks P).Sound (handle setup env) (fun _ _ => True) World.books :=
  ⟨fun op w t b _ h => books_step setup env op w t b h⟩

abbrev booksReading (c : Context Doc) : Reading (Op Doc) (Books Doc) := readBooks (Good c ∅)

variable {c : Context Doc} {a : Books Doc} {α β : Type} {E : Set Epoch}
  {T : Except Error α → Books Doc → Prop}

/-- The program succeeds and does nothing to the books. -/
def Silent (p : Control Doc Unit) : Prop :=
  ∀ c a, p.wp (booksReading c) (fun r a' => r = .ok () ∧ a' = a) a

/-- The program succeeds and logs plain events that report nothing. -/
def Quiet (p : Control Doc Unit) : Prop :=
  ∀ c a, p.wp (booksReading c) (fun r a' => r = .ok () ∧ Logged ∅ a a') a

theorem Silent.quiet {p : Control Doc Unit} (h : Silent p) : Quiet p := by
  intro c a
  refine Prog.wp_mono (h c a) ?_
  rintro r a' ⟨rfl, rfl⟩
  exact ⟨rfl, .refl⟩

theorem Silent.then {p : Control Doc Unit} {f : Unit → Control Doc α} (h : Silent p)
    (next : (f ()).wp (booksReading c) T a) : (p >>= f).wp (booksReading c) T a := by
  refine Prog.wp_seq (h c a) ?_ ?_
  · rintro e a' ⟨hr, -⟩
    cases hr
  · rintro _ a' ⟨-, rfl⟩
    exact next

theorem Quiet.then {p : Control Doc Unit} {f : Unit → Control Doc α} (h : Quiet p)
    (next : ∀ a', Logged ∅ a a' → (f ()).wp (booksReading c) T a') :
    (p >>= f).wp (booksReading c) T a := by
  refine Prog.wp_seq (h c a) ?_ ?_
  · rintro e a' ⟨hr, -⟩
    cases hr
  · rintro _ a' ⟨-, hl⟩
    exact next a' hl

/-! ## Publications and cleanups -/

theorem publishTerminalError_silent (error : Error) :
    Silent (publishTerminalError error : Control Doc Unit) := by
  intro c a
  refine (Prog.wp_perform _).2 ⟨nofun, ?_⟩
  rintro _ _ rfl
  exact ⟨rfl, rfl⟩

theorem publishInstance_silent (inst : Instance) (state : CoreState) (plan : EpochPlan Doc) :
    Silent (publishInstance inst state plan) := by
  intro c a
  refine Prog.wp_perform_bind nofun ?_
  rintro snapshot _ rfl
  refine Silent.then ?_ ?_
  · intro c a
    unfold announceConfig
    split
    · refine (Prog.wp_perform _).2 ⟨nofun, ?_⟩
      rintro _ _ rfl
      exact ⟨rfl, rfl⟩
    · exact ⟨rfl, rfl⟩
  · refine (Prog.wp_perform _).2 ⟨nofun, ?_⟩
    rintro _ _ rfl
    exact ⟨rfl, rfl⟩

theorem republishRetained_silent : Silent (republishRetained : Control Doc Unit) := by
  intro c a
  refine Prog.wp_perform_bind nofun ?_
  rintro current _ ⟨rfl, rfl⟩
  split
  · exact ⟨rfl, rfl⟩
  · refine Prog.wp_perform_bind nofun ?_
    rintro status _ rfl
    exact publishInstance_silent _ _ _ c _

theorem cleanupQuietly_quiet (epoch : Epoch) : Quiet (cleanupQuietly epoch : Control Doc Unit) := by
  intro c a
  refine Prog.wp_perform_bind nofun ?_
  rintro (e | _) _ rfl
  · exact ⟨rfl, .refl⟩
  · exact ⟨rfl, .cons rfl nofun⟩

theorem restoreDnsQuietly_silent : Silent (restoreDnsQuietly : Control Doc Unit) := by
  intro c a
  refine Prog.wp_perform_bind nofun ?_
  rintro r _ rfl
  exact ⟨rfl, rfl⟩

theorem dropStagedFile_silent (staged : Staged) :
    Silent (dropStagedFile staged : Control Doc Unit) := by
  intro c a
  refine Prog.wp_perform_bind nofun ?_
  rintro r _ rfl
  exact ⟨rfl, rfl⟩

theorem removeBackupQuietly_silent (saved : Backup) :
    Silent (removeBackupQuietly saved : Control Doc Unit) := by
  intro c a
  refine Prog.wp_perform_bind nofun ?_
  rintro r _ rfl
  exact ⟨rfl, rfl⟩

theorem publishAndFail_wp {error : Error} (h : T (.error error) a) :
    (publishAndFail error : Control Doc α).wp (booksReading c) T a :=
  (publishTerminalError_silent error).then h

theorem rejectLaunch_wp {epoch : Epoch} {error : Error}
    (h : ∀ a', Logged ∅ a a' → T (.error error) a') :
    (rejectLaunch epoch error : Control Doc α).wp (booksReading c) T a :=
  (cleanupQuietly_quiet epoch).then fun a' hl => publishAndFail_wp (h a' hl)

theorem abandonCandidate_wp {epoch : Epoch} {error : Error}
    (h : ∀ a', Logged ∅ a a' → T (.error error) a') :
    (abandonCandidate epoch error : Control Doc α).wp (booksReading c) T a :=
  (cleanupQuietly_quiet epoch).then fun a' hl => republishRetained_silent.then (h a' hl)

/-- A panic leaves the books as they are. -/
theorem expect_wp {message : String} (h : Good c ∅ a) :
    (expect message : Control Doc α).wp (booksReading c) T a := by
  refine Prog.wp_perform_bind (fun _ => ⟨rfl, h⟩) ?_
  rintro b _ hb
  exact hb.elim

/-! ## Quarantine -/

theorem quarantineError_isSome {list : List QuarantinedEpoch} (h : list ≠ []) :
    (quarantineError list).isSome = true := by
  match list, h with
  | [_], _ => rfl
  | _ :: _ :: _, _ => rfl

theorem recordQuarantine_ne_nil (list : List QuarantinedEpoch) (epoch : Epoch) (reason : String) :
    recordQuarantine list epoch reason ≠ [] := by
  obtain ⟨q, hq, -⟩ : Latched (recordQuarantine list epoch reason) epoch :=
    latched_recordQuarantine.2 (.inl rfl)
  exact List.ne_nil_of_mem hq

theorem latchQuarantine_wp {epoch : Epoch} {error : Error} (hg : Good c (insert epoch E) a)
    (h : ∀ a', Good c E a' → T (.error error) a') :
    (latchQuarantine epoch error : Control Doc α).wp (booksReading c) T a := by
  refine Prog.wp_perform_bind nofun ?_
  rintro _ _ rfl
  refine Prog.wp_perform_bind nofun ?_
  rintro list _ ⟨rfl, rfl⟩
  have hsome := quarantineError_isSome
    (recordQuarantine_ne_nil a.quarantine epoch error.display)
  split
  · exact (publishTerminalError_silent _).then (h _ hg.record)
  · rename_i hnone
    rw [hnone] at hsome
    cases hsome

/-- The epoch a failed stop leaves in doubt. -/
def doubtful (error : Error) (epoch : Epoch) : Set Epoch :=
  {e | error.isStopUnconfirmed = true ∧ e = epoch}

theorem doubtful_subset (error : Error) (epoch : Epoch) : doubtful error epoch ⊆ insert epoch ∅ := by
  rintro e ⟨-, rfl⟩
  exact Set.mem_insert _ _

theorem doubtful_of_not {error : Error} {epoch : Epoch} (h : ¬error.isStopUnconfirmed = true) :
    doubtful error epoch ⊆ ∅ := by
  rintro e ⟨he, -⟩
  exact absurd he h

theorem Good.stopped_ok {epoch : Epoch} (h : Good c E a) :
    Good c E (a.log (.stopped epoch (.ok ()))) :=
  h.log rfl nofun

theorem Good.stopped_error {epoch : Epoch} {error : Error} (h : Good c ∅ a) :
    Good c (doubtful error epoch) (a.log (.stopped epoch (.error error))) :=
  (h.mono (Set.empty_subset _)).log rfl fun _ he => ⟨he.1, he.2.symm⟩

/-- Whatever the stop answered, its epoch is the only one in doubt. -/
theorem Good.stopped {epoch : Epoch} {error : Error} (h : Good c E a) :
    Good c (insert epoch E) (a.log (.stopped epoch (.error error))) :=
  (h.mono (Set.subset_insert _ _)).log rfl fun _ he => .inl he.2.symm

/-- A stop in doubt is latched, any other failure published. -/
theorem stopFailed_wp {epoch : Epoch} {error : Error} (hg : Good c (doubtful error epoch) a)
    (h : ∀ a', Good c ∅ a' → T (.error error) a') :
    (stopFailed epoch error : Control Doc α).wp (booksReading c) T a := by
  unfold stopFailed
  split
  · exact latchQuarantine_wp (hg.mono (doubtful_subset _ _)) h
  · rename_i hne
    exact publishAndFail_wp (h _ (hg.mono (doubtful_of_not hne)))

/-- The same, where nothing is published. -/
theorem latchOrFail_wp {epoch : Epoch} {error : Error} (hg : Good c (doubtful error epoch) a)
    (h : ∀ a', Good c ∅ a' → T (.error error) a') :
    (if error.isStopUnconfirmed then latchQuarantine epoch error
      else fail error : Control Doc α).wp (booksReading c) T a := by
  split
  · exact latchQuarantine_wp (hg.mono (doubtful_subset _ _)) h
  · rename_i hne
    exact h _ (hg.mono (doubtful_of_not hne))

/-! ## Preparing -/

theorem checkStaged_wp {setup : Setup Doc} {spec : InstanceSpec} {staged : Staged}
    {T : Except Error Unit → Books Doc → Prop} (h : ∀ r, T r a) :
    (checkStaged setup spec staged).wp (booksReading c) T a := by
  refine Prog.wp_perform_bind nofun ?_
  rintro (e | _) _ rfl
  · exact (dropStagedFile_silent staged).then (h _)
  · exact h _

/-- What is prepared is an epoch's first generation. -/
theorem prepareLaunchWithFeatures_wp {setup : Setup Doc} {spec : InstanceSpec} {epoch : Epoch}
    {snapshot : Snapshot Doc} {resolved : ResolvedFeatures}
    {T : Except Error (EpochPlan Doc) → Books Doc → Prop} (he : epoch.get ≤ a.last)
    (error : ∀ e, T (.error e) a) (ok : ∀ plan, plan.revision.epoch = epoch → T (.ok plan) a) :
    (prepareLaunchWithFeatures setup spec epoch snapshot resolved).wp (booksReading c) T a := by
  unfold prepareLaunchWithFeatures
  rw [Prog.wp_bind, Prog.wp_ret]
  cases setup.prepareFull snapshot epoch resolved.runtime (localIpcSettings setup spec) with
  | error e => exact error e
  | ok full =>
    rw [Prog.andThen_ok, Prog.wp_bind, Prog.wp_ret]
    cases nativePaths setup spec full with
    | error e => exact error e
    | ok prepared =>
      refine Prog.wp_demand_bind (fun _ => ⟨rfl, he⟩) ?_ ?_
      · rintro e _ rfl
        exact error e
      rintro staged _ rfl
      refine (Prog.wp_bind ..).2 (checkStaged_wp ?_)
      rintro (e | _)
      · exact error e
      refine Prog.wp_demand_bind nofun ?_ ?_
      · rintro e _ rfl
        exact error e
      rintro path _ rfl
      exact ok _ rfl

theorem prepareLaunch_wp {setup : Setup Doc} {spec : InstanceSpec} {epoch : Epoch}
    {snapshot : Snapshot Doc} {T : Except Error (EpochPlan Doc) → Books Doc → Prop}
    (he : epoch.get ≤ a.last) (error : ∀ e, T (.error e) a)
    (ok : ∀ plan, plan.revision.epoch = epoch → T (.ok plan) a) :
    (prepareLaunch setup spec epoch snapshot).wp (booksReading c) T a := by
  refine Prog.wp_demand_bind nofun ?_ ?_
  · rintro e _ rfl
    exact error e
  rintro _ _ rfl
  refine Prog.wp_demand_bind nofun ?_ ?_
  · rintro e _ rfl
    exact error e
  rintro resolved _ rfl
  exact prepareLaunchWithFeatures_wp he error ok

/-! ## Starting -/

theorem startPrepared_good {plan : EpochPlan Doc} (hg : Good c ∅ a)
    (hf : a.Fresh plan.revision.epoch) :
    (startPrepared plan).wp (booksReading c) (fun _ a' => Good c ∅ a') a := by
  have reject : ∀ {a : Books Doc} {error : Error}, Good c ∅ a →
      (rejectLaunch plan.revision.epoch error : Control Doc Unit).wp (booksReading c)
        (fun _ a' => Good c ∅ a') a :=
    fun hg => rejectLaunch_wp fun a' hl => hg.quiet hl
  refine Prog.wp_perform_bind nofun ?_
  rintro (error | _) a rfl
  · exact restoreDnsQuietly_silent.then (reject hg)
  refine Prog.wp_perform_bind nofun ?_
  rintro (error | _) a rfl
  · exact reject hg
  refine Prog.wp_perform_bind nofun ?_
  rintro _ a rfl
  refine Prog.wp_perform_bind nofun ?_
  rintro (error | inst) _ hlaunch
  · -- an unconfirmed launch is not latched here, and not counted
    cases hlaunch
    exact restoreDnsQuietly_silent.then (reject (hg.log rfl nofun))
  obtain ⟨haligned, rfl⟩ := hlaunch
  have hg₁ := hg.quiet (.launched .initial plan.revision.epoch)
  have hf₁ := hf.logged (.launched .initial plan.revision.epoch)
  refine Prog.wp_perform_bind nofun ?_
  rintro (readiness | _) _ rfl
  · refine Prog.wp_perform_bind nofun ?_
    rintro (stopError | _) _ rfl
    · rw [haligned]
      exact latchQuarantine_wp (hg₁.stopped (E := ∅)) fun a' h => h
    · exact restoreDnsQuietly_silent.then (reject hg₁.stopped_ok)
  refine Prog.wp_perform_bind nofun ?_
  rintro pid _ rfl
  refine (publishInstance_silent _ _ _).then ?_
  refine (Prog.wp_perform _).2 ⟨nofun, ?_⟩
  rintro _ _ rfl
  exact hg₁.commit false ⟨inst, plan⟩ haligned (fun p hp => le_of_lt (hf₁.below rfl p hp)) hf₁.le_last
    (fun _ => hf₁.below rfl) nofun

theorem startLocked_good {setup : Setup Doc} {spec : InstanceSpec} (hg : Good c ∅ a) :
    (startLocked setup spec).wp (booksReading c) (fun _ a' => Good c ∅ a') a := by
  refine Prog.wp_perform_bind (fun _ => ⟨rfl, hg⟩) ?_
  rintro epoch _ ⟨he, rfl⟩
  have hg₁ := hg.allocate he
  have hf := hg.fresh he
  refine Prog.wp_perform_bind nofun ?_
  rintro (error | snapshot) _ rfl
  · exact publishAndFail_wp hg₁
  refine Prog.wp_bind .. |>.2 ((Prog.wp_attempt ..).2 (prepareLaunch_wp hf.le_last ?_ ?_))
  · intro e
    exact rejectLaunch_wp fun a' hl => hg₁.quiet hl
  · rintro plan rfl
    exact startPrepared_good hg₁ hf

/-! ## Retiring -/

/-- What retiring leaves: the slot is empty, and the plan that was in it could
come back. -/
def Retired (c : Context Doc) (a : Books Doc) (r : Except Error (Except RetireFailure
    (Option (EpochPlan Doc)))) (a' : Books Doc) : Prop :=
  match r with
  | .error _ => False
  | .ok (.ok none) => a.current = none ∧ Good c ∅ a'
  | .ok (.ok (some plan)) => a.current.map Active.plan = some plan ∧ a'.current = none ∧
      a'.Held plan ∧ commits a'.trace = commits a.trace ∧ a'.last = a.last ∧ Good c ∅ a'
  | .ok (.error failure) => a'.current = none ∧
      Good c (doubtful failure.error failure.epoch) a'

theorem retireCurrent_spec {site : Site} (hg : Good c ∅ a) :
    (retireCurrent site).wp (booksReading c) (Retired c a) a := by
  refine Prog.wp_perform_bind nofun ?_
  rintro current _ ⟨rfl, rfl⟩
  split
  · rename_i hnone
    exact ⟨hnone, hg.take⟩
  · rename_i active hsome
    have hs := hg.standing active hsome
    refine Prog.wp_perform_bind nofun ?_
    rintro _ _ rfl
    refine Prog.wp_perform_bind nofun ?_
    rintro (error | _) _ rfl
    · refine ⟨rfl, ?_⟩
      rw [hs.aligned]
      exact hg.take.stopped_error
    · refine ⟨by rw [hsome]; rfl, rfl, ⟨hs.held.top, hs.held.le_last⟩, rfl, rfl, ?_⟩
      exact hg.take.stopped_ok

theorem discardStale_good (hg : Good c ∅ a) :
    (discardStale : Control Doc Unit).wp (booksReading c) (fun _ a' => Good c ∅ a') a := by
  refine Prog.wp_seq (retireCurrent_spec hg) (fun _ _ h => h.elim) ?_
  rintro (⟨epoch, error⟩ | (_ | plan)) a₁ hr
  · exact latchOrFail_wp hr.2 fun a' h => h
  · exact hr.2
  · refine (Prog.wp_demand _).2 ⟨nofun, ?_⟩
    rintro (e | _) _ rfl
    · exact hr.2.2.2.2.2
    · exact hr.2.2.2.2.2.log rfl nofun

theorem stopActive_good {active : Active Doc} (hg : Good c ∅ a) :
    (stopActive active).wp (booksReading c) (fun _ a' => Good c ∅ a') a := by
  refine Prog.wp_perform_bind nofun ?_
  rintro _ _ rfl
  refine Prog.wp_perform_bind nofun ?_
  rintro (error | _) _ rfl
  · exact stopFailed_wp hg.stopped_error fun a' h => h
  refine Prog.wp_perform_bind nofun ?_
  rintro (error | _) _ rfl
  · exact publishAndFail_wp hg.stopped_ok
  refine (Prog.wp_perform _).2 ⟨nofun, ?_⟩
  rintro _ _ rfl
  exact hg.stopped_ok.log rfl nofun

theorem stopEnded_good {active : Active Doc} {captured : InstanceStatus} (hg : Good c ∅ a) :
    (stopEnded active captured).wp (booksReading c) (fun _ a' => Good c ∅ a') a := by
  refine Prog.wp_perform_bind nofun ?_
  rintro _ _ rfl
  refine Prog.wp_perform_bind nofun ?_
  rintro (error | _) _ rfl
  · exact latchOrFail_wp hg.stopped_error fun a' h => h
  refine Prog.wp_perform_bind nofun ?_
  rintro (error | _) _ rfl
  · exact publishAndFail_wp hg.stopped_ok
  · exact hg.stopped_ok.log rfl nofun

theorem stop_good (hg : Good c ∅ a) :
    (stop : Control Doc Unit).wp (booksReading c) (fun _ a' => Good c ∅ a') a := by
  refine Prog.wp_demand_bind nofun ?_ ?_
  · rintro e _ rfl
    exact hg
  rintro _ _ rfl
  refine Prog.wp_perform_bind nofun ?_
  rintro current _ ⟨rfl, rfl⟩
  split
  · exact hg.take
  refine Prog.wp_perform_bind nofun ?_
  rintro captured _ rfl
  refine Prog.wp_perform_bind nofun ?_
  rintro _ _ rfl
  split
  · exact stopEnded_good hg.take
  · exact stopActive_good hg.take

theorem shutdown_good (hg : Good c ∅ a) :
    (shutdown : Control Doc Unit).wp (booksReading c) (fun _ a' => Good c ∅ a') a := by
  refine Prog.wp_demand_bind nofun ?_ ?_
  · rintro e _ rfl
    exact hg
  rintro _ _ rfl
  refine Prog.wp_perform_bind nofun ?_
  rintro current _ ⟨rfl, rfl⟩
  split
  · exact hg.take
  refine Prog.wp_perform_bind nofun ?_
  rintro _ _ rfl
  exact stopActive_good hg.take

/-! ## Replacing -/

/-- A replacement runs, or it failed with the doubt that its error carries. -/
def Replaced (plan : EpochPlan Doc) (a : Books Doc) (r : Except Error Instance) (a' : Books Doc) :
    Prop :=
  match r with
  | .ok inst => inst.epoch = plan.revision.epoch ∧ Logged ∅ a a'
  | .error error => Logged (doubtful error plan.revision.epoch) a a'

theorem spawnReplacement_spec (plan : EpochPlan Doc) :
    (spawnReplacement plan).wp (booksReading c) (Replaced plan a) a := by
  refine Prog.wp_demand_bind nofun ?_ ?_
  · rintro e _ rfl
    exact .refl
  rintro _ _ rfl
  refine Prog.wp_demand_bind nofun ?_ ?_
  · rintro e _ rfl
    exact .refl
  rintro _ a rfl
  refine Prog.wp_demand_bind nofun ?_ ?_
  · rintro e _ rfl
    exact .cons rfl fun _ he => ⟨he.2.1, he.2.2.symm⟩
  rintro inst _ ⟨haligned, rfl⟩
  have launched {X : Set Epoch} :
      Logged X a (a.log (.launched .replacement plan.revision.epoch (.ok ()))) := .cons rfl nofun
  refine Prog.wp_perform_bind nofun ?_
  rintro (error | _) _ rfl
  · refine Prog.wp_perform_bind nofun ?_
    rintro (stopError | _) _ rfl
    · refine launched.trans (.cons rfl ?_)
      rintro e ⟨-, rfl⟩
      exact ⟨rfl, haligned⟩
    · exact launched.trans (.cons rfl nofun)
  · exact ⟨haligned, launched⟩

/-- The caller of a replacement that failed. -/
theorem Good.replacement_failed {plan : EpochPlan Doc} {a a' : Books Doc} {error : Error}
    (hg : Good c ∅ a) (h : Logged (doubtful error plan.revision.epoch) a a') :
    Good c (doubtful error plan.revision.epoch) a' := by
  simpa using hg.logged h

theorem retireOld_wp {message : String} {next : EpochPlan Doc → Control Doc α}
    {onFailure : RetireFailure → Control Doc α} (hg : Good c ∅ a)
    (retired : ∀ plan a', a.current.map Active.plan = some plan → a'.Held plan →
      (∀ e, a.Fresh e → a'.Fresh e) → Good c ∅ a' → (next plan).wp (booksReading c) T a')
    (failed : ∀ failure a', Good c (doubtful failure.error failure.epoch) a' →
      (onFailure failure).wp (booksReading c) T a') :
    (retireOld message next onFailure).wp (booksReading c) T a := by
  refine Prog.wp_seq (retireCurrent_spec hg) (fun _ _ h => h.elim) ?_
  rintro (failure | (_ | plan)) a₁ hr
  · exact failed failure a₁ hr.2
  · exact expect_wp hr.2
  · obtain ⟨hplan, -, hheld, hcommits, hlast, hgood⟩ := hr
    refine retired plan a₁ hplan hheld ?_ hgood
    intro e he
    refine ⟨?_, by rw [hlast]; exact he.le_last⟩
    rw [hcommits]
    exact he.above

/-! ## Switching -/

theorem hardSwitch_good {setup : Setup Doc} {spec : InstanceSpec} {snapshot : Snapshot Doc}
    {resolved : ResolvedFeatures} (hg : Good c ∅ a) :
    (hardSwitch setup spec snapshot resolved).wp (booksReading c) (fun _ a' => Good c ∅ a') a := by
  refine Prog.wp_perform_bind (fun _ => ⟨rfl, hg⟩) ?_
  rintro epoch _ ⟨he, rfl⟩
  have hg₁ := hg.allocate he
  have hf := hg.fresh he
  refine Prog.wp_bind .. |>.2 ((Prog.wp_attempt ..).2 (prepareLaunchWithFeatures_wp hf.le_last ?_ ?_))
  · intro e
    exact abandonCandidate_wp fun a' hl => hg₁.quiet hl
  rintro plan rfl
  refine Prog.wp_perform_bind nofun ?_
  rintro (error | _) _ rfl
  · exact abandonCandidate_wp fun a' hl => hg₁.quiet hl
  refine Prog.wp_perform_bind nofun ?_
  rintro old _ ⟨-, rfl⟩
  refine Prog.wp_perform_bind nofun ?_
  rintro _ _ rfl
  refine retireOld_wp hg₁ ?_ ?_
  · intro retired a₂ _ _ hfresh hg₂
    refine Prog.wp_perform_bind nofun ?_
    rintro (error | _) _ rfl
    · exact publishAndFail_wp hg₂
    · exact startPrepared_good (hg₂.log rfl nofun)
        ((hfresh _ hf).logged (X := ∅) (.cons rfl nofun))
  · intro failure a₂ hg₂
    refine (cleanupQuietly_quiet _).then fun a₃ hl => ?_
    exact stopFailed_wp (hg₂.quiet hl) fun a' h => h

/-- What is staged meanwhile does not concern the books. -/
theorem orDrop_wp {staged : Staged} {p : Control Doc α}
    (hp : p.wp (booksReading c) T a) :
    (orDrop staged p).wp (booksReading c) T a := by
  refine (Prog.wp_bind ..).2 ((Prog.wp_attempt ..).2 (Prog.wp_mono hp ?_))
  rintro (e | x) a' h
  · exact (dropStagedFile_silent staged).then h
  · exact h

theorem prepareGraceful_wp {setup : Setup Doc} {spec : InstanceSpec} {epoch : Epoch}
    {snapshot : Snapshot Doc} {resolved : ResolvedFeatures}
    {T : Except Error (PreparedGraceful Doc) → Books Doc → Prop} (he : epoch.get ≤ a.last)
    (error : ∀ e, T (.error e) a) (ok : ∀ p, p.plan.revision.epoch = epoch → T (.ok p) a) :
    (prepareGraceful setup spec epoch snapshot resolved).wp (booksReading c) T a := by
  unfold prepareGraceful
  rw [Prog.wp_bind, Prog.wp_ret]
  cases setup.prepareFull snapshot epoch resolved.runtime (localIpcSettings setup spec) with
  | error e => exact error e
  | ok full =>
    rw [Prog.andThen_ok, Prog.wp_bind, Prog.wp_ret]
    cases setup.prepareBootstrap snapshot epoch resolved.runtime (localIpcSettings setup spec) with
    | error e => exact error e
    | ok bootstrap =>
      rw [Prog.andThen_ok]
      split
      · exact error _
      rw [Prog.wp_bind, Prog.wp_ret]
      cases setup.restorationPatch bootstrap.document full.document with
      | error e => exact error e
      | ok patch =>
        refine Prog.wp_demand_bind (fun _ => ⟨rfl, he⟩) ?_ ?_
        · rintro e _ rfl
          exact error e
        rintro fullStaged _ rfl
        refine (Prog.wp_bind ..).2 (checkStaged_wp ?_)
        rintro (e | _)
        · exact error e
        refine (Prog.wp_bind ..).2 (orDrop_wp ?_)
        refine Prog.wp_demand_bind (fun _ => ⟨rfl, he⟩) ?_ ?_
        · rintro e _ rfl
          exact error e
        rintro staged _ rfl
        refine (Prog.wp_bind ..).2 (checkStaged_wp ?_)
        rintro (e | _)
        · exact error e
        refine (Prog.wp_demand _).2 ⟨nofun, ?_⟩
        rintro (e | path) _ rfl
        · exact error e
        · exact ok _ rfl

/-- The bootstrap is up beside the old epoch, and is turned down. -/
theorem rejectBootstrap_good {inst : Instance} {epoch : Epoch} {error : Error} {text : String}
    (hg : Good c ∅ a) (hi : inst.epoch = epoch) :
    (rejectBootstrap inst epoch error text : Control Doc α).wp (booksReading c)
      (fun _ a' => Good c ∅ a') a := by
  refine Prog.wp_perform_bind nofun ?_
  rintro (stopError | _) _ rfl
  · rw [hi]
    exact latchQuarantine_wp (hg.stopped (E := ∅)) fun a' h => h
  · exact abandonCandidate_wp fun a' hl => hg.stopped_ok.quiet hl

theorem retreatFromBoth_good {inst : Instance} {epoch : Epoch} {failure : RetireFailure}
    (hg : Good c (doubtful failure.error failure.epoch) a) (hi : inst.epoch = epoch) :
    (retreatFromBoth inst epoch failure : Control Doc α).wp (booksReading c)
      (fun _ a' => Good c ∅ a') a := by
  refine Prog.wp_perform_bind nofun ?_
  rintro (newError | _) _ rfl
  · -- both stops may be in doubt: the old epoch is recorded, the new one latched
    have hboth : Good c (insert inst.epoch (doubtful failure.error failure.epoch))
        (a.log (.stopped inst.epoch (.error newError))) := hg.stopped
    rw [hi] at hboth ⊢
    simp only
    split
    · refine Prog.wp_perform_bind nofun ?_
      rintro _ _ rfl
      refine latchQuarantine_wp (E := ∅) ?_ fun a' h => h
      refine Good.record (hboth.mono ?_)
      rw [Set.insert_comm]
      exact Set.insert_subset_insert (doubtful_subset _ _)
    · rename_i hne
      refine latchQuarantine_wp (E := ∅) ?_ fun a' h => h
      exact hboth.mono (Set.insert_subset_insert (doubtful_of_not hne))
  · refine (cleanupQuietly_quiet epoch).then fun a' hl => ?_
    exact stopFailed_wp (hg.stopped_ok.quiet hl) fun a' h => h

theorem commitFailed_good {inst : Instance} {epoch : Epoch} {error : Error}
    (hg : Good c ∅ a) (hi : inst.epoch = epoch) :
    (commitFailed inst epoch error : Control Doc α).wp (booksReading c)
      (fun _ a' => Good c ∅ a') a := by
  refine Prog.wp_perform_bind nofun ?_
  rintro (newError | _) _ rfl
  · rw [hi]
    exact latchQuarantine_wp (hg.stopped (E := ∅)) fun a' h => h
  · refine (cleanupQuietly_quiet epoch).then fun a' hl => ?_
    exact stopFailed_wp ((hg.stopped_ok.quiet hl).mono (Set.empty_subset _)) fun a' h => h

theorem completeSwitch_good {inst : Instance} {plan : EpochPlan Doc} {old : Epoch}
    {outcome : SwitchOutcome} (hg : Good c ∅ a) (hi : inst.epoch = plan.revision.epoch)
    (hf : a.Fresh plan.revision.epoch) :
    (completeSwitch inst plan old outcome).wp (booksReading c) (fun _ a' => Good c ∅ a') a := by
  refine Prog.wp_perform_bind nofun ?_
  rintro pid _ rfl
  refine (publishInstance_silent _ _ _).then ?_
  refine Prog.wp_perform_bind nofun ?_
  rintro _ _ rfl
  have hg₁ := hg.commit false ⟨inst, plan⟩ hi
    (fun p hp => le_of_lt (hf.below rfl p hp)) hf.le_last (fun _ => hf.below rfl) nofun
  refine Prog.wp_demand_bind nofun ?_ ?_
  · rintro e _ rfl
    exact hg₁
  rintro _ _ rfl
  exact hg₁.log rfl nofun

theorem replaceBootstrap_good {inst : Instance} {plan : EpochPlan Doc} {old : Epoch}
    (hg : Good c ∅ a) (hi : inst.epoch = plan.revision.epoch)
    (hf : a.Fresh plan.revision.epoch) :
    (replaceBootstrap inst plan old).wp (booksReading c) (fun _ a' => Good c ∅ a') a := by
  refine Prog.wp_perform_bind nofun ?_
  rintro (error | _) _ rfl
  · rw [hi]
    exact stopFailed_wp hg.stopped_error fun a' h => h
  have hg₁ : Good c ∅ (a.log (.stopped inst.epoch (.ok ()))) := hg.stopped_ok
  refine Prog.wp_attempt_seq (spawnReplacement_spec plan) ?_
  rintro (error | replacement) a₂ hr
  · have hg₂ := hg₁.replacement_failed hr
    simp only
    split
    · exact latchQuarantine_wp (hg₂.mono (doubtful_subset _ _)) fun a' h => h
    · rename_i hne
      exact rejectLaunch_wp fun a' hl => (hg₂.mono (doubtful_of_not hne)).quiet hl
  · refine completeSwitch_good (hg₁.quiet hr.2) hr.1 ?_
    exact (hf.logged (.stopped inst.epoch)).logged hr.2

theorem takeOver_good {inst : Instance} {plan : EpochPlan Doc} {fullStaged : Staged}
    (hg : Good c ∅ a) (hi : inst.epoch = plan.revision.epoch)
    (hf : a.Fresh plan.revision.epoch) :
    (takeOver inst plan fullStaged).wp (booksReading c) (fun _ a' => Good c ∅ a') a := by
  refine retireOld_wp hg ?_ ?_
  · intro retired a₁ _ _ hfresh hg₁
    refine Prog.wp_perform_bind nofun ?_
    rintro (error | warning) _ rfl
    · exact commitFailed_good hg₁ hi
    refine Prog.wp_perform_bind nofun ?_
    rintro reconciled _ rfl
    split
    · exact Prog.wp_attempt_seq (completeSwitch_good hg₁ hi (hfresh _ hf)) fun _ _ h => h
    · exact Prog.wp_attempt_seq (replaceBootstrap_good hg₁ hi (hfresh _ hf)) fun _ _ h => h
  · intro failure a₁ hg₁
    exact (dropStagedFile_silent _).then (retreatFromBoth_good hg₁ hi)

theorem gracefulSwitch_good {setup : Setup Doc} {spec : InstanceSpec} {snapshot : Snapshot Doc}
    {resolved : ResolvedFeatures} (hg : Good c ∅ a) :
    (gracefulSwitch setup spec snapshot resolved).wp (booksReading c)
      (fun _ a' => Good c ∅ a') a := by
  refine Prog.wp_perform_bind nofun ?_
  rintro old a ⟨-, rfl⟩
  refine Prog.wp_perform_bind (fun _ => ⟨rfl, hg⟩) ?_
  rintro epoch _ ⟨he, rfl⟩
  have hg₁ := hg.allocate he
  have hf := hg.fresh he
  have abandon {a : Books Doc} {error : Error} (hg : Good c ∅ a) :
      (abandonCandidate epoch error : Control Doc SwitchOutcome).wp (booksReading c)
        (fun _ a' => Good c ∅ a') a := abandonCandidate_wp fun a' hl => hg.quiet hl
  refine Prog.wp_bind .. |>.2 ((Prog.wp_attempt ..).2 (prepareGraceful_wp hf.le_last ?_ ?_))
  · intro e
    exact abandon hg₁
  rintro ⟨plan, fullStaged⟩ rfl
  refine Prog.wp_perform_bind nofun ?_
  rintro (error | _) _ rfl
  · refine Prog.wp_perform_bind nofun ?_
    rintro r _ rfl
    exact (dropStagedFile_silent _).then (abandon hg₁)
  refine Prog.wp_perform_bind nofun ?_
  rintro _ a₁ rfl
  refine Prog.wp_perform_bind nofun ?_
  rintro (error | inst) _ hlaunch
  · -- an unconfirmed bootstrap launch is not latched here, and not counted
    cases hlaunch
    exact (dropStagedFile_silent _).then (abandon (hg₁.log rfl nofun))
  obtain ⟨hi, rfl⟩ := hlaunch
  have hg₂ := hg₁.quiet (.launched .bootstrap plan.revision.epoch)
  have hf₂ := hf.logged (.launched .bootstrap plan.revision.epoch)
  refine Prog.wp_perform_bind nofun ?_
  rintro (error | _) _ rfl
  · exact (dropStagedFile_silent _).then (rejectBootstrap_good hg₂ hi)
  refine Prog.wp_perform_bind nofun ?_
  rintro (error | _) _ rfl
  · exact (dropStagedFile_silent _).then (rejectBootstrap_good hg₂ hi)
  · exact takeOver_good hg₂ hi hf₂

theorem runtimeAlive_wp {T : Except Error Bool → Books Doc → Prop} (h : ∀ b, T (.ok b) a) :
    (runtimeAlive : Control Doc Bool).wp (booksReading c) T a := by
  refine Prog.wp_perform_bind nofun ?_
  rintro current _ ⟨-, rfl⟩
  split
  · exact h false
  · refine Prog.wp_perform_bind nofun ?_
    rintro status _ rfl
    exact h _

theorem switchLocked_good {setup : Setup Doc} {spec : InstanceSpec} (hg : Good c ∅ a) :
    (switchLocked setup spec).wp (booksReading c) (fun _ a' => Good c ∅ a') a := by
  refine (Prog.wp_bind ..).2 (runtimeAlive_wp ?_)
  intro alive
  simp only [Prog.andThen_ok]
  split
  · refine Prog.wp_seq (discardStale_good hg) (fun _ _ h => h) ?_
    intro _ a₁ hg₁
    exact Prog.wp_seq (startLocked_good hg₁) (fun _ _ h => h) fun _ _ h => h
  refine Prog.wp_demand_bind (by rintro ⟨⟩) ?_ ?_
  · rintro e _ rfl
    exact hg
  rintro snapshot _ rfl
  refine Prog.wp_demand_bind (by rintro ⟨⟩) ?_ ?_
  · rintro e _ rfl
    exact hg
  rintro _ _ rfl
  refine Prog.wp_demand_bind (by rintro ⟨⟩) ?_ ?_
  · rintro e _ rfl
    exact hg
  rintro resolved _ rfl
  refine Prog.wp_perform_bind (by rintro ⟨⟩) ?_
  rintro current _ ⟨-, rfl⟩
  split
  · exact Prog.wp_seq (hardSwitch_good hg) (fun _ _ h => h) fun _ _ h => h
  · split
    · exact Prog.wp_seq (hardSwitch_good hg) (fun _ _ h => h) fun _ _ h => h
    · exact gracefulSwitch_good hg

end Chimera.Manager
