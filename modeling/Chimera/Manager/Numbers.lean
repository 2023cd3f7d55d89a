import Chimera.Manager.Runs
import Chimera.Manager.Shelf

/-! The numbers in the names that the store writes. While a manager is there,
none of them is above the last epoch it allocated: a file is staged for an
allocated epoch, whatever is linked or restored was there before, and a
construction counts from the highest number it found. -/

namespace Chimera.Manager
open Chimera.Model Chimera.Lib.Program Chimera.Lib.Transition

variable {Doc : Type}

/-- The names that runtimes write. -/
def runtimes : Set Artifact := {a | a.ofRuntime = true}

/-- No number of an epoch is above `last`. -/
def UpTo (last : Nat) (n : Set Artifact) : Prop := ∀ a ∈ n, a.number < 2 ^ 64 → a.number ≤ last

theorem UpTo.subset {last : Nat} {n n' : Set Artifact} (hn : UpTo last n) (h : n' ⊆ n) :
    UpTo last n' :=
  fun a ha => hn a (h ha)

theorem UpTo.insert {last : Nat} {n : Set Artifact} {a : Artifact} (hn : UpTo last n)
    (ha : a.number ≤ last) : UpTo last (insert a n) := by
  rintro b (rfl | hb) hlt
  · exact ha
  · exact hn b hb hlt

/-! ## The store -/

/-- The primitive writes no name above `last`. -/
def StorePrim.upTo (last : Nat) {β : Type} : StorePrim β → Prop
  | .createNew a | .write a _ => a.ofRuntime = false ∧ a.number ≤ last
  | .link source target | .rename source target =>
    source.ofRuntime = false ∧ target.ofRuntime = false ∧ target.number ≤ last
  | _ => True

section Store

variable {setup : Setup Doc} {last number : Nat} {n n' : Set Artifact} {a source target : Artifact}
  {epoch : Epoch} {staged : Staged} {saved : Backup} {ε α β : Type}

theorem UpTo.step {op : StorePrim β} {b : β} (hn : UpTo last n) (hop : op.upTo last)
    (h : op.onNames runtimes False False n b n') : UpTo last n' := by
  have outside {x : Artifact} (hx : x.ofRuntime = false) : x ∉ runtimes :=
    not_runtime (fun _ h => h) hx
  cases op with
  | temp | sync _ | read _ =>
    obtain rfl : n' = n := h
    exact hn
  | stat _ | setPermissions _ | readDir | syncDir =>
    obtain rfl := h.1
    exact hn
  | remove _ => exact hn.subset h.1
  | write a bytes =>
    rw [h (outside hop.1)]
    exact hn.insert hop.2
  | createNew a =>
    obtain ⟨hok, herror⟩ := h (outside hop.1)
    cases b with
    | ok _ => exact hok rfl ▸ hn.insert hop.2
    | error e => exact herror e rfl ▸ hn
  | link source target =>
    obtain ⟨hok, herror⟩ := h (outside hop.1) (outside hop.2.1)
    cases b with
    | ok _ => exact (hok rfl).2 ▸ hn.insert hop.2.2
    | error e => exact herror e rfl ▸ hn
  | rename source target =>
    obtain ⟨hok, herror⟩ := h (outside hop.1) (outside hop.2.1)
    cases b with
    | ok _ => exact hok rfl ▸ (hn.subset Set.sdiff_subset).insert hop.2.2
    | error e => exact herror e rfl ▸ hn

/-- The program writes no name above `last`. -/
abbrev Counts (last : Nat) (p : Prog ε StorePrim α) : Prop := p.Only fun op => op.upTo last

abbrev countsReading : Reading StorePrim (Set Artifact) := namesReading runtimes False False

theorem Counts.wp {p : Prog ε StorePrim α} (hp : Counts last p) (hn : UpTo last n) :
    p.wp countsReading (fun _ n' => UpTo last n') n :=
  Prog.Only.keeps (R := countsReading) (I := UpTo last) hp (fun _ _ _ _ => trivial)
    (fun _ _ _ _ hop h hn => hn.step hop h) hn

theorem file_counts (op : StorePrim (Except String α)) (hop : op.upTo last) :
    Counts last (file op) := ⟨hop, fun _ => .ret _⟩

theorem validateAbsent_counts : Counts last (validateAbsentRegularTarget setup a) := by
  refine (file_counts (.stat _) (by trivial)).bind fun node => ?_
  split
  · exact .ret _
  · exact .ret _
  · exact .ret _

theorem validateExisting_counts : Counts last (validateExistingRegularTarget setup a) := by
  refine (file_counts (.stat _) (by trivial)).bind fun node => ?_
  split
  · exact .ret _
  · exact .ret _
  · exact .ret _

theorem removeRegularFile_counts : Counts last (removeRegularFile setup a) := by
  refine (file_counts (.stat _) (by trivial)).bind fun node => ?_
  split
  · exact .ret _
  · exact file_counts (.remove _) (by trivial)
  · exact .ret _

theorem removeSocketArtifact_counts : Counts last (removeSocketArtifact setup a) := by
  refine (file_counts (.stat _) (by trivial)).bind fun node => ?_
  split
  · exact .ret _
  · exact file_counts (.remove _) (by trivial)
  · exact .ret _

theorem removeAll_counts (entries : List Artifact) : Counts last (removeAll setup entries) := by
  induction entries with
  | nil => exact .ret _
  | cons a rest ih => exact removeRegularFile_counts.bind fun _ => ih

theorem cleanupArtifacts_counts : Counts last (cleanupArtifacts setup number) := by
  refine removeRegularFile_counts.bind fun _ => removeRegularFile_counts.bind fun _ => ?_
  refine removeSocketArtifact_counts.bind fun _ => ?_
  refine (file_counts .readDir (by trivial)).bind fun entries => ?_
  exact (removeAll_counts _).bind fun _ => file_counts .syncDir (by trivial)

theorem dropStaged_counts : Counts last (dropStaged staged) :=
  (Prog.Only.perform trivial).bind fun _ => .ret _

theorem orDropStaged_counts {move : Prog Error StorePrim Unit} (hmove : Counts last move) :
    Counts last (orDropStaged staged move) := by
  refine hmove.attempt.bind fun r => ?_
  cases r with
  | ok _ => exact .ret _
  | error e => exact dropStaged_counts.bind fun _ => .ret _

theorem atomicMoveNew_counts (hs : source.ofRuntime = false) (ht : target.ofRuntime = false)
    (hle : target.number ≤ last) : Counts last (atomicMoveNew source target) :=
  (file_counts (.link _ _) (by exact ⟨hs, ht, hle⟩)).bind fun _ =>
    file_counts (.remove _) (by trivial)

theorem stage_counts (he : epoch.get ≤ last) {contents : List UInt8} :
    Counts last (stage setup epoch contents) := by
  refine (Prog.Only.perform trivial).bind fun counter => validateAbsent_counts.bind fun _ => ?_
  refine (file_counts (.createNew _) (by exact ⟨rfl, he⟩)).bind fun _ => ?_
  refine (file_counts (.setPermissions _) (by trivial)).bind fun _ => ?_
  refine Prog.Only.bind (Prog.Only.attempt ?_) fun r => ?_
  · exact (file_counts (.write _ _) (by exact ⟨rfl, he⟩)).bind fun _ =>
      file_counts (.sync _) (by trivial)
  · cases r with
    | ok _ => exact .ret _
    | error e => exact (Prog.Only.perform trivial).bind fun _ => .ret _

/-- What is found in the directory has a number up to `last`. -/
theorem validateExisting_known (hn : UpTo last n) (ha : a.ofRuntime = false)
    (hlt : a.number < 2 ^ 64) : (validateExistingRegularTarget setup a).wp countsReading
      (fun r n' => n' = n ∧ (r = .ok () → a.number ≤ last)) n := by
  refine Prog.wp_mono validateExisting_names ?_
  intro r n' h
  exact ⟨h.1, fun hr => hn a (h.2 hr (not_runtime (fun _ h => h) ha)) hlt⟩

theorem validateStaged_known (hn : UpTo last n) :
    (validateStaged setup staged epoch).wp countsReading
      (fun r n' => n' = n ∧ (r = .ok () → epoch.get ≤ last)) n := by
  unfold validateStaged
  split
  · exact ⟨rfl, nofun⟩
  · rename_i hepoch
    obtain rfl := not_not.1 hepoch
    exact validateExisting_known hn rfl staged.epoch.lt

/-- A program that starts by finding a name of the epoch. -/
theorem known_wp {p : Prog Error StorePrim Unit} {f : Unit → Prog Error StorePrim α}
    (hn : UpTo last n)
    (hp : p.wp countsReading (fun r n' => n' = n ∧ (r = .ok () → epoch.get ≤ last)) n)
    (hf : epoch.get ≤ last → (f ()).wp countsReading (fun _ n' => UpTo last n') n) :
    (p >>= f).wp countsReading (fun _ n' => UpTo last n') n := by
  refine Prog.wp_seq hp (fun e n' h => h.1 ▸ hn) ?_
  intro _ n₁ h
  obtain ⟨rfl, hle⟩ := h
  exact hf (hle rfl)

theorem orDropStaged_wp {move : Prog Error StorePrim Unit}
    (hmove : move.wp countsReading (fun _ n' => UpTo last n') n) :
    (orDropStaged staged move).wp countsReading (fun _ n' => UpTo last n') n := by
  refine Prog.wp_attempt_seq hmove ?_
  intro r n₁ hn₁
  cases r with
  | ok _ => exact hn₁
  | error e => exact Counts.wp (dropStaged_counts.bind fun _ => .ret _) hn₁

theorem commitNew_counts (hn : UpTo last n) : (commitNew setup staged epoch).wp countsReading
    (fun _ n' => UpTo last n') n := by
  refine Prog.wp_seq (orDropStaged_wp (known_wp hn (validateStaged_known hn) fun hle => ?_))
    (fun _ _ h => h) fun _ n₁ hn₁ =>
      Counts.wp ((file_counts .syncDir (by trivial)).bind fun _ => .ret _) hn₁
  exact Counts.wp (validateAbsent_counts.bind fun _ => atomicMoveNew_counts rfl rfl hle) hn

theorem commitReplace_counts (hn : UpTo last n) :
    (commitReplace setup staged epoch).wp countsReading (fun _ n' => UpTo last n') n := by
  refine Prog.wp_seq (orDropStaged_wp (known_wp hn (validateStaged_known hn) fun hle => ?_))
    (fun _ _ h => h) fun _ n₁ hn₁ => Counts.wp ((Prog.Only.perform trivial).bind fun _ => .ret _) hn₁
  exact Counts.wp (validateExisting_counts.bind fun _ =>
    file_counts (.rename _ _) (by exact ⟨rfl, rfl, hle⟩)) hn

theorem backup_counts (hn : UpTo last n) {generation : Nat} :
    (backup setup epoch generation).wp countsReading (fun _ n' => UpTo last n') n := by
  refine known_wp hn (validateExisting_known hn rfl epoch.lt) fun hle => ?_
  refine Counts.wp ((file_counts (.read _) (by trivial)).bind fun contents => ?_) hn
  refine (stage_counts hle).bind fun staged => ?_
  refine (orDropStaged_counts ?_).bind fun _ => (file_counts .syncDir (by trivial)).bind fun _ => .ret _
  exact validateAbsent_counts.bind fun _ => atomicMoveNew_counts rfl rfl hle

theorem restore_counts (hn : UpTo last n) :
    (restore setup saved).wp countsReading (fun _ n' => UpTo last n') n := by
  refine known_wp hn (validateExisting_known hn rfl saved.epoch.lt) fun hle => ?_
  refine Prog.wp_seq (Counts.wp (file_counts (.read _) (by trivial)) hn) (fun _ _ h => h) ?_
  intro contents n₁ hn₁
  refine Prog.wp_seq (Counts.wp (stage_counts hle) hn₁) (fun _ _ h => h) ?_
  intro staged n₂ hn₂
  exact commitReplace_counts hn₂

end Store

/-! ## The operations -/

/-- The operation stages for no epoch above `last`. -/
def Op.upTo (last : Nat) {β : Type} : Op Doc β → Prop
  | .stage epoch _ => epoch.get ≤ last
  | _ => True

/-- The store's names are of allocated epochs. -/
def World.Counted (w : World Doc) : Prop := UpTo w.ctrl.last (w.names \ runtimes)

section Operations

variable {setup : Setup Doc} {env : Env Doc} {v t : World Doc} {last : Nat}

theorem writes_runtimes (env : Env Doc) (tick : Nat) : env.Writes runtimes tick :=
  fun _ _ _ ha => ha

theorem names_elapse_counted (env : Env Doc) (w : World Doc) :
    (w.elapse env).names \ runtimes = w.names \ runtimes :=
  names_elapse (writes_runtimes env w.tick)

/-- A run of the store, by what it counts to. -/
theorem exec_counts {ε α : Type} {p : Prog ε StorePrim α} {r : Except ε α}
    (hp : p.wp countsReading (fun _ n' => UpTo last n') (v.names \ runtimes))
    (h : exec (storeHandle env) p v = (.ok r, t)) : UpTo last (t.names \ runtimes) :=
  exec_store_names False False hp (fun tick _ _ => writes_runtimes env tick) False.elim False.elim h

theorem cleanupEpoch_counts {site : Site} {epoch : Epoch} {r : Except Error Unit}
    (hv : UpTo last (v.names \ runtimes))
    (h : handle setup env (.cleanupEpoch site epoch) v = (.ok r, t)) :
    UpTo last (t.names \ runtimes) := by
  rw [← names_elapse_counted env] at hv
  simp only [handle] at h
  rcases hc : ask env (env.cleanupController · epoch) v with ⟨x | (e | _), u⟩
  · rw [hc] at h
    cases h
  · rw [hc] at h
    obtain rfl : v.elapse env = u := congrArg Prod.snd (outside_ok hc)
    cases h
    exact hv
  · rw [hc] at h
    obtain rfl : v.elapse env = u := congrArg Prod.snd (outside_ok hc)
    rcases hs : exec (storeHandle env) (cleanupArtifacts setup epoch.get) (v.elapse env) with
      ⟨x | (e | _), u⟩
    · simp only [afterwards, hs] at h
      cases h
    · simp only [afterwards, hs] at h
      cases h
      exact exec_counts (Counts.wp cleanupArtifacts_counts hv) hs
    · simp only [afterwards, hs] at h
      cases h
      have hu : UpTo last (u.names \ runtimes) :=
        exec_counts (Counts.wp cleanupArtifacts_counts hv) hs
      exact hu

theorem handle_upTo {β : Type} {op : Op Doc β} {b : β} (hop : op.upTo last)
    (hv : UpTo last (v.names \ runtimes)) (h : handle setup env op v = (.ok b, t)) :
    UpTo last (t.names \ runtimes) := by
  cases op with
  | stage epoch contents => exact exec_counts (Counts.wp (stage_counts hop) hv) h
  | dropStaged staged => exact exec_counts (Counts.wp dropStaged_counts hv) h
  | commitNew staged epoch => exact exec_counts (commitNew_counts hv) h
  | commitReplace staged epoch => exact exec_counts (commitReplace_counts hv) h
  | backup epoch generation => exact exec_counts (backup_counts hv) h
  | restore saved => exact exec_counts (restore_counts hv) h
  | removeBackup saved => exact exec_counts (Counts.wp removeRegularFile_counts hv) h
  | cleanupEpoch site epoch => exact cleanupEpoch_counts hv h
  | cleanupArtifacts number => exact exec_counts (Counts.wp cleanupArtifacts_counts hv) h
  | artifactEpochs =>
    exact exec_counts (Counts.wp ((file_counts .readDir (by trivial)).bind fun _ => .ret _) hv) h
  | pidExists number =>
    exact exec_counts (Counts.wp ((file_counts (.stat _) (by trivial)).bind fun _ => .ret _) hv) h
  | _ =>
    rw [handle_names_others rfl h fun tick _ _ => writes_runtimes env tick]
    exact hv

/-- Only a construction sets the last epoch back. -/
theorem last_le {β : Type} {op : Op Doc β} {b : β} (hop : op.constructs = false)
    (h : handle setup env op v = (.ok b, t)) : v.ctrl.last ≤ t.ctrl.last := by
  have hbooks := books_step setup env op v t b h
  suffices hle : v.books.last ≤ t.books.last from hle
  cases op with
  | panic _ => exact hbooks.elim
  | boot _ => cases hop
  | current | lastSpec | quarantine | take => rw [hbooks.2]
  | nextEpoch =>
    rw [hbooks.2]
    exact Nat.le_succ _
  | launch _ _ =>
    cases b with
    | ok _ => exact (congrArg Books.last hbooks.2).ge
    | error e => exact (congrArg Books.last hbooks).ge
  | cleanupEpoch _ _ | reap _ =>
    cases b with
    | ok _ => exact (congrArg Books.last hbooks).ge
    | error e => exact (congrArg Books.last hbooks).ge
  | _ => exact (congrArg Books.last hbooks).ge

/-- An operation of a manager stages for an allocated epoch, and constructs
nothing. -/
theorem call_upTo (setup : Setup Doc) (env : Env Doc) {command : Command} {w : World Doc}
    (hg : Good (command.context w.books) ∅ w.books) :
    Along (handle setup env) (fun op u => op.constructs = false ∧ op.upTo u.ctrl.last)
      (program setup command) w := by
  have hG : Along (handle setup env) (fun _ _ => True) (program setup command) w :=
    along_of_forall (h := handle setup env) (fun _ _ => trivial) _
  have hpre := (readBooks_sound setup env (Good (command.context w.books) ∅)).along hG
    (program_good setup command hg)
  refine ((call_constructs_nothing setup env hg).and hpre).mono ?_
  intro β op u hu
  refine ⟨hu.1, ?_⟩
  cases op with
  | stage epoch contents => exact (hu.2 rfl).2
  | _ => trivial

/-- An operation of a manager that lives on leaves the numbers in order. -/
theorem call_counted {command : Command} {w u : World Doc} {r : Except Abort (Except Error Reply)}
    (hg : Good (command.context w.books) ∅ w.books) (hw : w.Counted)
    (hr : exec (handle setup env) (program setup command) w = (r, u)) (hc : r ≠ .error .crash) :
    u.Counted := by
  obtain ⟨halong, hret⟩ := (call_upTo setup env hg).keeps hw fun op w t b hop hw h a ha hlt =>
    (handle_upTo hop.2 hw h a ha hlt).trans (last_le hop.1 h)
  rcases r with (_ | message) | r
  · exact absurd rfl hc
  · obtain ⟨β, op, v, hv, herror⟩ := halong.ends hr
    rw [(handle_panic herror).2]
    exact hv
  · exact hret r u hr

/-! ## The construction -/

theorem sweepAll_upTo (numbers : List Nat) :
    (sweepAll numbers : Control Doc Unit).Only fun op => op.upTo last := by
  have files (number : Nat) :
      (sweepOrphan.sweepFiles number : Control Doc Unit).Only fun op => op.upTo last := by
    unfold sweepOrphan.sweepFiles
    split
    · exact (Prog.Only.demand (by trivial)).bind fun _ => .demand (by trivial)
    · exact .demand (by trivial)
  induction numbers with
  | nil => trivial
  | cons number rest ih =>
    refine Prog.Only.bind ((Prog.Only.demand (by trivial)).bind fun there => ?_) fun _ => ih
    split
    · refine (Prog.Only.perform (by trivial)).bind fun r => ?_
      cases r with
      | ok outcome => exact files number
      | error e => trivial
    · exact files number

/-- A construction counts from the highest number it found. -/
theorem build_counted {w u : World Doc} (hr : exec (handle setup env) build w = (.ok (.ok ()), u)) :
    u.Counted := by
  have boots : (build : Control Doc Unit).wp (worldReading setup env fun _ _ => True)
      (fun r u => r = .ok () → u.Counted) w := by
    refine Prog.wp_demand_bind trivial (fun _ _ _ h => by cases h) ?_
    intro found w₁ h₁
    have hn₁ : UpTo (found.foldl max 0) (w₁.names \ runtimes) := by
      obtain ⟨hsame, hfound⟩ := exec_store_names False False artifactEpochs_names
        (fun tick _ _ => writes_runtimes env tick) False.elim False.elim h₁.2
      rw [hsame]
      exact fun a ha hlt => mem_le_foldl_max (hfound found rfl a ha hlt) 0
    have swept := Prog.Only.keeps (R := worldReading setup env fun _ _ => True)
      (I := fun u : World Doc => UpTo (found.foldl max 0) (u.names \ runtimes)) (sweepAll_upTo found)
      (fun _ _ _ _ => trivial) (fun _ _ _ _ hop h hn => handle_upTo hop hn h.2) hn₁
    refine Prog.wp_seq swept (fun _ _ _ h => by cases h) ?_
    intro _ w₂ hn₂
    refine Prog.wp_perform_bind trivial ?_
    intro r w₃ h₃
    have hn₃ : UpTo (found.foldl max 0) (w₃.names \ runtimes) := handle_upTo (by trivial) hn₂ h₃.2
    refine (Prog.wp_perform _).2 ⟨trivial, ?_⟩
    intro _ w₄ hboot _
    cases hboot.2
    exact hn₃
  exact (worldReading_sound setup env _).returns
    (along_of_forall (h := handle setup env) (fun _ _ => trivial) _) boots hr rfl

/-- While a manager is there, the store's names are of allocated epochs. -/
theorem reachable_counted {artifacts : Directory} {recordFile : Option (List UInt8)}
    {recordStaging : Option RecordStaging} {s : System Doc}
    (hs : (manager setup env artifacts recordFile recordStaging).Reachable s)
    (hup : s.up = true) : s.world.Counted := by
  revert hup
  refine hs.invariant_of (J := fun s => s.up = true → ∀ recovery,
      Good (s.world.books.context recovery) ∅ s.world.books)
    (I := fun s => s.up = true → s.world.Counted)
    (fun s h hup recovery => reachable_good h hup recovery) (by simp [manager]) ?_
  intro s label t hgood ih _ hstep hup
  rcases System.step_cases hstep with
    ⟨-, -, r, hr, hiff⟩ | ⟨command, -, hs, r, hr, hiff⟩ | ⟨-, rfl⟩
  · obtain rfl := hiff.1 hup
    exact build_counted hr
  · refine call_counted (hgood hs _) (ih hs) hr ?_
    intro hcrash
    rw [hiff.2 hcrash] at hup
    cases hup
  · have hworld := ih hup
    unfold World.Counted at hworld ⊢
    rw [names_elapse_counted, World.elapse_ctrl]
    exact hworld

end Operations

end Chimera.Manager
