import Chimera.Native.Protocol

/-! What the calls of a lease may write. Each part of a call has a footprint, the
files whose contents it may change and those that it may rename or remove; an
invariant is spared by a call whose footprint is disjoint from what it reads. -/

namespace Chimera.Native
open Chimera.Model Chimera.Lib.Utf8 Chimera.Lib.Program Chimera.Lib.Transition Chimera.Process

/-! ## Footprints -/

/-- The files that an operation may rename, replace or remove. -/
def Op.Moves {β : Type} : Op β → Dir → String → Prop
  | .remove dir name, dir', name' => dir = dir' ∧ name = name'
  | .rename dir old new, dir', name' => dir = dir' ∧ (old = name' ∨ new = name')
  | _, _, _ => False

section Moves

variable {target : Target} {c : Client} {fate : Fate} {d : Disk} {dir : Dir} {name : String}
  {β : Type} {op : Op β}

theorem isSome_put {dir' : Dir} {name' : String} {bytes : Bytes}
    (h : (d.files dir name).isSome = true) :
    ((d.put dir' name' (some bytes)).files dir name).isSome = true := by
  by_cases hn : dir' = dir ∧ name' = name
  · obtain ⟨rfl, rfl⟩ := hn
    rw [put_files_self]
    rfl
  · rw [put_files_of_ne hn]
    exact h

/-- A file that is not moved stays. -/
theorem run_stays (hm : ¬ op.Moves dir name) (h : (d.files dir name).isSome = true) :
    ((op.run target c fate d).2.files dir name).isSome = true := by
  have unwritten (hw : ¬ op.Writes dir name) :
      ((op.run target c fate d).2.files dir name).isSome = true := by
    rw [run_files hw]
    exact h
  cases op with
  | remove _ _ | rename _ _ _ => exact unwritten hm
  | file dir' name' create =>
    simp only [Op.run]
    split
    · rw [answer_disk]
      exact h
    · split
      · split
        · split
          · exact h
          · exact isSome_put h
        · exact isSome_put h
      · exact h
  | truncate dir' name' =>
    simp only [Op.run]
    rcases onFile_cases fate d dir' name' fun _ =>
        ((.ok (), d.put dir' name' (some [])) : Except StoreError Unit × Disk) with
      ⟨e, heq⟩ | ⟨bytes, -, -, heq⟩
    · rw [heq]
      exact h
    · rw [heq]
      exact isSome_put h
  | writeAll dir' name' bytes =>
    simp only [Op.run]
    split
    · exact h
    · split
      · exact isSome_put h
      · exact isSome_put h
  | enter _ | repairTree _ | sync _ | tryLockLegacy | present _ _ | read _ _ | contents _ _
  | syncAll _ _ | tryLock | newer _ _ | pidFile | recordedProcessIsAlive _ =>
    exact unwritten (by rintro ⟨⟩)

/-- What a rename does when it succeeds. -/
theorem rename_run {old new : String} :
    (∃ e, Op.run target c fate d (.rename dir old new) = (.error e, d)) ∨
    ∃ bytes, d.files dir old = some bytes ∧ Op.run target c fate d (.rename dir old new) =
      (.ok (), { (d.put dir old none).put dir new (some bytes) with
        renames := ⟨dir, new, some bytes, d.files dir new⟩ :: d.renames }) := by
  simp only [Op.run]
  rcases onFile_cases fate d dir old fun bytes =>
      ((.ok (), { (d.put dir old none).put dir new (some bytes) with
        renames := ⟨dir, new, some bytes, d.files dir new⟩ :: d.renames }) :
          Except StoreError Unit × Disk) with
    ⟨e, heq⟩ | ⟨bytes, -, hbytes, heq⟩
  · exact .inl ⟨e, heq⟩
  · exact .inr ⟨bytes, hbytes, heq⟩

/-- The history grows by a file that is moved. -/
theorem run_moved : (op.run target c fate d).2.renames = d.renames ∨
    ∃ r, (op.run target c fate d).2.renames = r :: d.renames ∧ op.Moves r.dir r.name := by
  cases op with
  | rename dir old new =>
    rcases @rename_run target c fate d dir old new with ⟨e, heq⟩ | ⟨bytes, -, heq⟩
    · rw [heq]
      exact .inl rfl
    · rw [heq]
      exact .inr ⟨_, rfl, rfl, .inr rfl⟩
  | enter _ | repairTree _ | sync _ | tryLockLegacy | present _ _ | read _ _ | contents _ _
  | syncAll _ _ | tryLock | newer _ _ | pidFile | recordedProcessIsAlive _ | file _ _ _
  | truncate _ _ | writeAll _ _ _ | remove _ _ => exact .inl (run_renames rfl)

end Moves

/-- The operation leaves the lock alone, writes only to files of `W` and moves
only files of `M`. -/
structure Within (W M : Dir → String → Prop) {β : Type} (op : Op β) : Prop where
  lock : op.isTryLock = false
  writes : ∀ dir name, op.Writes dir name → W dir name
  moves : ∀ dir name, op.Moves dir name → M dir name

/-- A file and the temporary that becomes it. -/
def Staged (target : Dir) (staged name : String) (dir : Dir) (file : String) : Prop :=
  target = dir ∧ (staged = file ∨ name = file)

def Nowhere (_ : Dir) (_ : String) : Prop := False

section Footprints

variable {W M : Dir → String → Prop} {α : Type} {target source : Dir}
  {sourceName staged name text : String} {kind : CoreKind} {parsers : Parsers}

theorem staged_within :
    (demand (.file target staged true) : Store Unit).Only
      (Within (Staged target staged name) (Staged target staged name)) ∧
    (demand (.truncate target staged) : Store Unit).Only
      (Within (Staged target staged name) (Staged target staged name)) ∧
    ∀ bytes, (demand (.writeAll target staged bytes) : Store Unit).Only
      (Within (Staged target staged name) (Staged target staged name)) :=
  ⟨.demand ⟨rfl, fun _ _ hw => ⟨hw.1, .inl hw.2⟩, nofun⟩,
    .demand ⟨rfl, fun _ _ hw => ⟨hw.1, .inl hw.2⟩, nofun⟩,
    fun _ => .demand ⟨rfl, fun _ _ hw => ⟨hw.1, .inl hw.2⟩, nofun⟩⟩

theorem rename_within : (demand (.rename target staged name) : Store Unit).Only
    (Within (Staged target staged name) (Staged target staged name)) :=
  .demand ⟨rfl, fun _ _ hw => hw, fun _ _ hm => hm⟩

/-- An operation that only looks. -/
theorem looks_within {op : Op (Except StoreError α)} (hl : op.isTryLock = false)
    (hw : ∀ dir name, ¬ op.Writes dir name) (hm : ∀ dir name, ¬ op.Moves dir name) :
    (demand op : Store α).Only (Within W M) :=
  .demand ⟨hl, fun dir name h => absurd h (hw dir name), fun dir name h => absurd h (hm dir name)⟩

theorem copyFile_within : (copyFile source sourceName target name).Only
    (Within (Staged target (importName name) name) (Staged target (importName name) name)) := by
  obtain ⟨hfile, htruncate, hwrite⟩ := @staged_within target (importName name) name
  unfold copyFile
  refine .bind hfile fun _ => ?_
  refine .bind htruncate fun _ => ?_
  refine .bind (looks_within rfl nofun nofun) fun bytes => ?_
  refine .bind (hwrite bytes) fun _ => ?_
  refine .bind (looks_within rfl nofun nofun) fun _ => ?_
  refine .bind rename_within fun _ => ?_
  exact looks_within rfl nofun nofun

theorem copyOnce_within : (copyOnce source sourceName target name).Only
    (Within (Staged target (importName name) name) (Staged target (importName name) name)) := by
  unfold copyOnce
  refine .bind (looks_within rfl nofun nofun) fun found => ?_
  cases found with
  | true => exact .ret _
  | false => exact copyFile_within

theorem validateSelectorJson_within {dir : Dir} :
    (validateSelectorJson parsers dir).Only (Within W M) := by
  unfold validateSelectorJson
  refine .bind (looks_within rfl nofun nofun) fun bytes => ?_
  split
  · exact .ret _
  · exact .ret _

theorem writeMarker_within : (writeMarker staged name text).Only
    (Within (Staged .root staged name) (Staged .root staged name)) := by
  obtain ⟨hfile, htruncate, hwrite⟩ := @staged_within .root staged name
  unfold writeMarker
  refine .bind hfile fun _ => ?_
  refine .bind htruncate fun _ => ?_
  refine .bind (hwrite _) fun _ => ?_
  refine .bind (looks_within rfl nofun nofun) fun _ => ?_
  refine .bind rename_within fun _ => ?_
  exact looks_within rfl nofun nofun

/-- The resources of a home, and what becomes one. -/
def Seeded (kind : CoreKind) (names : List String) (dir : Dir) (file : String) : Prop :=
  ∃ name ∈ names, Staged (.home kind) (importName name) name dir file

theorem Seeded.tail {names : List String} {dir : Dir} {file : String}
    (h : Seeded kind names dir file) : Seeded kind (name :: names) dir file := by
  obtain ⟨seeded, hmem, hstaged⟩ := h
  exact ⟨seeded, List.mem_cons_of_mem _ hmem, hstaged⟩

theorem seedResources_within {names : List String} :
    (seedResources kind names).Only (Within (Seeded kind names) (Seeded kind names)) := by
  induction names with
  | nil => exact .ret _
  | cons name more ih =>
    have ih : (seedResources kind more).Only
        (Within (Seeded kind (name :: more)) (Seeded kind (name :: more))) :=
      ih.mono fun op h => ⟨h.lock, fun dir file hw => (h.writes dir file hw).tail,
        fun dir file hm => (h.moves dir file hm).tail⟩
    have hcopy : (copyFile .data name (.home kind) name).Only
        (Within (Seeded kind (name :: more)) (Seeded kind (name :: more))) :=
      copyFile_within.mono fun op h =>
        ⟨h.lock, fun dir file hw => ⟨name, List.mem_cons_self, h.writes dir file hw⟩,
          fun dir file hm => ⟨name, List.mem_cons_self, h.moves dir file hm⟩⟩
    unfold seedResources
    refine .bind (looks_within rfl nofun nofun) fun present => ?_
    cases present with
    | false => exact ih
    | true =>
      refine .bind (looks_within rfl nofun nofun) fun _ => ?_
      refine .bind (looks_within rfl nofun nofun) fun seeded => ?_
      have replaced (replace : Bool) : (do
          if replace then copyFile .data name (.home kind) name
          seedResources kind more : Store Unit).Only
            (Within (Seeded kind (name :: more)) (Seeded kind (name :: more))) := by
        cases replace with
        | true => exact .bind hcopy fun _ => ih
        | false => exact ih
      cases seeded with
      | true => exact .bind (looks_within rfl nofun nofun) fun replace => replaced replace
      | false => exact replaced true

def InHome (kind : CoreKind) (dir : Dir) (_ : String) : Prop := .home kind = dir

theorem checkCache_within : (checkCache parsers kind).Only (Within (InHome kind) Nowhere) := by
  have opens (name : String) : (demand (.file (.home kind) name true) : Store Unit).Only
      (Within (InHome kind) Nowhere) := .demand ⟨rfl, fun _ _ hw => hw.1, nofun⟩
  have fills (name : String) (bytes : Bytes) :
      (demand (.writeAll (.home kind) name bytes) : Store Unit).Only
        (Within (InHome kind) Nowhere) := .demand ⟨rfl, fun _ _ hw => hw.1, nofun⟩
  unfold checkCache
  split
  · refine .bind (opens _) fun _ => ?_
    refine .bind (looks_within rfl nofun nofun) fun bytes => ?_
    split
    · refine .bind (fills _ _) fun _ => ?_
      refine .bind (looks_within rfl nofun nofun) fun _ => ?_
      exact validateSelectorJson_within
    · exact validateSelectorJson_within
  · refine .bind (opens _) fun _ => ?_
    refine .bind (looks_within rfl nofun nofun) fun bytes => ?_
    have fresh : (do
        demand (.writeAll (.home kind) cacheName (encode emptyYamlCache.toList))
        demand (.syncAll (.home kind) cacheName) : Store Unit).Only
          (Within (InHome kind) Nowhere) := by
      refine .bind (fills _ _) fun _ => ?_
      exact looks_within rfl nofun nofun
    split
    · exact fresh
    · exact fresh
    all_goals exact .ret _

end Footprints

/-! ## Before the lock -/

/-- An invariant that reads neither the lock nor the lock file. -/
def Spared (Inv : View → Prop) : Prop :=
  ∀ {a b : View}, Inv a → Untouched a.disk b.disk → b.procs = a.procs → Inv b

/-- An operation of a client that does not hold the lock yet. -/
def Outside {β : Type} (op : Op β) : Prop :=
  op.isRename = false ∧ op.isTryLock = false ∧
    ∀ dir name, op.Writes dir name → dir = .root ∧ name = "lease.lock"

section Outside

variable {setup : Setup} {Inv : View → Prop} {Fits : View → Fate → Prop} {c : Client} {a b : View}
  {α β : Type}

theorem outside_wp {op : Op β} (hspared : Spared Inv) (hop : op.isRename = false)
    (hw : ∀ dir name, op.Writes dir name → dir = .root ∧ name = "lease.lock")
    (hlock : a.disk.lock ≠ some c) :
    ((reading setup Inv Fits c).under (Rely Inv c)).pre op a ∧
      ∀ r b, ((reading setup Inv Fits c).under (Rely Inv c)).step op a r b →
        Inv b ∧ (op.isTryLock = false → b.disk.lock ≠ some c) := by
  have keeps (m : View) (fate : Fate) (hm : Inv m) :
      Inv { m with disk := (op.run setup.target c fate m.disk).2 } :=
    hspared hm (run_untouched hop hw) rfl
  refine ⟨?_, ?_⟩
  · intro m hrely fate hfits
    exact ⟨keeps m fate hrely.inv, fun _ => run_untouched hop hw⟩
  · intro r b hs
    obtain ⟨m, hrely, fate, hfits, hrun, hprocs⟩ := hs
    have hb := keeps m fate hrely.inv
    have hm : m.disk.lock ≠ some c := fun h => hlock (hrely.lock.1 h)
    have heq : ({ m with disk := (op.run setup.target c fate m.disk).2 } : View) = b := by
      rw [hrun, ← hprocs]
    rw [heq] at hb
    refine ⟨hb, ?_⟩
    intro ht h
    rw [← heq] at h
    rcases (run_frame setup.target c fate m.disk op).2 with hl | ⟨hl, -⟩
    · exact hm (hl.symm.trans h)
    · rw [ht] at hl
      cases hl

theorem outside_keeps {p : Store α} (hspared : Spared Inv) (hp : p.Only Outside) (hinv : Inv a)
    (hlock : a.disk.lock ≠ some c) :
    among setup Inv Fits c p (fun _ b => Inv b ∧ b.disk.lock ≠ some c) a := by
  refine Prog.Only.keeps hp (fun op b ho hb => (outside_wp hspared ho.1 ho.2.2 hb.2).1) ?_
    ⟨hinv, hlock⟩
  intro β op b b' r ho hs hb
  obtain ⟨hinv, hl⟩ := (outside_wp hspared ho.1 ho.2.2 hb.2).2 r b' hs
  exact ⟨hinv, hl ho.2.1⟩

theorem directories_outside {store : FsNativeStore} {kind : CoreKind} :
    (directories store kind).Only Outside := by
  have enter (dir : Dir) : (demand (.enter dir) : Store Unit).Only Outside :=
    .demand ⟨rfl, rfl, nofun⟩
  unfold directories
  split
  · exact .ret _
  · refine .bind (enter _) fun _ => ?_
    refine .bind (enter _) fun _ => ?_
    refine .bind (enter _) fun _ => ?_
    exact enter _

/-- Whoever gets the lock finds the invariant. -/
theorem tryLock_wp (hspared : Spared Inv) (hlock : a.disk.lock ≠ some c) :
    among setup Inv Fits c (demand .tryLock) (fun r b => Inv b ∧
      (r = .ok () → b.disk.lock = some c)) a := by
  obtain ⟨hpre, hstep⟩ : ((reading setup Inv Fits c).under (Rely Inv c)).pre .tryLock a ∧ _ :=
    outside_wp hspared rfl nofun hlock
  refine (Prog.wp_demand _).2 ⟨hpre, ?_⟩
  intro r b hs
  refine ⟨(hstep r b hs).1, ?_⟩
  intro hr
  obtain ⟨m, hrely, fate, hfits, hrun, hprocs⟩ := hs
  simp only [Op.run] at hrun
  split at hrun
  · cases hr ▸ congrArg Prod.fst hrun
  · cases hr ▸ congrArg Prod.fst hrun
  · exact (congrArg (fun x => x.2.lock) hrun).symm

/-- A call up to the lock: the client either fails without it or goes on with it. -/
theorem locked_wp {store : FsNativeStore} {kind : CoreKind} {rest : Store α}
    {Q : Except StoreError α → View → Prop} (hspared : Spared Inv) (hinv : Inv a)
    (hlock : a.disk.lock ≠ some c) (hfail : ∀ e b, Q (.error e) b)
    (hrest : ∀ b, Inv b → b.disk.lock = some c → among setup Inv Fits c rest Q b) :
    among setup Inv Fits c (do
      directories store kind
      demand (.file .root "lease.lock" true)
      demand .tryLock
      rest) Q a := by
  refine Prog.wp_seq (outside_keeps hspared directories_outside hinv hlock)
    (fun e b _ => hfail e b) ?_
  rintro _ b ⟨hinv, hlock⟩
  refine Prog.wp_seq (outside_keeps hspared (.demand ⟨rfl, rfl, ?_⟩) hinv hlock)
    (fun e b _ => hfail e b) ?_
  · rintro dir name ⟨rfl, rfl⟩
    exact ⟨rfl, rfl⟩
  rintro _ b ⟨hinv, hlock⟩
  refine Prog.wp_seq (tryLock_wp hspared hlock) (fun e b _ => hfail e b) ?_
  rintro _ b ⟨hinv, hlock⟩
  exact hrest b hinv (hlock rfl)

end Outside

end Chimera.Native
