import Chimera.Native.Calls

/-! What the imports of legacy files leave, wherever a crash stops them. A file
comes into a home by a rename, and the history of the disk keeps each rename with
what it replaced; every call but the two copies into a home is mild: it leaves
the legacy files and the imported files where they are. -/

namespace Chimera.Native
open Chimera.Model Chimera.Lib.Utf8 Chimera.Lib.Program Chimera.Lib.Transition Chimera.Process

/-! ## Imports -/

/-- The names under which a home holds what was imported. -/
def ImportTarget (dir : Dir) (name : String) : Prop :=
  (∃ kind, dir = .home kind) ∧ (name = cacheName ∨ name = selectorName)

/-- The core that a legacy file comes from. -/
def Provenance (store : FsNativeStore) (name : String) (bytes : Bytes) (kind : CoreKind) : Prop :=
  (name = cacheName ∧
    sourceKind store.legacyKind (cacheFormat store.parsers bytes) = .ok (some kind)) ∨
  (name = selectorName ∧ kind = .meow)

/-- The whole legacy file came into the home of the core that it comes from,
where no such file was. -/
structure Imported (store : FsNativeStore) (legacy : String → Option Bytes) (r : Rename) : Prop where
  fresh : r.replaced = none
  whole : ∃ bytes kind, legacy r.name = some bytes ∧ r.moved = some bytes ∧
    r.dir = .home kind ∧ Provenance store r.name bytes kind

/-- The files that came under this name so far. -/
def arrivals (d : Disk) (dir : Dir) (name : String) : List Rename :=
  d.renames.filter fun r => r.dir = dir ∧ r.name = name

/-- Every import so far is sound, and what it brought is still there. -/
structure Migrated (store : FsNativeStore) (legacy : String → Option Bytes) (v : View) : Prop where
  kept : ∀ name, v.disk.files .data name = legacy name
  imported : ∀ r ∈ v.disk.renames, ImportTarget r.dir r.name → Imported store legacy r ∧
    (v.disk.files r.dir r.name).isSome = true
  once : ∀ dir name, ImportTarget dir name → (arrivals v.disk dir name).length ≤ 1

/-- An operation that leaves the lock, the legacy files and the imported files
alone. -/
structure Mild {β : Type} (op : Op β) : Prop where
  lock : op.isTryLock = false
  data : ∀ name, ¬ op.Writes .data name
  homes : ∀ dir name, ImportTarget dir name → ¬ op.Moves dir name

section Calls

variable {setup : Setup} {legacy : String → Option Bytes} {c : Client} {a b v : View} {α β : Type}
  {P P' : Option Bytes → Prop} {store : FsNativeStore} {kind : CoreKind} {name : String}

theorem migrated_spared : Spared (Migrated store legacy) := by
  intro a b ha hu hprocs
  have home {dir : Dir} {name : String} (h : ImportTarget dir name) :
      b.disk.files dir name = a.disk.files dir name := by
    obtain ⟨⟨kind, rfl⟩, -⟩ := h
    exact hu.files _ _ fun hr => nomatch hr.1
  have data (name : String) : b.disk.files .data name = a.disk.files .data name :=
    hu.files _ _ fun hr => nomatch hr.1
  refine ⟨fun name => (data name).trans (ha.kept name), ?_, ?_⟩
  · intro r hr ht
    rw [hu.renames] at hr
    rw [home ht]
    exact ha.imported r hr ht
  · intro dir name ht
    unfold arrivals
    rw [hu.renames]
    exact ha.once dir name ht

/-- Where no such file is, none has arrived. -/
theorem Migrated.arrivals_nil {dir : Dir} (h : Migrated store legacy v) (ht : ImportTarget dir name)
    (hnone : v.disk.files dir name = none) : arrivals v.disk dir name = [] := by
  refine List.filter_eq_nil_iff.2 ?_
  intro r hr hrn
  obtain ⟨rfl, rfl⟩ : r.dir = dir ∧ r.name = name := by simpa using hrn
  have hsome := (h.imported r hr ht).2
  rw [hnone] at hsome
  cases hsome

theorem Migrated.run {op : Op β} {fate : Fate} (h : Migrated store legacy v) (hop : Mild op) :
    Migrated store legacy { v with disk := (op.run setup.target c fate v.disk).2 } := by
  have moved : (op.run setup.target c fate v.disk).2.renames = v.disk.renames ∨
      ∃ r, (op.run setup.target c fate v.disk).2.renames = r :: v.disk.renames ∧
        ¬ ImportTarget r.dir r.name := by
    rcases @run_moved setup.target c fate v.disk β op with hsame | ⟨r, hr, hm⟩
    · exact .inl hsame
    · exact .inr ⟨r, hr, fun ht => hop.homes _ _ ht hm⟩
  refine ⟨fun name => (run_files (hop.data name)).trans (h.kept name), ?_, ?_⟩
  · intro r hr ht
    have hold : r ∈ v.disk.renames := by
      rcases moved with hsame | ⟨q, hq, hn⟩
      · rw [hsame] at hr
        exact hr
      · rw [hq] at hr
        rcases List.mem_cons.1 hr with rfl | hr
        · exact absurd ht hn
        · exact hr
    obtain ⟨himported, hthere⟩ := h.imported r hold ht
    exact ⟨himported, run_stays (hop.homes _ _ ht) hthere⟩
  · intro dir name ht
    have harrived : arrivals (op.run setup.target c fate v.disk).2 dir name =
        arrivals v.disk dir name := by
      unfold arrivals
      rcases moved with hsame | ⟨r, hr, hn⟩
      · rw [hsame]
      · rw [hr]
        refine List.filter_cons_of_neg ?_
        intro hrn
        obtain ⟨rfl, rfl⟩ : r.dir = dir ∧ r.name = name := by simpa using hrn
        exact hn ht
    show (arrivals (op.run setup.target c fate v.disk).2 dir name).length ≤ 1
    rw [harrived]
    exact h.once dir name ht

/-! ## Mild calls -/

/-- A program among other clients, for the imports. -/
abbrev amongImports (setup : Setup) (legacy : String → Option Bytes) (c : Client) (p : Store α)
    (Q : Except StoreError α → View → Prop) (v : View) : Prop :=
  among setup (Migrated setup.store legacy) (fun _ _ => True) c p Q v

/-- What holds at every operation under the lock. -/
structure Locked (store : FsNativeStore) (legacy : String → Option Bytes) (c : Client)
    (v : View) : Prop where
  lock : v.disk.lock = some c
  inv : Migrated store legacy v

theorem Locked.run {op : Op β} {fate : Fate} (h : Locked store legacy c v) (hop : Mild op) :
    Locked store legacy c { v with disk := (op.run setup.target c fate v.disk).2 } := by
  refine ⟨?_, h.inv.run hop⟩
  rcases (run_frame setup.target c fate v.disk op).2 with hl | ⟨hl, -⟩
  · exact hl.trans h.lock
  · rw [hop.lock] at hl
    cases hl

theorem Locked.of_rely (h : Rely (Migrated store legacy) c a b) (ha : Locked store legacy c a) :
    Locked store legacy c b := ⟨h.lock.2 ha.lock, h.inv⟩

/-- A mild operation, taken in by what it answers and leaves. -/
theorem Locked.op_wp {op : Op β} (T : β → View → Prop) (h : Locked setup.store legacy c a)
    (hop : Mild op)
    (hrun : ∀ (m : View) (fate : Fate), Migrated setup.store legacy m → Untouched a.disk m.disk →
      T (op.run setup.target c fate m.disk).1
        { m with disk := (op.run setup.target c fate m.disk).2 }) :
    ((reading setup (Migrated setup.store legacy) (fun _ _ => True) c).under
        (Rely (Migrated setup.store legacy) c)).pre op a ∧
      ∀ r b, ((reading setup (Migrated setup.store legacy) (fun _ _ => True) c).under
        (Rely (Migrated setup.store legacy) c)).step op a r b →
          Locked setup.store legacy c b ∧ T r b := by
  refine held_wp h.lock ?_
  intro m fate hrely _
  have hm : Locked setup.store legacy c
      { m with disk := (op.run setup.target c fate m.disk).2 } := (h.of_rely hrely).run hop
  exact ⟨hm.inv, hm, hrun m fate hrely.inv (hrely.held h.lock).1⟩

theorem Locked.keeps {p : Store α} (h : Locked setup.store legacy c a) (hp : p.Only Mild) :
    amongImports setup legacy c p (fun _ b => Locked setup.store legacy c b) a := by
  refine Prog.Only.keeps hp (fun op b hop hb => ?_) ?_ h
  · exact (hb.op_wp (fun _ _ => True) hop fun _ _ _ _ => trivial).1
  · intro β op b b' r hop hs hb
    exact ((hb.op_wp (fun _ _ => True) hop fun _ _ _ _ => trivial).2 r b' hs).1

theorem mild_demand {op : Op (Except StoreError α)} (hl : op.isTryLock = false)
    (hw : ∀ name, ¬ op.Writes .data name)
    (hm : ∀ dir name, ImportTarget dir name → ¬ op.Moves dir name) :
    (demand op : Store α).Only Mild := .demand ⟨hl, hw, hm⟩

theorem not_importTarget {dir : Dir} (h : ∀ kind, dir ≠ .home kind) : ¬ ImportTarget dir name := by
  rintro ⟨⟨kind, hdir⟩, -⟩
  exact h kind hdir

theorem root_not_importTarget : ¬ ImportTarget .root name := by
  refine not_importTarget ?_
  intro kind
  exact nofun

theorem Within.mild {W M : Dir → String → Prop} {op : Op β} (h : Within W M op)
    (hw : ∀ name, ¬ W .data name) (hm : ∀ dir name, ImportTarget dir name → ¬ M dir name) :
    Mild op :=
  ⟨h.lock, fun name hn => hw name (h.writes _ _ hn), fun dir name ht hn =>
    hm dir name ht (h.moves _ _ hn)⟩

theorem copyOnce_mild {sourceName : String} {source target : Dir} (hdata : target ≠ .data)
    (hhome : ∀ kind, target ≠ .home kind) :
    (copyOnce source sourceName target name).Only Mild := by
  refine copyOnce_within.mono fun op hop => hop.mild (fun _ hw => hdata hw.1) ?_
  intro dir file ht hm
  obtain ⟨rfl, -⟩ := hm
  exact not_importTarget hhome ht

theorem writeMarker_mild {staged text : String} : (writeMarker staged name text).Only Mild := by
  refine writeMarker_within.mono fun op hop => hop.mild (fun _ hw => nomatch hw.1) ?_
  intro dir file ht hm
  obtain ⟨rfl, -⟩ := hm
  exact root_not_importTarget ht

theorem validateSelectorJson_mild {parsers : Parsers} {dir : Dir} :
    (validateSelectorJson parsers dir).Only Mild := by
  refine validateSelectorJson_within.mono fun op (hop : Within Nowhere Nowhere op) => hop.mild ?_ ?_
  · exact fun _ hw => hw
  · exact fun _ _ _ hm => hm

theorem seedResources_mild : (seedResources kind resources).Only Mild := by
  have apart : ∀ name ∈ resources, (importName name ≠ cacheName ∧ importName name ≠ selectorName) ∧
      name ≠ cacheName ∧ name ≠ selectorName := by decide
  refine seedResources_within.mono fun op hop => hop.mild ?_ ?_
  · rintro name ⟨_, -, hdir, -⟩
    cases hdir
  · rintro dir file ⟨-, hname⟩ ⟨name, hmem, -, hfile⟩
    obtain ⟨⟨hcache, hselector⟩, hcache', hselector'⟩ := apart name hmem
    rcases hname with rfl | rfl
    · exact hfile.elim hcache hcache'
    · exact hfile.elim hselector hselector'

theorem checkCache_mild {parsers : Parsers} : (checkCache parsers kind).Only Mild := by
  refine checkCache_within.mono fun op hop => hop.mild ?_ ?_
  · intro name hw
    cases hw
  · exact fun _ _ _ hm => hm

theorem root_mild {op : Op β} (hl : op.isTryLock = false)
    (hw : ∀ dir name, op.Writes dir name → dir = .root)
    (hm : ∀ dir name, op.Moves dir name → dir = .root) : Mild op := by
  refine ⟨hl, ?_, ?_⟩
  · intro name h
    cases hw _ _ h
  intro dir name ht h
  obtain rfl := hm _ _ h
  exact root_not_importTarget ht

/-! ## The copies into a home -/

/-- A copy is under way: nothing is at the target, and `P` holds of the
temporary. -/
structure Copying (store : FsNativeStore) (legacy : String → Option Bytes) (c : Client)
    (kind : CoreKind) (name : String) (P : Option Bytes → Prop) (v : View) : Prop extends
    Locked store legacy c v where
  absent : v.disk.files (.home kind) name = none
  staged : P (v.disk.files (.home kind) (importName name))

/-- An operation that writes nothing but the temporary. -/
structure OnTemporary (kind : CoreKind) (name : String) (op : Op β) : Prop where
  lock : op.isTryLock = false
  writes : ∀ dir file, op.Writes dir file → .home kind = dir ∧ importName name = file
  moves : ∀ dir file, ¬ op.Moves dir file

theorem OnTemporary.mild {op : Op β} (h : OnTemporary kind name op) : Mild op := by
  refine ⟨h.lock, ?_, fun dir file _ => h.moves dir file⟩
  intro file hw
  cases (h.writes _ _ hw).1

theorem importName_ne (hname : name = cacheName ∨ name = selectorName) :
    importName name ≠ name ∧ ¬ ImportTarget (.home kind) (importName name) := by
  refine ⟨?_, ?_⟩
  · rcases hname with rfl | rfl
    · decide
    · decide
  · rintro ⟨-, hn⟩
    rcases hname with rfl | rfl
    · revert hn
      decide
    · revert hn
      decide

theorem Copying.op_wp {op : Op (Except StoreError α)} (P' : Option Bytes → Prop)
    (h : Copying setup.store legacy c kind name P a) (hop : OnTemporary kind name op)
    (hname : name = cacheName ∨ name = selectorName)
    (hrun : ∀ (fate : Fate) (d : Disk) (x : α), P (d.files (.home kind) (importName name)) →
      (op.run setup.target c fate d).1 = .ok x →
      P' ((op.run setup.target c fate d).2.files (.home kind) (importName name))) :
    amongImports setup legacy c (demand op) (fun r b => Locked setup.store legacy c b ∧
      ∀ x, r = .ok x → Copying setup.store legacy c kind name P' b) a := by
  have hw : ¬ op.Writes (.home kind) name := by
    intro hw
    exact (@importName_ne kind name hname).1 (hop.writes _ _ hw).2
  have home {m : View} (hu : Untouched a.disk m.disk) (file : String) :
      m.disk.files (.home kind) file = a.disk.files (.home kind) file :=
    hu.files _ _ fun hr => nomatch hr.1
  obtain ⟨hpre, hstep⟩ := h.toLocked.op_wp (fun r b => b.disk.files (.home kind) name = none ∧
    ∀ x, r = .ok x → P' (b.disk.files (.home kind) (importName name))) hop.mild <| by
      intro m fate _ hu
      refine ⟨(run_files hw).trans ((home hu name).trans h.absent), ?_⟩
      intro x hx
      refine hrun fate m.disk x ?_ hx
      rw [home hu]
      exact h.staged
  refine (Prog.wp_demand _).2 ⟨hpre, ?_⟩
  intro r b hs
  obtain ⟨hlocked, habsent, hstaged⟩ := hstep r b hs
  exact ⟨hlocked, fun x hx => ⟨hlocked, habsent, hstaged x hx⟩⟩

/-- What is read of a legacy file is the file. -/
theorem contents_wp (h : Locked setup.store legacy c a) :
    amongImports setup legacy c (demand (.contents .data name)) (fun r b =>
      Locked setup.store legacy c b ∧ Untouched a.disk b.disk ∧
        ∀ bytes, r = .ok bytes → legacy name = some bytes) a := by
  refine (Prog.wp_demand _).2 (held_wp h.lock ?_)
  intro m fate hrely _
  have hm := h.of_rely hrely
  have hu := (hrely.held h.lock).1
  simp only [Op.run]
  rcases onFile_cases fate m.disk .data name fun bytes => (Except.ok bytes, m.disk) with
    ⟨e, heq⟩ | ⟨bytes, -, hbytes, heq⟩
  · rw [heq]
    exact ⟨hm.inv, hm, hu, (by rintro _ ⟨⟩)⟩
  · rw [heq]
    refine ⟨hm.inv, hm, hu, ?_⟩
    intro bytes' hb
    cases hb
    rw [← hm.inv.kept name]
    exact hbytes

/-- The disk after the temporary of a home got its name. -/
def Disk.imported (d : Disk) (kind : CoreKind) (name : String) (bytes : Bytes) : Disk :=
  { (d.put (.home kind) (importName name) none).put (.home kind) name (some bytes) with
    renames := ⟨.home kind, name, some bytes, d.files (.home kind) name⟩ :: d.renames }

theorem imported_isSome {d : Disk} {bytes : Bytes} {dir : Dir} {file : String}
    (hne : ¬ (.home kind = dir ∧ importName name = file)) (h : (d.files dir file).isSome = true) :
    ((d.imported kind name bytes).files dir file).isSome = true := by
  refine isSome_put ?_
  rw [put_files_of_ne hne]
  exact h

/-- The legacy file, whole, comes into the home that it belongs to. -/
theorem Migrated.imports {bytes : Bytes} (h : Migrated store legacy v)
    (htemp : ¬ ImportTarget (.home kind) (importName name))
    (hnone : v.disk.files (.home kind) name = none) (hlegacy : legacy name = some bytes)
    (hprovenance : Provenance store name bytes kind) :
    Migrated store legacy { v with disk := v.disk.imported kind name bytes } := by
  refine ⟨?_, ?_, ?_⟩
  · intro file
    have apart (other : String) : ¬ (Dir.home kind = .data ∧ other = file) := fun hd => nomatch hd.1
    show ((v.disk.put (.home kind) (importName name) none).put (.home kind) name
      (some bytes)).files .data file = legacy file
    rw [put_files_of_ne (apart name), put_files_of_ne (apart (importName name))]
    exact h.kept file
  · intro r hr ht
    rcases List.mem_cons.1 hr with rfl | hr
    · refine ⟨⟨hnone, bytes, kind, hlegacy, rfl, rfl, hprovenance⟩, ?_⟩
      show (((v.disk.put (.home kind) (importName name) none).put (.home kind) name
        (some bytes)).files (.home kind) name).isSome = true
      rw [put_files_self]
      rfl
    · obtain ⟨himported, hthere⟩ := h.imported r hr ht
      refine ⟨himported, imported_isSome ?_ hthere⟩
      rintro ⟨hdir, hfile⟩
      rw [← hdir, ← hfile] at ht
      exact htemp ht
  · intro dir file ht
    unfold arrivals Disk.imported
    by_cases hn : .home kind = dir ∧ name = file
    · obtain ⟨rfl, rfl⟩ := hn
      have hnil : v.disk.renames.filter _ = [] := h.arrivals_nil ht hnone
      rw [List.filter_cons_of_pos (by simp), hnil]
      exact Nat.le_refl 1
    · rw [List.filter_cons_of_neg (by simpa using hn)]
      exact h.once dir file ht

theorem rename_import_wp {bytes : Bytes}
    (h : Copying setup.store legacy c kind name (· = some bytes) a)
    (hlegacy : legacy name = some bytes) (hprovenance : Provenance setup.store name bytes kind)
    (hname : name = cacheName ∨ name = selectorName) :
    amongImports setup legacy c (demand (.rename (.home kind) (importName name) name))
      (fun _ b => Locked setup.store legacy c b) a := by
  refine (Prog.wp_demand _).2 (held_wp h.lock ?_)
  intro m fate hrely _
  have hm := h.toLocked.of_rely hrely
  have home (file : String) : m.disk.files (.home kind) file = a.disk.files (.home kind) file :=
    (hrely.held h.lock).1.files _ _ fun hr => nomatch hr.1
  rcases @rename_run setup.target c fate m.disk (.home kind) (importName name) name with
    ⟨e, heq⟩ | ⟨bytes', hbytes, heq⟩
  · rw [heq]
    exact ⟨hm.inv, hm⟩
  · rw [heq]
    rw [home, h.staged] at hbytes
    cases hbytes
    have hinv := hm.inv.imports (importName_ne hname).2 ((home name).trans h.absent) hlegacy
      hprovenance
    exact ⟨hinv, hm.lock, hinv⟩

/-- A legacy file is copied into the home that it belongs to. -/
theorem copyFile_import_wp (h : Copying setup.store legacy c kind name (fun _ => True) a)
    (hname : name = cacheName ∨ name = selectorName)
    (hprovenance : ∀ bytes, legacy name = some bytes → Provenance setup.store name bytes kind) :
    amongImports setup legacy c (copyFile .data name (.home kind) name)
      (fun _ b => Locked setup.store legacy c b) a := by
  unfold copyFile
  refine Prog.wp_seq (h.op_wp (fun _ => True) ⟨rfl, fun _ _ hw => hw, nofun⟩ hname
    fun _ _ _ _ _ => trivial) (fun e b hb => hb.1) ?_
  rintro _ b ⟨-, hb⟩
  refine Prog.wp_seq ((hb () rfl).op_wp (· = some []) ⟨rfl, fun _ _ hw => hw, nofun⟩ hname
    fun _ _ _ _ hx => truncate_run hx) (fun e b hb => hb.1) ?_
  rintro _ b ⟨-, hb⟩
  have hempty := hb () rfl
  refine Prog.wp_seq (contents_wp hempty.toLocked) (fun e b hb => hb.1) ?_
  rintro bytes b' ⟨hlocked, hu, hread⟩
  have hlegacy := hread bytes rfl
  have home (file : String) : b'.disk.files (.home kind) file = b.disk.files (.home kind) file :=
    hu.files _ _ fun hr => nomatch hr.1
  have hb' : Copying setup.store legacy c kind name (· = some []) b' :=
    ⟨hlocked, (home _).trans hempty.absent, (home _).trans hempty.staged⟩
  refine Prog.wp_seq (hb'.op_wp (· = some bytes) ⟨rfl, fun _ _ hw => hw, nofun⟩ hname
    fun _ _ _ hd hx => writeAll_run hd hx) (fun e b hb => hb.1) ?_
  rintro _ b ⟨-, hb⟩
  refine Prog.wp_seq ((hb () rfl).op_wp (· = some bytes) ⟨rfl, nofun, nofun⟩ hname
    fun _ _ _ hd _ => (run_files (by simp [Op.Writes])).trans hd) (fun e b hb => hb.1) ?_
  rintro _ b ⟨-, hb⟩
  refine Prog.wp_seq (rename_import_wp (hb () rfl) hlegacy (hprovenance bytes hlegacy) hname)
    (fun e b hb => hb) ?_
  intro _ b hb
  exact hb.keeps (mild_demand rfl nofun fun _ _ _ => nofun)

theorem copyOnce_import_wp (h : Locked setup.store legacy c a)
    (hname : name = cacheName ∨ name = selectorName)
    (hprovenance : ∀ bytes, legacy name = some bytes → Provenance setup.store name bytes kind) :
    amongImports setup legacy c (copyOnce .data name (.home kind) name)
      (fun _ b => Locked setup.store legacy c b) a := by
  unfold copyOnce
  obtain ⟨hpre, hstep⟩ := @Locked.op_wp setup legacy c a _ (.present (.home kind) name)
    (fun r b => ∀ found, r = .ok found → found = (b.disk.files (.home kind) name).isSome) h
    ⟨rfl, nofun, fun _ _ _ => nofun⟩ <| by
      intro m fate _ _ found hfound
      simp only [Op.run] at hfound ⊢
      rw [answer_disk]
      exact (answer_ok hfound).symm
  refine Prog.wp_demand_bind hpre (fun e b hs => (hstep _ b hs).1) ?_
  intro found b hs
  obtain ⟨hb, hfound⟩ := hstep _ b hs
  cases found with
  | true => exact hb
  | false =>
    have habsent : b.disk.files (.home kind) name = none :=
      Option.isSome_eq_false_iff.1 (hfound false rfl).symm |> Option.isNone_iff_eq_none.1
    exact copyFile_import_wp ⟨hb, habsent, trivial⟩ hname hprovenance

/-! ## The calls of a client -/

/-- A mild part of a call in front of the rest. -/
theorem Locked.seq {p : Store α} {f : α → Store β} (h : Locked setup.store legacy c a)
    (hp : p.Only Mild)
    (hf : ∀ x b, Locked setup.store legacy c b →
      amongImports setup legacy c (f x) (fun _ b => Locked setup.store legacy c b) b) :
    amongImports setup legacy c (p >>= f) (fun _ b => Locked setup.store legacy c b) a :=
  Prog.wp_seq (h.keeps hp) (fun _ _ hb => hb) hf

theorem Locked.look {op : Op (Except StoreError α)} {f : α → Store β}
    (h : Locked setup.store legacy c a) (hl : op.isTryLock = false)
    (hw : ∀ dir name, ¬ op.Writes dir name) (hm : ∀ dir name, ¬ op.Moves dir name)
    (hf : ∀ x b, Locked setup.store legacy c b →
      amongImports setup legacy c (f x) (fun _ b => Locked setup.store legacy c b) b) :
    amongImports setup legacy c (demand op >>= f) (fun _ b => Locked setup.store legacy c b) a :=
  h.seq (mild_demand hl (hw _) fun dir name _ => hm dir name) hf

theorem migrateMeow_wp (h : Locked setup.store legacy c a) :
    amongImports setup legacy c (migrateMeow setup.store .meow)
      (fun _ b => Locked setup.store legacy c b) a := by
  unfold migrateMeow
  refine h.look rfl nofun nofun fun home b h => ?_
  cases home with
  | true => exact h
  | false =>
    refine h.look rfl nofun nofun fun done b h => ?_
    cases done with
    | true => exact h
    | false =>
      refine h.look rfl nofun nofun fun there b h => ?_
      cases there with
      | false => exact h
      | true =>
        refine h.look rfl nofun nofun fun _ b h => ?_
        refine h.seq validateSelectorJson_mild fun _ b h => ?_
        refine h.look rfl nofun nofun fun _ b h => ?_
        refine h.seq (copyOnce_mild nofun fun _ => nofun) fun _ b h => ?_
        refine Prog.wp_seq (copyOnce_import_wp h (.inr rfl) fun _ _ => .inr ⟨rfl, rfl⟩)
          (fun _ _ hb => hb) ?_
        intro _ b h
        exact h.keeps writeMarker_mild

theorem migrate_wp (h : Locked setup.store legacy c a) :
    amongImports setup legacy c (migrate setup.store kind)
      (fun _ b => Locked setup.store legacy c b) a := by
  unfold migrate
  refine h.look rfl nofun nofun fun home b h => ?_
  cases home with
  | true => exact h
  | false =>
    refine h.look rfl nofun nofun fun done b h => ?_
    cases done with
    | true => exact h
    | false =>
      refine h.look rfl nofun nofun fun there b h => ?_
      cases there with
      | false => exact h
      | true =>
        refine h.look rfl nofun nofun fun _ b h => ?_
        refine h.look rfl nofun nofun fun _ b h => ?_
        refine Prog.wp_seq (contents_wp h) (fun _ _ hb => hb.1) ?_
        rintro old b ⟨h, -, hold⟩
        have hlegacy := hold old rfl
        cases hsource : sourceKind setup.store.legacyKind (cacheFormat setup.store.parsers old) with
        | error e => exact h
        | ok source =>
          cases source with
          | none => exact h
          | some source =>
            have hprovenance : ∀ bytes, legacy cacheName = some bytes →
                Provenance setup.store cacheName bytes source := by
              intro bytes hbytes
              rw [hlegacy] at hbytes
              cases hbytes
              exact .inl ⟨rfl, hsource⟩
            refine h.look rfl nofun nofun fun _ b h => ?_
            refine h.seq (copyOnce_mild nofun fun _ => nofun) fun _ b h => ?_
            refine h.look rfl nofun nofun fun _ b h => ?_
            refine h.look rfl nofun nofun fun _ b h => ?_
            refine h.look rfl nofun nofun fun found b h => ?_
            cases found with
            | true => exact h.keeps writeMarker_mild
            | false =>
              refine Prog.wp_seq (copyOnce_import_wp h (.inl rfl) hprovenance)
                (fun _ _ hb => hb) ?_
              intro _ b h
              exact h.keeps writeMarker_mild

/-- What a client does once it has dealt with the active file. -/
theorem imported_wp (h : Locked setup.store legacy c a) :
    amongImports setup legacy c (do
      demand (.repairTree (.home kind))
      if kind = .meow then migrateMeow setup.store kind else migrate setup.store kind
      seedResources kind resources
      checkCache setup.store.parsers kind
      pure ⟨kind⟩ : Store Lease) (fun _ b => Locked setup.store legacy c b) a := by
  refine h.look rfl nofun nofun fun _ b h => ?_
  have rest {b : View} (h : Locked setup.store legacy c b) : amongImports setup legacy c (do
      seedResources kind resources
      checkCache setup.store.parsers kind
      pure ⟨kind⟩ : Store Lease) (fun _ b => Locked setup.store legacy c b) b := by
    refine h.seq seedResources_mild fun _ b h => ?_
    exact h.seq checkCache_mild fun _ b h => h
  by_cases hk : kind = .meow
  · subst hk
    exact Prog.wp_seq (migrateMeow_wp h) (fun _ _ hb => hb) fun _ b h => rest h
  · rw [if_neg hk]
    exact Prog.wp_seq (migrate_wp h) (fun _ _ hb => hb) fun _ b h => rest h

theorem readToString_mild {bytes : Bytes} : (readToString bytes).Only Mild := by
  unfold readToString
  split
  · exact .ret _
  · exact .ret _

theorem removeActive_mild : (demand (.remove .root "active") : Store Unit).Only Mild :=
  .demand (root_mild rfl (fun _ _ hw => hw.1.symm) fun _ _ hm => hm.1.symm)

theorem acquire_imports_wp (hinv : Migrated setup.store legacy a) (hlock : a.disk.lock ≠ some c) :
    amongImports setup legacy c (acquire setup.store kind)
      (fun r b => ∀ lease, r = .ok lease → b.disk.lock = some c ∧ True) a := by
  unfold acquire
  refine locked_wp migrated_spared hinv hlock (fun _ _ => nofun) ?_
  intro b hinv hlock
  have h : Locked setup.store legacy c b := ⟨hlock, hinv⟩
  refine Prog.wp_mono (Q := fun _ b => Locked setup.store legacy c b) ?_
    fun _ _ hb _ _ => ⟨hb.lock, trivial⟩
  refine h.look rfl nofun nofun fun found b h => ?_
  cases found with
  | false => exact imported_wp h
  | true =>
    refine h.look rfl nofun nofun fun _ b h => ?_
    refine h.look rfl nofun nofun fun bytes b h => ?_
    refine h.seq readToString_mild fun raw b h => ?_
    refine h.seq (.perform ⟨rfl, nofun, fun _ _ _ => nofun⟩) fun answer b h => ?_
    cases answer with
    | error e => exact h
    | ok alive =>
      cases alive with
      | true => exact h
      | false => exact h.seq removeActive_mild fun _ b h => imported_wp h

theorem task_mild {lease : Lease} (task : Task) : (task.program setup lease).Only Mild := by
  have onRoot {op : Op (Except StoreError Unit)} (hl : op.isTryLock = false)
      (hw : ∀ dir name, op.Writes dir name → dir = .root)
      (hm : ∀ dir name, op.Moves dir name → dir = .root) : (demand op : Store Unit).Only Mild :=
    .demand (root_mild hl hw hm)
  have looks {α : Type} {op : Op (Except StoreError α)} (hl : op.isTryLock = false)
      (hw : ∀ dir name, ¬ op.Writes dir name) (hm : ∀ dir name, ¬ op.Moves dir name) :
      (demand op : Store α).Only Mild := mild_demand hl (hw _) fun dir name _ => hm dir name
  cases task with
  | prepare =>
    show (prepareSpawn setup.store.parsers lease).Only Mild
    unfold prepareSpawn
    refine .bind (looks rfl nofun nofun) fun _ => ?_
    refine .bind checkCache_mild fun _ => ?_
    refine .bind (onRoot rfl (fun _ _ hw => hw.1.symm) nofun) fun _ => ?_
    refine .bind (onRoot rfl (fun _ _ hw => hw.1.symm) nofun) fun _ => ?_
    refine .bind (onRoot rfl (fun _ _ hw => hw.1.symm) nofun) fun _ => ?_
    refine .bind (looks rfl nofun nofun) fun _ => ?_
    exact looks rfl nofun nofun
  | record =>
    show recordStarted.Only Mild
    unfold recordStarted
    refine .bind (looks rfl nofun nofun) fun bytes => ?_
    refine .bind readToString_mild fun raw => ?_
    refine .bind (.perform ⟨rfl, nofun, fun _ _ _ => nofun⟩) fun answer => ?_
    cases answer with
    | error e => exact .ret _
    | ok alive =>
      refine .bind (onRoot rfl (fun _ _ hw => hw.1.symm) nofun) fun _ => ?_
      refine .bind (onRoot rfl (fun _ _ hw => hw.1.symm) nofun) fun _ => ?_
      refine .bind (onRoot rfl (fun _ _ hw => hw.1.symm) nofun) fun _ => ?_
      refine .bind (looks rfl nofun nofun) fun _ => ?_
      refine .bind (onRoot rfl (fun _ _ hw => hw.1.symm) fun _ _ hm => hm.1.symm) fun _ => ?_
      exact looks rfl nofun nofun
  | confirm =>
    show (confirmStopped lease).Only Mild
    unfold confirmStopped
    refine .bind (looks rfl nofun nofun) fun _ => ?_
    refine .bind removeActive_mild fun _ => ?_
    exact looks rfl nofun nofun

end Calls

/-! ## The imports of a run -/

/-- Imports assume nothing of the cores. -/
def imports (setup : Setup) (legacy : String → Option Bytes) : Protocol setup where
  Inv := Migrated setup.store legacy
  Fits := fun _ _ => True
  Confirms := fun _ _ => True
  Granted := fun _ _ => True
  Lease := fun _ _ _ => True
  granted := fun _ => trivial
  stableGranted := fun _ _ _ => trivial
  stable := fun _ _ _ => trivial
  acquire := fun c kind v hinv hlock => acquire_imports_wp hinv hlock
  task := by
    intro c lease prepared task v hinv hlock _ _
    have h : Locked setup.store legacy c v := ⟨hlock, hinv⟩
    exact Prog.wp_mono (h.keeps (task_mild task)) fun _ _ hb => ⟨hb.lock, trivial⟩
  spawn := fun c record published v hinv _ _ _ => ⟨⟨hinv.kept, hinv.imported, hinv.once⟩, trivial⟩
  exit := fun v number hinv => ⟨hinv.kept, hinv.imported, hinv.once⟩
  release := fun v p hinv => ⟨hinv.kept, hinv.imported, hinv.once⟩

/-- Whatever crashes, the legacy files stay as they are, an import brings the
whole legacy file into the home that it belongs to and replaces nothing, and it
is brought at most once. -/
theorem migration_crash_safe (setup : Setup) (files : Dir → String → Option Bytes) {s : Fleet}
    (hs : (fleet setup files).Reachable s) :
    (∀ name, s.view.disk.files .data name = files .data name) ∧
    (∀ r ∈ s.view.disk.renames, ImportTarget r.dir r.name →
      Imported setup.store (files .data) r) ∧
    ∀ dir name, ImportTarget dir name → (arrivals s.view.disk dir name).length ≤ 1 := by
  have hsound : (imports setup (files .data)).Sound s := by
    refine Protocol.sound_reachable _ ⟨fun _ => rfl, ?_, ?_⟩ (hs.weaken ?_)
    · intro r hr
      cases hr
    · exact fun _ _ _ => Nat.zero_le 1
    · intro s turn _
      cases turn <;> trivial
  exact ⟨hsound.inv.kept, fun r hr ht => (hsound.inv.imported r hr ht).1, hsound.inv.once⟩

def legacyYaml : Bytes := encode "selected: \x7b\x7d\n".toList

/-- The caches of a host that ran Mihomo last, and Clash before. -/
def yamlSetup : Setup where
  store := ⟨.inherited, some .mihomo, ⟨fun bytes =>
    if bytes = legacyYaml then some (.mapping [(.string "selected".toList, .mapping [])])
    else none, fun _ => true⟩⟩
  target := .linux
  host := id

def legacyFiles (dir : Dir) (name : String) : Option Bytes :=
  if dir = .data ∧ name = cacheName then some legacyYaml else none

/-- Mihomo is asked for; the host crashes between the import and its marker, and
another one asks again. -/
def crashedImport : List Turn :=
  .acquire 0 .mihomo :: List.replicate 34 (.operation 0 plainFate) ++
    [.crash 0, .acquire 1 .mihomo] ++ List.replicate 38 (.operation 1 plainFate)

theorem crashed_import_safe : ∃ s : Fleet, (fleet yamlSetup legacyFiles).Reachable s ∧
    (s.seats 1).leased = true ∧
    (arrivals s.view.disk (.home .clashRust) cacheName).map Rename.moved = [some legacyYaml] ∧
    (∀ name, s.view.disk.files .data name = legacyFiles .data name) ∧
    (∀ r ∈ s.view.disk.renames, ImportTarget r.dir r.name →
      Imported yamlSetup.store (legacyFiles .data) r) ∧
    ∀ dir name, ImportTarget dir name → (arrivals s.view.disk dir name).length ≤ 1 := by
  have hrun : ((fleet yamlSetup legacyFiles).run (fleet yamlSetup legacyFiles).init
      crashedImport).map (fun s => ((s.seats 1).leased,
        (arrivals s.view.disk (.home .clashRust) cacheName).map Rename.moved)) =
      some (true, [some legacyYaml]) := by decide +kernel
  obtain ⟨s, hs, hfacts⟩ := Option.map_eq_some_iff.1 hrun
  obtain ⟨hleased, hmoved⟩ : (s.seats 1).leased = true ∧
      (arrivals s.view.disk (.home .clashRust) cacheName).map Rename.moved =
        [some legacyYaml] := by simpa using hfacts
  have hreach := Machine.run_reachable .init hs
  exact ⟨s, hreach, hleased, hmoved, migration_crash_safe yamlSetup legacyFiles hreach⟩

end Chimera.Native
