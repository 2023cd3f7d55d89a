import Chimera.Manager.FileNames

/-! `cleanup_artifacts` and the start-up sweep over a directory of names. Every
operation may fail; what a cleanup removes has its number, and what it reports
done is gone. -/

namespace Chimera.Manager
open Chimera.Model Chimera.Lib.Utf8 Chimera.Lib.Fields Chimera.Lib.Program

/-- The runtime directory by file names, which need not be UTF-8. -/
abbrev Folder := List (List UInt8 × Node)

def Folder.find (f : Folder) (name : Text) : Option Node := List.lookup (encode name) f

def Folder.erase (f : Folder) (name : Text) : Folder := f.filter fun entry => entry.1 ≠ encode name

inductive NamePrim : Type → Type
  /-- `symlink_metadata`, `none` for an absent entry. -/
  | stat (name : Text) : NamePrim (Except String (Option Node))
  | tryExists (name : Text) : NamePrim (Except String Bool)
  | remove (name : Text) : NamePrim (Except String Unit)
  | readDir : NamePrim (Except String (List (List UInt8)))
  /-- `next_entry`, on what the directory held when it was opened. -/
  | nextEntry : NamePrim (Except String Unit)
  | syncDir : NamePrim (Except String Unit)
  /-- `reap_epoch_pid_file`, which may leave the record. -/
  | reap (name : Text) : NamePrim (Except String Unit)
  | cleanupController (epoch : Epoch) : NamePrim (Except Error Unit)

/-- What happens outside: which operations fail, which records a reap leaves, and
how the cleanup of a controller ends. -/
structure Host where
  fault : Nat → Option String
  leaves : Nat → Bool
  controller : Nat → Except Error Unit

structure NamedDir where
  folder : Folder
  tick : Nat

/-- An operation that the host may make fail. -/
def Host.attempt {β : Type} (host : Host) (act : Folder → Except String β × Folder)
    (s : NamedDir) : Except Empty (Except String β) × NamedDir :=
  match host.fault s.tick with
  | some text => (.ok (.error text), ⟨s.folder, s.tick + 1⟩)
  | none => (.ok (act s.folder).1, ⟨(act s.folder).2, s.tick + 1⟩)

def Folder.remove (f : Folder) (name : Text) : Except String Unit × Folder :=
  match f.find name with
  | some _ => (.ok (), f.erase name)
  | none => (.error absent, f)

def nameHandle (host : Host) : Handler NamePrim NamedDir Empty
  | _, .stat name, s => host.attempt (fun f => (.ok (f.find name), f)) s
  | _, .tryExists name, s => host.attempt (fun f => (.ok (f.find name).isSome, f)) s
  | _, .remove name, s => host.attempt (fun f => f.remove name) s
  | _, .readDir, s => host.attempt (fun f => (.ok (f.map Prod.fst), f)) s
  | _, .nextEntry, s => host.attempt (fun f => (.ok (), f)) s
  | _, .syncDir, s => host.attempt (fun f => (.ok (), f)) s
  | _, .reap name, s =>
    host.attempt (fun f => (.ok (), if host.leaves s.tick then f else f.erase name)) s
  | _, .cleanupController _, s => (.ok (host.controller s.tick), ⟨s.folder, s.tick + 1⟩)

/-! ## The programs -/

/-- An operation on the directory under `?`. -/
def named {β : Type} (op : NamePrim (Except String β)) : Prog Error NamePrim β :=
  .call op fun r => .ret (r.mapError Error.io)

section Programs

variable (dir : Utf8Path)

def unsafeArtifact (name : Text) : Error :=
  .unsafeRuntimeArtifact (dir ++ "/" ++ String.ofList name)

def Node.isFile : Node → Bool
  | .file _ => true
  | _ => false

def Node.isSocket : Node → Bool
  | .socket => true
  | _ => false

/-- Removes an entry that is of the kind it has to be, or absent. -/
def removeName (accepted : Node → Bool) (name : Text) : Prog Error NamePrim Unit := do
  match ← named (.stat name) with
  | none => pure ()
  | some node =>
    if accepted node then named (.remove name) else fail (unsafeArtifact dir name)

/-- `remove_regular_file`. -/
def removeRegularName (name : Text) : Prog Error NamePrim Unit := removeName dir Node.isFile name

/-- `remove_socket_artifact`. -/
def removeSocketName (name : Text) : Prog Error NamePrim Unit := removeName dir Node.isSocket name

/-- The loop of `cleanup_artifacts` over the entries of the directory. -/
def cleanupEntries (discovered : Nat) : List (List UInt8) → Prog Error NamePrim Unit
  | [] => named .nextEntry
  | entry :: rest => do
    named .nextEntry
    match decode entry with
    | none => cleanupEntries discovered rest
    | some name =>
      if isLooseName discovered name then do
        removeRegularName dir name
        cleanupEntries discovered rest
      else cleanupEntries discovered rest

def cleanupNames (discovered : Nat) : Prog Error NamePrim Unit := do
  removeRegularName dir (artifactRuntimeName discovered)
  removeRegularName dir (artifactPidName discovered)
  removeSocketName dir (artifactSocketName discovered)
  let entries ← named .readDir
  cleanupEntries dir discovered entries
  named .syncDir

/-- The loop of `artifact_epochs`. -/
def collectEpochs : List (List UInt8) → Prog Error NamePrim (List Nat)
  | [] => do
    named .nextEntry
    pure []
  | entry :: rest => do
    named .nextEntry
    let epochs ← collectEpochs rest
    pure (((decode entry).bind artifactEpoch).toList ++ epochs)

def artifactEpochNames : Prog Error NamePrim (List Nat) := do
  let entries ← named .readDir
  let epochs ← collectEpochs entries
  pure (epochs.insertionSort (· ≤ ·)).dedup

def reapName (artifact : Nat) : Prog Error NamePrim Unit := do
  if ← named (.tryExists (artifactPidName artifact)) then
    named (.reap (artifactPidName artifact))
  else pure ()

/-- A number read from a name need not be an epoch. -/
def controllerOf (artifact : Nat) : Prog Error NamePrim Unit :=
  match Epoch.new artifact with
  | some epoch => demand (.cleanupController epoch)
  | none => pure ()

/-- One turn of `sweep_orphans`. -/
def sweepName (artifact : Nat) : Prog Error NamePrim Unit := do
  reapName artifact
  controllerOf artifact
  cleanupNames dir artifact

def sweepNames : List Nat → Prog Error NamePrim Unit
  | [] => pure ()
  | artifact :: rest => do
    sweepName dir artifact
    sweepNames rest

def sweepOrphans : Prog Error NamePrim Nat := do
  let discovered ← artifactEpochNames
  sweepNames dir discovered
  pure (discovered.max?.getD 0)

end Programs

/-! ## What the operations do -/

section Entries

variable {f f' f'' : Folder} {name : Text}

theorem lookup_erase (f : Folder) (name : Text) (bytes : List UInt8) :
    List.lookup bytes (f.erase name) = if bytes = encode name then none else List.lookup bytes f := by
  induction f with
  | nil => simp [Folder.erase]
  | cons entry f ih =>
    obtain ⟨key, node⟩ := entry
    have hstep : Folder.erase ((key, node) :: f) name =
        if key ≠ encode name then (key, node) :: Folder.erase f name else Folder.erase f name := by
      simp [Folder.erase, List.filter_cons]
    rw [hstep]
    by_cases hkey : key = encode name
    · rw [if_neg (not_not.2 hkey), ih]
      split
      · rfl
      · rename_i hbytes
        rw [List.lookup_cons, beq_false_of_ne (hkey ▸ hbytes)]
    · rw [if_pos hkey, List.lookup_cons, List.lookup_cons, ih]
      by_cases hbytes : bytes = key
      · rw [hbytes, beq_self_eq_true]
        exact (if_neg hkey).symm
      · rw [beq_false_of_ne hbytes]

theorem find_none_iff : f.find name = none ↔ encode name ∉ f.map Prod.fst := by
  rw [Folder.find, List.lookup_eq_none_iff]
  constructor
  · intro h hmem
    obtain ⟨entry, hentry, hkey⟩ := List.mem_map.1 hmem
    have hne := h entry hentry
    rw [hkey, bne_self_eq_false] at hne
    cases hne
  · intro h entry hentry
    exact bne_iff_ne.2 fun hkey => h (hkey ▸ List.mem_map_of_mem hentry)

/-- Entries are removed at most, and these have names of `S`. -/
def Removes (S : Text → Prop) (f f' : Folder) : Prop :=
  ∀ bytes, List.lookup bytes f' = List.lookup bytes f ∨
    List.lookup bytes f' = none ∧ ∃ name, bytes = encode name ∧ S name

variable {S T : Text → Prop}

theorem Removes.refl : Removes S f f := fun _ => .inl rfl

theorem Removes.trans (h : Removes S f f') (h' : Removes S f' f'') : Removes S f f'' := by
  intro bytes
  rcases h' bytes with heq | hgone
  · rw [heq]
    exact h bytes
  · exact .inr hgone

theorem Removes.mono (h : Removes S f f') (hST : ∀ name, S name → T name) : Removes T f f' := by
  intro bytes
  rcases h bytes with heq | ⟨hgone, name, hname, hS⟩
  · exact .inl heq
  · exact .inr ⟨hgone, name, hname, hST name hS⟩

theorem Removes.gone (h : Removes S f f') (hnone : f.find name = none) : f'.find name = none := by
  rcases h (encode name) with heq | ⟨hgone, -⟩
  · rw [Folder.find, heq]
    exact hnone
  · exact hgone

/-- What is left is what was there. -/
theorem Removes.left (h : Removes S f f') {node : Node} (hnode : f'.find name = some node) :
    f.find name = some node := by
  rcases h (encode name) with heq | ⟨hgone, -⟩
  · rw [Folder.find, ← heq]
    exact hnode
  · rw [Folder.find, hgone] at hnode
    cases hnode

theorem Removes.other (h : Removes S f f') (hS : ¬ S name) : f'.find name = f.find name := by
  rcases h (encode name) with heq | ⟨-, other, hother, hS'⟩
  · exact heq
  · rw [encode_inj] at hother
    exact absurd (hother ▸ hS') hS

theorem removes_erase (hname : S name) : Removes S f (f.erase name) := by
  intro bytes
  rw [lookup_erase]
  split
  · rename_i hbytes
    exact .inr ⟨rfl, name, hbytes, hname⟩
  · exact .inl rfl

end Entries

/-- Any operation may fail where `mayFail`, and a controller's cleanup where `refuses`; then
nothing has changed. -/
def namedStep (mayFail refuses : Prop) :
    ∀ {β : Type}, NamePrim β → Folder → β → Folder → Prop
  | _, .stat name, f, r, f' => f' = f ∧ (r = .ok (f.find name) ∨ mayFail ∧ ∃ text, r = .error text)
  | _, .tryExists _, f, r, f' => f' = f ∧ ((∃ b, r = .ok b) ∨ mayFail ∧ ∃ text, r = .error text)
  | _, .remove name, f, r, f' =>
    (f.find name ≠ none ∧ r = .ok () ∧ f' = f.erase name) ∨
      ((f.find name = none ∨ mayFail) ∧ (∃ text, r = .error text) ∧ f' = f)
  | _, .readDir, f, r, f' => f' = f ∧ (r = .ok (f.map Prod.fst) ∨ mayFail ∧ ∃ text, r = .error text)
  | _, .nextEntry, f, r, f' => f' = f ∧ (r = .ok () ∨ mayFail ∧ ∃ text, r = .error text)
  | _, .syncDir, f, r, f' => f' = f ∧ (r = .ok () ∨ mayFail ∧ ∃ text, r = .error text)
  | _, .reap name, f, r, f' => (f' = f ∨ f' = f.erase name) ∧
      (r = .ok () ∨ mayFail ∧ ∃ text, r = .error text)
  | _, .cleanupController _, f, r, f' => f' = f ∧ (r = .ok () ∨ refuses)

def nameReading (mayFail refuses : Prop) : Reading NamePrim Folder where
  step := namedStep mayFail refuses
  pre := fun _ _ => True

/-- An operation that fails or does what it is for. -/
theorem attempt_cases {β : Type} {host : Host} {act : Folder → Except String β × Folder}
    {s t : NamedDir} {r : Except String β} (h : host.attempt act s = (.ok r, t)) :
    (t.folder = s.folder ∧ (∃ tick, host.fault tick ≠ none) ∧ ∃ text, r = .error text) ∨
      (r = (act s.folder).1 ∧ t.folder = (act s.folder).2) := by
  unfold Host.attempt at h
  split at h
  · rename_i text hfault
    cases h
    exact .inl ⟨rfl, ⟨s.tick, by rw [hfault]; nofun⟩, text, rfl⟩
  · cases h
    exact .inr ⟨rfl, rfl⟩

theorem nameReading_sound {host : Host} {mayFail refuses : Prop}
    (hfail : (∃ tick, host.fault tick ≠ none) → mayFail)
    (hrefuses : (∃ tick, host.controller tick ≠ .ok ()) → refuses) :
    (nameReading mayFail refuses).Sound (nameHandle host) (fun _ _ => True) NamedDir.folder where
  step op s t b _ h := by
    cases op with
    | stat name =>
      rcases attempt_cases h with ⟨ht, hfault, hr⟩ | ⟨hr, ht⟩
      · exact ⟨ht, .inr ⟨hfail hfault, hr⟩⟩
      · exact ⟨ht, .inl hr⟩
    | tryExists name =>
      rcases attempt_cases h with ⟨ht, hfault, hr⟩ | ⟨hr, ht⟩
      · exact ⟨ht, .inr ⟨hfail hfault, hr⟩⟩
      · exact ⟨ht, .inl ⟨_, hr⟩⟩
    | remove name =>
      have h : host.attempt (fun f => f.remove name) s = (.ok b, t) := h
      rcases attempt_cases h with ⟨ht, hfault, hr⟩ | ⟨hr, ht⟩
      · exact .inr ⟨.inr (hfail hfault), hr, ht⟩
      · unfold Folder.remove at hr ht
        split at hr
        · rename_i node hnode
          rw [hnode] at ht
          exact .inl ⟨by rw [hnode]; nofun, hr, ht⟩
        · rename_i hnone
          rw [hnone] at ht
          exact .inr ⟨.inl hnone, ⟨_, hr⟩, ht⟩
    | readDir =>
      rcases attempt_cases h with ⟨ht, hfault, hr⟩ | ⟨hr, ht⟩
      · exact ⟨ht, .inr ⟨hfail hfault, hr⟩⟩
      · exact ⟨ht, .inl hr⟩
    | nextEntry =>
      rcases attempt_cases h with ⟨ht, hfault, hr⟩ | ⟨hr, ht⟩
      · exact ⟨ht, .inr ⟨hfail hfault, hr⟩⟩
      · exact ⟨ht, .inl hr⟩
    | syncDir =>
      rcases attempt_cases h with ⟨ht, hfault, hr⟩ | ⟨hr, ht⟩
      · exact ⟨ht, .inr ⟨hfail hfault, hr⟩⟩
      · exact ⟨ht, .inl hr⟩
    | reap name =>
      have h : host.attempt (fun f => (.ok (), if host.leaves s.tick then f else f.erase name)) s =
          (.ok b, t) := h
      rcases attempt_cases h with ⟨ht, hfault, hr⟩ | ⟨hr, ht⟩
      · exact ⟨.inl ht, .inr ⟨hfail hfault, hr⟩⟩
      · refine ⟨?_, .inl hr⟩
        show t.folder = s.folder ∨ t.folder = s.folder.erase name
        rw [ht]
        split
        · exact .inl rfl
        · exact .inr rfl
    | cleanupController epoch =>
      cases h
      refine ⟨rfl, ?_⟩
      by_cases hok : host.controller s.tick = .ok ()
      · exact .inl hok
      · exact .inr (hrefuses ⟨s.tick, hok⟩)

/-! ## What the programs do -/

section Cleanup

variable {dir : Utf8Path} {f : Folder} {n : Nat} {name : Text} {mayFail refuses : Prop}

/-- What belongs to the number is a regular file, but for its socket. -/
def KindsRight (n : Nat) (f : Folder) : Prop :=
  ∀ name node, belongs n name = true → f.find name = some node →
    if name = artifactSocketName n then node.isSocket = true else node.isFile = true

theorem kindsRight_kept {S : Text → Prop} (f' : Folder) (hremoves : Removes S f f')
    (h : KindsRight n f) : KindsRight n f' :=
  fun name node hname hnode => h name node hname (hremoves.left hnode)

/-- How a program ended that has to clear the names of `S`, which are all that it may
remove: where it returns they are gone, and it does return where nothing fails and
the entries are of the kinds that they have to be. -/
structure Emptied (mayFail : Prop) (K : Folder → Prop) (S : Text → Prop) (f : Folder)
    (r : Except Error Unit) (f' : Folder) : Prop where
  removes : Removes S f f'
  gone : r = .ok () → ∀ name, S name → f'.find name = none
  returns : ¬ mayFail → K f → r = .ok ()

/-- An operation under `?`, and what follows it. -/
theorem named_wp {α β : Type} {op : NamePrim (Except String β)} {k : β → Prog Error NamePrim α}
    {Q : Except Error α → Folder → Prop}
    (error : ∀ text f', namedStep mayFail refuses op f (.error text) f' → Q (.error (.io text)) f')
    (ok : ∀ b f', namedStep mayFail refuses op f (.ok b) f' →
      (k b).wp (nameReading mayFail refuses) Q f') :
    (named op >>= k).wp (nameReading mayFail refuses) Q f := by
  refine ⟨trivial, fun r f' hstep => ?_⟩
  cases r with
  | error text => exact error text f' hstep
  | ok b => exact ok b f' hstep

theorem removeName_wp {accepted : Node → Bool} (hn : KindsRight n f → ∀ node,
    f.find name = some node → accepted node = true) :
    (removeName dir accepted name).wp (nameReading mayFail refuses)
      (Emptied mayFail (KindsRight n) (· = name) f) f := by
  unfold removeName
  refine named_wp ?_ ?_
  · intro text f' hstep
    obtain ⟨rfl, hr | ⟨hfail, -⟩⟩ := hstep
    · cases hr
    · exact ⟨.refl, nofun, fun hcalm => absurd hfail hcalm⟩
  · intro found f' hstep
    obtain ⟨rfl, hr | ⟨-, text, hr⟩⟩ := hstep
    · cases hr
      split
      · rename_i hnone
        exact ⟨.refl, fun _ other hother => hother ▸ hnone, fun _ _ => rfl⟩
      · rename_i node hnode
        split
        · rename_i haccepted
          refine ⟨trivial, fun r f' hstep => ?_⟩
          rcases hstep with ⟨-, rfl, rfl⟩ | ⟨hnone | hfail, ⟨text, rfl⟩, rfl⟩
          · refine ⟨removes_erase rfl, fun _ other hother => ?_, fun _ _ => rfl⟩
            rw [hother, Folder.find, lookup_erase, if_pos rfl]
          · rw [hnode] at hnone
            cases hnone
          · exact ⟨.refl, nofun, fun hcalm => absurd hfail hcalm⟩
        · rename_i hrefused
          exact ⟨.refl, nofun, fun _ hkinds => absurd (hn hkinds node hnode) hrefused⟩
    · cases hr

section Sequences

variable {K : Folder → Prop} {S T : Text → Prop} {p : Prog Error NamePrim Unit}
  {k : Unit → Prog Error NamePrim Unit} {r : Except Error Unit} {f' : Folder}

theorem Emptied.congr (h : Emptied mayFail K S f r f') (hST : ∀ name, S name ↔ T name) :
    Emptied mayFail K T f r f' where
  removes := h.removes.mono fun name => (hST name).1
  gone hr name hname := h.gone hr name ((hST name).2 hname)
  returns := h.returns

/-- One thing after the other: what the first one cleared stays so. -/
theorem emptied_seq (hK : ∀ f', Removes S f f' → K f → K f')
    (hp : p.wp (nameReading mayFail refuses) (Emptied mayFail K S f) f)
    (hk : ∀ f', Removes S f f' →
      (k ()).wp (nameReading mayFail refuses) (Emptied mayFail K T f') f') :
    (p >>= k).wp (nameReading mayFail refuses)
      (Emptied mayFail K (fun name => S name ∨ T name) f) f := by
  refine Prog.wp_seq hp ?_ ?_
  · intro e f' hemptied
    refine ⟨hemptied.removes.mono fun _ => .inl, nofun, fun hcalm hkinds => ?_⟩
    cases hemptied.returns hcalm hkinds
  · intro _ f' hemptied
    refine Prog.wp_mono (hk f' hemptied.removes) fun r f'' hrest => ?_
    refine ⟨(hemptied.removes.mono fun _ => .inl).trans (hrest.removes.mono fun _ => .inr), ?_,
      fun hcalm hkinds => hrest.returns hcalm (hK f' hemptied.removes hkinds)⟩
    intro hr name hname
    rcases hname with hS | hT
    · exact hrest.removes.gone (hemptied.gone rfl name hS)
    · exact hrest.gone hr name hT

end Sequences

/-- An operation that only looks. -/
theorem looks_wp {op : NamePrim (Except String Unit)}
    (h : ∀ r f', namedStep mayFail refuses op f r f' →
      f' = f ∧ (r = .ok () ∨ mayFail ∧ ∃ text, r = .error text)) :
    (named op).wp (nameReading mayFail refuses)
      (Emptied mayFail (KindsRight n) (fun _ => False) f) f := by
  refine ⟨trivial, fun r f' hstep => ?_⟩
  obtain ⟨rfl, rfl | ⟨hfail, text, rfl⟩⟩ := h r f' hstep
  · exact ⟨.refl, fun _ _ h => h.elim, fun _ _ => rfl⟩
  · exact ⟨.refl, nofun, fun hcalm => absurd hfail hcalm⟩

/-- What belongs to the number and has not the length of its socket's name. -/
theorem KindsRight.isFile (h : KindsRight n f) (hname : belongs n name = true)
    (hlength : name.length ≠ (decimal n).length + 10) {node : Node}
    (hnode : f.find name = some node) : node.isFile = true := by
  have hkind := h name node hname hnode
  have hsocket : name ≠ artifactSocketName n := by
    rintro rfl
    refine hlength ?_
    have hparts : core.length + sock.length = 10 := rfl
    rw [artifactSocketName, List.length_append, List.length_append]
    omega
  rwa [if_neg hsocket] at hkind

/-- The loop clears the loose names among the entries. -/
theorem cleanupEntries_wp (entries : List (List UInt8)) :
    (cleanupEntries dir n entries).wp (nameReading mayFail refuses)
      (Emptied mayFail (KindsRight n)
        (fun name => isLooseName n name = true ∧ encode name ∈ entries) f) f := by
  induction entries generalizing f with
  | nil =>
    refine Prog.wp_mono (looks_wp fun _ _ => id) fun r f' h => h.congr fun name => ?_
    simp
  | cons entry rest ih =>
    have skip (hentry : ∀ name, isLooseName n name = true → encode name ≠ entry) :
        (cleanupEntries dir n rest).wp (nameReading mayFail refuses) (Emptied mayFail (KindsRight n)
          (fun name => isLooseName n name = true ∧ encode name ∈ entry :: rest) f) f := by
      refine Prog.wp_mono ih fun r f' h => h.congr fun name => and_congr_right fun hloose => ?_
      rw [List.mem_cons]
      exact ⟨.inr, fun hmem => hmem.resolve_left (hentry name hloose)⟩
    unfold cleanupEntries
    refine named_wp ?_ ?_
    · intro text f' hstep
      obtain ⟨rfl, hr | ⟨hfail, -⟩⟩ := hstep
      · cases hr
      · exact ⟨.refl, nofun, fun hcalm => absurd hfail hcalm⟩
    · intro _ f' hstep
      obtain ⟨rfl, -⟩ := hstep
      split
      · rename_i hnone
        refine skip fun name _ hname => ?_
        rw [decode_eq_some.2 hname.symm] at hnone
        cases hnone
      · rename_i name hname
        rw [decode_eq_some] at hname
        split
        · rename_i hloose
          have hfile : KindsRight n f' → ∀ node, f'.find name = some node → node.isFile = true := by
            intro hkinds node hnode
            have hlength := isLooseName_length hloose
            exact hkinds.isFile (belongs_loose hloose) (by omega) hnode
          refine Prog.wp_mono (emptied_seq kindsRight_kept (removeName_wp hfile) fun _ _ => ih)
            fun r f' h => h.congr fun other => ?_
          rw [List.mem_cons, hname, encode_inj]
          constructor
          · rintro (rfl | ⟨hother, hmem⟩)
            · exact ⟨hloose, .inl rfl⟩
            · exact ⟨hother, .inr hmem⟩
          · rintro ⟨hother, rfl | hmem⟩
            · exact .inl rfl
            · exact .inr ⟨hother, hmem⟩
        · rename_i hfixed
          refine skip fun other hother hencode => hfixed ?_
          rw [hname, encode_inj] at hencode
          rw [← hencode]
          exact hother

/-- What is not an entry need not be removed. -/
theorem Emptied.absent {S T : Text → Prop} {r : Except Error Unit} {f' : Folder}
    (h : Emptied mayFail (KindsRight n) S f r f') (hST : ∀ name, S name → T name)
    (habsent : ∀ name, T name → ¬ S name → f.find name = none) :
    Emptied mayFail (KindsRight n) T f r f' where
  removes := h.removes.mono hST
  gone hr name hT := by
    by_cases hS : S name
    · exact h.gone hr name hS
    · exact h.removes.gone (habsent name hT hS)
  returns := h.returns

theorem looseNames_wp : (do
      let entries ← named .readDir
      cleanupEntries dir n entries
      named .syncDir : Prog Error NamePrim Unit).wp (nameReading mayFail refuses)
    (Emptied mayFail (KindsRight n) (fun name => isLooseName n name = true) f) f := by
  refine named_wp ?_ ?_
  · intro text f' hstep
    obtain ⟨rfl, hr | ⟨hfail, -⟩⟩ := hstep
    · cases hr
    · exact ⟨.refl, nofun, fun hcalm => absurd hfail hcalm⟩
  · intro entries f' hstep
    obtain ⟨rfl, hr | ⟨-, text, hr⟩⟩ := hstep
    · cases hr
      refine Prog.wp_mono (emptied_seq kindsRight_kept (cleanupEntries_wp _) fun f' _ =>
        looks_wp fun _ _ => id) fun r f' h => h.absent ?_ ?_
      · rintro name (⟨hloose, -⟩ | h)
        · exact hloose
        · exact h.elim
      · intro name hloose hlisted
        exact find_none_iff.2 fun hmem => hlisted (.inl ⟨hloose, hmem⟩)
    · cases hr

/-- A cleanup clears what belongs to its number. -/
theorem cleanupNames_wp : (cleanupNames dir n).wp (nameReading mayFail refuses)
    (Emptied mayFail (KindsRight n) (fun name => belongs n name = true) f) f := by
  have hruntime (hkinds : KindsRight n f) (node : Node)
      (hnode : f.find (artifactRuntimeName n) = some node) : node.isFile = true := by
    refine hkinds.isFile (by simp [belongs]) ?_ hnode
    have hparts : config.length + yaml.length = 12 := rfl
    rw [artifactRuntimeName, List.length_append, List.length_append]
    omega
  have hpid (f : Folder) (hkinds : KindsRight n f) (node : Node)
      (hnode : f.find (artifactPidName n) = some node) : node.isFile = true := by
    refine hkinds.isFile (by simp [belongs]) ?_ hnode
    have hparts : core.length + pidFile.length = 9 := rfl
    rw [artifactPidName, List.length_append, List.length_append]
    omega
  have hsocket (f : Folder) (hkinds : KindsRight n f) (node : Node)
      (hnode : f.find (artifactSocketName n) = some node) : node.isSocket = true := by
    have hkind := hkinds _ node (by simp [belongs]) hnode
    rwa [if_pos rfl] at hkind
  refine Prog.wp_mono (emptied_seq kindsRight_kept (removeName_wp hruntime) fun f' _ =>
    emptied_seq kindsRight_kept (removeName_wp (hpid f')) fun f' _ =>
    emptied_seq kindsRight_kept (removeName_wp (hsocket f')) fun f' _ => looseNames_wp)
      fun r f' h => h.congr fun name => ?_
  simp only [belongs, Bool.or_eq_true, decide_eq_true_eq, or_assoc]

end Cleanup

/-! ## The sweep -/

section SweepRuns

variable {dir : Utf8Path} {f : Folder} {n : Nat} {mayFail : Prop}

/-- The kinds are right for every number. -/
def KindsAllRight (f : Folder) : Prop := ∀ n, KindsRight n f

theorem kindsAllRight_kept {S : Text → Prop} (f' : Folder) (hremoves : Removes S f f')
    (h : KindsAllRight f) : KindsAllRight f' :=
  fun n => kindsRight_kept f' hremoves (h n)

/-- How a program ended that reads the numbers of the entries. -/
structure EpochsRead (mayFail : Prop) (P : List Nat → Prop) (f : Folder)
    (r : Except Error (List Nat)) (f' : Folder) : Prop where
  same : f' = f
  found : ∀ epochs, r = .ok epochs → P epochs
  returns : ¬ mayFail → ∃ epochs, r = .ok epochs

section Reads

variable {β : Type} {b : β} {P Q : List Nat → Prop} {text : String} {e : Error} {f' : Folder}

/-- An operation fails that returns `b` otherwise. -/
theorem epochsRead_refused (hstep : f' = f ∧ ((.error text : Except String β) = .ok b ∨
    mayFail ∧ ∃ text', (.error text : Except String β) = .error text')) :
    EpochsRead mayFail P f (.error e) f' where
  same := hstep.1
  found := nofun
  returns hcalm := by
    rcases hstep.2 with hr | ⟨hfail, -⟩
    · cases hr
    · exact absurd hfail hcalm

theorem EpochsRead.error (h : EpochsRead mayFail P f (.error e) f') :
    EpochsRead mayFail Q f (.error e) f' where
  same := h.same
  found := nofun
  returns hcalm := by
    obtain ⟨epochs, he⟩ := h.returns hcalm
    cases he

end Reads

/-- The numbers that the entries give. -/
theorem collectEpochs_wp (entries : List (List UInt8)) :
    (collectEpochs entries).wp (nameReading mayFail mayFail) (EpochsRead mayFail (fun epochs =>
      ∀ name n, encode name ∈ entries → artifactEpoch name = some n → n ∈ epochs) f) f := by
  induction entries with
  | nil =>
    refine named_wp (fun _ _ => epochsRead_refused) fun _ f' hstep =>
      ⟨hstep.1, ?_, fun _ => ⟨[], rfl⟩⟩
    intro epochs _ name n hmem
    cases hmem
  | cons entry rest ih =>
    refine named_wp (fun _ _ => epochsRead_refused) fun _ f' hstep => ?_
    obtain ⟨rfl, -⟩ := hstep
    refine Prog.wp_seq ih (fun _ _ => EpochsRead.error) fun epochs f'' h =>
      ⟨h.same, fun all hall name n hmem hnumber => ?_, fun _ => ⟨_, rfl⟩⟩
    cases hall
    rw [List.mem_append]
    rcases List.mem_cons.1 hmem with hentry | hmem
    · refine .inl ?_
      rw [decode_eq_some.2 hentry.symm, Option.bind_some, hnumber]
      exact List.mem_singleton_self n
    · exact .inr (h.found epochs rfl name n hmem hnumber)

theorem artifactEpochNames_wp : artifactEpochNames.wp (nameReading mayFail mayFail)
    (EpochsRead mayFail (fun epochs =>
      ∀ name n, f.find name ≠ none → artifactEpoch name = some n → n ∈ epochs) f) f := by
  refine named_wp (fun _ _ => epochsRead_refused) fun entries f' hstep => ?_
  obtain ⟨rfl, hr | ⟨-, text, hr⟩⟩ := hstep
  · cases hr
    refine Prog.wp_seq (collectEpochs_wp _) (fun _ _ => EpochsRead.error) fun epochs f'' h =>
      ⟨h.same, fun all hall name n hfound hnumber => ?_, fun _ => ⟨_, rfl⟩⟩
    cases hall
    have hmem : encode name ∈ f'.map Prod.fst := Decidable.not_not.1 (hfound ∘ find_none_iff.2)
    rw [List.mem_dedup, List.mem_insertionSort]
    exact h.found epochs rfl name n hmem hnumber
  · cases hr

/-- How a part of a turn ended that comes before the cleanup. -/
structure BeforeCleanup (mayFail : Prop) (S : Text → Prop) (f : Folder) (r : Except Error Unit)
    (f' : Folder) : Prop where
  removes : Removes S f f'
  returns : ¬ mayFail → r = .ok ()

/-- A cleanup clears what it has to, whatever was removed before. -/
theorem emptied_then {S : Text → Prop} {p : Prog Error NamePrim Unit}
    {k : Unit → Prog Error NamePrim Unit}
    (hp : p.wp (nameReading mayFail mayFail) (BeforeCleanup mayFail S f) f)
    (hk : ∀ f', (k ()).wp (nameReading mayFail mayFail) (Emptied mayFail (KindsRight n) S f') f') :
    (p >>= k).wp (nameReading mayFail mayFail) (Emptied mayFail (KindsRight n) S f) f := by
  refine Prog.wp_seq hp ?_ ?_
  · intro e f' hbefore
    refine ⟨hbefore.removes, nofun, fun hcalm _ => ?_⟩
    cases hbefore.returns hcalm
  · intro _ f' hbefore
    refine Prog.wp_mono (hk f') fun r f'' h => ?_
    exact ⟨hbefore.removes.trans h.removes, h.gone,
      fun hcalm hkinds => h.returns hcalm (kindsRight_kept f' hbefore.removes hkinds)⟩

theorem reapName_wp : (reapName n).wp (nameReading mayFail mayFail)
    (BeforeCleanup mayFail (fun name => belongs n name = true) f) f := by
  refine named_wp ?_ ?_
  · rintro text f' ⟨rfl, ⟨_, hr⟩ | ⟨hfail, -⟩⟩
    · cases hr
    · exact ⟨.refl, fun hcalm => absurd hfail hcalm⟩
  · rintro found f' ⟨rfl, -⟩
    split
    · refine ⟨trivial, fun r f'' hstep => ⟨?_, fun hcalm => ?_⟩⟩
      · rcases hstep.1 with rfl | rfl
        · exact .refl
        · exact removes_erase (by simp [belongs])
      · rcases hstep.2 with rfl | ⟨hfail, -⟩
        · rfl
        · exact absurd hfail hcalm
    · exact ⟨.refl, fun _ => rfl⟩

theorem controllerOf_wp : (controllerOf n).wp (nameReading mayFail mayFail)
    (BeforeCleanup mayFail (fun name => belongs n name = true) f) f := by
  unfold controllerOf
  split
  · refine ⟨trivial, ?_⟩
    rintro r f' ⟨rfl, hr⟩
    exact ⟨.refl, fun hcalm => hr.resolve_right hcalm⟩
  · exact ⟨.refl, fun _ => rfl⟩

theorem sweepName_wp : (sweepName dir n).wp (nameReading mayFail mayFail)
    (Emptied mayFail (KindsRight n) (fun name => belongs n name = true) f) f :=
  emptied_then reapName_wp fun _ => emptied_then controllerOf_wp fun _ => cleanupNames_wp

/-- The turns clear what belongs to one of the numbers. -/
theorem sweepNames_wp (numbers : List Nat) :
    (sweepNames dir numbers).wp (nameReading mayFail mayFail) (Emptied mayFail KindsAllRight
      (fun name => ∃ m ∈ numbers, belongs m name = true) f) f := by
  induction numbers generalizing f with
  | nil =>
    refine ⟨.refl, ?_, fun _ _ => rfl⟩
    rintro _ name ⟨m, hm, -⟩
    cases hm
  | cons number rest ih =>
    have hturn : (sweepName dir number).wp (nameReading mayFail mayFail)
        (Emptied mayFail KindsAllRight (fun name => belongs number name = true) f) f :=
      Prog.wp_mono sweepName_wp fun r f' h =>
        ⟨h.removes, h.gone, fun hcalm hkinds => h.returns hcalm (hkinds number)⟩
    refine Prog.wp_mono (emptied_seq kindsAllRight_kept hturn fun _ _ => ih) fun r f' h =>
      h.congr fun name => ?_
    simp only [List.mem_cons, exists_eq_or_imp]

/-- A sweep that returns leaves nothing of a number that it reads in a name, and it does
return where nothing fails. -/
theorem sweepOrphans_wp : (sweepOrphans dir).wp (nameReading mayFail mayFail)
    (fun r f' => (∀ greatest, r = .ok greatest → ∀ name n, artifactEpoch name = some n →
        belongs n name = true → f'.find name = none) ∧
      (¬ mayFail → KindsAllRight f → ∃ greatest, r = .ok greatest)) f := by
  refine Prog.wp_seq artifactEpochNames_wp (fun e f' h => ⟨nofun, fun hcalm _ => ?_⟩)
    fun numbers f' h => ?_
  · obtain ⟨epochs, he⟩ := h.returns hcalm
    cases he
  obtain ⟨rfl, hnumbers, -⟩ := h
  refine Prog.wp_seq (sweepNames_wp numbers) (fun e f'' hswept => ⟨nofun, fun hcalm hkinds => ?_⟩)
    fun _ f'' hswept => ⟨?_, fun _ _ => ⟨_, rfl⟩⟩
  · cases hswept.returns hcalm hkinds
  intro greatest _ name n hnumber hbelongs
  by_cases hfound : f'.find name = none
  · exact hswept.removes.gone hfound
  · exact hswept.gone rfl name ⟨n, hnumbers numbers rfl name n hfound hnumber, hbelongs⟩

end SweepRuns

/-- Every name that is generated for an epoch is read as that epoch. A cleanup removes
the generated names of its epoch and leaves the other ones as they are, and it does
return where nothing fails. After a sweep no generated name is left, and it too returns
where nothing fails. -/
theorem generatedNames_cleaned (host : Host) (dir : Utf8Path) :
    (∀ g : Generated, artifactEpoch g.fileName = some g.epoch.toNat) ∧
    (∀ (e : UInt64) (w w' : NamedDir) (r : Except Error Unit),
      exec (nameHandle host) (cleanupNames dir e.toNat) w = (.ok r, w') →
        (∀ g : Generated, g.epoch ≠ e → w'.folder.find g.fileName = w.folder.find g.fileName) ∧
        (r = .ok () → ∀ g : Generated, g.epoch = e → w'.folder.find g.fileName = none) ∧
        ((∀ tick, host.fault tick = none) → KindsRight e.toNat w.folder → r = .ok ())) ∧
    (∀ (w w' : NamedDir) (r : Except Error Nat),
      exec (nameHandle host) (sweepOrphans dir) w = (.ok r, w') →
        (∀ greatest, r = .ok greatest → ∀ g : Generated, w'.folder.find g.fileName = none) ∧
        ((∀ tick, host.fault tick = none) → (∀ tick, host.controller tick = .ok ()) →
          (∀ n, KindsRight n w.folder) → ∃ greatest, r = .ok greatest)) := by
  refine ⟨artifactEpoch_fileName, ?_, ?_⟩
  · intro e w w' r hrun
    have halong := along_of_forall (h := nameHandle host) (G := fun _ _ => True)
      (fun _ _ => trivial) (cleanupNames dir e.toNat) (s := w)
    have hemptied := (nameReading_sound id id).returns halong cleanupNames_wp hrun
    refine ⟨fun g hg => ?_, fun hr g hg => ?_, fun hcalm hkinds => ?_⟩
    · refine hemptied.removes.other fun hbelongs => hg ?_
      exact UInt64.toNat_inj.1 ((belongs_fileName g).1 hbelongs)
    · exact hemptied.gone hr g.fileName ((belongs_fileName g).2 (congrArg UInt64.toNat hg))
    · refine hemptied.returns ?_ hkinds
      rintro ⟨tick, hfault⟩
      exact hfault (hcalm tick)
  · intro w w' r hrun
    have halong := along_of_forall (h := nameHandle host) (G := fun _ _ => True)
      (fun _ _ => trivial) (sweepOrphans dir) (s := w)
    let mayFail := (∃ tick, host.fault tick ≠ none) ∨ ∃ tick, host.controller tick ≠ .ok ()
    have hsound := @nameReading_sound host mayFail mayFail .inl .inr
    have hswept := hsound.returns halong sweepOrphans_wp hrun
    refine ⟨fun greatest hr g => ?_, fun hcalm hcontroller hkinds => ?_⟩
    · exact hswept.1 greatest hr g.fileName _ (artifactEpoch_fileName g) (belongs_self g)
    · refine hswept.2 ?_ hkinds
      rintro (⟨tick, hfault⟩ | ⟨tick, hrefused⟩)
      · exact hfault (hcalm tick)
      · exact hrefused (hcontroller tick)

/-- Epochs 1 and 12, on a host where nothing fails: cleaning the first one leaves the
second, and a sweep leaves neither. -/
theorem generatedNames_cleaned_two :
    let host : Host := ⟨fun _ => none, fun _ => false, fun _ => .ok ()⟩
    let folder : Folder := [(encode (Generated.runtime 1).fileName, .file []),
      (encode (Generated.backup 12 3).fileName, .file [])]
    (∃ w', exec (nameHandle host) (cleanupNames "run" (1 : UInt64).toNat) ⟨folder, 0⟩ =
        (.ok (.ok ()), w') ∧
      w'.folder.find (Generated.runtime 1).fileName = none ∧
      w'.folder.find (Generated.backup 12 3).fileName =
        folder.find (Generated.backup 12 3).fileName) ∧
    ∃ w' greatest, exec (nameHandle host) (sweepOrphans "run") ⟨folder, 0⟩ =
        (.ok (.ok greatest), w') ∧
      w'.folder.find (Generated.runtime 1).fileName = none ∧
      w'.folder.find (Generated.backup 12 3).fileName = none := by
  intro host folder
  have hkinds (n : Nat) : KindsRight n folder := by
    intro name node hname hnode
    have hmem : (encode name, node) ∈ folder := by
      obtain ⟨before, after, hfolder, -⟩ := List.lookup_eq_some_iff.1 hnode
      rw [hfolder]
      exact List.mem_append_right _ List.mem_cons_self
    have hentry : (name = (Generated.runtime 1).fileName ∨ name = (Generated.backup 12 3).fileName) ∧
        node = .file [] := by
      simpa [folder, or_and_right, encode_inj] using hmem
    obtain ⟨hnames, rfl⟩ := hentry
    have hthird : (artifactSocketName n)[2]? = some 'r' := rfl
    rw [if_neg]
    · rfl
    · rintro rfl
      rcases hnames with hsame | hsame <;> (rw [hsame] at hthird; revert hthird; decide)
  obtain ⟨-, hclean, hsweep⟩ := generatedNames_cleaned host "run"
  constructor
  · rcases hrun : exec (nameHandle host) (cleanupNames "run" (1 : UInt64).toNat) ⟨folder, 0⟩ with
      ⟨x | r, w'⟩
    · exact x.elim
    · obtain ⟨hothers, hgone, hreturns⟩ := hclean 1 ⟨folder, 0⟩ w' r hrun
      obtain rfl := hreturns (fun _ => rfl) (hkinds _)
      exact ⟨w', rfl, hgone rfl (.runtime 1) rfl, hothers (.backup 12 3) (by decide)⟩
  · rcases hrun : exec (nameHandle host) (sweepOrphans "run") ⟨folder, 0⟩ with ⟨x | r, w'⟩
    · exact x.elim
    · obtain ⟨hgone, hreturns⟩ := hsweep ⟨folder, 0⟩ w' r hrun
      obtain ⟨greatest, rfl⟩ := hreturns (fun _ => rfl) (fun _ => rfl) hkinds
      exact ⟨w', greatest, rfl, hgone _ rfl _, hgone _ rfl _⟩

end Chimera.Manager
