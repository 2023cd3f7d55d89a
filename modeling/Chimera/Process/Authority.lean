import Chimera.Lib.Trace
import Chimera.Process.Reap

/-! Who may be killed. A kill is preceded by an observation of its pid that is
the recorded root or a descendant as it was captured; what entitles to kill a
descendant is what the last snapshot that saw it read of it. -/

namespace Chimera.Process
open Chimera.Lib.Utf8 Chimera.Lib.Program Chimera.Lib.Keyed Prog

/-! ## Snapshots -/

/-- What the last snapshot that saw a process read of it; `awaited` until its
identity is read. -/
structure Sight where
  awaited : Bool
  latest : Option Attributable

def Op.sight (root pid : UInt32) (s : Sight) : {β : Type} → Op β → β → Sight
  | _, .processes, table => if pid ∈ descendantPids table root then ⟨true, none⟩ else s
  | _, .processIdentity pid', answer =>
    if s.awaited = true ∧ pid' = pid then ⟨false, attributableIdentity answer⟩ else s
  | _, _, _ => s

def sighted (root pid : UInt32) (trace : List (Event Op)) : Sight :=
  trace.foldl (fun s e => e.op.sight root pid s e.answer) ⟨false, none⟩

/-- The identity that was read of a process when a snapshot last showed it as a
descendant of the root. -/
def lastSight (root pid : UInt32) (trace : List (Event Op)) : Option Attributable :=
  (sighted root pid trace).latest

/-! ## Authority -/

/-- The event is an observation of the process. -/
def Observed (pid : UInt32) (identity : ProcessIdentity) (e : Event Op) : Prop :=
  e = ⟨.processIdentity pid, .ok (some identity)⟩ ∨ e = ⟨.handleIdentity pid, .ok identity⟩

/-- The identity observed last is that of the recorded root, or that of a
descendant as it was captured. -/
def Authorised (target : Target) (record : EpochPidRecord) (trace : List (Event Op))
    (pid : UInt32) : Prop :=
  ∃ before e identity, trace = before ++ [e] ∧ Observed pid identity e ∧
    ((pid = record.pid ∧ compareIdentity target record identity = .same) ∨
      ∃ captured, lastSight record.pid pid trace = some captured ∧
        compareIdentity target (descendantRecord record (pid, captured)) identity = .same)

def Op.isSnapshot {β : Type} : Op β → Bool
  | .processes => true
  | _ => false

def Op.isKill {β : Type} : Op β → Bool
  | .kill _ => true
  | _ => false

/-- Kills are authorised. -/
def Guard (target : Target) (record : EpochPidRecord) (trace : List (Event Op)) :
    {β : Type} → Op β → Prop
  | _, .kill pid => Authorised target record trace pid
  | _, _ => True

/-- Of no process is an identity still to be read. -/
def Settled (root : UInt32) (trace : List (Event Op)) : Prop :=
  ∀ pid, (sighted root pid trace).awaited = false

/-- No snapshot was taken in between. -/
def Keeps (u u' : List (Event Op)) : Prop :=
  ∃ w, u' = u ++ w ∧ ∀ e ∈ w, e.op.isSnapshot = false

/-- The record is that of the root, or of a descendant as it was captured. -/
def Entitled (record : EpochPidRecord) (trace : List (Event Op)) (r : EpochPidRecord) : Prop :=
  r = record ∨ ∃ captured, lastSight record.pid r.pid trace = some captured ∧
    r = descendantRecord record (r.pid, captured)

section Sights

variable {root pid : UInt32} {u u' v : List (Event Op)} {record r : EpochPidRecord}

theorem Keeps.refl (u : List (Event Op)) : Keeps u u := ⟨[], (List.append_nil u).symm, by simp⟩

theorem Keeps.trans (h : Keeps u u') (h' : Keeps u' v) : Keeps u v := by
  obtain ⟨w, rfl, hw⟩ := h
  obtain ⟨w', rfl, hw'⟩ := h'
  refine ⟨w ++ w', List.append_assoc .., ?_⟩
  intro e he
  rcases List.mem_append.1 he with he | he
  · exact hw e he
  · exact hw' e he

theorem Keeps.event (e : Event Op) (h : e.op.isSnapshot = false) : Keeps u (u ++ [e]) := by
  refine ⟨[e], rfl, ?_⟩
  intro d hd
  rw [List.mem_singleton.1 hd]
  exact h

theorem sighted_append : sighted root pid (u ++ v) =
    v.foldl (fun s e => e.op.sight root pid s e.answer) (sighted root pid u) := List.foldl_append

theorem sight_settled {β : Type} {op : Op β} {s : Sight} {answer : β}
    (hop : op.isSnapshot = false) (hs : s.awaited = false) : op.sight root pid s answer = s := by
  cases op with
  | processes => cases hop
  | processIdentity pid' => simp [Op.sight, hs]
  | _ => rfl

/-- Without a snapshot nothing more is read. -/
theorem Settled.sighted (h : Settled root u) (hk : Keeps u u') (pid : UInt32) :
    sighted root pid u' = sighted root pid u := by
  obtain ⟨w, rfl, hw⟩ := hk
  rw [sighted_append]
  induction w with
  | nil => rfl
  | cons e w ih =>
    obtain ⟨he, hw⟩ := List.forall_mem_cons.1 hw
    rw [List.foldl_cons, sight_settled he (h pid)]
    exact ih hw

theorem Settled.keeps (h : Settled root u) (hk : Keeps u u') : Settled root u' := by
  intro pid
  rw [h.sighted hk pid]
  exact h pid

theorem Entitled.keeps (h : Entitled record u r) (hs : Settled record.pid u) (hk : Keeps u u') :
    Entitled record u' r := by
  rcases h with rfl | ⟨captured, hsight, hr⟩
  · exact .inl rfl
  · refine .inr ⟨captured, ?_, hr⟩
    unfold lastSight
    rw [hs.sighted hk]
    exact hsight

end Sights

section Kills

variable {target : Target} {record r : EpochPidRecord} {u u' : List (Event Op)} {α : Type}

/-- A program whose kills are to be authorised. -/
abbrev Lawful (target : Target) (record : EpochPidRecord) (p : Reap α)
    (Q : Except IoError α → List (Event Op) → Prop) (u : List (Event Op)) : Prop :=
  p.wp (recording (Guard target record)) Q u

/-- An operation that neither kills nor takes a snapshot. -/
def Looks {β : Type} (op : Op β) : Prop := op.isSnapshot = false ∧ op.isKill = false

theorem guard_of_looks {β : Type} {op : Op β} (h : op.isKill = false) :
    Guard target record u op := by
  cases op with
  | kill pid => cases h
  | _ => trivial

theorem looks_keeps {G : List (Event Op) → ∀ {β : Type}, Op β → Prop} {p : Reap α}
    (hG : ∀ {t : List (Event Op)} {β : Type} {op : Op β}, op.isKill = false → G t op)
    (hp : p.Only Looks) : p.wp (recording G) (fun _ u' => Keeps u u') u := by
  refine Prog.Only.keeps hp (fun op t hop _ => hG hop.2) ?_ (.refl u)
  intro β op t t' b hop ht hk
  rw [ht]
  exact hk.trans (.event ⟨op, b⟩ hop.1)

theorem Entitled.authorised {e : Event Op} {identity : ProcessIdentity}
    (h : Entitled record u r) (hs : Settled record.pid u) (hk : Keeps u (u' ++ [e]))
    (he : Observed r.pid identity e) (hm : recordMatchesIdentity target r identity = true) :
    Authorised target record (u' ++ [e]) r.pid := by
  have hsame : compareIdentity target r identity = .same := by
    simpa [recordMatchesIdentity] using hm
  refine ⟨u', e, identity, rfl, he, ?_⟩
  rcases h.keeps hs hk with rfl | ⟨captured, hsight, hr⟩
  · exact .inl ⟨rfl, hsame⟩
  · refine .inr ⟨captured, hsight, ?_⟩
    rw [← hr]
    exact hsame

theorem identityForReap_looks {pid : UInt32} {attempts : Nat} {error : Option IoError} :
    (identityForReap target pid attempts error).Only Looks := by
  induction attempts generalizing error with
  | zero => exact .ret _
  | succ attempts ih =>
    refine .bind (.perform ⟨rfl, rfl⟩) fun answer => ?_
    rcases answer with error | identity
    · simp only
      split
      · exact ih
      · exact .ret _
    · exact .ret _

theorem confirmOwner_looks {unownedIsDead : Bool} :
    (confirmOwner target r unownedIsDead).Only Looks := by
  refine .bind (.attempt identityForReap_looks) fun answer => ?_
  rcases answer with error | _ | identity
  · simp only
    split <;> exact .ret _
  · exact .ret _
  · simp only
    split
    · exact .ret _
    · exact .ret _
    · split <;> exact .ret _

theorem awaitDeath_looks {unownedIsDead : Bool} {killError error : Option IoError}
    {attempts : Nat} : (awaitDeath target r unownedIsDead killError attempts error).Only Looks := by
  induction attempts generalizing error with
  | zero =>
    unfold awaitDeath
    split <;> exact .ret _
  | succ attempts ih =>
    refine .bind (.perform ⟨rfl, rfl⟩) fun answer => ?_
    rcases answer with error | _ | identity
    · simp only
      split
      · split
        · exact .ret _
        · exact ih
      · split <;> exact .ret _
    · exact .ret _
    · simp only
      split
      · exact ih
      · exact .ret _

/-- A kill that comes right after a matching observation is authorised. -/
theorem kill_after_wp {e : Event Op} {identity : ProcessIdentity} {p : UInt32 → Reap Unit}
    (hp : ∀ {v : List (Event Op)}, Authorised target record v r.pid →
      Lawful target record (p r.pid) (fun _ u' => Keeps v u') v)
    (h : Entitled record u r) (hs : Settled record.pid u) (hk : Keeps u (u' ++ [e]))
    (he : Observed r.pid identity e) (error : IoError) :
    Lawful target record (if recordMatchesIdentity target r identity then p r.pid else fail error)
      (fun _ v => Keeps u v) (u' ++ [e]) := by
  split
  · rename_i hm
    exact wp_mono (hp (h.authorised hs hk he hm)) fun _ _ hv => hk.trans hv
  · exact hk

theorem kill_demand_wp {v : List (Event Op)} {pid : UInt32} (h : Authorised target record v pid) :
    Lawful target record (demand (.kill pid)) (fun _ u' => Keeps v u') v := by
  refine (wp_demand _).2 ⟨h, ?_⟩
  rintro answer _ rfl
  exact .event _ rfl

theorem pidfdKill_wp {v : List (Event Op)} {pid : UInt32} (h : Authorised target record v pid) :
    Lawful target record (pidfdKill pid) (fun _ u' => Keeps v u') v := by
  refine wp_perform_bind h ?_
  rintro answer _ rfl
  have hk : Keeps v (v ++ [⟨.kill pid, answer⟩]) := .event _ rfl
  rcases answer with error | _
  · simp only
    split
    · exact hk
    · exact hk
  · exact hk

theorem killRevalidatedByPid_wp (h : Entitled record u r) (hs : Settled record.pid u) :
    Lawful target record (killRevalidatedByPid target r) (fun _ u' => Keeps u u') u := by
  refine wp_demand_bind trivial ?_ ?_
  · rintro error _ rfl
    exact .event _ rfl
  rintro identity _ rfl
  have hk : Keeps u (u ++ [⟨.processIdentity r.pid, .ok identity⟩]) := .event _ rfl
  cases identity with
  | none => exact hk
  | some identity =>
    exact kill_after_wp (p := fun pid => demand (.kill pid)) kill_demand_wp h hs hk (.inl rfl) _

theorem killRecordedProcess_wp (h : Entitled record u r) (hs : Settled record.pid u) :
    Lawful target record (killRecordedProcess target r) (fun _ u' => Keeps u u') u := by
  unfold killRecordedProcess
  split
  · refine wp_demand_bind trivial ?_ ?_
    · rintro error _ rfl
      exact .event _ rfl
    rintro _ _ rfl
    refine wp_demand_bind trivial ?_ ?_
    · rintro error _ rfl
      exact (Keeps.event _ rfl).trans (.event _ rfl)
    rintro identity _ rfl
    have hk : Keeps u (u ++ [⟨.openProcess r.pid, .ok ()⟩] ++
        [⟨.handleIdentity r.pid, .ok identity⟩]) := (Keeps.event _ rfl).trans (.event _ rfl)
    exact kill_after_wp (p := fun pid => demand (.kill pid)) kill_demand_wp h hs hk (.inr rfl) _
  · refine wp_perform_bind trivial ?_
    rintro opened _ rfl
    have hk : Keeps u (u ++ [⟨.openProcess r.pid, opened⟩]) := .event _ rfl
    rcases opened with error | _
    · simp only
      split
      · exact wp_mono (killRevalidatedByPid_wp (h.keeps hs hk) (hs.keeps hk))
          fun _ _ hv => hk.trans hv
      · exact hk
    · refine wp_demand_bind trivial ?_ ?_
      · rintro error _ rfl
        exact hk.trans (.event _ rfl)
      rintro identity _ rfl
      have hk' : Keeps u (u ++ [⟨.openProcess r.pid, .ok ()⟩] ++
          [⟨.processIdentity r.pid, .ok identity⟩]) := hk.trans (.event _ rfl)
      cases identity with
      | none => exact hk'
      | some identity => exact kill_after_wp pidfdKill_wp h hs hk' (.inl rfl) _
  · exact killRevalidatedByPid_wp h hs
  · exact killRevalidatedByPid_wp h hs

theorem reapRecordWithKill_wp {unownedIsDead : Bool} (h : Entitled record u r)
    (hs : Settled record.pid u) :
    Lawful target record (reapRecordWithKill target r unownedIsDead (killRecordedProcess target r))
      (fun _ u' => Keeps u u') u := by
  refine wp_seq (looks_keeps guard_of_looks confirmOwner_looks) (fun _ _ hk => hk) ?_
  intro owned u' hk
  cases owned with
  | false => exact hk
  | true =>
    simp only [if_true]
    refine wp_attempt_seq (killRecordedProcess_wp (h.keeps hs hk) (hs.keeps hk)) ?_
    intro killed v hv
    exact wp_mono (looks_keeps guard_of_looks awaitDeath_looks) fun _ _ hw => hk.trans (hv.trans hw)

theorem reapDescendants_wp {descendants : List (UInt32 × Attributable)}
    (h : ∀ d ∈ descendants, lastSight record.pid d.1 u = some d.2) (hs : Settled record.pid u) :
    Lawful target record (reapDescendants target record descendants) (fun _ u' => Keeps u u') u := by
  induction descendants generalizing u with
  | nil => exact .refl u
  | cons d more ih =>
    obtain ⟨hd, hmore⟩ := List.forall_mem_cons.1 h
    have hentitled : Entitled record u (descendantRecord record d) := .inr ⟨d.2, hd, rfl⟩
    refine wp_attempt_seq (reapRecordWithKill_wp hentitled hs) ?_
    intro outcome u' hk
    have hrest : ∀ d ∈ more, lastSight record.pid d.1 u' = some d.2 := by
      intro d hd
      unfold lastSight
      rw [hs.sighted hk]
      exact hmore d hd
    refine wp_seq (ih hrest (hs.keeps hk)) (fun _ _ hv => hk.trans hv) ?_
    rintro ⟨killed, failures⟩ v hv
    simp only
    split
    · exact hk.trans hv
    · exact hk.trans hv
    · exact hk.trans hv

end Kills

/-! ## Captures -/

section Captures

variable {target : Target} {record : EpochPidRecord} {u : List (Event Op)} {pid : UInt32}
  {table : Table}

theorem visit_increasing {w : WorkList} (h : w.descendants.Pairwise (· < ·)) :
    (w.visit pid).descendants.Pairwise (· < ·) := by
  unfold WorkList.visit
  split
  · exact h
  · rename_i hpid
    have hle : (w.descendants.orderedInsert (· ≤ ·) pid).Pairwise (· ≤ ·) :=
      List.Pairwise.orderedInsert pid _ (h.imp le_of_lt)
    have hnodup : (w.descendants.orderedInsert (· ≤ ·) pid).Nodup :=
      (List.perm_orderedInsert _ pid _).nodup_iff.2 (List.nodup_cons.2 ⟨hpid, h.imp ne_of_lt⟩)
    exact (hle.and hnodup).imp fun h => lt_of_le_of_ne h.1 h.2

theorem visits_increasing {pids : List UInt32} {w : WorkList}
    (h : w.descendants.Pairwise (· < ·)) :
    (pids.foldl WorkList.visit w).descendants.Pairwise (· < ·) := by
  induction pids generalizing w with
  | nil => exact h
  | cons pid pids ih => exact ih (visit_increasing h)

theorem run_increasing {steps : Nat} {w : WorkList} (h : w.descendants.Pairwise (· < ·)) :
    (w.run table steps).descendants.Pairwise (· < ·) := by
  induction steps generalizing w with
  | zero => exact h
  | succ steps ih =>
    unfold WorkList.run
    split
    · exact h
    · exact ih (visits_increasing h)

theorem descendantPids_increasing {root : UInt32} :
    (descendantPids table root).Pairwise (· < ·) := run_increasing .nil

/-- What is observed of processes one after the other is what is read of them. -/
theorem observeAll_wp {pids : List UInt32} (hp : pids.Pairwise (· < ·)) :
    Lawful target record (observeAll pids) (fun r u' => ∀ entries, r = .ok entries →
      entries.map Prod.fst = pids ∧ ∀ pid, sighted record.pid pid u' =
        match entries.lookup pid with
        | some x => if (sighted record.pid pid u).awaited = true then ⟨false, x⟩
            else sighted record.pid pid u
        | none => sighted record.pid pid u) u := by
  induction pids generalizing u with
  | nil =>
    rintro entries heq
    cases heq
    exact ⟨rfl, fun _ => rfl⟩
  | cons pid pids ih =>
    obtain ⟨hfirst, hrest⟩ := List.pairwise_cons.1 hp
    refine wp_perform_bind trivial ?_
    rintro answer _ rfl
    refine wp_seq (ih hrest) (fun _ _ _ _ => nofun) ?_
    rintro rest u' hread entries heq
    cases heq
    obtain ⟨hkeys, hsight⟩ := hread rest rfl
    refine ⟨congrArg (pid :: ·) hkeys, ?_⟩
    intro other
    rw [hsight other, sighted_append, lookup_cons_eq]
    simp only [List.foldl_cons, List.foldl_nil, Op.sight]
    by_cases ho : other = pid
    · subst ho
      have hnone : rest.lookup other = none := by
        rw [← Option.not_isSome_iff_eq_none, ← mem_keys_iff, hkeys]
        exact fun hmem => lt_irrefl other (hfirst other hmem)
      simp only [hnone, and_true, if_true]
    · have ho' : ¬ pid = other := fun h => ho h.symm
      simp only [ho, ho', and_false, if_false]

/-- A snapshot, and what is read of the descendants that it shows. -/
theorem snapshot_wp (hs : Settled record.pid u) :
    Lawful target record (observeAll (descendantPids table record.pid)) (fun r u' =>
      ∀ entries, r = .ok entries → (entries.map Prod.fst).Pairwise (· < ·) ∧
        Settled record.pid u' ∧ ∀ pid, lastSight record.pid pid u' =
          match entries.lookup pid with
          | some x => x
          | none => lastSight record.pid pid u) (u ++ [⟨.processes, table⟩]) := by
  refine wp_mono (observeAll_wp descendantPids_increasing) ?_
  intro r u' hread entries heq
  obtain ⟨hkeys, hsight⟩ := hread entries heq
  have hshown (pid : UInt32) : sighted record.pid pid (u ++ [⟨.processes, table⟩]) =
      if pid ∈ descendantPids table record.pid then ⟨true, none⟩
      else sighted record.pid pid u := sighted_append
  have hread (pid : UInt32) : sighted record.pid pid u' =
      match entries.lookup pid with
      | some x => ⟨false, x⟩
      | none => sighted record.pid pid u := by
    rw [hsight pid, hshown pid]
    have hmem : pid ∈ descendantPids table record.pid ↔ (entries.lookup pid).isSome = true := by
      rw [← hkeys, mem_keys_iff]
    cases hl : entries.lookup pid with
    | none =>
      rw [hl] at hmem
      simp [hmem]
    | some x =>
      rw [hl] at hmem
      simp [hmem]
  refine ⟨hkeys ▸ descendantPids_increasing, ?_, ?_⟩
  · intro pid
    rw [hread pid]
    cases entries.lookup pid with
    | none => exact hs pid
    | some x => rfl
  · intro pid
    unfold lastSight
    rw [hread pid]
    cases entries.lookup pid <;> rfl

theorem mergeDescendantCaptures_spec {captured : List (UInt32 × Attributable)}
    {second : List (UInt32 × Option Attributable)} (hcaptured : Ordered captured)
    (hsecond : (second.map Prod.fst).Pairwise (· < ·)) :
    Ordered (mergeDescendantCaptures captured second) ∧
    ∀ pid, (mergeDescendantCaptures captured second).lookup pid =
      match second.lookup pid with
      | some x => x
      | none => captured.lookup pid := by
  induction second generalizing captured with
  | nil => exact ⟨hcaptured, fun _ => rfl⟩
  | cons entry second ih =>
    obtain ⟨key, identity⟩ := entry
    obtain ⟨hfirst, hrest⟩ := List.pairwise_cons.1 hsecond
    have hnone : second.lookup key = none := by
      rw [← Option.not_isSome_iff_eq_none, ← mem_keys_iff]
      exact fun hmem => lt_irrefl key (hfirst key hmem)
    have merged {captured' : List (UInt32 × Attributable)} (hordered : Ordered captured')
        (hlookup : ∀ pid, captured'.lookup pid =
          if pid = key then identity else captured.lookup pid) :
        Ordered (mergeDescendantCaptures captured' second) ∧
        ∀ pid, (mergeDescendantCaptures captured' second).lookup pid =
          match ((key, identity) :: second).lookup pid with
          | some x => x
          | none => captured.lookup pid := by
      obtain ⟨ho, hl⟩ := ih hordered hrest
      refine ⟨ho, ?_⟩
      intro pid
      rw [hl pid, lookup_cons_eq]
      by_cases hp : pid = key
      · subst hp
        simp [hnone, hlookup]
      · simp only [if_neg hp]
        cases second.lookup pid with
        | none => simp [hlookup, hp]
        | some x => rfl
    cases identity with
    | some identity => exact merged hcaptured.put fun _ => lookup_put
    | none => exact merged hcaptured.remove fun _ => lookup_remove

/-- The first snapshot keeps those whose identity could be read. -/
theorem readable_spec {first : List (UInt32 × Option Attributable)}
    (h : (first.map Prod.fst).Pairwise (· < ·)) :
    Ordered (first.filterMap fun entry => entry.2.map fun identity => (entry.1, identity)) ∧
    ∀ pid, (first.filterMap fun entry => entry.2.map fun identity => (entry.1, identity)).lookup pid =
      match first.lookup pid with
      | some x => x
      | none => none := by
  induction first with
  | nil => exact ⟨.nil, fun _ => rfl⟩
  | cons entry first ih =>
    obtain ⟨key, identity⟩ := entry
    obtain ⟨hfirst, hrest⟩ := List.pairwise_cons.1 h
    obtain ⟨ho, hl⟩ := ih hrest
    have hnone : first.lookup key = none := by
      rw [← Option.not_isSome_iff_eq_none, ← mem_keys_iff]
      exact fun hmem => lt_irrefl key (hfirst key hmem)
    cases identity with
    | none =>
      refine ⟨ho, ?_⟩
      intro pid
      simp only [List.filterMap_cons, Option.map_none, hl pid, lookup_cons_eq]
      by_cases hp : pid = key
      · simp [hp, hnone]
      · simp [hp]
    | some identity =>
      refine ⟨?_, ?_⟩
      · refine List.pairwise_cons.2 ⟨?_, ho⟩
        intro x hx
        obtain ⟨entry, hentry, heq⟩ := List.mem_filterMap.1 hx
        obtain ⟨y, -, rfl⟩ := Option.map_eq_some_iff.1 heq
        exact hfirst _ (List.mem_map_of_mem hentry)
      · intro pid
        simp only [List.filterMap_cons, Option.map_some, lookup_cons_eq]
        by_cases hp : pid = key
        · simp [hp]
        · simp [hp, hl pid]

/-- Who is captured is captured as last seen. -/
theorem captureDescendants_wp (hs : Settled record.pid u) :
    Lawful target record (captureDescendants record.pid) (fun r u' => ∀ captured,
      r = .ok captured → Settled record.pid u' ∧
        ∀ d ∈ captured, lastSight record.pid d.1 u' = some d.2) u := by
  refine wp_perform_bind trivial ?_
  rintro table _ rfl
  refine wp_seq (snapshot_wp hs) (fun _ _ _ _ => nofun) ?_
  intro first u₁ hfirst
  obtain ⟨hkeys, hs₁, hsight₁⟩ := hfirst first rfl
  refine wp_perform_bind trivial ?_
  rintro table' _ rfl
  refine wp_seq (snapshot_wp hs₁) (fun _ _ _ _ => nofun) ?_
  rintro second u₂ hsecond captured heq
  obtain ⟨hkeys', hs₂, hsight₂⟩ := hsecond second rfl
  cases heq
  obtain ⟨hordered, hlookup⟩ := readable_spec hkeys
  obtain ⟨hmerged, hlookup'⟩ := mergeDescendantCaptures_spec hordered hkeys'
  refine ⟨hs₂, ?_⟩
  rintro ⟨pid, identity⟩ hd
  have hd := hmerged.lookup_of_mem hd
  rw [hlookup' pid, hlookup pid] at hd
  rw [hsight₂ pid, hsight₁ pid]
  cases h₂ : second.lookup pid with
  | some x =>
    rw [h₂] at hd
    exact hd
  | none =>
    rw [h₂] at hd
    cases h₁ : first.lookup pid with
    | some x =>
      rw [h₁] at hd
      exact hd
    | none =>
      rw [h₁] at hd
      cases hd

theorem reapRecord_wp (hs : Settled record.pid u) :
    Lawful target record (reapRecord target record) (fun _ _ => True) u := by
  have hroot : Lawful target record (reapRoot target record) (fun r u' => ∀ x, r = .ok x →
      Settled record.pid u' ∧ ∀ d ∈ x.2, lastSight record.pid d.1 u' = some d.2) u := by
    refine wp_seq (looks_keeps guard_of_looks confirmOwner_looks) (fun _ _ _ _ => nofun) ?_
    intro owned u' hk
    cases owned with
    | false =>
      intro x hx
      cases hx
      exact ⟨hs.keeps hk, by simp⟩
    | true =>
      simp only [if_true]
      refine wp_seq (captureDescendants_wp (hs.keeps hk)) (fun _ _ _ _ => nofun) ?_
      intro captured u₁ hcaptured
      obtain ⟨hs₁, hsight⟩ := hcaptured captured rfl
      refine wp_seq (reapRecordWithKill_wp (.inl rfl) hs₁) (fun _ _ _ _ => nofun) ?_
      intro outcome u₂ hk₂ x hx
      cases hx
      refine ⟨hs₁.keeps hk₂, ?_⟩
      intro d hd
      unfold lastSight
      rw [hs₁.sighted hk₂]
      exact hsight d hd
  refine wp_seq hroot (fun _ _ _ => trivial) ?_
  rintro ⟨outcome, descendants⟩ u' hx
  obtain ⟨hs', hsight⟩ := hx _ rfl
  refine wp_seq (reapDescendants_wp hsight hs') (fun _ _ _ => trivial) ?_
  rintro ⟨killed, failures⟩ v -
  simp only
  split
  · trivial
  · split <;> trivial

end Captures

/-! ## Pid files -/

section Files

variable {target : Target} {paths : Paths} {path : Path} {u u' : List (Event Op)}
  {record : EpochPidRecord}

/-- The record was read from the pid file. -/
def Recorded (target : Target) (path : Path) (trace : List (Event Op)) (record : EpochPidRecord) :
    Prop :=
  ∃ raw, (⟨.readToString path, .ok raw⟩ : Event Op) ∈ trace ∧
    parseEpochRecord target raw = .ok record

/-- Kills are authorised by what the pid file says. -/
def FileGuard (target : Target) (path : Path) (trace : List (Event Op)) :
    {β : Type} → Op β → Prop
  | _, .kill pid => ∃ record, Recorded target path trace record ∧
      Authorised target record trace pid
  | _, _ => True

theorem fileGuard_of_looks {β : Type} {op : Op β} (h : op.isKill = false) :
    FileGuard target path u op := by
  cases op with
  | kill pid => cases h
  | _ => trivial

theorem Recorded.append (h : Recorded target path u record) (v : List (Event Op)) :
    Recorded target path (u ++ v) record := by
  obtain ⟨raw, hraw, hparse⟩ := h
  exact ⟨raw, List.mem_append_left _ hraw, hparse⟩

theorem settled_nil {root : UInt32} : Settled root [] := fun _ => rfl

theorem readEpochPidFile_looks : (readEpochPidFile target paths path).Only Looks := by
  refine .bind (.perform ⟨rfl, rfl⟩) fun metadata => ?_
  split
  · exact .ret _
  · exact .ret _
  · refine .bind (.demand ⟨rfl, rfl⟩) fun raw => ?_
    split <;> exact .ret _
  · split <;> exact .ret _

theorem readEpochPidFile_wp : (readEpochPidFile target paths path).wp
    (recording (FileGuard target path)) (fun r u' => ∀ record, r = .ok (some record) →
      Recorded target path u' record) u := by
  refine wp_perform_bind trivial ?_
  rintro metadata _ rfl
  split
  · exact nofun
  · exact nofun
  · refine wp_demand_bind trivial (fun _ _ _ _ => nofun) ?_
    rintro raw _ rfl
    split
    · rename_i parsed hparse
      rintro record heq
      cases heq
      exact ⟨raw, by simp, hparse⟩
    · exact nofun
  · split
    · exact nofun
    · exact nofun

theorem validateRuntimeTarget_looks {config : Path} :
    (validateRuntimeTarget paths config).Only Looks := by
  refine .bind (.perform ⟨rfl, rfl⟩) fun metadata => ?_
  split
  · exact .ret _
  · exact .ret _
  · exact .ret _
  · split <;> exact .ret _

theorem removeRecordIfMatches_looks :
    (removeRecordIfMatches target paths path record).Only Looks := by
  refine .bind readEpochPidFile_looks fun found => ?_
  split
  · refine .bind (.perform ⟨rfl, rfl⟩) fun removed => ?_
    split
    · exact .ret _
    · split <;> exact .ret _
  · exact .ret _

theorem refuse_looks {wrong : Prop} [Decidable wrong] {error : IoError} :
    (refuse wrong error).Only Looks := by
  unfold refuse
  split <;> exact .ret _

/-- A check in front of the rest. -/
theorem check_seq {α β : Type} {p : Reap α} {f : α → Reap β} (hp : p.Only Looks)
    (hk : Keeps [] u)
    (hf : ∀ x u', Keeps [] u' → Keeps u u' → (f x).wp (recording (FileGuard target path))
      (fun _ _ => True) u') :
    (p >>= f).wp (recording (FileGuard target path)) (fun _ _ => True) u :=
  wp_seq (looks_keeps fileGuard_of_looks hp) (fun _ _ _ => trivial)
    fun x u' hk' => hf x u' (hk.trans hk') hk'

theorem Recorded.keeps (h : Recorded target path u record) (hk : Keeps u u') :
    Recorded target path u' record := by
  obtain ⟨w, rfl, -⟩ := hk
  exact h.append w

theorem reapEpochPidFile_wp {runtimeDir : Path} :
    (reapEpochPidFile target paths path runtimeDir).wp (recording (FileGuard target path))
      (fun _ _ => True) [] := by
  unfold reapEpochPidFile
  refine check_seq (.demand ⟨rfl, rfl⟩) (.refl []) fun runtimeDir u hk _ => ?_
  cases paths.parent path with
  | none => trivial
  | some parent =>
    refine check_seq (.demand ⟨rfl, rfl⟩) hk fun parent u hk _ => ?_
    refine check_seq refuse_looks hk fun _ u hk _ => ?_
    refine check_seq (.ret _) hk fun epoch u hk _ => ?_
    refine wp_seq (wp_and (looks_keeps fileGuard_of_looks readEpochPidFile_looks)
      readEpochPidFile_wp) (fun _ _ _ => trivial) ?_
    rintro found u ⟨hk', hrecorded⟩
    have hk := hk.trans hk'
    cases found with
    | none => trivial
    | some record =>
      have hrecorded := hrecorded record rfl
      refine check_seq refuse_looks hk fun _ u hk hk' => ?_
      have hrecorded := hrecorded.keeps hk'
      cases paths.parent record.runtimeConfig with
      | none => trivial
      | some runtimeParent =>
        refine check_seq (.demand ⟨rfl, rfl⟩) hk fun runtimeParent u hk hk' => ?_
        have hrecorded := hrecorded.keeps hk'
        refine check_seq refuse_looks hk fun _ u hk hk' => ?_
        have hrecorded := hrecorded.keeps hk'
        refine check_seq (.ret _) hk fun runtimeEpoch u hk hk' => ?_
        have hrecorded := hrecorded.keeps hk'
        refine check_seq refuse_looks hk fun _ u hk hk' => ?_
        have hrecorded := hrecorded.keeps hk'
        refine check_seq validateRuntimeTarget_looks hk fun _ u hk hk' => ?_
        have hrecorded := hrecorded.keeps hk'
        have hreap : (reapRecord target record).wp (recording (FileGuard target path))
            (fun _ _ => True) u := by
          refine wp_weaken (reapRecord_wp (settled_nil.keeps hk)) ?_
          intro v β op hop
          cases op with
          | kill pid => exact ⟨record, hrecorded.append v, hop⟩
          | _ => trivial
        refine wp_seq hreap (fun _ _ _ => trivial) fun outcome u _ => ?_
        refine wp_seq (looks_keeps fileGuard_of_looks removeRecordIfMatches_looks)
          (fun _ _ _ => trivial) fun _ _ _ => trivial

end Files

/-- In every run a process is killed only where the identity that was observed
right before is that of the recorded root, or that of a descendant as it was read
when a snapshot last showed it; one that could not be read then is not killed. -/
theorem kill_authorised (target : Target) (paths : Paths) (path runtimeDir : Path)
    (before after : List (Event Op)) (pid : UInt32) (killed : Except IoError Unit)
    (result : Except IoError OrphanReapOutcome)
    (h : (reapEpochPidFile target paths path runtimeDir).Runs
      (before ++ ⟨.kill pid, killed⟩ :: after) result) :
    ∃ record, Recorded target path before record ∧ Authorised target record before pid ∧
      (pid ≠ record.pid → (lastSight record.pid pid before).isSome = true) := by
  obtain ⟨record, hrecorded, hauthorised⟩ : FileGuard target path before (.kill pid) :=
    wp_guards reapEpochPidFile_wp h
  refine ⟨record, hrecorded, hauthorised, ?_⟩
  intro hne
  obtain ⟨_, _, _, -, -, ⟨hpid, -⟩ | ⟨captured, hsight, -⟩⟩ := hauthorised
  · exact absurd hpid hne
  · rw [hsight]
    rfl

/-! ## A core with a helper -/

/-- Paths of a Unix host. -/
def unixPaths : Paths where
  parent := fun path => some ((path.reverse.dropWhile (· ≠ 47)).tail.reverse)
  fileName := fun path => decode (path.reverse.takeWhile (· ≠ 47)).reverse
  display := fun path => String.ofList ((decode path).getD [])

def runtimeDir : Path := encode "/run".toList

def pidPath : Path := encode "/run/core-7.pid".toList

def orphan : EpochPidRecord :=
  ⟨42, 7, "mihomo".toList, 99, encode "/run/config-7.yaml".toList⟩

def orphanText : Text := (serializeEpochRecord .linux orphan).toOption.getD []

def orphanIdentity : Observation := .ok (some ⟨some "mihomo".toList, 99, none⟩)

def helperIdentity : Observation := .ok (some ⟨some "helper".toList, 120, none⟩)

def helperTable : Table := [(42, some 1), (43, some 42)]

/-- The root is killed, and its helper is about to be. -/
def beforeHelper : List (Event Op) :=
  [⟨.canonicalize runtimeDir, .ok runtimeDir⟩, ⟨.canonicalize runtimeDir, .ok runtimeDir⟩,
    ⟨.symlinkMetadata pidPath, .ok .file⟩, ⟨.readToString pidPath, .ok orphanText⟩,
    ⟨.canonicalize runtimeDir, .ok runtimeDir⟩,
    ⟨.symlinkMetadata orphan.runtimeConfig, .ok .file⟩, ⟨.processIdentity 42, orphanIdentity⟩,
    ⟨.processes, helperTable⟩, ⟨.processIdentity 43, helperIdentity⟩,
    ⟨.processes, helperTable⟩, ⟨.processIdentity 43, helperIdentity⟩,
    ⟨.processIdentity 42, orphanIdentity⟩, ⟨.openProcess 42, .ok ()⟩,
    ⟨.processIdentity 42, orphanIdentity⟩, ⟨.kill 42, .ok ()⟩, ⟨.processIdentity 42, .ok none⟩,
    ⟨.processIdentity 43, helperIdentity⟩, ⟨.openProcess 43, .ok ()⟩,
    ⟨.processIdentity 43, helperIdentity⟩]

def afterHelper : List (Event Op) :=
  [⟨.processIdentity 43, .ok none⟩, ⟨.symlinkMetadata pidPath, .ok .file⟩,
    ⟨.readToString pidPath, .ok orphanText⟩, ⟨.removeFile pidPath, .ok ()⟩]

theorem helper_runs : (reapEpochPidFile .linux unixPaths pidPath runtimeDir).Runs
    (beforeHelper ++ ⟨.kill 43, .ok ()⟩ :: afterHelper) (.ok .killed) :=
  play_runs Script.answer (reapEpochPidFile .linux unixPaths pidPath runtimeDir)
    ⟨[orphanIdentity, helperIdentity, helperIdentity, orphanIdentity, orphanIdentity, .ok none,
      helperIdentity, helperIdentity, .ok none], [helperTable, helperTable], .ok (), orphanText⟩

theorem helper_kill_authorised :
    ∃ record, Recorded .linux pidPath beforeHelper record ∧
      Authorised .linux record beforeHelper 43 ∧
      (43 ≠ record.pid → (lastSight record.pid 43 beforeHelper).isSome = true) :=
  kill_authorised .linux unixPaths pidPath runtimeDir beforeHelper afterHelper 43 (.ok ())
    (.ok .killed) helper_runs

end Chimera.Process
