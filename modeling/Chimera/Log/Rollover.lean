import Chimera.Log.Retention

/-! What the archive holds: the records in order, in files that are as full as the
limit lets them be, of which the newest are kept. -/

namespace Chimera.Log.Archive
open Chimera.Lib

/-! ## What was done -/

/-- What was written to a file, in order. -/
def content (name : String) : List DiskEvent → Bytes
  | [] => []
  | .wrote other bytes :: earlier =>
    content name earlier ++ if other = name then bytes else []
  | .created _ :: earlier | .removed _ :: earlier => content name earlier

/-- The file that was created last. -/
def activeFile : List DiskEvent → Option String
  | [] => none
  | .created name :: _ => some name
  | .wrote _ _ :: earlier | .removed _ :: earlier => activeFile earlier

/-- No file was removed while it was the active one. -/
def Spared : List DiskEvent → Prop
  | [] => True
  | .removed name :: earlier => activeFile earlier ≠ some name ∧ Spared earlier
  | .created _ :: earlier | .wrote _ _ :: earlier => Spared earlier

section Events

variable {events : List DiskEvent} {gone : List Nat} {name : String}

theorem content_removed : content name
    (gone.map (fun seq => .removed (fileName seq)) ++ events) = content name events := by
  induction gone with
  | nil => rfl
  | cons seq rest ih => exact ih

theorem activeFile_removed : activeFile
    (gone.map (fun seq => .removed (fileName seq)) ++ events) = activeFile events := by
  induction gone with
  | nil => rfl
  | cons seq rest ih => exact ih

theorem Spared.removed (h : Spared events)
    (hactive : ∀ seq ∈ gone, activeFile events ≠ some (fileName seq)) :
    Spared (gone.map (fun seq => .removed (fileName seq)) ++ events) := by
  induction gone with
  | nil => exact h
  | cons seq rest ih =>
    refine ⟨?_, ih fun n hn => hactive n (List.mem_cons_of_mem _ hn)⟩
    have hactiveFile : activeFile (rest.map (fun seq => .removed (fileName seq)) ++ events) =
        activeFile events := activeFile_removed
    exact fun heq => hactive seq List.mem_cons_self (hactiveFile.symm.trans heq)

end Events

/-! ## The files of a run -/

/-- One record more on the shelf of files, the newest first: it opens a new file if the
newest is full. -/
def shelve (maxBytes : Nat) (shelf : List (List Bytes)) (line : Option Bytes) :
    List (List Bytes) :=
  match shelf with
  | [] => [line.toList]
  | lines :: older =>
    if maxBytes ≤ lines.flatten.length then line.toList :: lines :: older
    else (lines ++ line.toList) :: older

/-- The numbers of a run's files, the newest first. -/
def runSeqs (newest : Nat) : Nat → List Nat
  | 0 => []
  | n + 1 => (newest + (n + 1)) :: runSeqs newest n

/-- A file holds what was written to it after what it held before the run; files of
others are as they were, and none was removed while it was active. -/
structure Kept (initial : List (String × Bytes)) (disk : Disk) : Prop where
  files : ∀ name bytes, disk.files.lookup name = some bytes →
    bytes = (initial.lookup name).getD [] ++ content name disk.events
  alien : ∀ name, fileSeq name = none → disk.files.lookup name = initial.lookup name
  spared : Spared disk.events

section Kept

variable {initial : List (String × Bytes)} {seqs gone : List Nat} {disk disk' : Disk} {seq : Nat}
  {bytes : Bytes}

theorem Kept.removes (h : Kept initial disk) (hremoves : Removes gone disk disk')
    (hlt : ∀ seq ∈ gone, seq < 2 ^ 64)
    (hactive : ∀ seq ∈ gone, activeFile disk.events ≠ some (fileName seq)) :
    Kept initial disk' where
  files := by
    intro name bytes hbytes
    obtain ⟨removed, -, hevents⟩ := hremoves.events
    rw [hremoves.lookup] at hbytes
    split at hbytes
    · cases hbytes
    · rw [hevents, content_removed]
      exact h.files name bytes hbytes
  alien := by
    intro name halien
    rw [hremoves.lookup, if_neg]
    · exact h.alien name halien
    · intro hremoved
      obtain ⟨seq, hseq, rfl⟩ := hremoved
      rw [fileSeq_fileName (hlt seq hseq)] at halien
      cases halien
  spared := by
    obtain ⟨removed, hmem, hevents⟩ := hremoves.events
    rw [hevents]
    exact h.spared.removed fun seq hseq => hactive seq (hmem seq hseq)

theorem Removes.content_eq (h : Removes gone disk disk') (name : String) :
    content name disk'.events = content name disk.events := by
  obtain ⟨removed, -, hevents⟩ := h.events
  rw [hevents, content_removed]

theorem Removes.activeFile_eq (h : Removes gone disk disk') :
    activeFile disk'.events = activeFile disk.events := by
  obtain ⟨removed, -, hevents⟩ := h.events
  rw [hevents, activeFile_removed]

/-- Pruning around the active file. -/
theorem Kept.pruned (h : Kept initial disk) (hsound : disk.Sound)
    (hnumbered : Numbered disk.files (seq :: seqs))
    (hcurrent : activeFile disk.events = some (fileName seq)) (keep : Nat) :
    Kept initial (pruneDir disk keep (some seq)) := by
  have hlt : ∀ n ∈ seq :: seqs, n < 2 ^ 64 := fun n hn => ((hnumbered.mem n).1 hn).1
  have hgone : ∀ n ∈ ((seq :: seqs).drop keep).filter fun n => some n ≠ some seq,
      n ∈ seq :: seqs ∧ n ≠ seq := by
    intro n hn
    obtain ⟨hdrop, hne⟩ := List.mem_filter.1 hn
    simp only [ne_eq, Option.some.injEq, decide_eq_true_eq] at hne
    exact ⟨List.mem_of_mem_drop hdrop, hne⟩
  refine h.removes (pruneDir_removes hsound hnumbered keep (some seq))
    (fun n hn => hlt n (hgone n hn).1) ?_
  intro n hn heq
  obtain ⟨hmem, hne⟩ := hgone n hn
  rw [hcurrent] at heq
  exact hne ((fileName_inj (hlt seq List.mem_cons_self) (hlt n hmem)).1 (Option.some.inj heq)).symm

theorem Kept.creates (h : Kept initial disk) (hcreates : Creates disk disk' seq)
    (hlt : seq < 2 ^ 64) (hfresh : initial.lookup (fileName seq) = none)
    (hquiet : content (fileName seq) disk.events = []) : Kept initial disk' where
  files := by
    intro name bytes hbytes
    have hcontent : content name disk'.events = content name disk.events := by
      rw [hcreates.events]
      rfl
    rw [hcreates.lookup] at hbytes
    rw [hcontent]
    by_cases hname : name = fileName seq
    · rw [if_pos hname] at hbytes
      rw [← Option.some.inj hbytes, hname, hfresh, hquiet]
      rfl
    · rw [if_neg hname] at hbytes
      exact h.files name bytes hbytes
  alien := by
    intro name halien
    have hname : name ≠ fileName seq := by
      intro hname
      rw [hname, fileSeq_fileName hlt] at halien
      cases halien
    rw [hcreates.lookup, if_neg hname]
    exact h.alien name halien
  spared := by
    rw [hcreates.events]
    exact h.spared

theorem Kept.appends (h : Kept initial disk) (happends : Appends disk disk' (fileName seq) bytes)
    (hlt : seq < 2 ^ 64) : Kept initial disk' where
  files := by
    intro name found hfound
    have hcontent : content name disk'.events =
        content name disk.events ++ if fileName seq = name then bytes else [] := by
      rw [happends.events]
      rfl
    rw [happends.lookup] at hfound
    rw [hcontent]
    by_cases hname : name = fileName seq
    · rw [if_pos hname] at hfound
      obtain ⟨old, hold, rfl⟩ := Option.map_eq_some_iff.1 hfound
      rw [hname, if_pos rfl, h.files _ old hold, List.append_assoc]
    · rw [if_neg hname] at hfound
      rw [if_neg (Ne.symm hname), List.append_nil]
      exact h.files name found hfound
  alien := by
    intro name halien
    have hname : name ≠ fileName seq := by
      intro hname
      rw [hname, fileSeq_fileName hlt] at halien
      cases halien
    rw [happends.lookup, if_neg hname]
    exact h.alien name halien
  spared := by
    rw [happends.events]
    exact h.spared

/-- No file is there under a number above the newest. -/
theorem Numbered.fresh (h : Numbered initial seqs) (hlt : seq < 2 ^ 64)
    (hnew : seqs.head?.getD 0 < seq) : initial.lookup (fileName seq) = none := by
  rw [← Option.not_isSome_iff_eq_none]
  intro hpresent
  have hmem := (h.mem seq).2 ⟨hlt, hpresent⟩
  cases seqs with
  | nil => cases hmem
  | cons newest rest =>
    have hnew : newest < seq := hnew
    rcases List.mem_cons.1 hmem with rfl | hrest
    · exact absurd hnew (Nat.lt_irrefl _)
    · have holder : newest > seq := (List.pairwise_cons.1 h.descending).1 seq hrest
      omega

end Kept

/-- What the directory and its history say of a writer with this buffer: `lines` are of
the active file, `older` of the files before it. -/
structure Holds (initial : List (String × Bytes)) (seqs : List Nat) (options : SinkOptions)
    (w : Writer) (buffer : Bytes) (lines : List Bytes) (older : List (List Bytes)) : Prop where
  options_eq : w.options = options
  sound : w.disk.Sound
  lt : w.seq < 2 ^ 64
  seq : w.seq = seqs.head?.getD 0 + (older.length + 1)
  numbered : Numbered w.disk.files
    ((runSeqs (seqs.head?.getD 0) (older.length + 1) ++ seqs).take options.maxFiles)
  written : w.written + buffer.length = lines.flatten.length
  active : content (fileName w.seq) w.disk.events ++ buffer = lines.flatten
  closed : ∀ i group, older[i]? = some group →
    content (fileName (w.seq - 1 - i)) w.disk.events = group.flatten
  quiet : ∀ seq, seq < 2 ^ 64 → seq ≤ seqs.head?.getD 0 ∨ w.seq < seq →
    content (fileName seq) w.disk.events = []
  kept : Kept initial w.disk
  current : activeFile w.disk.events = some (fileName w.seq)

section Steps

variable {initial : List (String × Bytes)} {seqs : List Nat} {options : SinkOptions} {w : Writer}
  {buffer line : Bytes} {lines : List Bytes} {older : List (List Bytes)} {host : Host}

theorem Holds.buffered (h : Holds initial seqs options w buffer lines older) (line : Bytes) :
    Holds initial seqs options w (buffer ++ line) (lines ++ [line]) older where
  options_eq := h.options_eq
  sound := h.sound
  lt := h.lt
  seq := h.seq
  numbered := h.numbered
  written := by
    have hwritten := h.written
    simp only [List.flatten_append, List.flatten_cons, List.flatten_nil, List.length_append,
      List.append_nil]
    omega
  active := by
    rw [← List.append_assoc, h.active]
    simp
  closed := h.closed
  quiet := h.quiet
  kept := h.kept
  current := h.current

theorem fileName_ne {a b : Nat} (ha : a < 2 ^ 64) (hb : b < 2 ^ 64) (h : a ≠ b) :
    fileName a ≠ fileName b := fun heq => h ((fileName_inj ha hb).1 heq)

theorem Holds.flushed (h : Holds initial seqs options w buffer lines older) :
    Holds initial seqs options (w.flushPending buffer) [] lines older := by
  unfold Writer.flushPending
  by_cases hempty : buffer.isEmpty = true
  · rw [if_pos hempty]
    obtain rfl := List.isEmpty_iff.1 hempty
    exact h
  obtain ⟨disk', hwrite, happends⟩ :=
    writeAll_sound h.sound h.numbered.ordered (fileName w.seq) buffer
  have hcontent (name : String) : content name disk'.flush.events =
      content name w.disk.events ++ if fileName w.seq = name then buffer else [] := by
    rw [happends.events]
    rfl
  have hother {seq : Nat} (hseq : seq < 2 ^ 64) (hne : seq ≠ w.seq) :
      content (fileName seq) disk'.flush.events = content (fileName seq) w.disk.events := by
    rw [hcontent, if_neg (fileName_ne h.lt hseq hne.symm), List.append_nil]
  have hseq := h.seq
  have hlt := h.lt
  rw [if_neg hempty, hwrite]
  show Holds initial seqs options
    { w with disk := disk'.flush, written := w.written + buffer.length } [] lines older
  exact {
    options_eq := h.options_eq
    sound := happends.sound
    lt := h.lt
    seq := h.seq
    numbered := happends.numbered h.numbered
    written := h.written
    active := by
      simp only [hcontent, if_true, List.append_nil]
      exact h.active
    closed := by
      intro i group hgroup
      have hi := (List.getElem?_eq_some_iff.1 hgroup).1
      have hbound : w.seq - 1 - i < 2 ^ 64 := by omega
      have hne : w.seq - 1 - i ≠ w.seq := by omega
      exact (hother hbound hne).trans (h.closed i group hgroup)
    quiet := by
      intro seq hbound hrange
      have hrange : seq ≤ seqs.head?.getD 0 ∨ w.seq < seq := hrange
      have hne : seq ≠ w.seq := by omega
      exact (hother hbound hne).trans (h.quiet seq hbound hrange)
    kept := h.kept.appends happends h.lt
    current := by
      rw [happends.events]
      exact h.current }

theorem Holds.rotated (h : Holds initial seqs options w [] lines older)
    (hinitial : Numbered initial seqs) (hfiles : 0 < options.maxFiles)
    (hnext : w.seq + 1 < 2 ^ 64) : ∃ w', w.rotate host = .ok w' ∧
      Holds initial seqs options w' [] [] (lines :: older) := by
  have hseq := h.seq
  obtain ⟨k, hk⟩ : ∃ k, options.maxFiles = k + 1 := ⟨options.maxFiles - 1, by omega⟩
  -- the active file is the newest that is there
  have hnumbered : Numbered w.disk.files (w.seq ::
      (runSeqs (seqs.head?.getD 0) older.length ++ seqs).take k) := by
    have hnumbered := h.numbered
    rw [hk, runSeqs, ← hseq] at hnumbered
    exact hnumbered
  have hprune := pruneDir_removes h.sound hnumbered k (some w.seq)
  have hactive := pruneDir_active h.sound hnumbered k
  obtain ⟨disk₂, hcreate, hcreates, hnumbered₂⟩ := create_newest hprune.sound hactive hnext (by
    intro n hn
    rcases List.mem_cons.1 hn with rfl | hrest
    · exact Nat.lt_succ_self _
    · have hlt : w.seq > n := (List.pairwise_cons.1 hactive.descending).1 n hrest
      omega)
  have hprune₂ := pruneDir_removes hcreates.sound hnumbered₂ (k + 1) (some (w.seq + 1))
  have hactive₂ := pruneDir_active hcreates.sound hnumbered₂ (k + 1)
  refine ⟨{ w with disk := pruneDir disk₂ (k + 1) (some (w.seq + 1)), seq := w.seq + 1,
                   written := 0 }, ?_, ?_⟩
  · unfold Writer.rotate Host.successor
    rw [if_pos hnext]
    simp only [bind, Except.bind]
    rw [h.options_eq, hk, Nat.add_sub_cancel, hcreate]
    rfl
  have hquiet : content (fileName (w.seq + 1)) w.disk.events = [] :=
    h.quiet _ hnext (.inr (Nat.lt_succ_self _))
  have hkept := h.kept.pruned h.sound hnumbered h.current k
  have hcurrent : activeFile disk₂.events = some (fileName (w.seq + 1)) := by
    rw [hcreates.events]
    rfl
  have hcontent (name : String) :
      content name (pruneDir disk₂ (k + 1) (some (w.seq + 1))).events =
        content name w.disk.events := by
    rw [hprune₂.content_eq, hcreates.events]
    exact hprune.content_eq name
  have hclosed : content (fileName w.seq) w.disk.events = lines.flatten := by
    rw [← h.active, List.append_nil]
  exact {
    options_eq := h.options_eq
    sound := hprune₂.sound
    lt := hnext
    seq := by
      show w.seq + 1 = seqs.head?.getD 0 + ((lines :: older).length + 1)
      rw [List.length_cons]
      omega
    numbered := by
      have hall : (runSeqs (seqs.head?.getD 0) ((lines :: older).length + 1) ++ seqs).take
          options.maxFiles = (w.seq + 1) :: (w.seq ::
            ((runSeqs (seqs.head?.getD 0) older.length ++ seqs).take k).take (k - 1)).take k := by
        have hnewest : seqs.head?.getD 0 + (older.length + 1 + 1) = w.seq + 1 := by omega
        rw [hk, List.length_cons, runSeqs, runSeqs, hnewest, ← hseq, List.cons_append,
          List.take_succ_cons, List.cons_append]
        cases k with
        | zero => rfl
        | succ k =>
          rw [List.take_succ_cons, List.take_succ_cons, List.take_take, List.take_take]
          simp
      rw [hall]
      exact hactive₂
    written := rfl
    active := by
      show content (fileName (w.seq + 1)) _ ++ [] = []
      rw [hcontent, hquiet]
      rfl
    closed := by
      intro i group hgroup
      show content (fileName (w.seq + 1 - 1 - i)) _ = group.flatten
      rw [hcontent, Nat.add_sub_cancel]
      cases i with
      | zero =>
        rw [← Option.some.inj hgroup]
        exact hclosed
      | succ i =>
        rw [Nat.add_comm i 1, ← Nat.sub_sub]
        exact h.closed i group hgroup
    quiet := by
      intro seq hbound hrange
      have hrange : seq ≤ seqs.head?.getD 0 ∨ w.seq + 1 < seq := hrange
      rw [hcontent]
      exact h.quiet seq hbound (by omega)
    kept := by
      refine Kept.pruned (hkept.creates hcreates hnext (hinitial.fresh hnext (by omega)) ?_)
        hcreates.sound hnumbered₂ hcurrent (k + 1)
      rw [hprune.content_eq, hquiet]
    current := by
      rw [hprune₂.activeFile_eq]
      exact hcurrent }

/-- Opening makes a file with the next number, and keeps the newest of the others. -/
theorem opened {disk : Disk} (hsound : disk.Sound) (hevents : disk.events = [])
    (hinitial : Numbered disk.files seqs) (hfiles : 0 < options.maxFiles)
    (hnext : seqs.head?.getD 0 + 1 < 2 ^ 64) : ∃ w, Writer.openIn host disk options = .ok w ∧
      Holds disk.files seqs options w [] [] [] := by
  obtain ⟨faults, hread, hsound⟩ := readSeqs_sound hsound
  obtain ⟨k, hk⟩ : ∃ k, options.maxFiles = k + 1 := ⟨options.maxFiles - 1, by omega⟩
  have hstart : Kept disk.files { disk with faults } := by
    refine ⟨?_, fun _ _ => rfl, ?_⟩
    · intro name bytes hbytes
      rw [show disk.files.lookup name = some bytes from hbytes, hevents]
      exact (List.append_nil bytes).symm
    · rw [hevents]
      trivial
  have hnumbered : Numbered ({ disk with faults } : Disk).files seqs := hinitial
  have hprune := pruneDir_removes hsound hnumbered k none
  have hkept : Kept disk.files (pruneDir { disk with faults } k none) := by
    refine hstart.removes hprune ?_ ?_
    · intro seq hseq
      exact ((hinitial.mem seq).1 (List.mem_of_mem_drop (List.mem_filter.1 hseq).1)).1
    · intro seq _ hactive
      rw [show ({ disk with faults } : Disk).events = [] from hevents] at hactive
      cases hactive
  have hnewest := pruneDir_newest hsound hnumbered k
  have hle : ∀ n ∈ seqs, n ≤ seqs.head?.getD 0 := by
    intro n hn
    by_contra hlt
    have hfresh := hinitial.fresh ((hinitial.mem n).1 hn).1 (by omega)
    have hpresent := ((hinitial.mem n).1 hn).2
    rw [hfresh] at hpresent
    cases hpresent
  obtain ⟨disk', hcreate, hcreates, hnumbered'⟩ := create_newest hprune.sound hnewest hnext
    fun n hn => Nat.lt_succ_of_le (hle n (List.mem_of_mem_take hn))
  have hcontent (name : String) : content name disk'.events = [] := by
    rw [hcreates.events]
    refine (hprune.content_eq name).trans ?_
    rw [show ({ disk with faults } : Disk).events = [] from hevents]
    rfl
  refine ⟨⟨disk', options, 0, seqs.head?.getD 0 + 1⟩, ?_, ?_⟩
  · unfold Writer.openIn nextSeq Host.successor
    rw [hread]
    simp only [hinitial.newest, if_pos hnext, Except.map, bind, Except.bind]
    rw [hk, Nat.add_sub_cancel, hcreate]
    rfl
  · exact {
      options_eq := rfl
      sound := hcreates.sound
      lt := hnext
      seq := rfl
      numbered := by
        rw [hk]
        exact hnumbered'
      written := rfl
      active := by
        rw [hcontent]
        rfl
      closed := fun i group hgroup => by simp at hgroup
      quiet := fun seq _ _ => hcontent _
      kept := by
        refine hkept.creates hcreates hnext (hinitial.fresh hnext (Nat.lt_succ_self _)) ?_
        rw [hprune.content_eq, show ({ disk with faults } : Disk).events = [] from hevents]
        rfl
      current := by
        rw [hcreates.events]
        rfl }

end Steps

/-! ## Runs -/

section Runs

variable {initial : List (String × Bytes)} {seqs : List Nat} {options : SinkOptions} {w : Writer}
  {buffer : Bytes} {lines : List Bytes} {older : List (List Bytes)} {host : Host}

theorem shelve_length (maxBytes : Nat) (shelf : List (List Bytes)) (line : Option Bytes) :
    shelf.length ≤ (shelve maxBytes shelf line).length := by
  cases shelf with
  | nil => exact Nat.zero_le _
  | cons lines older =>
    simp only [shelve]
    split
    · simp only [List.length_cons]
      omega
    · exact Nat.le_refl _

theorem shelves_length (maxBytes : Nat) (shelf : List (List Bytes))
    (records : List (Option Bytes)) :
    shelf.length ≤ (records.foldl (shelve maxBytes) shelf).length := by
  induction records generalizing shelf with
  | nil => exact Nat.le_refl _
  | cons line rest ih => exact Nat.le_trans (shelve_length maxBytes shelf line) (ih _)

/-- Where the directory and its history are what a shelf says. -/
def On (initial : List (String × Bytes)) (seqs : List Nat) (options : SinkOptions) (w : Writer)
    (buffer : Bytes) (shelf : List (List Bytes)) : Prop :=
  ∃ lines older, shelf = lines :: older ∧ Holds initial seqs options w buffer lines older

/-- What comes of a step: on the shelf if its numbers fit, and a panic where they do not
and the build checks. -/
structure Leads (host : Host) (initial : List (String × Bytes)) (seqs : List Nat)
    (options : SinkOptions) (shelf : List (List Bytes)) (result : Except Stop (Writer × Bytes)) :
    Prop where
  fits : seqs.head?.getD 0 + shelf.length < 2 ^ 64 → ∃ w buffer, result = .ok (w, buffer) ∧
    On initial seqs options w buffer shelf
  panics : host.overflowChecks = true → ¬seqs.head?.getD 0 + shelf.length < 2 ^ 64 →
    result = .error (.panic "attempt to add with overflow")

theorem Holds.line (h : Holds initial seqs options w buffer lines older) (line : Option Bytes) :
    On initial seqs options w (buffer ++ line.toList.flatten)
      ((lines ++ line.toList) :: older) := by
  refine ⟨_, _, rfl, ?_⟩
  cases line with
  | none =>
    simp only [Option.toList_none, List.flatten_nil, List.append_nil]
    exact h
  | some line =>
    simp only [Option.toList_some, List.flatten_cons, List.flatten_nil, List.append_nil]
    exact h.buffered line

theorem push_eq (host : Host) (at_ : Int) (state : Writer × Bytes) (entry : Entry) :
    Writer.push host at_ state entry = (state.1.roll host state.2).map fun rolled =>
      (rolled.1, rolled.2 ++ (host.line at_ entry).toList.flatten) := by
  unfold Writer.push
  cases state.1.roll host state.2 with
  | error stop => rfl
  | ok rolled =>
    simp only [bind, Except.bind, Except.map]
    cases host.line at_ entry with
    | none => simp [pure, Except.pure]
    | some line => simp [pure, Except.pure]

theorem rotate_panics (hchecks : host.overflowChecks = true) (h : ¬w.seq + 1 < 2 ^ 64) :
    w.rotate host = .error (.panic "attempt to add with overflow") := by
  unfold Writer.rotate Host.successor
  rw [if_neg h, if_pos hchecks]
  rfl

theorem push_leads (hinitial : Numbered initial seqs) (hfiles : 0 < options.maxFiles)
    (at_ : Int) (entry : Entry) {shelf : List (List Bytes)}
    (h : On initial seqs options w buffer shelf) :
    Leads host initial seqs options (shelve options.maxBytes shelf (host.line at_ entry))
      (Writer.push host at_ (w, buffer) entry) := by
  obtain ⟨lines, older, rfl, h⟩ := h
  have hfull : w.options.maxBytes ≤ w.written + buffer.length ↔
      options.maxBytes ≤ lines.flatten.length := by
    rw [h.options_eq, h.written]
  rw [push_eq]
  unfold shelve Writer.roll
  by_cases hroll : options.maxBytes ≤ lines.flatten.length
  · simp only [if_pos hroll, if_pos (hfull.2 hroll), bind, Except.bind]
    have hflushed := h.flushed
    have hseq := hflushed.seq
    constructor
    · intro hfits
      simp only [List.length_cons] at hfits
      have hrotated : ∃ w', (w.flushPending buffer).rotate host = .ok w' ∧
          Holds initial seqs options w' [] [] (lines :: older) :=
        hflushed.rotated hinitial hfiles (by omega)
      obtain ⟨w', hrotate, hholds⟩ := hrotated
      rw [hrotate]
      exact ⟨w', _, rfl, hholds.line (host.line at_ entry)⟩
    · intro hchecks hfits
      simp only [List.length_cons] at hfits
      rw [rotate_panics hchecks (by omega)]
      rfl
  · simp only [if_neg hroll, if_neg fun hle => hroll (hfull.1 hle)]
    constructor
    · intro _
      exact ⟨w, _, rfl, h.line (host.line at_ entry)⟩
    · intro _ hfits
      have hlt := h.lt
      have hseq := h.seq
      simp only [List.length_cons] at hfits
      omega

theorem pushes_lead (hinitial : Numbered initial seqs) (hfiles : 0 < options.maxFiles)
    (at_ : Int) (batch : List Entry) {shelf : List (List Bytes)}
    (h : On initial seqs options w buffer shelf) :
    Leads host initial seqs options
      ((batch.map (host.line at_)).foldl (shelve options.maxBytes) shelf)
      (batch.foldlM (Writer.push host at_) (w, buffer)) := by
  induction batch generalizing w buffer shelf with
  | nil =>
    constructor
    · intro _
      exact ⟨w, buffer, rfl, h⟩
    · intro _ hfits
      obtain ⟨lines, older, rfl, h⟩ := h
      have hlt := h.lt
      have hseq := h.seq
      simp only [List.map_nil, List.foldl_nil, List.length_cons] at hfits
      omega
  | cons entry rest ih =>
    have hone : Leads host initial seqs options _ _ := push_leads hinitial hfiles at_ entry h
    have hlength := shelves_length options.maxBytes
      (shelve options.maxBytes shelf (host.line at_ entry)) (rest.map (host.line at_))
    rw [List.foldlM_cons, List.map_cons, List.foldl_cons]
    constructor
    · intro hfits
      obtain ⟨w', buffer', hpush, hon⟩ := hone.fits (by omega)
      rw [hpush]
      exact (ih hon).fits hfits
    · intro hchecks hfits
      by_cases hfirst : seqs.head?.getD 0 +
          (shelve options.maxBytes shelf (host.line at_ entry)).length < 2 ^ 64
      · obtain ⟨w', buffer', hpush, hon⟩ := hone.fits hfirst
        rw [hpush]
        exact (ih hon).panics hchecks hfits
      · rw [hone.panics hchecks hfirst]
        rfl

theorem unbuffered_ok {result : Except Stop Writer}
    (h : (result.map fun w => (w, ([] : Bytes))) = .ok (w, buffer)) :
    result = .ok w ∧ buffer = [] := by
  cases result with
  | error stop => cases h
  | ok found =>
    cases h
    exact ⟨rfl, rfl⟩

theorem unbuffered_error {result : Except Stop Writer} {stop : Stop}
    (h : (result.map fun w => (w, ([] : Bytes))) = .error stop) : result = .error stop := by
  cases result with
  | error found =>
    cases h
    rfl
  | ok found => cases h

/-- The lines of a batch; what does not serialize is none. -/
def batchLines (host : Host) (batch : Int × List Entry) : List (Option Bytes) :=
  batch.2.map (host.line batch.1)

theorem write_leads (hinitial : Numbered initial seqs) (hfiles : 0 < options.maxFiles)
    (batch : Int × List Entry) {shelf : List (List Bytes)}
    (h : On initial seqs options w [] shelf) :
    Leads host initial seqs options
      ((batchLines host batch).foldl (shelve options.maxBytes) shelf)
      ((w.write host batch.1 batch.2).map fun w => (w, [])) := by
  have hpushes : Leads host initial seqs options _ _ :=
    pushes_lead hinitial hfiles batch.1 batch.2 h
  unfold Writer.write
  by_cases hempty : batch.2.isEmpty = true
  · rw [if_pos hempty]
    unfold batchLines
    rw [List.isEmpty_iff.1 hempty] at hpushes ⊢
    exact hpushes
  rw [if_neg hempty]
  constructor
  · intro hfits
    obtain ⟨w', buffer, hresult, lines, older, hshelf, hholds⟩ := hpushes.fits hfits
    rw [hresult]
    exact ⟨w'.flushPending buffer, [], rfl, lines, older, hshelf, hholds.flushed⟩
  · intro hchecks hfits
    rw [hpushes.panics hchecks hfits]
    rfl

/-- All lines of a run. -/
def runLines (host : Host) (batches : List (Int × List Entry)) : List (Option Bytes) :=
  batches.flatMap (batchLines host)

theorem writes_lead (hinitial : Numbered initial seqs) (hfiles : 0 < options.maxFiles)
    (batches : List (Int × List Entry)) {shelf : List (List Bytes)}
    (h : On initial seqs options w [] shelf) :
    Leads host initial seqs options
      ((runLines host batches).foldl (shelve options.maxBytes) shelf)
      ((batches.foldlM (fun (w : Writer) batch => w.write host batch.1 batch.2) w).map
        fun w => (w, [])) := by
  induction batches generalizing w shelf with
  | nil =>
    constructor
    · intro _
      exact ⟨w, [], rfl, h⟩
    · intro _ hfits
      obtain ⟨lines, older, rfl, h⟩ := h
      have hlt := h.lt
      have hseq := h.seq
      simp only [runLines, List.flatMap_nil, List.foldl_nil, List.length_cons] at hfits
      omega
  | cons batch rest ih =>
    have hone : Leads host initial seqs options _ _ := write_leads hinitial hfiles batch h
    have hlength := shelves_length options.maxBytes
      ((batchLines host batch).foldl (shelve options.maxBytes) shelf) (runLines host rest)
    have hlines : runLines host (batch :: rest) = batchLines host batch ++ runLines host rest := rfl
    rw [List.foldlM_cons, hlines, List.foldl_append]
    constructor
    · intro hfits
      obtain ⟨w', buffer, hwrite, hon⟩ := hone.fits (by omega)
      obtain ⟨hok, rfl⟩ := unbuffered_ok hwrite
      rw [hok]
      exact (ih hon).fits hfits
    · intro hchecks hfits
      by_cases hfirst : seqs.head?.getD 0 +
          ((batchLines host batch).foldl (shelve options.maxBytes) shelf).length < 2 ^ 64
      · obtain ⟨w', buffer, hwrite, hon⟩ := hone.fits hfirst
        obtain ⟨hok, rfl⟩ := unbuffered_ok hwrite
        rw [hok]
        exact (ih hon).panics hchecks hfits
      · rw [unbuffered_error (hone.panics hchecks hfirst)]
        rfl

end Runs

/-! ## The task -/

/-- The items that a channel gives. -/
def received (polls : List Received) : List Entry := polls.filterMap Received.entry

theorem drain_received (polls : List Received) (batch : List Entry) :
    batch ++ received polls = (drain polls batch).batch ++ received (drain polls batch).rest := by
  induction polls generalizing batch with
  | nil =>
    unfold drain
    split
    · rfl
    · rfl
  | cons poll rest ih =>
    unfold drain
    split
    · cases poll with
      | frame frame =>
        rw [← ih, List.append_assoc]
        rfl
      | lagged dropped =>
        rw [← ih, List.append_assoc]
        rfl
      | empty => rfl
      | closed => rfl
    · rfl

/-- The writer was given batches, which are what the channel gave up to here. -/
def Fed (host : Host) (polls : List Received) (w : Writer) (result : Except Stop Writer) : Prop :=
  ∃ (batches : List (Int × List Entry)) (rest : List Received),
    result = batches.foldlM (fun (w : Writer) batch => w.write host batch.1 batch.2) w ∧
    received polls = batches.flatMap (·.2) ++ received rest

/-- One batch, and what the task does after it unless it stops. -/
theorem Fed.write {host : Host} {polls rest : List Received} {w : Writer} {at_ : Int}
    {batch : List Entry} {stops : Bool} {next : Writer → Except Stop Writer}
    (hpolls : received polls = batch ++ received rest) (hnext : ∀ w, Fed host rest w (next w)) :
    Fed host polls w (do
      let w ← w.write host at_ batch
      if stops then pure w else next w) := by
  cases hwrite : w.write host at_ batch with
  | error stop =>
    refine ⟨[(at_, batch)], rest, ?_, by simpa using hpolls⟩
    rw [List.foldlM_cons, hwrite]
    rfl
  | ok w' =>
    cases stops with
    | true =>
      refine ⟨[(at_, batch)], rest, ?_, by simpa using hpolls⟩
      rw [List.foldlM_cons, hwrite]
      rfl
    | false =>
      obtain ⟨batches, rest', hrun, hrest⟩ := hnext w'
      refine ⟨(at_, batch) :: batches, rest', ?_, ?_⟩
      · rw [List.foldlM_cons, hwrite]
        exact hrun
      · rw [hpolls, hrest, List.flatMap_cons, List.append_assoc]

/-- The task gives the writer what the channel gives, in order, a batch at a time. -/
theorem task_fed (host : Host) (turns : List Turn) (polls : List Received) (w : Writer) :
    Fed host polls w (task host turns polls w) := by
  induction turns generalizing polls w with
  | nil => exact ⟨[], polls, rfl, rfl⟩
  | cons turn turns ih =>
    unfold task
    split
    · exact Fed.write (drain_received polls []) fun w => ih _ w
    · cases polls with
      | nil => exact ⟨[(turn.at_, [])], [], by rw [List.foldlM_cons]; exact (bind_pure _).symm, rfl⟩
      | cons poll rest =>
        cases poll with
        | frame f => exact Fed.write (drain_received rest [.log f]) fun w => ih _ w
        | lagged n => exact Fed.write (drain_received rest [.gap n]) fun w => ih _ w
        | empty => exact ih rest w
        | closed =>
          exact ⟨[(turn.at_, [])], rest, by rw [List.foldlM_cons]; exact (bind_pure _).symm, rfl⟩

/-! ## The archive of a run -/

/-- The numbers of the archive files, the newest first. -/
def archiveSeqs (files : List (String × Bytes)) : List Nat :=
  (listedSeqs files).insertionSort (· ≥ ·)

def newestSeq (files : List (String × Bytes)) : Nat := (listedSeqs files).max?.getD 0

/-- The files of a run, the oldest first: each is filled until it is full. -/
def runFiles (host : Host) (options : SinkOptions) (batches : List (Int × List Entry)) :
    List (List Bytes) :=
  ((runLines host batches).foldl (shelve options.maxBytes) [[]]).reverse

theorem Named.numbered {files : List (String × Bytes)} (h : Named files) :
    Numbered files (archiveSeqs files) where
  toNamed := h
  descending := by
    have hnodup : (archiveSeqs files).Nodup :=
      (List.perm_insertionSort _ (listedSeqs files)).nodup_iff.2 h.listed_nodup
    refine ((List.pairwise_insertionSort _ (listedSeqs files)).and hnodup).imp fun hab => ?_
    obtain ⟨hle, hne⟩ := hab
    omega
  mem := fun seq => (List.perm_insertionSort _ (listedSeqs files)).mem_iff.trans h.mem_listed

section Shelf

variable {maxBytes : Nat} {shelf : List (List Bytes)}

/-- A record goes behind all that are on the shelf. -/
theorem shelve_flatten (line : Option Bytes) : (shelve maxBytes shelf line).reverse.flatten =
    shelf.reverse.flatten ++ line.toList := by
  cases shelf with
  | nil => simp [shelve]
  | cons lines older =>
    simp only [shelve]
    split
    · simp
    · simp

theorem shelves_flatten (records : List (Option Bytes)) :
    (records.foldl (shelve maxBytes) shelf).reverse.flatten =
      shelf.reverse.flatten ++ records.filterMap id := by
  induction records generalizing shelf with
  | nil => simp
  | cons line rest ih =>
    rw [List.foldl_cons, ih, shelve_flatten, List.append_assoc]
    cases line with
    | none => rfl
    | some line => rfl

/-- The length of the last line of a file. -/
def lastLength (lines : List Bytes) : Nat := (lines.getLast?.map List.length).getD 0

/-- Without its last line no file is full. -/
def Bounded (maxBytes : Nat) (shelf : List (List Bytes)) : Prop :=
  ∀ lines ∈ shelf, lines.flatten.length < maxBytes + lastLength lines

theorem Bounded.shelve (h : Bounded maxBytes shelf) (hbytes : 0 < maxBytes)
    (line : Option Bytes) : Bounded maxBytes (shelve maxBytes shelf line) := by
  have hnew : line.toList.flatten.length < maxBytes + lastLength line.toList := by
    cases line with
    | none =>
      simp only [Option.toList_none, List.flatten_nil, List.length_nil]
      omega
    | some line =>
      simp only [Option.toList_some, List.flatten_cons, List.flatten_nil, List.append_nil,
        lastLength, List.getLast?_singleton, Option.map_some, Option.getD_some]
      omega
  intro lines hlines
  cases shelf with
  | nil =>
    rw [List.mem_singleton.1 hlines]
    exact hnew
  | cons active older =>
    simp only [Archive.shelve] at hlines
    split at hlines
    · rcases List.mem_cons.1 hlines with rfl | hmem
      · exact hnew
      · exact h lines hmem
    · rename_i hroom
      rcases List.mem_cons.1 hlines with rfl | hmem
      · cases line with
        | none =>
          rw [Option.toList_none, List.append_nil]
          exact h active List.mem_cons_self
        | some line =>
          simp only [Option.toList_some, List.flatten_append, List.flatten_cons,
            List.flatten_nil, List.append_nil, List.length_append, lastLength,
            List.getLast?_append, List.getLast?_singleton, Option.some_or, Option.map_some,
            Option.getD_some]
          omega
      · exact h lines (List.mem_cons_of_mem _ hmem)

theorem Bounded.shelves (h : Bounded maxBytes shelf) (hbytes : 0 < maxBytes)
    (records : List (Option Bytes)) :
    Bounded maxBytes (records.foldl (Archive.shelve maxBytes) shelf) := by
  induction records generalizing shelf with
  | nil => exact h
  | cons line rest ih => exact ih (h.shelve hbytes line)

end Shelf

/-- What a run leaves: its records in order over files that are none too long, and in
the directory the newest files, each with what was written to it. -/
structure Archived (host : Host) (options : SinkOptions) (batches : List (Int × List Entry))
    (initial : List (String × Bytes)) (w : Writer) : Prop where
  numbers : w.seq = newestSeq initial + (runFiles host options batches).length
  inOrder : (runFiles host options batches).flatten = (runLines host batches).filterMap id
  contents : ∀ i lines, (runFiles host options batches)[i]? = some lines →
    content (fileName (newestSeq initial + 1 + i)) w.disk.events = lines.flatten
  bounded : ∀ lines ∈ runFiles host options batches,
    lines.flatten.length < options.maxBytes + lastLength lines
  retained : archiveSeqs w.disk.files = (runSeqs (newestSeq initial)
    (runFiles host options batches).length ++ archiveSeqs initial).take options.maxFiles
  active : (w.disk.files.lookup (fileName w.seq)).isSome = true
  kept : Kept initial w.disk

theorem On.archived {host : Host} {options : SinkOptions} {batches : List (Int × List Entry)}
    {initial : List (String × Bytes)} {w : Writer} (hnamed : Named initial)
    (hbytes : 0 < options.maxBytes) (hfiles : 0 < options.maxFiles)
    (h : On initial (archiveSeqs initial) options w []
      ((runLines host batches).foldl (shelve options.maxBytes) [[]])) :
    Archived host options batches initial w := by
  have hnewest : (archiveSeqs initial).head?.getD 0 = newestSeq initial :=
    hnamed.numbered.newest.symm
  obtain ⟨lines, older, hshelf, h⟩ := h
  have hrun : runFiles host options batches = (lines :: older).reverse := by
    rw [runFiles, hshelf]
  have hlength : (runFiles host options batches).length = older.length + 1 := by
    rw [hrun, List.length_reverse, List.length_cons]
  have hseq := h.seq
  have hnumbered := h.numbered
  rw [hnewest] at hseq hnumbered
  rw [← hlength] at hseq hnumbered
  have hsorted : archiveSeqs w.disk.files = (runSeqs (newestSeq initial)
      (runFiles host options batches).length ++ archiveSeqs initial).take options.maxFiles :=
    insertionSort_eq hnumbered.listed_nodup hnumbered.descending fun _ => hnumbered.mem_listed
  exact {
    numbers := hseq
    inOrder := by
      rw [runFiles, shelves_flatten]
      rfl
    contents := by
      intro i group hgroup
      have hi := (List.getElem?_eq_some_iff.1 hgroup).1
      rw [hrun, List.getElem?_reverse (by rw [List.length_cons]; omega)] at hgroup
      cases hj : (lines :: older).length - 1 - i with
      | zero =>
        rw [hj] at hgroup
        have hlast : newestSeq initial + 1 + i = w.seq := by
          rw [List.length_cons] at hj
          omega
        have hactive := h.active
        rw [List.append_nil] at hactive
        rw [hlast, hactive, ← Option.some.inj hgroup]
      | succ j =>
        rw [hj] at hgroup
        have hclosed := h.closed j group hgroup
        have hnumber : newestSeq initial + 1 + i = w.seq - 1 - j := by
          rw [List.length_cons] at hj
          omega
        rw [hnumber, hclosed]
    bounded := by
      have hbounded : Bounded options.maxBytes [[]] := by
        intro lines hlines
        rw [List.mem_singleton.1 hlines]
        exact Nat.lt_of_lt_of_le hbytes (Nat.le_add_right _ _)
      intro group hgroup
      exact hbounded.shelves hbytes _ group (List.mem_reverse.1 hgroup)
    retained := hsorted
    active := by
      refine ((hnumbered.mem w.seq).1 ?_).2
      obtain ⟨k, hk⟩ : ∃ k, options.maxFiles = k + 1 := ⟨options.maxFiles - 1, by omega⟩
      rw [hk, hlength, runSeqs, List.cons_append, List.take_succ_cons, ← hlength, ← hseq]
      exact List.mem_cons_self
    kept := h.kept }

/-- A run whose numbers fit a `u64` leaves the archive as it should be; where they do not, a
build that checks for overflow panics. A name gives its number back. -/
theorem archive_bounded_suffix (host : Host) (options : SinkOptions) (disk : Disk)
    (batches : List (Int × List Entry)) (hbytes : 0 < options.maxBytes)
    (hfiles : 0 < options.maxFiles) (hsound : disk.Sound) (hevents : disk.events = [])
    (hnamed : Named disk.files) :
    (newestSeq disk.files + (runFiles host options batches).length < 2 ^ 64 →
      ∃ w, Writer.run host disk options batches = .ok w ∧
        Archived host options batches disk.files w) ∧
    (host.overflowChecks = true →
      ¬newestSeq disk.files + (runFiles host options batches).length < 2 ^ 64 →
      Writer.run host disk options batches = .error (.panic "attempt to add with overflow")) ∧
    ∀ seq < 2 ^ 64, fileSeq (fileName seq) = some seq := by
  have hnumbered := hnamed.numbered
  have hnewest : (archiveSeqs disk.files).head?.getD 0 = newestSeq disk.files :=
    hnumbered.newest.symm
  have hlength : (runFiles host options batches).length =
      ((runLines host batches).foldl (shelve options.maxBytes) [[]]).length :=
    List.length_reverse
  have hgrows := shelves_length options.maxBytes [[]] (runLines host batches)
  rw [List.length_singleton] at hgrows
  rw [hlength]
  by_cases hfirst : newestSeq disk.files + 1 < 2 ^ 64
  · obtain ⟨w, hopen, hholds⟩ := @opened _ options host disk hsound hevents hnumbered hfiles
      (by rwa [hnewest])
    have hrun : Writer.run host disk options batches =
        batches.foldlM (fun (w : Writer) batch => w.write host batch.1 batch.2) w := by
      rw [Writer.run, hopen]
      rfl
    have hleads : Leads host disk.files (archiveSeqs disk.files) options _ _ :=
      writes_lead hnumbered hfiles batches ⟨[], [], rfl, hholds⟩
    rw [hrun]
    refine ⟨?_, ?_, fun seq => fileSeq_fileName⟩
    · intro hfits
      obtain ⟨w', buffer, hresult, hon⟩ := hleads.fits (by rwa [hnewest])
      obtain ⟨hok, rfl⟩ := unbuffered_ok hresult
      exact ⟨w', hok, On.archived hnamed hbytes hfiles hon⟩
    · intro hchecks hfits
      exact unbuffered_error (hleads.panics hchecks (by rwa [hnewest]))
  · refine ⟨fun hfits => absurd (by omega) hfirst, ?_, fun seq => fileSeq_fileName⟩
    intro hchecks _
    obtain ⟨faults, hread, -⟩ := readSeqs_sound hsound
    have hnext : nextSeq host disk = .error (.panic "attempt to add with overflow") := by
      unfold nextSeq Host.successor
      have hfirst : ¬(listedSeqs disk.files).max?.getD 0 + 1 < 2 ^ 64 := hfirst
      rw [hread]
      simp only
      rw [if_neg hfirst, if_pos hchecks]
      rfl
    rw [Writer.run, Writer.openIn, hnext]
    rfl

/-! ## Two directories -/

/-- A host that can write gaps of one byte. -/
def gapHost (overflowChecks : Bool) : Host where
  json := fun record => match record with
    | .log _ => none
    | .gap _ dropped => some [dropped.toUInt8]
  overflowChecks := overflowChecks

def emptyDisk : Disk := ⟨[], [], []⟩

/-- Two records over two files of which the second is kept. -/
theorem two_gaps_archived : ∃ w, Writer.run (gapHost true) emptyDisk ⟨1, 1⟩
      [(0, [.gap 1]), (0, [.gap 2])] = .ok w ∧
    Archived (gapHost true) ⟨1, 1⟩ [(0, [.gap 1]), (0, [.gap 2])] emptyDisk.files w :=
  (archive_bounded_suffix (gapHost true) ⟨1, 1⟩ emptyDisk [(0, [.gap 1]), (0, [.gap 2])]
    (by decide) (by decide) (fun _ h => by cases h) rfl
    ⟨List.Pairwise.nil, fun _ _ h => by cases h⟩).1 (by decide +kernel)

/-- The file before the last number. -/
def lastDisk : Disk := ⟨[(fileName (2 ^ 64 - 2), [])], [], []⟩

/-- The second record needs a number that no `u64` has: a build that checks panics, and one
that wraps has more files than it may and the later record in the lower file. -/
theorem last_number_overflows :
    Writer.run (gapHost true) lastDisk ⟨1, 1⟩ [(0, [.gap 1]), (0, [.gap 2])] =
      .error (.panic "attempt to add with overflow") ∧
    (Writer.run (gapHost false) lastDisk ⟨1, 1⟩ [(0, [.gap 1]), (0, [.gap 2])]).map
      (fun w => w.disk.files) = .ok [(fileName 0, [2, 10]), (fileName (2 ^ 64 - 1), [1, 10])] :=
  ⟨by decide +kernel, by decide +kernel⟩

end Chimera.Log.Archive
