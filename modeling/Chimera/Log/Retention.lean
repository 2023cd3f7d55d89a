import Chimera.Log.Archive

/-! The archive's directory: names that give their numbers back, and what each operation
does to the files that are numbered. -/

namespace Chimera.Log.Archive
open Chimera.Lib Chimera.Lib.Utf8 Chimera.Lib.Fields

/-! ## Names -/

theorem ofDigitChars_padded (width n : Nat) : Nat.ofDigitChars 10 (padded width n) 0 = n := by
  rw [padded, Nat.ofDigitChars_append, Nat.ofDigitChars_replicate_zero, Nat.mul_zero]
  exact Nat.ofDigitChars_toDigits (by decide) (by decide)

theorem isDigit_of_mem_padded {width n : Nat} {c : Char} (h : c ∈ padded width n) :
    c.isDigit = true := by
  rcases List.mem_append.1 h with hzero | hdecimal
  · rw [List.eq_of_mem_replicate hzero]
    rfl
  · exact isDigit_of_mem_decimal hdecimal

theorem padded_ne_nil (width n : Nat) : padded width n ≠ [] := by
  intro h
  exact Nat.toDigits_ne_nil (List.append_eq_nil_iff.1 h).2

theorem parseUnsigned_digits {bound : Nat} {digits : Text} (hne : digits ≠ [])
    (hall : ∀ c ∈ digits, c.isDigit = true) (hlt : Nat.ofDigitChars 10 digits 0 < bound) :
    parseUnsigned bound digits = some (Nat.ofDigitChars 10 digits 0) := by
  rw [parseUnsigned_eq_some]
  exact ⟨hlt, digits, .inl rfl, hne, hall, rfl⟩

/-- A file's number is read back from its name. -/
theorem fileSeq_fileName {seq : Nat} (h : seq < 2 ^ 64) : fileSeq (fileName seq) = some seq := by
  have hstart : filePrefix.isPrefixOf (fileName seq).toList = true := by
    rw [fileName, String.toList_ofList, List.isPrefixOf_iff_prefix, List.append_assoc]
    exact List.prefix_append _ _
  have hrest : (fileName seq).toList.drop filePrefix.length = padded 6 seq ++ fileSuffix := by
    rw [fileName, String.toList_ofList, List.append_assoc, List.drop_left]
  have hsuffix : fileSuffix.isSuffixOf (padded 6 seq ++ fileSuffix) = true :=
    List.isSuffixOf_iff_suffix.2 (List.suffix_append _ _)
  have hdigits : (padded 6 seq ++ fileSuffix).take
      ((padded 6 seq ++ fileSuffix).length - fileSuffix.length) = padded 6 seq := by
    rw [List.length_append, Nat.add_sub_cancel, List.take_left]
  have hall : ∀ c ∈ padded 6 seq, c.isDigit = true := fun c hc => isDigit_of_mem_padded hc
  have hvalue : parseUnsigned (2 ^ 64) (padded 6 seq) = some seq := by
    rw [parseUnsigned_digits (padded_ne_nil 6 seq) hall, ofDigitChars_padded]
    rwa [ofDigitChars_padded]
  have hgood : ((padded 6 seq).isEmpty || !(padded 6 seq).all Char.isDigit) = false := by
    rw [List.all_eq_true.2 hall]
    simp [padded_ne_nil]
  unfold fileSeq
  simp only [hstart, hrest, hsuffix, hdigits, hgood, if_true]
  exact hvalue

theorem fileName_inj {a b : Nat} (ha : a < 2 ^ 64) (hb : b < 2 ^ 64) :
    fileName a = fileName b ↔ a = b := by
  constructor
  · intro h
    have hseq := fileSeq_fileName ha
    rw [h, fileSeq_fileName hb] at hseq
    exact (Option.some.inj hseq).symm
  · exact congrArg fileName

/-! ## Descending numbers -/

section Descending

variable {l L : List Nat}

/-- Numbers without repetition have one descending order. -/
theorem insertionSort_eq (hl : l.Nodup) (hL : L.Pairwise (· > ·)) (hmem : ∀ n, n ∈ l ↔ n ∈ L) :
    l.insertionSort (· ≥ ·) = L := by
  have hnodup : L.Nodup := hL.imp fun h => Nat.ne_of_gt h
  have hperm : (l.insertionSort (· ≥ ·)).Perm L :=
    (List.perm_insertionSort _ l).trans ((List.perm_ext_iff_of_nodup hl hnodup).2 hmem)
  refine List.Perm.eq_of_pairwise ?_ (List.pairwise_insertionSort _ l)
    (hL.imp fun h => Nat.le_of_lt h) hperm
  intro a b _ _ hab hba
  exact Nat.le_antisymm hba hab

theorem max_eq_head (hL : L.Pairwise (· > ·)) (hmem : ∀ n, n ∈ l ↔ n ∈ L) :
    l.max?.getD 0 = L.head?.getD 0 := by
  cases L with
  | nil =>
    have hnil : l = [] := List.eq_nil_iff_forall_not_mem.2 fun n hn => by
      rw [hmem] at hn
      cases hn
    rw [hnil]
    rfl
  | cons a rest =>
    have hmax : l.max? = some a := by
      rw [List.max?_eq_some_iff]
      refine ⟨(hmem a).2 List.mem_cons_self, ?_⟩
      intro n hn
      rcases List.mem_cons.1 ((hmem n).1 hn) with rfl | hrest
      · exact Nat.le_refl _
      · exact Nat.le_of_lt ((List.pairwise_cons.1 hL).1 n hrest)
    rw [hmax]
    rfl

end Descending

/-! ## The directory -/

/-- All operations to come succeed. -/
def Disk.Sound (disk : Disk) : Prop := ∀ fault ∈ disk.faults, fault = none

/-- The archive files of a directory are named as this writer names them. -/
structure Named (files : List (String × Bytes)) : Prop where
  ordered : Keyed.Ordered files
  named : ∀ name seq, (files.lookup name).isSome = true → fileSeq name = some seq →
    name = fileName seq

/-- The numbers of the archive files that are listed. -/
def listedSeqs (files : List (String × Bytes)) : List Nat :=
  (files.map Prod.fst).filterMap fileSeq

/-- These are the numbers of the archive files, the newest first. -/
structure Numbered (files : List (String × Bytes)) (seqs : List Nat) : Prop
    extends Named files where
  descending : seqs.Pairwise (· > ·)
  mem : ∀ seq, seq ∈ seqs ↔ seq < 2 ^ 64 ∧ (files.lookup (fileName seq)).isSome = true

theorem parseUnsigned_lt {bound n : Nat} {text : Text} (h : parseUnsigned bound text = some n) :
    n < bound := (parseUnsigned_eq_some.1 h).lt

theorem fileSeq_lt {name : String} {seq : Nat} (h : fileSeq name = some seq) : seq < 2 ^ 64 := by
  unfold fileSeq at h
  simp only at h
  split at h
  · split at h
    · split at h
      · cases h
      · exact parseUnsigned_lt h
    · cases h
  · cases h

section Directory

variable {disk : Disk} {files files' : List (String × Bytes)} {seqs : List Nat} {seq : Nat}
  {name : String}

theorem Named.mem_listed (h : Named files) :
    seq ∈ listedSeqs files ↔ seq < 2 ^ 64 ∧ (files.lookup (fileName seq)).isSome = true := by
  rw [listedSeqs, List.mem_filterMap]
  constructor
  · intro hlisted
    obtain ⟨name, hname, hseq⟩ := hlisted
    have hpresent := Keyed.mem_keys_iff.1 hname
    rw [← h.named name seq hpresent hseq]
    exact ⟨fileSeq_lt hseq, hpresent⟩
  · intro hpresent
    obtain ⟨hlt, hpresent⟩ := hpresent
    exact ⟨fileName seq, Keyed.mem_keys_iff.2 hpresent, fileSeq_fileName hlt⟩

theorem Named.listed_nodup (h : Named files) : (listedSeqs files).Nodup := by
  have hnames : (files.map Prod.fst).Pairwise (· < ·) := List.pairwise_map.2 h.ordered
  refine List.pairwise_filterMap.2 (hnames.imp_of_mem ?_)
  intro a b ha hb hlt i hi j hj heq
  rw [h.named a i (Keyed.mem_keys_iff.1 ha) hi, h.named b j (Keyed.mem_keys_iff.1 hb) hj, heq]
    at hlt
  exact absurd hlt (lt_irrefl _)

theorem Numbered.mem_listed (h : Numbered files seqs) : seq ∈ listedSeqs files ↔ seq ∈ seqs :=
  h.toNamed.mem_listed.trans (h.mem seq).symm

theorem Numbered.pruned (h : Numbered files seqs) (keep : Nat) :
    pruneTargets (listedSeqs files) keep = seqs.drop keep := by
  rw [pruneTargets, insertionSort_eq h.listed_nodup h.descending fun _ => h.mem_listed]

theorem Numbered.newest (h : Numbered files seqs) :
    (listedSeqs files).max?.getD 0 = seqs.head?.getD 0 :=
  max_eq_head h.descending fun _ => h.mem_listed

/-- Only what is there, and how it is numbered, matters. -/
theorem Numbered.congr (h : Numbered files seqs) (hordered : Keyed.Ordered files')
    (hsame : ∀ name, (files'.lookup name).isSome = (files.lookup name).isSome) :
    Numbered files' seqs where
  ordered := hordered
  named := fun name seq hpresent => h.named name seq (by rwa [← hsame name])
  descending := h.descending
  mem := fun seq => by rw [h.mem, hsame]

theorem next_sound (h : disk.Sound) : ∃ faults, disk.next = (none, { disk with faults }) ∧
    Disk.Sound { disk with faults } := by
  unfold Disk.next
  cases hfaults : disk.faults with
  | nil =>
    refine ⟨disk.faults, rfl, h⟩
  | cons fault rest =>
    obtain rfl := h fault (by rw [hfaults]; exact List.mem_cons_self)
    refine ⟨rest, rfl, fun fault hfault => h fault ?_⟩
    rw [hfaults]
    exact List.mem_cons_of_mem _ hfault

theorem readSeqs_sound (h : disk.Sound) : ∃ faults,
    readSeqs disk = (some (listedSeqs disk.files), { disk with faults }) ∧
      Disk.Sound { disk with faults } := by
  obtain ⟨faults, hnext, hsound⟩ := next_sound h
  refine ⟨faults, ?_, hsound⟩
  simp only [readSeqs, Disk.readDir, hnext]
  rfl

/-- From one disk to the next these archive files are removed and nothing else is done. -/
structure Removes (gone : List Nat) (disk disk' : Disk) : Prop where
  sound : disk'.Sound
  ordered : Keyed.Ordered disk'.files
  lookup : ∀ name, disk'.files.lookup name =
    if ∃ seq ∈ gone, name = fileName seq then none else disk.files.lookup name
  events : ∃ removed : List Nat, (∀ seq ∈ removed, seq ∈ gone) ∧
    disk'.events = removed.map (fun seq => .removed (fileName seq)) ++ disk.events

theorem removeFile_sound (h : disk.Sound) (hordered : Keyed.Ordered disk.files) :
    Removes [seq] disk (disk.removeFile (fileName seq)) := by
  obtain ⟨faults, hnext, hsound⟩ := next_sound h
  have hgone (name : String) : (∃ n ∈ [seq], name = fileName n) ↔ name = fileName seq := by simp
  unfold Disk.removeFile
  simp only [hnext, Option.isNone_none, Bool.true_and]
  split
  · refine ⟨hsound, hordered.remove, ?_, [seq], by simp, rfl⟩
    intro name
    simp only [hgone]
    exact Keyed.lookup_remove
  · rename_i habsent
    refine ⟨hsound, hordered, ?_, [], by simp, rfl⟩
    intro name
    simp only [hgone]
    split
    · rename_i hname
      rw [hname]
      exact Option.not_isSome_iff_eq_none.1 habsent
    · rfl

theorem Removes.nil (h : disk.Sound) (hordered : Keyed.Ordered disk.files) :
    Removes [] disk disk where
  sound := h
  ordered := hordered
  lookup := fun name => by simp
  events := ⟨[], by simp, rfl⟩

theorem Removes.trans {gone gone' : List Nat} {disk' disk'' : Disk} (h : Removes gone disk disk')
    (h' : Removes gone' disk' disk'') : Removes (gone ++ gone') disk disk'' where
  sound := h'.sound
  ordered := h'.ordered
  lookup := by
    intro name
    rw [h'.lookup, h.lookup]
    simp only [List.mem_append, or_and_right, exists_or]
    by_cases hgone : ∃ seq ∈ gone, name = fileName seq
    · simp [hgone]
    · simp [hgone]
  events := by
    obtain ⟨removed, hmem, hevents⟩ := h.events
    obtain ⟨removed', hmem', hevents'⟩ := h'.events
    refine ⟨removed' ++ removed, ?_, ?_⟩
    · intro seq hseq
      rcases List.mem_append.1 hseq with hlater | hearlier
      · exact List.mem_append_right _ (hmem' seq hlater)
      · exact List.mem_append_left _ (hmem seq hearlier)
    · rw [hevents', hevents, List.map_append, List.append_assoc]

theorem removeFiles_sound (gone : List Nat) (h : disk.Sound) (hordered : Keyed.Ordered disk.files) :
    Removes gone disk (gone.foldl (fun disk seq => disk.removeFile (fileName seq)) disk) := by
  induction gone generalizing disk with
  | nil => exact .nil h hordered
  | cons seq rest ih =>
    have hone : Removes [seq] disk (disk.removeFile (fileName seq)) :=
      removeFile_sound h hordered
    exact hone.trans (ih hone.sound hone.ordered)

/-- What pruning removes. -/
theorem pruneDir_removes (h : disk.Sound) (hnumbered : Numbered disk.files seqs) (keep : Nat)
    (protect : Option Nat) : Removes ((seqs.drop keep).filter fun seq => some seq ≠ protect) disk
      (pruneDir disk keep protect) := by
  obtain ⟨faults, hread, hsound⟩ := readSeqs_sound h
  have hremoves := removeFiles_sound ((seqs.drop keep).filter fun seq => some seq ≠ protect) hsound
    hnumbered.ordered
  unfold pruneDir
  rw [hread]
  simp only [hnumbered.pruned]
  exact ⟨hremoves.sound, hremoves.ordered, hremoves.lookup, hremoves.events⟩

/-- Files that are numbered stay so; those that remain are the others. -/
theorem Removes.numbered {gone kept : List Nat} {disk' : Disk} (h : Removes gone disk disk')
    (hnumbered : Numbered disk.files seqs) (hkept : kept.Sublist seqs)
    (hgone : ∀ seq, seq ∈ gone ↔ seq ∈ seqs ∧ seq ∉ kept) : Numbered disk'.files kept where
  ordered := h.ordered
  named := by
    intro name seq hpresent
    rw [h.lookup] at hpresent
    split at hpresent
    · cases hpresent
    · exact hnumbered.named name seq hpresent
  descending := hnumbered.descending.sublist hkept
  mem := by
    intro seq
    constructor
    · intro hseq
      obtain ⟨hlt, hpresent⟩ := (hnumbered.mem seq).1 (hkept.subset hseq)
      refine ⟨hlt, ?_⟩
      rw [h.lookup, if_neg]
      · exact hpresent
      · intro hremoved
        obtain ⟨other, hother, hname⟩ := hremoved
        obtain ⟨hmem, hnot⟩ := (hgone other).1 hother
        obtain rfl := (fileName_inj hlt ((hnumbered.mem other).1 hmem).1).1 hname
        exact hnot hseq
    · intro hpresent
      obtain ⟨hlt, hpresent⟩ := hpresent
      rw [h.lookup] at hpresent
      split at hpresent
      · cases hpresent
      · rename_i hgone'
        have hmem := (hnumbered.mem seq).2 ⟨hlt, hpresent⟩
        by_contra hnot
        exact hgone' ⟨seq, (hgone seq).2 ⟨hmem, hnot⟩, rfl⟩

/-- Pruning that protects nothing keeps the newest. -/
theorem pruneDir_newest (h : disk.Sound) (hnumbered : Numbered disk.files seqs) (keep : Nat) :
    Numbered (pruneDir disk keep none).files (seqs.take keep) := by
  refine (pruneDir_removes h hnumbered keep none).numbered hnumbered (List.take_sublist _ _) ?_
  intro seq
  have hnodup : seqs.Nodup := hnumbered.descending.imp fun h => by omega
  have hsplit := List.take_append_drop keep seqs
  rw [← hsplit, List.nodup_append'] at hnodup
  simp only [List.mem_filter, ne_eq, reduceCtorEq, not_false_eq_true, decide_true, and_true]
  constructor
  · intro hdrop
    exact ⟨List.mem_of_mem_drop hdrop, fun htake => hnodup.2.2 htake hdrop⟩
  · intro hmem
    obtain ⟨hmem, hnot⟩ := hmem
    rw [← hsplit] at hmem
    exact (List.mem_append.1 hmem).resolve_left hnot

/-- Pruning that protects the newest keeps it whatever the budget. -/
theorem pruneDir_active (h : disk.Sound) (hnumbered : Numbered disk.files (seq :: seqs))
    (keep : Nat) :
    Numbered (pruneDir disk keep (some seq)).files (seq :: seqs.take (keep - 1)) := by
  have hnodup : (seq :: seqs).Nodup := hnumbered.descending.imp fun h => by omega
  obtain ⟨hfresh, hrest⟩ := List.nodup_cons.1 hnodup
  refine (pruneDir_removes h hnumbered keep (some seq)).numbered hnumbered
    ((List.take_sublist _ _).cons_cons _) ?_
  intro n
  simp only [List.mem_filter, decide_eq_true_eq, List.mem_cons, not_or, ne_eq, Option.some.injEq]
  cases keep with
  | zero =>
    have hnil : seqs.take (0 - 1) = [] := List.take_zero
    rw [List.drop_zero, hnil]
    constructor
    · intro hgone
      obtain ⟨hmem, hother⟩ := hgone
      exact ⟨List.mem_cons.1 hmem, fun heq => hother heq, List.not_mem_nil⟩
    · intro hgone
      obtain ⟨hmem, hother, -⟩ := hgone
      exact ⟨List.mem_cons.2 hmem, fun heq => hother heq⟩
  | succ k =>
    rw [List.drop_succ_cons, Nat.add_sub_cancel]
    have hsplit := List.take_append_drop k seqs
    rw [← hsplit, List.nodup_append'] at hrest
    constructor
    · intro hgone
      obtain ⟨hdrop, hother⟩ := hgone
      exact ⟨.inr (List.mem_of_mem_drop hdrop), fun heq => hother heq,
        fun htake => hrest.2.2 htake hdrop⟩
    · intro hgone
      obtain ⟨hmem, hother, hnot⟩ := hgone
      have hlater := hmem.resolve_left hother
      rw [← hsplit] at hlater
      exact ⟨(List.mem_append.1 hlater).resolve_left hnot, fun heq => hother heq⟩

/-- A file with a number above all others is created as the newest. -/
structure Creates (disk disk' : Disk) (seq : Nat) : Prop where
  sound : disk'.Sound
  lookup : ∀ name, disk'.files.lookup name =
    if name = fileName seq then some [] else disk.files.lookup name
  events : disk'.events = .created (fileName seq) :: disk.events

theorem create_newest (h : disk.Sound) (hnumbered : Numbered disk.files seqs)
    (hlt : seq < 2 ^ 64) (hnew : ∀ n ∈ seqs, n < seq) : ∃ disk', create disk seq = (true, disk') ∧
      Creates disk disk' seq ∧ Numbered disk'.files (seq :: seqs) := by
  obtain ⟨faults, hnext, hsound⟩ := next_sound h
  have habsent : disk.files.lookup (fileName seq) = none := by
    rw [← Option.not_isSome_iff_eq_none]
    intro hpresent
    have hmem := (hnumbered.mem seq).2 ⟨hlt, hpresent⟩
    exact absurd (hnew seq hmem) (Nat.lt_irrefl _)
  have hlookup : ∀ name, (Keyed.put disk.files (fileName seq) []).lookup name =
      if name = fileName seq then some [] else disk.files.lookup name :=
    fun name => Keyed.lookup_put
  refine ⟨{ disk with files := Keyed.put disk.files (fileName seq) [],
                      events := .created (fileName seq) :: disk.events, faults }, ?_,
    ⟨hsound, hlookup, rfl⟩, ?_⟩
  · unfold create Disk.openAppend
    simp only [hnext, Option.isSome_none, habsent]
    rfl
  · refine ⟨⟨hnumbered.ordered.put, ?_⟩,
      List.pairwise_cons.2 ⟨hnew, hnumbered.descending⟩, ?_⟩
    · intro name n hpresent hseq
      simp only [hlookup] at hpresent
      by_cases hname : name = fileName seq
      · rw [hname, fileSeq_fileName hlt] at hseq
        rw [hname, Option.some.inj hseq]
      · rw [if_neg hname] at hpresent
        exact hnumbered.named name n hpresent hseq
    · intro n
      rw [List.mem_cons, hnumbered.mem]
      simp only [hlookup]
      have hother (hbound : n < 2 ^ 64) (hn : n ≠ seq) : fileName n ≠ fileName seq :=
        fun heq => hn ((fileName_inj hbound hlt).1 heq)
      constructor
      · intro hmem
        rcases hmem with rfl | ⟨hbound, hpresent⟩
        · exact ⟨hlt, by rw [if_pos rfl]; rfl⟩
        · refine ⟨hbound, ?_⟩
          split
          · rfl
          · exact hpresent
      · intro hmem
        obtain ⟨hbound, hpresent⟩ := hmem
        by_cases hn : n = seq
        · exact .inl hn
        · rw [if_neg (hother hbound hn)] at hpresent
          exact .inr ⟨hbound, hpresent⟩

/-- These bytes are appended to a file, and nothing else is done. -/
structure Appends (disk disk' : Disk) (name : String) (bytes : Bytes) : Prop where
  sound : disk'.Sound
  ordered : Keyed.Ordered disk'.files
  lookup : ∀ other, disk'.files.lookup other =
    if other = name then (disk.files.lookup name).map (· ++ bytes) else disk.files.lookup other
  events : disk'.events = .wrote name bytes :: disk.events

theorem writeAll_sound (h : disk.Sound) (hordered : Keyed.Ordered disk.files) (name : String)
    (bytes : Bytes) : ∃ disk', disk.writeAll name bytes = (true, disk') ∧
      Appends disk disk'.flush name bytes := by
  obtain ⟨faults, hnext, hsound⟩ := next_sound h
  have happended : Disk.Sound (Disk.append { disk with faults } name bytes) := hsound
  obtain ⟨faults', hnext', hsound'⟩ := next_sound happended
  refine ⟨Disk.append { disk with faults } name bytes, by simp only [Disk.writeAll, hnext], ?_⟩
  unfold Disk.flush
  rw [hnext']
  refine ⟨hsound', ?_, ?_, rfl⟩
  · simp only [Disk.append]
    split
    · exact hordered.put
    · exact hordered
  · intro other
    simp only [Disk.append]
    cases hold : disk.files.lookup name with
    | none =>
      by_cases hother : other = name
      · rw [if_pos hother, hother, hold]
        rfl
      · rw [if_neg hother]
    | some old => exact Keyed.lookup_put

theorem Appends.numbered {disk' : Disk} {bytes : Bytes} (h : Appends disk disk' name bytes)
    (hnumbered : Numbered disk.files seqs) : Numbered disk'.files seqs := by
  refine hnumbered.congr h.ordered fun other => ?_
  rw [h.lookup]
  split
  · rename_i hother
    rw [hother, Option.isSome_map]
  · rfl

end Directory

end Chimera.Log.Archive
