import Chimera.Config.Classify
import Chimera.Manager.Apply

/-! Changes that are made in place keep the process and its control channel: two plans
of one epoch that are classified as anything but a switch run the same process and
are reached in the same way. -/

namespace Chimera.Config
open Chimera.Model Chimera.Manager Chimera.Lib.Program

/-! ## Documents that change in place -/

section Documents

variable {addresses : Addresses} {current desired : Mapping} {change : Change} {field : String}

theorem controller_not_patched : ∀ field ∈ controllerFields, field ∉ patchFields := by decide

theorem controller_not_reloaded : ∀ field ∈ controllerFields, field ∉ reloadFields := by decide

/-- A field that no change may touch in place is the same in both documents. -/
theorem get_eq_of_entries (hcurrent : current.Canonical) (hdesired : desired.Canonical)
    {allowed : List String} (hfield : field ∉ allowed)
    (h : ∀ entry ∈ diff current desired, entry.path.head?.any allowed.contains = true) :
    current.get field = desired.get field := by
  by_contra hne
  obtain ⟨entry, hentry, rest, hpath⟩ := exists_entry_of_ne hcurrent hdesired hne
  have hallowed := h entry hentry
  rw [hpath, List.head?_cons, Option.any_some, List.contains_iff_mem] at hallowed
  exact hfield hallowed

theorem classifyDocuments_keeps (hcurrent : current.Canonical) (hdesired : desired.Canonical)
    (h : classifyDocuments addresses current desired = .ok change) (hchange : change ≠ .switch) :
    dnsListen current = dnsListen desired ∧
      ∀ field ∈ controllerFields, current.get field = desired.get field := by
  unfold classifyDocuments at h
  split at h
  · cases h
    exact absurd rfl hchange
  · rename_i hlisten
    refine ⟨not_not.1 hlisten, ?_⟩
    intro field hfield
    simp only at h
    split at h
    · rename_i hnil
      have hsame := (diff_eq_nil_iff hcurrent hdesired).1 (List.isEmpty_iff.1 hnil)
      rw [hsame]
    · split at h
      · rename_i hpatchable
        refine get_eq_of_entries hcurrent hdesired (controller_not_patched field hfield) ?_
        intro entry hentry
        have hentry' := List.all_eq_true.1 hpatchable entry hentry
        simp only [patchable, Bool.and_eq_true] at hentry'
        exact hentry'.1.2
      · split at h
        · rename_i hreloadable
          refine get_eq_of_entries hcurrent hdesired (controller_not_reloaded field hfield) ?_
          intro entry hentry
          have hentry' := List.all_eq_true.1 hreloadable entry hentry
          simp only [reloadable, Bool.and_eq_true] at hentry'
          exact hentry'.1.1
        · cases h
          exact absurd rfl hchange

end Documents

/-! ## Plans -/

/-- Nothing that a process is started with differs. -/
structure SameProcess (current desired : InstanceSpec) : Prop where
  kind : current.core.kind = desired.core.kind
  binaryPath : current.core.binaryPath = desired.core.binaryPath
  version : current.core.version = desired.core.version
  features : current.core.features = desired.core.features
  workingDir : current.workingDir = desired.workingDir
  startupTimeout : current.options.startupTimeout = desired.options.startupTimeout
  health : current.options.health = desired.options.health
  restartPolicy : current.options.restartPolicy = desired.options.restartPolicy
  backoff : current.options.backoff = desired.options.backoff

theorem processSpecChanged_eq_false {current desired : InstanceSpec}
    (h : processSpecChanged current desired = false) : SameProcess current desired := by
  simp only [processSpecChanged, Bool.or_eq_false_iff, decide_eq_false_iff_not, not_not] at h
  obtain ⟨⟨⟨⟨⟨⟨⟨⟨h₁, h₂⟩, h₃⟩, h₄⟩, h₅⟩, h₆⟩, h₇⟩, h₈⟩, h₉⟩ := h
  exact ⟨h₁, h₂, h₃, h₄, h₅, h₆, h₇, h₈, h₉⟩

theorem classify_keeps {addresses : Addresses} {current desired : ClassificationView Document}
    {change : Change} (h : classify addresses current desired = .ok change)
    (hchange : change ≠ .switch) :
    SameProcess current.spec desired.spec ∧
      dnsListen current.effective.entries = dnsListen desired.effective.entries ∧
      ∀ field ∈ controllerFields, current.effective.get field = desired.effective.get field := by
  unfold classify at h
  split at h
  · cases h
    exact absurd rfl hchange
  · rename_i hspec
    refine ⟨processSpecChanged_eq_false (by simpa using hspec), ?_⟩
    simp only at h
    split at h
    · split at h
      · rename_i hempty
        have hnil := List.isEmpty_iff.1 ((Bool.and_eq_true _ _).mp hempty).2
        have hsame := (diff_eq_nil_iff current.effective.canonical
          desired.effective.canonical).1 hnil
        exact ⟨by rw [hsame], fun field _ => by rw [Document.get, Document.get, hsame]⟩
      · cases h
        exact absurd rfl hchange
    · split at h
      · cases h
        exact absurd rfl hchange
      · exact classifyDocuments_keeps current.effective.canonical desired.effective.canonical h
          hchange

/-- A plan as the manager prepares it for an epoch. -/
def Planned (setup : Setup Document) (epoch : Epoch) (plan : EpochPlan Document) : Prop :=
  ∃ spec snapshot resolved generation runtimePath full prepared,
    setup.prepareFull snapshot epoch resolved.runtime (localIpcSettings setup spec) = .ok full ∧
      nativePaths setup spec full = .ok prepared ∧
      plan = planFor setup spec epoch generation runtimePath resolved snapshot prepared

section Preparing

variable {A α β : Type} {R : Reading (Op Document) A} {a : A} {setup : Setup Document}
  {P : β → Prop}

/-- A property of what a program returns, if it returns a value. -/
abbrev Returns (R : Reading (Op Document) A) (p : Control Document β) (P : β → Prop) (a : A) :
    Prop :=
  p.wp R (fun r _ => ∀ x, r = .ok x → P x) a

theorem Returns.after (hR : ∀ {β : Type} (op : Op Document β) (a : A), R.pre op a)
    {p : Control Document α} {f : α → Control Document β}
    (hf : ∀ x a', Returns R (f x) P a') : Returns R (p >>= f) P a :=
  Prog.wp_seq (Prog.wp_true hR) (fun _ _ _ => nofun) fun x a' _ => hf x a'

theorem Returns.computed {r : Except Error α} {f : α → Control Document β}
    (hf : ∀ x, r = .ok x → Returns R (f x) P a) : Returns R (Prog.ret r >>= f) P a := by
  cases r with
  | error e => exact nofun
  | ok x => exact hf x rfl

/-- The plans of a launch and of a change are prepared so. -/
theorem prepareLaunch_planned (hR : ∀ {β : Type} (op : Op Document β) (a : A), R.pre op a)
    {spec : InstanceSpec} {epoch : Epoch} {snapshot : Snapshot Document} :
    Returns R (prepareLaunch setup spec epoch snapshot) (Planned setup epoch) a := by
  refine Returns.after hR fun _ _ => Returns.after hR fun resolved _ => ?_
  refine Returns.computed fun full hfull => Returns.computed fun prepared hprepared => ?_
  refine Returns.after hR fun staged _ => Returns.after hR fun _ _ => Returns.after hR ?_
  intro runtimePath a' plan hplan
  cases hplan
  exact ⟨spec, snapshot, resolved, 1, runtimePath, full, prepared, hfull, hprepared, rfl⟩

theorem prepareApply_planned (hR : ∀ {β : Type} (op : Op Document β) (a : A), R.pre op a)
    {current : Active Document} {input : InstanceSpec} {snapshot : Snapshot Document} :
    Returns R (prepareApply setup current input snapshot)
      (fun prepared => Planned setup current.plan.revision.epoch prepared.plan) a := by
  refine Returns.after hR fun _ _ => Returns.after hR fun resolved _ => ?_
  refine Returns.computed fun full hfull => Returns.computed fun prepared hprepared => ?_
  refine Returns.after hR fun staged _ => Returns.after hR fun _ _ => Returns.after hR ?_
  intro generation a' result hresult
  cases hresult
  exact ⟨input, snapshot, resolved, generation, _, full, prepared, hfull, hprepared, rfl⟩

end Preparing

/-! ## The control channel -/

section Channel

variable {platform : Platform} {addresses : Addresses} {dataDir : Option Utf8Path}
  {setup : Setup Document} {epoch : Epoch} {document document' : Mapping}

/-- Where the controller is depends on its fields only. -/
theorem inspect_congr (platform : Platform)
    (h : ∀ field ∈ controllerFields, document.get field = document'.get field) :
    inspect platform document = inspect platform document' ∧
      inspectHttp document = inspectHttp document' := by
  have hvalue : ∀ field ∈ controllerFields, strValue document field = strValue document' field := by
    intro field hfield
    rw [strValue, strValue, h field hfield]
  have hhttp := hvalue externalController (by decide)
  have hpipe := hvalue externalControllerPipe (by decide)
  have hunix := hvalue externalControllerUnix (by decide)
  have hsecret := hvalue secretField (by decide)
  constructor
  · rw [inspect, inspect, hhttp, hpipe, hunix, hsecret]
  · rw [inspectHttp, inspectHttp, hhttp, hsecret]

/-- The local transport of a prepared document is there exactly where the manager
manages it. -/
theorem effective_local {source document : Document} {runtime : Finset RuntimeFeature}
    {settings : LocalIpcSettings} {zero : Bool}
    (h : effective platform source epoch runtime (some settings) zero = .ok document) :
    (document.get platform.localField).isSome = decide (RuntimeFeature.localIpc ∈ runtime) := by
  unfold effective at h
  simp only at h
  split at h
  · rename_i hlocal
    cases hendpoint : platform.endpoint epoch with
    | error e =>
      rw [hendpoint] at h
      cases h
    | ok endpoint =>
      rw [hendpoint] at h
      rw [← Except.ok.inj h, decide_eq_true hlocal]
      change (Mapping.get (rewriteManagedController _ _ _ _) _).isSome = true
      rw [get_rewriteManagedController, if_pos rfl]
      rfl
  · rename_i hlocal
    rw [← Except.ok.inj h, decide_eq_false hlocal]
    change (Mapping.get (Mapping.remove (Mapping.remove _ _) _) _).isSome = false
    rw [Mapping.get_remove, Mapping.get_remove]
    unfold Platform.localField
    split
    · rw [if_neg (by decide), if_pos rfl]
      rfl
    · rw [if_pos rfl]
      rfl

/-- How a planned runtime is reached, read off its effective document. -/
theorem planned_channel {plan : EpochPlan Document}
    (h : Planned (configured platform addresses dataDir setup) epoch plan) :
    resolveController platform (if (plan.effectiveDocument.get platform.localField).isSome then
      inspect platform plan.effectiveDocument.entries
      else inspectHttp plan.effectiveDocument.entries) = .ok plan.controller := by
  obtain ⟨spec, snapshot, resolved, generation, runtimePath, full, prepared, hfull, hnative, rfl⟩ := h
  obtain ⟨heffective, hcontroller⟩ := prepare_ok hfull
  -- rewriting paths leaves the controller's fields alone
  have hsame : prepared.controller = full.controller ∧ ∀ field ∈ controllerFields,
      prepared.document.get field = full.document.get field := by
    cases dataDir with
    | none =>
      cases hnative
      exact ⟨rfl, fun _ _ => rfl⟩
    | some source =>
      obtain ⟨hdocument, hcontroller⟩ := prepareNative_ok hnative
      refine ⟨hcontroller, ?_⟩
      intro field hfield
      have hpaths : ∀ field ∈ controllerFields, field ∉ pathFields := by decide
      rw [hdocument]
      exact get_rewritePaths (hpaths field hfield)
  obtain ⟨hplanned, hfields⟩ := hsame
  have hinspect := inspect_congr platform hfields
  have hlocal : (prepared.document.get platform.localField).isSome =
      decide (RuntimeFeature.localIpc ∈ resolved.runtime) := by
    rw [hfields _ (by unfold Platform.localField; split <;> decide)]
    exact effective_local heffective
  change resolveController platform (if (prepared.document.get platform.localField).isSome then
    inspect platform prepared.document.entries else inspectHttp prepared.document.entries) =
      .ok prepared.controller
  rw [hplanned, ← hcontroller, hlocal, hinspect.1, hinspect.2]
  by_cases hruntime : RuntimeFeature.localIpc ∈ resolved.runtime
  · simp [hruntime]
  · simp [hruntime]

end Channel

/-- Two plans of one epoch, prepared by one manager, that are not classified as a
switch: the process, `dns.listen`, the controller's fields and the way to the
controller are the same. -/
theorem in_place_keeps_channel (platform : Platform) (addresses : Addresses)
    (dataDir : Option Utf8Path) (setup : Setup Document) (epoch : Epoch)
    (current desired : EpochPlan Document)
    (hcurrent : Planned (configured platform addresses dataDir setup) epoch current)
    (hdesired : Planned (configured platform addresses dataDir setup) epoch desired)
    (change : ConfigChange)
    (h : (configured platform addresses dataDir setup).classify current.classificationView
      desired.classificationView = .ok change) (hchange : change ≠ .switch) :
    SameProcess current.sourceSpec desired.sourceSpec ∧
      dnsListen current.effectiveDocument.entries = dnsListen desired.effectiveDocument.entries ∧
      (∀ field ∈ controllerFields,
        current.effectiveDocument.get field = desired.effectiveDocument.get field) ∧
      current.controller = desired.controller := by
  obtain ⟨full, hfull, rfl⟩ : ∃ full, classify addresses current.classificationView
      desired.classificationView = .ok full ∧ full.kind = change := by
    change (classify addresses current.classificationView desired.classificationView).map Change.kind
      = .ok change at h
    cases hclass : classify addresses current.classificationView desired.classificationView with
    | error e =>
      rw [hclass] at h
      cases h
    | ok full =>
      rw [hclass] at h
      exact ⟨full, rfl, Except.ok.inj h⟩
  have hswitch : full ≠ .switch := by
    intro heq
    rw [heq] at hchange
    exact hchange rfl
  obtain ⟨hprocess, hlisten, hfields⟩ := classify_keeps hfull hswitch
  refine ⟨hprocess, hlisten, hfields, ?_⟩
  have hreached := planned_channel hcurrent
  have hreached' := planned_channel hdesired
  have hinspect : inspect platform current.effectiveDocument.entries =
      inspect platform desired.effectiveDocument.entries ∧
      inspectHttp current.effectiveDocument.entries =
        inspectHttp desired.effectiveDocument.entries := inspect_congr platform hfields
  have hlocal : current.effectiveDocument.get platform.localField =
      desired.effectiveDocument.get platform.localField :=
    hfields _ (by unfold Platform.localField; split <;> decide)
  rw [hlocal, hinspect.1, hinspect.2, hreached'] at hreached
  exact (Except.ok.inj hreached).symm

/-! ## A patch -/

def lanSnapshot (allow : Bool) : Snapshot Document :=
  ⟨"/etc/chimera/config.yaml", ⟨[("allow-lan", .bool allow)], by decide +revert +kernel⟩⟩

def lanSetup : Setup Document := configured unixPlatform plainAddresses none documentSetup

/-- The plan of a prepared document under a managed controller. -/
def lanPlan (allow : Bool) (prepared : Prepared Document) : EpochPlan Document :=
  planFor lanSetup mihomoSpec Epoch.one 1 "/run/chimera/config-1.yaml"
    ⟨∅, {RuntimeFeature.localIpc}⟩ (lanSnapshot allow) prepared

def lanPrepared (allow : Bool) : Except Error (Prepared Document) :=
  lanSetup.prepareFull (lanSnapshot allow) Epoch.one {RuntimeFeature.localIpc}
    (localIpcSettings lanSetup mihomoSpec)

theorem lanPlan_planned {allow : Bool} {prepared : Prepared Document}
    (h : lanPrepared allow = .ok prepared) : Planned lanSetup Epoch.one (lanPlan allow prepared) :=
  ⟨mihomoSpec, lanSnapshot allow, ⟨∅, {RuntimeFeature.localIpc}⟩, 1, "/run/chimera/config-1.yaml",
    prepared, prepared, h, rfl, rfl⟩

theorem lan_patch :
    (match lanPrepared false, lanPrepared true with
      | .ok closed, .ok opened => match lanSetup.classify (lanPlan false closed).classificationView
          (lanPlan true opened).classificationView with
        | .ok .patch => true
        | _ => false
      | _, _ => false) = true := by
  decide +kernel

/-- A patch that opens the core to the local network. -/
theorem lan_patch_keeps_channel :
    ∃ closed opened, lanPrepared false = .ok closed ∧ lanPrepared true = .ok opened ∧
      lanSetup.classify (lanPlan false closed).classificationView
        (lanPlan true opened).classificationView = .ok .patch ∧
      (lanPlan false closed).controller = (lanPlan true opened).controller := by
  have hpatch := lan_patch
  split at hpatch
  · rename_i closed opened hclosed hopened
    split at hpatch
    · rename_i hclass
      exact ⟨closed, opened, hclosed, hopened, hclass, (in_place_keeps_channel unixPlatform
        plainAddresses none documentSetup Epoch.one _ _ (lanPlan_planned hclosed)
        (lanPlan_planned hopened) .patch hclass (by decide)).2.2.2⟩
    · cases hpatch
  · cases hpatch

end Chimera.Config
