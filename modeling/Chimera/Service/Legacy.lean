import Mathlib.Data.List.Chain
import Chimera.Service.Delivery

/-! The two-valued state that older clients read. The bridge says it only when it moves,
each time right behind the snapshot that carries it. -/

namespace Chimera.Service
open Chimera.Model Chimera.Lib.Channel Chimera.Lib.Transition

variable {CoreType Frame : Type} {texts : Texts} {encodes : Event CoreType Frame → Bool}
  {s t : Stream CoreType Frame}

def Event.state? : Event CoreType Frame → Option IpcState
  | .coreStateChanged state => some state
  | _ => none

/-- The legacy states that were posted. -/
def Stream.announced (s : Stream CoreType Frame) : List IpcState :=
  s.events.sent.filterMap fun posted => posted.event.state?

/-- A state that passes says nothing to a client that was told of a stop. -/
def Agrees (last : IpcState) (status : CoreStatus) : Prop :=
  last = mapCoreState status.state ∨ (isPassing status.state = true ∧ last.isStopped = true)

theorem legacy_none {bridge : Bridge CoreType} {raw : CoreStatus} (h : bridge.legacy raw = none) :
    Agrees bridge.last raw := by
  simp only [Bridge.legacy] at h
  split at h
  · rename_i hdropped
    exact .inr ((Bool.and_eq_true _ _).mp hdropped)
  · split at h
    · exact .inl (sameIpcState_iff.1 ‹_›)
    · cases h

/-! ## What is announced -/

/-- The state that the bridge is about to announce, and the snapshot before it. -/
def Stream.Pending (s : Stream CoreType Frame) : BridgePoint CoreType → Prop
  | .sendStatus (some next) infos _ => s.bridge.last ≠ next ∧ infos.state = next
  | .sendState next stamp => s.bridge.last ≠ next ∧ ∃ infos,
      s.events.sent.getLast? = some ⟨.coreStatusChanged infos, stamp⟩ ∧ infos.state = next
  | _ => True

/-- Each announced state is right behind the snapshot that carries it. -/
def Stream.Leads (s : Stream CoreType Frame) : Prop :=
  ∀ p next stamp, s.events.sent[p]? = some ⟨.coreStateChanged next, stamp⟩ →
    ∃ q infos, p = q + 1 ∧ s.events.sent[q]? = some ⟨.coreStatusChanged infos, stamp⟩ ∧
      infos.state = next

/-- From the status that the bridge read first, each announced state differs from the one
before it, and the bridge remembers the last. -/
def Stream.Varies (s : Stream CoreType Frame) : Prop :=
  ∃ version status, s.bridge.first = some version ∧ s.states.at? version = some status ∧
    (mapCoreState status.state :: s.announced).IsChain (· ≠ ·) ∧
    (mapCoreState status.state :: s.announced).getLast? = some s.bridge.last

structure Announces (s : Stream CoreType Frame) : Prop where
  spawned : s.bridge.point = .spawned → s.events.sent = []
  varies : s.bridge.point ≠ .spawned → s.Varies
  pending : s.Pending s.bridge.point
  leads : s.Leads

theorem announced_status {infos : CoreInfos CoreType} {stamp : Stamp}
    (hsent : t.events.sent = s.events.sent ++ [⟨.coreStatusChanged infos, stamp⟩]) :
    t.announced = s.announced := by
  simp [Stream.announced, hsent, Event.state?]

theorem announced_state {next : IpcState} {stamp : Stamp}
    (hsent : t.events.sent = s.events.sent ++ [⟨.coreStateChanged next, stamp⟩]) :
    t.announced = s.announced ++ [next] := by
  simp [Stream.announced, hsent, Event.state?]

theorem Stream.Varies.keep (h : s.Varies) (hg : Extends s t) (hannounced : t.announced = s.announced)
    (hlast : t.bridge.last = s.bridge.last) (hfirst : t.bridge.first = s.bridge.first) :
    t.Varies := by
  obtain ⟨version, status, hversion, hat, hchain, hgot⟩ := h
  exact ⟨version, status, hfirst.trans hversion, hg.states hat, hannounced ▸ hchain,
    by rw [hannounced, hlast, hgot]⟩

theorem Stream.Leads.post (h : s.Leads) (posted : Posted CoreType Frame)
    (hsent : t.events.sent = s.events.sent ++ [posted])
    (hposted : ∀ next, posted.event = .coreStateChanged next → ∃ infos,
      s.events.sent.getLast? = some ⟨.coreStatusChanged infos, posted.stamp⟩ ∧
        infos.state = next) : t.Leads := by
  intro p next stamp hp
  rw [hsent] at hp
  by_cases hlt : p < s.events.sent.length
  · rw [List.getElem?_append_left hlt] at hp
    obtain ⟨q, infos, rfl, hq, heq⟩ := h p next stamp hp
    refine ⟨q, infos, rfl, ?_, heq⟩
    rw [hsent, List.getElem?_append_left (Nat.lt_of_succ_lt hlt)]
    exact hq
  · have hlast : p = s.events.sent.length := by
      have hbound := (List.getElem?_eq_some_iff.1 hp).1
      rw [List.length_append, List.length_singleton] at hbound
      omega
    rw [hlast, List.getElem?_append_right le_rfl, Nat.sub_self] at hp
    cases hp
    obtain ⟨infos, hbefore, heq⟩ := hposted next rfl
    have hpos : 0 < s.events.sent.length := by
      by_contra hzero
      rw [List.eq_nil_of_length_eq_zero (Nat.eq_zero_of_not_pos hzero)] at hbefore
      cases hbefore
    refine ⟨s.events.sent.length - 1, infos, by omega, ?_, heq⟩
    rw [hsent, List.getElem?_append_left (Nat.sub_lt hpos Nat.one_pos), ← List.getLast?_eq_getElem?]
    exact hbefore

theorem bridgeStep_states {arm : Arm} (h : s.bridgeStep texts arm = some t) :
    t.states.value = s.states.value ∧ t.states.version = s.states.version := by
  unfold Stream.bridgeStep at h
  split at h
  case h_2 =>
    split at h
    · split at h <;> cases h <;> exact ⟨rfl, rfl⟩
    · split at h <;> cases h <;> exact ⟨rfl, rfl⟩
  all_goals cases h
  all_goals exact ⟨rfl, rfl⟩

theorem Announces.bridgeStep {arm : Arm} (h : Announces s)
    (hs : s.bridgeStep texts arm = some t) : Announces t := by
  have hg := bridgeStep_extends hs
  have hvaries := h.varies
  have hpending := h.pending
  cases hp : s.bridge.point with
  | spawned =>
    simp only [Stream.bridgeStep, hp, Option.some.injEq] at hs
    have hnil := h.spawned hp
    subst hs
    refine ⟨fun hp => (by cases hp), fun _ => ?_, trivial, h.leads⟩
    refine ⟨_, _, rfl, Watch.at_version, ?_, ?_⟩ <;> simp [Stream.announced, hnil]
  | waiting =>
    have hkept := hvaries (by rw [hp]; rintro ⟨⟩)
    cases arm with
    | states =>
      simp only [Stream.bridgeStep, hp] at hs
      split at hs <;> cases hs <;>
        exact ⟨fun hp => (by cases hp), fun _ => hkept.keep hg rfl rfl rfl, trivial, h.leads⟩
    | requestedCore =>
      simp only [Stream.bridgeStep, hp] at hs
      split at hs <;> cases hs <;>
        exact ⟨fun hp => (by cases hp), fun _ => hkept.keep hg rfl rfl rfl, trivial, h.leads⟩
  | statesChanged | requestedChanged =>
    have hkept := hvaries (by rw [hp]; rintro ⟨⟩)
    simp only [Stream.bridgeStep, hp, Option.some.injEq] at hs
    subst hs
    exact ⟨fun hp => (by cases hp), fun _ => hkept.keep hg rfl rfl rfl, trivial, h.leads⟩
  | readStates raw version =>
    have hkept := hvaries (by rw [hp]; rintro ⟨⟩)
    simp only [Stream.bridgeStep, hp, Option.some.injEq] at hs
    subst hs
    refine ⟨fun hp => (by cases hp), fun _ => hkept.keep hg rfl rfl rfl, ?_, h.leads⟩
    change Stream.Pending _ (.sendStatus (s.bridge.legacy raw) _ _)
    cases hlegacy : s.bridge.legacy raw with
    | none => trivial
    | some next =>
      obtain ⟨hnext, hdiffer⟩ := legacy_some hlegacy
      exact ⟨hdiffer, hnext.symm⟩
  | readEcho raw version =>
    have hkept := hvaries (by rw [hp]; rintro ⟨⟩)
    simp only [Stream.bridgeStep, hp, Option.some.injEq] at hs
    subst hs
    exact ⟨fun hp => (by cases hp), fun _ => hkept.keep hg rfl rfl rfl, trivial, h.leads⟩
  | sendStatus legacy infos stamp =>
    have hkept := hvaries (by rw [hp]; rintro ⟨⟩)
    simp only [Stream.bridgeStep, hp, Option.some.injEq] at hs
    rw [hp] at hpending
    have hleads := h.leads.post (t := t) ⟨.coreStatusChanged infos, stamp⟩ (hs ▸ rfl)
      fun next heq => by cases heq
    subst hs
    have hannounced := hkept.keep hg (announced_status rfl) rfl rfl
    cases legacy with
    | none => exact ⟨fun hp => (by cases hp), fun _ => hannounced, trivial, hleads⟩
    | some next =>
      exact ⟨fun hp => (by cases hp), fun _ => hannounced,
        ⟨hpending.1, infos, List.getLast?_concat .., hpending.2⟩, hleads⟩
  | sendState next stamp =>
    obtain ⟨version, status, hversion, hat, hchain, hlast⟩ := hvaries (by rw [hp]; rintro ⟨⟩)
    simp only [Stream.bridgeStep, hp, Option.some.injEq] at hs
    rw [hp] at hpending
    obtain ⟨hdiffer, infos, hbefore, hinfos⟩ := hpending
    subst hs
    refine ⟨fun hp => (by cases hp), fun _ => ⟨version, status, hversion, hat, ?_, ?_⟩, trivial, ?_⟩
    · rw [announced_state (s := s) rfl, ← List.cons_append]
      refine hchain.append (List.isChain_singleton next) fun last hmem head hhead => ?_
      rw [hlast] at hmem
      cases hmem
      cases hhead
      exact hdiffer
    · rw [announced_state (s := s) rfl, ← List.cons_append, List.getLast?_concat]
    · refine h.leads.post ⟨.coreStateChanged next, stamp⟩ rfl fun other heq => ?_
      cases heq
      exact ⟨infos, hbefore, hinfos⟩
  | done =>
    simp only [Stream.bridgeStep, hp] at hs
    cases hs

theorem announces {status : CoreStatus} {echo : Option CoreType}
    (hr : (streamMachine texts encodes status echo).Reachable s) : Announces s := by
  refine hr.invariant ⟨fun _ => rfl, fun hp => absurd rfl hp, trivial, ?_⟩ ?_
  · intro p next stamp hp
    cases hp
  · intro s a t h _ hs
    obtain ⟨arm, hbridge⟩ | ⟨hbridge, hevents⟩ := step_bridge hs
    · exact h.bridgeStep hbridge
    · refine ⟨fun hp => ?_, fun hp => ?_, ?_, ?_⟩
      · rw [hevents]
        exact h.spawned (hbridge ▸ hp)
      · refine (h.varies (hbridge ▸ hp)).keep (step_extends hs).1 ?_ (by rw [hbridge])
          (by rw [hbridge])
        rw [Stream.announced, hevents]
        rfl
      · have hpending := h.pending
        unfold Stream.Pending at hpending ⊢
        rw [hbridge, hevents]
        exact hpending
      · have hleads := h.leads
        unfold Stream.Leads at hleads ⊢
        rw [hevents]
        exact hleads

/-! ## What is left unsaid -/

/-- The states, once the bridge has seen every transition. -/
def Stream.Agreeing (s : Stream CoreType Frame) : BridgePoint CoreType → Prop
  | .spawned | .statesChanged => True
  | .readStates raw _ => raw = s.states.value
  | .sendStatus (some next) _ _ | .sendState next _ => next = mapCoreState s.states.value.state
  | _ => Agrees s.bridge.last s.states.value

structure Caught (s : Stream CoreType Frame) : Prop where
  seen : s.bridge.statesSeen ≤ s.states.version
  agreeing : s.bridge.statesSeen = s.states.version → s.Agreeing s.bridge.point

/-- A step publishes a status, or leaves the newest one. -/
theorem step_states {a : Action CoreType Frame} (hs : s.step texts encodes a = some t) :
    (t.states.value = s.states.value ∧ t.states.version = s.states.version) ∨
      (t.bridge = s.bridge ∧ t.states.version = s.states.version + 1) := by
  cases a with
  | publish status =>
    simp only [Stream.step] at hs
    split at hs <;> cases hs
    exact .inr ⟨rfl, Watch.send_version⟩
  | publishRequestedCore committed =>
    simp only [Stream.step] at hs
    split at hs <;> cases hs
    exact .inl ⟨rfl, rfl⟩
  | closeStates | closeRequestedCore | connect =>
    cases hs
    exact .inl ⟨rfl, rfl⟩
  | log frame =>
    simp only [Stream.step] at hs
    split at hs <;> cases hs
    · exact .inl ⟨rfl, rfl⟩
    · exact .inl ⟨rfl, rfl⟩
  | bridge arm => exact .inl (bridgeStep_states hs)
  | client index turn =>
    obtain ⟨c, hc, hstep⟩ := Option.bind_eq_some_iff.1 hs
    obtain ⟨c', hc', heq⟩ := Option.bind_eq_some_iff.1 hstep
    cases heq
    exact .inl ⟨rfl, rfl⟩
  | disconnect index =>
    obtain ⟨c, hc, heq⟩ := Option.bind_eq_some_iff.1 hs
    cases heq
    exact .inl ⟨rfl, rfl⟩

theorem Caught.bridgeStep {arm : Arm} (h : Caught s) (hs : s.bridgeStep texts arm = some t) :
    Caught t := by
  have hagreeing := h.agreeing
  cases hp : s.bridge.point with
  | spawned =>
    simp only [Stream.bridgeStep, hp, Option.some.injEq] at hs
    subst hs
    exact ⟨le_rfl, fun _ => .inl rfl⟩
  | waiting =>
    rw [hp] at hagreeing
    cases arm with
    | states =>
      simp only [Stream.bridgeStep, hp] at hs
      split at hs
      · rename_i version hchanged
        cases hs
        obtain ⟨-, heq⟩ | ⟨-, -, heq⟩ := Watch.changed_cases hchanged
        · cases heq
          exact ⟨le_rfl, fun _ => trivial⟩
        · cases heq
      · cases hs
        exact ⟨h.seen, hagreeing⟩
      · cases hs
    | requestedCore =>
      simp only [Stream.bridgeStep, hp] at hs
      split at hs <;> cases hs <;> exact ⟨h.seen, hagreeing⟩
  | statesChanged =>
    simp only [Stream.bridgeStep, hp, Option.some.injEq] at hs
    subst hs
    exact ⟨le_rfl, fun _ => rfl⟩
  | readStates raw version =>
    rw [hp] at hagreeing
    simp only [Stream.bridgeStep, hp, Option.some.injEq] at hs
    subst hs
    refine ⟨h.seen, fun hseen => ?_⟩
    have hraw : raw = s.states.value := hagreeing hseen
    change Stream.Agreeing _ (.sendStatus (s.bridge.legacy raw) _ _)
    cases hlegacy : s.bridge.legacy raw with
    | none =>
      have hagrees := legacy_none hlegacy
      rw [hraw] at hagrees
      exact hagrees
    | some next => exact hraw ▸ (legacy_some hlegacy).1
  | requestedChanged | readEcho raw version =>
    rw [hp] at hagreeing
    simp only [Stream.bridgeStep, hp, Option.some.injEq] at hs
    subst hs
    exact ⟨h.seen, hagreeing⟩
  | sendStatus legacy infos stamp =>
    rw [hp] at hagreeing
    simp only [Stream.bridgeStep, hp, Option.some.injEq] at hs
    subst hs
    cases legacy with
    | none => exact ⟨h.seen, hagreeing⟩
    | some next => exact ⟨h.seen, hagreeing⟩
  | sendState next stamp =>
    rw [hp] at hagreeing
    simp only [Stream.bridgeStep, hp, Option.some.injEq] at hs
    subst hs
    exact ⟨h.seen, fun hseen => .inl (hagreeing hseen)⟩
  | done =>
    simp only [Stream.bridgeStep, hp] at hs
    cases hs

theorem caught {status : CoreStatus} {echo : Option CoreType}
    (hr : (streamMachine texts encodes status echo).Reachable s) : Caught s := by
  refine hr.invariant ⟨le_rfl, fun _ => trivial⟩ ?_
  intro s a t h _ hs
  obtain ⟨arm, hbridge⟩ | ⟨hbridge, -⟩ := step_bridge hs
  · exact h.bridgeStep hbridge
  · obtain ⟨hvalue, hversion⟩ | ⟨-, hversion⟩ := step_states hs
    · refine ⟨by rw [hbridge, hversion]; exact h.seen, fun hseen => ?_⟩
      have hagreeing := h.agreeing (by rw [← hbridge, ← hversion]; exact hseen)
      unfold Stream.Agreeing at hagreeing ⊢
      rw [hbridge, hvalue]
      exact hagreeing
    · have hlt : t.bridge.statesSeen < t.states.version := by
        rw [hbridge, hversion]
        exact Nat.lt_succ_of_le h.seen
      exact ⟨hlt.le, fun hseen => absurd hseen hlt.ne⟩

/-- The legacy states that are posted differ from one to the next, from the status that the
bridge read first, and each is right behind the snapshot that carries it. Once the bridge
has seen every transition, the last of them is the manager's, unless the manager is
between two states and the last was a stop. -/
theorem legacy_states_follow {status : CoreStatus} {echo : Option CoreType}
    (hr : (streamMachine texts encodes status echo).Reachable s) :
    s.Leads ∧ (s.bridge.point ≠ .spawned → ∃ version first,
      s.bridge.first = some version ∧ s.states.at? version = some first ∧
      (mapCoreState first.state :: s.announced).IsChain (· ≠ ·) ∧
      (s.Settled → ∃ last, (mapCoreState first.state :: s.announced).getLast? = some last ∧
        Agrees last s.states.value)) := by
  have h := announces hr
  refine ⟨h.leads, fun hp => ?_⟩
  obtain ⟨version, first, hversion, hat, hchain, hlast⟩ := h.varies hp
  refine ⟨version, first, hversion, hat, hchain, fun hsettled => ⟨_, hlast, ?_⟩⟩
  have hagreeing := (caught hr).agreeing hsettled.states
  rwa [hsettled.waiting] at hagreeing

theorem startSeen_announces :
    (plainStream.run plainStream.init startSeen).any (fun s =>
      decide (s.bridge.point = .waiting ∧ s.announced = [.running])) = true := by
  decide +kernel

theorem start_announced :
    ∃ s, plainStream.Reachable s ∧ s.announced = [.running] ∧ s.Leads := by
  obtain ⟨s, hs, ho⟩ := (Option.any_eq_true _ _).1 startSeen_announces
  obtain ⟨-, hannounced⟩ := of_decide_eq_true ho
  have hreach := Machine.run_reachable .init hs
  exact ⟨s, hreach, hannounced, (legacy_states_follow hreach).1⟩

end Chimera.Service
