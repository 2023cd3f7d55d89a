import Chimera.Service.Stream

/-! The status stream converges: whatever the bridge coalesced and whatever the rings
dropped, a connection that has read everything was last told the status of now. -/

namespace Chimera.Service
open Chimera.Model Chimera.Lib.Channel Chimera.Lib.Transition

variable {CoreType Frame : Type} {texts : Texts} {encodes : Event CoreType Frame → Bool}
  {s t : Stream CoreType Frame} {c c' : Client CoreType Frame}

/-! ## The last status of a list of events -/

def Event.infos? : Event CoreType Frame → Option (CoreInfos CoreType)
  | .coreStatusChanged infos => some infos
  | _ => none

def lastStatus (l : List (Event CoreType Frame)) : Option (CoreInfos CoreType) :=
  (l.filterMap Event.infos?).getLast?

@[simp] theorem lastStatus_nil : lastStatus ([] : List (Event CoreType Frame)) = none := rfl

theorem lastStatus_append {l m : List (Event CoreType Frame)} :
    lastStatus (l ++ m) = (lastStatus m).or (lastStatus l) := by
  rw [lastStatus, List.filterMap_append, List.getLast?_append]
  rfl

@[simp] theorem lastStatus_singleton (event : Event CoreType Frame) :
    lastStatus [event] = event.infos? := by
  cases event <;> rfl

theorem lastStatus_cons {event : Event CoreType Frame} {l : List (Event CoreType Frame)} :
    lastStatus (event :: l) = (lastStatus l).or event.infos? := by
  rw [← List.singleton_append, lastStatus_append, lastStatus_singleton]

/-- Leaving events out changes nothing when the last status stays. -/
theorem lastStatus_filter {keeps : Event CoreType Frame → Bool} {l : List (Event CoreType Frame)}
    {infos : CoreInfos CoreType} (h : lastStatus l = some infos)
    (hkeeps : keeps (.coreStatusChanged infos) = true) :
    lastStatus (l.filter keeps) = some infos := by
  induction l with
  | nil => cases h
  | cons event l ih =>
    rw [lastStatus_cons] at h
    cases hrest : lastStatus l with
    | some last =>
      rw [hrest, Option.some_or] at h
      have hkept := ih (hrest.trans h)
      rw [List.filter_cons]
      split
      · rw [lastStatus_cons, hkept, Option.some_or]
      · exact hkept
    | none =>
      rw [hrest, Option.none_or] at h
      have hnone : lastStatus (l.filter keeps) = none := by
        rw [lastStatus, List.getLast?_eq_none_iff, List.filterMap_eq_nil_iff] at hrest ⊢
        exact fun event hmem => hrest event (List.mem_of_mem_filter hmem)
      cases event with
      | coreStatusChanged other =>
        cases h
        rw [List.filter_cons, if_pos hkeeps, lastStatus_cons, hnone]
        rfl
      | coreStateChanged state => cases h
      | coreLog frame => cases h

/-! ## What the bridge still owes -/

/-- A watch has a value that the bridge has not marked as seen. -/
def Stream.Unseen (s : Stream CoreType Frame) : Prop :=
  s.bridge.statesSeen < s.states.version ∨ s.bridge.requestedSeen < s.requestedCore.version

/-- The bridge will post another status. Before its first read it has not promised one
for a transition: that read marks every earlier transition as seen. -/
def Stream.Owes (s : Stream CoreType Frame) : Prop :=
  match s.bridge.point with
  | .spawned => s.bridge.requestedSeen < s.requestedCore.version
  | .waiting | .sendState _ _ | .done => s.Unseen
  | _ => True

/-- Nothing is left for the bridge to do. -/
structure Stream.Settled (s : Stream CoreType Frame) : Prop where
  waiting : s.bridge.point = .waiting
  states : s.bridge.statesSeen = s.states.version
  requestedCore : s.bridge.requestedSeen = s.requestedCore.version

theorem Stream.Settled.not_owes (h : s.Settled) : ¬s.Owes := by
  simp [Stream.Owes, Stream.Unseen, h.waiting, h.states, h.requestedCore]

/-- What the bridge holds is of now, unless it has more to see. -/
def Stream.Fresh (texts : Texts) (s : Stream CoreType Frame) : BridgePoint CoreType → Prop
  | .spawned => s.events.sent = []
  | .readStates raw _ | .readEcho raw _ =>
    raw = s.states.value ∨ s.bridge.statesSeen < s.states.version
  | .sendStatus _ infos _ => infos = s.status texts ∨ s.Unseen
  | _ => True

structure BridgeKept (texts : Texts) (s : Stream CoreType Frame) : Prop where
  statesSeen : s.bridge.statesSeen ≤ s.states.version
  requestedSeen : s.bridge.requestedSeen ≤ s.requestedCore.version
  fresh : s.Fresh texts s.bridge.point

/-- What a step of the manager, the echo or the bridge is to a connection: after it the
newest status of the ring is the status of now, or the bridge owes one. -/
def Advances (texts : Texts) (s t : Stream CoreType Frame) : Prop :=
  ∃ posted, t.events.sent = s.events.sent ++ posted ∧
    match lastStatus (posted.map Posted.event) with
    | some infos => infos = t.status texts ∨ t.Owes
    | none => t.Owes ∨ (¬s.Owes ∧ t.states.value = s.states.value ∧
        t.requestedCore.value = s.requestedCore.value)

theorem Advances.quiet (hsent : t.events.sent = s.events.sent)
    (h : t.Owes ∨ (¬s.Owes ∧ t.states.value = s.states.value ∧
      t.requestedCore.value = s.requestedCore.value)) : Advances texts s t :=
  ⟨[], by rw [hsent, List.append_nil], h⟩

theorem Advances.post {posted : Posted CoreType Frame} {infos : CoreInfos CoreType}
    (hsent : t.events.sent = s.events.sent ++ [posted])
    (hinfos : posted.event = .coreStatusChanged infos)
    (h : infos = t.status texts ∨ t.Owes) : Advances texts s t := by
  refine ⟨[posted], hsent, ?_⟩
  simp only [List.map_cons, List.map_nil, hinfos, lastStatus_singleton, Event.infos?]
  exact h

/-! ## The bridge's own steps -/

theorem bridge_follows {arm : Arm} (hk : BridgeKept texts s)
    (h : s.bridgeStep texts arm = some t) : BridgeKept texts t ∧ Advances texts s t := by
  have hfresh := hk.fresh
  cases hp : s.bridge.point with
  | spawned =>
    simp only [Stream.bridgeStep, hp, Option.some.injEq] at h
    subst h
    refine ⟨⟨le_rfl, hk.requestedSeen, trivial⟩, .quiet rfl ?_⟩
    by_cases howes : s.bridge.requestedSeen < s.requestedCore.version
    · exact .inl (.inr howes)
    · exact .inr ⟨by simpa [Stream.Owes, hp] using howes, rfl, rfl⟩
  | waiting =>
    cases arm with
    | states =>
      simp only [Stream.bridgeStep, hp] at h
      split at h
      · rename_i version hchanged
        cases h
        obtain ⟨-, heq⟩ | ⟨-, -, heq⟩ := Watch.changed_cases hchanged
        · cases heq
          exact ⟨⟨le_rfl, hk.requestedSeen, trivial⟩, .quiet rfl (.inl trivial)⟩
        · cases heq
      · cases h
        refine ⟨⟨hk.statesSeen, hk.requestedSeen, trivial⟩, .quiet rfl ?_⟩
        by_cases howes : s.Unseen
        · exact .inl howes
        · exact .inr ⟨by simpa [Stream.Owes, hp] using howes, rfl, rfl⟩
      · cases h
    | requestedCore =>
      simp only [Stream.bridgeStep, hp] at h
      split at h
      · rename_i version hchanged
        cases h
        obtain ⟨-, heq⟩ | ⟨-, -, heq⟩ := Watch.changed_cases hchanged
        · cases heq
          exact ⟨⟨hk.statesSeen, le_rfl, trivial⟩, .quiet rfl (.inl trivial)⟩
        · cases heq
      · cases h
        refine ⟨⟨hk.statesSeen, hk.requestedSeen, trivial⟩, .quiet rfl ?_⟩
        by_cases howes : s.Unseen
        · exact .inl howes
        · exact .inr ⟨by simpa [Stream.Owes, hp] using howes, rfl, rfl⟩
      · cases h
  | statesChanged =>
    simp only [Stream.bridgeStep, hp, Option.some.injEq] at h
    subst h
    exact ⟨⟨le_rfl, hk.requestedSeen, .inl rfl⟩, .quiet rfl (.inl trivial)⟩
  | readStates raw version =>
    simp only [Stream.bridgeStep, hp, Option.some.injEq] at h
    subst h
    rw [hp] at hfresh
    refine ⟨⟨hk.statesSeen, le_rfl, ?_⟩, .quiet rfl (.inl trivial)⟩
    obtain rfl | hlt := hfresh
    · exact .inl rfl
    · exact .inr (.inl hlt)
  | requestedChanged =>
    simp only [Stream.bridgeStep, hp, Option.some.injEq] at h
    subst h
    exact ⟨⟨hk.statesSeen, hk.requestedSeen, .inl rfl⟩, .quiet rfl (.inl trivial)⟩
  | readEcho raw version =>
    simp only [Stream.bridgeStep, hp, Option.some.injEq] at h
    subst h
    rw [hp] at hfresh
    refine ⟨⟨hk.statesSeen, le_rfl, ?_⟩, .quiet rfl (.inl trivial)⟩
    obtain rfl | hlt := hfresh
    · exact .inl rfl
    · exact .inr (.inl hlt)
  | sendStatus legacy infos stamp =>
    simp only [Stream.bridgeStep, hp, Option.some.injEq] at h
    subst h
    rw [hp] at hfresh
    cases legacy with
    | none => exact ⟨⟨hk.statesSeen, hk.requestedSeen, trivial⟩, .post rfl rfl hfresh⟩
    | some next => exact ⟨⟨hk.statesSeen, hk.requestedSeen, trivial⟩, .post rfl rfl hfresh⟩
  | sendState next stamp =>
    simp only [Stream.bridgeStep, hp, Option.some.injEq] at h
    subst h
    refine ⟨⟨hk.statesSeen, hk.requestedSeen, trivial⟩, ⟨_, rfl, ?_⟩⟩
    by_cases howes : s.Unseen
    · exact .inl howes
    · exact .inr ⟨by simpa [Stream.Owes, hp] using howes, rfl, rfl⟩
  | done =>
    simp only [Stream.bridgeStep, hp] at h
    cases h

theorem bridgeStep_clients {arm : Arm} (h : s.bridgeStep texts arm = some t) :
    t.clients = s.clients := by
  unfold Stream.bridgeStep at h
  split at h
  case h_2 =>
    split at h
    · split at h <;> cases h <;> rfl
    · split at h <;> cases h <;> rfl
  all_goals cases h
  all_goals rfl

/-! ## The connections -/

/-- The steps of a connection. -/
inductive Moves (texts : Texts) (s : Stream CoreType Frame) (c : Client CoreType Frame) :
    Client CoreType Frame → Prop
  | close : Moves texts s c { c with point := .closed }
  | subscribe : c.point = .opened → Moves texts s c { c with
      point := .subscribedEvents, first := s.events.tail, nextEvent := s.events.tail }
  | subscribeLogs : c.point = .subscribedEvents → Moves texts s c { c with
      point := .subscribed, nextLog := s.logs.tail }
  | read : c.point = .subscribed → Moves texts s c { c with
      point := .snapshot s.states.value s.states.version }
  | project {status : CoreStatus} {version : Nat} : c.point = .snapshot status version →
      Moves texts s c { c with point := .sending (.snapshot
        (projectCoreInfos texts status s.requestedCore.value)
        ⟨version, s.requestedCore.version⟩) }
  | handle {delivery : Delivery CoreType Frame} : c.point = .sending delivery →
      Moves texts s c { c with point := .waiting, handled := c.handled ++ [delivery] }
  | log {frame : Frame} {next : Nat} : c.point = .waiting →
      Moves texts s c { c with point := .sending (.log frame), nextLog := next }
  | logLag {next : Nat} : c.point = .waiting →
      Moves texts s c { c with point := .logLag, nextLog := next }
  | event {posted : Posted CoreType Frame} : c.point = .waiting →
      s.events.sent[c.nextEvent]? = some posted → Moves texts s c { c with
        point := .sending (.event c.nextEvent posted.event), nextEvent := c.nextEvent + 1 }
  | statusLag : c.point = .waiting → c.nextEvent < s.events.oldest →
      s.events.oldest + s.events.capacity = s.events.tail →
      Moves texts s c { c with point := .statusLag, nextEvent := s.events.oldest }
  | resubscribe : c.point = .statusLag → Moves texts s c { c with
      point := .subscribed, nextEvent := s.events.tail, resyncs := c.resyncs + 1 }
  | resubscribeLogs : c.point = .logLag → Moves texts s c { c with
      point := .waiting, nextLog := s.logs.tail }

theorem clientStep_moves {turn : Turn} (h : s.clientStep texts encodes c turn = some c') :
    Moves texts s c c' := by
  cases hp : c.point with
  | opened =>
    simp only [Stream.clientStep, hp, Option.some.injEq] at h
    exact h ▸ .subscribe hp
  | subscribedEvents =>
    simp only [Stream.clientStep, hp, Option.some.injEq] at h
    exact h ▸ .subscribeLogs hp
  | subscribed =>
    simp only [Stream.clientStep, hp, Option.some.injEq] at h
    exact h ▸ .read hp
  | snapshot status version =>
    simp only [Stream.clientStep, hp, Option.some.injEq] at h
    exact h ▸ .project hp
  | sending delivery =>
    simp only [Stream.clientStep, hp, Option.some.injEq, Client.sendEvent] at h
    split at h
    · exact h ▸ .close
    · exact h ▸ .handle hp
  | waiting =>
    simp only [Stream.clientStep, hp] at h
    split at h
    · split at h
      · cases h
        exact .log hp
      · cases h
        exact .logLag hp
      · cases h
    · split at h
      · rename_i posted next hrecv
        cases h
        obtain ⟨a, ha, heq, rfl⟩ | ⟨-, -, -, heq⟩ := Broadcast.recv_cases hrecv
        · cases heq
          exact .event hp ha
        · cases heq
      · rename_i skipped next hrecv
        cases h
        obtain ⟨a, -, heq, -⟩ | ⟨rfl, hlt, htail, -⟩ := Broadcast.recv_cases hrecv
        · cases heq
        · exact .statusLag hp hlt htail
      · cases h
  | statusLag =>
    simp only [Stream.clientStep, hp, Option.some.injEq] at h
    exact h ▸ .resubscribe hp
  | logLag =>
    simp only [Stream.clientStep, hp, Option.some.injEq] at h
    exact h ▸ .resubscribeLogs hp
  | closed =>
    simp only [Stream.clientStep, hp] at h
    cases h

/-- The status that a connection was last told, once it has sent what it holds. -/
def Client.lastTold (c : Client CoreType Frame) : Option (CoreInfos CoreType) :=
  match c.point with
  | .sending delivery => lastStatus ((c.handled ++ [delivery]).map Delivery.content)
  | _ => lastStatus (c.handled.map Delivery.content)

/-- What a connection knows when nothing is on its way to it. -/
def Client.Knows (texts : Texts) (s : Stream CoreType Frame) (c : Client CoreType Frame) : Prop :=
  match c.point with
  | .snapshot status _ => status = s.states.value
  | .sending _ | .waiting | .logLag => c.lastTold = some (s.status texts)
  | _ => True

def Client.listens (c : Client CoreType Frame) : Bool :=
  match c.point with
  | .opened | .closed => false
  | _ => true

/-- The events of the ring that a connection has not read. -/
def Stream.unread (s : Stream CoreType Frame) (c : Client CoreType Frame) :
    List (Event CoreType Frame) :=
  (s.events.sent.drop c.nextEvent).map Posted.event

/-- The status of now is the last that is unread, or is owed, or is known. -/
def Tells (texts : Texts) (s : Stream CoreType Frame) (unread : List (Event CoreType Frame))
    (knows : Prop) : Prop :=
  match lastStatus unread with
  | some infos => infos = s.status texts ∨ s.Owes
  | none => s.Owes ∨ knows

structure Informed (texts : Texts) (s : Stream CoreType Frame) (c : Client CoreType Frame) :
    Prop where
  bounded : c.nextEvent ≤ s.events.tail
  told : c.listens = true → Tells texts s (s.unread c) (c.Knows texts s)

theorem Tells.imp {unread : List (Event CoreType Frame)} {knows later : Prop}
    (h : Tells texts s unread knows) (hk : knows → later) : Tells texts s unread later := by
  unfold Tells at h ⊢
  cases hlast : lastStatus unread with
  | some infos =>
    rw [hlast] at h
    exact h
  | none =>
    rw [hlast] at h
    exact h.imp_right hk

theorem Tells.known {knows : Prop} (h : knows) : Tells texts s [] knows := .inr h

theorem Informed.follow (h : Informed texts s c) (hf : Advances texts s t) :
    Informed texts t c := by
  obtain ⟨posted, hsent, hposted⟩ := hf
  have hunread : t.unread c = s.unread c ++ posted.map Posted.event := by
    rw [Stream.unread, hsent, List.drop_append_of_le_length h.bounded, List.map_append]
    rfl
  have hbounded : c.nextEvent ≤ t.events.tail := by
    have hs : c.nextEvent ≤ s.events.sent.length := h.bounded
    simp only [Broadcast.tail, hsent, List.length_append]
    omega
  refine ⟨hbounded, fun hlistens => ?_⟩
  have htold := h.told hlistens
  unfold Tells at htold ⊢
  rw [hunread, lastStatus_append]
  cases hnew : lastStatus (posted.map Posted.event) with
  | some infos =>
    rw [hnew] at hposted
    exact hposted
  | none =>
    rw [hnew] at hposted
    rw [Option.none_or]
    obtain howes | ⟨hquiet, hstates, hecho⟩ := hposted
    · cases lastStatus (s.unread c) with
      | some infos => exact .inr howes
      | none => exact .inl howes
    · have hstatus : t.status texts = s.status texts := by
        rw [Stream.status, hstates, hecho]
        rfl
      cases hold : lastStatus (s.unread c) with
      | some infos =>
        rw [hold] at htold
        exact .inl ((htold.resolve_right hquiet).trans hstatus.symm)
      | none =>
        rw [hold] at htold
        refine .inr ?_
        have hknows := htold.resolve_left hquiet
        unfold Client.Knows at hknows ⊢
        rw [hstatus, hstates]
        exact hknows

/-- Reading one event moves it from what is unread to what is told. -/
theorem unread_next {posted : Posted CoreType Frame} (later : Client CoreType Frame)
    (h : s.events.sent[c.nextEvent]? = some posted)
    (hlater : later.nextEvent = c.nextEvent + 1) :
    s.unread c = posted.event :: s.unread later := by
  obtain ⟨hlt, heq⟩ := List.getElem?_eq_some_iff.1 h
  rw [Stream.unread, List.drop_eq_getElem_cons hlt, heq, List.map_cons, Stream.unread, hlater]

theorem unread_tail (h : c.nextEvent = s.events.tail) : s.unread c = [] := by
  rw [Stream.unread, h, Broadcast.tail, List.drop_length, List.map_nil]

/-- What the ring has dropped is behind what a connection reads next. -/
theorem unread_suffix (later : Client CoreType Frame) (h : c.nextEvent ≤ later.nextEvent) :
    ∃ skipped, s.unread c = skipped ++ s.unread later := by
  refine ⟨((s.events.sent.drop c.nextEvent).take (later.nextEvent - c.nextEvent)).map
    Posted.event, ?_⟩
  rw [Stream.unread, Stream.unread, ← List.map_append]
  congr 1
  obtain ⟨n, hn⟩ := Nat.exists_eq_add_of_le h
  rw [hn, Nat.add_sub_cancel_left, ← List.drop_drop, List.take_append_drop]

theorem Informed.moves (h : Informed texts s c) (hm : Moves texts s c c') :
    Informed texts s c' := by
  cases hm with
  | close => exact ⟨h.bounded, fun hlistens => by cases hlistens⟩
  | subscribe _ =>
    refine ⟨le_rfl, fun _ => ?_⟩
    rw [unread_tail rfl]
    exact .known trivial
  | subscribeLogs hp =>
    exact ⟨h.bounded, fun _ => (h.told (by simp [Client.listens, hp])).imp fun _ => trivial⟩
  | read hp =>
    exact ⟨h.bounded, fun _ => (h.told (by simp [Client.listens, hp])).imp fun _ => rfl⟩
  | project hp =>
    refine ⟨h.bounded, fun _ => (h.told (by simp [Client.listens, hp])).imp fun hknows => ?_⟩
    simp only [Client.Knows, hp] at hknows
    simp [Client.Knows, Client.lastTold, lastStatus_append, Delivery.content, Event.infos?,
      hknows, Stream.status]
  | handle hp =>
    refine ⟨h.bounded, fun _ => (h.told (by simp [Client.listens, hp])).imp fun hknows => ?_⟩
    simpa [Client.Knows, Client.lastTold, hp] using hknows
  | log hp =>
    refine ⟨h.bounded, fun _ => (h.told (by simp [Client.listens, hp])).imp fun hknows => ?_⟩
    simpa [Client.Knows, Client.lastTold, hp, lastStatus_append, Delivery.content,
      Event.infos?] using hknows
  | logLag hp | resubscribeLogs hp =>
    refine ⟨h.bounded, fun _ => (h.told (by simp [Client.listens, hp])).imp fun hknows => ?_⟩
    simpa [Client.Knows, Client.lastTold, hp] using hknows
  | @event posted hp hposted =>
    refine ⟨(List.getElem?_eq_some_iff.1 hposted).1, fun _ => ?_⟩
    have htold := h.told (by simp [Client.listens, hp])
    rw [unread_next { c with
      point := .sending (.event c.nextEvent posted.event), nextEvent := c.nextEvent + 1 } hposted rfl,
      Tells, lastStatus_cons] at htold
    unfold Tells
    cases hlater : lastStatus (s.unread { c with
        point := .sending (.event c.nextEvent posted.event), nextEvent := c.nextEvent + 1 }) with
    | some infos =>
      rw [hlater, Option.some_or] at htold
      exact htold
    | none =>
      rw [hlater, Option.none_or] at htold
      cases hinfos : posted.event.infos? with
      | some infos =>
        rw [hinfos] at htold
        refine htold.symm.imp_right fun heq => ?_
        simp [Client.Knows, Client.lastTold, lastStatus_append, Delivery.content, hinfos, heq]
      | none =>
        rw [hinfos] at htold
        refine htold.imp_right fun hknows => ?_
        simpa [Client.Knows, Client.lastTold, lastStatus_append, Delivery.content, hinfos, hp]
          using hknows
  | statusLag hp hlt htail =>
    have hbounded : s.events.oldest ≤ s.events.tail := by omega
    refine ⟨hbounded, fun _ => ?_⟩
    have htold := h.told (by simp [Client.listens, hp])
    obtain ⟨skipped, hskipped⟩ := unread_suffix (s := s) (c := c)
      { c with point := .statusLag, nextEvent := s.events.oldest } (Nat.le_of_lt hlt)
    rw [hskipped, Tells, lastStatus_append] at htold
    unfold Tells
    cases hlater : lastStatus (s.unread { c with
        point := .statusLag, nextEvent := s.events.oldest }) with
    | some infos =>
      rw [hlater, Option.some_or] at htold
      exact htold
    | none => exact .inr trivial
  | resubscribe hp =>
    refine ⟨le_rfl, fun _ => ?_⟩
    rw [unread_tail rfl]
    exact .known trivial

/-! ## Runs -/

/-- The bridge makes its first read before a transition that a connection has missed:
that read marks the transition as seen, and nothing is posted for it. -/
def Timely (s : Stream CoreType Frame) (a : Action CoreType Frame) : Prop :=
  ∀ status, a = .publish status → s.bridge.point = .spawned →
    ∀ c ∈ s.clients, c.point = .opened ∨ c.point = .subscribedEvents ∨ c.point = .subscribed ∨
      c.point = .closed

structure Converging (texts : Texts) (s : Stream CoreType Frame) : Prop where
  bridge : BridgeKept texts s
  clients : ∀ c ∈ s.clients, Informed texts s c

theorem Converging.follow (h : Converging texts s) (hk : BridgeKept texts t)
    (hf : Advances texts s t) (hclients : t.clients = s.clients) : Converging texts t :=
  ⟨hk, fun c hc => (h.clients c (hclients ▸ hc)).follow hf⟩

theorem Advances.same {t : Stream CoreType Frame} (hsent : t.events.sent = s.events.sent)
    (hstates : t.states.value = s.states.value)
    (hecho : t.requestedCore.value = s.requestedCore.value) (howes : s.Owes → t.Owes) :
    Advances texts s t := by
  by_cases h : s.Owes
  · exact .quiet hsent (.inl (howes h))
  · exact .quiet hsent (.inr ⟨h, hstates, hecho⟩)

/-- A new status is owed from its publication on, once the bridge has made its first
read. -/
theorem Converging.publish (h : Converging texts s) (status : CoreStatus)
    (htimely : Timely s (.publish status)) :
    Converging texts { s with states := s.states.send status } := by
  have hlt : s.bridge.statesSeen < (s.states.send status).version := by
    rw [Watch.send_version]
    exact Nat.lt_succ_of_le h.bridge.statesSeen
  have hfresh := h.bridge.fresh
  have hkept : BridgeKept texts { s with states := s.states.send status } := by
    refine ⟨hlt.le, h.bridge.requestedSeen, ?_⟩
    change Stream.Fresh texts _ s.bridge.point
    cases hp : s.bridge.point with
    | spawned =>
      rw [hp] at hfresh
      exact hfresh
    | readStates raw version => exact .inr hlt
    | readEcho raw version => exact .inr hlt
    | sendStatus legacy infos stamp => exact .inr (.inl hlt)
    | waiting | statesChanged | requestedChanged | sendState next stamp | done => trivial
  by_cases hp : s.bridge.point = .spawned
  · refine ⟨hkept, fun c hc => ⟨(h.clients c hc).bounded, fun hlistens => ?_⟩⟩
    rw [hp] at hfresh
    have hunread : Stream.unread { s with states := s.states.send status } c = [] := by
      change (s.events.sent.drop c.nextEvent).map Posted.event = []
      rw [show s.events.sent = [] from hfresh, List.drop_nil, List.map_nil]
    rw [hunread]
    refine .known ?_
    obtain hc | hc | hc | hc := htimely status rfl hp c hc
    · simp [Client.listens, hc] at hlistens
    · simp [Client.Knows, hc]
    · simp [Client.Knows, hc]
    · simp [Client.listens, hc] at hlistens
  · refine h.follow hkept (.quiet rfl (.inl ?_)) rfl
    unfold Stream.Owes
    split
    · exact absurd ‹_› hp
    · exact .inl hlt
    · exact .inl hlt
    · exact .inl hlt
    · trivial

/-- A commit of the echo is owed whatever the bridge is at. -/
theorem Converging.commit (h : Converging texts s) (echo : Option CoreType) :
    Converging texts { s with requestedCore := s.requestedCore.send echo } := by
  have hlt : s.bridge.requestedSeen < (s.requestedCore.send echo).version := by
    rw [Watch.send_version]
    exact Nat.lt_succ_of_le h.bridge.requestedSeen
  have hfresh := h.bridge.fresh
  refine h.follow ⟨h.bridge.statesSeen, hlt.le, ?_⟩ (.quiet rfl (.inl ?_)) rfl
  · change Stream.Fresh texts _ s.bridge.point
    cases hp : s.bridge.point with
    | sendStatus legacy infos stamp => exact .inr (.inr hlt)
    | spawned =>
      rw [hp] at hfresh
      exact hfresh
    | readStates raw version =>
      rw [hp] at hfresh
      exact hfresh
    | readEcho raw version =>
      rw [hp] at hfresh
      exact hfresh
    | waiting | statesChanged | requestedChanged | sendState next stamp | done => trivial
  · unfold Stream.Owes
    split
    · exact hlt
    · exact .inr hlt
    · exact .inr hlt
    · exact .inr hlt
    · trivial

theorem Converging.setClient {index : Nat} (h : Converging texts s) (hc : Informed texts s c') :
    Converging texts { s with clients := s.clients.set index c' } := by
  refine ⟨⟨h.bridge.statesSeen, h.bridge.requestedSeen, h.bridge.fresh⟩, fun c hmem => ?_⟩
  obtain hold | rfl := List.mem_or_eq_of_mem_set hmem
  · exact ⟨(h.clients c hold).bounded, (h.clients c hold).told⟩
  · exact ⟨hc.bounded, hc.told⟩

theorem Converging.step {a : Action CoreType Frame} (h : Converging texts s) (htimely : Timely s a)
    (hs : s.step texts encodes a = some t) : Converging texts t := by
  cases a with
  | publish status =>
    simp only [Stream.step] at hs
    split at hs
    · cases hs
    · cases hs
      exact h.publish status htimely
  | publishRequestedCore committed =>
    simp only [Stream.step] at hs
    split at hs
    · cases hs
    · cases hs
      exact h.commit _
  | closeStates =>
    cases hs
    exact h.follow ⟨h.bridge.statesSeen, h.bridge.requestedSeen, h.bridge.fresh⟩
      (.same rfl rfl rfl fun howes => howes) rfl
  | closeRequestedCore =>
    cases hs
    exact h.follow ⟨h.bridge.statesSeen, h.bridge.requestedSeen, h.bridge.fresh⟩
      (.same rfl rfl rfl fun howes => howes) rfl
  | bridge arm =>
    obtain ⟨hkept, hfollows⟩ := bridge_follows h.bridge hs
    exact h.follow hkept hfollows (bridgeStep_clients hs)
  | log frame =>
    simp only [Stream.step] at hs
    split at hs
    · cases hs
      exact h.follow ⟨h.bridge.statesSeen, h.bridge.requestedSeen, h.bridge.fresh⟩
        (.same rfl rfl rfl fun howes => howes) rfl
    · cases hs
      exact h
  | connect =>
    cases hs
    refine ⟨⟨h.bridge.statesSeen, h.bridge.requestedSeen, h.bridge.fresh⟩, fun c hmem => ?_⟩
    obtain hold | hnew := List.mem_append.1 hmem
    · exact ⟨(h.clients c hold).bounded, (h.clients c hold).told⟩
    · rw [List.mem_singleton.1 hnew]
      exact ⟨Nat.zero_le _, fun hlistens => by cases hlistens⟩
  | client index turn =>
    obtain ⟨c, hc, hstep⟩ := Option.bind_eq_some_iff.1 hs
    obtain ⟨c', hc', heq⟩ := Option.bind_eq_some_iff.1 hstep
    cases heq
    exact h.setClient ((h.clients c (List.mem_of_getElem? hc)).moves (clientStep_moves hc'))
  | disconnect index =>
    obtain ⟨c, hc, heq⟩ := Option.bind_eq_some_iff.1 hs
    cases heq
    exact h.setClient ((h.clients c (List.mem_of_getElem? hc)).moves .close)

/-- In every settled state, a connection that has read its ring and sent its snapshot
was last sent the status of now. -/
theorem status_stream_converges {status : CoreStatus} {echo : Option CoreType}
    (hr : (streamMachine texts encodes status echo).ReachableBy Timely s) (hsettled : s.Settled)
    (hc : c ∈ s.clients) (hwaiting : c.point = .waiting)
    (hdrained : c.nextEvent = s.events.tail)
    (hencodes : encodes (.coreStatusChanged (s.status texts)) = true) :
    lastStatus (c.frames encodes) = some (s.status texts) := by
  have h : Converging texts s := by
    refine hr.invariant ⟨⟨le_rfl, le_rfl, rfl⟩, fun c hc => by cases hc⟩ ?_
    intro s a t h htimely hs
    exact h.step htimely hs
  have htold := (h.clients c hc).told (by simp [Client.listens, hwaiting])
  rw [unread_tail hdrained] at htold
  have hknows : c.Knows texts s := htold.resolve_left hsettled.not_owes
  simp only [Client.Knows, hwaiting, Client.lastTold] at hknows
  exact lastStatus_filter hknows hencodes

def plainTexts : Texts := ⟨toString, id⟩

def encodesAll : Event String Nat → Bool := fun _ => true

def plainStream : Machine (Stream String Nat) (Action String Nat) :=
  streamMachine plainTexts encodesAll (CoreStatus.initialAt 0) none

def Stream.readFirst (s : Stream CoreType Frame) : Action CoreType Frame → Bool
  | .publish _ => match s.bridge.point with
    | .spawned => false
    | _ => true
  | _ => true

theorem timely_of_readFirst {a : Action CoreType Frame} (h : s.readFirst a = true) :
    Timely s a := by
  intro status ha hp
  subst ha
  simp [Stream.readFirst, hp] at h

/-- A client connects, the core starts, and the client reads both events. -/
def startSeen : List (Action String Nat) :=
  [.bridge .states, .connect] ++ List.replicate 5 (.client 0 .events) ++
    [.publish { CoreStatus.initialAt 5 with state := .running Epoch.one 42 }] ++
    List.replicate 5 (.bridge .states) ++ List.replicate 4 (.client 0 .events)

theorem startSeen_settles :
    ((plainStream.guarded Stream.readFirst).run plainStream.init startSeen).any (fun s =>
      decide (s.bridge.point = .waiting ∧ s.bridge.statesSeen = s.states.version ∧
        s.bridge.requestedSeen = s.requestedCore.version) &&
      s.clients.any fun c => decide (c.point = .waiting ∧ c.nextEvent = s.events.tail)) = true := by
  decide +kernel

theorem start_told :
    ∃ s c, plainStream.ReachableBy Timely s ∧ c ∈ s.clients ∧
      lastStatus (c.frames encodesAll) = some (s.status plainTexts) := by
  obtain ⟨s, hs, ho⟩ := (Option.any_eq_true _ _).1 startSeen_settles
  obtain ⟨hsettled, hclient⟩ := (Bool.and_eq_true _ _).mp ho
  obtain ⟨hwaiting, hstates, hecho⟩ := of_decide_eq_true hsettled
  obtain ⟨c, hc, hdrained⟩ := List.any_eq_true.1 hclient
  obtain ⟨hpoint, hnext⟩ := of_decide_eq_true hdrained
  have hreach := Machine.guarded_run_reachableBy (G := Timely)
    (fun _ _ _ hg => timely_of_readFirst hg) .init hs
  exact ⟨s, c, hreach, hc, status_stream_converges hreach ⟨hwaiting, hstates, hecho⟩ hc hpoint
    hnext rfl⟩

/-- A transition that the bridge's first read marks as seen is posted by nobody. -/
example : (plainStream.run plainStream.init ([.connect] ++ List.replicate 5 (.client 0 .events) ++
    [.publish { CoreStatus.initialAt 5 with state := .running Epoch.one 42 },
      .bridge .states])).any (fun s =>
      decide (s.bridge.point = .waiting ∧ s.bridge.statesSeen = s.states.version ∧
        s.bridge.requestedSeen = s.requestedCore.version) &&
      s.clients.any fun c => decide (c.point = .waiting ∧ c.nextEvent = s.events.tail ∧
        lastStatus (c.frames encodesAll) ≠ some (s.status plainTexts))) = true := by
  decide +kernel

end Chimera.Service
