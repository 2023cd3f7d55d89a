import Chimera.Service.Converge

/-! What a connection is sent: frames that say what the service held, in the order of
the ring, and a snapshot for whatever it missed. -/

namespace Chimera.Service
open Chimera.Model Chimera.Lib.Channel Chimera.Lib.Transition

variable {CoreType Frame : Type} {texts : Texts} {encodes : Event CoreType Frame → Bool}
  {s t : Stream CoreType Frame} {c c' : Client CoreType Frame}

/-! ## What a step leaves -/

/-- The watches remember their values and the ring its events. -/
structure Extends (s t : Stream CoreType Frame) : Prop where
  states : ∀ {v status}, s.states.at? v = some status → t.states.at? v = some status
  requestedCore : ∀ {v echo}, s.requestedCore.at? v = some echo →
    t.requestedCore.at? v = some echo
  sent : s.events.sent <+: t.events.sent
  capacity : t.events.capacity = s.events.capacity

theorem Extends.of_same (hstates : t.states.at? = s.states.at?)
    (hecho : t.requestedCore.at? = s.requestedCore.at?) (hevents : t.events = s.events) :
    Extends s t :=
  ⟨fun h => by rw [hstates]; exact h, fun h => by rw [hecho]; exact h,
    by rw [hevents], by rw [hevents]⟩

theorem Extends.tail (h : Extends s t) : s.events.tail ≤ t.events.tail := h.sent.length_le

theorem Extends.sent_at (h : Extends s t) {p : Nat} {posted : Posted CoreType Frame}
    (hp : s.events.sent[p]? = some posted) : t.events.sent[p]? = some posted := by
  obtain ⟨more, hmore⟩ := h.sent
  rw [← hmore, List.getElem?_append_left (List.getElem?_eq_some_iff.1 hp).1]
  exact hp

theorem Extends.sent_below (h : Extends s t) {p : Nat} (hp : p < s.events.tail) :
    t.events.sent[p]? = s.events.sent[p]? := by
  obtain ⟨more, hmore⟩ := h.sent
  rw [← hmore, List.getElem?_append_left hp]

/-- A step of the bridge keeps both watches, and posts one event at most. -/
theorem bridgeStep_extends {arm : Arm} (h : s.bridgeStep texts arm = some t) : Extends s t := by
  cases hp : s.bridge.point with
  | waiting =>
    cases arm with
    | states =>
      simp only [Stream.bridgeStep, hp] at h
      split at h <;> cases h <;> exact .of_same rfl rfl rfl
    | requestedCore =>
      simp only [Stream.bridgeStep, hp] at h
      split at h <;> cases h <;> exact .of_same rfl rfl rfl
  | sendStatus legacy infos stamp =>
    simp only [Stream.bridgeStep, hp, Option.some.injEq] at h
    subst h
    exact ⟨fun h => h, fun h => h, List.prefix_append _ _, rfl⟩
  | sendState next stamp =>
    simp only [Stream.bridgeStep, hp, Option.some.injEq] at h
    subst h
    exact ⟨fun h => h, fun h => h, List.prefix_append _ _, rfl⟩
  | done =>
    simp only [Stream.bridgeStep, hp] at h
    cases h
  | spawned | statesChanged | readStates raw version | requestedChanged | readEcho raw version =>
    simp only [Stream.bridgeStep, hp, Option.some.injEq] at h
    subst h
    exact .of_same rfl rfl rfl

/-- What a step does to the connections: nothing, a new one, or a move of one of them
that changes nothing else. -/
inductive ClientsStep (texts : Texts) (s t : Stream CoreType Frame) : Prop
  | same : t.clients = s.clients → ClientsStep texts s t
  | connect : t.clients = s.clients ++ [.init] → ClientsStep texts s t
  | moves {index : Nat} {c c' : Client CoreType Frame} : s.clients[index]? = some c →
      Moves texts s c c' → t = { s with clients := s.clients.set index c' } →
      ClientsStep texts s t

theorem step_extends {a : Action CoreType Frame} (hs : s.step texts encodes a = some t) :
    Extends s t ∧ ClientsStep texts s t := by
  cases a with
  | publish status =>
    simp only [Stream.step] at hs
    split at hs
    · cases hs
    · cases hs
      exact ⟨⟨Watch.send_at, fun h => h, List.prefix_rfl, rfl⟩, .same rfl⟩
  | publishRequestedCore committed =>
    simp only [Stream.step] at hs
    split at hs
    · cases hs
    · cases hs
      exact ⟨⟨fun h => h, Watch.send_at, List.prefix_rfl, rfl⟩, .same rfl⟩
  | closeStates =>
    cases hs
    exact ⟨.of_same rfl rfl rfl, .same rfl⟩
  | closeRequestedCore =>
    cases hs
    exact ⟨.of_same rfl rfl rfl, .same rfl⟩
  | bridge arm => exact ⟨bridgeStep_extends hs, .same (bridgeStep_clients hs)⟩
  | log frame =>
    simp only [Stream.step] at hs
    split at hs
    · cases hs
      exact ⟨.of_same rfl rfl rfl, .same rfl⟩
    · cases hs
      exact ⟨.of_same rfl rfl rfl, .same rfl⟩
  | connect =>
    cases hs
    exact ⟨.of_same rfl rfl rfl, .connect rfl⟩
  | client index turn =>
    obtain ⟨c, hc, hstep⟩ := Option.bind_eq_some_iff.1 hs
    obtain ⟨c', hc', heq⟩ := Option.bind_eq_some_iff.1 hstep
    cases heq
    exact ⟨.of_same rfl rfl rfl, .moves hc (clientStep_moves hc') rfl⟩
  | disconnect index =>
    obtain ⟨c, hc, heq⟩ := Option.bind_eq_some_iff.1 hs
    cases heq
    exact ⟨.of_same rfl rfl rfl, .moves hc .close rfl⟩

/-- What holds of a connection from its start, whatever the others do and whatever it
does itself, holds of every connection. -/
theorem client_invariant {status : CoreStatus} {echo : Option CoreType}
    {J : Stream CoreType Frame → Client CoreType Frame → Prop}
    (hr : (streamMachine texts encodes status echo).Reachable s)
    (start : ∀ s, J s .init) (grow : ∀ {s t c}, Extends s t → J s c → J t c)
    (move : ∀ {s c c'}, (streamMachine texts encodes status echo).Reachable s →
      Moves texts s c c' → J s c → J s c') :
    ∀ c ∈ s.clients, J s c := by
  refine hr.invariant_of (J := (streamMachine texts encodes status echo).Reachable)
    (I := fun s => ∀ c ∈ s.clients, J s c) (fun s hs => hs) (fun c hc => by cases hc) ?_
  intro s a t hreach h _ hs c hc
  obtain ⟨hgrows, hclients⟩ := step_extends hs
  cases hclients with
  | same heq => exact grow hgrows (h c (heq ▸ hc))
  | connect heq =>
    rw [heq] at hc
    obtain hold | hnew := List.mem_append.1 hc
    · exact grow hgrows (h c hold)
    · rw [List.mem_singleton.1 hnew]
      exact start t
  | @moves index d d' hd hmoves heq =>
    subst heq
    obtain hold | rfl := List.mem_or_eq_of_mem_set hc
    · exact grow hgrows (h c hold)
    · exact grow hgrows (move hreach hmoves (h d (List.mem_of_getElem? hd)))

/-! ## What the ring holds -/

/-- The watches had these values at these versions. -/
def Stream.Held (s : Stream CoreType Frame) (stamp : Stamp) (status : CoreStatus)
    (echo : Option CoreType) : Prop :=
  s.states.at? stamp.states = some status ∧ s.requestedCore.at? stamp.requested = some echo

theorem Stream.Held.grow {stamp : Stamp} {status : CoreStatus} {echo : Option CoreType}
    (h : s.Held stamp status echo) (hg : Extends s t) : t.Held stamp status echo :=
  ⟨hg.states h.1, hg.requestedCore h.2⟩

/-- The event says what the watches held at the versions of its stamp. -/
def Posted.Genuine (texts : Texts) (s : Stream CoreType Frame) (posted : Posted CoreType Frame) :
    Prop :=
  ∃ status echo, s.Held posted.stamp status echo ∧
    (posted.event = .coreStatusChanged (projectCoreInfos texts status echo) ∨
      posted.event = .coreStateChanged (mapCoreState status.state))

/-- What the bridge has read and not yet posted. -/
def Stream.Holds (texts : Texts) (s : Stream CoreType Frame) : BridgePoint CoreType → Prop
  | .readStates raw version | .readEcho raw version => s.states.at? version = some raw
  | .sendStatus legacy infos stamp => ∃ status echo, s.Held stamp status echo ∧
      infos = projectCoreInfos texts status echo ∧
      ∀ next, legacy = some next → next = mapCoreState status.state
  | .sendState next stamp => ∃ status echo, s.Held stamp status echo ∧
      next = mapCoreState status.state
  | _ => True

structure Genuine (texts : Texts) (s : Stream CoreType Frame) : Prop where
  bridge : s.Holds texts s.bridge.point
  ring : ∀ posted ∈ s.events.sent, posted.Genuine texts s

theorem Posted.Genuine.grow {posted : Posted CoreType Frame} (h : posted.Genuine texts s)
    (hg : Extends s t) : posted.Genuine texts t := by
  obtain ⟨status, echo, hheld, hevent⟩ := h
  exact ⟨status, echo, hheld.grow hg, hevent⟩

theorem Stream.Holds.grow {point : BridgePoint CoreType} (h : s.Holds texts point)
    (hg : Extends s t) : t.Holds texts point := by
  cases point with
  | readStates raw version => exact hg.states h
  | readEcho raw version => exact hg.states h
  | sendStatus legacy infos stamp =>
    obtain ⟨status, echo, hheld, heq, hlegacy⟩ := h
    exact ⟨status, echo, hheld.grow hg, heq, hlegacy⟩
  | sendState next stamp =>
    obtain ⟨status, echo, hheld, heq⟩ := h
    exact ⟨status, echo, hheld.grow hg, heq⟩
  | spawned | waiting | statesChanged | requestedChanged | done => trivial

theorem legacy_some {bridge : Bridge CoreType} {raw : CoreStatus} {next : IpcState}
    (h : bridge.legacy raw = some next) :
    next = mapCoreState raw.state ∧ bridge.last ≠ next := by
  simp only [Bridge.legacy] at h
  split at h
  · cases h
  · split at h
    · cases h
    · rename_i hdiffer
      cases h
      exact ⟨rfl, fun heq => hdiffer (sameIpcState_iff.2 heq)⟩

/-- Only the bridge posts. -/
theorem step_bridge {a : Action CoreType Frame} (hs : s.step texts encodes a = some t) :
    (∃ arm, s.bridgeStep texts arm = some t) ∨ (t.bridge = s.bridge ∧ t.events = s.events) := by
  cases a with
  | bridge arm => exact .inl ⟨arm, hs⟩
  | publish status =>
    simp only [Stream.step] at hs
    split at hs <;> cases hs
    exact .inr ⟨rfl, rfl⟩
  | publishRequestedCore committed =>
    simp only [Stream.step] at hs
    split at hs <;> cases hs
    exact .inr ⟨rfl, rfl⟩
  | closeStates | closeRequestedCore | connect =>
    cases hs
    exact .inr ⟨rfl, rfl⟩
  | log frame =>
    simp only [Stream.step] at hs
    split at hs <;> cases hs
    · exact .inr ⟨rfl, rfl⟩
    · exact .inr ⟨rfl, rfl⟩
  | client index turn =>
    obtain ⟨c, hc, hstep⟩ := Option.bind_eq_some_iff.1 hs
    obtain ⟨c', hc', heq⟩ := Option.bind_eq_some_iff.1 hstep
    cases heq
    exact .inr ⟨rfl, rfl⟩
  | disconnect index =>
    obtain ⟨c, hc, heq⟩ := Option.bind_eq_some_iff.1 hs
    cases heq
    exact .inr ⟨rfl, rfl⟩

theorem Genuine.bridgeStep {arm : Arm} (h : Genuine texts s)
    (hs : s.bridgeStep texts arm = some t) : Genuine texts t := by
  have hg := bridgeStep_extends hs
  have hbridge := h.bridge
  have hring : ∀ posted ∈ s.events.sent, posted.Genuine texts t :=
    fun posted hmem => (h.ring posted hmem).grow hg
  cases hp : s.bridge.point with
  | waiting =>
    cases arm with
    | states =>
      simp only [Stream.bridgeStep, hp] at hs
      split at hs <;> cases hs <;> exact ⟨trivial, hring⟩
    | requestedCore =>
      simp only [Stream.bridgeStep, hp] at hs
      split at hs <;> cases hs <;> exact ⟨trivial, hring⟩
  | spawned =>
    simp only [Stream.bridgeStep, hp, Option.some.injEq] at hs
    subst hs
    exact ⟨trivial, hring⟩
  | statesChanged | requestedChanged =>
    simp only [Stream.bridgeStep, hp, Option.some.injEq] at hs
    subst hs
    exact ⟨Watch.at_version, hring⟩
  | readStates raw version =>
    simp only [Stream.bridgeStep, hp, Option.some.injEq] at hs
    subst hs
    rw [hp] at hbridge
    exact ⟨⟨raw, s.requestedCore.value, ⟨hbridge, Watch.at_version⟩, rfl,
      fun next hnext => (legacy_some hnext).1⟩, hring⟩
  | readEcho raw version =>
    simp only [Stream.bridgeStep, hp, Option.some.injEq] at hs
    subst hs
    rw [hp] at hbridge
    exact ⟨⟨raw, s.requestedCore.value, ⟨hbridge, Watch.at_version⟩, rfl,
      fun next hnext => by cases hnext⟩, hring⟩
  | sendStatus legacy infos stamp =>
    simp only [Stream.bridgeStep, hp, Option.some.injEq] at hs
    rw [hp] at hbridge
    obtain ⟨status, echo, hheld, hinfos, hlegacy⟩ := hbridge
    subst hs
    refine ⟨?_, fun posted hmem => ?_⟩
    · cases legacy with
      | none => trivial
      | some next => exact ⟨status, echo, hheld, hlegacy next rfl⟩
    · obtain hold | hnew := List.mem_append.1 hmem
      · exact hring posted hold
      · rw [List.mem_singleton.1 hnew]
        exact ⟨status, echo, hheld, .inl (by rw [hinfos])⟩
  | sendState next stamp =>
    simp only [Stream.bridgeStep, hp, Option.some.injEq] at hs
    rw [hp] at hbridge
    obtain ⟨status, echo, hheld, hnext⟩ := hbridge
    subst hs
    refine ⟨trivial, fun posted hmem => ?_⟩
    obtain hold | hnew := List.mem_append.1 hmem
    · exact hring posted hold
    · rw [List.mem_singleton.1 hnew]
      exact ⟨status, echo, hheld, .inr (by rw [hnext])⟩
  | done =>
    simp only [Stream.bridgeStep, hp] at hs
    cases hs

theorem genuine {status : CoreStatus} {echo : Option CoreType}
    (hr : (streamMachine texts encodes status echo).Reachable s) : Genuine texts s := by
  refine hr.invariant ⟨trivial, fun posted hmem => by cases hmem⟩ ?_
  intro s a t h _ hs
  obtain ⟨arm, hbridge⟩ | ⟨hbridge, hevents⟩ := step_bridge hs
  · exact h.bridgeStep hbridge
  · have hg := (step_extends hs).1
    refine ⟨?_, fun posted hmem => (h.ring posted (hevents ▸ hmem)).grow hg⟩
    rw [hbridge]
    exact h.bridge.grow hg

/-! ## The order of what is sent -/

/-- What the connection has sent, and what it is sending. -/
def Client.given (c : Client CoreType Frame) : List (Delivery CoreType Frame) :=
  match c.point with
  | .sending delivery => c.handled ++ [delivery]
  | _ => c.handled

theorem handled_given : ∃ rest, c.given = c.handled ++ rest := by
  unfold Client.given
  split
  · exact ⟨_, rfl⟩
  · exact ⟨[], (List.append_nil _).symm⟩

/-- A snapshot says what the watches held, and an event is the ring's own. -/
def Delivery.Genuine (texts : Texts) (s : Stream CoreType Frame) :
    Delivery CoreType Frame → Prop
  | .snapshot infos stamp => ∃ status echo, s.Held stamp status echo ∧
      infos = projectCoreInfos texts status echo
  | .event position content => ∃ posted, s.events.sent[position]? = some posted ∧
      posted.event = content
  | .log _ => True

/-- The stamp is not older than what the ring has at a position. -/
def Stream.Covers (s : Stream CoreType Frame) (stamp : Stamp) (position : Nat) : Prop :=
  ∀ posted, s.events.sent[position]? = some posted →
    posted.stamp.states ≤ stamp.states ∧ posted.stamp.requested ≤ stamp.requested

/-- Every position of the ring from `first` to `last` was sent as it is, or a snapshot
that is not older was. -/
def Told (s : Stream CoreType Frame) (first last : Nat) (l : List (Delivery CoreType Frame)) :
    Prop :=
  ∀ p, first ≤ p → p < last → (∃ content, .event p content ∈ l) ∨
    ∃ infos stamp, .snapshot infos stamp ∈ l ∧ s.Covers stamp p

/-- What is due before the connection reads its ring again. -/
def Client.UpTo (s : Stream CoreType Frame) (c : Client CoreType Frame) : Prop :=
  match c.point with
  | .snapshot _ version => ∀ p, p < c.nextEvent → ∀ posted, s.events.sent[p]? = some posted →
      posted.stamp.states ≤ version
  | .sending _ | .waiting | .logLag => Told s c.first c.nextEvent c.given
  | _ => True

structure InOrder (texts : Texts) (s : Stream CoreType Frame) (c : Client CoreType Frame) :
    Prop where
  bounded : c.first ≤ c.nextEvent ∧ c.nextEvent ≤ s.events.tail
  held : ∀ status version, c.point = .snapshot status version →
    s.states.at? version = some status
  genuine : ∀ d ∈ c.given, d.Genuine texts s
  below : ∀ p content, .event p content ∈ c.given → p < c.nextEvent
  order : ∀ before q content after, c.given = before ++ .event q content :: after →
    (∀ p content, .event p content ∈ before → p < q) ∧ Told s c.first q before
  upTo : c.UpTo s

theorem Stream.Covers.grow {stamp : Stamp} {p : Nat} (h : s.Covers stamp p) (hg : Extends s t)
    (hp : p < s.events.tail) : t.Covers stamp p := by
  intro posted hposted
  rw [hg.sent_below hp] at hposted
  exact h posted hposted

theorem Told.grow {first last : Nat} {l : List (Delivery CoreType Frame)}
    (h : Told s first last l) (hg : Extends s t) (hlast : last ≤ s.events.tail) :
    Told t first last l := by
  intro p hfirst hp
  obtain hevent | ⟨infos, stamp, hmem, hcovers⟩ := h p hfirst hp
  · exact .inl hevent
  · exact .inr ⟨infos, stamp, hmem, hcovers.grow hg (hp.trans_le hlast)⟩

theorem Told.mono {first last : Nat} {l m : List (Delivery CoreType Frame)}
    (h : Told s first last l) (hsub : ∀ d ∈ l, d ∈ m) : Told s first last m := by
  intro p hfirst hp
  obtain ⟨content, hmem⟩ | ⟨infos, stamp, hmem, hcovers⟩ := h p hfirst hp
  · exact .inl ⟨content, hsub _ hmem⟩
  · exact .inr ⟨infos, stamp, hsub _ hmem, hcovers⟩

theorem InOrder.grow (h : InOrder texts s c) (hg : Extends s t) : InOrder texts t c where
  bounded := ⟨h.bounded.1, h.bounded.2.trans hg.tail⟩
  held := fun status version hp => hg.states (h.held status version hp)
  genuine := by
    intro d hd
    have hgenuine := h.genuine d hd
    cases d with
    | snapshot infos stamp =>
      obtain ⟨status, echo, hheld, heq⟩ := hgenuine
      exact ⟨status, echo, hheld.grow hg, heq⟩
    | event p content =>
      obtain ⟨posted, hposted, heq⟩ := hgenuine
      exact ⟨posted, hg.sent_at hposted, heq⟩
    | log frame => trivial
  below := h.below
  order := by
    intro before q content after heq
    obtain ⟨hlt, htold⟩ := h.order before q content after heq
    refine ⟨hlt, htold.grow hg ?_⟩
    have hq := h.below q content (by rw [heq]; simp)
    exact hq.le.trans h.bounded.2
  upTo := by
    have hupTo := h.upTo
    unfold Client.UpTo at hupTo ⊢
    split
    · rename_i status version hp
      rw [hp] at hupTo
      intro p hlt posted hposted
      rw [hg.sent_below (hlt.trans_le h.bounded.2)] at hposted
      exact hupTo p hlt posted hposted
    · rename_i delivery hp
      rw [hp] at hupTo
      exact hupTo.grow hg h.bounded.2
    · rename_i hp
      rw [hp] at hupTo
      exact hupTo.grow hg h.bounded.2
    · rename_i hp
      rw [hp] at hupTo
      exact hupTo.grow hg h.bounded.2
    · trivial

theorem snoc_split {α : Type} {l before after : List α} {d e : α}
    (h : l ++ [d] = before ++ e :: after) :
    (after = [] ∧ l = before ∧ d = e) ∨ ∃ rest, after = rest ++ [d] ∧ l = before ++ e :: rest := by
  obtain rfl | ⟨rest, last, rfl⟩ := List.eq_nil_or_concat after
  · obtain ⟨hl, hd⟩ := List.append_inj' h rfl
    exact .inl ⟨rfl, hl, List.singleton_injective hd⟩
  · rw [List.concat_eq_append, ← List.cons_append, ← List.append_assoc] at h
    obtain ⟨hl, hd⟩ := List.append_inj' h rfl
    rw [List.singleton_injective hd, List.concat_eq_append]
    exact .inr ⟨rest, rfl, hl⟩

theorem Told.later {first next last : Nat} {l : List (Delivery CoreType Frame)}
    (h : Told s first last l) (hle : first ≤ next) : Told s next last l :=
  fun p hfirst hp => h p (hle.trans hfirst) hp

/-- What is posted carries versions that the watches have reached. -/
theorem Genuine.stamp_le (hgenuine : Genuine texts s) {p : Nat} {posted : Posted CoreType Frame}
    (hposted : s.events.sent[p]? = some posted) :
    posted.stamp.states ≤ s.states.version ∧
      posted.stamp.requested ≤ s.requestedCore.version := by
  obtain ⟨status, echo, hheld, -⟩ := hgenuine.ring posted (List.mem_of_getElem? hposted)
  exact ⟨Watch.at_le hheld.1, Watch.at_le hheld.2⟩

/-- A frame that is no event of the ring goes out after the others. -/
theorem InOrder.send (h : InOrder texts s c) (d : Delivery CoreType Frame)
    (hgiven : c.given = c.handled) (hd : ∀ p content, d ≠ .event p content)
    (hgenuine : d.Genuine texts s) (htold : Told s c.first c.nextEvent (c.handled ++ [d]))
    (hc' : c' = { c with point := .sending d, nextLog := c'.nextLog }) : InOrder texts s c' := by
  have hgiven' : c'.given = c.handled ++ [d] := by rw [hc']; rfl
  rw [hc'] at hgiven' ⊢
  refine ⟨h.bounded, fun status version hp => (by cases hp), ?_, ?_, ?_, htold⟩
  · intro other hother
    obtain hold | hnew := List.mem_append.1 (hgiven' ▸ hother)
    · exact h.genuine other (hgiven ▸ hold)
    · rw [List.mem_singleton.1 hnew]
      exact hgenuine
  · intro p content hmem
    obtain hold | hnew := List.mem_append.1 (hgiven' ▸ hmem)
    · exact h.below p content (hgiven ▸ hold)
    · exact absurd (List.mem_singleton.1 hnew).symm (hd p content)
  · intro before q content after heq
    rw [hgiven'] at heq
    obtain ⟨-, -, hlast⟩ | ⟨rest, -, hhandled⟩ := snoc_split heq
    · exact absurd hlast (hd q content)
    · exact h.order before q content rest (hgiven.trans hhandled)

theorem InOrder.moves (hring : Genuine texts s) (h : InOrder texts s c)
    (hm : Moves texts s c c') : InOrder texts s c' := by
  cases hm with
  | close =>
    obtain ⟨rest, hrest⟩ := handled_given (c := c)
    refine ⟨h.bounded, fun status version hp => (by cases hp), ?_, ?_, ?_, trivial⟩
    · exact fun d hd => h.genuine d (hrest ▸ List.mem_append_left rest hd)
    · exact fun p content hmem => h.below p content (hrest ▸ List.mem_append_left rest hmem)
    · intro before q content after heq
      refine h.order before q content (after ++ rest) ?_
      have hhandled : c.handled = before ++ .event q content :: after := heq
      rw [hrest, hhandled, List.append_assoc, List.cons_append]
  | subscribe hp =>
    have hgiven : c.given = c.handled := by simp [Client.given, hp]
    refine ⟨⟨le_rfl, le_rfl⟩, fun status version hp => (by cases hp), ?_, ?_, ?_, trivial⟩
    · exact fun d hd => h.genuine d (hgiven ▸ hd)
    · exact fun p content hmem => (h.below p content (hgiven ▸ hmem)).trans_le h.bounded.2
    · intro before q content after heq
      obtain ⟨hlt, htold⟩ := h.order before q content after (hgiven.trans heq)
      exact ⟨hlt, htold.later (h.bounded.1.trans h.bounded.2)⟩
  | subscribeLogs hp =>
    have hgiven : c.given = c.handled := by simp [Client.given, hp]
    exact ⟨h.bounded, fun status version hp => (by cases hp), hgiven ▸ h.genuine, hgiven ▸ h.below,
      hgiven ▸ h.order, trivial⟩
  | read hp =>
    have hgiven : c.given = c.handled := by simp [Client.given, hp]
    refine ⟨h.bounded, fun status version heq => ?_, hgiven ▸ h.genuine, hgiven ▸ h.below,
      hgiven ▸ h.order, fun p _ posted hposted => (hring.stamp_le hposted).1⟩
    cases heq
    exact Watch.at_version
  | @project status version hp =>
    have hgiven : c.given = c.handled := by simp [Client.given, hp]
    have hupTo := h.upTo
    simp only [Client.UpTo, hp] at hupTo
    refine h.send (.snapshot _ _) hgiven (fun p content heq => by cases heq)
      ⟨status, s.requestedCore.value, ⟨h.held status version hp, Watch.at_version⟩, rfl⟩ ?_ rfl
    intro p _ hlt
    exact .inr ⟨_, _, List.mem_append_right _ (List.mem_singleton_self _), fun posted hposted =>
      ⟨hupTo p hlt posted hposted, (hring.stamp_le hposted).2⟩⟩
  | @handle delivery hp =>
    have hgiven : c.given = c.handled ++ [delivery] := by simp [Client.given, hp]
    have hupTo := h.upTo
    simp only [Client.UpTo, hp] at hupTo
    exact ⟨h.bounded, fun status version hp => (by cases hp), hgiven ▸ h.genuine, hgiven ▸ h.below,
      hgiven ▸ h.order, hgiven ▸ hupTo⟩
  | @log frame next hp =>
    have hgiven : c.given = c.handled := by simp [Client.given, hp]
    have hupTo := h.upTo
    simp only [Client.UpTo, hp, hgiven] at hupTo
    exact h.send (.log frame) hgiven (fun p content heq => by cases heq) trivial
      (hupTo.mono fun d hd => List.mem_append_left _ hd) rfl
  | logLag hp | resubscribeLogs hp =>
    have hgiven : c.given = c.handled := by simp [Client.given, hp]
    have hupTo := h.upTo
    simp only [Client.UpTo, hp] at hupTo
    exact ⟨h.bounded, fun status version hp => (by cases hp), hgiven ▸ h.genuine, hgiven ▸ h.below,
      hgiven ▸ h.order, hgiven ▸ hupTo⟩
  | @event posted hp hposted =>
    have hgiven : c.given = c.handled := by simp [Client.given, hp]
    have hupTo := h.upTo
    simp only [Client.UpTo, hp, hgiven] at hupTo
    refine ⟨⟨h.bounded.1.trans (Nat.le_succ _), (List.getElem?_eq_some_iff.1 hposted).1⟩,
      fun status version hp => (by cases hp), ?_, ?_, ?_, ?_⟩
    · intro d hd
      obtain hold | hnew := List.mem_append.1 hd
      · exact h.genuine d (hgiven ▸ hold)
      · rw [List.mem_singleton.1 hnew]
        exact ⟨posted, hposted, rfl⟩
    · intro p content hmem
      obtain hold | hnew := List.mem_append.1 hmem
      · exact (h.below p content (hgiven ▸ hold)).trans (Nat.lt_succ_self _)
      · cases List.mem_singleton.1 hnew
        exact Nat.lt_succ_self _
    · intro before q content after heq
      obtain ⟨-, rfl, hlast⟩ | ⟨rest, -, hhandled⟩ := snoc_split heq
      · cases hlast
        exact ⟨fun p content hmem => h.below p content (hgiven ▸ hmem), hupTo⟩
      · exact h.order before q content rest (hgiven.trans hhandled)
    · intro p hfirst hlt
      obtain hlt | rfl := Nat.lt_succ_iff_lt_or_eq.1 hlt
      · exact (hupTo.mono fun d hd => List.mem_append_left _ hd) p hfirst hlt
      · exact .inl ⟨posted.event, List.mem_append_right _ (List.mem_singleton_self _)⟩
  | statusLag hp hlt htail =>
    have hgiven : c.given = c.handled := by simp [Client.given, hp]
    have hbounded : s.events.oldest ≤ s.events.tail := by omega
    exact ⟨⟨h.bounded.1.trans hlt.le, hbounded⟩, fun status version hp => (by cases hp),
      hgiven ▸ h.genuine, fun p content hmem => (h.below p content (hgiven ▸ hmem)).trans hlt,
      hgiven ▸ h.order, trivial⟩
  | resubscribe hp =>
    have hgiven : c.given = c.handled := by simp [Client.given, hp]
    exact ⟨⟨h.bounded.1.trans h.bounded.2, le_rfl⟩, fun status version hp => (by cases hp),
      hgiven ▸ h.genuine,
      fun p content hmem => (h.below p content (hgiven ▸ hmem)).trans_le h.bounded.2,
      hgiven ▸ h.order, trivial⟩

theorem inOrder {status : CoreStatus} {echo : Option CoreType}
    (hr : (streamMachine texts encodes status echo).Reachable s) :
    ∀ c ∈ s.clients, InOrder texts s c := by
  refine client_invariant hr ?_ (fun hg h => h.grow hg) fun hreach hm h => h.moves (genuine hreach) hm
  intro s
  refine ⟨⟨le_rfl, Nat.zero_le _⟩, fun status version hp => (by cases hp), fun d hd => (by cases hd),
    fun p content hmem => (by cases hmem), ?_, trivial⟩
  intro before q content after heq
  cases before <;> cases heq

/-- The events of the ring say what the service held, and a connection is sent only these
and snapshots that say so too. The events reach it in the order of the ring, and one that
it is not sent is replaced by a snapshot that is not older, before any later event. -/
theorem no_update_lost {status : CoreStatus} {echo : Option CoreType}
    (hr : (streamMachine texts encodes status echo).Reachable s) (hc : c ∈ s.clients) :
    (∀ posted ∈ s.events.sent, posted.Genuine texts s) ∧
    (∀ d ∈ c.handled, d.Genuine texts s) ∧
    (∀ before q content after, c.handled = before ++ .event q content :: after →
      (∀ p content, .event p content ∈ before → p < q) ∧ Told s c.first q before) ∧
    (c.point = .waiting → Told s c.first c.nextEvent c.handled) := by
  have h := inOrder hr c hc
  obtain ⟨rest, hgiven⟩ := handled_given (c := c)
  refine ⟨(genuine hr).ring, fun d hd => h.genuine d (hgiven ▸ List.mem_append_left rest hd),
    ?_, ?_⟩
  · intro before q content after heq
    refine h.order before q content (after ++ rest) ?_
    rw [hgiven, heq, List.append_assoc, List.cons_append]
  · intro hp
    have hupTo := h.upTo
    simpa [Client.UpTo, Client.given, hp] using hupTo

theorem startSeen_client :
    (plainStream.run plainStream.init startSeen).any (fun s =>
      s.clients.any fun c => decide (c.point = .waiting ∧ c.handled.length = 3)) = true := by
  decide +kernel

theorem start_in_order :
    ∃ s c, plainStream.Reachable s ∧ c ∈ s.clients ∧ c.handled.length = 3 ∧
      Told s c.first c.nextEvent c.handled := by
  obtain ⟨s, hs, ho⟩ := (Option.any_eq_true _ _).1 startSeen_client
  obtain ⟨c, hc, hhandled⟩ := List.any_eq_true.1 ho
  obtain ⟨hpoint, hlength⟩ := of_decide_eq_true hhandled
  have hreach := Machine.run_reachable .init hs
  exact ⟨s, c, hreach, hc, hlength, (no_update_lost hreach hc).2.2.2 hpoint⟩

/-! ## The cost of falling behind -/

def Delivery.isSnapshot : Delivery CoreType Frame → Bool
  | .snapshot _ _ => true
  | _ => false

def Delivery.isEvent : Delivery CoreType Frame → Bool
  | .event _ _ => true
  | _ => false

/-- The snapshot of the subscription is still to come. -/
def Client.awaitsSnapshot (c : Client CoreType Frame) : Bool :=
  match c.point with
  | .opened | .subscribedEvents | .subscribed | .snapshot _ _ => true
  | _ => false

/-- Each resynchronisation has skipped more than a whole ring. -/
structure Sparing (s : Stream CoreType Frame) (c : Client CoreType Frame) : Prop where
  opened : c.point = .opened → c.handled = [] ∧ c.resyncs = 0
  bounded : c.first ≤ c.nextEvent ∧ c.nextEvent ≤ s.events.tail
  snapshots : c.given.countP Delivery.isSnapshot + c.awaitsSnapshot.toNat ≤ c.resyncs + 1
  events : c.given.countP Delivery.isEvent + c.resyncs * (eventChannelCapacity + 1) ≤
    c.nextEvent - c.first
  lag : c.point = .statusLag → c.nextEvent + eventChannelCapacity ≤ s.events.tail ∧
    c.given.countP Delivery.isEvent + c.resyncs * (eventChannelCapacity + 1) + 1 ≤
      c.nextEvent - c.first

theorem Sparing.grow (h : Sparing s c) (hg : Extends s t) : Sparing t c :=
  ⟨h.opened, ⟨h.bounded.1, h.bounded.2.trans hg.tail⟩, h.snapshots, h.events,
    fun hp => ⟨(h.lag hp).1.trans hg.tail, (h.lag hp).2⟩⟩

theorem Sparing.moves (hcapacity : s.events.capacity = eventChannelCapacity) (h : Sparing s c)
    (hm : Moves texts s c c') : Sparing s c' := by
  have hsnapshots := h.snapshots
  have hevents := h.events
  cases hm with
  | close =>
    obtain ⟨rest, hrest⟩ := handled_given (c := c)
    rw [hrest, List.countP_append] at hsnapshots hevents
    refine ⟨(fun hp => by cases hp), h.bounded, ?_, ?_, fun hp => by cases hp⟩
    · change c.handled.countP Delivery.isSnapshot + 0 ≤ c.resyncs + 1
      omega
    · change c.handled.countP Delivery.isEvent + c.resyncs * (eventChannelCapacity + 1) ≤
        c.nextEvent - c.first
      omega
  | subscribe hp =>
    obtain ⟨hhandled, hresyncs⟩ := h.opened hp
    refine ⟨(fun hp => by cases hp), ⟨le_rfl, le_rfl⟩, ?_, ?_, fun hp => by cases hp⟩
    · simp [Client.given, Client.awaitsSnapshot, hhandled]
    · simp [Client.given, hhandled, hresyncs]
  | subscribeLogs hp | read hp =>
    simp only [Client.given, Client.awaitsSnapshot, hp] at hsnapshots hevents
    exact ⟨(fun hp => by cases hp), h.bounded, hsnapshots, hevents, fun hp => by cases hp⟩
  | project hp =>
    simp only [Client.given, Client.awaitsSnapshot, hp] at hsnapshots hevents
    refine ⟨(fun hp => by cases hp), h.bounded, ?_, ?_, fun hp => by cases hp⟩
    · simpa [Client.given, Client.awaitsSnapshot, Delivery.isSnapshot] using hsnapshots
    · simpa [Client.given, Delivery.isEvent] using hevents
  | handle hp =>
    simp only [Client.given, Client.awaitsSnapshot, hp] at hsnapshots hevents
    exact ⟨(fun hp => by cases hp), h.bounded, hsnapshots, hevents, fun hp => by cases hp⟩
  | log hp =>
    simp only [Client.given, Client.awaitsSnapshot, hp] at hsnapshots hevents
    refine ⟨(fun hp => by cases hp), h.bounded, ?_, ?_, fun hp => by cases hp⟩
    · simpa [Client.given, Client.awaitsSnapshot, Delivery.isSnapshot] using hsnapshots
    · simpa [Client.given, Delivery.isEvent] using hevents
  | logLag hp | resubscribeLogs hp =>
    simp only [Client.given, Client.awaitsSnapshot, hp] at hsnapshots hevents
    exact ⟨(fun hp => by cases hp), h.bounded, hsnapshots, hevents, fun hp => by cases hp⟩
  | event hp hposted =>
    simp only [Client.given, Client.awaitsSnapshot, hp] at hsnapshots hevents
    have hlt : c.nextEvent < s.events.tail := (List.getElem?_eq_some_iff.1 hposted).1
    refine ⟨(fun hp => by cases hp), ⟨h.bounded.1.trans (Nat.le_succ _), hlt⟩, ?_, ?_, fun hp => by cases hp⟩
    · simpa [Client.given, Client.awaitsSnapshot, Delivery.isSnapshot] using hsnapshots
    · have hfirst := h.bounded.1
      simp only [Client.given, List.countP_append, List.countP_singleton, Delivery.isEvent, if_true]
      omega
  | statusLag hp hlt htail =>
    simp only [Client.given, Client.awaitsSnapshot, hp] at hsnapshots hevents
    have hfirst := h.bounded.1
    refine ⟨(fun hp => by cases hp), ⟨by dsimp only; omega, by dsimp only; omega⟩, hsnapshots, ?_, fun _ => ⟨?_, ?_⟩⟩
    · change c.handled.countP Delivery.isEvent + c.resyncs * (eventChannelCapacity + 1) ≤
        s.events.oldest - c.first
      omega
    · change s.events.oldest + eventChannelCapacity ≤ s.events.tail
      omega
    · change c.handled.countP Delivery.isEvent + c.resyncs * (eventChannelCapacity + 1) + 1 ≤
        s.events.oldest - c.first
      omega
  | resubscribe hp =>
    simp only [Client.given, Client.awaitsSnapshot, hp] at hsnapshots hevents
    obtain ⟨htail, hlag⟩ := h.lag hp
    simp only [Client.given, hp] at hlag
    refine ⟨(fun hp => by cases hp), ⟨h.bounded.1.trans h.bounded.2, le_rfl⟩, ?_, ?_, fun hp => by cases hp⟩
    · simpa [Client.given, Client.awaitsSnapshot] using hsnapshots
    · change c.handled.countP Delivery.isEvent + (c.resyncs + 1) * (eventChannelCapacity + 1) ≤
        s.events.tail - c.first
      rw [Nat.succ_mul]
      omega

theorem capacity_eq {status : CoreStatus} {echo : Option CoreType}
    (hr : (streamMachine texts encodes status echo).Reachable s) :
    s.events.capacity = eventChannelCapacity := by
  refine hr.invariant (I := fun s => s.events.capacity = eventChannelCapacity) rfl ?_
  intro s a t h _ hs
  exact (step_extends hs).1.capacity.trans h

/-- A snapshot is sent once, and once more for every 257 status events that were posted
since: whatever the logs do. -/
theorem snapshots_bounded {status : CoreStatus} {echo : Option CoreType}
    (hr : (streamMachine texts encodes status echo).Reachable s) (hc : c ∈ s.clients) :
    c.handled.countP Delivery.isSnapshot * (eventChannelCapacity + 1) +
        c.handled.countP Delivery.isEvent ≤
      eventChannelCapacity + 1 + (s.events.tail - c.first) := by
  have h : Sparing s c := by
    refine client_invariant hr ?_ (fun hg h => h.grow hg)
      (fun hreach hm h => h.moves (capacity_eq hreach) hm) c hc
    intro s
    refine ⟨fun _ => ⟨rfl, rfl⟩, ⟨le_rfl, Nat.zero_le _⟩, ?_, ?_, fun hp => by cases hp⟩
    · simp [Client.init, Client.given, Client.awaitsSnapshot]
    · simp [Client.init, Client.given]
  obtain ⟨rest, hgiven⟩ := handled_given (c := c)
  have hsnapshots := h.snapshots
  have hevents := h.events
  rw [hgiven, List.countP_append] at hsnapshots hevents
  have hle : c.handled.countP Delivery.isSnapshot ≤ c.resyncs + 1 := by omega
  have hmul := Nat.mul_le_mul_right (eventChannelCapacity + 1) hle
  rw [Nat.succ_mul] at hmul
  have htail := Nat.sub_le_sub_right h.bounded.2 c.first
  omega

theorem start_costs_one_snapshot :
    ∃ s c, plainStream.Reachable s ∧ c ∈ s.clients ∧ c.handled.length = 3 ∧
      c.handled.countP Delivery.isSnapshot * (eventChannelCapacity + 1) +
          c.handled.countP Delivery.isEvent ≤
        eventChannelCapacity + 1 + (s.events.tail - c.first) := by
  obtain ⟨s, hs, ho⟩ := (Option.any_eq_true _ _).1 startSeen_client
  obtain ⟨c, hc, hhandled⟩ := List.any_eq_true.1 ho
  obtain ⟨-, hlength⟩ := of_decide_eq_true hhandled
  have hreach := Machine.run_reachable .init hs
  exact ⟨s, c, hreach, hc, hlength, snapshots_bounded hreach hc⟩

end Chimera.Service
