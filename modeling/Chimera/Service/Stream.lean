import Chimera.Lib.Channel
import Chimera.Lib.Transition
import Chimera.Service.Projection

/-! The status stream: the bridge that turns manager transitions and echo commits into
events, the two rings of the hub, and the connections that read them. Every task runs
one read or write at a time, in any order. -/

namespace Chimera.Service
open Chimera.Model Chimera.Lib.Channel Chimera.Lib.Transition

/-- The events that are sent; no code sends the retained tracing event. -/
inductive Event (CoreType Frame : Type) where
  | coreStateChanged (state : IpcState)
  | coreStatusChanged (infos : CoreInfos CoreType)
  | coreLog (frame : Frame)
  deriving DecidableEq

/-- The versions of the two watches at which a status was read. -/
structure Stamp where
  states : Nat
  requested : Nat
  deriving DecidableEq

/-- An event of the status ring, with the versions its status was read at. -/
structure Posted (CoreType Frame : Type) where
  event : Event CoreType Frame
  stamp : Stamp

/-! ## The bridge -/

/-- Where `status_bridge` is; a status is read from one watch and then from the other. -/
inductive BridgePoint (CoreType : Type) where
  | spawned
  | waiting
  | statesChanged
  | readStates (raw : CoreStatus) (version : Nat)
  | requestedChanged
  | readEcho (raw : CoreStatus) (version : Nat)
  | sendStatus (legacy : Option IpcState) (infos : CoreInfos CoreType) (stamp : Stamp)
  | sendState (next : IpcState) (stamp : Stamp)
  | done
  deriving DecidableEq

/-- `first` is the version that was current at the first read, for the record. -/
structure Bridge (CoreType : Type) where
  point : BridgePoint CoreType
  statesSeen : Nat
  requestedSeen : Nat
  last : IpcState
  first : Option Nat

/-! ## The connections -/

/-- What `send_event` is given: a snapshot of this connection's own, the event at a
position of the status ring, or a log frame. -/
inductive Delivery (CoreType Frame : Type) where
  | snapshot (infos : CoreInfos CoreType) (stamp : Stamp)
  | event (position : Nat) (content : Event CoreType Frame)
  | log (frame : Frame)
  deriving DecidableEq

def Delivery.content {CoreType Frame : Type} : Delivery CoreType Frame → Event CoreType Frame
  | .snapshot infos _ => .coreStatusChanged infos
  | .event _ content => content
  | .log frame => .coreLog frame

/-- Where `handle_socket` is. -/
inductive ClientPoint (CoreType Frame : Type) where
  | opened
  | subscribedEvents
  | subscribed
  | snapshot (status : CoreStatus) (version : Nat)
  | sending (delivery : Delivery CoreType Frame)
  | waiting
  | statusLag
  | logLag
  | closed
  deriving DecidableEq

/-- `first` is the tail of the status ring when the connection subscribed, and `handled`
is what `send_event` has returned `true` for. -/
structure Client (CoreType Frame : Type) where
  point : ClientPoint CoreType Frame
  first : Nat
  nextEvent : Nat
  nextLog : Nat
  handled : List (Delivery CoreType Frame)
  resyncs : Nat

def Client.init {CoreType Frame : Type} : Client CoreType Frame := ⟨.opened, 0, 0, 0, [], 0⟩

/-! ## The service -/

structure Stream (CoreType Frame : Type) where
  states : Watch CoreStatus
  requestedCore : Watch (Option CoreType)
  bridge : Bridge CoreType
  events : Broadcast (Posted CoreType Frame)
  logs : Broadcast Frame
  clients : List (Client CoreType Frame)

def eventChannelCapacity : Nat := 256
def logEventChannelCapacity : Nat := 1024

/-- The arm that `select!` takes in the bridge. -/
inductive Arm where
  | states
  | requestedCore

/-- What decides the next step of a connection: the ring that `select!` reads, and
whether the socket takes the frame. -/
inductive Turn where
  | events
  | logs
  | brokenSocket
  deriving DecidableEq

inductive Action (CoreType Frame : Type) where
  | publish (status : CoreStatus)
  | publishRequestedCore (committed : Option CoreType)
  | closeStates
  | closeRequestedCore
  | bridge (arm : Arm)
  | log (frame : Frame)
  | connect
  | client (index : Nat) (turn : Turn)
  | disconnect (index : Nat)

variable {CoreType Frame : Type}

/-- `Stopping` or `Switching`. -/
def isPassing : CoreState → Bool
  | .stopping _ | .switching _ _ => true
  | _ => false

/-- The legacy event for a status, unless a guard drops it. -/
def Bridge.legacy (bridge : Bridge CoreType) (raw : CoreStatus) : Option IpcState :=
  let next := mapCoreState raw.state
  if isPassing raw.state && bridge.last.isStopped then none
  else if sameIpcState bridge.last next then none
  else some next

def Stream.status (texts : Texts) (s : Stream CoreType Frame) : CoreInfos CoreType :=
  projectCoreInfos texts s.states.value s.requestedCore.value

def Stream.bridgeAt (s : Stream CoreType Frame) (point : BridgePoint CoreType) :
    Stream CoreType Frame :=
  { s with bridge := { s.bridge with point := point } }

/-- A status that the bridge read at a version of `states`, with the echo of now. -/
def Stream.project (texts : Texts) (s : Stream CoreType Frame) (raw : CoreStatus)
    (version : Nat) (legacy : Option IpcState) : Stream CoreType Frame :=
  { s with bridge := { s.bridge with
      point := .sendStatus legacy (projectCoreInfos texts raw s.requestedCore.value)
        ⟨version, s.requestedCore.version⟩
      requestedSeen := s.requestedCore.version } }

def Stream.bridgeStep (texts : Texts) (s : Stream CoreType Frame) (arm : Arm) :
    Option (Stream CoreType Frame) :=
  match s.bridge.point with
  | .spawned => some { s with bridge := { s.bridge with
      point := .waiting, statesSeen := s.states.version,
      last := mapCoreState s.states.value.state, first := some s.states.version } }
  | .waiting => match arm with
    | .states => match s.states.changed s.bridge.statesSeen with
      | some (.ok version) => some { s with bridge := { s.bridge with
          point := .statesChanged, statesSeen := version } }
      | some (.error ()) => some (s.bridgeAt .done)
      | none => none
    | .requestedCore => match s.requestedCore.changed s.bridge.requestedSeen with
      | some (.ok version) => some { s with bridge := { s.bridge with
          point := .requestedChanged, requestedSeen := version } }
      | some (.error ()) => some (s.bridgeAt .done)
      | none => none
  | .statesChanged => some { s with bridge := { s.bridge with
      point := .readStates s.states.value s.states.version, statesSeen := s.states.version } }
  | .readStates raw version => some (s.project texts raw version (s.bridge.legacy raw))
  -- `states.borrow()`: the transition stays unseen
  | .requestedChanged => some (s.bridgeAt (.readEcho s.states.value s.states.version))
  | .readEcho raw version => some (s.project texts raw version none)
  | .sendStatus legacy infos stamp => some { s with
      events := s.events.send ⟨.coreStatusChanged infos, stamp⟩
      bridge := { s.bridge with point := match legacy with
        | some next => .sendState next stamp
        | none => .waiting } }
  | .sendState next stamp => some { s with
      events := s.events.send ⟨.coreStateChanged next, stamp⟩
      bridge := { s.bridge with point := .waiting, last := next } }
  | .done => none

/-- `send_event`, which skips what it cannot serialize. -/
def Client.sendEvent (encodes : Event CoreType Frame → Bool) (c : Client CoreType Frame)
    (delivery : Delivery CoreType Frame) (turn : Turn) : Client CoreType Frame :=
  if encodes delivery.content = true ∧ turn = .brokenSocket then { c with point := .closed }
  else { c with point := .waiting, handled := c.handled ++ [delivery] }

def Stream.clientStep (texts : Texts) (encodes : Event CoreType Frame → Bool)
    (s : Stream CoreType Frame) (c : Client CoreType Frame) (turn : Turn) :
    Option (Client CoreType Frame) :=
  match c.point with
  | .opened => some { c with
      point := .subscribedEvents, first := s.events.tail, nextEvent := s.events.tail }
  | .subscribedEvents => some { c with point := .subscribed, nextLog := s.logs.tail }
  | .subscribed => some { c with point := .snapshot s.states.value s.states.version }
  | .snapshot status version => some { c with point := .sending (.snapshot
      (projectCoreInfos texts status s.requestedCore.value)
      ⟨version, s.requestedCore.version⟩) }
  | .sending delivery => some (c.sendEvent encodes delivery turn)
  | .waiting =>
    if turn = .logs then match s.logs.recv c.nextLog with
      | some (.value frame, next) => some { c with
          point := .sending (.log frame), nextLog := next }
      | some (.lagged _, next) => some { c with point := .logLag, nextLog := next }
      | none => none
    else match s.events.recv c.nextEvent with
      | some (.value posted, next) => some { c with
          point := .sending (.event c.nextEvent posted.event), nextEvent := next }
      | some (.lagged _, next) => some { c with point := .statusLag, nextEvent := next }
      | none => none
  | .statusLag => some { c with
      point := .subscribed, nextEvent := s.events.tail, resyncs := c.resyncs + 1 }
  | .logLag => some { c with point := .waiting, nextLog := s.logs.tail }
  | .closed => none

def Client.readsLogs (c : Client CoreType Frame) : Bool :=
  match c.point with
  | .opened | .subscribedEvents | .closed => false
  | _ => true

def Stream.hasLogSubscribers (s : Stream CoreType Frame) : Bool :=
  s.clients.any Client.readsLogs

def Stream.step (texts : Texts) (encodes : Event CoreType Frame → Bool)
    (s : Stream CoreType Frame) : Action CoreType Frame → Option (Stream CoreType Frame)
  | .publish status =>
    if s.states.closed then none else some { s with states := s.states.send status }
  | .publishRequestedCore committed =>
    if s.requestedCore.closed then none
    else some { s with
      requestedCore := s.requestedCore.send (committed.elim s.requestedCore.value some) }
  | .closeStates => some { s with states := s.states.close }
  | .closeRequestedCore => some { s with requestedCore := s.requestedCore.close }
  | .bridge arm => s.bridgeStep texts arm
  | .log frame =>
    if s.hasLogSubscribers then some { s with logs := s.logs.send frame } else some s
  | .connect => some { s with clients := s.clients ++ [.init] }
  | .client index turn => do
    let c ← s.clients[index]?
    let c' ← s.clientStep texts encodes c turn
    pure { s with clients := s.clients.set index c' }
  | .disconnect index => do
    let c ← s.clients[index]?
    pure { s with clients := s.clients.set index { c with point := .closed } }

/-- The service when the bridge has just been spawned. -/
def streamMachine (texts : Texts) (encodes : Event CoreType Frame → Bool) (status : CoreStatus)
    (echo : Option CoreType) : Machine (Stream CoreType Frame) (Action CoreType Frame) where
  init :=
    { states := ⟨[], status, false⟩
      requestedCore := ⟨[], echo, false⟩
      bridge := ⟨.spawned, 0, 0, .stopped none, none⟩
      events := ⟨eventChannelCapacity, []⟩
      logs := ⟨logEventChannelCapacity, []⟩
      clients := [] }
  step := Stream.step texts encodes

/-- What the socket was given. -/
def Client.frames (encodes : Event CoreType Frame → Bool) (c : Client CoreType Frame) :
    List (Event CoreType Frame) :=
  (c.handled.map Delivery.content).filter encodes

end Chimera.Service
