import Chimera.Lib.Channel
import Chimera.Lib.Transition
import Chimera.Log.Rollover

/-! The archive's task beside those that send: frames arrive, senders go and the token is
cancelled between any two polls of the channel. -/

namespace Chimera.Log.Archive
open Chimera.Lib Chimera.Lib.Transition
open Chimera.Lib.Channel (Broadcast Accounts)

/-- Where `run` is. In `draining` and `writing` the first field says whether the select
took the arm of the cancellation. -/
inductive SinkPoint where
  | select
  | draining (cancelled : Bool) (batch : List Entry)
  | writing (cancelled closed : Bool) (batch : List Entry)
  | done
  | failed (stop : Stop) (batch : List Entry)

/-- `cancelledAt` is the tail of the channel when the token was cancelled, `first` that of
the subscription; `batches` is what was written, with the time of each write. For the
record, `polls` is what the channel answered at each poll, and `turns` the arm that each
select took, with the time of the write that followed. -/
structure Sink where
  logs : Broadcast LogFrame
  sender : Bool
  cancelledAt : Option Nat
  first : Nat
  next : Nat
  point : SinkPoint
  writer : Writer
  batches : List (Int × List Entry)
  turns : List Turn
  polls : List Received

inductive SinkAction where
  | send (frame : LogFrame)
  | dropSenders
  | cancel
  | selectCancelled
  | selectReceived
  | tryRecv
  | write (at_ : Int)

/-- `Entry::Log` and `Entry::Gap`. -/
def entryOf : Channel.Received LogFrame → Entry
  | .value frame => .log frame
  | .lagged dropped => .gap dropped

/-- The answer of the channel that the sequential task reads. -/
def pollOf : Channel.Received LogFrame → Received
  | .value frame => .frame frame
  | .lagged dropped => .lagged dropped

def Sink.step (host : Host) (s : Sink) : SinkAction → Option Sink
  | .send frame => if s.sender then some { s with logs := s.logs.send frame } else none
  | .dropSenders => some { s with sender := false }
  | .cancel => some { s with cancelledAt := some (s.cancelledAt.getD s.logs.tail) }
  | .selectCancelled => match s.point with
    | .select => if s.cancelledAt.isSome then some { s with point := .draining true [] } else none
    | _ => none
  | .selectReceived => match s.point with
    | .select => match s.logs.recv s.next with
      | some (received, next) =>
        some { s with
          next := next
          point := .draining false [entryOf received]
          polls := s.polls ++ [pollOf received] }
      | none => if s.sender then none
        else some { s with point := .writing false true [], polls := s.polls ++ [.closed] }
    | _ => none
  | .tryRecv => match s.point with
    | .draining cancelled batch =>
      if batch.length < maxBatchRecords then match s.logs.recv s.next with
        | some (received, next) =>
          some { s with
            next := next
            point := .draining cancelled (batch ++ [entryOf received])
            polls := s.polls ++ [pollOf received] }
        | none => some { s with
            point := .writing cancelled (!s.sender) batch
            polls := s.polls ++ [if s.sender then .empty else .closed] }
      else some { s with point := .writing cancelled false batch }
    | _ => none
  | .write at_ => match s.point with
    | .writing cancelled closed batch => match s.writer.write host at_ batch with
      | .ok writer => some { s with
          writer := writer
          batches := s.batches ++ [(at_, batch)]
          turns := s.turns ++ [⟨cancelled, at_⟩]
          point := if closed || (cancelled && decide (batch.length < maxBatchRecords)) then .done
            else .select }
      | .error stop =>
        some { s with point := .failed stop batch, turns := s.turns ++ [⟨cancelled, at_⟩] }
    | _ => none

/-- The task as it is spawned, on a subscription to a channel. -/
def sinkMachine (host : Host) (writer : Writer) (logs : Broadcast LogFrame) :
    Machine Sink SinkAction where
  init := ⟨logs, true, none, logs.tail, logs.tail, .select, writer, [], [], []⟩
  step := Sink.step host

/-! ## What the task has taken -/

/-- What is received and not yet written. -/
def SinkPoint.batch : SinkPoint → List Entry
  | .select | .done => []
  | .draining _ batch | .writing _ _ batch | .failed _ batch => batch

/-- Everything sent before the cancellation is taken, or everything once nobody sends. -/
def Sink.Drained (s : Sink) : Prop :=
  (∃ n, s.cancelledAt = some n ∧ n ≤ s.next) ∨ (s.sender = false ∧ s.next = s.logs.tail)

/-- What is known where the task is. -/
def Sink.Reached (s : Sink) : SinkPoint → Prop
  | .select | .failed _ _ => True
  | .draining cancelled _ => cancelled = true → s.cancelledAt.isSome = true
  | .writing cancelled closed batch => (closed = true → s.sender = false ∧ s.next = s.logs.tail) ∧
      (cancelled = true → batch.length < maxBatchRecords → s.Drained)
  | .done => s.Drained

structure Taken (s : Sink) : Prop where
  bounded : s.first ≤ s.next ∧ s.next ≤ s.logs.tail
  cancelled : ∀ n, s.cancelledAt = some n → n ≤ s.logs.tail
  accounts : ∃ items, Accounts items (s.logs.between s.first s.next) ∧
    items.map entryOf = s.batches.flatMap Prod.snd ++ s.point.batch
  batches : ∀ batch ∈ s.batches, batch.2.length ≤ maxBatchRecords
  batch : s.point.batch.length ≤ maxBatchRecords
  reached : s.Reached s.point

section Steps

variable {host : Host} {s t : Sink}

/-- A frame is sent behind everything that was taken. -/
theorem Taken.send (h : Taken s) (frame : LogFrame) (hsender : s.sender = true) :
    Taken { s with logs := s.logs.send frame } := by
  have hle : s.logs.tail ≤ (s.logs.send frame).tail := by simp
  have hdrained : s.Drained → Sink.Drained { s with logs := s.logs.send frame } := by
    rintro (hcancelled | ⟨hgone, -⟩)
    · exact .inl hcancelled
    · rw [hsender] at hgone
      cases hgone
  refine ⟨⟨h.bounded.1, h.bounded.2.trans hle⟩, fun n hn => (h.cancelled n hn).trans hle, ?_,
    h.batches, h.batch, ?_⟩
  · obtain ⟨items, haccounts, heq⟩ := h.accounts
    refine ⟨items, ?_, heq⟩
    rw [Channel.Broadcast.between_send h.bounded.2]
    exact haccounts
  · have hreached := h.reached
    change Sink.Reached _ s.point
    cases hp : s.point with
    | select => trivial
    | failed stop batch => trivial
    | draining cancelled batch =>
      rw [hp] at hreached
      exact hreached
    | writing cancelled closed batch =>
      rw [hp] at hreached
      refine ⟨fun hclosed => ?_, fun hc hlt => hdrained (hreached.2 hc hlt)⟩
      have hgone := (hreached.1 hclosed).1
      rw [hsender] at hgone
      cases hgone
    | done =>
      rw [hp] at hreached
      exact hdrained hreached

/-- Nothing more is sent once the senders are gone. -/
theorem Taken.dropSenders (h : Taken s) : Taken { s with sender := false } := by
  have hdrained : s.Drained → Sink.Drained { s with sender := false } :=
    fun hd => hd.imp_right fun hgone => ⟨rfl, hgone.2⟩
  refine ⟨h.bounded, h.cancelled, h.accounts, h.batches, h.batch, ?_⟩
  have hreached := h.reached
  change Sink.Reached _ s.point
  cases hp : s.point with
  | select => trivial
  | failed stop batch => trivial
  | draining cancelled batch =>
    rw [hp] at hreached
    exact hreached
  | writing cancelled closed batch =>
    rw [hp] at hreached
    exact ⟨fun hclosed => ⟨rfl, (hreached.1 hclosed).2⟩,
      fun hc hlt => hdrained (hreached.2 hc hlt)⟩
  | done =>
    rw [hp] at hreached
    exact hdrained hreached

theorem Taken.cancel (h : Taken s) :
    Taken { s with cancelledAt := some (s.cancelledAt.getD s.logs.tail) } := by
  have hdrained : s.Drained → Sink.Drained { s with
      cancelledAt := some (s.cancelledAt.getD s.logs.tail) } := by
    rintro (⟨n, hn, hle⟩ | hgone)
    · exact .inl ⟨n, by simp [hn], hle⟩
    · exact .inr hgone
  refine ⟨h.bounded, ?_, h.accounts, h.batches, h.batch, ?_⟩
  · intro n hn
    cases hcancelled : s.cancelledAt with
    | none =>
      simp only [hcancelled, Option.getD_none, Option.some.injEq] at hn
      exact hn.ge
    | some m =>
      simp only [hcancelled, Option.getD_some, Option.some.injEq] at hn
      exact hn ▸ h.cancelled m hcancelled
  · have hreached := h.reached
    change Sink.Reached _ s.point
    cases hp : s.point with
    | select => trivial
    | failed stop batch => trivial
    | draining cancelled batch => exact fun _ => rfl
    | writing cancelled closed batch =>
      rw [hp] at hreached
      exact ⟨hreached.1, fun hc hlt => hdrained (hreached.2 hc hlt)⟩
    | done =>
      rw [hp] at hreached
      exact hdrained hreached

/-- What the channel gives is the next of what it was sent. -/
theorem Taken.recv (h : Taken s) {received : Channel.Received LogFrame} {next : Nat}
    (hrecv : s.logs.recv s.next = some (received, next)) :
    (s.first ≤ next ∧ next ≤ s.logs.tail) ∧
    ∃ items, Accounts items (s.logs.between s.first next) ∧
      items.map entryOf =
        s.batches.flatMap Prod.snd ++ (s.point.batch ++ [entryOf received]) := by
  obtain ⟨hlt, htail⟩ := Channel.Broadcast.recv_bounds hrecv
  obtain ⟨items, haccounts, heq⟩ := h.accounts
  refine ⟨⟨h.bounded.1.trans hlt.le, htail⟩, items ++ [received], ?_, ?_⟩
  · rw [← Channel.Broadcast.between_append h.bounded.1 hlt.le]
    exact haccounts.append (Channel.Broadcast.recv_accounts hrecv)
  · rw [List.map_append, heq, List.append_assoc]
    rfl

theorem Taken.step {a : SinkAction} (h : Taken s) (hs : s.step host a = some t) : Taken t := by
  have hreached := h.reached
  have hbatch := h.batch
  cases a with
  | send frame =>
    simp only [Sink.step] at hs
    split at hs
    · cases hs
      exact h.send frame ‹_›
    · cases hs
  | dropSenders =>
    cases hs
    exact h.dropSenders
  | cancel =>
    cases hs
    exact h.cancel
  | selectCancelled =>
    cases hp : s.point with
    | select =>
      simp only [Sink.step, hp] at hs
      split at hs
      · rename_i hcancelled
        cases hs
        refine ⟨h.bounded, h.cancelled, ?_, h.batches, Nat.zero_le _, fun _ => hcancelled⟩
        have haccounts := h.accounts
        rw [hp] at haccounts
        exact haccounts
      · cases hs
    | draining _ _ | writing _ _ _ | done | failed _ _ => simp [Sink.step, hp] at hs
  | selectReceived =>
    cases hp : s.point with
    | select =>
      simp only [Sink.step, hp] at hs
      split at hs
      · rename_i received next hrecv
        cases hs
        obtain ⟨hbounded, items, haccounts, heq⟩ := h.recv hrecv
        rw [hp] at heq
        exact ⟨hbounded, h.cancelled, ⟨items, haccounts, heq⟩, h.batches,
          (by change 1 ≤ maxBatchRecords; decide), fun hc => by cases hc⟩
      · rename_i hrecv
        split at hs
        · cases hs
        · rename_i hgone
          cases hs
          have htail := (Channel.Broadcast.recv_eq_none h.bounded.2).1 hrecv
          have haccounts := h.accounts
          rw [hp] at haccounts
          exact ⟨h.bounded, h.cancelled, haccounts, h.batches, Nat.zero_le _,
            fun _ => ⟨by simpa using hgone, htail⟩, fun hc => by cases hc⟩
    | draining _ _ | writing _ _ _ | done | failed _ _ => simp [Sink.step, hp] at hs
  | tryRecv =>
    cases hp : s.point with
    | draining cancelled batch =>
      simp only [Sink.step, hp] at hs
      rw [hp] at hreached hbatch
      split at hs
      · rename_i hroom
        split at hs
        · rename_i received next hrecv
          cases hs
          obtain ⟨hbounded, items, haccounts, heq⟩ := h.recv hrecv
          rw [hp] at heq
          refine ⟨hbounded, h.cancelled, ⟨items, haccounts, heq⟩, h.batches, ?_, hreached⟩
          change (batch ++ [entryOf received]).length ≤ maxBatchRecords
          rw [List.length_append, List.length_singleton]
          exact hroom
        · rename_i hrecv
          cases hs
          have htail := (Channel.Broadcast.recv_eq_none h.bounded.2).1 hrecv
          have haccounts := h.accounts
          rw [hp] at haccounts
          refine ⟨h.bounded, h.cancelled, haccounts, h.batches, hbatch,
            fun hgone => ⟨by simpa using hgone, htail⟩, fun hc _ => .inl ?_⟩
          obtain ⟨n, hn⟩ := Option.isSome_iff_exists.1 (hreached hc)
          exact ⟨n, hn, (h.cancelled n hn).trans htail.ge⟩
      · rename_i hfull
        cases hs
        have haccounts := h.accounts
        rw [hp] at haccounts
        exact ⟨h.bounded, h.cancelled, haccounts, h.batches, hbatch, fun hc => (by cases hc),
          fun _ hlt => absurd hlt hfull⟩
    | select | writing _ _ _ | done | failed _ _ => simp [Sink.step, hp] at hs
  | write at_ =>
    cases hp : s.point with
    | writing cancelled closed batch =>
      simp only [Sink.step, hp] at hs
      rw [hp] at hreached hbatch
      have haccounts := h.accounts
      rw [hp] at haccounts
      split at hs
      · rename_i writer hwrite
        cases hs
        refine ⟨h.bounded, h.cancelled, ?_, ?_, ?_, ?_⟩
        · obtain ⟨items, haccounts, heq⟩ := haccounts
          refine ⟨items, haccounts, ?_⟩
          change items.map entryOf = (s.batches ++ [(at_, batch)]).flatMap Prod.snd ++
            SinkPoint.batch (if _ then .done else .select)
          rw [heq, List.flatMap_append, List.flatMap_singleton]
          split <;> simp [SinkPoint.batch]
        · intro other hother
          obtain hold | hnew := List.mem_append.1 hother
          · exact h.batches other hold
          · rw [List.mem_singleton.1 hnew]
            exact hbatch
        · change (SinkPoint.batch (if _ then .done else .select)).length ≤ _
          split <;> exact Nat.zero_le _
        · change Sink.Reached _ (if _ then .done else .select)
          split
          · rename_i hstops
            obtain hclosed | hcancelled := (Bool.or_eq_true _ _).mp hstops
            · exact .inr (hreached.1 hclosed)
            · obtain ⟨hc, hlt⟩ := (Bool.and_eq_true _ _).mp hcancelled
              exact hreached.2 hc (of_decide_eq_true hlt)
          · trivial
      · cases hs
        exact ⟨h.bounded, h.cancelled, haccounts, h.batches, hbatch, trivial⟩
    | select | draining _ _ | done | failed _ _ => simp [Sink.step, hp] at hs

theorem taken {writer : Writer} {logs : Broadcast LogFrame}
    (hr : (sinkMachine host writer logs).Reachable s) : Taken s := by
  refine hr.invariant ?_ fun s a t h _ hs => h.step hs
  refine ⟨⟨le_rfl, le_rfl⟩, fun n hn => (by cases hn), ⟨[], ?_, rfl⟩, fun batch hb => (by cases hb),
    Nat.zero_le _, trivial⟩
  change Accounts [] (logs.between logs.tail logs.tail)
  rw [Channel.Broadcast.between_self]
  exact .nil

/-- Whatever the disk does, each frame sent since the subscription is in its place among
the entries, or counted by the gap in its place; no batch is larger than it may be, and
the task is done only when it has taken all that was sent before the cancellation, or all
there is. -/
theorem sink_takes_everything {writer : Writer} {logs : Broadcast LogFrame}
    (hr : (sinkMachine host writer logs).Reachable s) :
    (∃ items, Accounts items (s.logs.between s.first s.next) ∧
      items.map entryOf = s.batches.flatMap Prod.snd ++ s.point.batch) ∧
    (∀ batch ∈ s.batches, batch.2.length ≤ maxBatchRecords) ∧ (s.point = .done → s.Drained) := by
  have h := taken hr
  refine ⟨h.accounts, h.batches, fun hp => ?_⟩
  have hreached := h.reached
  rwa [hp] at hreached

/-! ## The sequential task -/

/-- The rest of a turn of the task, from its drain on. -/
def finishTurn (host : Host) (cancelled : Bool) (at_ : Int) (batch : List Entry)
    (turns : List Turn) (polls : List Received) (w : Writer) : Except Stop Writer := do
  let drained := drain polls batch
  let w ← w.write host at_ drained.batch
  if drained.closed || (cancelled && decide (drained.batch.length < maxBatchRecords)) then pure w
  else task host turns drained.rest w

/-- The rest of a turn, from its write on. -/
def writeTurn (host : Host) (cancelled closed : Bool) (at_ : Int) (batch : List Entry)
    (turns : List Turn) (polls : List Received) (w : Writer) : Except Stop Writer := do
  let w ← w.write host at_ batch
  if closed || (cancelled && decide (batch.length < maxBatchRecords)) then pure w
  else task host turns polls w

/-- On what it was answered, the task has come to where the sink is, whatever it is
answered then. -/
def Sink.Simulates (host : Host) (writer : Writer) (s : Sink) : SinkPoint → Prop
  | .select => ∀ turns polls, task host (s.turns ++ turns) (s.polls ++ polls) writer =
      task host turns polls s.writer
  | .draining cancelled batch => ∀ at_ turns polls,
      task host (s.turns ++ ⟨cancelled, at_⟩ :: turns) (s.polls ++ polls) writer =
        finishTurn host cancelled at_ batch turns polls s.writer
  | .writing cancelled closed batch => ∀ at_ turns polls,
      task host (s.turns ++ ⟨cancelled, at_⟩ :: turns) (s.polls ++ polls) writer =
        writeTurn host cancelled closed at_ batch turns polls s.writer
  | .done => ∀ turns polls,
      task host (s.turns ++ turns) (s.polls ++ polls) writer = .ok s.writer
  | .failed stop _ => ∀ turns polls,
      task host (s.turns ++ turns) (s.polls ++ polls) writer = .error stop

theorem finishTurn_received {cancelled : Bool} {at_ : Int} {batch : List Entry}
    {turns : List Turn} {polls : List Received} {w : Writer} (received : Channel.Received LogFrame)
    (hroom : batch.length < maxBatchRecords) :
    finishTurn host cancelled at_ batch turns (pollOf received :: polls) w =
      finishTurn host cancelled at_ (batch ++ [entryOf received]) turns polls w := by
  have hdrain : drain (pollOf received :: polls) batch =
      drain polls (batch ++ [entryOf received]) := by
    cases received with
    | value frame => simp only [pollOf, entryOf, drain, if_pos hroom]
    | lagged dropped => simp only [pollOf, entryOf, drain, if_pos hroom]
  unfold finishTurn
  rw [hdrain]

theorem finishTurn_empty {cancelled sender : Bool} {at_ : Int} {batch : List Entry}
    {turns : List Turn} {polls : List Received} {w : Writer}
    (hroom : batch.length < maxBatchRecords) :
    finishTurn host cancelled at_ batch turns ((if sender then .empty else .closed) :: polls) w =
      writeTurn host cancelled (!sender) at_ batch turns polls w := by
  cases sender with
  | true => simp only [finishTurn, writeTurn, if_true, drain, if_pos hroom, Bool.not_true]
  | false =>
    simp only [finishTurn, writeTurn, Bool.false_eq_true, if_false, drain, if_pos hroom,
      Bool.not_false]

theorem finishTurn_full {cancelled : Bool} {at_ : Int} {batch : List Entry} {turns : List Turn}
    {polls : List Received} {w : Writer} (hfull : ¬batch.length < maxBatchRecords) :
    finishTurn host cancelled at_ batch turns polls w =
      writeTurn host cancelled false at_ batch turns polls w := by
  have hdrain : drain polls batch = ⟨false, batch, polls⟩ := by
    unfold drain
    rw [if_neg hfull]
  unfold finishTurn writeTurn
  rw [hdrain]

theorem task_cancelled {at_ : Int} {turns : List Turn} {polls : List Received} {w : Writer} :
    task host (⟨true, at_⟩ :: turns) polls w = finishTurn host true at_ [] turns polls w := by
  simp [task, finishTurn]

theorem task_received {at_ : Int} {turns : List Turn} {polls : List Received} {w : Writer}
    (received : Channel.Received LogFrame) :
    task host (⟨false, at_⟩ :: turns) (pollOf received :: polls) w =
      finishTurn host false at_ [entryOf received] turns polls w := by
  cases received <;> simp [task, finishTurn, pollOf, entryOf]

theorem task_closed {at_ : Int} {turns : List Turn} {polls : List Received} {w : Writer} :
    task host (⟨false, at_⟩ :: turns) (.closed :: polls) w =
      writeTurn host false true at_ [] turns polls w := by
  simp [task, writeTurn, Writer.write]

/-- The turns and polls of each step of the sink are the task's. -/
theorem simulates_step {writer : Writer} {a : SinkAction} (hs : s.step host a = some t)
    (hsim : s.Simulates host writer s.point) : t.Simulates host writer t.point := by
  cases a with
  | send frame =>
    simp only [Sink.step] at hs
    split at hs
    · cases hs
      exact hsim
    · cases hs
  | dropSenders | cancel =>
    cases hs
    exact hsim
  | selectCancelled =>
    cases hp : s.point with
    | select =>
      simp only [Sink.step, hp] at hs
      rw [hp] at hsim
      split at hs
      · cases hs
        intro at_ turns polls
        rw [hsim, task_cancelled]
      · cases hs
    | draining _ _ | writing _ _ _ | done | failed _ _ => simp [Sink.step, hp] at hs
  | selectReceived =>
    cases hp : s.point with
    | select =>
      simp only [Sink.step, hp] at hs
      rw [hp] at hsim
      split at hs
      · rename_i received next hrecv
        cases hs
        intro at_ turns polls
        rw [List.append_assoc, hsim]
        exact task_received received
      · split at hs
        · cases hs
        · cases hs
          intro at_ turns polls
          rw [List.append_assoc, hsim]
          exact task_closed
    | draining _ _ | writing _ _ _ | done | failed _ _ => simp [Sink.step, hp] at hs
  | tryRecv =>
    cases hp : s.point with
    | draining cancelled batch =>
      simp only [Sink.step, hp] at hs
      rw [hp] at hsim
      split at hs
      · rename_i hroom
        split at hs
        · rename_i received next hrecv
          cases hs
          intro at_ turns polls
          rw [List.append_assoc, hsim]
          exact finishTurn_received received hroom
        · cases hs
          intro at_ turns polls
          rw [List.append_assoc, hsim]
          exact finishTurn_empty hroom
      · rename_i hfull
        cases hs
        intro at_ turns polls
        rw [hsim]
        exact finishTurn_full hfull
    | select | writing _ _ _ | done | failed _ _ => simp [Sink.step, hp] at hs
  | write at_ =>
    cases hp : s.point with
    | writing cancelled closed batch =>
      simp only [Sink.step, hp] at hs
      rw [hp] at hsim
      split at hs
      · rename_i w hwrite
        cases hs
        change Sink.Simulates _ _ _ (if _ then .done else .select)
        split
        · rename_i hstops
          intro turns polls
          rw [List.append_assoc]
          refine (hsim at_ turns polls).trans ?_
          rw [writeTurn, hwrite]
          exact if_pos hstops
        · rename_i hgoes
          intro turns polls
          rw [List.append_assoc]
          refine (hsim at_ turns polls).trans ?_
          rw [writeTurn, hwrite]
          exact if_neg hgoes
      · rename_i stop hwrite
        cases hs
        intro turns polls
        rw [List.append_assoc]
        refine (hsim at_ turns polls).trans ?_
        rw [writeTurn, hwrite]
        rfl
    | select | draining _ _ | done | failed _ _ => simp [Sink.step, hp] at hs

/-- Every run of the sink is a run of the sequential task, on the answers that the
channel gave it. -/
theorem sink_simulates {writer : Writer} {logs : Broadcast LogFrame}
    (hr : (sinkMachine host writer logs).Reachable s) : s.Simulates host writer s.point :=
  hr.invariant (I := fun s => s.Simulates host writer s.point) (fun _ _ => rfl)
    fun _ _ _ h _ hs => simulates_step hs h

/-! ## The archive -/

theorem writes_batches {writer : Writer} {logs : Broadcast LogFrame}
    (hr : (sinkMachine host writer logs).Reachable s) :
    s.batches.foldlM (fun (w : Writer) batch => w.write host batch.1 batch.2) writer =
      .ok s.writer := by
  refine hr.invariant (I := fun s => s.batches.foldlM
    (fun (w : Writer) batch => w.write host batch.1 batch.2) writer = .ok s.writer) rfl ?_
  intro s a t h _ hs
  replace hs : s.step host a = some t := hs
  cases a with
  | send frame =>
    simp only [Sink.step] at hs
    split at hs <;> cases hs
    exact h
  | dropSenders | cancel =>
    cases hs
    exact h
  | selectCancelled =>
    simp only [Sink.step] at hs
    split at hs
    · split at hs <;> cases hs
      exact h
    · cases hs
  | selectReceived =>
    simp only [Sink.step] at hs
    split at hs
    · split at hs
      · cases hs
        exact h
      · split at hs <;> cases hs
        exact h
    · cases hs
  | tryRecv =>
    simp only [Sink.step] at hs
    split at hs
    · split at hs
      · split at hs <;> cases hs <;> exact h
      · cases hs
        exact h
    · cases hs
  | write at_ =>
    simp only [Sink.step] at hs
    split at hs
    · split at hs
      · rename_i w hwrite
        cases hs
        change List.foldlM _ _ (s.batches ++ _) = _
        rw [List.foldlM_append, h]
        simp only [List.foldlM_cons, List.foldlM_nil, bind_pure]
        exact hwrite
      · cases hs
        exact h
    · cases hs

/-- Over a disk that does not fail, and as long as the numbers of the files fit, what the
sink has written is the archive of its batches; and when it is done, so is the sequential
task on the answers that the channel gave. -/
theorem sink_archives {options : SinkOptions} {disk : Disk} {writer : Writer}
    {logs : Broadcast LogFrame} (hbytes : 0 < options.maxBytes) (hfiles : 0 < options.maxFiles)
    (hsound : disk.Sound) (hevents : disk.events = []) (hnamed : Named disk.files)
    (hopen : Writer.openIn host disk options = .ok writer)
    (hr : (sinkMachine host writer logs).Reachable s)
    (hfits : newestSeq disk.files + (runFiles host options s.batches).length < 2 ^ 64) :
    Archived host options s.batches disk.files s.writer ∧
    (s.point = .done → task host s.turns s.polls writer = .ok s.writer) := by
  have hnumbered := hnamed.numbered
  have hnewest : (archiveSeqs disk.files).head?.getD 0 = newestSeq disk.files :=
    hnumbered.newest.symm
  have hgrows := shelves_length options.maxBytes [[]] (runLines host s.batches)
  rw [List.length_singleton] at hgrows
  have hlength : (runFiles host options s.batches).length =
      ((runLines host s.batches).foldl (shelve options.maxBytes) [[]]).length :=
    List.length_reverse
  rw [hlength] at hfits
  obtain ⟨w, hopened, hholds⟩ := @opened _ options host disk hsound hevents hnumbered hfiles
    (by rw [hnewest]; omega)
  rw [hopen] at hopened
  cases hopened
  have hleads : Leads host disk.files (archiveSeqs disk.files) options _ _ :=
    writes_lead hnumbered hfiles s.batches ⟨[], [], rfl, hholds⟩
  obtain ⟨w, buffer, hresult, hon⟩ := hleads.fits (by rwa [hnewest])
  obtain ⟨hok, rfl⟩ := unbuffered_ok hresult
  rw [writes_batches hr] at hok
  cases hok
  refine ⟨On.archived hnamed hbytes hfiles hon, fun hp => ?_⟩
  have hsim := sink_simulates hr
  rw [hp] at hsim
  simpa using hsim [] []

end Steps

/-! ## A run -/

/-- Two frames are missed on a channel of one, and the third is written at the end. -/
def behindThenCancelled (frame : LogFrame) : List SinkAction :=
  [.send frame, .send frame, .send frame, .cancel, .selectCancelled, .tryRecv, .tryRecv, .tryRecv,
    .write 7]

def plainFrame : LogFrame :=
  ⟨0, 1, .mihomo, .stdout, .info, none, none, [], [], [], false⟩

def firstWriter : Writer := ⟨⟨[(fileName 1, [])], [.created (fileName 1)], []⟩, ⟨1000, 1⟩, 0, 1⟩

def SinkPoint.isDone : SinkPoint → Bool
  | .done => true
  | _ => false

theorem SinkPoint.eq_done {point : SinkPoint} (h : point.isDone = true) : point = .done := by
  cases point with
  | done => rfl
  | select | draining _ _ | writing _ _ _ | failed _ _ => cases h

def gapSink : Machine Sink SinkAction := sinkMachine (gapHost true) firstWriter ⟨1, []⟩

theorem behind_is_done : (gapSink.run gapSink.init (behindThenCancelled plainFrame)).any (fun s =>
    s.point.isDone && decide (s.batches.length = 1) &&
      decide (newestSeq emptyDisk.files +
        (runFiles (gapHost true) ⟨1000, 1⟩ s.batches).length < 2 ^ 64)) = true := by
  decide +kernel

theorem behind_took_everything : ∃ s, gapSink.Reachable s ∧ s.batches.length = 1 ∧ s.Drained := by
  obtain ⟨s, hs, ho⟩ := (Option.any_eq_true _ _).1 behind_is_done
  obtain ⟨ho, -⟩ := (Bool.and_eq_true _ _).mp ho
  obtain ⟨hdone, hlength⟩ := (Bool.and_eq_true _ _).mp ho
  have hreach := Machine.run_reachable .init hs
  refine ⟨s, hreach, of_decide_eq_true hlength,
    (sink_takes_everything hreach).2.2 (SinkPoint.eq_done hdone)⟩

theorem behind_archived : ∃ s, gapSink.Reachable s ∧ s.batches.length = 1 ∧
    Archived (gapHost true) ⟨1000, 1⟩ s.batches emptyDisk.files s.writer := by
  obtain ⟨s, hs, ho⟩ := (Option.any_eq_true _ _).1 behind_is_done
  obtain ⟨ho, hfits⟩ := (Bool.and_eq_true _ _).mp ho
  obtain ⟨-, hlength⟩ := (Bool.and_eq_true _ _).mp ho
  have hreach := Machine.run_reachable .init hs
  have hsound : emptyDisk.Sound := fun _ h => by cases h
  have hnamed : Named emptyDisk.files := ⟨List.Pairwise.nil, fun _ _ h => by cases h⟩
  have hopen : Writer.openIn (gapHost true) emptyDisk ⟨1000, 1⟩ = .ok firstWriter := by
    decide +kernel
  exact ⟨s, hreach, of_decide_eq_true hlength, (sink_archives (by decide) (by decide) hsound rfl
    hnamed hopen hreach (of_decide_eq_true hfits)).1⟩

end Chimera.Log.Archive
