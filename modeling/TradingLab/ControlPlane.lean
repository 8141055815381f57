import TradingLab.Lib.System
import TradingLab.Projection
/-!
# The control plane

The projection polls the gateway, over a connection that may drop at any time and
with calls that may time out. The gateway reads the journal for it, and every
record only once: a response that is lost takes its records along. `rebuild` starts
over in two steps, first here and then in the gateway, and a poll may be under way
all the while.
-/
open LabLib

namespace TradingLab

/-! ## The gateway -/

/-- A gateway process with its engine: the complete records of the journal, the
number of those it read since its tail was opened, and whether it has a snapshot. -/
structure GatewayState where
  run_id : RunId
  journal : List OutputEvent
  tail : Option Nat
  ready : Bool

namespace GatewayState

/-- The run of the first snapshot; none until then. -/
def health (g : GatewayState) : RunId := if g.ready then g.run_id else 0

/-- The next records, each of them once. -/
def next_outputs (g : GatewayState) (limit : Nat) : GatewayState × List OutputEvent :=
  let offset := g.tail.getD 0
  let events := (g.journal.drop offset).take limit
  ({ g with tail := some (offset + events.length) }, events)

def reset_journal_tail (g : GatewayState) : GatewayState := { g with tail := none }

end GatewayState

/-! ## Polls and rebuilds -/

/-- Where a poll stands. A call is sent once more when its connection drops. -/
inductive Poll where
  | idle
  /-- `health` is asked for, and then answered. -/
  | asked (retried : Bool)
  | told (retried : Bool) (run : RunId)
  /-- `outputs` is asked for, and then answered by the gateway of a run. -/
  | wants (retried : Bool)
  | given (retried : Bool) (run : RunId) (events : List OutputEvent)
deriving DecidableEq

structure Plane where
  gateway : GatewayState
  projection : Projection
  poll : Poll
  /-- Calls of `outputs` that nobody waits for, and that may be served yet. -/
  stale : Nat
  /-- Calls of `rebuild` that wait for the gateway, and of `resetJournal` that may be served. -/
  rebuilding : Nat
  resets : Nat
  /-- The events in the tables, with the runs that wrote them. -/
  applied : List (RunId × OutputEvent)

inductive PlaneMove where
  /-- A record of the journal is complete. -/
  | emit (event : OutputEvent)
  /-- The gateway gets the first snapshot of its engine. -/
  | snapshot
  | restartGateway (run : RunId)
  | startPoll
  | serveHealth
  | healthArrives
  | serveOutputs
  | outputsArrive
  /-- The outputs arrive, and the transaction is aborted: by SQLite, or by an integer that cannot be bound. -/
  | outputsAbort (count : Nat)
  /-- The call under way times out or fails, and the poll with it. -/
  | fail
  /-- The connection drops during the call. -/
  | retry
  | serveStale
  | restartApi
  | rebuild
  | serveReset
  | retryReset
  | rebuildEnds

namespace Plane

/-- The rest of a poll once it knows the run. -/
def bind (s : Plane) (run : RunId) : Plane :=
  let p := s.projection.bindRun run
  { s with projection := p, poll := if p.healthState ≠ .healthy ∨ p.runId = 0 then .idle else .wants false }

/-- The rest of a poll once it has the events, if nothing is thrown. -/
def finish (s : Plane) (run : RunId) (events : List OutputEvent) : Plane :=
  if events = [] then { s with poll := .idle }
  else { s with
    projection := s.projection.commit events
    applied := s.applied ++ (s.projection.applied events).map (run, ·)
    poll := .idle }

/-- A call of `outputs` that is given up may be served later on. -/
def pending (s : Plane) : Nat :=
  match s.poll with
  | .wants _ => s.stale + 1
  | _ => s.stale

def step (limit : Nat) (s : Plane) : PlaneMove → Option Plane
  | .emit event =>
    if val event.output_seq = s.gateway.journal.length + 1 then
      some { s with gateway := { s.gateway with journal := s.gateway.journal ++ [event] } }
    else none
  | .snapshot => some { s with gateway := { s.gateway with ready := true } }
  -- The calls the old process did not serve are gone or, by the client's retry, sent again.
  | .restartGateway run => some { s with gateway := ⟨run, [], none, false⟩, stale := 0, resets := 0 }
  | .startPoll =>
    match s.poll with
    | .idle => some { s with poll := .asked false }
    | _ => none
  | .serveHealth =>
    match s.poll with
    | .asked retried => some { s with poll := .told retried s.gateway.health }
    | _ => none
  | .healthArrives =>
    match s.poll with
    | .told _ run => some (s.bind run)
    | _ => none
  | .serveOutputs =>
    match s.poll with
    | .wants retried =>
      let (gateway, events) := s.gateway.next_outputs limit
      some { s with gateway := gateway, poll := .given retried gateway.run_id events }
    | _ => none
  | .outputsArrive =>
    match s.poll with
    | .given _ run events => if s.projection.thrownAt events = none then some (s.finish run events) else none
    | _ => none
  | .outputsAbort count =>
    match s.poll with
    | .given _ _ events => some { s with projection := s.projection.applyAborted events count, poll := .idle }
    | _ => none
  | .fail => if s.poll = .idle then none else some { s with poll := .idle, stale := s.pending }
  | .retry =>
    match s.poll with
    | .asked false | .told false _ => some { s with poll := .asked true }
    | .wants false | .given false _ _ => some { s with poll := .wants true, stale := s.pending }
    | _ => none
  | .serveStale =>
    if 0 < s.stale then some { s with gateway := (s.gateway.next_outputs limit).1, stale := s.stale - 1 } else none
  | .restartApi =>
    some { s with projection := .new s.projection.db, poll := .idle, stale := s.pending, rebuilding := 0 }
  | .rebuild =>
    some { s with
      projection := s.projection.wipe
      rebuilding := s.rebuilding + 1
      resets := s.resets + 1
      applied := [] }
  | .serveReset =>
    if 0 < s.resets then some { s with gateway := s.gateway.reset_journal_tail, resets := s.resets - 1 } else none
  | .retryReset => if 0 < s.rebuilding then some { s with resets := s.resets + 1 } else none
  | .rebuildEnds => if 0 < s.rebuilding then some { s with rebuilding := s.rebuilding - 1 } else none

/-- A gateway whose engine just started, and a new database. -/
def init (run : RunId) : Plane where
  gateway := ⟨run, [], none, false⟩
  projection := .new .migrate
  poll := .idle
  stale := 0
  rebuilding := 0
  resets := 0
  applied := []

/-- What a move does, for those that look at the journal, the tables and the poll. -/
inductive Moved (limit : Nat) (s : Plane) : PlaneMove → Plane → Prop
  | emit {event : OutputEvent} : val event.output_seq = s.gateway.journal.length + 1 →
      Moved limit s (.emit event) { s with gateway := { s.gateway with journal := s.gateway.journal ++ [event] } }
  /-- Counters, the tail and the snapshot. -/
  | around {move : PlaneMove} (tail : Option Nat) (ready : Bool) (stale rebuilding resets : Nat) :
      Moved limit s move { s with
        gateway := { s.gateway with tail := tail, ready := ready }
        stale := stale
        rebuilding := rebuilding
        resets := resets }
  | restartGateway {run : RunId} :
      Moved limit s (.restartGateway run) { s with gateway := ⟨run, [], none, false⟩, stale := 0, resets := 0 }
  /-- A poll ends, or begins again. -/
  | call {move : PlaneMove} (poll : Poll) (stale : Nat) : (poll = .idle ∨ ∃ retried, poll = .asked retried) →
      Moved limit s move { s with poll := poll, stale := stale }
  | again {move : PlaneMove} (stale : Nat) :
      ((∃ retried, s.poll = .wants retried) ∨ ∃ retried run events, s.poll = .given retried run events) →
      Moved limit s move { s with poll := .wants true, stale := stale }
  | serveHealth (retried : Bool) : Moved limit s .serveHealth { s with poll := .told retried s.gateway.health }
  | healthArrives {retried : Bool} {run : RunId} : s.poll = .told retried run →
      Moved limit s .healthArrives (s.bind run)
  | serveOutputs {retried : Bool} : s.poll = .wants retried →
      Moved limit s .serveOutputs { s with
        gateway := (s.gateway.next_outputs limit).1
        poll := .given retried s.gateway.run_id (s.gateway.next_outputs limit).2 }
  | outputsArrive {retried : Bool} {run : RunId} {events : List OutputEvent} : s.poll = .given retried run events →
      Moved limit s .outputsArrive (s.finish run events)
  | outputsAbort {retried : Bool} {run : RunId} {events : List OutputEvent} {count : Nat} :
      s.poll = .given retried run events →
      Moved limit s (.outputsAbort count) { s with projection := s.projection.applyAborted events count, poll := .idle }
  | restartApi (stale : Nat) :
      Moved limit s .restartApi { s with projection := .new s.projection.db, poll := .idle, stale := stale, rebuilding := 0 }
  | rebuild : Moved limit s .rebuild { s with
      projection := s.projection.wipe
      rebuilding := s.rebuilding + 1
      resets := s.resets + 1
      applied := [] }

theorem step_moved {limit : Nat} {s s' : Plane} {move : PlaneMove} (h : s.step limit move = some s') :
    Moved limit s move s' := by
  cases move with
  | emit event =>
    rw [step] at h
    split at h
    · rename_i hseq
      cases h
      exact .emit hseq
    · cases h
  | snapshot =>
    cases h
    exact .around s.gateway.tail true s.stale s.rebuilding s.resets
  | restartGateway run =>
    cases h
    exact .restartGateway
  | startPoll =>
    rw [step] at h
    split at h
    · cases h
      exact .call (.asked false) s.stale (.inr ⟨_, rfl⟩)
    · cases h
  | serveHealth =>
    rw [step] at h
    split at h
    · cases h
      exact .serveHealth _
    · cases h
  | healthArrives =>
    rw [step] at h
    split at h
    · rename_i hpoll
      cases h
      exact .healthArrives hpoll
    · cases h
  | serveOutputs =>
    rw [step] at h
    split at h
    · rename_i hpoll
      cases h
      exact .serveOutputs hpoll
    · cases h
  | outputsArrive =>
    rw [step] at h
    split at h
    · rename_i hpoll
      split at h
      · cases h
        exact .outputsArrive hpoll
      · cases h
    · cases h
  | outputsAbort count =>
    rw [step] at h
    split at h
    · rename_i hpoll
      cases h
      exact .outputsAbort hpoll
    · cases h
  | fail =>
    rw [step] at h
    split at h
    · cases h
    · cases h
      exact .call .idle s.pending (.inl rfl)
  | retry =>
    rw [step] at h
    split at h
    · cases h
      exact .call (.asked true) s.stale (.inr ⟨_, rfl⟩)
    · cases h
      exact .call (.asked true) s.stale (.inr ⟨_, rfl⟩)
    · rename_i hpoll
      cases h
      exact .again s.pending (.inl ⟨_, hpoll⟩)
    · rename_i hpoll
      cases h
      exact .again s.pending (.inr ⟨_, _, _, hpoll⟩)
    · cases h
  | serveStale =>
    rw [step] at h
    split at h
    · cases h
      exact .around _ s.gateway.ready (s.stale - 1) s.rebuilding s.resets
    · cases h
  | restartApi =>
    cases h
    exact .restartApi s.pending
  | rebuild =>
    cases h
    exact .rebuild
  | serveReset =>
    rw [step] at h
    split at h
    · cases h
      exact .around none s.gateway.ready s.stale s.rebuilding (s.resets - 1)
    · cases h
  | retryReset =>
    rw [step] at h
    split at h
    · cases h
      exact .around s.gateway.tail s.gateway.ready s.stale s.rebuilding (s.resets + 1)
    · cases h
  | rebuildEnds =>
    rw [step] at h
    split at h
    · cases h
      exact .around s.gateway.tail s.gateway.ready s.stale (s.rebuilding - 1) s.resets
    · cases h

end Plane

end TradingLab
