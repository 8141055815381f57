import TradingLab.Polling
/-!
# The position of a projection

The cursors of `projection.ts` move in memory while a batch goes into the tables, and
go into the database behind the last event of it. A batch that comes to its end leaves
the two together, however it is cut out of the stream; one that stops at a missing
number, or that is aborted, leaves them apart if it had taken an event.
-/
open LabLib

namespace TradingLab

/-- The three cursors. -/
structure Position where
  lastOutputSeq : Int
  lastEngineSeq : Int
  projectionSeq : Int
deriving DecidableEq

def Projection.memory (p : Projection) : Position := ⟨p.lastOutputSeq, p.lastEngineSeq, p.projectionSeq⟩

def Database.position (db : Database) : Position :=
  ⟨db.state.last_output_seq, db.state.as_of_engine_seq, db.state.projection_seq⟩

/-- The position of the last of the events, counted on from where it was. -/
def Position.after (position : Position) (events : List OutputEvent) : Position :=
  match events.getLast? with
  | none => position
  | some event => ⟨val event.output_seq, val event.engine_seq, position.projectionSeq + events.length⟩

theorem Position.after_cons (position : Position) (event : OutputEvent) (events : List OutputEvent) :
    position.after (event :: events) =
      Position.after ⟨val event.output_seq, val event.engine_seq, position.projectionSeq + 1⟩ events := by
  cases events with
  | nil => rfl
  | cons next events =>
    rw [Position.after, Position.after, List.getLast?_cons_cons, List.length_cons]
    cases hlast : (next :: events).getLast? with
    | none => simp at hlast
    | some last =>
      dsimp only
      congr 1
      push_cast
      ring

theorem Position.after_append (position : Position) (events more : List OutputEvent) :
    position.after (events ++ more) = (position.after events).after more := by
  induction events generalizing position with
  | nil => rfl
  | cons event events ih => rw [List.cons_append, after_cons, after_cons, ih]

/-- A position moves with every event. -/
theorem Position.after_eq_self {position : Position} {events : List OutputEvent} :
    position.after events = position ↔ events = [] := by
  constructor
  · intro h
    have hseq := congrArg Position.projectionSeq h
    rw [Position.after] at hseq
    split at hseq
    · rename_i hlast
      exact List.getLast?_eq_none_iff.1 hlast
    · dsimp only at hseq
      exact List.length_eq_zero_iff.1 (by omega)
  · rintro rfl
    rfl

/-! ## A batch -/

theorem memory_foldl_take (p : Projection) (events : List OutputEvent) :
    (events.foldl Projection.take p).memory = p.memory.after events := by
  induction events generalizing p with
  | nil => rfl
  | cons event events ih => rw [List.foldl_cons, ih, Position.after_cons]; rfl

theorem state_foldl_take (p : Projection) (events : List OutputEvent) :
    (events.foldl Projection.take p).db.state = p.db.state := by
  induction events generalizing p with
  | nil => rfl
  | cons event events ih => rw [List.foldl_cons, ih, Projection.take, state_applyEvent]

theorem runId_foldl_take (p : Projection) (events : List OutputEvent) :
    (events.foldl Projection.take p).runId = p.runId := by
  induction events generalizing p with
  | nil => rfl
  | cons event events ih => exact ih (p.take event)

/-! ## Calls -/

/-- A call of `apply`. SQLite may abort its transaction, at the event with this number or behind the last one. -/
structure ApplyCall where
  events : List OutputEvent
  aborted : Option Nat

/-- The events SQLite lets the loop come to. -/
def ApplyCall.allowed (call : ApplyCall) : List OutputEvent :=
  match call.aborted with
  | none => call.events
  | some count => call.events.take count

/-- Where the transaction is aborted: at an integer that cannot be bound, or else by SQLite. -/
def ApplyCall.stop (call : ApplyCall) (p : Projection) : Option Nat := (p.thrownAt call.allowed).or call.aborted

/-- The events the loop has come to. -/
def ApplyCall.read (call : ApplyCall) (p : Projection) : List OutputEvent :=
  match call.stop p with
  | none => call.events
  | some count => call.events.take count

def Projection.call (p : Projection) (call : ApplyCall) : Projection :=
  match call.stop p with
  | none => p.commit call.events
  | some count => p.applyAborted call.events count

/-- The events whose effects the call leaves in the tables. -/
def Projection.entered (p : Projection) (call : ApplyCall) : List OutputEvent :=
  match call.stop p with
  | none => p.applied call.events
  | some _ => []

def OutputEvent.seqs (events : List OutputEvent) : List Int := events.map fun event => val event.output_seq

/-- Each number is at most one above the position and the numbers in front of it, unless these are all 0. -/
def Gapless (position : Int) (seqs : List Int) : Prop :=
  ∀ k seq, seqs[k]? = some seq → (seqs.take k).foldl max position = 0 ∨ seq ≤ (seqs.take k).foldl max position + 1

/-- The first number above the position, if there is one, leaves a gap. -/
def Blocked (position : Int) (seqs : List Int) : Prop :=
  ∀ seq, seqs.find? (position < ·) = some seq → position ≠ 0 ∧ seq ≠ position + 1

/-- The call commits a batch without a gap, or the loop finds no event that it can take. -/
def Projection.Whole (p : Projection) (call : ApplyCall) : Prop :=
  (call.stop p = none ∧ Gapless p.lastOutputSeq (OutputEvent.seqs call.events)) ∨
    Blocked p.lastOutputSeq (OutputEvent.seqs (call.read p))

def Projection.calls (p : Projection) (calls : List ApplyCall) : Projection := calls.foldl Projection.call p

def Projection.enteredBy (p : Projection) : List ApplyCall → List OutputEvent
  | [] => []
  | call :: calls => p.entered call ++ (p.call call).enteredBy calls

/-- The tables hold the effects of these events on top of what the database held, the stored position is that of the
last of them, and so is the one in memory. -/
structure Projection.InStep (p : Projection) (db : Database) (events : List OutputEvent) : Prop where
  content : p.db.content = (events.foldl (fun db event => db.applyEvent p.runId event) db).content
  stored : p.db.position = db.position.after events
  memory : p.memory = p.db.position

variable {p : Projection} {db : Database} {events : List OutputEvent}

theorem gapless_cons {position seq : Int} {seqs : List Int} :
    Gapless position (seq :: seqs) ↔ (position = 0 ∨ seq ≤ position + 1) ∧ Gapless (max position seq) seqs := by
  constructor
  · intro h
    exact ⟨h 0 seq rfl, fun k seq' hseq' => h (k + 1) seq' hseq'⟩
  · rintro ⟨hfirst, hrest⟩ k seq' hseq'
    cases k with
    | zero =>
      cases hseq'
      exact hfirst
    | succ k => exact hrest k seq' hseq'

/-- The loop comes to the end of a batch just if its numbers have no gap. -/
theorem applyLoop_end_iff {p : Projection} {events : List OutputEvent} :
    (p.applyLoop events).2 = true ↔ Gapless p.lastOutputSeq (OutputEvent.seqs events) := by
  induction events generalizing p with
  | nil => exact ⟨fun _ k seq hseq => by simp [OutputEvent.seqs] at hseq, fun _ => rfl⟩
  | cons event events ih =>
    change _ ↔ Gapless _ (val event.output_seq :: OutputEvent.seqs events)
    rw [Projection.applyLoop, gapless_cons]
    split
    · rename_i hold
      rw [ih, max_eq_left hold]
      exact ⟨fun h => ⟨.inr (by omega), h⟩, And.right⟩
    · rename_i hnew
      split
      · rename_i hgap
        exact ⟨fun h => (by cases h), fun h => by omega⟩
      · rename_i hnext
        rw [ih, max_eq_right (by omega)]
        exact ⟨fun h => ⟨by omega, h⟩, And.right⟩

theorem applied_eq_nil_iff {p : Projection} {events : List OutputEvent} :
    p.applied events = [] ↔ Blocked p.lastOutputSeq (OutputEvent.seqs events) := by
  induction events with
  | nil => exact ⟨fun _ seq hseq => by simp [OutputEvent.seqs] at hseq, fun _ => rfl⟩
  | cons event events ih =>
    change _ ↔ Blocked _ (val event.output_seq :: OutputEvent.seqs events)
    rw [Projection.applied, Blocked, List.find?_cons]
    split
    · rename_i hold
      rw [ih, Blocked, decide_eq_false (by omega)]
    · rename_i hnew
      rw [decide_eq_true (by omega)]
      split
      · rename_i hgap
        exact ⟨fun _ seq hseq => by cases hseq; exact hgap.symm, fun _ => rfl⟩
      · rename_i hnext
        exact ⟨fun h => (by cases h), fun h => absurd (h _ rfl).symm hnext⟩

theorem whole_iff {p : Projection} {call : ApplyCall} : p.Whole call ↔
    (call.stop p = none ∧ (p.applyLoop call.events).2 = true) ∨ p.applied (call.read p) = [] := by
  rw [Projection.Whole, applyLoop_end_iff, applied_eq_nil_iff]

theorem inStep_new (db : Database) : (Projection.new db).InStep db [] := ⟨rfl, rfl, rfl⟩

theorem call_runId (p : Projection) (call : ApplyCall) : (p.call call).runId = p.runId := by
  unfold Projection.call
  split
  · exact (commit_framed p call.events).runId
  · exact (applyLoop_framed p _).runId

/-- The events that were entered are in the tables, whatever became of the call. -/
theorem content_call (p : Projection) (call : ApplyCall) : (p.call call).db.content =
    ((p.entered call).foldl (fun db event => db.applyEvent p.runId event) p.db).content := by
  unfold Projection.call Projection.entered
  split
  · exact content_commit p call.events
  · rfl

/-- Where a call leaves the position in memory, and the stored one. -/
theorem memory_call (p : Projection) (call : ApplyCall) : (p.call call).memory = p.memory.after (p.applied (call.read p)) := by
  have hloop : ∀ events, (p.applyLoop events).1.memory = p.memory.after (p.applied events) := by
    intro events
    rw [applyLoop_eq, ← memory_foldl_take]
    split <;> rfl
  unfold Projection.call ApplyCall.read
  split
  · rw [← hloop, Projection.commit]
    split
    · rename_i heq
      rw [heq]
      rfl
    · rename_i heq
      rw [heq]
  · exact hloop _

theorem position_call (p : Projection) (call : ApplyCall) : (p.call call).db.position =
    if call.stop p = none ∧ (p.applyLoop call.events).2 = true then (p.call call).memory else p.db.position := by
  unfold Projection.call
  split
  · rename_i hnone
    rw [hnone, Projection.commit]
    have hloop := applyLoop_eq p call.events
    split
    · rename_i p' heq
      rw [heq, if_pos ⟨rfl, rfl⟩]
      rfl
    · rename_i p' heq
      rw [heq, if_neg Bool.false_ne_true] at hloop
      rw [heq, if_neg (by simp)]
      change p' = _ at hloop
      rw [hloop, Database.position, Database.position, Projection.latch]
      simp only [state_foldl_take]
  · rename_i count hsome
    rw [hsome, if_neg (by simp)]
    rfl

/-- One call keeps the positions together just if it is a whole one. -/
theorem Projection.InStep.call (h : p.InStep db events) (call : ApplyCall) :
    (p.call call).InStep db (events ++ p.entered call) ↔ p.Whole call := by
  have hcontent : (p.call call).db.content =
      ((events ++ p.entered call).foldl (fun db event => db.applyEvent (p.call call).runId event) db).content := by
    rw [content_call, call_runId, List.foldl_append]
    exact content_foldl h.content _ _
  have hmemory := memory_call p call
  have hposition := position_call p call
  rw [whole_iff]
  by_cases hdone : call.stop p = none ∧ (p.applyLoop call.events).2 = true
  · rw [if_pos hdone] at hposition
    refine ⟨fun _ => .inl hdone, fun _ => ⟨hcontent, ?_, hposition.symm⟩⟩
    rw [hposition, hmemory, Position.after_append, ← h.stored, h.memory, ApplyCall.read, Projection.entered, hdone.1]
  · rw [if_neg hdone] at hposition
    constructor
    · intro hstep
      have hsame := hstep.memory
      rw [hmemory, hposition, ← h.memory] at hsame
      exact .inr (Position.after_eq_self.1 hsame)
    · rintro (hwhole | hnone)
      · exact absurd hwhole hdone
      · have hentered : p.entered call = [] := by
          unfold Projection.entered
          split
          · rename_i heq
            rw [ApplyCall.read, heq] at hnone
            exact hnone
          · rfl
        refine ⟨hcontent, ?_, ?_⟩
        · rw [hposition, hentered, List.append_nil, h.stored]
        · rw [hmemory, hnone, hposition, ← h.memory]
          rfl

theorem Projection.InStep.calls (h : p.InStep db events) (calls : List ApplyCall) :
    (∀ n, (p.calls (calls.take n)).InStep db (events ++ p.enteredBy (calls.take n))) ↔
      ∀ n call, calls[n]? = some call → (p.calls (calls.take n)).Whole call := by
  induction calls generalizing p events with
  | nil =>
    refine ⟨fun _ n call hcall => by simp at hcall, fun _ n => ?_⟩
    rw [List.take_nil, Projection.enteredBy, List.append_nil]
    exact h
  | cons call calls ih =>
    constructor
    · intro hall n c hc
      have hone := hall 1
      rw [List.take_succ_cons, List.take_zero, Projection.enteredBy, Projection.enteredBy, List.append_nil] at hone
      cases n with
      | zero =>
        rw [List.getElem?_cons_zero] at hc
        cases hc
        exact (h.call call).1 hone
      | succ n =>
        refine (ih hone).1 (fun k => ?_) n c hc
        have hk := hall (k + 1)
        rw [List.take_succ_cons, Projection.enteredBy, ← List.append_assoc] at hk
        exact hk
    · intro hall n
      have hone := (h.call call).2 (hall 0 call rfl)
      cases n with
      | zero =>
        rw [List.take_zero, Projection.enteredBy, List.append_nil]
        exact h
      | succ n =>
        rw [List.take_succ_cons, Projection.enteredBy, ← List.append_assoc]
        exact (ih hone).2 (fun k c hc => hall (k + 1) c hc) n

/-- From any stored state: after every call the tables, the stored position and the one in memory are those of the same
events, just if every call comes to the end of its batch or takes no event. -/
theorem cursors_in_step_iff (db : Database) (calls : List ApplyCall) :
    (∀ n, ((Projection.new db).calls (calls.take n)).InStep db ((Projection.new db).enteredBy (calls.take n))) ↔
      ∀ n call, calls[n]? = some call → ((Projection.new db).calls (calls.take n)).Whole call :=
  (inStep_new db).calls calls

/-- A database that is bound to a run and has no events yet. -/
def boundDatabase : Database := { Database.migrate with state := ⟨0, 0, 0, 1, .healthy⟩ }

/-- Account 2 buys 5 from account 1. -/
def smallTrade (seq : OutputSeq) : OutputEvent := .Trade ⟨seq, 7, 0, seq, 0, 11, 12, 1, 2, .Buy, 100, 5⟩

/-- A number is missing behind the first event of the batch. -/
def gapProjection : Projection := (Projection.new boundDatabase).apply [smallTrade 1, smallTrade 3]

/-- SQLite aborts the transaction behind its only event. -/
def abortedProjection : Projection := (Projection.new boundDatabase).applyAborted [smallTrade 1] 1

/-- With a gap the event is in the tables, and the stored position is in front of it. With an aborted transaction it
is not in the tables, and the position in memory is behind it; the next batch stores that position. -/
theorem cursors_come_apart :
    (gapProjection.db.trades.length = 1 ∧ gapProjection.db.state.last_output_seq = 0 ∧ gapProjection.lastOutputSeq = 1) ∧
    (abortedProjection.db.trades.length = 0 ∧ abortedProjection.db.state.last_output_seq = 0 ∧
      abortedProjection.lastOutputSeq = 1) ∧
    ((abortedProjection.apply [smallTrade 2]).db.trades.length = 1 ∧
      (abortedProjection.apply [smallTrade 2]).db.state.last_output_seq = 2) := by
  decide +kernel

/-! ## Any way to deliver a stream -/

/-- Events go into the tables one by one, and the position behind them is stored. -/
def Projection.once (p : Projection) (events : List OutputEvent) : Projection := (events.foldl Projection.take p).store

/-- A slice of the stream. The projection may be reconstructed from the database before it is applied. -/
structure Delivery where
  start : Nat
  len : Nat
  restart : Bool
deriving DecidableEq

def Projection.deliver (stream : List OutputEvent) (p : Projection) (delivery : Delivery) : Projection :=
  (if delivery.restart then Projection.new p.db else p).apply ((stream.drop delivery.start).take delivery.len)

/-- Each slice starts at the event behind the position, or earlier. -/
def Contiguous (stream : List OutputEvent) : Projection → List Delivery → Prop
  | _, [] => True
  | p, delivery :: deliveries =>
    delivery.start ≤ p.lastOutputSeq ∧ Contiguous stream (p.deliver stream delivery) deliveries

/-- How many events of the stream have been delivered, after the first `k`. -/
def delivered (stream : List OutputEvent) (k : Nat) (deliveries : List Delivery) : Nat :=
  deliveries.foldl (fun k delivery => max k (min (delivery.start + delivery.len) stream.length)) k

theorem applyEvent_state (db : Database) (state : ProjectionState) (runId : RunId) (event : OutputEvent) :
    Database.applyEvent { db with state := state } runId event = { db.applyEvent runId event with state := state } := by
  have hframe := congrArg Database.settlements (db.applyEvent_with db.settlements db.state runId event)
  have hsettlements : (db.applyEvent runId event).settlements = db.settlements := hframe
  refine (db.applyEvent_with db.settlements state runId event).trans ?_
  dsimp only
  rw [hsettlements]

theorem store_take_store (p : Projection) (event : OutputEvent) : (p.store.take event).store = (p.take event).store := by
  simp only [Projection.store, Projection.take, applyEvent_state, state_applyEvent]

theorem once_once (p : Projection) (events more : List OutputEvent) :
    (p.once events).once more = p.once (events ++ more) := by
  have hstore : ∀ (q : Projection) (l : List OutputEvent), q.store.once l = q.once l := by
    intro q l
    induction l using List.reverseRecOn with
    | nil => rfl
    | append_singleton l event ih =>
      rw [Projection.once, Projection.once, List.foldl_append, List.foldl_append] at *
      change ((l.foldl Projection.take q.store).take event).store = ((l.foldl Projection.take q).take event).store
      rw [← store_take_store, ih, store_take_store]
  calc (p.once events).once more = (events.foldl Projection.take p).once more := hstore _ _
    _ = p.once (events ++ more) := by rw [Projection.once, Projection.once, List.foldl_append]

/-- A projection that holds what is stored is the one made anew from its database. -/
theorem new_once (db : Database) (events : List OutputEvent) :
    Projection.new ((Projection.new db).once events).db = (Projection.new db).once events := by
  have hhealth : (events.foldl Projection.take (.new db)).healthState = db.state.projection_health := by
    induction events using List.reverseRecOn with
    | nil => rfl
    | append_singleton l event ih => rw [List.foldl_append]; exact ih
  have hrun := runId_foldl_take (.new db) events
  have hstate := state_foldl_take (.new db) events
  simp only [Projection.new, Projection.once, Projection.store, hstate] at *
  rw [hhealth, hrun]

theorem applyLoop_skip {front : List OutputEvent} (h : ∀ event ∈ front, val event.output_seq ≤ p.lastOutputSeq)
    (back : List OutputEvent) : p.applyLoop (front ++ back) = p.applyLoop back := by
  induction front with
  | nil => rfl
  | cons event front ih =>
    obtain ⟨hevent, hfront⟩ := List.forall_mem_cons.1 h
    rw [List.cons_append, Projection.applyLoop, if_pos hevent, ih hfront]

theorem lastOutputSeq_foldl_take {events : List OutputEvent} {last : Int}
    (h : Counts p.lastOutputSeq (events.map fun event => val event.output_seq) last) :
    (events.foldl Projection.take p).lastOutputSeq = last := by
  induction events generalizing p with
  | nil => exact h.symm
  | cons event events ih => exact ih (p := p.take event) h.2

section Stream
variable {stream : List OutputEvent} (hnum : Numbered stream)
variable {k : Nat}
include hnum

/-- What follows the first `k` events counts on from `k`. -/
theorem counts_of_numbered {events : List OutputEvent} (h : events <+: stream.drop k) :
    Counts k (events.map fun event => val event.output_seq) (k + events.length) := by
  induction events generalizing k with
  | nil => simp [Counts]
  | cons event events ih =>
    obtain ⟨rest, hrest⟩ := h
    have hk : stream[k]? = some event := by
      rw [← List.head?_drop, ← hrest]
      rfl
    have hnext : events <+: stream.drop (k + 1) := by
      refine ⟨rest, ?_⟩
      rw [← List.drop_drop, ← hrest]
      rfl
    have hseq := hnum k event hk
    have hcounts := ih hnext
    refine ⟨hseq, ?_⟩
    change Counts (val event.output_seq) _ _
    rw [hseq, List.length_cons]
    push_cast at hcounts ⊢
    rwa [add_comm (events.length : Int), ← add_assoc]

theorem commit_slice (hk : p.lastOutputSeq = k) {start : Nat} (hstart : start ≤ k) (len : Nat) :
    p.commit ((stream.drop start).take len) =
      p.once ((stream.take (max k (min (start + len) stream.length))).drop k) := by
  have hslice : (stream.drop start).take len = (stream.take (start + len)).drop start := by
    rw [List.drop_take, Nat.add_sub_cancel_left]
  have hsplit : (stream.take (start + len)).drop start =
      ((stream.take (start + len)).drop start).take (k - start) ++ (stream.take (start + len)).drop k := by
    conv_lhs => rw [← List.take_append_drop (k - start) ((stream.take (start + len)).drop start)]
    rw [List.drop_drop, Nat.add_sub_cancel' hstart]
  have hback : (stream.take (max k (min (start + len) stream.length))).drop k = (stream.take (start + len)).drop k := by
    rw [List.drop_take, List.drop_take]
    rcases Nat.le_total (min (start + len) stream.length) k with hle | hle
    · rw [Nat.max_eq_left hle, Nat.sub_self, List.take_zero]
      refine (List.length_eq_zero_iff.1 ?_).symm
      rw [List.length_take, List.length_drop]
      omega
    · rw [Nat.max_eq_right hle, ← Nat.sub_min_sub_right, ← List.length_drop, ← List.take_eq_take_min]
  have hold : ∀ event ∈ ((stream.take (start + len)).drop start).take (k - start), val event.output_seq ≤ p.lastOutputSeq := by
    intro event hmem
    obtain ⟨i, hi⟩ := List.getElem?_of_mem hmem
    rw [List.getElem?_take] at hi
    split at hi
    · rw [List.getElem?_drop, List.getElem?_take] at hi
      split at hi
      · rw [hnum _ event hi, hk]
        push_cast
        omega
      · cases hi
    · cases hi
  have hcounts : Counts k (((stream.take (start + len)).drop k).map fun event => val event.output_seq) _ :=
    counts_of_numbered hnum (by rw [List.drop_take]; exact List.take_prefix _ _)
  rw [hslice, hsplit, Projection.commit, applyLoop_skip hold, hback]
  rw [← hk] at hcounts
  rw [applyLoop_of_counts hcounts]
  rfl

/-- A slice whose new events can all be bound is committed. -/
theorem apply_slice_eq_commit (hbinds : ∀ event ∈ stream.drop k, event.binds = true) {j : Nat} (hkj : k ≤ j)
    (hj : p.lastOutputSeq = j) (start len : Nat) :
    p.apply ((stream.drop start).take len) = p.commit ((stream.drop start).take len) := by
  refine apply_of_binds fun event hevent => ?_
  obtain ⟨hmem, hnew⟩ := mem_applied hevent
  obtain ⟨i, hi⟩ := List.getElem?_of_mem (List.mem_of_mem_drop (List.mem_of_mem_take hmem))
  have hseq := hnum i event hi
  refine hbinds event (List.mem_of_getElem? (i := i - k) ?_)
  rwa [List.getElem?_drop, Nat.add_sub_cancel' (by omega)]

theorem lastOutputSeq_once (hk : p.lastOutputSeq = k) {j : Nat} (hkj : k ≤ j) (hj : j ≤ stream.length) :
    (p.once ((stream.take j).drop k)).lastOutputSeq = j := by
  have hcounts : Counts k (((stream.take j).drop k).map fun event => val event.output_seq) _ :=
    counts_of_numbered hnum (by rw [List.drop_take]; exact List.take_prefix _ _)
  have hlength : ((stream.take j).drop k).length = j - k := by
    rw [List.length_drop, List.length_take, Nat.min_eq_left hj]
  rw [← hk] at hcounts
  have hlast := lastOutputSeq_foldl_take hcounts
  rw [hlength, hk] at hlast
  change (((stream.take j).drop k).foldl Projection.take p).lastOutputSeq = j
  omega

section Binds
variable {k : Nat} (hbinds : ∀ event ∈ stream.drop k, event.binds = true)
include hbinds

/-- Where a delivery leaves a projection that has the events from `k` to `j`. -/
theorem deliver_once {j : Nat} (hk : db.state.last_output_seq = k) (hkj : k ≤ j) (hj : j ≤ stream.length)
    {delivery : Delivery} (hstart : delivery.start ≤ j) :
    ((Projection.new db).once ((stream.take j).drop k)).deliver stream delivery =
      (Projection.new db).once ((stream.take (max j (min (delivery.start + delivery.len) stream.length))).drop k) := by
  have hlast := lastOutputSeq_once hnum (p := Projection.new db) hk hkj hj
  have hnew : (if delivery.restart then Projection.new ((Projection.new db).once ((stream.take j).drop k)).db
      else (Projection.new db).once ((stream.take j).drop k)) = (Projection.new db).once ((stream.take j).drop k) := by
    rw [new_once, ite_self]
  rw [Projection.deliver, hnew, apply_slice_eq_commit hnum hbinds hkj hlast, commit_slice hnum hlast hstart, once_once]
  congr 1
  have hjoin := List.take_append_drop j (stream.take (max j (min (delivery.start + delivery.len) stream.length)))
  rw [List.take_take, Nat.min_eq_left (Nat.le_max_left _ _)] at hjoin
  conv_rhs => rw [← hjoin]
  rw [List.drop_append_of_le_length (by rw [List.length_take, Nat.min_eq_left hj]; exact hkj)]

theorem deliver_all {j : Nat} (hk : db.state.last_output_seq = k) (hkj : k ≤ j) (hj : j ≤ stream.length)
    {deliveries : List Delivery}
    (h : Contiguous stream ((Projection.new db).once ((stream.take j).drop k)) deliveries) :
    deliveries.foldl (Projection.deliver stream) ((Projection.new db).once ((stream.take j).drop k)) =
      (Projection.new db).once ((stream.take (delivered stream j deliveries)).drop k) := by
  induction deliveries generalizing j with
  | nil => rfl
  | cons delivery deliveries ih =>
    obtain ⟨hstart, hrest⟩ := h
    rw [lastOutputSeq_once hnum (p := Projection.new db) hk hkj hj] at hstart
    rw [deliver_once hnum hbinds hk hkj hj (by omega)] at hrest
    rw [List.foldl_cons, deliver_once hnum hbinds hk hkj hj (by omega),
      ih (hkj.trans (Nat.le_max_left _ _)) (by omega) hrest]
    rfl

end Binds

/-- A batch that throws stores nothing, so all of the stream in one batch is stored only if it does not throw. -/
theorem binds_of_applied (hstored : db.state.last_output_seq = k)
    (h : ((Projection.new db).apply (stream.drop k)).db.state.last_output_seq = stream.length) :
    ∀ event ∈ stream.drop k, event.binds = true := by
  have hcounts := counts_of_numbered hnum (List.prefix_refl (stream.drop k))
  rw [← hstored] at hcounts
  rw [← applied_of_counts (p := Projection.new db) hcounts, ← thrownAt_eq_none_iff]
  cases hthrown : (Projection.new db).thrownAt (stream.drop k) with
  | none => rfl
  | some count =>
    rw [Projection.apply, hthrown] at h
    change db.state.last_output_seq = stream.length at h
    have hend : stream.drop k = [] := List.drop_eq_nil_of_le (by omega)
    rw [hend] at hthrown
    cases hthrown

/-- Slices of a stream, delivered in any way that leaves no gap, with any restarts between them, leave the tables and
the position of each event applied once, in order: just if every integer of the stream can be bound. -/
theorem deliveries_apply_once_iff {k : Nat} (hstored : db.state.last_output_seq = k) (hk : k ≤ stream.length) :
    (∀ deliveries, Contiguous stream (Projection.new db) deliveries →
      (deliveries.foldl (Projection.deliver stream) (Projection.new db)).db =
        ((Projection.new db).once ((stream.take (delivered stream k deliveries)).drop k)).db) ↔
    ∀ event ∈ stream.drop k, event.binds = true := by
  constructor
  · intro h
    -- The whole rest of the stream in one batch decides.
    have hwhole := h [⟨k, stream.length, false⟩] ⟨hstored.ge, trivial⟩
    have hslice : (stream.drop k).take stream.length = stream.drop k :=
      List.take_of_length_le (by rw [List.length_drop]; omega)
    have hall : delivered stream k [⟨k, stream.length, false⟩] = stream.length := by
      change max k (min (k + stream.length) stream.length) = _
      omega
    change ((Projection.new db).apply ((stream.drop k).take stream.length)).db = _ at hwhole
    rw [hslice, hall] at hwhole
    refine binds_of_applied hnum hstored ?_
    rw [hwhole]
    exact lastOutputSeq_once hnum (p := Projection.new db) hstored hk le_rfl
  · intro hbinds deliveries h
    have hstart : (Projection.new db).once ((stream.take k).drop k) = Projection.new db := by
      rw [List.drop_eq_nil_of_le (by rw [List.length_take]; exact Nat.min_le_left _ _)]
      rfl
    rw [← hstart] at h ⊢
    rw [deliver_all hnum hbinds hstored le_rfl hk h, hstart]

end Stream

/-- Two events, the same two once more, and the second again with a third one. -/
def smallDeliveries : List Delivery := [⟨0, 2, false⟩, ⟨0, 2, true⟩, ⟨1, 2, true⟩]

theorem deliveries_apply_once_small :
    Contiguous [smallTrade 1, smallTrade 2, smallTrade 3] (Projection.new boundDatabase) smallDeliveries ∧
    (smallDeliveries.foldl (Projection.deliver [smallTrade 1, smallTrade 2, smallTrade 3])
      (Projection.new boundDatabase)).db =
      ((Projection.new boundDatabase).once [smallTrade 1, smallTrade 2, smallTrade 3]).db := by
  have hnum : Numbered [smallTrade 1, smallTrade 2, smallTrade 3] :=
    numbered_snoc (numbered_snoc (numbered_snoc numbered_nil rfl) rfl) rfl
  have h : Contiguous [smallTrade 1, smallTrade 2, smallTrade 3] (Projection.new boundDatabase) smallDeliveries :=
    ⟨by decide +kernel, by decide +kernel, by decide +kernel, trivial⟩
  exact ⟨h, (deliveries_apply_once_iff hnum rfl (Nat.zero_le _)).2 (by decide +kernel) _ h⟩

/-- A trade at the first nanosecond that is no `i64`. -/
def lateTrade (seq : OutputSeq) : OutputEvent := .Trade ⟨seq, 7, 9223372036854775808, seq, 0, 11, 12, 1, 2, .Buy, 100, 5⟩

def lateStream : List OutputEvent := [smallTrade 1, lateTrade 2]

/-- In one batch with the late trade the first one is lost, in a batch of its own it is stored. -/
theorem batching_decides_tables :
    Contiguous lateStream (Projection.new boundDatabase) [⟨0, 2, false⟩] ∧
    Contiguous lateStream (Projection.new boundDatabase) [⟨0, 1, false⟩, ⟨1, 1, false⟩] ∧
    ((Projection.new boundDatabase).deliver lateStream ⟨0, 2, false⟩).db.trades.length = 0 ∧
    (((Projection.new boundDatabase).deliver lateStream ⟨0, 1, false⟩).deliver lateStream
      ⟨1, 1, false⟩).db.trades.length = 1 :=
  ⟨⟨by decide +kernel, trivial⟩, ⟨by decide +kernel, by decide +kernel, trivial⟩, by decide +kernel, by decide +kernel⟩

end TradingLab
