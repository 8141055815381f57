import TradingLab.ControlPlane
/-!
# What polling guarantees

A healthy projection should have every event of its run up to its position, and of
no other run. A missing record is noticed by its sequence number, except by a
projection that stands at 0, and the run is checked only when `health` is asked. So
nothing may be lost, or rebuilt, between the first check and the first events, and
the gateway may not be restarted between a check and the events that follow it.
-/
open LabLib

namespace TradingLab

/-! ## Tables -/

/-- What the events of a run make of the tables. -/
structure Content where
  orders : HashMap OrderId OrderRow
  trades : List TradeRow
  positions : HashMap (AccountId × InstrumentId) PositionRow
  risk_rejects : HashMap String Nat

def Database.content (db : Database) : Content := ⟨db.orders, db.trades, db.positions, db.risk_rejects⟩

/-- The tables after the events, each of them once. -/
def projected (runId : RunId) (events : List OutputEvent) : Database :=
  events.foldl (fun db event => db.applyEvent runId event) .migrate

theorem projected_nil (runId : RunId) : projected runId [] = .migrate := rfl

theorem projected_snoc (runId : RunId) (events : List OutputEvent) (event : OutputEvent) :
    projected runId (events ++ [event]) = (projected runId events).applyEvent runId event := by
  simp [projected]

theorem content_applyEvent {db db' : Database} (h : db.content = db'.content) (runId : RunId) (event : OutputEvent) :
    (db.applyEvent runId event).content = (db'.applyEvent runId event).content := by
  obtain ⟨orders, trades, positions, rejects, settlements, state⟩ := db
  obtain ⟨orders', trades', positions', rejects', settlements', state'⟩ := db'
  simp only [Database.content, Content.mk.injEq] at h
  obtain ⟨rfl, rfl, rfl, rfl⟩ := h
  exact (congrArg Database.content
    (Database.applyEvent_with ⟨orders, trades, positions, rejects, settlements, state⟩ settlements' state' runId event)).symm

@[simp] theorem state_applyEvent (db : Database) (runId : RunId) (event : OutputEvent) :
    (db.applyEvent runId event).state = db.state := by
  have hstate := congrArg Database.state (db.applyEvent_with db.settlements db.state runId event)
  exact hstate

theorem content_foldl {db db' : Database} (h : db.content = db'.content) (runId : RunId) (events : List OutputEvent) :
    (events.foldl (fun db event => db.applyEvent runId event) db).content =
      (events.foldl (fun db event => db.applyEvent runId event) db').content := by
  induction events generalizing db db' with
  | nil => exact h
  | cons event events ih => exact ih (content_applyEvent h runId event)

/-- The loop takes the events that are applied, and latches if it does not come to the end. -/
theorem applyLoop_eq (p : Projection) (events : List OutputEvent) :
    (p.applyLoop events).1 =
      if (p.applyLoop events).2 then (p.applied events).foldl Projection.take p
      else ((p.applied events).foldl Projection.take p).latch .degraded := by
  induction events generalizing p with
  | nil => rfl
  | cons event events ih =>
    rw [Projection.applyLoop, Projection.applied]
    split
    · exact ih p
    · split
      · rfl
      · exact ih (p.take event)

/-- A batch does to the tables what its applied events do. -/
theorem content_commit (p : Projection) (events : List OutputEvent) : (p.commit events).db.content =
    ((p.applied events).foldl (fun db event => db.applyEvent p.runId event) p.db).content := by
  have hloop := applyLoop_eq p events
  rw [Projection.commit, ← db_foldl_take]
  split
  · rename_i p' hend
    rw [hend, if_pos rfl] at hloop
    have hcontent := congrArg (fun q : Projection => q.db.content) hloop
    exact hcontent
  · rename_i p' hend
    rw [hend, if_neg (by simp)] at hloop
    have hcontent := congrArg (fun q : Projection => q.db.content) hloop
    exact hcontent

/-- The stored trades are the ones of the events. -/
theorem mem_trades_projected {runId : RunId} {events : List OutputEvent} {row : TradeRow}
    (h : row ∈ (projected runId events).trades) : row.run_id = runId ∧ ∃ trade, .Trade trade ∈ events ∧
      row.trade_id = trade.trade_id ∧ row.output_seq = trade.output_seq ∧ row.quantity_lots = trade.quantity := by
  induction events using List.reverseRecOn with
  | nil => cases h
  | append_singleton events event ih =>
    rw [projected_snoc] at h
    have hold : row ∈ (projected runId events).trades → row.run_id = runId ∧ ∃ trade, .Trade trade ∈ events ++ [event] ∧
        row.trade_id = trade.trade_id ∧ row.output_seq = trade.output_seq ∧ row.quantity_lots = trade.quantity := by
      intro hmem
      obtain ⟨hrun, trade, ht, hrow⟩ := ih hmem
      exact ⟨hrun, trade, List.mem_append_left _ ht, hrow⟩
    cases event with
    | State _ => exact hold h
    | Report report =>
      refine hold ?_
      simp only [Database.applyEvent, Database.applyReport] at h
      split at h
      · exact h
      · split at h
        · exact h
        · split at h <;> exact h
    | Trade trade =>
      simp only [Database.applyEvent, Database.applyTrade, Database.addPosition, Database.insert_trade] at h
      split at h
      · exact hold h
      · rcases List.mem_append.1 h with h | h
        · exact hold h
        · rw [List.mem_singleton.1 h]
          exact ⟨rfl, trade, List.mem_append_right _ (List.mem_singleton_self _), rfl, rfl, rfl⟩

/-- What a batch leaves alone. -/
structure Framed (p p' : Projection) : Prop where
  runId : p'.runId = p.runId
  stored : p'.db.state.run_id = p.db.state.run_id
  health : p.healthState = p.db.state.projection_health → p'.healthState = p'.db.state.projection_health
  latched : p'.healthState = p.healthState ∨ p'.healthState = .degraded

theorem Framed.take {p p' : Projection} {event : OutputEvent} (h : Framed (p.take event) p') : Framed p p' := by
  refine ⟨h.runId, ?_, fun hp => h.health ?_, h.latched⟩
  · rw [h.stored, Projection.take, state_applyEvent]
  · rw [Projection.take, state_applyEvent]
    exact hp

theorem applyLoop_framed (p : Projection) (events : List OutputEvent) : Framed p (p.applyLoop events).1 :=
  Projection.applyLoop_rel Framed (fun _ => ⟨rfl, rfl, id, .inl rfl⟩) (fun _ => ⟨rfl, rfl, fun _ => rfl, .inr rfl⟩)
    (fun _ _ _ _ h => h.take) p

theorem commit_framed (p : Projection) (events : List OutputEvent) : Framed p (p.commit events) :=
  Projection.commit_rel Framed (fun _ => ⟨rfl, rfl, id, .inl rfl⟩) (fun _ => ⟨rfl, rfl, fun _ => rfl, .inr rfl⟩)
    (fun _ _ _ _ h => h.take) (fun _ _ h => ⟨h.runId, h.stored, h.health, h.latched⟩) p

/-! ## Complete projections -/

section Complete
variable {limit : Nat} {run : RunId} {journal : List OutputEvent} {p : Projection} {s s' : Plane} {move : PlaneMove}
variable {events : List OutputEvent}

/-- The records of a journal are numbered from 1 on. -/
def Numbered (journal : List OutputEvent) : Prop :=
  ∀ (k : Nat) event, journal[k]? = some event → val event.output_seq = k + 1

/-- The tables are those of the records up to the projection's position. -/
def Upto (journal : List OutputEvent) (run : RunId) (p : Projection) : Prop :=
  ∃ k ≤ journal.length, p.lastOutputSeq = k ∧ p.db.content = (projected run (journal.take k)).content

theorem upto_zero (hlast : p.lastOutputSeq = 0) (hcontent : p.db.content = Database.migrate.content) : Upto journal run p := by
  refine ⟨0, Nat.zero_le _, hlast, ?_⟩
  rw [List.take_zero, projected_nil, hcontent]

theorem Upto.take (h : Upto journal run p) (hrun : p.runId = run) {event : OutputEvent} {k : Nat}
    (hk : journal[k]? = some event) (hnum : Numbered journal) (hlast : p.lastOutputSeq = k) : Upto journal run (p.take event) := by
  obtain ⟨k', -, hk', hcontent⟩ := h
  obtain rfl : k = k' := by omega
  obtain ⟨hlt, -⟩ := List.getElem?_eq_some_iff.1 hk
  refine ⟨k + 1, hlt, ?_, ?_⟩
  · change val event.output_seq = _
    rw [hnum k event hk]
    push_cast
    rfl
  · rw [List.take_add_one, hk, Option.toList_some, projected_snoc, ← hrun]
    rw [← hrun] at hcontent
    exact content_applyEvent hcontent _ _

/-- A piece of the journal goes into complete tables, or leaves a gap that is noticed. -/
theorem Upto.applyLoop (hnum : Numbered journal) {offset : Nat} (h : Upto journal run p) (hrun : p.runId = run)
    (hseg : events <+: journal.drop offset) (hstart : p.lastOutputSeq ≠ 0 ∨ offset = 0) :
    ((p.applyLoop events).2 = true ∧ Upto journal run (p.applyLoop events).1) ∨
      ((p.applyLoop events).2 = false ∧ (p.applyLoop events).1.healthState = .degraded) := by
  induction events generalizing p offset with
  | nil => exact .inl ⟨rfl, h⟩
  | cons event events ih =>
    obtain ⟨rest, hrest⟩ := hseg
    have hhead : journal[offset]? = some event := by
      have := congrArg List.head? hrest
      simpa [List.head?_drop] using this.symm
    have htail : events <+: journal.drop (offset + 1) := by
      have := congrArg List.tail hrest
      exact ⟨rest, by simpa [List.tail_drop] using this⟩
    have hseq := hnum offset event hhead
    have hpos : 0 ≤ p.lastOutputSeq := by
      obtain ⟨k, -, hk, -⟩ := h
      omega
    rw [Projection.applyLoop]
    split
    · rename_i hskip
      exact ih h hrun htail (.inl (by omega))
    · split
      · exact .inr ⟨rfl, rfl⟩
      · rename_i hnew hnext
        have hlast : p.lastOutputSeq = offset := by
          rcases hstart with hne | rfl
          · by_contra hgap
            exact hnext ⟨by omega, hne⟩
          · by_contra hgap
            have : p.lastOutputSeq ≠ 0 := by
              intro h0
              exact hgap (by rw [h0]; rfl)
            exact hnext ⟨by omega, this⟩
        refine ih (h.take hrun hhead hnum hlast) hrun htail (.inl ?_)
        change val event.output_seq ≠ 0
        omega

/-- A healthy projection has what it should have: the records of its run up to its position, and all of them. -/
structure Plane.Complete (s : Plane) : Prop where
  numbered : Numbered s.gateway.journal
  tables : Upto s.gateway.journal s.gateway.run_id s.projection
  bound : s.projection.lastOutputSeq ≠ 0 → s.projection.runId = s.gateway.run_id

/-- The gateway stays up, and the outputs arrive undisturbed: their transaction is
not aborted, no rebuild came since the poll checked the run, and the first ones
begin with the first record. -/
def Plane.undisturbed (s : Plane) : PlaneMove → Bool
  | .restartGateway _ | .outputsAbort _ => false
  | .outputsArrive =>
    match s.poll with
    | .given _ _ (first :: _) =>
      s.projection.runId ≠ 0 && (s.projection.lastOutputSeq ≠ 0 || val first.output_seq = 1)
    | _ => true
  | _ => true

/-- The invariant of a plane with one run. -/
structure Tracks (run : RunId) (s : Plane) : Prop where
  run_id : s.gateway.run_id = run
  numbered : Numbered s.gateway.journal
  health : s.projection.healthState = s.projection.db.state.projection_health
  runId : s.projection.runId = s.projection.db.state.run_id
  bound : s.projection.runId = 0 ∨ s.projection.runId = run
  done : s.projection.healthState = .healthy → Upto s.gateway.journal run s.projection ∧
    s.projection.lastOutputSeq = s.projection.db.state.last_output_seq ∧
    (s.projection.runId = 0 → s.projection.lastOutputSeq = 0)
  told : ∀ retried heard, s.poll = .told retried heard → heard = 0 ∨ heard = run
  given : ∀ retried source events, s.poll = .given retried source events → ∃ offset, events <+: s.gateway.journal.drop offset

theorem numbered_nil : Numbered [] := by
  intro k event hk
  simp at hk

theorem numbered_snoc (h : Numbered journal) {event : OutputEvent} (hseq : val event.output_seq = journal.length + 1) :
    Numbered (journal ++ [event]) := by
  intro k e hk
  rcases getElem?_snoc hk with hk | ⟨rfl, rfl⟩
  · exact h k e hk
  · exact hseq

theorem Upto.grow (h : Upto journal run p) (event : OutputEvent) : Upto (journal ++ [event]) run p := by
  obtain ⟨k, hk, hlast, hcontent⟩ := h
  exact ⟨k, by simp; omega, hlast, by rw [List.take_append_of_le_length hk]; exact hcontent⟩

theorem prefix_drop_grow {offset : Nat} (h : events <+: journal.drop offset) (event : OutputEvent) :
    events <+: (journal ++ [event]).drop offset := by
  rw [List.drop_append]
  exact h.trans (List.prefix_append _ _)

/-- Outputs that arrive undisturbed. -/
theorem Tracks.arrive (h : Tracks run s) {retried : Bool} {source : RunId}
    (hpoll : s.poll = .given retried source events) (hok : s.undisturbed .outputsArrive = true) :
    Tracks run (s.finish source events) := by
  rw [Plane.undisturbed, hpoll] at hok
  cases events with
  | nil => exact ⟨h.run_id, h.numbered, h.health, h.runId, h.bound, h.done, nofun, nofun⟩
  | cons first rest =>
    simp only [ne_eq, decide_not, Bool.and_eq_true, Bool.not_eq_true', decide_eq_false_iff_not, Bool.or_eq_true,
      decide_eq_true_eq] at hok
    obtain ⟨hbound, hfirst⟩ := hok
    obtain ⟨offset, hseg⟩ := h.given _ _ _ hpoll
    have hrun : s.projection.runId = run := h.bound.resolve_left hbound
    have hstart : s.projection.lastOutputSeq ≠ 0 ∨ offset = 0 := by
      refine hfirst.imp_right fun hone => ?_
      obtain ⟨more, hmore⟩ := hseg
      have hhead : s.gateway.journal[offset]? = some first := by
        have := congrArg List.head? hmore
        simpa [List.head?_drop] using this.symm
      have := h.numbered offset first hhead
      omega
    have hframe := commit_framed s.projection (first :: rest)
    rw [Plane.finish, if_neg (List.cons_ne_nil _ _)]
    refine ⟨h.run_id, h.numbered, hframe.health h.health, ?_, ?_, fun hhealthy => ?_, nofun, nofun⟩
    · exact hframe.runId.trans (h.runId.trans hframe.stored.symm)
    · rw [hframe.runId]
      exact h.bound
    · have hbefore : s.projection.healthState = .healthy := by
        rcases hframe.latched with hsame | hdegraded
        · exact hsame.symm.trans hhealthy
        · exact nomatch hdegraded.symm.trans hhealthy
      have hunbound : (s.projection.commit (first :: rest)).runId = 0 →
          (s.projection.commit (first :: rest)).lastOutputSeq = 0 :=
        fun h0 => absurd (hframe.runId.symm.trans h0) hbound
      revert hhealthy hunbound
      rw [Projection.commit]
      rcases (h.done hbefore).1.applyLoop h.numbered hrun hseg hstart with ⟨hend, hupto⟩ | ⟨hend, hdegraded⟩
      · split
        · rename_i p' hloop
          rw [hloop] at hupto
          exact fun _ hunbound => ⟨hupto, rfl, hunbound⟩
        · rename_i p' hloop
          rw [hloop] at hend
          cases hend
      · split
        · rename_i p' hloop
          rw [hloop] at hend
          cases hend
        · rename_i p' hloop
          rw [hloop] at hdegraded
          exact fun hhealthy => nomatch hdegraded.symm.trans hhealthy

theorem Tracks.bind (h : Tracks run s) {heard : RunId} (hheard : heard = 0 ∨ heard = run) : Tracks run (s.bind heard) := by
  have hbind : Tracks run { s with projection := s.projection.bindRun heard, poll := .idle } := by
    rw [Projection.bindRun]
    split
    · exact ⟨h.run_id, h.numbered, h.health, h.runId, h.bound, h.done, nofun, nofun⟩
    · rename_i hne
      split
      · rename_i hzero
        refine ⟨h.run_id, h.numbered, h.health, rfl, .inr (hheard.resolve_left hne), fun hhealthy => ?_, nofun, nofun⟩
        obtain ⟨h1, h2, h3⟩ := h.done hhealthy
        exact ⟨h1, h2, fun _ => h3 hzero⟩
      · split
        · exact ⟨h.run_id, h.numbered, rfl, h.runId, h.bound, nofun, nofun, nofun⟩
        · exact ⟨h.run_id, h.numbered, h.health, h.runId, h.bound, h.done, nofun, nofun⟩
  rw [Plane.bind]
  split
  · exact hbind
  · exact ⟨hbind.run_id, hbind.numbered, hbind.health, hbind.runId, hbind.bound, hbind.done, nofun, nofun⟩

theorem Tracks.step (h : Tracks run s) (hok : s.undisturbed move = true) (hstep : s.step limit move = some s') :
    Tracks run s' := by
  have hmoved := Plane.step_moved hstep
  cases hmoved with
  | emit hseq =>
    refine ⟨h.run_id, numbered_snoc h.numbered hseq, h.health, h.runId, h.bound, fun hhealthy => ?_, h.told,
      fun retried source events hpoll => ?_⟩
    · obtain ⟨h1, h2⟩ := h.done hhealthy
      exact ⟨h1.grow _, h2⟩
    · obtain ⟨offset, hseg⟩ := h.given _ _ _ hpoll
      exact ⟨offset, prefix_drop_grow hseg _⟩
  | around => exact ⟨h.run_id, h.numbered, h.health, h.runId, h.bound, h.done, h.told, h.given⟩
  | restartGateway => cases hok
  | call poll _ hpoll =>
    refine ⟨h.run_id, h.numbered, h.health, h.runId, h.bound, h.done, ?_, ?_⟩ <;>
      rcases hpoll with rfl | ⟨retried, rfl⟩ <;> nofun
  | again => exact ⟨h.run_id, h.numbered, h.health, h.runId, h.bound, h.done, nofun, nofun⟩
  | serveHealth retried =>
    refine ⟨h.run_id, h.numbered, h.health, h.runId, h.bound, h.done, fun retried heard hpoll => ?_, nofun⟩
    cases hpoll
    rw [GatewayState.health]
    split
    · exact .inr h.run_id
    · exact .inl rfl
  | healthArrives hpoll => exact h.bind (h.told _ _ hpoll)
  | serveOutputs hpoll =>
    refine ⟨h.run_id, h.numbered, h.health, h.runId, h.bound, h.done, nofun, fun retried source events hpoll => ?_⟩
    cases hpoll
    exact ⟨_, List.take_prefix _ _⟩
  | outputsArrive hpoll => exact h.arrive hpoll hok
  | outputsAbort => cases hok
  | restartApi stale =>
    refine ⟨h.run_id, h.numbered, rfl, rfl, ?_, fun hhealthy => ?_, nofun, nofun⟩
    · change s.projection.db.state.run_id = 0 ∨ s.projection.db.state.run_id = run
      rw [← h.runId]
      exact h.bound
    · obtain ⟨⟨k, hk, hlast, hcontent⟩, h2, h3⟩ := h.done (h.health.trans hhealthy)
      exact ⟨⟨k, hk, h2.symm.trans hlast, hcontent⟩, rfl, fun h0 => h2.symm.trans (h3 (h.runId.trans h0))⟩
  | rebuild =>
    exact ⟨h.run_id, h.numbered, rfl, rfl, .inl rfl, fun _ => ⟨upto_zero rfl rfl, rfl, fun _ => rfl⟩, h.told, h.given⟩

theorem tracks_init (run : RunId) : Tracks run (Plane.init run) :=
  ⟨rfl, numbered_nil, rfl, rfl, .inl rfl, fun _ => ⟨upto_zero rfl rfl, rfl, fun _ => rfl⟩, nofun, nofun⟩

/-- As long as nothing disturbs the polls, a healthy projection is complete. -/
theorem healthy_projection_complete (h : Reach (Plane.step limit) (fun s move => s.undisturbed move = true) (Plane.init run) s)
    (hhealthy : s.projection.healthState = .healthy) : s.Complete := by
  have htracks := h.inv (Tracks run) (tracks_init run) fun s move s' hs hok hstep => hs.step hok hstep
  obtain ⟨hupto, -, hunbound⟩ := htracks.done hhealthy
  refine ⟨htracks.numbered, ?_, fun hne => ?_⟩
  · rw [htracks.run_id]
    exact hupto
  · rw [htracks.run_id]
    exact htracks.bound.resolve_left fun h0 => hne (hunbound h0)

/-! A run with one trade of one lot after the other, and a poll that nothing goes wrong with. -/

def lotTraded (number : UInt64) : OutputEvent :=
  .Trade ⟨number, number, 0, number, 1, 1, 2, 1, 2, .Buy, 100, 1⟩

def wholePoll : List PlaneMove := [.startPoll, .serveHealth, .healthArrives, .serveOutputs, .outputsArrive]

/-- The second poll has to ask for the run twice. -/
theorem healthy_projection_complete_small :
    ∃ s, Reach (Plane.step 500) (fun s move => s.undisturbed move = true) (Plane.init 1) s ∧
      s.projection.healthState = .healthy ∧ s.projection.lastOutputSeq = 2 ∧ s.Complete := by
  have hwalk : ∃ s ∈ walk (Plane.step 500) (fun s move => s.undisturbed move = true) (Plane.init 1)
      ([.emit (lotTraded 1), .snapshot] ++ wholePoll ++ [.emit (lotTraded 2), .startPoll, .serveHealth, .retry, .serveHealth,
        .healthArrives, .serveOutputs, .outputsArrive]),
      s.projection.healthState = .healthy ∧ s.projection.lastOutputSeq = 2 := by
    decide +kernel
  obtain ⟨s, hs, hhealthy, hlast⟩ := hwalk
  have hreach := reach_of_walk hs
  exact ⟨s, hreach, hhealthy, hlast, healthy_projection_complete hreach hhealthy⟩

theorem incomplete_of_trades {k : Nat} (hlast : s.projection.lastOutputSeq = k)
    (hne : s.projection.db.trades.length ≠ (projected s.gateway.run_id (s.gateway.journal.take k)).trades.length) :
    ¬s.Complete := by
  rintro ⟨-, ⟨k', -, hk', hcontent⟩, -⟩
  obtain rfl : k = k' := by omega
  exact hne (congrArg (fun content => content.trades.length) hcontent)

/-- The response with the first record is lost, or a rebuild begins while the
second is on its way: either way the projection goes on from the second one and is
healthy, with one trade of two. -/
theorem healthy_projection_incomplete :
    (∃ s ∈ walk (Plane.step 1) (fun _ _ => True) (Plane.init 1)
      ([.emit (lotTraded 1), .emit (lotTraded 2), .snapshot, .startPoll, .serveHealth, .healthArrives, .serveOutputs, .fail] ++
        wholePoll),
      s.projection.healthState = .healthy ∧ s.projection.lastOutputSeq = 2 ∧ ¬s.Complete) ∧
    ∃ s ∈ walk (Plane.step 1) (fun _ _ => True) (Plane.init 1)
      ([.emit (lotTraded 1), .emit (lotTraded 2), .snapshot] ++ wholePoll ++
        [.startPoll, .serveHealth, .healthArrives, .serveOutputs, .rebuild, .outputsArrive, .serveReset, .rebuildEnds]),
      s.projection.healthState = .healthy ∧ s.projection.lastOutputSeq = 2 ∧ ¬s.Complete := by
  have hwalks : (∃ s ∈ walk (Plane.step 1) (fun _ _ => True) (Plane.init 1)
      ([.emit (lotTraded 1), .emit (lotTraded 2), .snapshot, .startPoll, .serveHealth, .healthArrives, .serveOutputs, .fail] ++
        wholePoll),
      s.projection.healthState = .healthy ∧ s.projection.lastOutputSeq = 2 ∧
        s.projection.db.trades.length ≠ (projected s.gateway.run_id (s.gateway.journal.take 2)).trades.length) ∧
    ∃ s ∈ walk (Plane.step 1) (fun _ _ => True) (Plane.init 1)
      ([.emit (lotTraded 1), .emit (lotTraded 2), .snapshot] ++ wholePoll ++
        [.startPoll, .serveHealth, .healthArrives, .serveOutputs, .rebuild, .outputsArrive, .serveReset, .rebuildEnds]),
      s.projection.healthState = .healthy ∧ s.projection.lastOutputSeq = 2 ∧
        s.projection.db.trades.length ≠ (projected s.gateway.run_id (s.gateway.journal.take 2)).trades.length := by
    decide +kernel
  obtain ⟨⟨s, hs, hhealthy, hlast, hne⟩, s', hs', hhealthy', hlast', hne'⟩ := hwalks
  exact ⟨⟨s, hs, hhealthy, hlast, incomplete_of_trades hlast hne⟩,
    s', hs', hhealthy', hlast', incomplete_of_trades hlast' hne'⟩

end Complete

/-! ## One run -/

section OneRun
variable {limit : Nat} {run : RunId} {s s' : Plane} {move : PlaneMove}

/-- The tables hold events of the bound run only, and every trade under the run that wrote it. -/
structure Plane.OneRun (s : Plane) : Prop where
  events : ∀ x ∈ s.applied, x.1 = s.projection.runId
  tables : s.projection.db.content = (projected s.projection.runId (s.applied.map Prod.snd)).content
  trades : ∀ row ∈ s.projection.db.trades, ∃ trade, (row.run_id, .Trade trade) ∈ s.applied ∧
    row.trade_id = trade.trade_id ∧ row.output_seq = trade.output_seq ∧ row.quantity_lots = trade.quantity

/-- The gateway is not restarted after it told a poll its run and before that poll
ends; a bound projection is told a run; and no rebuild comes between a poll's check
and its outputs. -/
def Plane.settled (s : Plane) : PlaneMove → Bool
  | .restartGateway _ =>
    match s.poll with
    | .idle | .asked _ => true
    | _ => false
  | .serveHealth => s.gateway.health ≠ 0 || s.projection.runId = 0
  | .outputsArrive =>
    match s.poll with
    | .given _ _ (_ :: _) => s.projection.runId ≠ 0
    | _ => true
  | _ => true

/-- The invariant: whatever is under way is of the bound run. -/
structure Bound (s : Plane) : Prop where
  runId : s.projection.runId = s.projection.db.state.run_id
  events : ∀ x ∈ s.applied, x.1 = s.projection.runId
  tables : s.projection.db.content = (projected s.projection.runId (s.applied.map Prod.snd)).content
  unbound : s.projection.runId = 0 → s.applied = []
  told : ∀ retried heard, s.poll = .told retried heard →
    (heard = 0 ∧ s.projection.runId = 0) ∨ (heard ≠ 0 ∧ heard = s.gateway.run_id)
  wants : ∀ retried, s.poll = .wants retried → s.projection.runId = 0 ∨ s.projection.runId = s.gateway.run_id
  given : ∀ retried source events, s.poll = .given retried source events →
    (s.projection.runId = 0 ∨ s.projection.runId = source) ∧ source = s.gateway.run_id

theorem Bound.arrive (h : Bound s) {retried : Bool} {source : RunId} {events : List OutputEvent}
    (hpoll : s.poll = .given retried source events) (hok : s.settled .outputsArrive = true) : Bound (s.finish source events) := by
  rw [Plane.settled, hpoll] at hok
  cases events with
  | nil => exact ⟨h.runId, h.events, h.tables, h.unbound, nofun, nofun, nofun⟩
  | cons first rest =>
    have hbound : s.projection.runId ≠ 0 := by simpa using hok
    have hsource : s.projection.runId = source := (h.given _ _ _ hpoll).1.resolve_left hbound
    have hframe := commit_framed s.projection (first :: rest)
    rw [Plane.finish, if_neg (List.cons_ne_nil _ _)]
    refine ⟨?_, fun x hx => ?_, ?_, fun h0 => absurd (hframe.runId.symm.trans h0) hbound, nofun, nofun, nofun⟩
    · exact hframe.runId.trans (h.runId.trans hframe.stored.symm)
    · change x.1 = (s.projection.commit (first :: rest)).runId
      rw [hframe.runId]
      rcases List.mem_append.1 hx with hx | hx
      · exact h.events x hx
      · obtain ⟨event, -, rfl⟩ := List.mem_map.1 hx
        exact hsource.symm
    · change (s.projection.commit (first :: rest)).db.content = _
      rw [content_commit, content_foldl h.tables, hframe.runId, List.map_append, List.map_map]
      simp only [projected, List.foldl_append, Function.comp_def, List.map_id']

theorem Bound.bind (h : Bound s) {heard : RunId}
    (hheard : (heard = 0 ∧ s.projection.runId = 0) ∨ (heard ≠ 0 ∧ heard = s.gateway.run_id)) : Bound (s.bind heard) := by
  rw [Plane.bind, Projection.bindRun]
  rcases hheard with ⟨rfl, h0⟩ | ⟨hne, hrun⟩
  · -- Without a run the poll ends.
    simp only [if_true, h0, or_true]
    exact ⟨h.runId, h.events, h.tables, h.unbound, nofun, nofun, nofun⟩
  · simp only [if_neg hne]
    split
    · rename_i h0
      have hnone := h.unbound h0
      refine ⟨rfl, fun x hx => ?_, ?_, fun _ => hnone, ?_, fun _ _ => .inr hrun, ?_⟩
      · rw [hnone] at hx
        exact absurd hx List.not_mem_nil
      · have htables := h.tables
        rw [hnone, List.map_nil, projected_nil] at htables ⊢
        exact htables
      · split <;> nofun
      · split <;> nofun
    · split
      · refine ⟨h.runId, h.events, h.tables, h.unbound, ?_, ?_, ?_⟩ <;> simp only [Projection.latch] <;> nofun
      · rename_i hsame
        refine ⟨h.runId, h.events, h.tables, h.unbound, ?_, fun _ _ => .inr ?_, ?_⟩
        · split <;> nofun
        · exact (not_not.1 hsame).trans hrun
        · split <;> nofun

theorem Bound.step (h : Bound s) (hok : s.settled move = true) (hstep : s.step limit move = some s') : Bound s' := by
  have hmoved := Plane.step_moved hstep
  cases hmoved with
  | emit => exact ⟨h.runId, h.events, h.tables, h.unbound, h.told, h.wants, h.given⟩
  | around => exact ⟨h.runId, h.events, h.tables, h.unbound, h.told, h.wants, h.given⟩
  | restartGateway =>
    rw [Plane.settled] at hok
    split at hok
    · rename_i hpoll
      refine ⟨h.runId, h.events, h.tables, h.unbound, ?_, ?_, ?_⟩ <;> rw [hpoll] <;> nofun
    · rename_i hpoll
      refine ⟨h.runId, h.events, h.tables, h.unbound, ?_, ?_, ?_⟩ <;> rw [hpoll] <;> nofun
    · cases hok
  | call poll _ hpoll =>
    refine ⟨h.runId, h.events, h.tables, h.unbound, ?_, ?_, ?_⟩ <;> rcases hpoll with rfl | ⟨retried, rfl⟩ <;> nofun
  | again _ hpoll =>
    refine ⟨h.runId, h.events, h.tables, h.unbound, nofun, fun _ _ => ?_, nofun⟩
    rcases hpoll with ⟨retried, hpoll⟩ | ⟨retried, source, events, hpoll⟩
    · exact h.wants _ hpoll
    · obtain ⟨hrun, hsource⟩ := h.given _ _ _ hpoll
      rw [hsource] at hrun
      exact hrun
  | serveHealth retried =>
    refine ⟨h.runId, h.events, h.tables, h.unbound, fun retried heard hpoll => ?_, nofun, nofun⟩
    cases hpoll
    by_cases hheard : s.gateway.health = 0
    · exact .inl ⟨hheard, by simpa [Plane.settled, hheard] using hok⟩
    · refine .inr ⟨hheard, ?_⟩
      rw [GatewayState.health] at hheard ⊢
      split at hheard
      · rename_i hready
        rw [if_pos hready]
      · exact absurd rfl hheard
  | healthArrives hpoll => exact h.bind (h.told _ _ hpoll)
  | serveOutputs hpoll =>
    refine ⟨h.runId, h.events, h.tables, h.unbound, nofun, nofun, fun retried source events hgiven => ?_⟩
    cases hgiven
    exact ⟨h.wants _ hpoll, rfl⟩
  | outputsArrive hpoll => exact h.arrive hpoll hok
  | @outputsAbort _ _ events count hpoll =>
    have hrun : (s.projection.applyAborted events count).runId = s.projection.runId :=
      (applyLoop_framed s.projection (events.take count)).runId
    refine ⟨hrun.trans h.runId, fun x hx => (h.events x hx).trans hrun.symm, ?_, fun h0 => h.unbound (hrun.symm.trans h0), nofun,
      nofun, nofun⟩
    change s.projection.db.content = (projected (s.projection.applyAborted events count).runId _).content
    rw [hrun]
    exact h.tables
  | restartApi stale =>
    have hrun : (Projection.new s.projection.db).runId = s.projection.runId := h.runId.symm
    refine ⟨rfl, fun x hx => (h.events x hx).trans hrun.symm, ?_, fun h0 => h.unbound (hrun.symm.trans h0), nofun, nofun, nofun⟩
    change s.projection.db.content = (projected (Projection.new s.projection.db).runId _).content
    rw [hrun]
    exact h.tables
  | rebuild =>
    refine ⟨rfl, fun x hx => absurd hx List.not_mem_nil, ?_, fun _ => rfl, fun retried heard hpoll => ?_, fun _ _ => .inl rfl, fun _ _ _ hpoll =>
      ⟨.inl rfl, (h.given _ _ _ hpoll).2⟩⟩
    · rw [List.map_nil, projected_nil]
      rfl
    · exact (h.told _ _ hpoll).imp_left fun hnone => ⟨hnone.1, rfl⟩

theorem bound_init (run : RunId) : Bound (Plane.init run) := by
  refine ⟨rfl, fun x hx => absurd hx List.not_mem_nil, ?_, fun _ => rfl, nofun, nofun, nofun⟩
  change Database.migrate.content = (projected 0 []).content
  rw [projected_nil]

/-- As long as the gateway is not restarted during a poll and always tells a bound
projection its run, and no rebuild disturbs a poll, the tables are of one run. -/
theorem tables_never_mix_runs (h : Reach (Plane.step limit) (fun s move => s.settled move = true) (Plane.init run) s) :
    s.OneRun := by
  have hbound := h.inv Bound (bound_init run) fun s move s' hs hok hstep => hs.step hok hstep
  refine ⟨hbound.events, hbound.tables, fun row hrow => ?_⟩
  have htrades : s.projection.db.trades = (projected s.projection.runId (s.applied.map Prod.snd)).trades :=
    congrArg Content.trades hbound.tables
  obtain ⟨hrun, trade, htrade, hfields⟩ := mem_trades_projected (htrades ▸ hrow)
  obtain ⟨⟨source, event⟩, hx, rfl⟩ := List.mem_map.1 htrade
  have hsource : source = s.projection.runId := hbound.events _ hx
  rw [hrun, ← hsource]
  exact ⟨trade, hx, hfields⟩

/-- The gateway is restarted with another run between two polls; the projection notices. -/
theorem tables_never_mix_runs_small :
    ∃ s, Reach (Plane.step 500) (fun s move => s.settled move = true) (Plane.init 1) s ∧ s.OneRun ∧
      s.gateway.run_id = 2 ∧ s.projection.runId = 1 ∧ s.projection.healthState = .run_mismatch ∧ s.applied.length = 1 := by
  have hwalk : ∃ s ∈ walk (Plane.step 500) (fun s move => s.settled move = true) (Plane.init 1)
      ([.emit (lotTraded 1), .snapshot] ++ wholePoll ++ [.restartGateway 2, .emit (lotTraded 1), .emit (lotTraded 2), .snapshot,
        .startPoll, .serveHealth, .healthArrives]),
      s.gateway.run_id = 2 ∧ s.projection.runId = 1 ∧ s.projection.healthState = .run_mismatch ∧ s.applied.length = 1 := by
    decide +kernel
  obtain ⟨s, hs, hfacts⟩ := hwalk
  have hreach := reach_of_walk hs
  exact ⟨s, hreach, tables_never_mix_runs hreach, hfacts⟩

/-- The gateway is restarted with another run, and polled before its first
snapshot or right after its predecessor told the run: the second event of run 2
is stored under run 1. -/
theorem tables_mix_runs :
    (∃ s ∈ walk (Plane.step 500) (fun _ _ => True) (Plane.init 1)
      ([.emit (lotTraded 1), .snapshot] ++ wholePoll ++ [.restartGateway 2, .emit (lotTraded 1), .emit (lotTraded 2)] ++
        wholePoll),
      s.projection.runId = 1 ∧ s.projection.healthState = .healthy ∧ (2, lotTraded 2) ∈ s.applied ∧
      ∃ row ∈ s.projection.db.trades, row.run_id = 1 ∧ row.trade_id = 2) ∧
    ∃ s ∈ walk (Plane.step 500) (fun _ _ => True) (Plane.init 1)
      ([.emit (lotTraded 1), .snapshot] ++ wholePoll ++ [.startPoll, .serveHealth, .healthArrives, .restartGateway 2,
        .emit (lotTraded 1), .emit (lotTraded 2), .snapshot, .retry, .serveOutputs, .outputsArrive]),
      s.projection.runId = 1 ∧ s.projection.healthState = .healthy ∧ (2, lotTraded 2) ∈ s.applied ∧
      ∃ row ∈ s.projection.db.trades, row.run_id = 1 ∧ row.trade_id = 2 := by
  decide +kernel

end OneRun

end TradingLab
