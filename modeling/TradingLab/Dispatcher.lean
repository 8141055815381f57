import TradingLab.Outbox
import TradingLab.Polling
/-!
# The settlement dispatcher

A tick claims a batch and brings the settlements that are due to the venue, one
after another. It waits for every answer, and meanwhile trades arrive, an operator
may release what failed, and the process may stop. The venue is any one that applies
an identity at most once and answers truthfully, if it answers.
-/
open LabLib

namespace TradingLab

inductive SubmitOutcome where
  | confirmed (receipt : String)
  | alreadyApplied (receipt : String)
  | unknown (reason : String)
  | notFound
  | rejected (reason : String)
deriving DecidableEq

/-- Where a tick stands: the settlements it has left, and the call it waits for. -/
inductive Tick where
  | idle
  | rows (left : List SettlementRow)
  | lookup (row : SettlementRow) (manifest : Manifest) (left : List SettlementRow)
  | submit (row : SettlementRow) (manifest : Manifest) (left : List SettlementRow)
deriving DecidableEq

/-- The control plane with its dispatcher, and what the venue applied. -/
structure Office where
  plane : Plane
  tick : Tick
  ledger : List (String × Manifest)

inductive OfficeMove where
  | plane (move : PlaneMove)
  | tick (batchSize : Int) (nowMs : Nat)
  /-- The tick turns to its next settlement. -/
  | advance
  /-- The venue applies the settlement that is sent. -/
  | apply
  | answer (outcome : SubmitOutcome) (nowMs : Nat)
  /-- The adapter throws, and the tick ends. -/
  | throw
  | releaseFailed (settlementId : String)
  | makeDue (settlementId : Option String)

namespace Office

def db (s : Office) : Database := s.plane.projection.db

def setDb (s : Office) (db : Database) : Office :=
  { s with plane := { s.plane with projection := { s.plane.projection with db := db } } }

def applied (s : Office) (settlementId : String) : Prop := settlementId ∈ s.ledger.map Prod.fst

instance (s : Office) (settlementId : String) : Decidable (s.applied settlementId) :=
  inferInstanceAs (Decidable (settlementId ∈ s.ledger.map Prod.fst))

/-- What a venue may answer about an identity. -/
def truthful (s : Office) (settlementId : String) : SubmitOutcome → Bool
  | .confirmed _ | .alreadyApplied _ => s.applied settlementId
  | .notFound | .rejected _ => ¬s.applied settlementId
  | .unknown _ => true

/-- A step that throws ends the tick. -/
def proceed (s : Office) (result : Except OutboxError Database) (tick : Tick) : Office :=
  match result with
  | .ok db => { s.setDb db with tick := tick }
  | .error _ => { s with tick := .idle }

/-- The attempt is recorded before the settlement is sent. -/
def submit (s : Office) (row : SettlementRow) (manifest : Manifest) (left : List SettlementRow) : Office :=
  s.proceed (s.db.recordAttempt row.settlement_id) (.submit row manifest left)

section
variable (sha256 : String → String)

/-- `advance` up to its first call of the venue. -/
def advance (s : Office) (row : SettlementRow) (left : List SettlementRow) : Office :=
  match s.db.manifestFor sha256 row.settlement_id with
  | .error (.ManifestConflict settlementId) =>
    s.proceed (s.db.recordNeedsOperator row.settlement_id (OutboxError.ManifestConflict settlementId).message) (.rows left)
  | .error _ => { s with tick := .idle }
  | .ok manifest =>
    if row.status = .unknown ∨ row.status = .submitted then { s with tick := .lookup row manifest left }
    else s.submit row manifest left

/-- The outcome of a settlement goes into its row. -/
def record (s : Office) (row : SettlementRow) (left : List SettlementRow) (nowMs : Nat) : SubmitOutcome → Office
  | .confirmed receipt | .alreadyApplied receipt =>
    s.proceed (s.db.recordConfirmed row.settlement_id receipt) (.rows left)
  | .unknown reason => s.proceed (s.db.recordUnknown nowMs row.settlement_id reason) (.rows left)
  | .notFound => s.proceed (s.db.recordUnknown nowMs row.settlement_id "venue holds no receipt") (.rows left)
  | .rejected reason => s.proceed (s.db.recordFailed row.settlement_id reason) (.rows left)

def step (venue : String) (limit : Nat) (s : Office) : OfficeMove → Option Office
  | .plane move => (s.plane.step limit move).map fun plane =>
    match move with
    -- The dispatcher is a part of the process.
    | .restartApi => { s with plane := plane, tick := .idle }
    | _ => { s with plane := plane }
  | .tick batchSize nowMs =>
    match s.tick with
    | .idle =>
      match s.db.createBatch sha256 venue batchSize with
      | .ok (db, _) => some { s.setDb db with tick := .rows (db.pending 16 nowMs) }
      | .error _ => some s
    -- A tick that comes while another is running returns at once.
    | _ => some s
  | .advance =>
    match s.tick with
    | .rows [] => some { s with tick := .idle }
    | .rows (row :: left) => some (s.advance sha256 row left)
    | _ => none
  | .apply =>
    match s.tick with
    | .submit _ manifest _ =>
      if s.applied manifest.settlementId then none
      else some { s with ledger := s.ledger ++ [(manifest.settlementId, manifest)] }
    | _ => none
  | .answer outcome nowMs =>
    match s.tick with
    | .lookup row manifest left =>
      if s.truthful row.settlement_id outcome = false then none
      else if outcome = .notFound then some (s.submit row manifest left)
      else some (s.record row left nowMs outcome)
    | .submit row _ left =>
      if s.truthful row.settlement_id outcome = false then none else some (s.record row left nowMs outcome)
    | _ => none
  | .throw =>
    match s.tick with
    | .lookup _ _ _ | .submit _ _ _ => some { s with tick := .idle }
    | _ => none
  | .releaseFailed settlementId =>
    match s.db.releaseFailed settlementId with
    | .ok db => some (s.setDb db)
    | .error _ => some s
  | .makeDue settlementId => some (s.setDb (s.db.makeDue settlementId))

end

def init (run : RunId) : Office where
  plane := .init run
  tick := .idle
  ledger := []

/-- No rebuild. -/
def keeps : OfficeMove → Bool
  | .plane .rebuild => false
  | _ => true

end Office

/-! ## Arriving trades -/

section Arriving
variable {run : RunId} {db db' : Database} {p : Projection}

/-- A transaction that settles nothing: trades may come, and every settlement keeps its status. -/
structure Grows (run : RunId) (db db' : Database) : Prop where
  status : ∀ id, db'.status id = db.status id
  tidy : db.Tidy run → db'.Tidy run
  claimed : ∀ trade id, db.Claimed trade id → db'.Claimed trade id

theorem Grows.refl (run : RunId) (db : Database) : Grows run db db := ⟨fun _ => rfl, id, fun _ _ => id⟩

theorem Grows.trans {db'' : Database} (h : Grows run db db') (h' : Grows run db' db'') : Grows run db db'' :=
  ⟨fun id => (h'.status id).trans (h.status id), fun ht => h'.tidy (h.tidy ht),
    fun trade id hc => h'.claimed trade id (h.claimed trade id hc)⟩

/-- Only the two tables matter. -/
theorem Grows.of_eq (htrades : db'.trades = db.trades) (hsettlements : db'.settlements = db.settlements) : Grows run db db' :=
  ⟨fun id => by rw [Database.status, Database.get, hsettlements]; rfl, fun ht => ⟨htrades ▸ ht.run, htrades ▸ ht.trades, hsettlements ▸ ht.settlements⟩,
    fun _ _ ⟨row, hrow, hfacts⟩ => ⟨row, htrades ▸ hrow, hfacts⟩⟩

theorem insert_trade_grows {row : TradeRow} (hrow : row.run_id = run) : Grows run db (db.insert_trade row) := by
  rw [Database.insert_trade]
  split
  · exact Grows.refl run db
  · rename_i hnew
    refine ⟨fun _ => rfl, fun ht => ⟨fun old hold => ?_, ?_, ht.settlements⟩, ?_⟩
    · rcases List.mem_append.1 hold with hold | hold
      · exact ht.run old hold
      · rw [List.mem_singleton.1 hold, hrow]
    · rw [List.map_append]
      refine List.Nodup.append ht.trades (List.nodup_singleton _) ?_
      rw [List.map_singleton, List.disjoint_singleton]
      intro hmem
      obtain ⟨old, hold, hid⟩ := List.mem_map.1 hmem
      refine hnew (List.any_eq_true.2 ⟨old, hold, ?_⟩)
      simp [ht.run old hold, hrow, hid]
    · rintro trade id ⟨old, hold, hfacts⟩
      exact ⟨old, List.mem_append_left _ hold, hfacts⟩

theorem addPosition_grows (db : Database) (account : AccountId) (instrument : InstrumentId) (delta : Int) :
    Grows run db (db.addPosition account instrument delta) :=
  Grows.of_eq rfl rfl

theorem makeDue_grows (db : Database) (id : Option String) : Grows run db (db.makeDue id) := by
  obtain ⟨due, hdue, hrows⟩ := db.makeDue_rows id
  have hid (row : SettlementRow) : (due row).settlement_id = row.settlement_id := by
    obtain h | h := hdue row <;> rw [h]
  have hstatus (row : SettlementRow) : (due row).status = row.status := by
    obtain h | h := hdue row <;> rw [h]
  rw [hrows]
  refine ⟨fun id => ?_, fun ht => ⟨ht.run, ht.trades, ?_⟩, fun _ _ hclaimed => hclaimed⟩
  · rw [Database.status, Database.get_map hid, Option.map_map]
    simp only [Function.comp_def, hstatus]
    rfl
  · rw [List.map_map]
    simp only [Function.comp_def, hid]
    exact ht.settlements

theorem applyEvent_grows (db : Database) (event : OutputEvent) : Grows run db (db.applyEvent run event) := by
  cases event with
  | State _ => exact Grows.refl run db
  | Trade trade =>
    rw [Database.applyEvent, Database.applyTrade]
    refine (insert_trade_grows ?_).trans ((addPosition_grows ..).trans (addPosition_grows ..))
    rfl
  | Report report =>
    rw [Database.applyEvent, Database.applyReport]
    split
    · exact Grows.of_eq rfl rfl
    · split
      · exact Grows.refl run db
      · split <;> exact Grows.of_eq rfl rfl

theorem commit_grows (p : Projection) (events : List OutputEvent) : Grows p.runId p.db (p.commit events).db :=
  Projection.commit_rel (fun p p' => Grows p.runId p.db p'.db) (fun _ => Grows.refl _ _) (fun _ => Grows.of_eq rfl rfl)
    (fun p _ event _ h => (applyEvent_grows p.db event).trans h) (fun _ _ h => h.trans (Grows.of_eq rfl rfl)) p

/-- Stored trades are of the bound run, and only a bound projection asks for more. -/
structure Receiving (s : Plane) : Prop where
  tidy : s.projection.db.Tidy s.projection.runId
  stored : s.projection.runId = s.projection.db.state.run_id
  unbound : s.projection.runId = 0 → s.projection.db.trades = []
  wants : ∀ retried, s.poll = .wants retried → s.projection.runId ≠ 0
  given : ∀ retried source events, s.poll = .given retried source events → s.projection.runId ≠ 0

theorem Receiving.init (run : RunId) : Receiving (Plane.init run) :=
  ⟨⟨nofun, List.nodup_nil, List.nodup_nil⟩, rfl, fun _ => rfl, nofun, nofun⟩

theorem Receiving.bind {s : Plane} (h : Receiving s) (heard : RunId) :
    Receiving (s.bind heard) ∧ Grows (s.bind heard).projection.runId s.projection.db (s.bind heard).projection.db := by
  -- Whatever the run: the poll goes on only when one is bound.
  have hpoll (retried : Bool) (hwants : (s.bind heard).poll = .wants retried) : (s.bind heard).projection.runId ≠ 0 := by
    intro h0
    rw [Plane.bind] at hwants h0
    rw [if_pos (.inr h0)] at hwants
    cases hwants
  have hidle (retried : Bool) (source : RunId) (events : List OutputEvent) :
      (s.bind heard).poll ≠ .given retried source events := by
    rw [Plane.bind]
    dsimp only
    split <;> simp
  refine ⟨⟨?_, ?_, ?_, hpoll, fun _ _ _ hgiven => absurd hgiven (hidle _ _ _)⟩, ?_⟩ <;>
    simp only [Plane.bind, Projection.bindRun]
  · split
    · exact h.tidy
    · split
      · rename_i h0
        have hnone := h.unbound h0
        exact ⟨fun row hrow => absurd (hnone ▸ hrow) List.not_mem_nil, h.tidy.trades, h.tidy.settlements⟩
      · split <;> exact ⟨h.tidy.run, h.tidy.trades, h.tidy.settlements⟩
  · split
    · exact h.stored
    · split
      · rfl
      · split <;> exact h.stored
  · split
    · exact h.unbound
    · split
      · rename_i hne _
        exact fun h0 => absurd h0 hne
      · split <;> exact h.unbound
  · split
    · exact Grows.refl _ _
    · split
      · exact Grows.of_eq rfl rfl
      · split <;> exact Grows.of_eq rfl rfl

/-- Without a rebuild the trades that are stored stay, and more may come. -/
theorem Receiving.step {limit : Nat} {s s' : Plane} {move : PlaneMove} (h : Receiving s) (hmove : move ≠ .rebuild)
    (hstep : s.step limit move = some s') : Receiving s' ∧ Grows s'.projection.runId s.projection.db s'.projection.db := by
  have hsame : Grows s.projection.runId s.projection.db s.projection.db := Grows.refl _ _
  cases Plane.step_moved hstep with
  | emit _ | around | restartGateway => exact ⟨⟨h.tidy, h.stored, h.unbound, h.wants, h.given⟩, hsame⟩
  | call poll _ hpoll =>
    refine ⟨⟨h.tidy, h.stored, h.unbound, fun retried hwants => ?_, fun retried source events hgiven => ?_⟩, hsame⟩
    · rcases hpoll with rfl | ⟨_, rfl⟩ <;> cases hwants
    · rcases hpoll with rfl | ⟨_, rfl⟩ <;> cases hgiven
  | again _ hpoll =>
    have hbound : s.projection.runId ≠ 0 := by
      rcases hpoll with ⟨_, hpoll⟩ | ⟨_, _, _, hpoll⟩
      · exact h.wants _ hpoll
      · exact h.given _ _ _ hpoll
    exact ⟨⟨h.tidy, h.stored, h.unbound, fun _ _ => hbound, by simp⟩, hsame⟩
  | serveHealth _ => exact ⟨⟨h.tidy, h.stored, h.unbound, by simp, by simp⟩, hsame⟩
  | healthArrives hpoll =>
    exact h.bind _
  | serveOutputs hpoll =>
    exact ⟨⟨h.tidy, h.stored, h.unbound, by simp, fun _ _ _ _ => h.wants _ hpoll⟩, hsame⟩
  | outputsArrive hpoll =>
    rw [Plane.finish]
    split
    · exact ⟨⟨h.tidy, h.stored, h.unbound, by simp, by simp⟩, hsame⟩
    · have hbound := h.given _ _ _ hpoll
      have hgrows := commit_grows s.projection
      have hframe := commit_framed s.projection
      refine ⟨⟨?_, ?_, fun h0 => ?_, by simp, by simp⟩, ?_⟩
      · rw [(hframe _).runId]
        exact (hgrows _).tidy h.tidy
      · exact (hframe _).runId.trans (h.stored.trans (hframe _).stored.symm)
      · exact absurd ((hframe _).runId.symm.trans h0) hbound
      · rw [(hframe _).runId]
        exact hgrows _
  | outputsAbort hpoll =>
    have hframe := applyLoop_framed s.projection
    have hrun (count : Nat) (events : List OutputEvent) :
        (s.projection.applyAborted events count).runId = s.projection.runId := (hframe _).runId
    refine ⟨⟨?_, (hrun _ _).trans h.stored, fun h0 => h.unbound ((hrun _ _).symm.trans h0), by simp, by simp⟩, Grows.refl _ _⟩
    have htidy := h.tidy
    rw [← hrun] at htidy
    exact htidy
  | restartApi _ =>
    have htidy : s.projection.db.Tidy s.projection.db.state.run_id := h.stored ▸ h.tidy
    exact ⟨⟨htidy, rfl, fun h0 => h.unbound (h.stored.trans h0), by simp, by simp⟩, Grows.refl _ _⟩
  | rebuild => exact absurd rfl hmove

end Arriving

/-! ## At most once -/

section AtMostOnce
variable {sha256 : String → String} {venue : String} {limit : Nat} {run : RunId} {ledger : List (String × Manifest)}
  {db db' : Database} {id : String} {s s' : Office} {move : OfficeMove}
variable {row : SettlementRow} {tick : Tick}

/-- The venue may have heard of the settlement. -/
def SettlementStatus.sent : SettlementStatus → Bool
  | .pending | .failed => false
  | _ => true

/-- Whatever the venue applied was sent by the outbox, and its trades are kept for it. -/
structure Backed (ledger : List (String × Manifest)) (db : Database) : Prop where
  sent : ∀ x ∈ ledger, ∃ status, db.status x.1 = some status ∧ status.sent = true
  claimed : ∀ x ∈ ledger, ∀ trade ∈ x.2.trades, db.Claimed trade.tradeId x.1
  confirmed : ∀ id, db.status id = some .confirmed → id ∈ ledger.map Prod.fst

/-- A new status for a settlement: not back to unsent for one that is applied, and confirmed only for such a one. -/
theorem Backed.restate {next : SettlementStatus} (h : Backed ledger db) (hr : db.Restated id (·.after next) db')
    (hsent : next.sent = true ∨ id ∉ ledger.map Prod.fst) (hconfirmed : next = .confirmed → id ∈ ledger.map Prod.fst) :
    Backed ledger db' := by
  obtain ⟨current, hcurrent, hhere⟩ := hr.here
  refine ⟨fun x hx => ?_, fun x hx trade htrade => ?_, fun other hother => ?_⟩
  · obtain ⟨status, hstatus, hold⟩ := h.sent x hx
    by_cases hid : x.1 = id
    · refine ⟨_, hid ▸ hhere, ?_⟩
      obtain rfl : current = status := Option.some.inj (hcurrent.symm.trans (hid ▸ hstatus))
      have hnext : next.sent = true := hsent.resolve_right fun hnot => hnot (hid ▸ List.mem_map_of_mem hx)
      rw [SettlementStatus.after]
      split
      · rfl
      · split
        · rename_i hfailed
          rw [hfailed.1] at hold
          cases hold
        · exact hnext
    · exact ⟨status, (hr.others _ hid).trans hstatus, hold⟩
  · obtain ⟨row, hrow, hfacts⟩ := h.claimed x hx trade htrade
    exact ⟨row, hr.trades ▸ hrow, hfacts⟩
  · by_cases hid : other = id
    · rw [hid, hhere, SettlementStatus.after] at hother
      rw [hid]
      split at hother
      · rename_i hcurrentConfirmed
        exact h.confirmed id (hcurrentConfirmed ▸ hcurrent)
      · split at hother
        · cases hother
        · exact hconfirmed (Option.some.inj hother)
    · exact h.confirmed other ((hr.others _ hid).symm.trans hother)

theorem Backed.claims (h : Backed ledger db) (hc : db.Claims db') : Backed ledger db' := by
  refine ⟨fun x hx => ?_, fun x hx trade htrade => hc.claimed _ _ (h.claimed x hx trade htrade), fun id hid => ?_⟩
  · obtain ⟨status, hstatus, hsent⟩ := h.sent x hx
    exact ⟨status, hc.old _ _ hstatus, hsent⟩
  · rcases hc.new _ _ hid with hold | hpending
    · exact h.confirmed id hold
    · cases hpending

/-- What failed is not applied, so its trades are free. -/
theorem Backed.release (h : Backed ledger db) (hr : db.Releases id db') : Backed ledger db' := by
  have hother (x : String × Manifest) (hx : x ∈ ledger) : x.1 ≠ id := by
    intro hid
    obtain ⟨status, hstatus, hsent⟩ := h.sent x hx
    rw [hid, hr.failed] at hstatus
    cases hstatus
    cases hsent
  refine ⟨fun x hx => ?_, fun x hx trade htrade => hr.claimed _ _ (hother x hx) (h.claimed x hx trade htrade), fun other hid => ?_⟩
  · rw [hr.others _ (hother x hx)]
    exact h.sent x hx
  · by_cases hsame : other = id
    · rw [hsame, hr.gone] at hid
      cases hid
    · exact h.confirmed other ((hr.others _ hsame).symm.trans hid)

theorem Backed.grow (h : Backed ledger db) (hg : Grows run db db') : Backed ledger db' :=
  ⟨fun x hx => hg.status x.1 ▸ h.sent x hx, fun x hx trade htrade => hg.claimed _ _ (h.claimed x hx trade htrade),
    fun id hid => h.confirmed id (hg.status id ▸ hid)⟩

/-- The settlements a tick is not done with. -/
def Tick.left : Tick → List SettlementRow
  | .idle => []
  | .rows left => left
  | .lookup row _ left | .submit row _ left => row :: left

/-- The settlement a tick asks the venue about. -/
def Tick.inHand : Tick → Option (SettlementRow × Manifest)
  | .idle | .rows _ => none
  | .lookup row manifest _ | .submit row manifest _ => some (row, manifest)

/-- What a tick holds: open settlements, each of them once, and a manifest that is still good. -/
structure Tick.Holds (tick : Tick) (db : Database) : Prop where
  once : (tick.left.map SettlementRow.settlement_id).Nodup
  unfailed : ∀ row ∈ tick.left, ∃ status, db.status row.settlement_id = some status ∧ status ≠ .failed
  claimed : ∀ row manifest, tick.inHand = some (row, manifest) →
    manifest.settlementId = row.settlement_id ∧ ∀ trade ∈ manifest.trades, db.Claimed trade.tradeId row.settlement_id
  sent : ∀ row manifest left, tick = .submit row manifest left →
    ∃ status, db.status row.settlement_id = some status ∧ status.sent = true

theorem Tick.Holds.idle (db : Database) : Tick.Holds .idle db :=
  ⟨List.nodup_nil, fun _ h => absurd h List.not_mem_nil, nofun, nofun⟩

theorem Tick.Holds.grow (h : tick.Holds db) (hg : Grows run db db') : tick.Holds db' where
  once := h.once
  unfailed row hrow := hg.status row.settlement_id ▸ h.unfailed row hrow
  claimed row manifest hhand :=
    ⟨(h.claimed row manifest hhand).1, fun trade htrade => hg.claimed _ _ ((h.claimed row manifest hhand).2 trade htrade)⟩
  sent row manifest left htick := hg.status row.settlement_id ▸ h.sent row manifest left htick

theorem Tick.Holds.release (h : tick.Holds db) (hr : db.Releases id db') : tick.Holds db' := by
  have hother (row : SettlementRow) (hrow : row ∈ tick.left) : row.settlement_id ≠ id := by
    intro hid
    obtain ⟨status, hstatus, hne⟩ := h.unfailed row hrow
    rw [hid, hr.failed] at hstatus
    exact hne (Option.some.inj hstatus).symm
  have hhand (row : SettlementRow) (manifest : Manifest) (hin : tick.inHand = some (row, manifest)) : row ∈ tick.left := by
    cases tick with
    | idle | rows _ => cases hin
    | lookup _ _ _ | submit _ _ _ =>
      cases hin
      exact List.mem_cons_self
  refine ⟨h.once, fun row hrow => ?_, fun row manifest hin => ⟨(h.claimed row manifest hin).1, fun trade htrade => ?_⟩,
    fun row manifest left htick => ?_⟩
  · rw [hr.others _ (hother row hrow)]
    exact h.unfailed row hrow
  · exact hr.claimed _ _ (hother row (hhand row manifest hin)) ((h.claimed row manifest hin).2 trade htrade)
  · rw [hr.others _ (hother row (by rw [htick]; exact List.mem_cons_self))]
    exact h.sent row manifest left htick

/-- The invariant of a plane that settles. -/
structure Orderly (s : Office) : Prop where
  receiving : Receiving s.plane
  backed : Backed s.ledger s.db
  holds : s.tick.Holds s.db

theorem Receiving.setDb (h : Receiving s.plane) (htidy : db.Tidy s.plane.projection.runId) (hstate : db.state = s.db.state)
    (hnone : s.db.trades = [] → db.trades = []) : Receiving (s.setDb db).plane :=
  ⟨htidy, h.stored.trans (congrArg ProjectionState.run_id hstate.symm), fun h0 => hnone (h.unbound h0), h.wants, h.given⟩

theorem Orderly.restate {next : SettlementStatus} (h : Orderly s) (hr : s.db.Restated id (·.after next) db')
    (hsent : next.sent = true ∨ ¬s.applied id) (hconfirmed : next = .confirmed → s.applied id) (hholds : tick.Holds db') :
    Orderly { s.setDb db' with tick := tick } :=
  ⟨h.receiving.setDb (h.receiving.tidy.restated hr) hr.state fun hnone => hr.trades.trans hnone,
    h.backed.restate hr hsent hconfirmed, hholds⟩

theorem Orderly.idle (h : Orderly s) : Orderly { s with tick := .idle } := ⟨h.receiving, h.backed, .idle s.db⟩

theorem Orderly.proceed {result : Except OutboxError Database} (h : Orderly s)
    (hok : ∀ db', result = .ok db' → Orderly { s.setDb db' with tick := tick }) : Orderly (s.proceed result tick) := by
  cases result with
  | ok db => exact hok db rfl
  | error _ => exact h.idle

/-- The tick goes on with the settlements after this one. -/
theorem Tick.Holds.rest {left : List SettlementRow} {change : SettlementStatus → SettlementStatus} (h : tick.Holds db)
    (hleft : tick.left = row :: left) (hr : db.Restated row.settlement_id change db') :
    Tick.Holds (.rows left) db' := by
  have honce := h.once
  rw [hleft, List.map_cons, List.nodup_cons] at honce
  refine ⟨honce.2, fun other hother => ?_, nofun, nofun⟩
  have hne : other.settlement_id ≠ row.settlement_id := fun heq => honce.1 (heq ▸ List.mem_map_of_mem hother)
  rw [hr.others _ hne]
  exact h.unfailed other (hleft ▸ List.mem_cons_of_mem _ hother)

/-- The attempt is recorded: the settlement may be sent. -/
theorem Orderly.submit {manifest : Manifest} {left : List SettlementRow} (h : Orderly s)
    (hleft : s.tick.left = row :: left) (hid : manifest.settlementId = row.settlement_id)
    (hclaimed : ∀ trade ∈ manifest.trades, s.db.Claimed trade.tradeId row.settlement_id) :
    Orderly (s.submit row manifest left) := by
  refine h.proceed fun db' hrecord => ?_
  have hr := Database.transition_restates hrecord
  have hrest := h.holds.rest hleft hr
  refine h.restate hr (.inl rfl) nofun ?_
  obtain ⟨status, hstatus, hfailed⟩ := h.holds.unfailed row (hleft ▸ List.mem_cons_self)
  obtain ⟨current, hcurrent, hhere⟩ := hr.here
  obtain rfl : current = status := Option.some.inj (hcurrent.symm.trans hstatus)
  have hafter : (current.after .submitted).sent = true ∧ current.after .submitted ≠ .failed := by
    cases current <;> first | exact absurd rfl hfailed | decide
  have honce := h.holds.once
  rw [hleft] at honce
  refine ⟨honce, fun other hother => ?_, fun _ _ hhand => ?_, fun _ _ _ htick => ?_⟩
  · rcases List.mem_cons.1 hother with rfl | hother
    · exact ⟨_, hhere, hafter.2⟩
    · exact hrest.unfailed other hother
  · cases hhand
    refine ⟨hid, fun trade htrade => ?_⟩
    obtain ⟨stored, hstored, hfacts⟩ := hclaimed trade htrade
    exact ⟨stored, hr.trades ▸ hstored, hfacts⟩
  · cases htick
    exact ⟨_, hhere, hafter.1⟩

theorem Orderly.advance {left : List SettlementRow} (h : Orderly s) (htick : s.tick = .rows (row :: left)) :
    Orderly (s.advance sha256 row left) := by
  have hleft : s.tick.left = row :: left := by rw [htick]; rfl
  rw [Office.advance]
  split
  · refine h.proceed fun db' hrecord => ?_
    have hr := Database.transition_restates hrecord
    exact h.restate hr (.inl rfl) nofun (h.holds.rest hleft hr)
  · exact h.idle
  · rename_i manifest hmanifest
    obtain ⟨hid, hclaimed⟩ := Database.manifestFor_claimed hmanifest
    split
    · have honce := h.holds.once
      have hunfailed := h.holds.unfailed
      rw [hleft] at honce hunfailed
      refine ⟨h.receiving, h.backed, honce, hunfailed, fun _ _ hhand => ?_, nofun⟩
      cases hhand
      exact ⟨hid, hclaimed⟩
    · exact h.submit hleft hid hclaimed

/-- A truthful outcome goes into the row. -/
theorem Orderly.record {left : List SettlementRow} {outcome : SubmitOutcome} {nowMs : Nat} (h : Orderly s)
    (hleft : s.tick.left = row :: left) (htrue : s.truthful row.settlement_id outcome = true) :
    Orderly (s.record row left nowMs outcome) := by
  have hundecided (reason : String) :
      Orderly (s.proceed (s.db.recordUnknown nowMs row.settlement_id reason) (.rows left)) := by
    refine h.proceed fun db' hrecord => ?_
    obtain ⟨next, hnext, hr⟩ := Database.recordUnknown_restates hrecord
    refine h.restate hr (.inl ?_) ?_ (h.holds.rest hleft hr)
    · rcases hnext with rfl | rfl <;> rfl
    · rintro rfl
      rcases hnext with hnext | hnext <;> cases hnext
  have hconfirmed (receipt : String) (happlied : s.applied row.settlement_id) :
      Orderly (s.proceed (s.db.recordConfirmed row.settlement_id receipt) (.rows left)) := by
    refine h.proceed fun db' hrecord => ?_
    have hr := Database.transition_restates hrecord
    exact h.restate hr (.inl rfl) (fun _ => happlied) (h.holds.rest hleft hr)
  cases outcome with
  | confirmed receipt => exact hconfirmed receipt (of_decide_eq_true htrue)
  | alreadyApplied receipt => exact hconfirmed receipt (of_decide_eq_true htrue)
  | unknown reason => exact hundecided reason
  | notFound => exact hundecided _
  | rejected reason =>
    refine h.proceed fun db' hrecord => ?_
    have hr := Database.transition_restates hrecord
    exact h.restate hr (.inr (of_decide_eq_true htrue)) nofun (h.holds.rest hleft hr)

/-- The venue applies what it was sent. -/
theorem Orderly.apply {manifest : Manifest} {left : List SettlementRow} (h : Orderly s)
    (htick : s.tick = .submit row manifest left) :
    Orderly { s with ledger := s.ledger ++ [(manifest.settlementId, manifest)] } := by
  obtain ⟨hid, hclaimed⟩ := h.holds.claimed row manifest (by rw [htick]; rfl)
  have hsent := h.holds.sent row manifest left htick
  rw [← hid] at hclaimed hsent
  refine ⟨h.receiving, ⟨fun x hx => ?_, fun x hx => ?_, fun id hconfirmed => ?_⟩, h.holds⟩
  · rcases List.mem_append.1 hx with hx | hx
    · exact h.backed.sent x hx
    · rw [List.mem_singleton.1 hx]
      exact hsent
  · rcases List.mem_append.1 hx with hx | hx
    · exact h.backed.claimed x hx
    · rw [List.mem_singleton.1 hx]
      exact hclaimed
  · rw [List.map_append]
    exact List.mem_append_left _ (h.backed.confirmed id hconfirmed)

theorem Orderly.step (h : Orderly s) (hok : Office.keeps move = true) (hstep : s.step sha256 venue limit move = some s') :
    Orderly s' := by
  cases move with
  | plane move =>
    rw [Office.step] at hstep
    obtain ⟨plane, hplane, hs'⟩ := Option.map_eq_some_iff.1 hstep
    have hmove : move ≠ .rebuild := by
      rintro rfl
      cases hok
    obtain ⟨hreceiving, hgrows⟩ := h.receiving.step hmove hplane
    have hbacked := h.backed.grow hgrows
    split at hs'
    · cases hs'
      exact ⟨hreceiving, hbacked, .idle _⟩
    · cases hs'
      exact ⟨hreceiving, hbacked, h.holds.grow hgrows⟩
  | tick batchSize nowMs =>
    rw [Office.step] at hstep
    split at hstep
    · split at hstep
      · rename_i db' _ hbatch
        cases hstep
        have hclaims := Database.createBatch_claims hbatch
        have htidy := hclaims.run _ h.receiving.tidy
        obtain ⟨honce, hopen⟩ := Database.pending_open htidy.settlements 16 nowMs
        refine ⟨h.receiving.setDb htidy hclaims.state hclaims.tradeless, h.backed.claims hclaims, honce, fun row hrow => ?_,
          nofun, nofun⟩
        obtain ⟨hget, hdue⟩ := hopen row hrow
        refine ⟨row.status, Database.status_of_get hget, fun hfailed => ?_⟩
        rw [hfailed] at hdue
        rcases hdue with hdue | hdue | hdue <;> cases hdue
      · cases hstep
        exact h
    · cases hstep
      exact h
  | advance =>
    rw [Office.step] at hstep
    split at hstep
    · cases hstep
      exact h.idle
    · rename_i htick
      cases hstep
      exact h.advance htick
    · cases hstep
  | apply =>
    rw [Office.step] at hstep
    split at hstep
    · rename_i htick
      split at hstep
      · cases hstep
      · cases hstep
        exact h.apply htick
    · cases hstep
  | answer outcome nowMs =>
    rw [Office.step] at hstep
    split at hstep
    · rename_i row manifest left htick
      have hleft : s.tick.left = row :: left := by rw [htick]; rfl
      split at hstep
      · cases hstep
      · rename_i htrue
        split at hstep
        · cases hstep
          obtain ⟨hid, hclaimed⟩ := h.holds.claimed row manifest (by rw [htick]; rfl)
          exact h.submit hleft hid hclaimed
        · cases hstep
          exact h.record hleft (Bool.not_eq_false _ ▸ htrue)
    · rename_i row manifest left htick
      have hleft : s.tick.left = row :: left := by rw [htick]; rfl
      split at hstep
      · cases hstep
      · rename_i htrue
        cases hstep
        exact h.record hleft (Bool.not_eq_false _ ▸ htrue)
    · cases hstep
  | throw =>
    rw [Office.step] at hstep
    split at hstep
    · cases hstep
      exact h.idle
    · cases hstep
      exact h.idle
    · cases hstep
  | releaseFailed id =>
    rw [Office.step] at hstep
    split at hstep
    · rename_i db' hrelease
      cases hstep
      have hr := Database.releaseFailed_releases hrelease
      exact ⟨h.receiving.setDb (hr.run _ h.receiving.tidy) hr.state hr.tradeless, h.backed.release hr, h.holds.release hr⟩
    · cases hstep
      exact h
  | makeDue id =>
    cases hstep
    have hgrows : Grows s.plane.projection.runId s.db (s.db.makeDue id) := makeDue_grows s.db id
    refine ⟨h.receiving.setDb (hgrows.tidy h.receiving.tidy) ?_ ?_, h.backed.grow hgrows, h.holds.grow hgrows⟩
    · cases id <;> rfl
    · cases id <;> exact fun hnone => hnone

/-- Without a rebuild no trade is in two settlements that the venue applied, and what
is marked confirmed is applied. -/
theorem settled_at_most_once (h : Reach (Office.step sha256 venue limit) (fun _ move => Office.keeps move = true) (Office.init run) s) :
    (∀ x ∈ s.ledger, ∀ y ∈ s.ledger, x.1 ≠ y.1 → ∀ trade ∈ x.2.trades, ∀ trade' ∈ y.2.trades, trade.tradeId ≠ trade'.tradeId) ∧
    ∀ row ∈ s.db.settlements, row.status = .confirmed → s.applied row.settlement_id := by
  have horderly := h.inv Orderly ⟨.init run, ⟨nofun, nofun, nofun⟩, .idle _⟩ fun s move s' hs hok hstep => hs.step hok hstep
  refine ⟨fun x hx y hy hne trade htrade trade' htrade' heq => hne ?_, fun row hrow hconfirmed => ?_⟩
  · have hx' := horderly.backed.claimed x hx trade htrade
    have hy' := horderly.backed.claimed y hy trade' htrade'
    rw [← heq] at hy'
    exact horderly.receiving.tidy.claimed_once hx' hy'
  · have hget := Database.get_of_mem horderly.receiving.tidy.settlements hrow
    exact horderly.backed.confirmed _ ((Database.status_of_get hget).trans (congrArg some hconfirmed))

/-- A trade is written and polled. -/
def lotArrives (number : UInt64) : List OfficeMove :=
  (PlaneMove.emit (lotTraded number) :: .snapshot :: wholePoll).map .plane

/-- A rejected settlement is released, its trade is settled with the next one, the
process stops after the venue applied the two, and a third trade follows. -/
theorem settled_at_most_once_small :
    ∃ s, Reach (Office.step (fun text => text) "sim" 500) (fun _ move => Office.keeps move = true) (Office.init 1) s ∧
      s.ledger.map (fun x => x.2.trades.map ManifestTrade.tradeId) = [[1, 2], [3]] ∧
      s.db.settlements.map SettlementRow.status = [.confirmed, .confirmed] ∧
      (∀ x ∈ s.ledger, ∀ y ∈ s.ledger, x.1 ≠ y.1 → ∀ trade ∈ x.2.trades, ∀ trade' ∈ y.2.trades,
        trade.tradeId ≠ trade'.tradeId) ∧
      ∀ row ∈ s.db.settlements, row.status = .confirmed → s.applied row.settlement_id := by
  have hwalk : ∃ s ∈ walk (Office.step (fun text => text) "sim" 500) (fun _ move => Office.keeps move = true) (Office.init 1)
      (lotArrives 1 ++
        [.tick 1 0, .advance, .answer (.rejected "closed") 0, .advance, .releaseFailed "stl_sim|1|1|1"] ++
        lotArrives 2 ++
        [.tick 50 0, .advance, .apply, .plane .restartApi, .tick 50 0, .advance, .answer (.alreadyApplied "r1") 0, .advance] ++
        lotArrives 3 ++
        [.tick 50 0, .advance, .apply, .answer (.confirmed "r2") 0]),
      s.ledger.map (fun x => x.2.trades.map ManifestTrade.tradeId) = [[1, 2], [3]] ∧
      s.db.settlements.map SettlementRow.status = [.confirmed, .confirmed] := by
    decide +kernel
  obtain ⟨s, hs, hledger, hstatus⟩ := hwalk
  have hreach := reach_of_walk hs
  exact ⟨s, hreach, hledger, hstatus, settled_at_most_once hreach⟩

end AtMostOnce

end TradingLab
