import TradingLab.Dispatcher
/-!
# The life of a settlement

What the row of a settlement goes through, whatever the venue answers and whenever the
other methods of the outbox are called. A tick works on rows that it read before it
waited for the venue: they stay open meanwhile, since only the tick itself decides them.
-/
open LabLib

namespace TradingLab

/-! ## Ticks and other calls -/

inductive VenueCall where
  | lookup (settlementId : String)
  | submit (settlementId : String)
deriving DecidableEq

def VenueCall.settlementId : VenueCall → String
  | lookup settlementId | submit settlementId => settlementId

/-- The call that a tick waits for. -/
def Tick.calls : Tick → List VenueCall
  | .lookup row _ _ => [.lookup row.settlement_id]
  | .submit row _ _ => [.submit row.settlement_id]
  | _ => []

/-- A call of one of the methods that record what became of a settlement. -/
inductive RecordCall where
  | attempt (settlementId : String)
  | confirmed (settlementId receipt : String)
  | unknown (nowMs : Nat) (settlementId error : String)
  | failed (settlementId error : String)
  | needsOperator (settlementId error : String)

def Database.record (db : Database) : RecordCall → Except OutboxError Database
  | .attempt settlementId => db.recordAttempt settlementId
  | .confirmed settlementId receipt => db.recordConfirmed settlementId receipt
  | .unknown nowMs settlementId error => db.recordUnknown nowMs settlementId error
  | .failed settlementId error => db.recordFailed settlementId error
  | .needsOperator settlementId error => db.recordNeedsOperator settlementId error

/-- An answer of the venue, whatever it is. -/
def Office.hear (s : Office) (outcome : SubmitOutcome) (nowMs : Nat) : Option Office :=
  match s.tick with
  | .lookup row manifest left =>
    if outcome = .notFound then some (s.submit row manifest left) else some (s.record row left nowMs outcome)
  | .submit row _ left => some (s.record row left nowMs outcome)
  | _ => none

/-- `confirmed` and `failed` are decided, and `needs_operator` is given up. -/
def SettlementStatus.isOpen : SettlementStatus → Bool
  | .pending | .submitted | .unknown => true
  | _ => false

def SettlementStatus.isDecided : SettlementStatus → Bool
  | .confirmed | .failed => true
  | _ => false

/-- The office, and what its ticks did. -/
structure Docket extends Office where
  calls : List VenueCall
  /-- One entry for each tick that left a row undecided, as long as the row is there. -/
  undecided : List String

inductive DocketMove where
  | tick (batchSize : Int) (nowMs : Nat)
  | advance
  | answer (outcome : SubmitOutcome) (nowMs : Nat)
  | createBatch (batchSize : Int)
  | makeDue (settlementId : Option String)
  | releaseFailed (settlementId : String)
  /-- The other tables are written, in whatever way. -/
  | others (db : Database)
  /-- The process starts again, without the tick that was waiting. -/
  | restart
  /-- A record that no tick makes. -/
  | record (call : RecordCall)

def DocketMove.isRecord : DocketMove → Bool
  | .record _ => true
  | _ => false

namespace Docket

def init (run : RunId) : Docket := ⟨.init run, [], []⟩

/-- The row that a tick is done with, if it is left undecided. -/
def ended (s : Docket) (office : Office) : List String :=
  match s.tick.left, office.tick with
  | row :: _, .rows _ => if (office.db.status row.settlement_id).any SettlementStatus.isDecided then [] else [row.settlement_id]
  | _, _ => []

/-- A tick goes on. -/
def follow (s : Docket) (office : Office) : Docket where
  toOffice := office
  calls := s.calls ++ office.tick.calls
  undecided := s.undecided ++ s.ended office

def step (sha256 : String → String) (venue : String) (limit : Nat) (s : Docket) : DocketMove → Option Docket
  | .tick batchSize nowMs =>
    (s.toOffice.step sha256 venue limit (.tick batchSize nowMs)).map fun office => { s with toOffice := office }
  | .advance => (s.toOffice.step sha256 venue limit .advance).map s.follow
  | .answer outcome nowMs => (s.toOffice.hear outcome nowMs).map s.follow
  | .createBatch batchSize =>
    match s.db.createBatch sha256 venue batchSize with
    | .ok (db, _) => some { s with toOffice := s.toOffice.setDb db }
    | .error _ => some s
  | .makeDue settlementId => some { s with toOffice := s.toOffice.setDb (s.db.makeDue settlementId) }
  | .releaseFailed settlementId =>
    match s.db.releaseFailed settlementId with
    | .ok db => some { s with
        toOffice := s.toOffice.setDb db
        undecided := s.undecided.filter fun id => id ≠ settlementId }
    | .error _ => some s
  | .others db => some { s with toOffice := s.toOffice.setDb { db with settlements := s.db.settlements } }
  | .restart => some { s with toOffice := { s.toOffice with tick := .idle } }
  | .record call =>
    match s.db.record call with
    | .ok db => some { s with toOffice := s.toOffice.setDb db }
    | .error _ => some s

def callsOf (s : Docket) (settlementId : String) : List VenueCall :=
  s.calls.filter fun call => call.settlementId = settlementId

end Docket

/-! ## Rows -/

section Rows
variable {sha256 : String → String} {venue id : String} {db db' : Database} {row : SettlementRow}

/-- What the life of a row is about. -/
structure Standing where
  status : SettlementStatus
  attempts : Nat
  receipt : Option String
deriving DecidableEq

def SettlementRow.standing (row : SettlementRow) : Standing := ⟨row.status, row.attempts, row.receipt⟩

def Database.standing (db : Database) (settlementId : String) : Option Standing :=
  (db.get settlementId).map SettlementRow.standing

namespace Database

theorem standing_of_get (h : db.get id = some row) : db.standing id = some row.standing := by
  rw [standing, h, Option.map_some]

theorem status_eq_standing (db : Database) (id : String) : db.status id = (db.standing id).map Standing.status := by
  rw [status, standing, Option.map_map]
  rfl

/-- No row is lost or changes its standing, and new ones are pending. -/
structure Keeps (db db' : Database) : Prop where
  keys : (db.settlements.map SettlementRow.settlement_id).Nodup → (db'.settlements.map SettlementRow.settlement_id).Nodup
  rows : ∀ id, db'.standing id = db.standing id ∨ (db.standing id = none ∧ db'.standing id = some ⟨.pending, 0, none⟩)

theorem Keeps.of_settlements (h : db'.settlements = db.settlements) : Keeps db db' := by
  refine ⟨fun hkeys => h ▸ hkeys, fun id => .inl ?_⟩
  rw [standing, get, h]
  rfl

theorem createBatch_keeps {batchSize : Int} {claimed : Option SettlementRow}
    (h : db.createBatch sha256 venue batchSize = .ok (db', claimed)) : Keeps db db' := by
  rw [createBatch] at h
  split at h
  · cases h
    exact .of_settlements rfl
  · dsimp only at h
    split at h
    · cases h
    · cases h
      -- The claim writes trades only.
      refine ⟨fun hkeys => nodup_insert_settlement hkeys _, fun id => ?_⟩
      rw [standing, standing, show ∀ (db : Database) (settlementId : String) (first last : TradeId),
        (db.claim settlementId first last).get id = db.get id from fun _ _ _ _ => rfl, get_insert_settlement]
      cases db.get id with
      | some old => exact .inl rfl
      | none =>
        rw [Option.none_or]
        split
        · exact .inr ⟨rfl, rfl⟩
        · exact .inl rfl

theorem makeDue_keeps (db : Database) (settlementId : Option String) : Keeps db (db.makeDue settlementId) := by
  obtain ⟨due, hdue, hrows⟩ := db.makeDue_rows settlementId
  have hid (row : SettlementRow) : (due row).settlement_id = row.settlement_id := by
    obtain h | h := hdue row <;> rw [h]
  have hstanding (row : SettlementRow) : (due row).standing = row.standing := by
    obtain h | h := hdue row <;> rw [h]
    rfl
  rw [hrows]
  refine ⟨fun hkeys => ?_, fun id => .inl ?_⟩
  · rw [List.map_map]
    simp only [Function.comp_def, hid]
    exact hkeys
  · rw [standing, get_map hid, Option.map_map]
    simp only [Function.comp_def, hstanding]
    rfl

/-- A release takes one row away, and that row failed. -/
theorem releaseFailed_rows (h : db.releaseFailed id = .ok db') :
    (∃ x, db.standing id = some x ∧ x.status = .failed) ∧ db'.standing id = none ∧
      (∀ other ≠ id, db'.standing other = db.standing other) ∧
      ((db.settlements.map SettlementRow.settlement_id).Nodup → (db'.settlements.map SettlementRow.settlement_id).Nodup) := by
  obtain ⟨current, hget, hfailed, rfl⟩ := releaseFailed_eq_ok h
  refine ⟨⟨current.standing, standing_of_get hget, hfailed⟩, ?_, fun other hne => ?_, fun hkeys => ?_⟩
  · rw [standing, get, find?_without, if_pos rfl]
    rfl
  · rw [standing, get, find?_without, if_neg hne]
    rfl
  · exact hkeys.sublist ((without_sublist _ _).map _)

end Database

/-- What a tick or another call does to a row, and whether it leaves it undecided. -/
inductive Standing.Next : Option Standing → Option Standing → Nat → Prop where
  | stays (x : Option Standing) : Next x x 0
  | inserted : Next none (some ⟨.pending, 0, none⟩) 0
  | attempted {x : Standing} : x.status.isOpen = true → Next (some x) (some { x with status := .submitted }) 0
  | confirmed {x : Standing} {receipt : String} : x.status.isOpen = true →
      Next (some x) (some { x with status := .confirmed, receipt := some receipt }) 0
  | failed {x : Standing} : x.status.isOpen = true → Next (some x) (some { x with status := .failed }) 0
  | undecided {x : Standing} : x.status.isOpen = true → x.attempts + 1 < MAX_AUTO_ATTEMPTS →
      Next (some x) (some { x with status := .unknown, attempts := x.attempts + 1 }) 1
  | exhausted {x : Standing} : x.status.isOpen = true →
      Next (some x) (some { x with status := .needs_operator, attempts := x.attempts + 1 }) 1
  | conflict {x : Standing} : x.status.isOpen = true → Next (some x) (some { x with status := .needs_operator }) 1

/-- The ticks that left the row undecided are counted in it until it is given up. -/
def Counted : Option Standing → Nat → Prop
  | none, ticks => ticks = 0
  | some x, ticks =>
    if x.status = .needs_operator then ticks ≤ MAX_AUTO_ATTEMPTS else ticks = x.attempts ∧ ticks < MAX_AUTO_ATTEMPTS

theorem Counted.le {x : Option Standing} {ticks : Nat} (h : Counted x ticks) : ticks ≤ MAX_AUTO_ATTEMPTS := by
  cases x with
  | none =>
    rw [Counted] at h
    omega
  | some x =>
    rw [Counted] at h
    split at h
    · exact h
    · exact Nat.le_of_lt h.2

theorem Counted.of_open {x : Standing} {ticks : Nat} (h : Counted (some x) ticks) (hopen : x.status.isOpen = true) :
    ticks = x.attempts ∧ ticks < MAX_AUTO_ATTEMPTS := by
  rw [Counted, if_neg] at h
  · exact h
  · intro hgiven
    rw [hgiven] at hopen
    cases hopen

theorem Counted.next {x x' : Option Standing} {ticks ended : Nat} (h : Counted x ticks) (hnext : Standing.Next x x' ended) :
    Counted x' (ticks + ended) := by
  cases hnext with
  | stays => exact h
  | inserted =>
    cases h
    rw [Counted, if_neg (by simp)]
    exact ⟨rfl, by decide⟩
  | attempted hopen | confirmed hopen | failed hopen =>
    rw [Counted, if_neg (by simp)]
    exact h.of_open hopen
  | undecided hopen hmore =>
    obtain ⟨rfl, -⟩ := h.of_open hopen
    rw [Counted, if_neg (by simp)]
    exact ⟨rfl, hmore⟩
  | exhausted hopen | conflict hopen =>
    rw [Counted, if_pos rfl]
    exact (h.of_open hopen).2

end Rows

/-! ## Steps -/

section Steps
variable {sha256 : String → String} {venue id : String} {limit : Nat} {db' : Database} {s s' : Docket} {move : DocketMove}
  {tick : Tick} {row : SettlementRow} {left : List SettlementRow}

namespace Docket

/-- What a call does to the tables and the tick. -/
inductive Stepped (sha256 : String → String) (s : Docket) : DocketMove → Docket → Prop where
  /-- The rows keep their standing, and a new tick has those that are due. -/
  | keeps {move : DocketMove} {s' : Docket} : s.db.Keeps s'.db →
      s'.tick = s.tick ∨ s'.tick = .idle ∨ (∃ limit nowMs, s'.tick = .rows (s'.db.pending limit nowMs)) →
      s'.calls = s.calls → s'.undecided = s.undecided → Stepped sha256 s move s'
  | done : s.tick = .rows [] → Stepped sha256 s .advance (s.follow { s.toOffice with tick := .idle })
  | advance {row : SettlementRow} {left : List SettlementRow} : s.tick = .rows (row :: left) →
      Stepped sha256 s .advance (s.follow (s.toOffice.advance sha256 row left))
  | submit {row : SettlementRow} {manifest : Manifest} {left : List SettlementRow} {outcome : SubmitOutcome} {nowMs : Nat} :
      s.tick.left = row :: left → Stepped sha256 s (.answer outcome nowMs) (s.follow (s.toOffice.submit row manifest left))
  | record {row : SettlementRow} {left : List SettlementRow} {outcome : SubmitOutcome} {nowMs : Nat} :
      s.tick.left = row :: left → Stepped sha256 s (.answer outcome nowMs) (s.follow (s.toOffice.record row left nowMs outcome))
  | release {settlementId : String} {db' : Database} : s.db.releaseFailed settlementId = .ok db' →
      Stepped sha256 s (.releaseFailed settlementId) { s with
        toOffice := s.toOffice.setDb db'
        undecided := s.undecided.filter fun id => id ≠ settlementId }
  | recorded {call : RecordCall} {db' : Database} : s.db.record call = .ok db' →
      Stepped sha256 s (.record call) { s with toOffice := s.toOffice.setDb db' }

theorem Stepped.same : Stepped sha256 s move s := .keeps (.of_settlements rfl) (.inl rfl) rfl rfl

theorem step_stepped (h : s.step sha256 venue limit move = some s') : Stepped sha256 s move s' := by
  cases move with
  | tick batchSize nowMs =>
    obtain ⟨office, hoffice, rfl⟩ := Option.map_eq_some_iff.1 h
    rw [Office.step] at hoffice
    split at hoffice
    · split at hoffice
      · rename_i hbatch
        cases hoffice
        exact .keeps (Database.createBatch_keeps hbatch) (.inr (.inr ⟨16, nowMs, rfl⟩)) rfl rfl
      · cases hoffice
        exact .same
    · cases hoffice
      exact .same
  | advance =>
    obtain ⟨office, hoffice, rfl⟩ := Option.map_eq_some_iff.1 h
    rw [Office.step] at hoffice
    split at hoffice
    · rename_i htick
      cases hoffice
      exact .done htick
    · rename_i htick
      cases hoffice
      exact .advance htick
    · cases hoffice
  | answer outcome nowMs =>
    obtain ⟨office, hoffice, rfl⟩ := Option.map_eq_some_iff.1 h
    rw [Office.hear] at hoffice
    split at hoffice
    · rename_i row manifest left htick
      have hleft : s.tick.left = row :: left := by rw [htick]; rfl
      split at hoffice
      · cases hoffice
        exact .submit hleft
      · cases hoffice
        exact .record hleft
    · rename_i row manifest left htick
      cases hoffice
      exact .record (by rw [htick]; rfl)
    · cases hoffice
  | createBatch batchSize =>
    rw [step] at h
    split at h
    · rename_i hbatch
      cases h
      exact .keeps (Database.createBatch_keeps hbatch) (.inl rfl) rfl rfl
    · cases h
      exact .same
  | makeDue settlementId =>
    cases h
    exact .keeps (Database.makeDue_keeps s.db settlementId) (.inl rfl) rfl rfl
  | releaseFailed settlementId =>
    rw [step] at h
    split at h
    · rename_i hrelease
      cases h
      exact .release hrelease
    · cases h
      exact .same
  | others db =>
    cases h
    exact .keeps (.of_settlements rfl) (.inl rfl) rfl rfl
  | restart =>
    cases h
    exact .keeps (.of_settlements rfl) (.inr (.inl rfl)) rfl rfl
  | record call =>
    rw [step] at h
    split at h
    · rename_i hrecord
      cases h
      exact .recorded hrecord
    · cases h
      exact .same

/-- What every call keeps: the rows of a tick are open. -/
structure Sound (s : Docket) : Prop where
  keys : (s.db.settlements.map SettlementRow.settlement_id).Nodup
  once : (s.tick.left.map SettlementRow.settlement_id).Nodup
  isOpen : ∀ row ∈ s.tick.left, ∃ x, s.db.standing row.settlement_id = some x ∧ x.status.isOpen = true
  counted : ∀ id, Counted (s.db.standing id) (s.undecided.count id)

/-- What a step does to one row, and to what the ticks did with it. -/
inductive Turned (s s' : Docket) (move : DocketMove) (id : String) : Prop where
  | next (ended : Nat) : Standing.Next (s.db.standing id) (s'.db.standing id) ended →
      s'.undecided.count id = s.undecided.count id + ended →
      (s'.callsOf id = s.callsOf id ∨ ∃ x, s.db.standing id = some x ∧ x.status.isOpen = true) → Turned s s' move id
  | released {x : Standing} : move = .releaseFailed id → s.db.standing id = some x → x.status = .failed →
      s'.db.standing id = none → s'.undecided.count id = 0 → s'.callsOf id = s.callsOf id → Turned s s' move id

theorem Turned.counted (h : Turned s s' move id) (hc : Counted (s.db.standing id) (s.undecided.count id)) :
    Counted (s'.db.standing id) (s'.undecided.count id) := by
  cases h with
  | next ended hnext hcount _ =>
    rw [hcount]
    exact hc.next hnext
  | released _ _ _ hgone hcount _ =>
    rw [hgone, hcount, Counted]

/-- A step that keeps all that. -/
structure Goes (s : Docket) (move : DocketMove) (s' : Docket) : Prop where
  sound : s'.Sound
  turned : ∀ id, Turned s s' move id

/-- The rows stay as they are, and the tick has open ones. -/
theorem Sound.keep (h : s.Sound) (hk : s.db.Keeps s'.db) (honce : (s'.tick.left.map SettlementRow.settlement_id).Nodup)
    (hopen : ∀ row ∈ s'.tick.left, ∃ x, s'.db.standing row.settlement_id = some x ∧ x.status.isOpen = true)
    (hcalls : s'.calls = s.calls) (hundecided : s'.undecided = s.undecided) : s.Goes move s' := by
  have hturned (id : String) : Turned s s' move id := by
    refine .next 0 ?_ ?_ (.inl ?_)
    · obtain hsame | ⟨hnone, hnew⟩ := hk.rows id
      · rw [hsame]
        exact .stays _
      · rw [hnone, hnew]
        exact .inserted
    · rw [hundecided, Nat.add_zero]
    · rw [callsOf, callsOf, hcalls]
  exact ⟨⟨hk.keys h.keys, honce, hopen, fun id => (hturned id).counted (h.counted id)⟩, hturned⟩

/-- The rows of the tick stay open when all rows stay. -/
theorem Sound.open_of_keeps (h : s.Sound) (hk : s.db.Keeps db') :
    ∀ row ∈ s.tick.left, ∃ x, db'.standing row.settlement_id = some x ∧ x.status.isOpen = true := by
  intro row hrow
  obtain ⟨x, hx, hopen⟩ := h.isOpen row hrow
  obtain hsame | ⟨hnone, -⟩ := hk.rows row.settlement_id
  · exact ⟨x, hsame.trans hx, hopen⟩
  · rw [hnone] at hx
    cases hx

theorem count_ended_of_ne {office : Office} (hleft : s.tick.left = row :: left) (hne : id ≠ row.settlement_id) :
    (s.ended office).count id = 0 := by
  rw [List.count_eq_zero, ended, hleft]
  split
  · rename_i hcons _
    obtain rfl := (List.cons.inj hcons).1
    split
    · exact List.not_mem_nil
    · exact fun hmem => hne (List.mem_singleton.1 hmem)
  · exact List.not_mem_nil

/-- The tick goes on with its row, or is done with it. Whatever it writes, it writes into that row. -/
theorem Sound.follow {office : Office} {rewrite : SettlementRow → SettlementRow} (h : s.Sound)
    (hleft : s.tick.left = row :: left) (hr : s.db.Rewrites row.settlement_id rewrite office.db)
    (hcalls : ∀ call ∈ office.tick.calls, call.settlementId = row.settlement_id)
    (htick : office.tick.left = left ∨ (office.tick.left = row :: left ∧
      ∀ current, s.db.get row.settlement_id = some current → current.status.isOpen = true → (rewrite current).status.isOpen = true))
    (hnext : ∀ current, s.db.get row.settlement_id = some current → current.status.isOpen = true →
      Standing.Next (some current.standing) (some (rewrite current).standing) ((s.ended office).count row.settlement_id)) :
    s.Goes move (s.follow office) := by
  obtain ⟨current, hget, hget'⟩ := hr.here
  have hcurrent := Database.standing_of_get hget
  have honce := h.once
  rw [hleft, List.map_cons, List.nodup_cons] at honce
  have hopen : current.status.isOpen = true := by
    obtain ⟨x, hx, hopen⟩ := h.isOpen row (hleft ▸ List.mem_cons_self)
    rw [hcurrent] at hx
    cases hx
    exact hopen
  have hother (id : String) (hne : id ≠ row.settlement_id) : office.db.standing id = s.db.standing id := by
    rw [Database.standing, Database.standing, hr.others id hne]
  have hrest (other : SettlementRow) (hmem : other ∈ left) :
      ∃ x, office.db.standing other.settlement_id = some x ∧ x.status.isOpen = true := by
    have hne : other.settlement_id ≠ row.settlement_id := fun heq => honce.1 (heq ▸ List.mem_map_of_mem hmem)
    rw [hother _ hne]
    exact h.isOpen other (hleft ▸ List.mem_cons_of_mem _ hmem)
  have hturned (id : String) : Turned s (s.follow office) move id := by
    by_cases hid : id = row.settlement_id
    · subst hid
      refine .next _ ?_ (List.count_append ..) (.inr ⟨_, hcurrent, hopen⟩)
      rw [hcurrent, show (s.follow office).db.standing row.settlement_id = some (rewrite current).standing from
        Database.standing_of_get hget']
      exact hnext current hget hopen
    · refine .next 0 ?_ ?_ (.inl ?_)
      · rw [show (s.follow office).db.standing id = s.db.standing id from hother id hid]
        exact .stays _
      · rw [Docket.follow, List.count_append, count_ended_of_ne hleft hid]
      · have hnone : office.tick.calls.filter (fun call => call.settlementId = id) = [] := by
          rw [List.filter_eq_nil_iff]
          intro call hcall hsame
          exact hid ((of_decide_eq_true hsame).symm.trans (hcalls call hcall))
        rw [callsOf, callsOf, Docket.follow, List.filter_append, hnone, List.append_nil]
  refine ⟨⟨?_, ?_, ?_, fun id => (hturned id).counted (h.counted id)⟩, hturned⟩
  · have hkeys := h.keys
    rw [← hr.ids] at hkeys
    exact hkeys
  · show (office.tick.left.map SettlementRow.settlement_id).Nodup
    obtain htick | ⟨htick, -⟩ := htick
    · rw [htick]
      exact honce.2
    · rw [htick, List.map_cons, List.nodup_cons]
      exact honce
  · show ∀ row ∈ office.tick.left, ∃ x, office.db.standing row.settlement_id = some x ∧ x.status.isOpen = true
    obtain htick | ⟨htick, hstill⟩ := htick
    · rw [htick]
      exact hrest
    · rw [htick]
      intro other hmem
      obtain rfl | hmem := List.mem_cons.1 hmem
      · exact ⟨_, Database.standing_of_get hget', hstill current hget hopen⟩
      · exact hrest other hmem

/-- A call that throws ends the tick and changes no row. -/
theorem Sound.idle (h : s.Sound) : s.Goes move (s.follow { s.toOffice with tick := .idle }) := by
  refine h.keep (.of_settlements rfl) List.nodup_nil (fun _ hrow => absurd hrow List.not_mem_nil) ?_ ?_
  · exact List.append_nil _
  · rw [Docket.follow, ended]
    split
    · rename_i hidle
      cases hidle
    · exact List.append_nil _

theorem Sound.proceed {result : Except OutboxError Database} (h : s.Sound)
    (hok : ∀ db', result = .ok db' → s.Goes move (s.follow { s.toOffice.setDb db' with tick := tick })) :
    s.Goes move (s.follow (s.toOffice.proceed result tick)) := by
  cases result with
  | ok db' => exact hok db' rfl
  | error _ => exact h.idle

/-- The tick is done with its row. -/
theorem Sound.finish {rewrite : SettlementRow → SettlementRow} (h : s.Sound) (hleft : s.tick.left = row :: left)
    (hr : s.db.Rewrites row.settlement_id rewrite db')
    (hnext : ∀ current : SettlementRow, current.status.isOpen = true →
      Standing.Next (some current.standing) (some (rewrite current).standing) (if (rewrite current).status.isDecided then 0 else 1)) :
    s.Goes move (s.follow { s.toOffice.setDb db' with tick := .rows left }) := by
  refine h.follow hleft hr (fun _ hcall => absurd hcall List.not_mem_nil) (.inl rfl) fun current hget hopen => ?_
  obtain ⟨old, hold, hnew⟩ := hr.here
  obtain rfl : current = old := Option.some.inj (hget.symm.trans hold)
  have hended : s.ended { s.toOffice.setDb db' with tick := .rows left } =
      if (db'.status row.settlement_id).any SettlementStatus.isDecided then [] else [row.settlement_id] := by
    rw [ended, hleft]
    rfl
  have hcount : (s.ended { s.toOffice.setDb db' with tick := .rows left }).count row.settlement_id =
      if (rewrite current).status.isDecided then 0 else 1 := by
    rw [hended, Database.status_of_get hnew, Option.any_some]
    split
    · rfl
    · exact List.count_singleton_self
  rw [hcount]
  exact hnext current hopen

theorem turn_of_open {options : Database.TransitionOptions} {next : SettlementStatus} {current : SettlementRow}
    (h : current.status.isOpen = true) : options.turn next current = options.write next current := by
  have hconfirmed : current.status ≠ .confirmed := fun hc => by rw [hc] at h; cases h
  have hfailed : current.status ≠ .failed := fun hc => by rw [hc] at h; cases h
  rw [Database.TransitionOptions.turn, if_neg hconfirmed, if_neg fun hf => hfailed hf.1]

/-- The attempt is recorded, and the venue is called. -/
theorem Sound.submit {manifest : Manifest} (h : s.Sound) (hleft : s.tick.left = row :: left) :
    s.Goes move (s.follow (s.toOffice.submit row manifest left)) := by
  refine h.proceed fun db' hrecord => ?_
  refine h.follow hleft (Database.transition_rewrites hrecord) (fun call hcall => ?_) (.inr ⟨rfl, fun current _ hopen => ?_⟩)
    fun current _ hopen => ?_
  · rw [List.mem_singleton.1 hcall]
    rfl
  · rw [turn_of_open hopen]
    rfl
  · have hended : s.ended { s.toOffice.setDb db' with tick := .submit row manifest left } = [] := by
      rw [ended, hleft]
    rw [turn_of_open hopen, hended]
    exact .attempted hopen

/-- Whatever the outcome is, the row gets it. -/
theorem Sound.record {outcome : SubmitOutcome} {nowMs : Nat} (h : s.Sound) (hleft : s.tick.left = row :: left) :
    s.Goes move (s.follow (s.toOffice.record row left nowMs outcome)) := by
  have hconfirmed (receipt : String) :
      s.Goes move (s.follow (s.toOffice.proceed (s.db.recordConfirmed row.settlement_id receipt) (.rows left))) := by
    refine h.proceed fun db' hrecord => h.finish hleft (Database.transition_rewrites hrecord) fun current hopen => ?_
    rw [turn_of_open hopen]
    exact .confirmed hopen
  have hundecided (reason : String) :
      s.Goes move (s.follow (s.toOffice.proceed (s.db.recordUnknown nowMs row.settlement_id reason) (.rows left))) := by
    refine h.proceed fun db' hrecord => h.finish hleft (Database.recordUnknown_rewrites hrecord) fun current hopen => ?_
    have hneither : ¬(current.status = .confirmed ∨ current.status = .failed) := by
      rintro (hc | hc) <;> rw [hc] at hopen <;> cases hopen
    rw [Database.undecidedRow, if_neg hneither]
    split
    · exact .exhausted hopen
    · rename_i hmore
      exact .undecided hopen (Nat.lt_of_not_le hmore)
  cases outcome with
  | confirmed receipt => exact hconfirmed receipt
  | alreadyApplied receipt => exact hconfirmed receipt
  | unknown reason => exact hundecided reason
  | notFound => exact hundecided _
  | rejected reason =>
    refine h.proceed fun db' hrecord => h.finish hleft (Database.transition_rewrites hrecord) fun current hopen => ?_
    rw [turn_of_open hopen]
    exact .failed hopen

theorem Sound.advance (h : s.Sound) (htick : s.tick = .rows (row :: left)) :
    s.Goes move (s.follow (s.toOffice.advance sha256 row left)) := by
  have hleft : s.tick.left = row :: left := by rw [htick]; rfl
  rw [Office.advance]
  split
  · refine h.proceed fun db' hrecord => h.finish hleft (Database.transition_rewrites hrecord) fun current hopen => ?_
    rw [turn_of_open hopen]
    exact .conflict hopen
  · exact h.idle
  · rename_i manifest _
    split
    · obtain ⟨x, hx, -⟩ := h.isOpen row (hleft ▸ List.mem_cons_self)
      obtain ⟨current, hget, -⟩ := Option.map_eq_some_iff.1 hx
      have hsame : s.db.Rewrites row.settlement_id (fun row => row) s.db := .same hget rfl
      refine h.follow hleft hsame (fun call hcall => ?_) (.inr ⟨rfl, fun _ _ hopen => hopen⟩) fun current _ _ => ?_
      · rw [List.mem_singleton.1 hcall]
        rfl
      · have hended : s.ended { s.toOffice with tick := .lookup row manifest left } = [] := by
          rw [ended, hleft]
        rw [hended]
        exact .stays _
    · exact h.submit hleft

theorem Sound.release (h : s.Sound) (hr : s.db.releaseFailed id = .ok db') :
    s.Goes (.releaseFailed id) { s with
      toOffice := s.toOffice.setDb db'
      undecided := s.undecided.filter fun other => other ≠ id } := by
  obtain ⟨⟨x, hx, hfailed⟩, hgone, hothers, hkeys⟩ := Database.releaseFailed_rows hr
  have hturned (other : String) : Turned s { s with
      toOffice := s.toOffice.setDb db'
      undecided := s.undecided.filter fun other => other ≠ id } (.releaseFailed id) other := by
    by_cases hid : other = id
    · subst hid
      refine .released rfl hx hfailed hgone ?_ rfl
      rw [List.count_eq_zero, List.mem_filter]
      simp
    · refine .next 0 ?_ ?_ (.inl rfl)
      · rw [show ({ s with toOffice := s.toOffice.setDb db', undecided := _ } : Docket).db.standing other =
          s.db.standing other from hothers other hid]
        exact .stays _
      · exact List.count_filter (by simpa using hid)
  refine ⟨⟨hkeys h.keys, h.once, fun row hrow => ?_, fun other => (hturned other).counted (h.counted other)⟩, hturned⟩
  obtain ⟨y, hy, hopen⟩ := h.isOpen row hrow
  have hne : row.settlement_id ≠ id := by
    rintro rfl
    rw [hx] at hy
    cases hy
    rw [hfailed] at hopen
    cases hopen
  exact ⟨y, (hothers _ hne).trans hy, hopen⟩

/-- Every call but a record from elsewhere. -/
theorem Sound.step (h : s.Sound) (hmove : move.isRecord = false) (hstep : s.step sha256 venue limit move = some s') :
    s.Goes move s' := by
  cases step_stepped hstep with
  | keeps hk htick hcalls hundecided =>
    obtain htick | htick | ⟨limit, nowMs, htick⟩ := htick
    · exact h.keep hk (by rw [htick]; exact h.once) (by rw [htick]; exact h.open_of_keeps hk) hcalls hundecided
    · refine h.keep hk (by rw [htick]; exact List.nodup_nil) (fun row hrow => ?_) hcalls hundecided
      rw [htick] at hrow
      exact absurd hrow List.not_mem_nil
    · obtain ⟨honce, hdue⟩ := Database.pending_open (hk.keys h.keys) limit nowMs
      refine h.keep hk (by rw [htick]; exact honce) (fun row hrow => ?_) hcalls hundecided
      rw [htick] at hrow
      obtain ⟨hget, hopen⟩ := hdue row hrow
      refine ⟨row.standing, Database.standing_of_get hget, ?_⟩
      rcases hopen with hopen | hopen | hopen <;> rw [SettlementRow.standing, hopen] <;> rfl
  | done _ => exact h.idle
  | advance htick => exact h.advance htick
  | submit hleft => exact h.submit hleft
  | record hleft => exact h.record hleft
  | release hrelease => exact h.release hrelease
  | recorded _ => cases hmove

end Docket

end Steps

/-! ## Runs -/

section Runs
variable {sha256 : String → String} {venue id : String} {limit : Nat} {run : RunId} {db db' : Database} {s s' : Docket}
  {move : DocketMove} {x : Standing}

/-- No record takes a confirmation back. -/
theorem Database.record_keeps_confirmed {call : RecordCall} (h : db.record call = .ok db') (hx : db.standing id = some x)
    (hconfirmed : x.status = .confirmed) : db'.standing id = some x := by
  have hkept {settlementId : String} {rewrite : SettlementRow → SettlementRow} (hr : db.Rewrites settlementId rewrite db')
      (hrow : ∀ row : SettlementRow, row.status = .confirmed → rewrite row = row) : db'.standing id = some x := by
    by_cases hid : id = settlementId
    · subst hid
      obtain ⟨row, hget, hget'⟩ := hr.here
      rw [standing_of_get hget] at hx
      cases hx
      rw [standing_of_get hget', hrow row hconfirmed]
    · rw [standing, hr.others id hid]
      exact hx
  have hturn (options : TransitionOptions) (next : SettlementStatus) (row : SettlementRow) (hrow : row.status = .confirmed) :
      options.turn next row = row :=
    if_pos hrow
  cases call with
  | attempt _ => exact hkept (transition_rewrites h) (hturn _ _)
  | confirmed _ _ => exact hkept (transition_rewrites h) (hturn _ _)
  | unknown _ _ _ => exact hkept (recordUnknown_rewrites h) fun row hrow => if_pos (.inl hrow)
  | failed _ _ => exact hkept (transition_rewrites h) (hturn _ _)
  | needsOperator _ _ => exact hkept (transition_rewrites h) (hturn _ _)

/-- What the dispatcher writes are records. -/
def Database.Recorded (db db' : Database) : Prop := db' = db ∨ ∃ call, db.record call = .ok db'

theorem Office.proceed_recorded (office : Office) (call : RecordCall) (tick : Tick) :
    office.db.Recorded (office.proceed (office.db.record call) tick).db := by
  cases hrecord : office.db.record call with
  | ok db' => exact .inr ⟨call, hrecord⟩
  | error _ => exact .inl rfl

theorem Office.record_recorded (office : Office) (row : SettlementRow) (left : List SettlementRow) (nowMs : Nat)
    (outcome : SubmitOutcome) : office.db.Recorded (office.record row left nowMs outcome).db := by
  cases outcome with
  | confirmed receipt | alreadyApplied receipt => exact proceed_recorded office (.confirmed row.settlement_id receipt) _
  | unknown reason => exact proceed_recorded office (.unknown nowMs row.settlement_id reason) _
  | notFound => exact proceed_recorded office (.unknown nowMs row.settlement_id "venue holds no receipt") _
  | rejected reason => exact proceed_recorded office (.failed row.settlement_id reason) _

theorem Office.submit_recorded (office : Office) (row : SettlementRow) (manifest : Manifest) (left : List SettlementRow) :
    office.db.Recorded (office.submit row manifest left).db :=
  proceed_recorded office (.attempt row.settlement_id) _

theorem Office.advance_recorded (office : Office) (row : SettlementRow) (left : List SettlementRow) :
    office.db.Recorded (office.advance sha256 row left).db := by
  rw [Office.advance]
  split
  · exact proceed_recorded office (.needsOperator row.settlement_id _) _
  · exact .inl rfl
  · split
    · exact .inl rfl
    · exact submit_recorded ..

theorem Docket.confirmed_of_recorded (h : db.Recorded db') (hx : db.standing id = some x) (hconfirmed : x.status = .confirmed) :
    db'.standing id = some x := by
  obtain rfl | ⟨call, hrecord⟩ := h
  · exact hx
  · exact Database.record_keeps_confirmed hrecord hx hconfirmed

theorem Docket.confirmed_of_keeps (h : db.Keeps db') (hx : db.standing id = some x) : db'.standing id = some x := by
  obtain hsame | ⟨hnone, -⟩ := h.rows id
  · exact hsame.trans hx
  · rw [hnone] at hx
    cases hx

/-- A confirmation stays, whatever is called. -/
theorem Docket.step_keeps_confirmed (hstep : s.step sha256 venue limit move = some s') (hx : s.db.standing id = some x)
    (hconfirmed : x.status = .confirmed) : s'.db.standing id = some x := by
  cases Docket.step_stepped hstep with
  | keeps hk _ _ _ => exact confirmed_of_keeps hk hx
  | done _ => exact hx
  | advance _ => exact confirmed_of_recorded (Office.advance_recorded ..) hx hconfirmed
  | submit _ => exact confirmed_of_recorded (Office.submit_recorded ..) hx hconfirmed
  | record _ => exact confirmed_of_recorded (Office.record_recorded ..) hx hconfirmed
  | release hrelease =>
    obtain ⟨⟨y, hy, hfailed⟩, -, hothers, -⟩ := Database.releaseFailed_rows hrelease
    refine (hothers id fun hid => ?_).trans hx
    rw [hid, hy] at hx
    cases hx
    rw [hconfirmed] at hfailed
    cases hfailed
  | recorded hrecord => exact Database.record_keeps_confirmed hrecord hx hconfirmed

theorem Docket.Sound.init (run : RunId) : (Docket.init run).Sound :=
  ⟨List.nodup_nil, List.nodup_nil, fun _ hrow => absurd hrow List.not_mem_nil, fun _ => rfl⟩

/-- A row that is not open stays as it is until it is released, and the venue is not called for it. -/
theorem Docket.Turned.closed (h : Docket.Turned s s' move id) (hx : s.db.standing id = some x) (hclosed : x.status.isOpen = false)
    (hkept : move ≠ .releaseFailed id ∨ x.status ≠ .failed) :
    s'.db.standing id = some x ∧ s'.callsOf id = s.callsOf id := by
  cases h with
  | next ended hnext _ hcalls =>
    constructor
    · rw [hx] at hnext
      generalize s'.db.standing id = x' at hnext ⊢
      cases hnext with
      | stays => rfl
      | attempted hopen | confirmed hopen | failed hopen | undecided hopen _ | exhausted hopen | conflict hopen =>
        rw [hclosed] at hopen
        cases hopen
    · refine hcalls.resolve_right fun hopen => ?_
      obtain ⟨y, hy, hopen⟩ := hopen
      rw [hx] at hy
      cases hy
      rw [hclosed] at hopen
      cases hopen
  | released hrelease hy hfailed _ _ _ =>
    rw [hx] at hy
    cases hy
    exact hkept.elim (absurd hrelease) (absurd hfailed)

theorem Docket.closed_of_reach (h : s.Sound) (hx : s.db.standing id = some x) (hclosed : x.status.isOpen = false)
    (hreach : Reach (Docket.step sha256 venue limit)
      (fun _ move => move.isRecord = false ∧ (move ≠ .releaseFailed id ∨ x.status ≠ .failed)) s s') :
    s'.db.standing id = some x ∧ s'.callsOf id = s.callsOf id := by
  have hinv := hreach.inv (fun t => t.Sound ∧ t.db.standing id = some x ∧ t.callsOf id = s.callsOf id) ⟨h, hx, rfl⟩ ?_
  · exact hinv.2
  · rintro t move t' ⟨hsound, ht, hcalls⟩ ⟨hmove, hkept⟩ hstep
    have hgoes := hsound.step hmove hstep
    obtain ⟨ht', hcalls'⟩ := (hgoes.turned id).closed ht hclosed hkept
    exact ⟨hgoes.sound, ht', hcalls'.trans hcalls⟩

/-- A confirmed row keeps its receipt, whatever is recorded later. Of what ticks, batches and releases lead to: a failed
row stays until it is released; a row that was left to the operator is not brought to the venue again and cannot be
released; and no row is left undecided by more ticks than there are automatic attempts. -/
theorem settlement_rows_live (run : RunId) (id : String) :
    (∀ (s s' : Docket) (row : SettlementRow), s.db.get id = some row → row.status = .confirmed →
      Reach (Docket.step sha256 venue limit) (fun _ _ => True) s s' →
      ∃ row', s'.db.get id = some row' ∧ row'.status = .confirmed ∧ row'.receipt = row.receipt) ∧
    ∀ s, Reach (Docket.step sha256 venue limit) (fun _ move => move.isRecord = false) (.init run) s →
      (s.db.status id = some .failed → ∀ s',
        Reach (Docket.step sha256 venue limit) (fun _ move => move.isRecord = false ∧ move ≠ .releaseFailed id) s s' →
        s'.db.status id = some .failed) ∧
      (s.db.status id = some .needs_operator → ∀ s',
        Reach (Docket.step sha256 venue limit) (fun _ move => move.isRecord = false) s s' →
        s'.callsOf id = s.callsOf id ∧ s'.db.releaseFailed id = .error (.CannotBeRequeued id .needs_operator)) ∧
      s.undecided.count id ≤ MAX_AUTO_ATTEMPTS := by
  refine ⟨fun s s' row hget hconfirmed hreach => ?_, fun s hreach => ?_⟩
  · have hstanding := hreach.inv (fun t => t.db.standing id = some row.standing) (Database.standing_of_get hget)
      fun t move t' ht _ hstep => Docket.step_keeps_confirmed hstep ht hconfirmed
    obtain ⟨row', hget', hsame⟩ := Option.map_eq_some_iff.1 hstanding
    refine ⟨row', hget', ?_, ?_⟩
    · exact (congrArg Standing.status hsame).trans hconfirmed
    · exact congrArg Standing.receipt hsame
  · have hsound := hreach.inv Docket.Sound (.init run) fun t move t' ht hmove hstep => (ht.step hmove hstep).sound
    refine ⟨fun hfailed s' hrest => ?_, fun hgiven s' hrest => ?_, (hsound.counted id).le⟩
    · rw [Database.status_eq_standing] at hfailed ⊢
      obtain ⟨x, hx, hstatus⟩ := Option.map_eq_some_iff.1 hfailed
      have hclosed : x.status.isOpen = false := by rw [hstatus]; rfl
      have hkept := Docket.closed_of_reach hsound hx hclosed (hrest.weaken fun _ _ hok => ⟨hok.1, .inl hok.2⟩)
      rw [hkept.1, Option.map_some, hstatus]
    · rw [Database.status_eq_standing] at hgiven
      obtain ⟨x, hx, hstatus⟩ := Option.map_eq_some_iff.1 hgiven
      have hclosed : x.status.isOpen = false := by rw [hstatus]; rfl
      have hunfailed : x.status ≠ .failed := by rw [hstatus]; simp
      have hkept := Docket.closed_of_reach hsound hx hclosed (hrest.weaken fun _ _ hok => ⟨hok, .inr hunfailed⟩)
      refine ⟨hkept.2, ?_⟩
      obtain ⟨row, hget, hrow⟩ := Option.map_eq_some_iff.1 hkept.1
      have hoperator : row.status = .needs_operator := (congrArg Standing.status hrow).trans hstatus
      rw [Database.releaseFailed, hget]
      simp [hoperator]

/-- One trade to settle. -/
def oneTrade : Database :=
  { Database.migrate with trades := [⟨0, 1, 1, 1, 1, 1, 1, 2, .Buy, 100, 1, none⟩] }

/-- A tick that gets no answer, and the next one is due at once. -/
def unansweredTick : List DocketMove := [.tick 50 0, .advance, .answer (.unknown "timed out") 0, .advance, .makeDue none]

/-- Eight ticks without an answer leave the settlement to the operator, and it stays there. -/
theorem settlement_rows_live_small :
    ∃ s, Reach (Docket.step (fun text => text) "sim" 0) (fun _ move => move.isRecord = false) (.init 1) s ∧
      s.db.status "stl_sim|0|1|1" = some .needs_operator ∧ s.undecided.count "stl_sim|0|1|1" = MAX_AUTO_ATTEMPTS ∧
      ∀ s', Reach (Docket.step (fun text => text) "sim" 0) (fun _ move => move.isRecord = false) s s' →
        s'.callsOf "stl_sim|0|1|1" = s.callsOf "stl_sim|0|1|1" := by
  have hwalk : ∃ s ∈ walk (Docket.step (fun text => text) "sim" 0) (fun _ move => move.isRecord = false) (.init 1)
      (.others oneTrade :: (List.replicate 8 unansweredTick).flatten),
      s.db.status "stl_sim|0|1|1" = some .needs_operator ∧ s.undecided.count "stl_sim|0|1|1" = MAX_AUTO_ATTEMPTS := by
    decide +kernel
  obtain ⟨s, hs, hgiven, hcount⟩ := hwalk
  have hreach := reach_of_walk hs
  obtain ⟨-, hlive⟩ := @settlement_rows_live (fun text => text) "sim" 0 1 "stl_sim|0|1|1"
  exact ⟨s, hreach, hgiven, hcount, fun s' hrest => ((hlive s hreach).2.1 hgiven s' hrest).1⟩

end Runs

end TradingLab
