import TradingLab.Lib.Sorting
import TradingLab.Dispatcher
/-!
# Batches and their manifests

A settlement's identity is made from the range of its trades, its manifest from the
trades themselves, and the trades are claimed by range. That these agree, in whatever
order trades arrive and batches are made, recorded and released, is what makes a retry
send the same bytes.
-/
open LabLib

namespace TradingLab

/-! ## Identities -/

/-- What `settlementIdFor` hashes. -/
def identityText (venue : String) (runId : RunId) (firstTradeId lastTradeId : TradeId) : String :=
  venue ++ "|" ++ toString runId ++ "|" ++ toString firstTradeId ++ "|" ++ toString lastTradeId

theorem toString_tradeId_inj {a b : TradeId} (h : (toString a).toList = (toString b).toList) : a = b := by
  have hrepr : a.toNat.repr = b.toNat.repr := String.toList_injective h
  exact UInt64.toNat_inj.1 (Nat.repr_injective hrepr)

theorem bar_notMem_toString (a : TradeId) : '|' ∉ (toString a).toList := by
  intro hmem
  change '|' ∈ a.toNat.repr.toList at hmem
  rw [Nat.toList_repr] at hmem
  exact absurd (Nat.isDigit_of_mem_toDigits (by omega) le_rfl hmem) (by decide)

/-- The text says which trades are the first and the last. -/
theorem identityText_inj {venue : String} {runId : RunId} {first last first' last' : TradeId}
    (h : identityText venue runId first last = identityText venue runId first' last') : first = first' ∧ last = last' := by
  have hlist := congrArg String.toList h
  simp only [identityText, String.toList_append, List.append_assoc, List.append_cancel_left_eq] at hlist
  have hbar : "|".toList = ['|'] := rfl
  rw [hbar, List.singleton_append, List.singleton_append] at hlist
  obtain ⟨hfirst, -, hlast⟩ :=
    (List.append_cons_inj_of_notMem (bar_notMem_toString first) (bar_notMem_toString last)).1 hlist
  exact ⟨toString_tradeId_inj hfirst, toString_tradeId_inj hlast⟩

/-! ## A batch -/

section Batches
variable (sha256 : String → String) (venue : String)

/-- The manifest that `createBatch` hashes, if there is anything to settle. -/
def Database.batchManifest (batchSize : Int) (db : Database) : Option Manifest :=
  match db.unsettled batchSize with
  | [] => none
  | row :: rest =>
    let first := row.trade_id
    let last := (rest.getLastD row).trade_id
    some {
      venue := venue
      settlementId := settlementIdFor sha256 venue first last db.state.run_id
      firstTradeId := first
      lastTradeId := last
      trades := (row :: rest).map TradeRow.manifestTrade }

/-- The row that goes into the table with it. -/
def Manifest.row (manifest : Manifest) : SettlementRow where
  settlement_id := manifest.settlementId
  venue := manifest.venue
  status := .pending
  manifest_hash := manifestHash sha256 manifest
  first_trade_id := manifest.firstTradeId
  last_trade_id := manifest.lastTradeId
  trade_count := manifest.trades.length
  attempts := 0
  next_attempt_at_ms := 0
  receipt := none
  last_error := none

/-- The two writes of `createBatch`. -/
def Database.writeBatch (db : Database) (manifest : Manifest) : Database :=
  (db.insert_settlement (manifest.row sha256)).claim manifest.settlementId manifest.firstTradeId manifest.lastTradeId

theorem Database.createBatch_eq (batchSize : Int) (db : Database) :
    db.createBatch sha256 venue batchSize =
      match db.batchManifest sha256 venue batchSize with
      | none => .ok (db, none)
      | some manifest =>
        if (db.get manifest.settlementId).any fun existing => existing.manifest_hash ≠ manifestHash sha256 manifest then
          .error (.ManifestConflict manifest.settlementId)
        else .ok (db.writeBatch sha256 manifest, (db.writeBatch sha256 manifest).get manifest.settlementId) := by
  cases hrows : db.unsettled batchSize with
  | nil => simp only [createBatch, batchManifest, hrows]
  | cons row rest =>
    simp only [createBatch, batchManifest, hrows, writeBatch, Manifest.row, List.length_map]

/-! ## Runs of the outbox -/

inductive OutboxCall where
  | applyTrade (event : TradeEvent)
  | createBatch (batchSize : Int)
  | recordAttempt (settlementId : String)
  | recordConfirmed (settlementId receipt : String)
  | recordUnknown (nowMs : Nat) (settlementId error : String)
  | recordFailed (settlementId error : String)
  | recordNeedsOperator (settlementId error : String)
  | makeDue (settlementId : Option String)
  | releaseFailed (settlementId : String)

def Database.call (run : RunId) (db : Database) : OutboxCall → Except OutboxError Database
  | .applyTrade event => .ok (db.applyTrade run event)
  | .createBatch batchSize => (db.createBatch sha256 venue batchSize).map Prod.fst
  | .recordAttempt settlementId => db.recordAttempt settlementId
  | .recordConfirmed settlementId receipt => db.recordConfirmed settlementId receipt
  | .recordUnknown nowMs settlementId error => db.recordUnknown nowMs settlementId error
  | .recordFailed settlementId error => db.recordFailed settlementId error
  | .recordNeedsOperator settlementId error => db.recordNeedsOperator settlementId error
  | .makeDue settlementId => .ok (db.makeDue settlementId)
  | .releaseFailed settlementId => db.releaseFailed settlementId

/-- The database, and the manifest that was hashed for each identity the last time a batch
was made under it. -/
structure OutboxHistory where
  db : Database
  hashed : String → Option Manifest

namespace OutboxHistory

/-- What the call hashes, if it makes a batch. -/
def hashes (s : OutboxHistory) : OutboxCall → Option Manifest
  | .createBatch batchSize => s.db.batchManifest sha256 venue batchSize
  | _ => none

/-- A call that throws leaves the database as it was. -/
def step (run : RunId) (s : OutboxHistory) (call : OutboxCall) : Option OutboxHistory :=
  match s.db.call sha256 venue run call with
  | .error _ => some s
  | .ok db =>
    match s.hashes sha256 venue call with
    | none => some { s with db := db }
    | some manifest => some { db := db, hashed := Function.update s.hashed manifest.settlementId (some manifest) }

/-- No digest of the run collides with that of another text. -/
def collisionFree (s : OutboxHistory) (call : OutboxCall) : Bool :=
  match s.hashes sha256 venue call with
  | none => true
  | some manifest => s.db.settlements.all fun row => row.settlement_id = manifest.settlementId →
    identityText venue s.db.state.run_id row.first_trade_id row.last_trade_id =
      identityText venue s.db.state.run_id manifest.firstTradeId manifest.lastTradeId

/-- A database without trades. -/
def init (db : Database) : OutboxHistory where
  db := { db with trades := [], settlements := [] }
  hashed _ := none

end OutboxHistory

end Batches

/-! ## Claimed trades -/

section Claimed
variable {sha256 : String → String} {venue : String} {run : RunId} {db db' : Database} {id : String}
variable {batchSize : Int} {rest : List TradeRow}

theorem limitRows_prefix {α : Type} (limit : Int) (rows : List α) : limitRows limit rows <+: rows := by
  rw [limitRows]
  split
  · exact List.prefix_rfl
  · exact List.take_prefix _ _

theorem Database.mem_claimedBy {row : TradeRow} : row ∈ db.claimedBy id ↔ row ∈ db.trades ∧ row.settlement_id = some id := by
  rw [claimedBy, mem_byTradeId, List.mem_filter, decide_eq_true_eq]

/-- A write that neither touches nor makes a trade of the settlement. -/
theorem Database.claimedBy_map {f : TradeRow → TradeRow} (htrades : db'.trades = db.trades.map f)
    (hkeep : ∀ row ∈ db.trades, row.settlement_id = some id → f row = row)
    (hnew : ∀ row ∈ db.trades, (f row).settlement_id = some id → row.settlement_id = some id) :
    db'.claimedBy id = db.claimedBy id := by
  have hfilter : db.trades.filter ((fun row => decide (row.settlement_id = some id)) ∘ f) =
      db.trades.filter fun row => row.settlement_id = some id := by
    refine List.filter_congr fun row hrow => decide_eq_decide.2 ⟨hnew row hrow, fun hid => ?_⟩
    rwa [hkeep row hrow hid]
  have hfixed : (db.trades.filter fun row => row.settlement_id = some id).map f =
      db.trades.filter fun row => row.settlement_id = some id := by
    refine (List.map_congr_left fun row hrow => ?_).trans (List.map_id _)
    rw [List.mem_filter, decide_eq_true_eq] at hrow
    exact hkeep row hrow.1 hrow.2
  rw [claimedBy, htrades, List.filter_map, hfilter, hfixed, claimedBy]

theorem Database.unsettled_between {row : TradeRow} (hkeys : (db.trades.map TradeRow.trade_id).Nodup)
    (hrows : db.unsettled batchSize = row :: rest) :
    byTradeId ((db.trades.filter fun trade => trade.settlement_id = none).filter fun trade =>
      row.trade_id ≤ trade.trade_id ∧ trade.trade_id ≤ (rest.getLastD row).trade_id) = row :: rest :=
  orderBy_between (hkeys.sublist (List.filter_sublist.map _)) (hrows ▸ limitRows_prefix _ _)

/-- The selected trades are unsettled and in the range. -/
theorem Database.mem_unsettled {row trade : TradeRow} (hkeys : (db.trades.map TradeRow.trade_id).Nodup)
    (hrows : db.unsettled batchSize = row :: rest) (htrade : trade ∈ row :: rest) :
    trade ∈ db.trades ∧ trade.settlement_id = none ∧
      row.trade_id ≤ trade.trade_id ∧ trade.trade_id ≤ (rest.getLastD row).trade_id := by
  rw [← unsettled_between hkeys hrows, mem_byTradeId, List.mem_filter, List.mem_filter, decide_eq_true_eq,
    decide_eq_true_eq] at htrade
  exact ⟨htrade.1.1, htrade.1.2, htrade.2⟩

/-- What the range claims is what was selected: the first unsettled trades. -/
theorem Database.claim_selected {row : TradeRow} (hkeys : (db.trades.map TradeRow.trade_id).Nodup)
    (hrows : db.unsettled batchSize = row :: rest) (hfree : ∀ trade ∈ db.trades, trade.settlement_id ≠ some id) :
    ((db.claim id row.trade_id (rest.getLastD row).trade_id).claimedBy id).map TradeRow.manifestTrade =
      (row :: rest).map TradeRow.manifestTrade := by
  let write (trade : TradeRow) : TradeRow :=
    if trade.settlement_id = none ∧ row.trade_id ≤ trade.trade_id ∧ trade.trade_id ≤ (rest.getLastD row).trade_id then
      { trade with settlement_id := some id }
    else trade
  have hwrite (trade : TradeRow) : (write trade).trade_id = trade.trade_id ∧ (write trade).manifestTrade = trade.manifestTrade := by
    simp only [write]
    split <;> exact ⟨rfl, rfl⟩
  have hclaimed : db.trades.filter ((fun trade => decide (trade.settlement_id = some id)) ∘ write) =
      (db.trades.filter fun trade => trade.settlement_id = none).filter fun trade =>
        row.trade_id ≤ trade.trade_id ∧ trade.trade_id ≤ (rest.getLastD row).trade_id := by
    rw [List.filter_filter]
    refine List.filter_congr fun trade htrade => ?_
    rw [Bool.eq_iff_iff, Bool.and_eq_true, decide_eq_true_eq, decide_eq_true_eq, Function.comp, decide_eq_true_eq]
    simp only [write]
    split
    · rename_i hrange
      exact ⟨fun _ => ⟨hrange.2, hrange.1⟩, fun _ => rfl⟩
    · rename_i hrange
      exact ⟨fun hid => absurd hid (hfree trade htrade), fun h => absurd ⟨h.2, h.1⟩ hrange⟩
  have hsorted := unsettled_between hkeys hrows
  have hclaimedBy : (db.claim id row.trade_id (rest.getLastD row).trade_id).claimedBy id = (row :: rest).map write := by
    change orderBy TradeRow.trade_id ((db.trades.map write).filter _) = _
    rw [List.filter_map, hclaimed, orderBy_map fun trade => (hwrite trade).1]
    exact congrArg (List.map write) hsorted
  rw [hclaimedBy, List.map_map]
  exact List.map_congr_left fun trade _ => (hwrite trade).2

/-- A claim leaves the trades of the other settlements. -/
theorem Database.claimedBy_claim {other : String} (hne : other ≠ id) (first last : TradeId) :
    (db.claim id first last).claimedBy other = db.claimedBy other := by
  refine claimedBy_map rfl (fun row _ hrow => if_neg fun hfree => ?_) fun row _ hrow => ?_
  · cases hrow.symm.trans hfree.1
  · split at hrow
    · exact absurd (Option.some.inj hrow).symm hne
    · exact hrow

/-! ## The invariant -/

/-- What stays in a settlement's row as long as it is there. -/
structure Batch where
  settlement_id : String
  venue : String
  manifest_hash : String
  first_trade_id : TradeId
  last_trade_id : TradeId
  trade_count : Nat

def SettlementRow.batch (row : SettlementRow) : Batch where
  settlement_id := row.settlement_id
  venue := row.venue
  manifest_hash := row.manifest_hash
  first_trade_id := row.first_trade_id
  last_trade_id := row.last_trade_id
  trade_count := row.trade_count

variable (sha256 venue) in
/-- The row was made with the manifest, and the manifest has just the trades that carry its
identity. -/
structure Covers (db : Database) (batch : Batch) (manifest : Manifest) : Prop where
  batch : batch = (manifest.row sha256).batch
  identity : manifest.settlementId =
    settlementIdFor sha256 venue manifest.firstTradeId manifest.lastTradeId db.state.run_id
  trades : (db.claimedBy manifest.settlementId).map TradeRow.manifestTrade = manifest.trades
  first : ∃ trade ∈ manifest.trades, trade.tradeId = manifest.firstTradeId
  range : ∀ trade ∈ manifest.trades, manifest.firstTradeId ≤ trade.tradeId ∧ trade.tradeId ≤ manifest.lastTradeId

variable (sha256 venue) in
structure Accounted (run : RunId) (s : OutboxHistory) : Prop where
  tidy : s.db.Tidy run
  rows : ∀ batch ∈ s.db.settlements.map SettlementRow.batch,
    ∃ manifest, s.hashed batch.settlement_id = some manifest ∧ Covers sha256 venue s.db batch manifest
  claimed : ∀ row ∈ s.db.trades, ∀ id, row.settlement_id = some id → id ∈ s.db.settlements.map SettlementRow.settlement_id

variable {s : OutboxHistory} {batch : Batch} {manifest : Manifest}

theorem Covers.frame (h : Covers sha256 venue db batch manifest) (hrun : db'.state.run_id = db.state.run_id)
    (hclaimed : db'.claimedBy manifest.settlementId = db.claimedBy manifest.settlementId) :
    Covers sha256 venue db' batch manifest where
  batch := h.batch
  identity := hrun ▸ h.identity
  trades := hclaimed ▸ h.trades
  first := h.first
  range := h.range

/-- A transaction that claims nothing, releases nothing and leaves the batches. -/
theorem Accounted.frame (h : Accounted sha256 venue run s) {run' : RunId} (htidy : db'.Tidy run')
    (hrun : db'.state.run_id = s.db.state.run_id)
    (hclaimed : ∀ id, db'.claimedBy id = s.db.claimedBy id)
    (hbatches : db'.settlements.map SettlementRow.batch = s.db.settlements.map SettlementRow.batch) :
    Accounted sha256 venue run' { s with db := db' } where
  tidy := htidy
  rows batch hbatch := by
    obtain ⟨manifest, hhashed, hcovers⟩ := h.rows batch (hbatches ▸ hbatch)
    exact ⟨manifest, hhashed, hcovers.frame hrun (hclaimed _)⟩
  claimed row hrow id hid := by
    have hids : db'.settlements.map SettlementRow.settlement_id = s.db.settlements.map SettlementRow.settlement_id := by
      have hmap := congrArg (List.map Batch.settlement_id) hbatches
      rwa [List.map_map, List.map_map] at hmap
    have hmem : row ∈ db'.claimedBy id := Database.mem_claimedBy.2 ⟨hrow, hid⟩
    rw [hclaimed, Database.mem_claimedBy] at hmem
    exact hids ▸ h.claimed row hmem.1 id hid

/-! ## What each call keeps -/

theorem Database.claimedBy_congr (h : db'.trades = db.trades) (id : String) : db'.claimedBy id = db.claimedBy id := by
  rw [claimedBy, h, claimedBy]

theorem Database.transition_batches {next : SettlementStatus} {options : TransitionOptions}
    (h : db.transition id next options = .ok db') :
    db'.settlements.map SettlementRow.batch = db.settlements.map SettlementRow.batch := by
  rw [transition] at h
  split at h
  · cases h
  · split at h
    · cases h
      rfl
    · split at h
      · cases h
        rfl
      · cases h
        exact map_amend _ fun _ _ _ => rfl

theorem Database.recordUnknown_batches {nowMs : Nat} {error : String} (h : db.recordUnknown nowMs id error = .ok db') :
    db'.settlements.map SettlementRow.batch = db.settlements.map SettlementRow.batch := by
  rw [recordUnknown] at h
  split at h
  · cases h
  · split at h
    · cases h
      rfl
    · dsimp only at h
      split at h <;> exact transition_batches h

theorem Accounted.restated {change : SettlementStatus → SettlementStatus} (h : Accounted sha256 venue run s)
    (hr : s.db.Restated id change db')
    (hbatches : db'.settlements.map SettlementRow.batch = s.db.settlements.map SettlementRow.batch) :
    Accounted sha256 venue run { s with db := db' } :=
  h.frame (h.tidy.restated hr) (congrArg ProjectionState.run_id hr.state) (Database.claimedBy_congr hr.trades) hbatches

theorem Accounted.makeDue (h : Accounted sha256 venue run s) (settlementId : Option String) :
    Accounted sha256 venue run { s with db := s.db.makeDue settlementId } := by
  have htidy := (makeDue_grows s.db settlementId).tidy h.tidy
  cases settlementId with
  | none => exact h.frame htidy rfl (fun _ => rfl) (by simp [Database.makeDue, SettlementRow.batch])
  | some settlementId => exact h.frame htidy rfl (fun _ => rfl) (map_amend _ fun _ _ _ => rfl)

/-- A trade arrives unsettled. -/
theorem Accounted.applyTrade (h : Accounted sha256 venue run s) (event : TradeEvent) :
    Accounted sha256 venue run { s with db := s.db.applyTrade run event } := by
  have htidy := (applyEvent_grows s.db (.Trade event)).tidy h.tidy
  rw [Database.applyEvent] at htidy
  refine h.frame htidy (congrArg ProjectionState.run_id (state_applyEvent s.db run (.Trade event))) (fun id => ?_) ?_
  · rw [Database.claimedBy, Database.claimedBy]
    simp only [Database.applyTrade, Database.addPosition, Database.insert_trade]
    split
    · rfl
    · simp
  · simp only [Database.applyTrade, Database.addPosition, Database.insert_trade]
    split <;> rfl

theorem Accounted.releaseFailed (h : Accounted sha256 venue run s) (hok : s.db.releaseFailed id = .ok db') :
    Accounted sha256 venue run { s with db := db' } := by
  have htidy := (Database.releaseFailed_releases hok).run run h.tidy
  rw [Database.releaseFailed] at hok
  split at hok
  · cases hok
  · split at hok
    · cases hok
    · cases hok
      refine ⟨htidy, fun batch hbatch => ?_, fun row hrow other hother => ?_⟩
      · obtain ⟨old, hold, rfl⟩ := List.mem_map.1 hbatch
        obtain ⟨hmem, hne⟩ := mem_without.1 hold
        obtain ⟨manifest, hhashed, hcovers⟩ := h.rows _ (List.mem_map_of_mem hmem)
        have hid : manifest.settlementId ≠ id := by
          have hbatch := congrArg Batch.settlement_id hcovers.batch
          exact fun heq => hne (hbatch.trans heq)
        refine ⟨manifest, hhashed, hcovers.frame rfl (Database.claimedBy_map rfl (fun row _ hrow => ?_) fun row _ hrow => ?_)⟩
        · exact if_neg fun heq => hid (Option.some.inj (hrow.symm.trans heq))
        · split at hrow
          · cases hrow
          · exact hrow
      · obtain ⟨old, hold, rfl⟩ := List.mem_map.1 hrow
        split at hother
        · cases hother
        · rename_i hne
          obtain ⟨settlement, hsettlement, rfl⟩ := List.mem_map.1 (h.claimed old hold other hother)
          refine List.mem_map_of_mem (mem_without.2 ⟨hsettlement, fun heq => hne ?_⟩)
          rw [hother, heq]

theorem Database.batchManifest_eq (h : db.batchManifest sha256 venue batchSize = some manifest) :
    ∃ row rest, db.unsettled batchSize = row :: rest ∧ manifest = {
      venue := venue
      settlementId := settlementIdFor sha256 venue row.trade_id (rest.getLastD row).trade_id db.state.run_id
      firstTradeId := row.trade_id
      lastTradeId := (rest.getLastD row).trade_id
      trades := (row :: rest).map TradeRow.manifestTrade } := by
  rw [batchManifest] at h
  split at h
  · cases h
  · rename_i row rest hrows
    exact ⟨row, rest, hrows, (Option.some.inj h).symm⟩

/-- A new batch has a new identity: a settlement with the same one would have its first
trade, which is unsettled. -/
theorem Accounted.fresh (h : Accounted sha256 venue run s)
    (hmanifest : s.db.batchManifest sha256 venue batchSize = some manifest)
    (hfree : s.collisionFree sha256 venue (.createBatch batchSize) = true) :
    manifest.settlementId ∉ s.db.settlements.map SettlementRow.settlement_id := by
  intro hmem
  obtain ⟨row, hrow, hid⟩ := List.mem_map.1 hmem
  rw [OutboxHistory.collisionFree, OutboxHistory.hashes, hmanifest] at hfree
  have htext := of_decide_eq_true (List.all_eq_true.1 hfree row hrow) hid
  have hfirst : row.first_trade_id = manifest.firstTradeId := (identityText_inj htext).1
  obtain ⟨old, -, hcovers⟩ := h.rows _ (List.mem_map_of_mem hrow)
  obtain ⟨trade, htrade, hold⟩ := hcovers.first
  rw [← hcovers.trades] at htrade
  obtain ⟨claimed, hclaimed, rfl⟩ := List.mem_map.1 htrade
  rw [Database.mem_claimedBy] at hclaimed
  obtain ⟨first, rest, hrows, rfl⟩ := Database.batchManifest_eq hmanifest
  obtain ⟨hin, hnone, -⟩ := Database.mem_unsettled h.tidy.trades hrows List.mem_cons_self
  have hkey : claimed.trade_id = first.trade_id :=
    hold.trans ((congrArg Batch.first_trade_id hcovers.batch).symm.trans hfirst)
  rw [List.inj_on_of_nodup_map h.tidy.trades hclaimed.1 hin hkey, hnone] at hclaimed
  cases hclaimed.2

theorem Accounted.get_fresh (h : Accounted sha256 venue run s)
    (hmanifest : s.db.batchManifest sha256 venue batchSize = some manifest)
    (hfree : s.collisionFree sha256 venue (.createBatch batchSize) = true) : s.db.get manifest.settlementId = none := by
  refine List.find?_eq_none.2 fun row hrow => ?_
  rw [decide_eq_true_eq]
  exact fun heq => h.fresh hmanifest hfree (heq ▸ List.mem_map_of_mem hrow)

theorem Accounted.createBatch (h : Accounted sha256 venue run s)
    (hmanifest : s.db.batchManifest sha256 venue batchSize = some manifest)
    (hfree : s.collisionFree sha256 venue (.createBatch batchSize) = true) :
    s.db.createBatch sha256 venue batchSize =
        .ok (s.db.writeBatch sha256 manifest, (s.db.writeBatch sha256 manifest).get manifest.settlementId) ∧
      Accounted sha256 venue run {
        db := s.db.writeBatch sha256 manifest
        hashed := Function.update s.hashed manifest.settlementId (some manifest) } := by
  have hnew := h.fresh hmanifest hfree
  have hget := h.get_fresh hmanifest hfree
  have hok : s.db.createBatch sha256 venue batchSize =
      .ok (s.db.writeBatch sha256 manifest, (s.db.writeBatch sha256 manifest).get manifest.settlementId) := by
    rw [Database.createBatch_eq, hmanifest]
    simp only [hget, Option.any_none, Bool.false_eq_true, if_false]
  have hwrite : s.db.writeBatch sha256 manifest =
      { s.db with settlements := s.db.settlements ++ [manifest.row sha256] : Database }.claim
        manifest.settlementId manifest.firstTradeId manifest.lastTradeId := by
    rw [Database.writeBatch, Database.insert_settlement]
    simp only [Manifest.row, hget, Option.isSome_none, Bool.false_eq_true, if_false]
  refine ⟨hok, (Database.createBatch_claims hok).run run h.tidy, ?_, ?_⟩
  · rw [hwrite]
    intro batch hbatch
    rcases List.mem_append.1 (List.map_append.symm ▸ hbatch) with hold | hlast
    · obtain ⟨old, hhashed, hcovers⟩ := h.rows batch hold
      have hid : batch.settlement_id = old.settlementId := congrArg Batch.settlement_id hcovers.batch
      have hne : batch.settlement_id ≠ manifest.settlementId := by
        obtain ⟨row, hrow, rfl⟩ := List.mem_map.1 hold
        exact fun heq => hnew (heq ▸ List.mem_map_of_mem hrow)
      refine ⟨old, (Function.update_of_ne hne _ _).trans hhashed, hcovers.frame rfl ?_⟩
      exact Database.claimedBy_claim (hid ▸ hne) _ _
    · rw [List.map_singleton, List.mem_singleton] at hlast
      subst hlast
      obtain ⟨row, rest, hrows, rfl⟩ := Database.batchManifest_eq hmanifest
      have hunclaimed : ∀ trade ∈ s.db.trades, trade.settlement_id ≠ some _ := fun trade htrade hid =>
        hnew (h.claimed trade htrade _ hid)
      have hselected {trade : TradeRow} (htrade : trade ∈ row :: rest) := Database.mem_unsettled h.tidy.trades hrows htrade
      refine ⟨_, Function.update_self _ _ _, rfl, rfl, Database.claim_selected h.tidy.trades hrows hunclaimed, ?_, ?_⟩
      · exact ⟨row.manifestTrade, List.mem_map_of_mem List.mem_cons_self, rfl⟩
      · intro trade htrade
        obtain ⟨old, hold, rfl⟩ := List.mem_map.1 htrade
        exact (hselected hold).2.2
  · rw [hwrite]
    intro row hrow id hid
    obtain ⟨old, hold, rfl⟩ := List.mem_map.1 hrow
    change id ∈ (s.db.settlements ++ [manifest.row sha256]).map SettlementRow.settlement_id
    rw [List.map_append, List.map_singleton, List.mem_append, List.mem_singleton]
    split at hid
    · exact .inr (Option.some.inj hid).symm
    · exact .inl (h.claimed old hold id hid)

/-! ## Runs -/

theorem Accounted.init (db : Database) : Accounted sha256 venue run (.init db) where
  tidy := ⟨nofun, List.nodup_nil, List.nodup_nil⟩
  rows := nofun
  claimed := nofun

theorem Accounted.step {s' : OutboxHistory} {call : OutboxCall} (h : Accounted sha256 venue run s)
    (hfree : s.collisionFree sha256 venue call = true) (hs : s.step sha256 venue run call = some s') :
    Accounted sha256 venue run s' := by
  rw [OutboxHistory.step] at hs
  split at hs
  · cases hs
    exact h
  rename_i db hcall
  cases call with
  | createBatch batchSize =>
    rw [Database.call] at hcall
    rw [OutboxHistory.hashes] at hs
    cases hmanifest : s.db.batchManifest sha256 venue batchSize with
    | none =>
      rw [Database.createBatch_eq, hmanifest] at hcall
      rw [hmanifest] at hs
      cases hcall
      cases hs
      exact h
    | some manifest =>
      obtain ⟨hok, hkept⟩ := h.createBatch hmanifest hfree
      rw [hok] at hcall
      rw [hmanifest] at hs
      cases hcall
      cases hs
      exact hkept
  | applyTrade event =>
    cases hs
    cases hcall
    exact h.applyTrade event
  | recordAttempt settlementId =>
    cases hs
    exact h.restated (Database.transition_restates hcall) (Database.transition_batches hcall)
  | recordConfirmed settlementId receipt =>
    cases hs
    exact h.restated (Database.transition_restates hcall) (Database.transition_batches hcall)
  | recordUnknown nowMs settlementId error =>
    cases hs
    obtain ⟨next, -, hr⟩ := Database.recordUnknown_restates hcall
    exact h.restated hr (Database.recordUnknown_batches hcall)
  | recordFailed settlementId error =>
    cases hs
    exact h.restated (Database.transition_restates hcall) (Database.transition_batches hcall)
  | recordNeedsOperator settlementId error =>
    cases hs
    exact h.restated (Database.transition_restates hcall) (Database.transition_batches hcall)
  | makeDue settlementId =>
    cases hs
    cases hcall
    exact h.makeDue settlementId
  | releaseFailed settlementId =>
    cases hs
    exact h.releaseFailed hcall

theorem Covers.manifestFor {row : SettlementRow} (h : Covers sha256 venue db row.batch manifest)
    (hget : db.get row.settlement_id = some row) : db.manifestFor sha256 row.settlement_id = .ok manifest := by
  have hid : row.settlement_id = manifest.settlementId := congrArg Batch.settlement_id h.batch
  have hvenue : row.venue = manifest.venue := congrArg Batch.venue h.batch
  have hhash : row.manifest_hash = manifestHash sha256 manifest := congrArg Batch.manifest_hash h.batch
  have hfirst : row.first_trade_id = manifest.firstTradeId := congrArg Batch.first_trade_id h.batch
  have hlast : row.last_trade_id = manifest.lastTradeId := congrArg Batch.last_trade_id h.batch
  rw [Database.manifestFor, hget]
  simp only [hid, hvenue, hhash, hfirst, hlast, h.trades, ne_eq, not_true_eq_false, if_false]

/-- No call makes another batch for a settlement that is there. -/
theorem Accounted.hashed_step {s' : OutboxHistory} {call : OutboxCall} {row : SettlementRow}
    (h : Accounted sha256 venue run s) (hrow : row ∈ s.db.settlements) (hfree : s.collisionFree sha256 venue call = true)
    (hs : s.step sha256 venue run call = some s') : s'.hashed row.settlement_id = s.hashed row.settlement_id := by
  rw [OutboxHistory.step] at hs
  split at hs
  · cases hs
    rfl
  split at hs
  · cases hs
    rfl
  rename_i manifest hhashes
  cases hs
  cases call with
  | createBatch batchSize =>
    refine Function.update_of_ne (fun heq => h.fresh hhashes hfree ?_) _ _
    exact heq ▸ List.mem_map_of_mem hrow
  | _ => cases hhashes

/-- Whatever is called, and in whatever order, no trade is in two settlements, and the
trades of a settlement are those its manifest was hashed with: they are as many as its row
says, in the range it says, and the manifest can be had again until the settlement is
released. A new batch never meets another one with its identity. -/
theorem manifests_are_kept {start : Database}
    (h : Reach (OutboxHistory.step sha256 venue run) (fun s call => s.collisionFree sha256 venue call = true) (.init start) s) :
    (∀ trade id other, s.db.Claimed trade id → s.db.Claimed trade other → id = other) ∧
    (∀ row ∈ s.db.settlements,
      (s.db.claimedBy row.settlement_id).length = row.trade_count ∧
      (∀ trade ∈ s.db.claimedBy row.settlement_id,
        row.first_trade_id ≤ trade.trade_id ∧ trade.trade_id ≤ row.last_trade_id) ∧
      ∃ manifest,
        s.hashed row.settlement_id = some manifest ∧
        (s.db.claimedBy row.settlement_id).map TradeRow.manifestTrade = manifest.trades ∧
        s.db.manifestFor sha256 row.settlement_id = .ok manifest ∧
        ∀ call s', s.collisionFree sha256 venue call = true → s.step sha256 venue run call = some s' →
          s'.hashed row.settlement_id = some manifest) ∧
    (∀ id, s.db.manifestFor sha256 id ≠ .error (.ManifestConflict id)) ∧
    (∀ batchSize id, s.collisionFree sha256 venue (.createBatch batchSize) = true →
      s.db.createBatch sha256 venue batchSize ≠ .error (.ManifestConflict id)) := by
  have hkept : Accounted sha256 venue run s := h.inv _ (.init start) fun s call s' hs hfree hstep => hs.step hfree hstep
  have hrow {row : SettlementRow} (hmem : row ∈ s.db.settlements) :
      s.db.get row.settlement_id = some row := find?_key hkept.tidy.settlements hmem
  refine ⟨fun trade id other => hkept.tidy.claimed_once, fun row hmem => ?_, fun id hconflict => ?_, fun batchSize id hfree => ?_⟩
  · obtain ⟨manifest, hhashed, hcovers⟩ := hkept.rows _ (List.mem_map_of_mem hmem)
    have hid : row.settlement_id = manifest.settlementId := congrArg Batch.settlement_id hcovers.batch
    have htrades := hcovers.trades
    rw [← hid] at htrades
    refine ⟨?_, fun trade htrade => ?_, manifest, hhashed, htrades, hcovers.manifestFor (hrow hmem), ?_⟩
    · rw [show row.trade_count = manifest.trades.length from congrArg Batch.trade_count hcovers.batch, ← htrades,
        List.length_map]
    · have hrange := hcovers.range trade.manifestTrade (htrades ▸ List.mem_map_of_mem htrade)
      rwa [show row.first_trade_id = manifest.firstTradeId from congrArg Batch.first_trade_id hcovers.batch,
        show row.last_trade_id = manifest.lastTradeId from congrArg Batch.last_trade_id hcovers.batch]
    · intro call s' hfree hstep
      exact (hkept.hashed_step hmem hfree hstep).trans hhashed
  · cases hget : s.db.get id with
    | none =>
      rw [Database.manifestFor, hget] at hconflict
      cases hconflict
    | some row =>
      obtain ⟨hmem, rfl⟩ := Database.mem_of_get hget
      obtain ⟨manifest, -, hcovers⟩ := hkept.rows _ (List.mem_map_of_mem hmem)
      rw [hcovers.manifestFor hget] at hconflict
      cases hconflict
  · cases hmanifest : s.db.batchManifest sha256 venue batchSize with
    | none =>
      rw [Database.createBatch_eq, hmanifest]
      simp
    | some manifest =>
      rw [(hkept.createBatch hmanifest hfree).1]
      simp

/-- A trade of one lot. -/
def lotTrade (number : UInt64) : TradeEvent :=
  ⟨number, number, 0, number, 1, 1, 2, 1, 2, .Buy, 100, 1⟩

/-- Three batches of one trade; the first and the third are released and become one batch,
with a range that has the second in it. -/
theorem manifests_are_kept_small :
    ∃ s, Reach (OutboxHistory.step (fun text => text) "sim" 5)
        (fun s call => s.collisionFree (fun text => text) "sim" call = true) (.init .migrate) s ∧
      s.db.settlements.map (fun row => (row.first_trade_id, row.last_trade_id, row.trade_count)) = [(2, 2, 1), (1, 3, 2)] ∧
      ∀ id, s.db.manifestFor (fun text => text) id ≠ .error (.ManifestConflict id) := by
  have hwalk : ∃ s ∈ walk (OutboxHistory.step (fun text => text) "sim" 5)
      (fun s call => s.collisionFree (fun text => text) "sim" call = true) (.init .migrate)
      [.applyTrade (lotTrade 1), .applyTrade (lotTrade 2), .applyTrade (lotTrade 3), .createBatch 1, .createBatch 1,
        .createBatch 1, .recordFailed "stl_sim|0|1|1" "closed", .recordFailed "stl_sim|0|3|3" "closed",
        .releaseFailed "stl_sim|0|1|1", .releaseFailed "stl_sim|0|3|3", .createBatch 50],
      s.db.settlements.map (fun row => (row.first_trade_id, row.last_trade_id, row.trade_count)) = [(2, 2, 1), (1, 3, 2)] := by
    decide +kernel
  obtain ⟨s, hs, hrows⟩ := hwalk
  have hreach := reach_of_walk hs
  exact ⟨s, hreach, hrows, (manifests_are_kept hreach).2.2.1⟩

end Claimed

end TradingLab
