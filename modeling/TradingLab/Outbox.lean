import TradingLab.Lib.Keyed
import TradingLab.Database
/-!
# The settlement outbox

`createBatch` claims the next unsettled trades for a new settlement, `manifestFor`
tells the venue which ones they are, and `transition` keeps the status of the
settlement. A method is one transaction of the database; an error undoes it.

The numbers of a manifest are decimal texts in the source and become texts here only
when the manifest is written out. `sha256` gives the hex digits of a text's digest.
-/
open LabLib

namespace TradingLab

/-! ## Manifests -/

structure ManifestTrade where
  tradeId : TradeId
  instrument : InstrumentId
  makerAccount : AccountId
  takerAccount : AccountId
  aggressor : Side
  priceTicks : PriceTicks
  quantityLots : QuantityLots
deriving DecidableEq

structure Manifest where
  venue : String
  settlementId : String
  firstTradeId : TradeId
  lastTradeId : TradeId
  trades : List ManifestTrade
deriving DecidableEq

def TradeRow.manifestTrade (row : TradeRow) : ManifestTrade where
  tradeId := row.trade_id
  instrument := row.instrument
  makerAccount := row.maker_account
  takerAccount := row.taker_account
  aggressor := row.aggressor
  priceTicks := row.price_ticks
  quantityLots := row.quantity_lots

/-- The code of a character below 16 as one digit. -/
def hexDigit (n : Nat) : Char := Char.ofNat (if n < 10 then 48 + n else 87 + n)

/-- A character inside a JSON text: quote, backslash and control characters are escaped. -/
def jsonChar (c : Char) : List Char :=
  let backslash := Char.ofNat 0x5c
  match c.toNat with
  | 0x22 | 0x5c => [backslash, c]
  | 0x08 => [backslash, 'b']
  | 0x09 => [backslash, 't']
  | 0x0a => [backslash, 'n']
  | 0x0c => [backslash, 'f']
  | 0x0d => [backslash, 'r']
  | n => if n < 0x20 then [backslash, 'u', '0', '0', hexDigit (n / 16), hexDigit (n % 16)] else [c]

def jsonString (text : String) : String :=
  let quote := String.singleton (Char.ofNat 0x22)
  quote ++ String.ofList (text.toList.flatMap jsonChar) ++ quote

def jsonArray (items : List String) : String := "[" ++ String.intercalate "," items ++ "]"

def Side.label : Side → String
  | .Buy => "buy"
  | .Sell => "sell"

/-- The fields in a fixed order, and the version 1 before them. -/
def canonicalManifestBytes (manifest : Manifest) : String :=
  let trades := manifest.trades.map fun trade => jsonArray [
    jsonString (toString trade.tradeId),
    toString trade.instrument,
    toString trade.makerAccount,
    toString trade.takerAccount,
    jsonString trade.aggressor.label,
    jsonString (toString trade.priceTicks),
    jsonString (toString trade.quantityLots)]
  jsonArray [
    toString 1,
    jsonString manifest.venue,
    jsonString manifest.settlementId,
    jsonString (toString manifest.firstTradeId),
    jsonString (toString manifest.lastTradeId),
    jsonArray trades]

section Outbox
variable (sha256 : String → String)

def manifestHash (manifest : Manifest) : String := sha256 (canonicalManifestBytes manifest)

def settlementIdFor (venue : String) (firstTradeId lastTradeId : TradeId) (runId : RunId) : String :=
  let digest := sha256 (venue ++ "|" ++ toString runId ++ "|" ++ toString firstTradeId ++ "|" ++ toString lastTradeId)
  "stl_" ++ String.ofList (digest.toList.take 32)

/-! ## Batches -/

inductive OutboxError where
  | ManifestConflict (settlementId : String)
  | UnknownSettlement (settlementId : String)
  | CannotBeRequeued (settlementId : String) (status : SettlementStatus)
deriving DecidableEq

def SettlementStatus.label : SettlementStatus → String
  | .pending => "pending"
  | .submitted => "submitted"
  | .unknown => "unknown"
  | .confirmed => "confirmed"
  | .failed => "failed"
  | .needs_operator => "needs_operator"

def OutboxError.message : OutboxError → String
  | .ManifestConflict settlementId => "settlement " ++ settlementId ++ " already exists with a different manifest"
  | .UnknownSettlement settlementId => "unknown settlement " ++ settlementId
  | .CannotBeRequeued settlementId status =>
    "settlement " ++ settlementId ++ " is " ++ status.label ++ " and cannot be requeued"

/-- `LIMIT`: a negative number is no limit. -/
def limitRows {α : Type} (limit : Int) (rows : List α) : List α := if limit < 0 then rows else rows.take limit.toNat

namespace Database

def get (db : Database) (settlementId : String) : Option SettlementRow :=
  db.settlements.find? fun row => row.settlement_id = settlementId

/-- `ORDER BY trade_id`. -/
def byTradeId (rows : List TradeRow) : List TradeRow := rows.insertionSort fun a b => a.trade_id ≤ b.trade_id

def unsettled (db : Database) (limit : Int) : List TradeRow :=
  limitRows limit (byTradeId (db.trades.filter fun row => row.settlement_id = none))

/-- `INSERT INTO settlements … ON CONFLICT (settlement_id) DO NOTHING`. -/
def insert_settlement (db : Database) (row : SettlementRow) : Database :=
  if (db.get row.settlement_id).isSome then db else { db with settlements := db.settlements ++ [row] }

/-- The unsettled trades of the range get the settlement's id, whether they were selected or not. -/
def claim (db : Database) (settlementId : String) (first last : TradeId) : Database :=
  { db with trades := db.trades.map fun row =>
    if row.settlement_id = none ∧ first ≤ row.trade_id ∧ row.trade_id ≤ last then { row with settlement_id := some settlementId }
    else row }

def createBatch (venue : String) (batchSize : Int) (db : Database) : Except OutboxError (Database × Option SettlementRow) :=
  match db.unsettled batchSize with
  | [] => .ok (db, none)
  | row :: rest =>
    let first := row.trade_id
    let last := (rest.getLastD row).trade_id
    let settlementId := settlementIdFor sha256 venue first last db.state.run_id
    let hash := manifestHash sha256 {
      venue := venue
      settlementId := settlementId
      firstTradeId := first
      lastTradeId := last
      trades := (row :: rest).map TradeRow.manifestTrade }
    if (db.get settlementId).any fun existing => existing.manifest_hash ≠ hash then
      .error (.ManifestConflict settlementId)
    else
      let db := db.insert_settlement {
        settlement_id := settlementId
        venue := venue
        status := .pending
        manifest_hash := hash
        first_trade_id := first
        last_trade_id := last
        trade_count := (row :: rest).length
        attempts := 0
        next_attempt_at_ms := 0
        receipt := none
        last_error := none }
      let db := db.claim settlementId first last
      .ok (db, db.get settlementId)

/-- The trades that carry a settlement's id. -/
def claimedBy (db : Database) (settlementId : String) : List TradeRow :=
  byTradeId (db.trades.filter fun row => row.settlement_id = some settlementId)

/-- The manifest from the stored trades, checked against the hash it had at first. -/
def manifestFor (db : Database) (settlementId : String) : Except OutboxError Manifest :=
  match db.get settlementId with
  | none => .error (.UnknownSettlement settlementId)
  | some row =>
    let manifest : Manifest := {
      venue := row.venue
      settlementId := settlementId
      firstTradeId := row.first_trade_id
      lastTradeId := row.last_trade_id
      trades := (db.claimedBy settlementId).map TradeRow.manifestTrade }
    if manifestHash sha256 manifest ≠ row.manifest_hash then .error (.ManifestConflict settlementId) else .ok manifest

/-- The settlements that are due, first trades first. -/
def pending (db : Database) (limit : Int) (nowMs : Nat) : List SettlementRow :=
  limitRows limit ((db.settlements.filter fun row =>
    (row.status = .pending ∨ row.status = .submitted ∨ row.status = .unknown) ∧ row.next_attempt_at_ms ≤ nowMs).insertionSort
      fun a b => a.first_trade_id ≤ b.first_trade_id)

def makeDue (db : Database) : Option String → Database
  | none => { db with settlements := db.settlements.map fun row => { row with next_attempt_at_ms := 0 } }
  | some settlementId => { db with
      settlements :=
        amend SettlementRow.settlement_id settlementId (fun row => { row with next_attempt_at_ms := 0 }) db.settlements }

/-! ## Status -/

structure TransitionOptions where
  receipt : Option String := none
  error : Option String := none
  increment : Bool := false
  nextAttemptAtMs : Nat := 0

/-- What `transition` writes into the row. -/
def TransitionOptions.write (options : TransitionOptions) (next : SettlementStatus) (row : SettlementRow) : SettlementRow :=
  { row with
    status := next
    attempts := row.attempts + if options.increment then 1 else 0
    next_attempt_at_ms := options.nextAttemptAtMs
    receipt := options.receipt.or row.receipt
    last_error := options.error }

/-- `confirmed` stays, and `failed` can only become `confirmed`. -/
def transition (db : Database) (settlementId : String) (next : SettlementStatus) (options : TransitionOptions) :
    Except OutboxError Database :=
  match db.get settlementId with
  | none => .error (.UnknownSettlement settlementId)
  | some current =>
    if current.status = .confirmed then .ok db
    else if current.status = .failed ∧ next ≠ .confirmed then .ok db
    else .ok { db with settlements := amend SettlementRow.settlement_id settlementId (options.write next) db.settlements }

end Database

def MAX_AUTO_ATTEMPTS : Nat := 8
def BASE_BACKOFF_MS : Nat := 500
def MAX_BACKOFF_MS : Nat := 60000
def MAX_SAFE_INTEGER : Nat := 2 ^ 53 - 1

def backoffMs (attempts : Nat) : Nat :=
  let exp := min MAX_BACKOFF_MS (BASE_BACKOFF_MS * 2 ^ min (max attempts 1) 10)
  let jitter := exp * (attempts * 37 % 10) / 100
  exp + jitter

namespace Database

def recordAttempt (db : Database) (settlementId : String) : Except OutboxError Database :=
  db.transition settlementId .submitted {}

def recordConfirmed (db : Database) (settlementId receipt : String) : Except OutboxError Database :=
  db.transition settlementId .confirmed { receipt := some receipt }

def recordUnknown (db : Database) (nowMs : Nat) (settlementId error : String) : Except OutboxError Database :=
  match db.get settlementId with
  | none => .error (.UnknownSettlement settlementId)
  | some current =>
    if current.status = .confirmed ∨ current.status = .failed then .ok db
    else
      let attempts := current.attempts + 1
      if MAX_AUTO_ATTEMPTS ≤ attempts then
        db.transition settlementId .needs_operator
          { error := some error, increment := true, nextAttemptAtMs := MAX_SAFE_INTEGER }
      else
        db.transition settlementId .unknown
          { error := some error, increment := true, nextAttemptAtMs := nowMs + backoffMs attempts }

def recordFailed (db : Database) (settlementId error : String) : Except OutboxError Database :=
  db.transition settlementId .failed { error := some error }

def recordNeedsOperator (db : Database) (settlementId error : String) : Except OutboxError Database :=
  db.transition settlementId .needs_operator { error := some error, nextAttemptAtMs := MAX_SAFE_INTEGER }

/-- The trades of a failed settlement are unsettled again, and the settlement is gone. -/
def releaseFailed (db : Database) (settlementId : String) : Except OutboxError Database :=
  match db.get settlementId with
  | none => .error (.UnknownSettlement settlementId)
  | some current =>
    if current.status ≠ .failed then .error (.CannotBeRequeued settlementId current.status)
    else .ok { db with
      trades := db.trades.map fun row =>
        if row.settlement_id = some settlementId then { row with settlement_id := none } else row
      settlements := without SettlementRow.settlement_id settlementId db.settlements }

end Database

end Outbox

/-! ## What the methods do -/

section Effects
variable {sha256 : String → String} {venue : String} {db db' : Database} {id other : String}

/-- The status that `transition` leads to. -/
def SettlementStatus.after (current next : SettlementStatus) : SettlementStatus :=
  if current = .confirmed then .confirmed else if current = .failed ∧ next ≠ .confirmed then .failed else next

namespace Database
variable {row : SettlementRow} {run : RunId}

def status (db : Database) (settlementId : String) : Option SettlementStatus :=
  (db.get settlementId).map SettlementRow.status

/-- A stored trade carries the id of a settlement. -/
def Claimed (db : Database) (trade : TradeId) (settlementId : String) : Prop :=
  ∃ row ∈ db.trades, row.trade_id = trade ∧ row.settlement_id = some settlementId

/-- Trades and settlements have their keys, and the trades are of one run. -/
structure Tidy (run : RunId) (db : Database) : Prop where
  run : ∀ row ∈ db.trades, row.run_id = run
  trades : (db.trades.map TradeRow.trade_id).Nodup
  settlements : (db.settlements.map SettlementRow.settlement_id).Nodup

/-- A trade is in one settlement at most. -/
theorem Tidy.claimed_once (h : Tidy run db) {trade : TradeId} (hid : db.Claimed trade id)
    (hother : db.Claimed trade other) : id = other := by
  obtain ⟨row, hrow, htrade, hrowid⟩ := hid
  obtain ⟨row', hrow', htrade', hrowid'⟩ := hother
  obtain rfl := List.inj_on_of_nodup_map h.trades hrow hrow' (htrade.trans htrade'.symm)
  exact Option.some.inj (hrowid.symm.trans hrowid')

theorem mem_of_get (h : db.get id = some row) : row ∈ db.settlements ∧ row.settlement_id = id :=
  ⟨List.mem_of_find?_eq_some h, by simpa using List.find?_some h⟩

theorem status_of_get (h : db.get id = some row) : db.status id = some row.status := by
  rw [status, h, Option.map_some]

theorem get_of_mem (h : (db.settlements.map SettlementRow.settlement_id).Nodup) (hrow : row ∈ db.settlements) :
    db.get row.settlement_id = some row :=
  find?_key h hrow

/-- A transaction that rewrites the row of one settlement and no trade. -/
structure Rewrites (db : Database) (id : String) (rewrite : SettlementRow → SettlementRow) (db' : Database) : Prop where
  trades : db'.trades = db.trades
  state : db'.state = db.state
  ids : db'.settlements.map SettlementRow.settlement_id = db.settlements.map SettlementRow.settlement_id
  here : ∃ row, db.get id = some row ∧ db'.get id = some (rewrite row)
  others : ∀ other ≠ id, db'.get other = db.get other

/-- Nothing is written when the row is to stay as it is. -/
theorem Rewrites.same {rewrite : SettlementRow → SettlementRow} (hget : db.get id = some row) (hrow : rewrite row = row) :
    Rewrites db id rewrite db :=
  ⟨rfl, rfl, rfl, ⟨row, hget, hget.trans (congrArg some hrow.symm)⟩, fun _ _ => rfl⟩

/-- What `transition` makes of a row. -/
def TransitionOptions.turn (options : TransitionOptions) (next : SettlementStatus) (row : SettlementRow) : SettlementRow :=
  if row.status = .confirmed then row
  else if row.status = .failed ∧ next ≠ .confirmed then row
  else options.write next row

theorem TransitionOptions.status_turn (options : TransitionOptions) (next : SettlementStatus) (row : SettlementRow) :
    (options.turn next row).status = row.status.after next := by
  rw [turn, SettlementStatus.after]
  split
  · assumption
  · split
    · rename_i hfailed
      exact hfailed.1
    · rfl

theorem transition_rewrites {next : SettlementStatus} {options : TransitionOptions}
    (h : db.transition id next options = .ok db') : Rewrites db id (options.turn next) db' := by
  rw [transition] at h
  split at h
  · cases h
  · rename_i current hget
    split at h
    · rename_i hconfirmed
      cases h
      exact .same hget (if_pos hconfirmed)
    · rename_i hopen
      split at h
      · rename_i hfailed
        cases h
        exact .same hget (by rw [TransitionOptions.turn, if_neg hopen, if_pos hfailed])
      · rename_i hfree
        cases h
        have hkey (row : SettlementRow) : (options.write next row).settlement_id = row.settlement_id := rfl
        refine ⟨rfl, rfl, map_amend _ fun _ _ _ => rfl, ⟨current, hget, ?_⟩, fun other hne => ?_⟩
        · rw [get] at hget
          rw [TransitionOptions.turn, if_neg hopen, if_neg hfree, get, find?_amend hkey, if_pos rfl, hget]
          rfl
        · rw [get, find?_amend hkey, if_neg hne]
          rfl

/-- What `recordUnknown` makes of a row. -/
def undecidedRow (nowMs : Nat) (error : String) (row : SettlementRow) : SettlementRow :=
  if row.status = .confirmed ∨ row.status = .failed then row
  else if MAX_AUTO_ATTEMPTS ≤ row.attempts + 1 then
    TransitionOptions.write { error := some error, increment := true, nextAttemptAtMs := MAX_SAFE_INTEGER } .needs_operator row
  else
    TransitionOptions.write { error := some error, increment := true, nextAttemptAtMs := nowMs + backoffMs (row.attempts + 1) }
      .unknown row

theorem recordUnknown_rewrites {nowMs : Nat} {error : String} (h : db.recordUnknown nowMs id error = .ok db') :
    Rewrites db id (undecidedRow nowMs error) db' := by
  rw [recordUnknown] at h
  split at h
  · cases h
  · rename_i current hget
    split at h
    · rename_i hdecided
      cases h
      exact .same hget (if_pos hdecided)
    · rename_i hopen
      -- The transition is not refused, so the row is written.
      have hwrite (options : TransitionOptions) (next : SettlementStatus) : options.turn next current = options.write next current := by
        rw [TransitionOptions.turn, if_neg fun hc => hopen (.inl hc), if_neg fun hf => hopen (.inr hf.1)]
      have hsame {options : TransitionOptions} {next : SettlementStatus} (hr : Rewrites db id (options.turn next) db')
          (hrow : undecidedRow nowMs error current = options.write next current) :
          Rewrites db id (undecidedRow nowMs error) db' := by
        obtain ⟨row, hrow', hnew⟩ := hr.here
        obtain rfl : current = row := Option.some.inj (hget.symm.trans hrow')
        exact ⟨hr.trades, hr.state, hr.ids, ⟨current, hget, hnew.trans (by rw [hwrite, hrow])⟩, hr.others⟩
      dsimp only at h
      split at h
      · rename_i hlast
        exact hsame (transition_rewrites h) (by rw [undecidedRow, if_neg hopen, if_pos hlast])
      · rename_i hmore
        exact hsame (transition_rewrites h) (by rw [undecidedRow, if_neg hopen, if_neg hmore])

/-- A transaction that changes the status of one settlement and no trade. -/
structure Restated (db : Database) (id : String) (change : SettlementStatus → SettlementStatus) (db' : Database) : Prop where
  trades : db'.trades = db.trades
  state : db'.state = db.state
  ids : db'.settlements.map SettlementRow.settlement_id = db.settlements.map SettlementRow.settlement_id
  here : ∃ current, db.status id = some current ∧ db'.status id = some (change current)
  others : ∀ other ≠ id, db'.status other = db.status other

theorem Rewrites.restates {rewrite : SettlementRow → SettlementRow} {change : SettlementStatus → SettlementStatus}
    (h : Rewrites db id rewrite db') (hstatus : ∀ row, db.get id = some row → (rewrite row).status = change row.status) :
    Restated db id change db' := by
  obtain ⟨row, hget, hget'⟩ := h.here
  refine ⟨h.trades, h.state, h.ids, ⟨row.status, status_of_get hget, ?_⟩, fun other hne => ?_⟩
  · rw [status_of_get hget', hstatus row hget]
  · rw [status, status, h.others other hne]

theorem transition_restates {next : SettlementStatus} {options : TransitionOptions}
    (h : db.transition id next options = .ok db') : Restated db id (·.after next) db' :=
  (transition_rewrites h).restates fun row _ => options.status_turn next row

/-- An undecided outcome leads to `unknown`, or to the operator. -/
theorem recordUnknown_restates {nowMs : Nat} {error : String} (h : db.recordUnknown nowMs id error = .ok db') :
    ∃ next, (next = .unknown ∨ next = .needs_operator) ∧ Restated db id (·.after next) db' := by
  have hr := recordUnknown_rewrites h
  obtain ⟨row, hget, -⟩ := hr.here
  have hafter (next : SettlementStatus) (hrow : ¬(row.status = .confirmed ∨ row.status = .failed)) : row.status.after next = next := by
    rw [SettlementStatus.after, if_neg fun hc => hrow (.inl hc), if_neg fun hf => hrow (.inr hf.1)]
  by_cases hdecided : row.status = .confirmed ∨ row.status = .failed
  · refine ⟨.unknown, .inl rfl, hr.restates fun row' hget' => ?_⟩
    obtain rfl : row = row' := Option.some.inj (hget.symm.trans hget')
    rw [undecidedRow, if_pos hdecided]
    rcases hdecided with hdecided | hdecided <;> rw [hdecided] <;> rfl
  · by_cases hlast : MAX_AUTO_ATTEMPTS ≤ row.attempts + 1
    · refine ⟨.needs_operator, .inr rfl, hr.restates fun row' hget' => ?_⟩
      obtain rfl : row = row' := Option.some.inj (hget.symm.trans hget')
      rw [undecidedRow, if_neg hdecided, if_pos hlast, hafter _ hdecided]
      rfl
    · refine ⟨.unknown, .inl rfl, hr.restates fun row' hget' => ?_⟩
      obtain rfl : row = row' := Option.some.inj (hget.symm.trans hget')
      rw [undecidedRow, if_neg hdecided, if_neg hlast, hafter _ hdecided]
      rfl

theorem Tidy.restated {change : SettlementStatus → SettlementStatus} (h : Tidy run db) (hr : Restated db id change db') :
    Tidy run db' :=
  ⟨hr.trades ▸ h.run, hr.trades ▸ h.trades, hr.ids ▸ h.settlements⟩

/-- A transaction that may add a settlement and claim trades for it. -/
structure Claims (db db' : Database) : Prop where
  run : ∀ run, Tidy run db → Tidy run db'
  tradeless : db.trades = [] → db'.trades = []
  state : db'.state = db.state
  old : ∀ id status, db.status id = some status → db'.status id = some status
  new : ∀ id status, db'.status id = some status → db.status id = some status ∨ status = .pending
  claimed : ∀ trade id, db.Claimed trade id → db'.Claimed trade id

theorem get_insert_settlement (db : Database) (row : SettlementRow) (id : String) :
    (db.insert_settlement row).get id = (db.get id).or (if row.settlement_id = id then some row else none) := by
  rw [insert_settlement]
  split
  · rename_i hsome
    cases hget : db.get id with
    | some _ => rfl
    | none =>
      rw [if_neg, Option.or_none]
      rintro rfl
      rw [hget] at hsome
      cases hsome
  · rw [get, get, List.find?_append]
    simp [List.find?_singleton]

theorem nodup_insert_settlement (h : (db.settlements.map SettlementRow.settlement_id).Nodup) (row : SettlementRow) :
    ((db.insert_settlement row).settlements.map SettlementRow.settlement_id).Nodup := by
  rw [insert_settlement]
  split
  · exact h
  · rename_i hnone
    simp only [List.map_append, List.map_cons, List.map_nil]
    refine List.Nodup.append h (List.nodup_singleton _) ?_
    rw [List.disjoint_singleton]
    intro hmem
    obtain ⟨old, hold, hid⟩ := List.mem_map.1 hmem
    rw [← hid, get_of_mem h hold] at hnone
    exact hnone rfl

theorem insert_settlement_claims (hrow : row.status = .pending) : Claims db (db.insert_settlement row) := by
  have hget := get_insert_settlement db row
  refine ⟨fun run htidy => ?_, ?_, ?_, fun id status hstatus => ?_, fun id status hstatus => ?_, fun trade id hclaimed => ?_⟩
  · have hkeys := nodup_insert_settlement htidy.settlements row
    rw [insert_settlement] at hkeys ⊢
    split
    · exact htidy
    · rename_i hnone
      rw [if_neg hnone] at hkeys
      exact ⟨htidy.run, htidy.trades, hkeys⟩
  · rw [insert_settlement]
    split <;> exact id
  · rw [insert_settlement]
    split <;> rfl
  · rw [Database.status] at hstatus ⊢
    obtain ⟨found, hfound, hstatus⟩ := Option.map_eq_some_iff.1 hstatus
    rw [hget, hfound, Option.some_or, Option.map_some, hstatus]
  · rw [Database.status, hget] at hstatus
    rw [Database.status]
    cases hfound : db.get id with
    | some found =>
      rw [hfound, Option.some_or] at hstatus
      exact .inl hstatus
    | none =>
      rw [hfound, Option.none_or] at hstatus
      split at hstatus
      · cases hstatus
        exact .inr hrow
      · cases hstatus
  · rw [insert_settlement]
    split <;> exact hclaimed

/-- Writing the settlements of trades keeps the keys. -/
theorem Tidy.write (h : Tidy run db) (p : TradeRow → Prop) [DecidablePred p] (settlement : Option String) :
    Tidy run { db with
      trades := db.trades.map fun row => if p row then { row with settlement_id := settlement } else row } := by
  refine ⟨fun row hrow => ?_, ?_, h.settlements⟩
  · obtain ⟨old, hold, rfl⟩ := List.mem_map.1 hrow
    have hrun := h.run old hold
    split <;> exact hrun
  · have hids : (db.trades.map fun row => if p row then { row with settlement_id := settlement } else row).map TradeRow.trade_id =
        db.trades.map TradeRow.trade_id := by
      rw [List.map_map]
      refine List.map_congr_left fun row _ => ?_
      simp only [Function.comp]
      split <;> rfl
    exact hids ▸ h.trades

theorem claim_claims (db : Database) (id : String) (first last : TradeId) : Claims db (db.claim id first last) := by
  refine ⟨fun run htidy => htidy.write _ _, List.map_eq_nil_iff.2, rfl, fun _ _ hstatus => hstatus, fun _ _ => .inl,
    fun trade other ⟨row, hrow, htrade, hid⟩ => ⟨row, ?_, htrade, hid⟩⟩
  refine List.mem_map.2 ⟨row, hrow, if_neg fun hfree => ?_⟩
  rw [hid] at hfree
  cases hfree.1

theorem Claims.trans {db'' : Database} (h : Claims db db') (h' : Claims db' db'') : Claims db db'' where
  run run htidy := h'.run run (h.run run htidy)
  tradeless hnone := h'.tradeless (h.tradeless hnone)
  state := h'.state.trans h.state
  old id status hstatus := h'.old id status (h.old id status hstatus)
  new id status hstatus := (h'.new id status hstatus).elim (h.new id status) .inr
  claimed trade id hclaimed := h'.claimed trade id (h.claimed trade id hclaimed)

theorem createBatch_claims {batchSize : Int} {row : Option SettlementRow}
    (h : db.createBatch sha256 venue batchSize = .ok (db', row)) : Claims db db' := by
  rw [createBatch] at h
  split at h
  · cases h
    exact ⟨fun _ => id, id, rfl, fun _ _ => id, fun _ _ => .inl, fun _ _ => id⟩
  · dsimp only at h
    split at h
    · cases h
    · cases h
      exact (insert_settlement_claims rfl).trans (claim_claims _ _ _ _)

/-- What a release leaves. -/
structure Releases (db : Database) (id : String) (db' : Database) : Prop where
  run : ∀ run, Tidy run db → Tidy run db'
  tradeless : db.trades = [] → db'.trades = []
  state : db'.state = db.state
  failed : db.status id = some .failed
  gone : db'.status id = none
  others : ∀ other ≠ id, db'.status other = db.status other
  claimed : ∀ trade other, other ≠ id → db.Claimed trade other → db'.Claimed trade other

theorem releaseFailed_eq_ok (h : db.releaseFailed id = .ok db') :
    ∃ row, db.get id = some row ∧ row.status = .failed ∧ db' = { db with
      trades := db.trades.map fun row => if row.settlement_id = some id then { row with settlement_id := none } else row
      settlements := without SettlementRow.settlement_id id db.settlements } := by
  rw [releaseFailed] at h
  split at h
  · cases h
  · rename_i current hget
    split at h
    · cases h
    · rename_i hfailed
      cases h
      exact ⟨current, hget, not_not.1 hfailed, rfl⟩

theorem releaseFailed_releases (h : db.releaseFailed id = .ok db') : Releases db id db' := by
  obtain ⟨current, hget, hfailed, rfl⟩ := releaseFailed_eq_ok h
  refine ⟨fun run htidy => ⟨(htidy.write _ none).run, (htidy.write _ none).trades, ?_⟩, List.map_eq_nil_iff.2, rfl, ?_, ?_,
    fun other hne => ?_, fun trade other hne ⟨row, hrow, htrade, hid⟩ => ⟨row, ?_, htrade, hid⟩⟩
  · exact htidy.settlements.sublist ((without_sublist _ _).map _)
  · rw [status_of_get hget, hfailed]
  · rw [status, get, find?_without, if_pos rfl]
    rfl
  · rw [status, get, find?_without, if_neg hne]
    rfl
  · refine List.mem_map.2 ⟨row, hrow, if_neg fun hsame => hne ?_⟩
    exact Option.some.inj (hid.symm.trans hsame)

/-- Only the time of the next attempt is written. -/
theorem makeDue_rows (db : Database) (settlementId : Option String) :
    ∃ due : SettlementRow → SettlementRow, (∀ row, due row = row ∨ due row = { row with next_attempt_at_ms := 0 }) ∧
      db.makeDue settlementId = { db with settlements := db.settlements.map due } := by
  cases settlementId with
  | none => exact ⟨_, fun _ => .inr rfl, rfl⟩
  | some settlementId =>
    refine ⟨_, fun row => ?_, rfl⟩
    split
    · exact .inr rfl
    · exact .inl rfl

/-- The rows of a table whose rows are rewritten under their ids. -/
theorem get_map {f : SettlementRow → SettlementRow} (hf : ∀ row, (f row).settlement_id = row.settlement_id) (db : Database)
    (id : String) : ({ db with settlements := db.settlements.map f } : Database).get id = (db.get id).map f := by
  simp only [get, List.find?_map, Function.comp_def, hf]

theorem mem_byTradeId {rows : List TradeRow} {row : TradeRow} : row ∈ byTradeId rows ↔ row ∈ rows := by
  rw [byTradeId, List.mem_insertionSort]

/-- The manifest has trades that the settlement claimed, and no others. -/
theorem manifestFor_claimed {manifest : Manifest} (h : db.manifestFor sha256 id = .ok manifest) :
    manifest.settlementId = id ∧ ∀ trade ∈ manifest.trades, db.Claimed trade.tradeId id := by
  rw [manifestFor] at h
  split at h
  · cases h
  · dsimp only at h
    split at h
    · cases h
    · cases h
      refine ⟨rfl, fun trade htrade => ?_⟩
      obtain ⟨row, hrow, rfl⟩ := List.mem_map.1 htrade
      rw [claimedBy, mem_byTradeId, List.mem_filter] at hrow
      exact ⟨row, hrow.1, rfl, by simpa using hrow.2⟩

theorem limitRows_sublist {α : Type} (limit : Int) (rows : List α) : (limitRows limit rows).Sublist rows := by
  rw [limitRows]
  split
  · exact List.Sublist.refl rows
  · exact List.take_sublist _ _

/-- Due settlements are open ones, each of them once. -/
theorem pending_open (h : (db.settlements.map SettlementRow.settlement_id).Nodup) (limit : Int) (nowMs : Nat) :
    ((db.pending limit nowMs).map SettlementRow.settlement_id).Nodup ∧ ∀ row ∈ db.pending limit nowMs,
      db.get row.settlement_id = some row ∧
      (row.status = .pending ∨ row.status = .submitted ∨ row.status = .unknown) := by
  rw [pending]
  refine ⟨List.Nodup.sublist ((limitRows_sublist _ _).map _) ?_, fun row hrow => ?_⟩
  · refine (((List.perm_insertionSort _ _).map _).nodup_iff).2 ?_
    exact h.sublist (List.filter_sublist.map _)
  · have hmem := (limitRows_sublist _ _).subset hrow
    rw [List.mem_insertionSort, List.mem_filter] at hmem
    have hdue := of_decide_eq_true hmem.2
    exact ⟨get_of_mem h hmem.1, hdue.1⟩

end Database

end Effects

end TradingLab
