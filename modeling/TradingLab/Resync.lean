import TradingLab.Batches
/-!
# Settlements after a resync

`rebuild` deletes the settlements with everything else, and the trades come again from the
journal. A settlement that was sent before is then made again from whatever trades are
unsettled at the next tick. Batches of one size, none of them released, cut the trades of the
run into the same blocks whenever the ticks come, and a block has the identity and the manifest
it had.
-/
open LabLib

namespace TradingLab

/-! ## What was sent -/

def TradeEvent.manifestTrade (event : TradeEvent) : ManifestTrade where
  tradeId := event.trade_id
  instrument := event.instrument
  makerAccount := event.maker_account
  takerAccount := event.taker_account
  aggressor := event.aggressor
  priceTicks := event.price
  quantityLots := event.quantity

/-- The trades of a journal, as manifests list them. -/
def journalTrades (journal : List OutputEvent) : List ManifestTrade :=
  journal.filterMap fun event =>
    match event with
    | .Trade event => some event.manifestTrade
    | _ => none

/-- The office, and what it sent to the venue so far. -/
structure SentLog where
  office : Office
  sent : List (String × Manifest)

/-- What is under way to the venue. -/
def Tick.sends : Tick → List (String × Manifest)
  | .submit row manifest _ => [(row.settlement_id, manifest)]
  | _ => []

def Manifest.tradeIds (manifest : Manifest) : List TradeId := manifest.trades.map ManifestTrade.tradeId

/-- One engine run, whose trade ids grow, outputs that arrive undisturbed, and no rebuild during a poll. -/
def Plane.resyncs (s : Plane) (move : PlaneMove) : Bool :=
  s.undisturbed move && match move with
    | .rebuild => s.poll = .idle
    | .emit (.Trade event) => ∀ trade ∈ journalTrades s.gateway.journal, trade.tradeId < event.trade_id
    | _ => true

section Model
variable (sha256 : String → String) (venue : String)

namespace SentLog

/-- Only these two moves send. -/
def step (limit : Nat) (s : SentLog) (move : OfficeMove) : Option SentLog :=
  (s.office.step sha256 venue limit move).map fun office => {
    office := office
    sent := s.sent ++ match move with
      | .advance | .answer _ _ => office.tick.sends
      | _ => [] }

def init (run : RunId) : SentLog where
  office := .init run
  sent := []

/-- A tick makes no batch or one of `size` trades, no settlement is released, and no two identities of the run
collide. -/
def resyncs (size : Nat) (s : SentLog) : OfficeMove → Bool
  | .plane move => s.office.plane.resyncs move
  | .tick batchSize _ =>
    s.office.tick = .idle →
      OutboxHistory.collisionFree sha256 venue ⟨s.office.db, fun _ => none⟩ (.createBatch batchSize) = true ∧
        (s.office.db.unsettled batchSize = [] ∨ (s.office.db.unsettled batchSize).length = size)
  | .releaseFailed _ => false
  | _ => true

end SentLog

end Model

/-! ## Trades of one run -/

section Feeding
variable {run : RunId} {db db' db'' : Database} {known : List ManifestTrade} {limit k : Nat} {s s' : Plane}
  {move : PlaneMove} {journal : List OutputEvent} {p : Projection} {event : OutputEvent}

/-- Unsettled trades may come, and nothing else changes for the settlements. -/
structure Arrives (db db' : Database) : Prop where
  settlements : db'.settlements = db.settlements
  run : db'.state.run_id = db.state.run_id
  trades : ∃ more, db'.trades = db.trades ++ more ∧ ∀ row ∈ more, row.settlement_id = none

theorem Arrives.refl (db : Database) : Arrives db db := ⟨rfl, rfl, [], (List.append_nil _).symm, by simp⟩

theorem Arrives.trans (h : Arrives db db') (h' : Arrives db' db'') : Arrives db db'' := by
  obtain ⟨more, htrades, hmore⟩ := h.trades
  obtain ⟨more', htrades', hmore'⟩ := h'.trades
  refine ⟨h'.settlements.trans h.settlements, h'.run.trans h.run, more ++ more', ?_, fun row hrow => ?_⟩
  · rw [htrades', htrades, List.append_assoc]
  · exact (List.mem_append.1 hrow).elim (hmore row) (hmore' row)

/-- Only the two tables and the run matter. -/
theorem Arrives.of_eq (htrades : db'.trades = db.trades) (hsettlements : db'.settlements = db.settlements)
    (hrun : db'.state.run_id = db.state.run_id) : Arrives db db' :=
  ⟨hsettlements, hrun, [], by rw [htrades, List.append_nil], by simp⟩

theorem Arrives.claimedBy (h : Arrives db db') (id : String) : db'.claimedBy id = db.claimedBy id := by
  obtain ⟨more, htrades, hmore⟩ := h.trades
  have hnone : (more.filter fun row => row.settlement_id = some id) = [] := by
    refine List.filter_eq_nil_iff.2 fun row hrow => ?_
    rw [hmore row hrow]
    simp
  rw [Database.claimedBy, Database.claimedBy, htrades, List.filter_append, hnone, List.append_nil]

theorem insert_trade_arrives {row : TradeRow} (hnone : row.settlement_id = none) : Arrives db (db.insert_trade row) := by
  rw [Database.insert_trade]
  split
  · exact .refl db
  · exact ⟨rfl, rfl, [row], rfl, fun other hother => List.mem_singleton.1 hother ▸ hnone⟩

theorem applyEvent_arrives (db : Database) (run : RunId) (event : OutputEvent) : Arrives db (db.applyEvent run event) := by
  cases event with
  | State _ => exact .refl db
  | Trade trade =>
    rw [Database.applyEvent, Database.applyTrade]
    exact (insert_trade_arrives rfl).trans (.of_eq rfl rfl rfl)
  | Report report =>
    rw [Database.applyEvent, Database.applyReport]
    split
    · exact .of_eq rfl rfl rfl
    · split
      · exact .refl db
      · split <;> exact .of_eq rfl rfl rfl

theorem commit_arrives (p : Projection) (events : List OutputEvent) : Arrives p.db (p.commit events).db :=
  Projection.commit_rel (fun p p' => Arrives p.db p'.db) (fun _ => .refl _) (fun _ => .of_eq rfl rfl rfl)
    (fun p _ event _ h => (applyEvent_arrives p.db p.runId event).trans h) (fun _ _ h => h.trans (.of_eq rfl rfl rfl)) p

theorem journalTrades_append (journal events : List OutputEvent) :
    journalTrades (journal ++ events) = journalTrades journal ++ journalTrades events := List.filterMap_append

/-! ## The trades that are stored -/

/-- The trades are those of the first `k` records, and the position is not past these. It may be before them, when a gap
was found behind them. -/
structure Stores (journal : List OutputEvent) (k : Nat) (p : Projection) : Prop where
  le : k ≤ journal.length
  trades : p.db.trades.map TradeRow.manifestTrade = journalTrades (journal.take k)
  seqs : ∀ row ∈ p.db.trades, val row.output_seq ≤ k
  last : 0 ≤ p.lastOutputSeq ∧ p.lastOutputSeq ≤ k
  stored : 0 ≤ p.db.state.last_output_seq ∧ p.db.state.last_output_seq ≤ k

theorem Stores.frame {p' : Projection} (h : Stores journal k p) (htrades : p'.db.trades = p.db.trades)
    (hlast : 0 ≤ p'.lastOutputSeq ∧ p'.lastOutputSeq ≤ k)
    (hstored : 0 ≤ p'.db.state.last_output_seq ∧ p'.db.state.last_output_seq ≤ k) : Stores journal k p' :=
  ⟨h.le, by rw [htrades, h.trades], by rw [htrades]; exact h.seqs, hlast, hstored⟩

/-- The next record of the journal: its trade is appended, unless it is there. -/
theorem Stores.passes {i : Nat} (h : Stores journal k p) (hnum : Numbered journal)
    (hi : journal[i]? = some event) (hlast : p.lastOutputSeq = i) (more : List TradeRow)
    (htrades : (p.take event).db.trades = p.db.trades ++ more) (hold : i < k → more = [])
    (hnew : i = k → more.map TradeRow.manifestTrade = journalTrades [event])
    (hseq : ∀ row ∈ more, row.output_seq = event.output_seq) : ∃ k', Stores journal k' (p.take event) := by
  have hi' : val event.output_seq = i + 1 := hnum i event hi
  have hstate : (p.take event).db.state = p.db.state := state_applyEvent ..
  have hle : p.lastOutputSeq ≤ k := h.last.2
  have hmoved : (p.take event).lastOutputSeq = i + 1 := hi'
  have hstored := h.stored
  rw [← hstate] at hstored
  rcases Nat.lt_or_ge i k with hlt | hge
  · rw [hold hlt, List.append_nil] at htrades
    exact ⟨k, h.frame htrades (by omega) hstored⟩
  · obtain rfl : i = k := by omega
    obtain ⟨hlt, -⟩ := List.getElem?_eq_some_iff.1 hi
    refine ⟨i + 1, hlt, ?_, fun row hrow => ?_, by omega, by omega⟩
    · rw [htrades, List.map_append, h.trades, hnew rfl, List.take_add_one, hi, Option.toList_some, journalTrades_append]
    · rw [htrades] at hrow
      rcases List.mem_append.1 hrow with hrow | hrow
      · have := h.seqs row hrow
        omega
      · rw [hseq row hrow]
        omega

theorem Stores.take {i : Nat} (h : Stores journal k p) (hnum : Numbered journal)
    (hids : ((journalTrades journal).map ManifestTrade.tradeId).Nodup) (htidy : p.db.Tidy p.runId)
    (hi : journal[i]? = some event) (hlast : p.lastOutputSeq = i) : ∃ k', Stores journal k' (p.take event) := by
  have hle : p.lastOutputSeq ≤ k := h.last.2
  cases event with
  | State _ => exact h.passes hnum hi hlast [] (List.append_nil _).symm (fun _ => rfl) (fun _ => rfl) (by simp)
  | Report report =>
    refine h.passes hnum hi hlast [] ?_ (fun _ => rfl) (fun _ => rfl) (by simp)
    rw [List.append_nil]
    simp only [Projection.take, Database.applyEvent, Database.applyReport]
    split
    · rfl
    · split
      · rfl
      · split <;> rfl
  | Trade trade =>
    obtain ⟨hlt, hget⟩ := List.getElem?_eq_some_iff.1 hi
    -- The records before this one and the trades behind it.
    have hsplit : journalTrades journal =
        journalTrades (journal.take i) ++ trade.manifestTrade :: journalTrades (journal.drop (i + 1)) := by
      conv_lhs => rw [← List.take_append_drop i journal, List.drop_eq_getElem_cons hlt, hget]
      rw [journalTrades_append]
      rfl
    by_cases hthere : p.db.trades.any fun old =>
        old.run_id = p.runId && (old.trade_id = trade.trade_id || old.output_seq = trade.output_seq)
    · refine h.passes hnum hi hlast [] ?_ (fun _ => rfl) (fun hik => ?_) (by simp)
      · simp only [Projection.take, Database.applyEvent, Database.applyTrade, Database.addPosition, Database.insert_trade]
        rw [if_pos hthere, List.append_nil]
      · -- Nothing of a record that is not stored is there.
        subst hik
        obtain ⟨old, hold, hsame⟩ := List.any_eq_true.1 hthere
        simp only [Bool.and_eq_true, Bool.or_eq_true, decide_eq_true_eq] at hsame
        rcases hsame.2 with hid | hseq
        · have hmem : old.manifestTrade.tradeId ∈ (journalTrades (journal.take i)).map ManifestTrade.tradeId := by
            rw [← h.trades]
            exact List.mem_map_of_mem (List.mem_map_of_mem hold)
          rw [hsplit, List.map_append, List.nodup_append] at hids
          exact absurd hid (hids.2.2 _ hmem _ List.mem_cons_self)
        · have hafter := h.seqs old hold
          have hnumber := hnum i _ hi
          rw [hseq] at hafter
          change val trade.output_seq = _ at hnumber
          omega
    · refine h.passes hnum hi hlast [{
        run_id := p.runId
        trade_id := trade.trade_id
        output_seq := trade.output_seq
        engine_seq := trade.engine_seq
        engine_time_ns := trade.engine_time_ns
        instrument := trade.instrument
        maker_account := trade.maker_account
        taker_account := trade.taker_account
        aggressor := trade.aggressor
        price_ticks := trade.price
        quantity_lots := trade.quantity
        settlement_id := none }] ?_ (fun hik => absurd ?_ hthere) (fun _ => rfl) fun row hrow => ?_
      · simp only [Projection.take, Database.applyEvent, Database.applyTrade, Database.addPosition, Database.insert_trade]
        rw [if_neg hthere]
      · -- A stored record's trade is there.
        have hmem : trade.manifestTrade ∈ p.db.trades.map TradeRow.manifestTrade := by
          rw [h.trades]
          have hstored : .Trade trade ∈ journal.take k := List.mem_of_getElem? ((List.getElem?_take_of_lt hik).trans hi)
          exact List.mem_filterMap.2 ⟨_, hstored, rfl⟩
        obtain ⟨old, hold, hsame⟩ := List.mem_map.1 hmem
        refine List.any_eq_true.2 ⟨old, hold, ?_⟩
        have hid : old.trade_id = trade.trade_id := congrArg ManifestTrade.tradeId hsame
        simp [hid, htidy.run old hold]
      · rw [List.mem_singleton.1 hrow]
        rfl

/-- Records of the journal, and the first of all for an empty projection. -/
theorem Stores.applyLoop {events : List OutputEvent} (h : Stores journal k p) (hnum : Numbered journal)
    (hids : ((journalTrades journal).map ManifestTrade.tradeId).Nodup) (htidy : p.db.Tidy p.runId)
    (hevents : events ⊆ journal) (hstart : p.lastOutputSeq ≠ 0 ∨ ∀ first ∈ events.head?, val first.output_seq = 1) :
    ∃ k', Stores journal k' (p.applyLoop events).1 := by
  induction events generalizing p k with
  | nil => exact ⟨k, h⟩
  | cons event events ih =>
    obtain ⟨hevent, hrest⟩ := List.cons_subset.1 hevents
    obtain ⟨i, hi⟩ := List.getElem?_of_mem hevent
    have hseq := hnum i event hi
    have hlast := h.last.1
    rw [Projection.applyLoop]
    split
    · rename_i hskip
      exact ih h htidy hrest (.inl (by omega))
    · split
      · exact ⟨k, h.frame rfl h.last h.stored⟩
      · rename_i hnew hnext
        have hnumber : p.lastOutputSeq = i := by
          rcases hstart with hne | hone
          · by_contra hgap
            exact hnext ⟨by omega, hne⟩
          · have hfirst := hone event rfl
            omega
        obtain ⟨k', htake⟩ := h.take hnum hids htidy hi hnumber
        refine ih htake ((applyEvent_grows p.db event).tidy htidy) hrest (.inl ?_)
        change val event.output_seq ≠ 0
        omega

theorem Stores.commit {events : List OutputEvent} (h : Stores journal k p) (hnum : Numbered journal)
    (hids : ((journalTrades journal).map ManifestTrade.tradeId).Nodup) (htidy : p.db.Tidy p.runId)
    (hevents : events ⊆ journal) (hstart : p.lastOutputSeq ≠ 0 ∨ ∀ first ∈ events.head?, val first.output_seq = 1) :
    ∃ k', Stores journal k' (p.commit events) := by
  obtain ⟨k', hloop⟩ := h.applyLoop hnum hids htidy hevents hstart
  refine ⟨k', ?_⟩
  rw [Projection.commit]
  split
  · rename_i p' heq
    rw [heq] at hloop
    exact hloop.frame rfl hloop.last hloop.last
  · rename_i p' heq
    rw [heq] at hloop
    exact hloop

/-- The gateway serves one run, and what is stored or on its way is from the journal. -/
structure Feeds (run : RunId) (s : Plane) : Prop where
  receiving : Receiving s
  serves : s.gateway.run_id = run
  told : ∀ retried heard, s.poll = .told retried heard → heard = 0 ∨ heard = run
  bound : s.projection.runId = 0 ∨ s.projection.runId = run
  numbered : Numbered s.gateway.journal
  ids : ((journalTrades s.gateway.journal).map ManifestTrade.tradeId).Pairwise (· < ·)
  given : ∀ retried source events, s.poll = .given retried source events → events ⊆ s.gateway.journal
  stores : ∃ k, Stores s.gateway.journal k s.projection

theorem Feeds.init (run : RunId) : Feeds run (Plane.init run) where
  receiving := .init run
  serves := rfl
  told := by simp [Plane.init]
  bound := .inl rfl
  numbered := numbered_nil
  ids := .nil
  given := by simp [Plane.init]
  stores := ⟨0, le_rfl, rfl, fun _ hrow => absurd hrow List.not_mem_nil, ⟨le_rfl, le_rfl⟩, le_rfl, le_rfl⟩

theorem Feeds.nodup (h : Feeds run s) : ((journalTrades s.gateway.journal).map ManifestTrade.tradeId).Nodup :=
  h.ids.imp fun hlt => (Std.ne_of_lt hlt)

/-- The stored trades are in the order of their ids, and the journal's trades begin with them. -/
theorem Feeds.trades (h : Feeds run s) :
    (s.projection.db.trades.map TradeRow.trade_id).Pairwise (· < ·) ∧
      s.projection.db.trades.map TradeRow.manifestTrade <+: journalTrades s.gateway.journal := by
  obtain ⟨k, hk⟩ := h.stores
  have hstored : s.projection.db.trades.map TradeRow.manifestTrade <+: journalTrades s.gateway.journal := by
    rw [hk.trades]
    exact (List.take_prefix k _).filterMap _
  refine ⟨?_, hstored⟩
  have hids := h.ids.sublist (hstored.sublist.map _)
  rwa [List.map_map] at hids

/-- What a move of the plane does to the settlements: nothing, unless it is a rebuild or the
first run is bound, and then there are none. -/
def Spares (db db' : Database) : Prop :=
  Arrives db db' ∨ (db'.trades = [] ∧ (db'.settlements = [] ∨ (db.trades = [] ∧ db'.settlements = db.settlements)))

theorem Feeds.emit (h : Feeds run s) (hseq : val event.output_seq = s.gateway.journal.length + 1)
    (hnew : ∀ trade ∈ journalTrades [event], ∀ old ∈ journalTrades s.gateway.journal, old.tradeId < trade.tradeId) :
    Feeds run { s with gateway := { s.gateway with journal := s.gateway.journal ++ [event] } } where
  receiving := ⟨h.receiving.tidy, h.receiving.stored, h.receiving.unbound, h.receiving.wants, h.receiving.given⟩
  serves := h.serves
  told := h.told
  bound := h.bound
  numbered := numbered_snoc h.numbered hseq
  ids := by
    dsimp only
    rw [journalTrades_append, List.map_append, List.pairwise_append]
    refine ⟨h.ids, ?_, fun id hid id' hid' => ?_⟩
    · cases event <;> simp [journalTrades]
    · obtain ⟨old, hold, rfl⟩ := List.mem_map.1 hid
      obtain ⟨trade, htrade, rfl⟩ := List.mem_map.1 hid'
      exact hnew trade htrade old hold
  given retried source events hpoll := List.subset_append_of_subset_left _ (h.given retried source events hpoll)
  stores := by
    obtain ⟨k, hk⟩ := h.stores
    refine ⟨k, ?_, ?_, hk.seqs, hk.last, hk.stored⟩
    · exact hk.le.trans (by rw [List.length_append]; exact Nat.le_add_right _ _)
    · rw [hk.trades, List.take_append_of_le_length hk.le]

/-- What binding a run leaves. -/
theorem bindRun_leaves (p : Projection) (heard : RunId) :
    (p.bindRun heard).db.trades = p.db.trades ∧ (p.bindRun heard).db.settlements = p.db.settlements ∧
      (p.bindRun heard).lastOutputSeq = p.lastOutputSeq ∧
      (p.bindRun heard).db.state.last_output_seq = p.db.state.last_output_seq ∧
      (((p.bindRun heard).runId = p.runId ∧ (p.bindRun heard).db.state.run_id = p.db.state.run_id) ∨
        (p.runId = 0 ∧ (p.bindRun heard).runId = heard)) := by
  rw [Projection.bindRun]
  split
  · exact ⟨rfl, rfl, rfl, rfl, .inl ⟨rfl, rfl⟩⟩
  · split
    · rename_i h0
      exact ⟨rfl, rfl, rfl, rfl, .inr ⟨h0, rfl⟩⟩
    · split <;> exact ⟨rfl, rfl, rfl, rfl, .inl ⟨rfl, rfl⟩⟩

theorem Feeds.bind (h : Feeds run s) {heard : RunId} (hheard : heard = 0 ∨ heard = run) :
    Feeds run (s.bind heard) ∧ Spares s.projection.db (s.bind heard).projection.db := by
  have hpoll : (s.bind heard).poll = .idle ∨ (s.bind heard).poll = .wants false := by
    rw [Plane.bind]
    dsimp only
    split
    · exact .inl rfl
    · exact .inr rfl
  have htold (retried : Bool) (heard' : RunId) : (s.bind heard).poll ≠ .told retried heard' := by
    rcases hpoll with hpoll | hpoll <;> rw [hpoll] <;> simp
  have hgiven (retried : Bool) (source : RunId) (events : List OutputEvent) :
      (s.bind heard).poll ≠ .given retried source events := by
    rcases hpoll with hpoll | hpoll <;> rw [hpoll] <;> simp
  obtain ⟨htrades, hsettlements, hlast, hstored, hrun⟩ := bindRun_leaves s.projection heard
  refine ⟨⟨(h.receiving.bind heard).1, h.serves, fun _ _ hpoll => absurd hpoll (htold _ _), ?_, h.numbered, h.ids,
    fun _ _ _ hpoll => absurd hpoll (hgiven _ _ _), ?_⟩, ?_⟩
  · rcases hrun with hrun | hrun
    · exact hrun.1 ▸ h.bound
    · change (s.projection.bindRun heard).runId = 0 ∨ (s.projection.bindRun heard).runId = run
      rw [hrun.2]
      exact hheard
  · obtain ⟨k, hk⟩ := h.stores
    exact ⟨k, hk.frame htrades (hlast ▸ hk.last) (hstored ▸ hk.stored)⟩
  · rcases hrun with hrun | hrun
    · exact .inl (.of_eq htrades hsettlements hrun.2)
    · have hnone := h.receiving.unbound hrun.1
      exact .inr ⟨htrades.trans hnone, .inr ⟨hnone, hsettlements⟩⟩

theorem Feeds.step (h : Feeds run s) (hok : s.resyncs move = true) (hstep : s.step limit move = some s') :
    Feeds run s' ∧ Spares s.projection.db s'.projection.db ∧
      journalTrades s.gateway.journal <+: journalTrades s'.gateway.journal := by
  have hsame : Spares s.projection.db s.projection.db := .inl (.refl _)
  obtain ⟨hundisturbed, hok⟩ := Bool.and_eq_true_iff.1 hok
  rcases eq_or_ne move .rebuild with rfl | hmove
  · cases hstep
    have hidle : s.poll = .idle := of_decide_eq_true hok
    have hpoll {poll : Poll} (hne : poll ≠ .idle) : s.poll ≠ poll := fun heq => hne (heq.symm.trans hidle)
    have hgone {P : TradeRow → Prop} : ∀ row ∈ s.projection.wipe.db.trades, P row :=
      fun row hrow => absurd hrow List.not_mem_nil
    refine ⟨⟨⟨⟨hgone, List.nodup_nil, List.nodup_nil⟩, rfl, fun _ => rfl, fun _ hwants => ?_, fun _ _ _ hgiven => ?_⟩,
      h.serves, h.told, .inl rfl, h.numbered, h.ids, h.given, 0, Nat.zero_le _, rfl, hgone, ⟨le_rfl, le_rfl⟩, le_rfl, le_rfl⟩,
      .inr ⟨rfl, .inl rfl⟩, List.prefix_rfl⟩
    · exact absurd hwants (hpoll (by simp))
    · exact absurd hgiven (hpoll (by simp))
  have hreceiving := (h.receiving.step hmove hstep).1
  cases Plane.step_moved hstep with
  | @emit event hseq =>
    refine ⟨h.emit hseq fun trade htrade => ?_, hsame, ?_⟩
    · cases event with
      | Trade event =>
        rw [List.mem_singleton.1 htrade]
        exact of_decide_eq_true hok
      | _ => cases htrade
    · dsimp only
      rw [journalTrades_append]
      exact List.prefix_append _ _
  | around tail ready stale rebuilding resets =>
    exact ⟨⟨⟨h.receiving.tidy, h.receiving.stored, h.receiving.unbound, h.receiving.wants, h.receiving.given⟩, h.serves,
      h.told, h.bound, h.numbered, h.ids, h.given, h.stores⟩, hsame, List.prefix_rfl⟩
  | restartGateway => cases hundisturbed
  | call poll stale hpoll =>
    refine ⟨⟨hreceiving, h.serves, fun retried heard htold => ?_, h.bound, h.numbered, h.ids,
      fun retried source events hgiven => ?_, h.stores⟩, hsame, List.prefix_rfl⟩
    · rcases hpoll with rfl | ⟨_, rfl⟩ <;> cases htold
    · rcases hpoll with rfl | ⟨_, rfl⟩ <;> cases hgiven
  | again stale hpoll =>
    exact ⟨⟨hreceiving, h.serves, by simp, h.bound, h.numbered, h.ids, by simp, h.stores⟩, hsame, List.prefix_rfl⟩
  | serveHealth retried =>
    refine ⟨⟨hreceiving, h.serves, fun retried heard htold => ?_, h.bound, h.numbered, h.ids, by simp, h.stores⟩, hsame,
      List.prefix_rfl⟩
    cases htold
    rw [GatewayState.health]
    split
    · exact .inr h.serves
    · exact .inl rfl
  | healthArrives hpoll =>
    obtain ⟨hfeeds, hspares⟩ := h.bind (h.told _ _ hpoll)
    exact ⟨hfeeds, hspares, List.prefix_rfl⟩
  | serveOutputs hpoll =>
    refine ⟨⟨hreceiving, h.serves, by simp, h.bound, h.numbered, h.ids, fun retried source events hgiven => ?_, h.stores⟩,
      hsame, List.prefix_rfl⟩
    cases hgiven
    exact fun event hevent => List.mem_of_mem_drop (List.mem_of_mem_take hevent)
  | @outputsArrive retried source events hpoll =>
    rw [Plane.undisturbed, hpoll] at hundisturbed
    cases events with
    | nil =>
      rw [Plane.finish, if_pos rfl] at hreceiving ⊢
      exact ⟨⟨hreceiving, h.serves, by simp, h.bound, h.numbered, h.ids, by simp, h.stores⟩, hsame, List.prefix_rfl⟩
    | cons first rest =>
      have hrun := (commit_framed s.projection (first :: rest)).runId
      have hstart : s.projection.lastOutputSeq ≠ 0 ∨ ∀ event ∈ (first :: rest).head?, val event.output_seq = 1 := by
        simpa using (Bool.and_eq_true_iff.1 hundisturbed).2
      obtain ⟨k, hk⟩ := h.stores
      rw [Plane.finish, if_neg (List.cons_ne_nil _ _)] at hreceiving ⊢
      exact ⟨⟨hreceiving, h.serves, by simp, hrun ▸ h.bound, h.numbered, h.ids, by simp,
        hk.commit h.numbered h.nodup h.receiving.tidy (h.given _ _ _ hpoll) hstart⟩, .inl (commit_arrives _ _),
        List.prefix_rfl⟩
  | outputsAbort => cases hundisturbed
  | restartApi stale =>
    have hrun : (Projection.new s.projection.db).runId = s.projection.runId := h.receiving.stored.symm
    obtain ⟨k, hk⟩ := h.stores
    exact ⟨⟨hreceiving, h.serves, by simp, hrun ▸ h.bound, h.numbered, h.ids, by simp, k, hk.frame rfl hk.stored hk.stored⟩,
      hsame, List.prefix_rfl⟩
  | rebuild => exact absurd rfl hmove

end Feeding

/-! ## Blocks of trades -/

section Shipping
variable {sha256 : String → String} {venue : String} {limit size : Nat} {run : RunId} {known known' : List ManifestTrade}
  {db db' : Database} {hashed : String → Option Manifest} {manifest manifest' : Manifest} {id : String}

/-- The manifest of these trades. -/
def Manifest.listing (sha256 : String → String) (venue : String) (run : RunId) (trade : ManifestTrade)
    (rest : List ManifestTrade) : Manifest where
  venue := venue
  settlementId := settlementIdFor sha256 venue trade.tradeId (rest.getLastD trade).tradeId run
  firstTradeId := trade.tradeId
  lastTradeId := (rest.getLastD trade).tradeId
  trades := trade :: rest

/-- The manifest lists a block of the known trades, and its identity is theirs. -/
def Made (sha256 : String → String) (venue : String) (run : RunId) (size : Nat) (known : List ManifestTrade)
    (manifest : Manifest) : Prop :=
  ∃ trade rest, manifest = .listing sha256 venue run trade rest ∧ BlockOf size known (trade :: rest)

theorem Made.mono (h : Made sha256 venue run size known manifest) (hknown : known <+: known') :
    Made sha256 venue run size known' manifest := by
  obtain ⟨trade, rest, heq, hblock⟩ := h
  obtain ⟨more, rfl⟩ := hknown
  exact ⟨trade, rest, heq, hblock.grow more⟩

/-- Two manifests with a common trade are one. -/
theorem Made.eq (h : Made sha256 venue run size known manifest) (h' : Made sha256 venue run size known manifest')
    (hids : (known.map ManifestTrade.tradeId).Nodup) {id : TradeId} (hid : id ∈ manifest.tradeIds)
    (hid' : id ∈ manifest'.tradeIds) : manifest = manifest' := by
  obtain ⟨trade, rest, rfl, hblock⟩ := h
  obtain ⟨trade', rest', rfl, hblock'⟩ := h'
  obtain ⟨a, ha, hkey⟩ := List.mem_map.1 hid
  obtain ⟨b, hb, hkey'⟩ := List.mem_map.1 hid'
  obtain ⟨rfl, rfl⟩ := List.cons.inj (hblock.eq hblock' hids ha hb (hkey.trans hkey'.symm))
  rfl

/-- The settled trades are the first ones, in full blocks. -/
def Database.Aligned (size : Nat) (db : Database) : Prop :=
  ∃ settled later, db.trades = settled ++ later ∧ size ∣ settled.length ∧
    (∀ row ∈ settled, row.settlement_id ≠ none) ∧ ∀ row ∈ later, row.settlement_id = none

theorem Database.aligned_nil (h : db.trades = []) : db.Aligned size := ⟨[], [], h, dvd_zero _, by simp, by simp⟩

theorem Spares.aligned (hs : Spares db db') (h : db.Aligned size) : db'.Aligned size := by
  rcases hs with hs | ⟨hnone, -⟩
  · obtain ⟨settled, later, htrades, hsize, hsettled, hlater⟩ := h
    obtain ⟨more, hmore, hunsettled⟩ := hs.trades
    refine ⟨settled, later ++ more, ?_, hsize, hsettled, fun row hrow => ?_⟩
    · rw [hmore, htrades, List.append_assoc]
    · exact (List.mem_append.1 hrow).elim (hlater row) (hunsettled row)
  · exact Database.aligned_nil hnone

/-- A full batch is the next block. -/
theorem Database.Aligned.batch (h : db.Aligned size) {batchSize : Int} {row : TradeRow} {rest : List TradeRow}
    (hsorted : (db.trades.map TradeRow.trade_id).Pairwise (· < ·)) (hrows : db.unsettled batchSize = row :: rest)
    (hsize : (row :: rest).length = size) (id : String) :
    BlockOf size (db.trades.map TradeRow.manifestTrade) ((row :: rest).map TradeRow.manifestTrade) ∧
      (db.claim id row.trade_id (rest.getLastD row).trade_id).Aligned size := by
  obtain ⟨settled, later, htrades, hblocks, hsettled, hlater⟩ := h
  have hkeys : (db.trades.map TradeRow.trade_id).Nodup := hsorted.imp fun hlt => Std.ne_of_lt hlt
  have hfilter : (db.trades.filter fun row => row.settlement_id = none) = later := by
    rw [htrades, List.filter_append, List.filter_eq_nil_iff.2 (by simpa using hsettled),
      List.filter_eq_self.2 (by simpa using hlater), List.nil_append]
  have hlatersorted : later.Pairwise fun a b => a.trade_id < b.trade_id := by
    rw [htrades, List.map_append, List.pairwise_append, List.pairwise_map, List.pairwise_map] at hsorted
    exact hsorted.2.1
  have hlaterkeys : (later.map TradeRow.trade_id).Nodup := hkeys.sublist ((hfilter ▸ List.filter_sublist).map _)
  have hprefix : row :: rest <+: later := by
    have horder : Database.byTradeId later = later :=
      orderBy_eq hlaterkeys (hlaterkeys.of_map _) (hlatersorted.imp fun hlt => Std.le_of_lt hlt) fun _ => Iff.rfl
    rw [← horder, ← hfilter, ← hrows]
    exact limitRows_prefix _ _
  obtain ⟨after, rfl⟩ := hprefix
  refine ⟨⟨settled.map TradeRow.manifestTrade, after.map TradeRow.manifestTrade, ?_, ?_, ?_⟩, ?_⟩
  · rw [htrades, List.map_append, List.map_append]
  · rwa [List.length_map]
  · rwa [List.length_map]
  -- The range claims the block and nothing behind it.
  let write (trade : TradeRow) : TradeRow :=
    if trade.settlement_id = none ∧ row.trade_id ≤ trade.trade_id ∧ trade.trade_id ≤ (rest.getLastD row).trade_id then
      { trade with settlement_id := some id }
    else trade
  have hafter : after.map write = after := by
    refine (List.map_congr_left fun trade htrade => if_neg fun hrange => ?_).trans (List.map_id _)
    have hlast : rest.getLastD row ∈ row :: rest := List.getLastD_mem_cons
    have hlt := (List.pairwise_append.1 hlatersorted).2.2 _ hlast trade htrade
    exact absurd hrange.2.2 (Std.not_le.2 hlt)
  refine ⟨(settled ++ row :: rest).map write, after, ?_, ?_, fun trade htrade => ?_, fun trade htrade => ?_⟩
  · change db.trades.map write = _
    rw [htrades, ← List.append_assoc, List.map_append, hafter]
  · rw [List.length_map, List.length_append, hsize]
    exact (Nat.dvd_add_self_right).2 hblocks
  · obtain ⟨old, hold, rfl⟩ := List.mem_map.1 htrade
    simp only [write]
    split
    · simp
    · rename_i hrange
      rcases List.mem_append.1 hold with hold | hold
      · exact hsettled old hold
      · exact absurd (Database.mem_unsettled hkeys hrows hold).2 hrange
  · exact hlater trade (List.mem_append_right _ htrade)

/-! ## Accounts after a move of the plane -/

/-- Without trades there are no settlements. -/
theorem Accounted.settlements_nil (h : Accounted sha256 venue run ⟨db, hashed⟩) (hnone : db.trades = []) : db.settlements = [] := by
  refine List.eq_nil_iff_forall_not_mem.2 fun row hrow => ?_
  obtain ⟨manifest, -, hcovers⟩ := h.rows _ (List.mem_map_of_mem hrow)
  obtain ⟨trade, htrade, -⟩ := hcovers.first
  rw [← hcovers.trades, List.mem_map] at htrade
  obtain ⟨stored, hstored, -⟩ := htrade
  have hmem := (Database.mem_claimedBy.1 hstored).1
  dsimp only at hmem
  rw [hnone] at hmem
  cases hmem

theorem Accounted.spares {run' : RunId} (h : Accounted sha256 venue run ⟨db, hashed⟩) (htidy : db'.Tidy run')
    (hs : Spares db db') : Accounted sha256 venue run' ⟨db', hashed⟩ := by
  rcases hs with hs | ⟨htrades, hsettlements⟩
  · exact h.frame htidy hs.run hs.claimedBy (by rw [hs.settlements])
  · have hnone : db'.settlements = [] := by
      rcases hsettlements with hnone | ⟨hold, hsame⟩
      · exact hnone
      · exact hsame.trans (h.settlements_nil hold)
    refine ⟨htidy, ?_, ?_⟩
    · dsimp only
      rw [hnone]
      exact nofun
    · dsimp only
      rw [htrades]
      exact nofun

theorem Spares.get_none (hs : Spares db db') (h : db.get id = none) : db'.get id = none := by
  rw [Database.get] at h ⊢
  rcases hs with hs | ⟨-, hnone | ⟨-, hsame⟩⟩
  · rwa [hs.settlements]
  · rw [hnone]
    rfl
  · rwa [hsame]

/-! ## The invariant -/

variable (sha256 venue) in
/-- Every settlement, and every one that was sent, is a block of the run's trades. `hashed` are the manifests of the
settlements. -/
structure Ships (run : RunId) (size : Nat) (hashed : String → Option Manifest) (s : SentLog) : Prop where
  feeds : Feeds run s.office.plane
  aligned : s.office.db.Aligned size
  accounted : Accounted sha256 venue s.office.plane.projection.runId ⟨s.office.db, hashed⟩
  made : ∀ id manifest, hashed id = some manifest →
    Made sha256 venue run size (journalTrades s.office.plane.gateway.journal) manifest
  looked : ∀ row manifest left, s.office.tick = .lookup row manifest left →
    s.office.db.get row.settlement_id = none ∨ hashed row.settlement_id = some manifest
  sent : ∀ entry ∈ s.sent,
    Made sha256 venue run size (journalTrades s.office.plane.gateway.journal) entry.2 ∧ entry.2.settlementId = entry.1

variable {s s' : SentLog} {office : Office} {row : SettlementRow} {left : List SettlementRow}

theorem Ships.init (run : RunId) (size : Nat) : Ships sha256 venue run size (fun _ => none) (.init run) where
  feeds := .init run
  aligned := Database.aligned_nil rfl
  accounted := ⟨⟨fun _ h => absurd h List.not_mem_nil, List.nodup_nil, List.nodup_nil⟩, fun _ h => absurd h List.not_mem_nil,
    fun _ h => absurd h List.not_mem_nil⟩
  made := by simp
  looked := by simp [SentLog.init, Office.init]
  sent _ h := absurd h List.not_mem_nil

/-- Nothing is sent or claimed. -/
theorem Ships.frame (h : Ships sha256 venue run size hashed s) (hfeeds : Feeds run office.plane)
    (haligned : office.db.Aligned size) (haccounted : Accounted sha256 venue office.plane.projection.runId ⟨office.db, hashed⟩)
    (hjournal : journalTrades s.office.plane.gateway.journal <+: journalTrades office.plane.gateway.journal)
    (hlooked : ∀ row manifest left, office.tick = .lookup row manifest left →
      office.db.get row.settlement_id = none ∨ hashed row.settlement_id = some manifest) :
    Ships sha256 venue run size hashed { s with office := office } where
  feeds := hfeeds
  aligned := haligned
  accounted := haccounted
  made id manifest hid := (h.made id manifest hid).mono hjournal
  looked := hlooked
  sent entry hentry := ⟨(h.sent entry hentry).1.mono hjournal, (h.sent entry hentry).2⟩

theorem Ships.plane (h : Ships sha256 venue run size hashed s) {move : PlaneMove} {plane : Plane} {tick : Tick}
    (hok : s.office.plane.resyncs move = true) (hstep : s.office.plane.step limit move = some plane)
    (htick : tick = s.office.tick ∨ tick = .idle) :
    Ships sha256 venue run size hashed { s with office := { s.office with plane := plane, tick := tick } } := by
  obtain ⟨hfeeds, hspares, hjournal⟩ := h.feeds.step hok hstep
  refine h.frame hfeeds (hspares.aligned h.aligned) (h.accounted.spares hfeeds.receiving.tidy hspares) hjournal
    fun row manifest left hlooked => ?_
  rcases htick with rfl | rfl
  · exact (h.looked row manifest left hlooked).imp_left hspares.get_none
  · cases hlooked

/-! ## Moves of the dispatcher -/

theorem Feeds.setDb (h : Feeds run office.plane) (hreceiving : Receiving (office.setDb db).plane)
    (hstate : db.state = office.db.state) {write : TradeRow → TradeRow} (htrades : db.trades = office.db.trades.map write)
    (hwrite : ∀ row, (write row).manifestTrade = row.manifestTrade ∧ (write row).output_seq = row.output_seq) :
    Feeds run (office.setDb db).plane where
  receiving := hreceiving
  serves := h.serves
  told := h.told
  bound := h.bound
  numbered := h.numbered
  ids := h.ids
  given := h.given
  stores := by
    obtain ⟨k, hk⟩ := h.stores
    refine ⟨k, hk.le, ?_, fun row hrow => ?_, hk.last, ?_⟩
    · change db.trades.map _ = _
      rw [htrades, List.map_map]
      exact (List.map_congr_left fun row _ => (hwrite row).1).trans hk.trades
    · change row ∈ db.trades at hrow
      rw [htrades] at hrow
      obtain ⟨old, hold, rfl⟩ := List.mem_map.1 hrow
      rw [(hwrite old).2]
      exact hk.seqs old hold
    · change 0 ≤ db.state.last_output_seq ∧ db.state.last_output_seq ≤ _
      rw [hstate]
      exact hk.stored

/-- The trades stay as they are. -/
theorem Ships.restate (h : Ships sha256 venue run size hashed s) (tick : Tick) (htrades : db'.trades = s.office.db.trades)
    (hstate : db'.state = s.office.db.state) (htidy : db'.Tidy s.office.plane.projection.runId)
    (haccounted : Accounted sha256 venue s.office.plane.projection.runId ⟨db', hashed⟩)
    (hlooked : ∀ row manifest left, tick = .lookup row manifest left →
      db'.get row.settlement_id = none ∨ hashed row.settlement_id = some manifest) :
    Ships sha256 venue run size hashed { s with office := { s.office.setDb db' with tick := tick } } := by
  have hreceiving : Receiving (s.office.setDb db').plane :=
    h.feeds.receiving.setDb htidy hstate fun hnone => htrades.trans hnone
  refine h.frame (h.feeds.setDb hreceiving hstate (htrades.trans (List.map_id _).symm) fun _ => ⟨rfl, rfl⟩)
    ?_ haccounted List.prefix_rfl hlooked
  obtain ⟨settled, later, hold, hfacts⟩ := h.aligned
  exact ⟨settled, later, htrades.trans hold, hfacts⟩

theorem Ships.restated (h : Ships sha256 venue run size hashed s) {change : SettlementStatus → SettlementStatus}
    (hr : s.office.db.Restated id change db') (tick : Tick)
    (hbatches : db'.settlements.map SettlementRow.batch = s.office.db.settlements.map SettlementRow.batch)
    (htick : ∀ row manifest left, tick ≠ .lookup row manifest left) :
    Ships sha256 venue run size hashed { s with office := { s.office.setDb db' with tick := tick } } :=
  h.restate tick hr.trades hr.state (h.feeds.receiving.tidy.restated hr) (h.accounted.restated hr hbatches)
    fun row manifest left hlooked => absurd hlooked (htick row manifest left)

theorem Ships.idle (h : Ships sha256 venue run size hashed s) :
    Ships sha256 venue run size hashed { s with office := { s.office with tick := .idle } } :=
  h.frame h.feeds h.aligned h.accounted List.prefix_rfl (by simp)

/-- What a transaction of the outbox that records an outcome does. -/
def Records (db : Database) (result : Except OutboxError Database) : Prop :=
  ∀ db', result = .ok db' → ∃ id change, db.Restated id change db' ∧
    db'.settlements.map SettlementRow.batch = db.settlements.map SettlementRow.batch

theorem transition_records {next : SettlementStatus} {options : Database.TransitionOptions} :
    Records db (db.transition id next options) := fun _ hok =>
  ⟨id, _, Database.transition_restates hok, Database.transition_batches hok⟩

theorem recordUnknown_records {nowMs : Nat} {error : String} :
    Records db (db.recordUnknown nowMs id error) := fun _ hok => by
  obtain ⟨next, -, hr⟩ := Database.recordUnknown_restates hok
  exact ⟨id, _, hr, Database.recordUnknown_batches hok⟩

theorem Ships.proceed (h : Ships sha256 venue run size hashed s) {result : Except OutboxError Database}
    (hresult : Records s.office.db result) (left : List SettlementRow) :
    Ships sha256 venue run size hashed {
      office := s.office.proceed result (.rows left)
      sent := s.sent ++ (s.office.proceed result (.rows left)).tick.sends } := by
  cases result with
  | ok db' =>
    obtain ⟨id, change, hr, hbatches⟩ := hresult db' rfl
    rw [show (s.office.proceed (.ok db') (.rows left)).tick.sends = [] from rfl, List.append_nil]
    exact h.restated hr _ hbatches (by simp)
  | error error =>
    rw [show (s.office.proceed (.error error) (.rows left)).tick.sends = [] from rfl, List.append_nil]
    exact h.idle

theorem Accounted.hashed_of_manifestFor (h : Accounted sha256 venue run ⟨db, hashed⟩)
    (hok : db.manifestFor sha256 id = .ok manifest) : hashed id = some manifest := by
  cases hget : db.get id with
  | none =>
    rw [Database.manifestFor, hget] at hok
    cases hok
  | some row =>
    obtain ⟨hmem, rfl⟩ := Database.mem_of_get hget
    obtain ⟨manifest', hhashed, hcovers⟩ := h.rows _ (List.mem_map_of_mem hmem)
    rw [hcovers.manifestFor hget] at hok
    cases hok
    exact hhashed

theorem Accounted.identity (h : Accounted sha256 venue run ⟨db, hashed⟩) (hget : db.get id = some row)
    (hhashed : hashed id = some manifest) : manifest.settlementId = id := by
  obtain ⟨hmem, rfl⟩ := Database.mem_of_get hget
  obtain ⟨manifest', hhashed', hcovers⟩ := h.rows _ (List.mem_map_of_mem hmem)
  obtain rfl : manifest' = manifest := Option.some.inj (hhashed'.symm.trans hhashed)
  exact (congrArg Batch.settlement_id hcovers.batch).symm

/-- A settlement that is there is sent with its manifest. -/
theorem Ships.send (h : Ships sha256 venue run size hashed s) (hget : s.office.db.get id = some row)
    (hhashed : hashed id = some manifest) : Ships sha256 venue run size hashed { s with sent := s.sent ++ [(id, manifest)] } := by
  refine ⟨h.feeds, h.aligned, h.accounted, h.made, h.looked, fun entry hentry => ?_⟩
  rcases List.mem_append.1 hentry with hentry | hentry
  · exact h.sent entry hentry
  · rw [List.mem_singleton.1 hentry]
    exact ⟨h.made id manifest hhashed, h.accounted.identity hget hhashed⟩

theorem Ships.submit (h : Ships sha256 venue run size hashed s)
    (hhashed : s.office.db.get row.settlement_id = none ∨ hashed row.settlement_id = some manifest) :
    Ships sha256 venue run size hashed {
      office := s.office.submit row manifest left
      sent := s.sent ++ (s.office.submit row manifest left).tick.sends } := by
  rw [Office.submit]
  cases hrecord : s.office.db.recordAttempt row.settlement_id with
  | error error =>
    rw [show (s.office.proceed (.error error) (.submit row manifest left)).tick.sends = [] from rfl, List.append_nil]
    exact h.idle
  | ok db' =>
    have hr := Database.transition_restates hrecord
    have hsent := h.restated hr (.submit row manifest left) (Database.transition_batches hrecord) (by simp)
    obtain ⟨current, hcurrent, hafter⟩ := hr.here
    obtain ⟨old, hold, -⟩ := Option.map_eq_some_iff.1 hcurrent
    obtain ⟨new, hnew, -⟩ := Option.map_eq_some_iff.1 hafter
    refine hsent.send hnew (hhashed.resolve_left ?_)
    simp [hold]

theorem Ships.advance (h : Ships sha256 venue run size hashed s) :
    Ships sha256 venue run size hashed {
      office := s.office.advance sha256 row left
      sent := s.sent ++ (s.office.advance sha256 row left).tick.sends } := by
  rw [Office.advance]
  cases hmanifest : s.office.db.manifestFor sha256 row.settlement_id with
  | error error =>
    cases error with
    | ManifestConflict settlementId => exact h.proceed transition_records left
    | _ =>
      dsimp only
      rw [show Tick.idle.sends = [] from rfl, List.append_nil]
      exact h.idle
  | ok manifest =>
    have hhashed := h.accounted.hashed_of_manifestFor hmanifest
    dsimp only
    split
    · rw [show (Tick.lookup row manifest left).sends = [] from rfl, List.append_nil]
      refine h.frame h.feeds h.aligned h.accounted List.prefix_rfl fun row' manifest' left' hlooked => .inr ?_
      cases hlooked
      exact hhashed
    · exact h.submit (.inr hhashed)

theorem Ships.record (h : Ships sha256 venue run size hashed s) {outcome : SubmitOutcome} {nowMs : Nat} :
    Ships sha256 venue run size hashed {
      office := s.office.record row left nowMs outcome
      sent := s.sent ++ (s.office.record row left nowMs outcome).tick.sends } := by
  cases outcome with
  | confirmed receipt | alreadyApplied receipt | rejected reason => exact h.proceed transition_records left
  | unknown reason | notFound => exact h.proceed recordUnknown_records left

theorem Ships.makeDue (h : Ships sha256 venue run size hashed s) (settlementId : Option String) :
    Ships sha256 venue run size hashed { s with office := s.office.setDb (s.office.db.makeDue settlementId) } := by
  have hgrows : Grows s.office.plane.projection.runId s.office.db (s.office.db.makeDue settlementId) := makeDue_grows _ _
  have htrades : (s.office.db.makeDue settlementId).trades = s.office.db.trades := by cases settlementId <;> rfl
  have hstate : (s.office.db.makeDue settlementId).state = s.office.db.state := by cases settlementId <;> rfl
  refine h.restate s.office.tick htrades hstate (hgrows.tidy h.feeds.receiving.tidy) (h.accounted.makeDue settlementId) ?_
  intro row manifest left hlooked
  refine (h.looked row manifest left hlooked).imp_left fun hnone => ?_
  have hstatus := hgrows.status row.settlement_id
  rw [Database.status, Database.status, hnone, Option.map_none, Option.map_eq_none_iff] at hstatus
  exact hstatus

/-- A full batch is the next block of the run's trades. -/
theorem Ships.createBatch (h : Ships sha256 venue run size hashed s) {batchSize : Int} {rows : List SettlementRow}
    (hmanifest : s.office.db.batchManifest sha256 venue batchSize = some manifest)
    (hfree : OutboxHistory.collisionFree sha256 venue ⟨s.office.db, fun _ => none⟩ (.createBatch batchSize) = true)
    (hfull : s.office.db.unsettled batchSize = [] ∨ (s.office.db.unsettled batchSize).length = size) :
    Ships sha256 venue run size (Function.update hashed manifest.settlementId (some manifest))
      { s with office := { s.office.setDb (s.office.db.writeBatch sha256 manifest) with tick := .rows rows } } := by
  obtain ⟨hok, haccounted⟩ := h.accounted.createBatch hmanifest hfree
  have hclaims := Database.createBatch_claims hok
  obtain ⟨row, rest, hrows, rfl⟩ := Database.batchManifest_eq hmanifest
  obtain ⟨hsorted, hprefix⟩ := h.feeds.trades
  rw [hrows] at hfull
  obtain ⟨hblock, haligned⟩ := h.aligned.batch hsorted hrows (hfull.resolve_left (List.cons_ne_nil _ _))
    (settlementIdFor sha256 venue row.trade_id (rest.getLastD row).trade_id s.office.db.state.run_id)
  have hreceiving := h.feeds.receiving.setDb haccounted.tidy hclaims.state hclaims.tradeless
  have hinsert (settlement : SettlementRow) :
      (s.office.db.insert_settlement settlement).trades = s.office.db.trades := by
    rw [Database.insert_settlement]
    split <;> rfl
  have hrun : s.office.db.state.run_id = run := by
    have hmem := (Database.mem_unsettled (hsorted.imp fun hlt => Std.ne_of_lt hlt) hrows List.mem_cons_self).1
    have hbound : s.office.plane.projection.runId ≠ 0 :=
      fun h0 => absurd (h.feeds.receiving.unbound h0) (List.ne_nil_of_mem hmem)
    exact h.feeds.receiving.stored.symm.trans (h.feeds.bound.resolve_left hbound)
  refine ⟨h.feeds.setDb hreceiving hclaims.state (congrArg (List.map _) (hinsert _)) fun trade => ?_, ?_, haccounted,
    fun id other hother => ?_, by simp, h.sent⟩
  · split <;> exact ⟨rfl, rfl⟩
  · obtain ⟨settled, later, htrades, hfacts⟩ := haligned
    exact ⟨settled, later, (congrArg (List.map _) (hinsert _)).trans htrades, hfacts⟩
  · rcases eq_or_ne id (settlementIdFor sha256 venue row.trade_id (rest.getLastD row).trade_id s.office.db.state.run_id)
      with rfl | hne
    · rw [Function.update_self] at hother
      cases hother
      refine ⟨row.manifestTrade, rest.map TradeRow.manifestTrade, ?_, ?_⟩
      · have hlast : ((rest.map TradeRow.manifestTrade).getLastD row.manifestTrade).tradeId = (rest.getLastD row).trade_id := by
          rw [List.getLastD_eq_getLast?, List.getLastD_eq_getLast?, List.getLast?_map]
          cases rest.getLast? <;> rfl
        rw [hrun, Manifest.listing, hlast]
        rfl
      · obtain ⟨more, hmore⟩ := hprefix
        change BlockOf size (journalTrades s.office.plane.gateway.journal) _
        rw [← hmore]
        exact hblock.grow more
    · rw [Function.update_of_ne hne] at hother
      exact h.made id other hother

/-! ## Runs -/

theorem Ships.step (h : Ships sha256 venue run size hashed s) {move : OfficeMove} (hok : s.resyncs sha256 venue size move = true)
    (hstep : s.step sha256 venue limit move = some s') : ∃ hashed', Ships sha256 venue run size hashed' s' := by
  obtain ⟨office, hoffice, rfl⟩ := Option.map_eq_some_iff.1 hstep
  cases move with
  | plane move =>
    rw [Office.step] at hoffice
    obtain ⟨plane, hplane, hoffice⟩ := Option.map_eq_some_iff.1 hoffice
    have hresyncs : s.office.plane.resyncs move = true := hok
    dsimp only
    rw [List.append_nil]
    split at hoffice
    · cases hoffice
      exact ⟨hashed, h.plane hresyncs hplane (.inr rfl)⟩
    · cases hoffice
      exact ⟨hashed, h.plane hresyncs hplane (.inl rfl)⟩
  | tick batchSize nowMs =>
    rw [Office.step] at hoffice
    dsimp only
    rw [List.append_nil]
    split at hoffice
    · rename_i htick
      obtain ⟨hfree, hfull⟩ := of_decide_eq_true hok htick
      split at hoffice
      · rename_i db' batch hbatch
        cases hoffice
        cases hmanifest : s.office.db.batchManifest sha256 venue batchSize with
        | none =>
          rw [Database.createBatch_eq, hmanifest] at hbatch
          cases hbatch
          exact ⟨hashed, h.frame h.feeds h.aligned h.accounted List.prefix_rfl (by simp)⟩
        | some manifest =>
          rw [(h.accounted.createBatch hmanifest hfree).1] at hbatch
          cases hbatch
          exact ⟨_, h.createBatch hmanifest hfree hfull⟩
      · cases hoffice
        exact ⟨hashed, h⟩
    · cases hoffice
      exact ⟨hashed, h⟩
  | advance =>
    rw [Office.step] at hoffice
    split at hoffice
    · cases hoffice
      refine ⟨hashed, ?_⟩
      dsimp only
      rw [show Tick.idle.sends = [] from rfl, List.append_nil]
      exact h.idle
    · cases hoffice
      exact ⟨hashed, h.advance⟩
    · cases hoffice
  | apply =>
    rw [Office.step] at hoffice
    dsimp only
    rw [List.append_nil]
    split at hoffice
    · split at hoffice
      · cases hoffice
      · cases hoffice
        exact ⟨hashed, h.frame h.feeds h.aligned h.accounted List.prefix_rfl h.looked⟩
    · cases hoffice
  | answer outcome nowMs =>
    rw [Office.step] at hoffice
    split at hoffice
    · rename_i htick
      split at hoffice
      · cases hoffice
      · split at hoffice
        · cases hoffice
          exact ⟨hashed, h.submit (h.looked _ _ _ htick)⟩
        · cases hoffice
          exact ⟨hashed, h.record⟩
    · split at hoffice
      · cases hoffice
      · cases hoffice
        exact ⟨hashed, h.record⟩
    · cases hoffice
  | throw =>
    rw [Office.step] at hoffice
    dsimp only
    rw [List.append_nil]
    split at hoffice
    · cases hoffice
      exact ⟨hashed, h.idle⟩
    · cases hoffice
      exact ⟨hashed, h.idle⟩
    · cases hoffice
  | releaseFailed id => cases hok
  | makeDue id =>
    cases hoffice
    dsimp only
    rw [List.append_nil]
    exact ⟨hashed, h.makeDue id⟩

/-- In every run with batches of one size and no release, whatever the polls, ticks and rebuilds: a settlement with a
trade of one that was sent has its identity and its manifest, and so the trade is sent under no other. -/
theorem resync_keeps_identities
    (h : Reach (SentLog.step sha256 venue limit) (fun s move => s.resyncs sha256 venue size move = true) (.init run) s) :
    (∀ entry ∈ s.sent, ∀ row ∈ s.office.db.settlements,
      (∃ trade ∈ s.office.db.claimedBy row.settlement_id, trade.trade_id ∈ entry.2.tradeIds) →
      row.settlement_id = entry.1 ∧ s.office.db.manifestFor sha256 row.settlement_id = .ok entry.2) ∧
    ∀ entry ∈ s.sent, ∀ entry' ∈ s.sent,
      (∃ trade ∈ entry.2.tradeIds, trade ∈ entry'.2.tradeIds) → entry = entry' := by
  obtain ⟨hashed, hships⟩ : ∃ hashed, Ships sha256 venue run size hashed s :=
    h.inv (fun s => ∃ hashed, Ships sha256 venue run size hashed s) ⟨_, .init run size⟩
      fun s move s' ⟨hashed, hs⟩ hok hstep => hs.step hok hstep
  have hids := hships.feeds.nodup
  constructor
  · rintro entry hentry row hrow ⟨trade, htrade, hshared⟩
    obtain ⟨manifest, hmanifest, hcovers⟩ := hships.accounted.rows _ (List.mem_map_of_mem hrow)
    obtain ⟨hmade, hid⟩ := hships.sent entry hentry
    have hrowid : row.settlement_id = manifest.settlementId := congrArg Batch.settlement_id hcovers.batch
    have htrades : trade.trade_id ∈ manifest.tradeIds := by
      rw [Manifest.tradeIds, ← hcovers.trades, ← hrowid, List.map_map]
      exact List.mem_map_of_mem htrade
    obtain rfl := (hships.made _ _ hmanifest).eq hmade hids htrades hshared
    exact ⟨hrowid.trans hid, hcovers.manifestFor (find?_key hships.accounted.tidy.settlements hrow)⟩
  · rintro entry hentry entry' hentry' ⟨trade, htrade, htrade'⟩
    obtain ⟨hmade, hid⟩ := hships.sent entry hentry
    obtain ⟨hmade', hid'⟩ := hships.sent entry' hentry'
    have hsame := hmade.eq hmade' hids htrade htrade'
    exact Prod.ext (hid.symm.trans ((congrArg Manifest.settlementId hsame).trans hid')) hsame

/-- The projection starts over, and polls. -/
def wholeResync : List OfficeMove :=
  (PlaneMove.rebuild :: .serveReset :: .rebuildEnds :: wholePoll).map .plane

/-- The response to the submission of two trades is lost, two more follow, and everything is rebuilt before the next tick:
the first settlement is sent again under its identity, and then the other two trades. -/
theorem resync_keeps_identities_small :
    ∃ s, Reach (SentLog.step (fun text => text) "sim" 500)
        (fun s move => s.resyncs (fun text => text) "sim" 2 move = true) (.init 1) s ∧
      s.sent.map (fun entry => (entry.1, entry.2.tradeIds)) =
        [("stl_sim|1|1|2", [1, 2]), ("stl_sim|1|1|2", [1, 2]), ("stl_sim|1|3|4", [3, 4])] ∧
      ∀ entry ∈ s.sent, ∀ entry' ∈ s.sent, (∃ trade ∈ entry.2.tradeIds, trade ∈ entry'.2.tradeIds) → entry = entry' := by
  have hwalk : ∃ s ∈ walk (SentLog.step (fun text => text) "sim" 500)
      (fun s move => s.resyncs (fun text => text) "sim" 2 move = true) (.init 1)
      (lotArrives 1 ++ lotArrives 2 ++ [.tick 2 0, .advance, .apply, .throw] ++
        [.plane (.emit (lotTraded 3)), .plane (.emit (lotTraded 4))] ++ wholeResync ++
        [.tick 2 0, .advance, .answer (.alreadyApplied "r1") 0, .advance, .tick 2 0, .advance]),
      s.sent.map (fun entry => (entry.1, entry.2.tradeIds)) =
        [("stl_sim|1|1|2", [1, 2]), ("stl_sim|1|1|2", [1, 2]), ("stl_sim|1|3|4", [3, 4])] := by
    decide +kernel
  obtain ⟨s, hs, hsent⟩ := hwalk
  have hreach := reach_of_walk hs
  exact ⟨s, hreach, hsent, (resync_keeps_identities hreach).2⟩

/-- A trade is settled, and another one follows. After a rebuild both are unsettled, and make one
batch with an identity that the venue does not know: it applies the first trade again. -/
theorem resync_changes_identity :
    ∃ s ∈ walk (SentLog.step (fun text => text) "sim" 500) (fun _ _ => True) (.init 1)
      (lotArrives 1 ++ [.tick 50 0, .advance, .apply, .answer (.confirmed "r1") 0, .advance] ++
        [.plane (.emit (lotTraded 2))] ++ wholeResync ++
        [.tick 50 0, .advance, .apply, .answer (.confirmed "r2") 0]),
      s.sent.map (fun entry => (entry.1, entry.2.tradeIds)) = [("stl_sim|1|1|1", [1]), ("stl_sim|1|1|2", [1, 2])] ∧
      s.office.ledger = s.sent ∧
      s.office.db.settlements.map (fun row => (row.settlement_id, row.status)) = [("stl_sim|1|1|2", .confirmed)] := by
  decide +kernel

end Shipping

end TradingLab
