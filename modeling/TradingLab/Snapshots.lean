import TradingLab.MarketSync
/-!
# Snapshots and updates

What a snapshot that nothing interrupts leaves in the view: the best levels of all it
sent, each with the quantity sent last. The levels are bounded while they arrive, and
`take_place` lets the bound be taken of the whole list instead. Updates are different: a level
that was dropped does not come back when the levels before it are removed.
-/
open LabLib

namespace TradingLab

/-! ## All levels of a snapshot -/

/-- The levels of a side that the messages offer. -/
def offers (side : Side) (messages : List FeedMessage) : List (PriceTicks × UInt64) :=
  messages.filterMap fun message => match message.kind with
    | .SnapshotLevel s price quantity => if s = side ∧ ¬QuantityLots.is_zero quantity then some (price, quantity) else none
    | _ => none

/-- The quantity offered last for a price. -/
def lastOffer (offers : List (PriceTicks × UInt64)) (price : PriceTicks) : UInt64 :=
  (offers.reverse.find? fun offer => offer.1 = price).elim 0 Prod.snd

/-- The distinct prices offered, the best first. -/
def bestPrices (side : Side) (offers : List (PriceTicks × UInt64)) : List PriceTicks :=
  (offers.map Prod.fst).dedup.insertionSort fun p q => ¬side.Ahead q p

/-- The best of the prices offered, each with the quantity offered last. -/
def bestLevels (depth : Nat) (side : Side) (offers : List (PriceTicks × UInt64)) : List (PriceTicks × UInt64) :=
  ((bestPrices side offers).take depth).map fun price => (price, lastOffer offers price)

section Offers
variable {side : Side} {depth : Nat}

/-- All levels offered, the best first. -/
def offeredRows (side : Side) (offers : List (PriceTicks × UInt64)) : List (PriceTicks × UInt64) :=
  offers.foldl (fun rows offer => place side.Ahead offer.1 offer.2 rows) []

theorem offeredRows_snoc (side : Side) (offers : List (PriceTicks × UInt64)) (offer : PriceTicks × UInt64) :
    offeredRows side (offers ++ [offer]) = place side.Ahead offer.1 offer.2 (offeredRows side offers) :=
  List.foldl_append

theorem offeredRows_ranked (side : Side) (offers : List (PriceTicks × UInt64)) :
    Ranked side.Ahead (offeredRows side offers) := by
  induction offers using List.reverseRecOn with
  | nil => exact ranked_nil
  | append_singleton offers offer ih =>
    rw [offeredRows_snoc]
    exact ih.place _ _

theorem lastOffer_snoc (offers : List (PriceTicks × UInt64)) (offer : PriceTicks × UInt64) (price : PriceTicks) :
    lastOffer (offers ++ [offer]) price = if offer.1 = price then offer.2 else lastOffer offers price := by
  rw [lastOffer, List.reverse_append, List.reverse_singleton, List.singleton_append, List.find?_cons]
  by_cases hp : offer.1 = price
  · simp [hp]
  · simp [hp, lastOffer]

theorem mem_offeredRows {offers : List (PriceTicks × UInt64)} {row : PriceTicks × UInt64} :
    row ∈ offeredRows side offers ↔ row.1 ∈ offers.map Prod.fst ∧ row.2 = lastOffer offers row.1 := by
  induction offers using List.reverseRecOn with
  | nil => simp [offeredRows]
  | append_singleton offers offer ih =>
    rw [offeredRows_snoc, mem_place (offeredRows_ranked side offers), ih, lastOffer_snoc, List.map_append,
      List.mem_append, Prod.ext_iff]
    by_cases hp : row.1 = offer.1
    · simp [hp]
    · simp [hp, Ne.symm hp]

theorem bestPrices_ahead (side : Side) (offers : List (PriceTicks × UInt64)) :
    (bestPrices side offers).Pairwise side.Ahead := by
  have htotal : Std.Total fun p q : PriceTicks => ¬side.Ahead q p :=
    ⟨fun p q => (em (side.Ahead q p)).elim (fun h => .inr (asymm_of side.Ahead h)) .inl⟩
  have htrans : IsTrans PriceTicks fun p q => ¬side.Ahead q p := by
    refine ⟨fun p q r hpq hqr hrp => ?_⟩
    rcases trichotomous_of side.Ahead p q with h | rfl | h
    · exact hqr (trans_of side.Ahead hrp h)
    · exact hqr hrp
    · exact hpq h
  have hsorted := List.pairwise_insertionSort (fun p q => ¬side.Ahead q p) (offers.map Prod.fst).dedup
  have hnodup : (bestPrices side offers).Nodup :=
    (List.perm_insertionSort _ _).nodup_iff.2 (List.nodup_dedup _)
  refine (hsorted.and hnodup).imp fun ⟨hle, hne⟩ => ?_
  rcases trichotomous_of side.Ahead _ _ with h | h | h
  · exact h
  · exact absurd h hne
  · exact absurd h hle

/-- The rows are the distinct prices with their last quantities. -/
theorem offeredRows_eq (side : Side) (offers : List (PriceTicks × UInt64)) :
    offeredRows side offers = (bestPrices side offers).map fun price => (price, lastOffer offers price) := by
  refine (offeredRows_ranked side offers).ext ?_ fun row => ?_
  · rw [Ranked, List.pairwise_map]
    exact bestPrices_ahead side offers
  · rw [mem_offeredRows]
    have hmem : ∀ price, price ∈ bestPrices side offers ↔ price ∈ offers.map Prod.fst := fun price =>
      (List.perm_insertionSort _ _).mem_iff.trans List.mem_dedup
    constructor
    · rintro ⟨hprice, hlast⟩
      exact List.mem_map.2 ⟨row.1, (hmem _).2 hprice, Prod.ext rfl hlast.symm⟩
    · intro hrow
      obtain ⟨price, hprice, rfl⟩ := List.mem_map.1 hrow
      exact ⟨(hmem _).1 hprice, rfl⟩

theorem bestLevels_eq (depth : Nat) (side : Side) (offers : List (PriceTicks × UInt64)) :
    bestLevels depth side offers = (offeredRows side offers).take depth := by
  rw [bestLevels, offeredRows_eq, List.map_take]

theorem offers_snoc (side : Side) (messages : List FeedMessage) (message : FeedMessage) :
    offers side (messages ++ [message]) = offers side messages ++ offers side [message] := List.filterMap_append

/-- Bounding the ladder while its levels arrive leaves the best of all levels. -/
theorem ladder_snapshotLadder (side : Side) (depth : Nat) (messages : List FeedMessage) :
    ladder side (snapshotLadder side depth messages) = bestLevels depth side (offers side messages) := by
  rw [bestLevels_eq]
  induction messages using List.reverseRecOn with
  | nil => simp [snapshotLadder, offers, offeredRows]
  | append_singleton messages message ih =>
    rw [snapshotLadder_snoc, offers_snoc]
    cases hkind : message.kind with
    | SnapshotLevel s price quantity =>
      by_cases hoffer : s = side ∧ ¬QuantityLots.is_zero quantity
      · have hone : offers side [message] = [(price, quantity)] := by simp [offers, hkind, hoffer]
        rw [snapshotStep, if_pos hoffer, hone, offeredRows_snoc,
          ladder_set_bounded side price quantity (size_snapshotLadder side depth messages), ih, take_place]
      · have hnone : offers side [message] = [] := by
          rw [offers, List.filterMap_cons, hkind]
          simp only [if_neg hoffer, List.filterMap_nil]
        rw [snapshotStep, if_neg hoffer, hnone, List.append_nil, ih]
    | SnapshotBegin _ | SnapshotEnd _ _ | LevelSet _ _ _ | Trade _ _ _ | Heartbeat | FeedReset _ =>
      have hnone : offers side [message] = [] := by simp [offers, hkind]
      rw [hnone, List.append_nil, ← ih]
      rfl

end Offers

/-! ## A snapshot that nothing interrupts -/

section Snapshot
variable {v w : MarketView} {first last message : FeedMessage} {levels : List FeedMessage} {snapshot_seq : UInt64}

/-- The message offers a level. -/
def FeedMessage.Offers (message : FeedMessage) : Prop :=
  match message.kind with
  | .SnapshotLevel _ _ quantity => ¬QuantityLots.is_zero quantity
  | _ => False

instance (message : FeedMessage) : Decidable message.Offers := by
  unfold FeedMessage.Offers
  split <;> infer_instance

/-- A `SnapshotBegin` that the sequence check accepts, less than 2^32 levels with prices of
the instrument, and one message more, all with consecutive numbers. -/
structure Uninterrupted (v : MarketView) (first : FeedMessage) (levels : List FeedMessage) (last : FeedMessage)
    (snapshot_seq : UInt64) : Prop where
  begins : first.kind = .SnapshotBegin snapshot_seq
  numbered : first.source_seq ≠ 0
  accepts : v.check_sequence first.source_seq = .Ok
  offered : ∀ message ∈ levels, ∃ side price quantity, message.kind = .SnapshotLevel side price quantity ∧
    v.InDomain price
  short : levels.length < 4294967296
  consecutive : Consecutive ((first :: (levels ++ [last])).map FeedMessage.source_seq)

/-- The view after the levels `sent`, the last message of which was `prior`. -/
structure Received (v : MarketView) (snapshot_seq : UInt64) (prior : FeedMessage) (sent : List FeedMessage)
    (w : MarketView) : Prop where
  state : w.state = .ApplyingSnapshot
  seq : w.last_source_seq = prior.source_seq
  snapshot : w.snapshot_seq = snapshot_seq
  visible : w.visible = v.visible
  scratch : ∀ side, w.scratch side = snapshotLadder side v.max_depth sent
  count : val w.scratch_levels = sent.countP (·.Offers)
  depth : w.max_depth = v.max_depth
  min : w.min_price_ticks = v.min_price_ticks
  max : w.max_price_ticks = v.max_price_ticks

/-- A message that passes all checks takes effect. -/
theorem next_applied (hacc : v.Accepts message) (hquotes : v.Quotes message.kind) (hfresh : ¬v.Stale message.kind) :
    ∃ counters, v.next message = (v.entered message counters).apply_kind message.kind := by
  have hfed := v.next_fed message
  generalize v.next message = v' at hfed ⊢
  cases hfed with
  | duplicate _ h => exact absurd hacc h
  | broken _ h => exact absurd hacc h
  | outside _ _ h => exact absurd hquotes h
  | stale _ _ h => exact absurd h hfresh
  | applied counters => exact ⟨counters, rfl⟩

/-- While it receives a snapshot, a view accepts the next number. -/
theorem accepts_next_number (hstate : v.state = .ApplyingSnapshot)
    (hnext : val message.source_seq = val v.last_source_seq + 1) : v.Accepts message := by
  have hb := u64_bounds message.source_seq
  have heq : message.source_seq = v.last_source_seq + 1 := by
    exact val_inj.1 (hnext.trans (MarketView.u64_succ (by omega)).symm)
  have hne : message.source_seq ≠ v.last_source_seq := fun h => by rw [h] at hnext; omega
  have hge : ¬message.source_seq < v.last_source_seq := by rw [u64_lt]; omega
  right
  rw [MarketView.check_sequence, hstate]
  simp only [if_neg hne, if_neg hge, if_pos heq]
  split <;> rfl

theorem entered_of_numbered (h : message.source_seq ≠ 0) (counters : FeedCounters) :
    v.entered message counters = { v with
      last_source_seq := message.source_seq, counters := counters, last_update_time_ns := message.recv_time_ns } := by
  rw [MarketView.entered, MarketView.seen, if_neg h]

theorem Uninterrupted.start (h : Uninterrupted v first levels last snapshot_seq) :
    Received v snapshot_seq first [] (v.next first) := by
  have hquotes : v.Quotes first.kind := by
    rw [h.begins]
    nofun
  have hfresh : ¬v.Stale first.kind := by
    rw [h.begins]
    rintro ⟨_, he, -⟩
    cases he
  obtain ⟨counters, hnext⟩ := next_applied (.inr h.accepts) hquotes hfresh
  rw [hnext, entered_of_numbered h.numbered, h.begins]
  exact ⟨rfl, rfl, rfl, rfl, fun side => by cases side <;> rfl, rfl, rfl, rfl, rfl⟩

/-- The message after the ones received takes effect. -/
theorem Received.next_eq {prior : FeedMessage} {sent : List FeedMessage} (h : Received v snapshot_seq prior sent w)
    (hnumber : val message.source_seq = val prior.source_seq + 1) (hquotes : v.Quotes message.kind)
    (hreset : ∀ epoch, message.kind ≠ .FeedReset epoch) :
    ∃ counters, w.next message = { w with
      last_source_seq := message.source_seq
      counters := counters
      last_update_time_ns := message.recv_time_ns : MarketView }.apply_kind message.kind := by
  have hacc : w.Accepts message := accepts_next_number h.state (by rw [h.seq]; exact hnumber)
  have hquotes' : w.Quotes message.kind := by
    intro p hp
    rw [MarketView.InDomain, h.min, h.max]
    exact hquotes p hp
  have hfresh : ¬w.Stale message.kind := by
    rintro ⟨epoch, he, -⟩
    exact hreset epoch he
  have hzero : message.source_seq ≠ 0 := by
    intro he
    have hb := u64_bounds prior.source_seq
    have hz : val message.source_seq = 0 := by rw [he]; rfl
    omega
  obtain ⟨counters, hnext⟩ := next_applied hacc hquotes' hfresh
  rw [entered_of_numbered hzero] at hnext
  exact ⟨counters, hnext⟩

theorem Received.level {prior : FeedMessage} {sent : List FeedMessage} (h : Received v snapshot_seq prior sent w)
    {side : Side} {price : PriceTicks} {quantity : UInt64} (hkind : message.kind = .SnapshotLevel side price quantity)
    (hprice : v.InDomain price) (hnumber : val message.source_seq = val prior.source_seq + 1)
    (hshort : sent.length + 1 < 4294967296) :
    Received v snapshot_seq message (sent ++ [message]) (w.next message) := by
  have hquotes : v.Quotes message.kind := by
    rw [hkind]
    intro p hp
    cases hp
    exact hprice
  have hcount : (sent ++ [message]).countP (·.Offers) =
      sent.countP (·.Offers) + if ¬QuantityLots.is_zero quantity then 1 else 0 := by
    rw [List.countP_append, List.countP_singleton]
    simp [FeedMessage.Offers, hkind]
  obtain ⟨counters, hnext⟩ := h.next_eq hnumber hquotes (by rw [hkind]; nofun)
  have hgoes := (MarketView.goes_apply_kind message.kind { w with
    last_source_seq := message.source_seq, counters := counters, last_update_time_ns := message.recv_time_ns }
    (by rw [hkind]; nofun) (by rw [hkind]; nofun) (by rw [hkind]; nofun)).1
  have hscratch : ∀ other, (w.next message).scratch other = snapshotLadder other v.max_depth (sent ++ [message]) := by
    intro other
    rw [hnext, hgoes.scratch h.state, snapshotLadder_snoc, ← h.scratch other, ← h.depth]
    rfl
  rw [hkind, MarketView.apply_level] at hnext
  by_cases hlevel : QuantityLots.is_zero quantity = true
  · rw [if_neg fun hand => hand.2 hlevel] at hnext
    rw [if_neg (not_not.2 hlevel), Nat.add_zero] at hcount
    rw [hnext] at hscratch ⊢
    exact ⟨h.state, rfl, h.snapshot, h.visible, hscratch, hcount ▸ h.count, h.depth, h.min, h.max⟩
  · rw [if_pos ⟨h.state, hlevel⟩] at hnext
    rw [if_pos hlevel] at hcount
    have hle : sent.countP (·.Offers) ≤ sent.length := List.countP_le_length
    have hadd : val (w.scratch_levels + 1) = (sent ++ [message]).countP (·.Offers) := by
      rw [u32_add (by rw [h.count, u32_val_one]; omega), h.count, u32_val_one, hcount]
      rfl
    rw [hnext] at hscratch ⊢
    cases side <;> exact ⟨h.state, rfl, h.snapshot, h.visible, hscratch, hadd, h.depth, h.min, h.max⟩

theorem consecutive_cons {a b : UInt64} {numbers : List UInt64} :
    Consecutive (a :: b :: numbers) ↔ val b = val a + 1 ∧ Consecutive (b :: numbers) := List.isChain_cons_cons

/-- All levels are received, whatever they are; `prior` is the message before the ones left. -/
theorem Received.run {prior : FeedMessage} {sent rest : List FeedMessage} (h : Received v snapshot_seq prior sent w)
    (hoffered : ∀ message ∈ rest, ∃ side price quantity, message.kind = .SnapshotLevel side price quantity ∧
      v.InDomain price)
    (hshort : sent.length + rest.length < 4294967296)
    (hnumbers : Consecutive ((prior :: (rest ++ [last])).map FeedMessage.source_seq)) :
    ∃ final, Received v snapshot_seq final (sent ++ rest) (w.feed rest) ∧
      val last.source_seq = val final.source_seq + 1 := by
  induction rest generalizing prior sent w with
  | nil =>
    rw [List.append_nil]
    exact ⟨prior, h, (consecutive_cons.1 hnumbers).1⟩
  | cons message rest ih =>
    obtain ⟨hnumber, hnumbers⟩ := consecutive_cons.1 hnumbers
    obtain ⟨side, price, quantity, hkind, hprice⟩ := hoffered message List.mem_cons_self
    rw [List.length_cons] at hshort
    have hnext := h.level hkind hprice hnumber (by omega)
    rw [MarketView.feed_cons, ← List.singleton_append, ← List.append_assoc]
    refine ih hnext (fun other hother => hoffered other (List.mem_cons_of_mem _ hother)) ?_ hnumbers
    rw [List.length_append, List.length_singleton]
    omega

/-- The levels before the last message are received. -/
theorem Uninterrupted.received (h : Uninterrupted v first levels last snapshot_seq) :
    ∃ final, Received v snapshot_seq final levels (v.feed (first :: levels)) ∧
      val last.source_seq = val final.source_seq + 1 := by
  have hrun := h.start.run h.offered (by simpa using h.short) h.consecutive
  rwa [List.nil_append] at hrun

/-- A snapshot may be cut after any of its levels. -/
theorem Uninterrupted.take (h : Uninterrupted v first levels last snapshot_seq) {k : Nat} (hk : k < levels.length) :
    Uninterrupted v first (levels.take k) levels[k] snapshot_seq where
  begins := h.begins
  numbered := h.numbered
  accepts := h.accepts
  offered message hmessage := h.offered message (List.mem_of_mem_take hmessage)
  short := Nat.lt_of_le_of_lt (List.length_take_le' ..) h.short
  consecutive := by
    have hsplit : first :: (levels ++ [last]) = first :: (levels.take k ++ [levels[k]]) ++ (levels.drop (k + 1) ++ [last]) := by
      simp only [List.cons_append, List.take_append_getElem]
      rw [← List.append_assoc, List.take_append_drop]
    have hall := h.consecutive
    rw [hsplit, List.map_append] at hall
    exact (List.isChain_append.1 hall).1

/-- What `SnapshotEnd` makes of the levels received. -/
theorem Received.close {prior : FeedMessage} (h : Received v snapshot_seq prior levels w)
    {end_seq : UInt64} {level_count : UInt32} (hkind : last.kind = .SnapshotEnd end_seq level_count)
    (hnumber : val last.source_seq = val prior.source_seq + 1) :
    (end_seq = snapshot_seq ∧ val level_count = levels.countP (·.Offers) ∧ (w.next last).state = .Live ∧
      ∀ side, (w.next last).visible side = snapshotLadder side v.max_depth levels) ∨
    (¬(end_seq = snapshot_seq ∧ val level_count = levels.countP (·.Offers)) ∧ (w.next last).state = .Gap ∧
      (w.next last).visible = v.visible) := by
  obtain ⟨counters, hnext⟩ := h.next_eq hnumber (by rw [hkind]; nofun) (by rw [hkind]; nofun)
  rw [hkind, MarketView.apply_end] at hnext
  have hcount : val level_count = levels.countP (·.Offers) ↔ level_count = w.scratch_levels := by
    rw [← h.count]
    exact val_inj
  split at hnext
  · rename_i hcomplete
    refine .inl ⟨hcomplete.2.1.trans h.snapshot, hcount.2 hcomplete.2.2, by rw [hnext], fun side => ?_⟩
    have htrim : MarketView.trim side (w.scratch side) w.max_depth = snapshotLadder side v.max_depth levels := by
      rw [h.scratch, h.depth, trim_of_size_le side (size_snapshotLadder ..)]
    rw [hnext, ← htrim]
    cases side <;> rfl
  · rename_i hcomplete
    refine .inr ⟨fun hand => hcomplete ⟨h.state, hand.1.trans h.snapshot.symm, hcount.1 hand.2⟩, by rw [hnext]; rfl, ?_⟩
    rw [hnext]
    exact h.visible

/-- The two ways an uninterrupted snapshot ends. -/
theorem Uninterrupted.closes (h : Uninterrupted v first levels last snapshot_seq) {end_seq : UInt64} {level_count : UInt32}
    (hend : last.kind = .SnapshotEnd end_seq level_count) :
    let v' := v.feed (first :: (levels ++ [last]))
    (end_seq = snapshot_seq ∧ val level_count = levels.countP (·.Offers) ∧ v'.state = .Live ∧
      ∀ side, ladder side (v'.visible side) = bestLevels v.max_depth side (offers side levels)) ∨
    (¬(end_seq = snapshot_seq ∧ val level_count = levels.countP (·.Offers)) ∧ v'.state = .Gap ∧
      v'.visible = v.visible) := by
  intro v'
  obtain ⟨final, hreceived, hnumber⟩ := h.received
  have hv' : v' = (v.feed (first :: levels)).next last := MarketView.feed_snoc v (first :: levels) last
  rw [hv']
  rcases hreceived.close hend hnumber with ⟨hseq, hcount, hlive, hvisible⟩ | hgap
  · refine .inl ⟨hseq, hcount, hlive, fun side => ?_⟩
    rw [hvisible, ladder_snapshotLadder]
  · exact .inr hgap

/-- A snapshot shows nothing before its end. It becomes visible just when its end names it and
the number of the levels it offered, and then it shows the best of them; otherwise the view
keeps its ladders and waits for another. -/
theorem snapshot_shows_best_levels (h : Uninterrupted v first levels last snapshot_seq) {end_seq : UInt64}
    {level_count : UInt32} (hend : last.kind = .SnapshotEnd end_seq level_count) :
    let v' := v.feed (first :: (levels ++ [last]))
    (∀ k ≤ levels.length, (v.feed (first :: levels.take k)).visible = v.visible) ∧
    (v'.state = .Live ↔ end_seq = snapshot_seq ∧ val level_count = levels.countP (·.Offers)) ∧
    (v'.state = .Live → ∀ side, ladder side (v'.visible side) = bestLevels v.max_depth side (offers side levels)) ∧
    (v'.state ≠ .Live → v'.state = .Gap ∧ v'.visible = v.visible) := by
  intro v'
  refine ⟨fun k hk => ?_, ?_⟩
  · rcases Nat.lt_or_eq_of_le hk with hlt | rfl
    · obtain ⟨final, hcut, -⟩ := (h.take hlt).received
      exact hcut.visible
    · obtain ⟨final, hall, -⟩ := h.received
      rw [List.take_length]
      exact hall.visible
  · rcases h.closes hend with ⟨hseq, hcount, hlive, hladder⟩ | ⟨hnot, hgap, hvisible⟩
    · exact ⟨⟨fun _ => ⟨hseq, hcount⟩, fun _ => hlive⟩, fun _ => hladder, fun hne => absurd hlive hne⟩
    · have hne : v'.state ≠ .Live := by
        rw [hgap]
        nofun
      exact ⟨⟨fun hs => absurd hs hne, fun hand => absurd hand hnot⟩, fun hs => absurd hs hne, fun _ => ⟨hgap, hvisible⟩⟩

/-- Bids at 100, 99 and 98, and 100 once more. -/
def smallLevels : List FeedMessage :=
  [⟨2, .SnapshotLevel .Buy 100 1, 0⟩, ⟨3, .SnapshotLevel .Buy 99 1, 0⟩, ⟨4, .SnapshotLevel .Buy 98 2, 0⟩,
    ⟨5, .SnapshotLevel .Buy 100 3, 0⟩]

theorem uninterrupted_small (depth : Nat) : Uninterrupted ((MarketView.new 1 1000 depth).feed [])
    ⟨1, .SnapshotBegin 7, 0⟩ smallLevels ⟨6, .SnapshotEnd 7 4, 0⟩ 7 where
  begins := rfl
  numbered := by decide
  accepts := rfl
  offered message hmessage := by
    simp only [smallLevels, List.mem_cons, List.not_mem_nil, or_false] at hmessage
    rcases hmessage with rfl | rfl | rfl | rfl
    all_goals exact ⟨_, _, _, rfl, show val (1 : Int64) ≤ _ ∧ _ ≤ val (1000 : Int64) by decide⟩
  short := by decide
  consecutive := by decide

theorem snapshot_shows_best_levels_small :
    let v' := (MarketView.new 1 1000 2).feed (⟨1, .SnapshotBegin 7, 0⟩ :: (smallLevels ++ [⟨6, .SnapshotEnd 7 4, 0⟩]))
    v'.state = .Live ∧ ladder .Buy (v'.visible .Buy) = [(100, 3), (99, 1)] := by
  have hmain := snapshot_shows_best_levels (uninterrupted_small 2) rfl
  have hlive := hmain.2.1.2 ⟨rfl, by decide⟩
  exact ⟨hlive, (hmain.2.2.1 hlive .Buy).trans (by decide)⟩

/-! ## Updates of a full ladder -/

/-- The ladder of a snapshot without a limit. -/
def fullSnapshot (side : Side) (levels : List FeedMessage) : BTreeMap PriceTicks UInt64 :=
  (offers side levels).foldl (fun levels offer => levels.insert offer.1 offer.2) ∅

/-- One update of a ladder without a limit. -/
def fullStep (side : Side) (levels : BTreeMap PriceTicks UInt64) (kind : MarketEventKind) :
    BTreeMap PriceTicks UInt64 :=
  match kind with
  | .LevelSet s price quantity =>
    if s = side then
      if QuantityLots.is_zero quantity then levels.erase price else levels.insert price quantity
    else levels
  | _ => levels

/-- The ladder that the snapshot and the updates give without a limit. -/
def fullLadder (side : Side) (levels updates : List FeedMessage) : BTreeMap PriceTicks UInt64 :=
  updates.foldl (fun levels message => fullStep side levels message.kind) (fullSnapshot side levels)

/-- The best price of a ladder. -/
def bestOf (side : Side) (levels : BTreeMap PriceTicks UInt64) : Option PriceTicks :=
  match side with
  | .Buy => levels.last?.map (·.1)
  | .Sell => levels.first?.map (·.1)

/-- When the update takes the best price off the full ladder, the view has the price after it. -/
def Covered (side : Side) (view full : BTreeMap PriceTicks UInt64) (kind : MarketEventKind) : Prop :=
  match kind with
  | .LevelSet s price quantity => s = side → QuantityLots.is_zero quantity → bestOf side full = some price →
      ∀ row, (ladder side full)[1]? = some row → view[row.1]?.isSome
  | _ => True

section Full
variable {side : Side} {depth : Nat} {view full : BTreeMap PriceTicks UInt64} {kind : MarketEventKind}

theorem best_eq (v : MarketView) (side : Side) : v.best side = bestOf side (v.visible side) := by
  cases side <;> rfl

theorem bestOf_eq (side : Side) (levels : BTreeMap PriceTicks UInt64) :
    bestOf side levels = (ladder side levels).head?.map Prod.fst := by
  cases side with
  | Buy => rw [bestOf, BTreeMap.last?, ladder, List.head?_reverse]
  | Sell => rfl

theorem sameBest_iff (side : Side) (view full : BTreeMap PriceTicks UInt64) :
    SameBest (ladder side view) (ladder side full) ↔ bestOf side view = bestOf side full := by
  rw [bestOf_eq, bestOf_eq, SameBest]

theorem mem_keys_ladder {price : PriceTicks} : price ∈ (ladder side view).map Prod.fst ↔ view[price]?.isSome := by
  rw [List.mem_map, Option.isSome_iff_exists]
  constructor
  · rintro ⟨⟨p, q⟩, hrow, rfl⟩
    exact ⟨q, mem_ladder.1 hrow⟩
  · rintro ⟨q, hq⟩
    exact ⟨(price, q), mem_ladder.2 hq, rfl⟩

/-- The view shows only levels of the full ladder. -/
theorem subset_update (hsub : ladder side view ⊆ ladder side full) (hsize : view.size ≤ depth)
    (kind : MarketEventKind) :
    ladder side (updateStep side depth view kind) ⊆ ladder side (fullStep side full kind) := by
  cases kind with
  | LevelSet s price quantity =>
    rw [updateStep, fullStep]
    split
    · rw [MarketView.set_level]
      split
      · rw [ladder_erase, ladder_erase]
        intro row hrow
        rw [mem_without] at hrow ⊢
        exact ⟨hsub hrow.1, hrow.2⟩
      · rw [ladder_set_bounded side price quantity hsize, ladder_insert]
        intro row hrow
        rw [mem_place (ladder_ranked side full)]
        rcases (mem_place (ladder_ranked side view)).1 (List.mem_of_mem_take hrow) with he | ⟨hrow, hne⟩
        · exact .inl he
        · exact .inr ⟨hsub hrow, hne⟩
    · exact hsub
  | SnapshotBegin _ | SnapshotLevel _ _ _ | SnapshotEnd _ _ | Trade _ _ _ | Heartbeat | FeedReset _ => exact hsub

/-- One update keeps the best price right just when it is covered. -/
theorem sameBest_update_iff (hbest : bestOf side view = bestOf side full) (hsub : ladder side view ⊆ ladder side full)
    (hsize : view.size ≤ depth) (hdepth : 0 < depth) (kind : MarketEventKind) :
    bestOf side (updateStep side depth view kind) = bestOf side (fullStep side full kind) ↔
      Covered side view full kind := by
  rw [← sameBest_iff] at hbest ⊢
  cases kind with
  | LevelSet s price quantity =>
    rw [updateStep, fullStep, Covered]
    by_cases hs : s = side
    · rw [if_pos hs, if_pos hs, MarketView.set_level]
      by_cases hzero : QuantityLots.is_zero quantity = true
      · rw [if_pos hzero, if_pos hzero, ladder_erase, ladder_erase,
          hbest.without_iff (ladder_ranked side view) (ladder_ranked side full) hsub, ← bestOf_eq]
        simp only [hs, hzero, mem_keys_ladder, true_imp_iff]
      · rw [if_neg hzero, if_neg hzero, ladder_set_bounded side price quantity hsize, ladder_insert]
        exact ⟨fun _ _ h => absurd h hzero, fun _ => hbest.place price quantity hdepth⟩
    · rw [if_neg hs, if_neg hs]
      exact ⟨fun _ h => absurd h hs, fun _ => hbest⟩
  | SnapshotBegin _ | SnapshotLevel _ _ _ | SnapshotEnd _ _ | Trade _ _ _ | Heartbeat | FeedReset _ =>
    exact ⟨fun _ => trivial, fun _ => hbest⟩

theorem ladder_fullSnapshot (side : Side) (levels : List FeedMessage) :
    ladder side (fullSnapshot side levels) = offeredRows side (offers side levels) := by
  rw [fullSnapshot]
  induction offers side levels using List.reverseRecOn with
  | nil => exact ladder_empty side
  | append_singleton offers offer ih =>
    rw [List.foldl_append, List.foldl_cons, List.foldl_nil, ladder_insert, ih, offeredRows_snoc]

end Full

/-- Updates with prices of the instrument, each accepted when it comes. -/
structure Updates (w : MarketView) (updates : List FeedMessage) : Prop where
  quotes : ∀ message ∈ updates, ∃ side price quantity, message.kind = .LevelSet side price quantity ∧ w.InDomain price
  accepts : ∀ k (hk : k < updates.length), (w.feed (updates.take k)).Accepts updates[k]

theorem live_update (hlive : w.state = .Live) (hacc : w.Accepts message) {side : Side} {price : PriceTicks}
    {quantity : UInt64} (hkind : message.kind = .LevelSet side price quantity) (hprice : w.InDomain price) :
    (w.next message).state = .Live ∧
      ∀ other, (w.next message).visible other = updateStep other w.max_depth (w.visible other) message.kind := by
  have hquotes : w.Quotes message.kind := by
    rw [hkind]
    intro p hp
    cases hp
    exact hprice
  have hfresh : ¬w.Stale message.kind := by
    rw [hkind]
    rintro ⟨_, he, -⟩
    cases he
  obtain ⟨counters, hnext⟩ := next_applied hacc hquotes hfresh
  have hgoes := (MarketView.goes_apply_kind message.kind (w.entered message counters)
    (by rw [hkind]; nofun) (by rw [hkind]; nofun) (by rw [hkind]; nofun)).1
  have hstate : (w.entered message counters).state = w.state := w.seen_state message
  have hvisible : (w.entered message counters).visible = w.visible := w.seen_visible message
  have hdepth : (w.entered message counters).max_depth = w.max_depth := w.seen_max_depth message
  rw [hnext]
  refine ⟨hgoes.state.trans (hstate.trans hlive), fun other => ?_⟩
  rw [hgoes.visible (hstate.trans hlive), hdepth, hvisible]

/-- The view and the full ladders after the first updates. -/
structure Mirrored (w : MarketView) (levels updates : List FeedMessage) (k : Nat) : Prop where
  live : (w.feed (updates.take k)).state = .Live
  subset : ∀ side, ladder side ((w.feed (updates.take k)).visible side) ⊆
    ladder side (fullLadder side levels (updates.take k))

theorem fullLadder_take (side : Side) (levels : List FeedMessage) {updates : List FeedMessage} {k : Nat}
    (hk : k < updates.length) : fullLadder side levels (updates.take (k + 1)) =
      fullStep side (fullLadder side levels (updates.take k)) updates[k].kind := by
  rw [List.take_succ_eq_append_getElem hk]
  exact List.foldl_append

theorem feed_take (w : MarketView) {updates : List FeedMessage} {k : Nat} (hk : k < updates.length) :
    w.feed (updates.take (k + 1)) = (w.feed (updates.take k)).next updates[k] := by
  rw [List.take_succ_eq_append_getElem hk, MarketView.feed_snoc]

section Run
variable {lo hi : Int64} {depth : Nat} {updates : List FeedMessage}

/-- What one more update does to the view. -/
theorem Mirrored.next (hw : w.Sound lo hi depth) (hu : Updates w updates) {k : Nat} (h : Mirrored w levels updates k)
    (hk : k < updates.length) : Mirrored w levels updates (k + 1) ∧
      ∀ side, (w.feed (updates.take (k + 1))).visible side =
        updateStep side depth ((w.feed (updates.take k)).visible side) updates[k].kind := by
  have hsound := hw.feed (updates.take k)
  obtain ⟨side, price, quantity, hkind, hprice⟩ := hu.quotes updates[k] (List.getElem_mem hk)
  have hprice' : (w.feed (updates.take k)).InDomain price := by
    rw [MarketView.InDomain, hsound.min, hsound.max, ← hw.min, ← hw.max]
    exact hprice
  obtain ⟨hlive, hvisible⟩ := live_update h.live (hu.accepts k hk) hkind hprice'
  rw [← feed_take w hk, hsound.limit] at hvisible
  refine ⟨⟨by rw [feed_take w hk]; exact hlive, fun other => ?_⟩, hvisible⟩
  rw [hvisible, fullLadder_take other levels hk]
  exact subset_update (h.subset other) (hsound.visible other).size _

/-- After a snapshot the best prices of the view are those of the full ladders as long as, and
only as long as, every update is covered: none removes the best price while the view lacks
the price after it. -/
theorem best_prices_hold_iff (lo hi : Int64) (depth : Nat) {pre during : List FeedMessage}
    (hopened : Opened (MarketView.new lo hi depth) pre first during)
    (hclosed : Closed ((MarketView.new lo hi depth).feed (pre ++ first :: during)) last)
    (hu : Updates ((MarketView.new lo hi depth).feed (pre ++ first :: (during ++ [last]))) updates) :
    let levels := ((MarketView.new lo hi depth).feed (pre ++ [first])).accepted during
    let w := (MarketView.new lo hi depth).feed (pre ++ first :: (during ++ [last]))
    (∀ k ≤ updates.length, ∀ side,
      (w.feed (updates.take k)).best side = bestOf side (fullLadder side levels (updates.take k))) ↔
    ∀ k (hk : k < updates.length) side, Covered side ((w.feed (updates.take k)).visible side)
      (fullLadder side levels (updates.take k)) updates[k].kind := by
  intro levels w
  have hw : w.Sound lo hi (max depth 1) := (MarketView.Sound.new lo hi depth).feed _
  have hdepth : 0 < max depth 1 := Nat.lt_of_lt_of_le Nat.one_pos (Nat.le_max_right ..)
  have hlive : w.state = .Live := by
    have hsnoc : w = ((MarketView.new lo hi depth).feed (pre ++ first :: during)).next last := by
      rw [← MarketView.feed_snoc, List.append_assoc, List.cons_append]
    rw [hsnoc]
    exact hclosed.after
  -- The snapshot shows the best levels of the full ladder.
  have hladder : ∀ side, ladder side (w.visible side) = (ladder side (fullLadder side levels [])).take (max depth 1) := by
    intro side
    rw [hclosed.shows (not_follows_new lo hi depth) hopened side, ladder_snapshotLadder, bestLevels_eq,
      ← ladder_fullSnapshot]
    rfl
  have hmirrored : ∀ k ≤ updates.length, Mirrored w levels updates k := by
    intro k
    induction k with
    | zero =>
      refine fun _ => ⟨hlive, fun side => ?_⟩
      rw [List.take_zero, MarketView.feed_nil, hladder]
      exact List.take_subset _ _
    | succ k ih => exact fun hk => ((ih (by omega)).next hw hu hk).1
  have hstep : ∀ k (hk : k < updates.length) side,
      (w.feed (updates.take k)).best side = bestOf side (fullLadder side levels (updates.take k)) →
      ((w.feed (updates.take (k + 1))).best side = bestOf side (fullLadder side levels (updates.take (k + 1))) ↔
        Covered side ((w.feed (updates.take k)).visible side) (fullLadder side levels (updates.take k))
          updates[k].kind) := by
    intro k hk side hsame
    have hm := hmirrored k hk.le
    rw [best_eq] at hsame ⊢
    rw [(hm.next hw hu hk).2, fullLadder_take side levels hk]
    exact sameBest_update_iff hsame (hm.subset side) ((hw.feed _).visible side).size hdepth _
  constructor
  · intro hbest k hk side
    exact (hstep k hk side (hbest k hk.le side)).1 (hbest (k + 1) hk side)
  · intro hcovered k
    induction k with
    | zero =>
      intro _ side
      rw [List.take_zero, MarketView.feed_nil, best_eq, ← sameBest_iff, hladder, SameBest, List.head?_take,
        if_neg hdepth.ne']
    | succ k ih =>
      intro hk side
      exact (hstep k hk side (ih (by omega) side)).2 (hcovered k hk side)

/-- A view that has begun the small snapshot. -/
def smallOpening (depth : Nat) : MarketView := (MarketView.new 1 1000 depth).feed ([] ++ [⟨1, .SnapshotBegin 7, 0⟩])

/-- The view after the small snapshot. -/
def smallView (depth : Nat) : MarketView :=
  (MarketView.new 1 1000 depth).feed ([] ++ ⟨1, .SnapshotBegin 7, 0⟩ :: (smallLevels ++ [⟨6, .SnapshotEnd 7 4, 0⟩]))

/-- The update that removes the best bid. -/
def smallRemoval : FeedMessage := ⟨7, .LevelSet .Buy 100 0, 0⟩

theorem opened_small {depth : Nat} (h : (smallOpening depth).accepted smallLevels = smallLevels) :
    Opened (MarketView.new 1 1000 depth) [] ⟨1, .SnapshotBegin 7, 0⟩ smallLevels where
  begins := ⟨_, rfl⟩
  accepts := .inr rfl
  only message hmessage := by
    rw [show MarketView.feed _ _ = smallOpening depth from rfl, h] at hmessage
    simp only [smallLevels, List.mem_cons, List.not_mem_nil, or_false] at hmessage
    rcases hmessage with rfl | rfl | rfl | rfl <;> exact nofun

theorem updates_small {depth : Nat} (hacc : (smallView depth).Accepts smallRemoval) :
    Updates (smallView depth) [smallRemoval] where
  quotes message hmessage := by
    have hw : (smallView depth).Sound 1 1000 (max depth 1) := (MarketView.Sound.new 1 1000 depth).feed _
    rw [List.mem_singleton.1 hmessage]
    refine ⟨_, _, _, rfl, ?_⟩
    rw [MarketView.InDomain, hw.min, hw.max]
    decide
  accepts k hk := by
    obtain rfl : k = 0 := by simpa using hk
    rw [List.take_zero, MarketView.feed_nil, List.getElem_cons_zero]
    exact hacc

/-- With two levels kept, the bid at 99 takes the place of the one at 100. -/
theorem best_prices_hold_iff_small : Updates (smallView 2) [smallRemoval] ∧
    ((smallView 2).feed [smallRemoval]).best .Buy =
      bestOf .Buy (fullLadder .Buy ((smallOpening 2).accepted smallLevels) [smallRemoval]) := by
  have hu : Updates (smallView 2) [smallRemoval] := updates_small (by decide +kernel)
  have hclosed : Closed ((MarketView.new 1 1000 2).feed ([] ++ ⟨1, .SnapshotBegin 7, 0⟩ :: smallLevels))
      ⟨6, .SnapshotEnd 7 4, 0⟩ := ⟨⟨_, _, rfl⟩, by decide +kernel, by decide +kernel, by decide +kernel⟩
  refine ⟨hu, (best_prices_hold_iff 1 1000 2 (opened_small (by decide +kernel)) hclosed hu).2 ?_ 1 le_rfl .Buy⟩
  intro k hk side
  obtain rfl : k = 0 := by simpa using hk
  cases side with
  | Buy =>
    intro _ _ _ row hrow
    have hnext : (ladder .Buy (fullLadder .Buy ((smallOpening 2).accepted smallLevels) []))[1]? = some (99, 1) := by
      decide +kernel
    rw [Option.some.inj (hrow.symm.trans hnext)]
    decide +kernel
  | Sell => nofun

/-- With one level kept the view has no bid left, and the market has one at 99. -/
theorem best_prices_go_wrong : Opened (MarketView.new 1 1000 1) [] ⟨1, .SnapshotBegin 7, 0⟩ smallLevels ∧
    Closed ((MarketView.new 1 1000 1).feed ([] ++ ⟨1, .SnapshotBegin 7, 0⟩ :: smallLevels)) ⟨6, .SnapshotEnd 7 4, 0⟩ ∧
    Updates (smallView 1) [smallRemoval] ∧ ((smallView 1).feed [smallRemoval]).best .Buy = none ∧
    bestOf .Buy (fullLadder .Buy ((smallOpening 1).accepted smallLevels) [smallRemoval]) = some 99 :=
  ⟨opened_small (by decide +kernel), ⟨⟨_, _, rfl⟩, by decide +kernel, by decide +kernel, by decide +kernel⟩,
    updates_small (by decide +kernel), by decide +kernel, by decide +kernel⟩

end Run

end Snapshot

end TradingLab
