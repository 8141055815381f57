import TradingLab.MarketFeed
/-!
# Synchronization of the market view

Which messages the ladders stand for. While a snapshot is received, and while the view
is live after it, the numbers of the messages let through since its `SnapshotBegin`
follow one another; a live view shows the levels of that snapshot with the updates
since its `SnapshotEnd`. The run is cut at these two messages, and every further
message either extends the cut run, starts a new one, or leaves these states.
-/
open LabLib

namespace TradingLab

/-! ## Messages of a run -/

/-- The numbers of the messages that have one. -/
def numbers (messages : List FeedMessage) : List UInt64 := (messages.map FeedMessage.source_seq).filter (· ≠ 0)

/-- Each number is the one after the number before it. -/
def Consecutive (numbers : List UInt64) : Prop := numbers.IsChain fun a b => val b = val a + 1

instance (numbers : List UInt64) : Decidable (Consecutive numbers) :=
  inferInstanceAs (Decidable (numbers.IsChain fun a b => val b = val a + 1))

/-- The message begins a snapshot. -/
def FeedMessage.Begins (message : FeedMessage) : Prop := ∃ snapshot_seq, message.kind = .SnapshotBegin snapshot_seq

/-- What a message adds to the ladder of a snapshot. -/
def snapshotStep (side : Side) (depth : Nat) (levels : BTreeMap PriceTicks UInt64) (kind : MarketEventKind) :
    BTreeMap PriceTicks UInt64 :=
  match kind with
  | .SnapshotLevel s price quantity =>
    if s = side ∧ ¬QuantityLots.is_zero quantity then MarketView.set_bounded levels side price quantity depth else levels
  | _ => levels

/-- The levels a side has in a snapshot. -/
def snapshotLadder (side : Side) (depth : Nat) (messages : List FeedMessage) : BTreeMap PriceTicks UInt64 :=
  messages.foldl (fun levels message => snapshotStep side depth levels message.kind) ∅

/-- What a message changes on a visible ladder. -/
def updateStep (side : Side) (depth : Nat) (levels : BTreeMap PriceTicks UInt64) (kind : MarketEventKind) :
    BTreeMap PriceTicks UInt64 :=
  match kind with
  | .LevelSet s price quantity => if s = side then MarketView.set_level levels side price quantity depth else levels
  | _ => levels

/-- The ladder after the updates among the messages. -/
def updatedLadder (side : Side) (depth : Nat) (levels : BTreeMap PriceTicks UInt64) (messages : List FeedMessage) :
    BTreeMap PriceTicks UInt64 :=
  messages.foldl (fun levels message => updateStep side depth levels message.kind) levels

theorem snapshotLadder_snoc (side : Side) (depth : Nat) (messages : List FeedMessage) (message : FeedMessage) :
    snapshotLadder side depth (messages ++ [message]) =
      snapshotStep side depth (snapshotLadder side depth messages) message.kind := List.foldl_append

theorem updatedLadder_snoc (side : Side) (depth : Nat) (levels : BTreeMap PriceTicks UInt64)
    (messages : List FeedMessage) (message : FeedMessage) :
    updatedLadder side depth levels (messages ++ [message]) =
      updateStep side depth (updatedLadder side depth levels messages) message.kind := List.foldl_append

theorem numbers_append (before after : List FeedMessage) : numbers (before ++ after) = numbers before ++ numbers after := by
  rw [numbers, List.map_append, List.filter_append]
  rfl

theorem ne_zero_of_mem_numbers {messages : List FeedMessage} {number : UInt64} (h : number ∈ numbers messages) :
    number ≠ 0 := by
  simpa using (List.mem_filter.1 h).2

/-- A list of consecutive numbers goes on with the number after its last. -/
theorem Consecutive.snoc {numbers : List UInt64} {number : UInt64} (h : Consecutive numbers)
    (hlast : ∀ last, numbers.getLast? = some last → val number = val last + 1) : Consecutive (numbers ++ [number]) := by
  refine List.isChain_append.2 ⟨h, List.isChain_singleton _, fun last hl first hf => ?_⟩
  cases hf
  exact hlast last hl

namespace MarketView

/-- The messages that the sequence check lets pass, one after the other. -/
def accepted : MarketView → List FeedMessage → List FeedMessage
  | _, [] => []
  | v, message :: messages =>
    if v.Accepts message then message :: (v.next message).accepted messages else (v.next message).accepted messages

theorem accepted_append (v : MarketView) (before after : List FeedMessage) :
    v.accepted (before ++ after) = v.accepted before ++ (v.feed before).accepted after := by
  induction before generalizing v with
  | nil => rfl
  | cons message before ih =>
    rw [List.cons_append, accepted, accepted, ih, feed_cons]
    split <;> rfl

theorem accepted_snoc (v : MarketView) (messages : List FeedMessage) (message : FeedMessage) :
    v.accepted (messages ++ [message]) =
      v.accepted messages ++ if (v.feed messages).Accepts message then [message] else [] :=
  accepted_append v messages [message]

theorem u64_succ {a : UInt64} (h : val a < 18446744073709551615) : val (a + 1) = val a + 1 := by
  have hone : val (1 : UInt64) = 1 := rfl
  rw [u64_add, hone]
  omega

/-- A view that follows the feed accepts only the next number. -/
theorem number_of_accepts {v : MarketView} {message : FeedMessage} (h : v.Accepts message)
    (hstate : v.state = .ApplyingSnapshot ∨ v.state = .Live) (hzero : message.source_seq ≠ 0)
    (hlast : v.last_source_seq ≠ 0) : val message.source_seq = val v.last_source_seq + 1 := by
  have hcheck : v.check_sequence message.source_seq = .Ok := h.resolve_left hzero
  have hnext : message.source_seq = v.last_source_seq + 1 := by
    rw [check_sequence] at hcheck
    rcases hstate with hs | hs
    all_goals
      rw [hs] at hcheck
      simp only [hlast, if_false] at hcheck
      split at hcheck
      · cases hcheck
      · split at hcheck
        · cases hcheck
        · split at hcheck
          · assumption
          · cases hcheck
  -- The sum has not wrapped, or the number would be zero.
  have hne : val v.last_source_seq ≠ 18446744073709551615 := by
    intro hmax
    refine hzero (hnext.trans ?_)
    rw [val_inj.1 (hmax.trans (show (18446744073709551615 : Int) = val (18446744073709551615 : UInt64) from rfl))]
    rfl
  have hb := u64_bounds v.last_source_seq
  rw [hnext, u64_succ (by omega)]

/-! ## One message -/

section Effects
variable {v : MarketView} {message : FeedMessage} {counters : FeedCounters} {kind : MarketEventKind}

theorem seen_state (v : MarketView) (message : FeedMessage) : (v.seen message).state = v.state := by
  rw [seen]; split <;> rfl

theorem seen_visible (v : MarketView) (message : FeedMessage) : (v.seen message).visible = v.visible := by
  rw [seen]; split <;> rfl

theorem seen_scratch (v : MarketView) (message : FeedMessage) : (v.seen message).scratch = v.scratch := by
  rw [seen]; split <;> rfl

theorem seen_max_depth (v : MarketView) (message : FeedMessage) : (v.seen message).max_depth = v.max_depth := by
  rw [seen]; split <;> rfl

theorem seen_epoch (v : MarketView) (message : FeedMessage) : (v.seen message).epoch = v.epoch := by
  rw [seen]; split <;> rfl

theorem max_depth_apply_kind (v : MarketView) (kind : MarketEventKind) : (v.apply_kind kind).max_depth = v.max_depth := by
  cases kind with
  | SnapshotLevel side price quantity =>
    rw [apply_level]
    split
    · cases side <;> rfl
    · rfl
  | LevelSet side price quantity =>
    rw [apply_level_set]
    split
    · cases side <;> rfl
    · rfl
  | SnapshotEnd s c =>
    rw [apply_end]
    split <;> rfl
  | Trade side price quantity =>
    rw [apply_trade]
    split <;> rfl
  | SnapshotBegin _ | Heartbeat | FeedReset _ => rfl

theorem max_depth_next (v : MarketView) (message : FeedMessage) : (v.next message).max_depth = v.max_depth := by
  have hfed := next_fed v message
  generalize v.next message = v' at hfed ⊢
  cases hfed with
  | duplicate => rfl
  | broken => rfl
  | outside => exact seen_max_depth v message
  | stale => exact seen_max_depth v message
  | applied => exact (max_depth_apply_kind _ _).trans (seen_max_depth v message)

theorem max_depth_feed (v : MarketView) (messages : List FeedMessage) : (v.feed messages).max_depth = v.max_depth := by
  induction messages generalizing v with
  | nil => rfl
  | cons message messages ih => exact (ih _).trans (max_depth_next v message)

/-- A message after which the view goes on following the feed: what it does to the ladders
is what the message does to those of a snapshot or of a live view. -/
structure Goes (v v' : MarketView) (kind : MarketEventKind) : Prop where
  state : v'.state = v.state
  scratch : v.state = .ApplyingSnapshot → ∀ side, v'.scratch side = snapshotStep side v.max_depth (v.scratch side) kind
  visible : v.state = .Live → ∀ side, v'.visible side = updateStep side v.max_depth (v.visible side) kind

/-- Messages that neither begin nor end a snapshot nor reset the feed. -/
theorem goes_apply_kind (kind : MarketEventKind) (v : MarketView) (hbegin : ∀ s, kind ≠ .SnapshotBegin s) (hend : ∀ s c, kind ≠ .SnapshotEnd s c)
    (hreset : ∀ e, kind ≠ .FeedReset e) :
    Goes v (v.apply_kind kind) kind ∧ (v.apply_kind kind).last_source_seq = v.last_source_seq := by
  cases kind with
  | SnapshotBegin s => exact absurd rfl (hbegin s)
  | SnapshotEnd s c => exact absurd rfl (hend s c)
  | FeedReset e => exact absurd rfl (hreset e)
  | SnapshotLevel side price quantity =>
    rw [apply_level]
    split
    · rename_i hlevel
      refine ⟨⟨by cases side <;> rfl, fun _ other => ?_, fun hs => ?_⟩, by cases side <;> rfl⟩
      · change (v.set_scratch _ side).scratch other = _
        rw [scratch_set_scratch, snapshotStep]
        by_cases he : other = side
        · subst he
          rw [if_pos rfl, if_pos ⟨rfl, hlevel.2⟩]
        · rw [if_neg he, if_neg fun hside => he hside.1.symm]
      · rw [hlevel.1] at hs
        cases hs
    · rename_i hlevel
      refine ⟨⟨rfl, fun hs other => ?_, fun _ _ => rfl⟩, rfl⟩
      rw [snapshotStep, if_neg fun hside => hlevel ⟨hs, hside.2⟩]
  | LevelSet side price quantity =>
    rw [apply_level_set]
    split
    · rename_i hlive
      refine ⟨⟨by cases side <;> rfl, fun hs => ?_, fun _ other => ?_⟩, by cases side <;> rfl⟩
      · rw [hlive] at hs
        cases hs
      · rw [visible_set_visible, updateStep]
        by_cases he : other = side
        · subst he
          rw [if_pos rfl]
        · rw [if_neg he, if_neg (Ne.symm he)]
    · rename_i hlive
      exact ⟨⟨rfl, fun _ _ => rfl, fun hs => absurd hs hlive⟩, rfl⟩
  | Trade side price quantity =>
    rw [apply_trade]
    split
    · exact ⟨⟨rfl, fun _ _ => rfl, fun _ _ => rfl⟩, rfl⟩
    · exact ⟨⟨rfl, fun _ _ => rfl, fun _ _ => rfl⟩, rfl⟩
  | Heartbeat => exact ⟨⟨rfl, fun _ _ => rfl, fun _ _ => rfl⟩, rfl⟩

theorem epoch_apply_kind (v : MarketView) (h : ¬v.Stale kind) : val v.epoch ≤ val (v.apply_kind kind).epoch := by
  cases kind with
  | SnapshotLevel side price quantity =>
    rw [apply_level]
    split
    · cases side <;> exact le_rfl
    · exact le_rfl
  | LevelSet side price quantity =>
    rw [apply_level_set]
    split
    · cases side <;> exact le_rfl
    · exact le_rfl
  | SnapshotEnd s c =>
    rw [apply_end]
    split <;> exact le_rfl
  | Trade side price quantity =>
    rw [apply_trade]
    split <;> exact le_rfl
  | SnapshotBegin _ | Heartbeat => exact le_rfl
  | FeedReset epoch =>
    refine Int.le_of_lt (Int.not_le.1 fun hle => h ⟨epoch, rfl, hle⟩)

theorem epoch_next (v : MarketView) (message : FeedMessage) : val v.epoch ≤ val (v.next message).epoch := by
  have hfed := next_fed v message
  generalize v.next message = v' at hfed ⊢
  cases hfed with
  | duplicate => exact le_rfl
  | broken => exact le_rfl
  | outside => exact (congrArg val (seen_epoch v message)).ge
  | stale => exact (congrArg val (seen_epoch v message)).ge
  | applied counters _ _ hstale =>
    have hepoch : (v.entered message counters).epoch = v.epoch := seen_epoch v message
    rw [← hepoch]
    refine epoch_apply_kind _ ?_
    rintro ⟨epoch, hkind, hle⟩
    exact hstale ⟨epoch, hkind, hepoch ▸ hle⟩

theorem epoch_feed (v : MarketView) (messages : List FeedMessage) : val v.epoch ≤ val (v.feed messages).epoch := by
  induction messages generalizing v with
  | nil => exact le_rfl
  | cons message messages ih => exact (epoch_next v message).trans (ih _)

/-- An update that shows was let through by a view that is live and stays so. -/
theorem live_of_update {side : Side} {price : PriceTicks} {quantity : UInt64}
    (hkind : message.kind = .LevelSet side price quantity) (h : (v.next message).visible ≠ v.visible) :
    v.Accepts message ∧ (v.next message).state = .Live := by
  have hfed := next_fed v message
  generalize v.next message = v' at hfed h ⊢
  cases hfed with
  | duplicate => exact absurd rfl h
  | broken => exact absurd rfl h
  | outside => exact absurd (seen_visible v message) h
  | stale => exact absurd (seen_visible v message) h
  | applied counters hacc =>
    have hvisible : (v.entered message counters).visible = v.visible := seen_visible v message
    rw [hkind, apply_level_set] at h ⊢
    split at h
    · rename_i hlive
      rw [if_pos hlive]
      exact ⟨hacc, by cases side <;> exact hlive⟩
    · exact absurd hvisible h

/-- What a message does, as far as following the feed goes. -/
inductive Moves (v : MarketView) (message : FeedMessage) (v' : MarketView) : Prop
  /-- It is not let through and changes nothing. -/
  | skips : ¬v.Accepts message → v'.state = v.state → v'.scratch = v.scratch → v'.visible = v.visible →
      v'.last_source_seq = v.last_source_seq → Moves v message v'
  /-- The view waits for a snapshot. -/
  | leaves : v'.state = .Gap ∨ v'.state = .Unsynchronized → Moves v message v'
  | goes : v.Accepts message → ¬message.Begins → Goes v v' message.kind →
      v'.last_source_seq = (v.seen message).last_source_seq → Moves v message v'
  | begins : v.Accepts message → message.Begins → v'.state = .ApplyingSnapshot → (∀ side, v'.scratch side = ∅) →
      v'.last_source_seq = (v.seen message).last_source_seq → Moves v message v'
  | ends {snapshot_seq : UInt64} {level_count : UInt32} : v.Accepts message →
      message.kind = .SnapshotEnd snapshot_seq level_count → v.state = .ApplyingSnapshot → v'.state = .Live →
      (∀ side, v'.visible side = trim side (v.scratch side) v.max_depth) →
      v'.last_source_seq = (v.seen message).last_source_seq → Moves v message v'

theorem next_moves (v : MarketView) (message : FeedMessage) : Moves v message (v.next message) := by
  have hfed := next_fed v message
  generalize v.next message = v' at hfed ⊢
  cases hfed with
  | duplicate counters hnot => exact .skips hnot rfl rfl rfl rfl
  | broken => exact .leaves (.inl rfl)
  | outside => exact .leaves (.inl rfl)
  | stale counters hacc hstale =>
    obtain ⟨epoch, hkind, -⟩ := hstale
    refine .goes hacc ?_ ⟨seen_state v message, fun _ side => ?_, fun _ side => ?_⟩ rfl
    · rintro ⟨s, hs⟩
      rw [hkind] at hs
      cases hs
    · rw [hkind]
      exact congrFun (seen_scratch v message) side
    · rw [hkind]
      exact congrFun (seen_visible v message) side
  | applied counters hacc =>
    have hstate : (v.entered message counters).state = v.state := seen_state v message
    have hscratch : (v.entered message counters).scratch = v.scratch := seen_scratch v message
    have hvisible : (v.entered message counters).visible = v.visible := seen_visible v message
    have hdepth : (v.entered message counters).max_depth = v.max_depth := seen_max_depth v message
    have hlast : (v.entered message counters).last_source_seq = (v.seen message).last_source_seq := rfl
    generalize v.entered message counters = w at hstate hscratch hvisible hdepth hlast ⊢
    cases hkind : message.kind with
    | SnapshotBegin s =>
      exact .begins hacc ⟨s, hkind⟩ rfl (fun side => by cases side <;> rfl) hlast
    | FeedReset e => exact .leaves (.inr rfl)
    | SnapshotEnd s c =>
      rw [apply_end]
      split
      · rename_i hcomplete
        refine .ends hacc hkind (hstate ▸ hcomplete.1) rfl (fun side => ?_) hlast
        rw [← hscratch, ← hdepth]
        cases side <;> rfl
      · exact .leaves (.inl rfl)
    | SnapshotLevel _ _ _ | LevelSet _ _ _ | Trade _ _ _ | Heartbeat =>
      obtain ⟨hgoes, hseq⟩ := goes_apply_kind message.kind w (by rw [hkind]; nofun) (by rw [hkind]; nofun)
        (by rw [hkind]; nofun)
      rw [← hkind]
      refine .goes hacc (fun ⟨s, hs⟩ => by rw [hkind] at hs; cases hs) ⟨hgoes.state.trans hstate, fun hs side => ?_,
        fun hs side => ?_⟩ (hseq.trans hlast)
      · rw [hgoes.scratch (hstate.trans hs), hdepth, hscratch]
      · rw [hgoes.visible (hstate.trans hs), hdepth, hvisible]

end Effects

end MarketView

/-! ## Whole runs -/

section Runs
variable {v₀ : MarketView} {pre post : List FeedMessage} {first message : FeedMessage}
variable {messages : List FeedMessage}

/-- The view follows the feed. -/
def MarketView.Follows (v : MarketView) : Prop := v.state = .ApplyingSnapshot ∨ v.state = .Live

/-- `first` opened the snapshot that the view is receiving, or received last: it begins
one, and no message let through since does. -/
structure Opened (v₀ : MarketView) (pre : List FeedMessage) (first : FeedMessage) (post : List FeedMessage) : Prop where
  begins : first.Begins
  accepts : (v₀.feed pre).Accepts first
  only : ∀ message ∈ (v₀.feed (pre ++ [first])).accepted post, ¬message.Begins

/-- The numbers let through from `first` on. -/
def numbersSince (v₀ : MarketView) (pre : List FeedMessage) (first : FeedMessage) (post : List FeedMessage) : List UInt64 :=
  numbers ((v₀.feed pre).accepted (first :: post))

/-- What the invariant says of the numbers. -/
structure Sequenced (v₀ : MarketView) (pre : List FeedMessage) (first : FeedMessage) (post : List FeedMessage) : Prop where
  opened : Opened v₀ pre first post
  consecutive : Consecutive (numbersSince v₀ pre first post)
  last : ∀ number, (numbersSince v₀ pre first post).getLast? = some number →
    (v₀.feed (pre ++ first :: post)).last_source_seq = number

/-- `last` completed the snapshot: the view was receiving it before and is live after. -/
structure Closed (v : MarketView) (last : FeedMessage) : Prop where
  kind : ∃ snapshot_seq level_count, last.kind = .SnapshotEnd snapshot_seq level_count
  accepts : v.Accepts last
  before : v.state = .ApplyingSnapshot
  after : (v.next last).state = .Live

theorem feed_split (v₀ : MarketView) (pre : List FeedMessage) (first : FeedMessage) (post : List FeedMessage) :
    (v₀.feed (pre ++ [first])).feed post = v₀.feed (pre ++ first :: post) := by
  rw [← MarketView.feed_append, List.append_assoc]
  rfl

theorem numbersSince_snoc (v₀ : MarketView) (pre : List FeedMessage) (first : FeedMessage) (post : List FeedMessage)
    (message : FeedMessage) : numbersSince v₀ pre first (post ++ [message]) = numbersSince v₀ pre first post ++
      if (v₀.feed (pre ++ first :: post)).Accepts message then numbers [message] else [] := by
  have hfeed : (v₀.feed pre).feed (first :: post) = v₀.feed (pre ++ first :: post) := (v₀.feed_append pre _).symm
  rw [numbersSince, ← List.cons_append, MarketView.accepted_snoc, numbers_append, hfeed, numbersSince]
  split <;> rfl

/-- A message that is not let through. -/
theorem Sequenced.skip (h : Sequenced v₀ pre first post) (hnot : ¬(v₀.feed (pre ++ first :: post)).Accepts message)
    (hlast : (v₀.feed (pre ++ first :: (post ++ [message]))).last_source_seq =
      (v₀.feed (pre ++ first :: post)).last_source_seq) : Sequenced v₀ pre first (post ++ [message]) where
  opened := by
    refine ⟨h.opened.begins, h.opened.accepts, fun other hother => h.opened.only other ?_⟩
    rw [MarketView.accepted_snoc, feed_split, if_neg hnot, List.append_nil] at hother
    exact hother
  consecutive := by
    rw [numbersSince_snoc, if_neg hnot, List.append_nil]
    exact h.consecutive
  last number hnumber := by
    rw [numbersSince_snoc, if_neg hnot, List.append_nil] at hnumber
    rw [hlast]
    exact h.last number hnumber

theorem numbers_singleton (message : FeedMessage) :
    numbers [message] = if message.source_seq = 0 then [] else [message.source_seq] := by
  by_cases hzero : message.source_seq = 0 <;> simp [numbers, hzero]

theorem last_source_seq_seen (v : MarketView) (message : FeedMessage) :
    (v.seen message).last_source_seq = if message.source_seq = 0 then v.last_source_seq else message.source_seq := by
  rw [MarketView.seen]
  split <;> rfl

/-- A message that is let through and begins no snapshot. -/
theorem Sequenced.snoc (h : Sequenced v₀ pre first post) (hfollows : (v₀.feed (pre ++ first :: post)).Follows)
    (hacc : (v₀.feed (pre ++ first :: post)).Accepts message) (hbegins : ¬message.Begins)
    (hlast : (v₀.feed (pre ++ first :: (post ++ [message]))).last_source_seq =
      ((v₀.feed (pre ++ first :: post)).seen message).last_source_seq) : Sequenced v₀ pre first (post ++ [message]) where
  opened := by
    refine ⟨h.opened.begins, h.opened.accepts, fun other hother => ?_⟩
    rw [MarketView.accepted_snoc, feed_split, if_pos hacc] at hother
    rcases List.mem_append.1 hother with hother | hother
    · exact h.opened.only other hother
    · rw [List.mem_singleton.1 hother]
      exact hbegins
  consecutive := by
    rw [numbersSince_snoc, if_pos hacc, numbers_singleton]
    split
    · rw [List.append_nil]
      exact h.consecutive
    · rename_i hzero
      refine h.consecutive.snoc fun number hnumber => ?_
      have hseq := h.last number hnumber
      rw [← hseq]
      refine MarketView.number_of_accepts hacc hfollows hzero ?_
      rw [hseq]
      exact ne_zero_of_mem_numbers (List.mem_of_getLast? hnumber)
  last number hnumber := by
    rw [numbersSince_snoc, if_pos hacc, numbers_singleton] at hnumber
    rw [hlast, last_source_seq_seen]
    split
    · rename_i hzero
      rw [if_pos hzero, List.append_nil] at hnumber
      exact h.last number hnumber
    · rename_i hzero
      rw [if_neg hzero, List.getLast?_concat] at hnumber
      exact Option.some.inj hnumber

/-- A message that begins a snapshot opens the window anew. -/
theorem Sequenced.begin (hacc : (v₀.feed pre).Accepts first) (hbegins : first.Begins)
    (hlast : (v₀.feed (pre ++ [first])).last_source_seq = ((v₀.feed pre).seen first).last_source_seq) :
    Sequenced v₀ pre first [] := by
  have hnumbers : numbersSince v₀ pre first [] = if first.source_seq = 0 then [] else [first.source_seq] := by
    rw [numbersSince, MarketView.accepted, if_pos hacc]
    exact numbers_singleton first
  refine ⟨⟨hbegins, hacc, fun _ h => absurd h List.not_mem_nil⟩, ?_, fun number hnumber => ?_⟩
  · rw [hnumbers]
    split
    · exact List.isChain_nil
    · exact List.isChain_singleton _
  · rw [hlast, last_source_seq_seen]
    rw [hnumbers] at hnumber
    split at hnumber
    · cases hnumber
    · rename_i hzero
      rw [if_neg hzero]
      exact Option.some.inj hnumber

theorem size_snapshotLadder (side : Side) (depth : Nat) (messages : List FeedMessage) :
    (snapshotLadder side depth messages).size ≤ depth := by
  induction messages using List.reverseRecOn with
  | nil =>
    rw [snapshotLadder, List.foldl_nil, Std.ExtTreeMap.size_empty]
    exact Nat.zero_le _
  | append_singleton messages message ih =>
    rw [snapshotLadder_snoc]
    unfold snapshotStep
    split
    · split
      · exact size_set_bounded side _ _ ih
      · exact ih
    · exact ih

theorem trim_of_size_le (side : Side) {levels : BTreeMap PriceTicks UInt64} {depth : Nat} (h : levels.size ≤ depth) :
    MarketView.trim side levels depth = levels := by
  rw [MarketView.trim, Nat.sub_eq_zero_of_le h]
  rfl

/-- The snapshot that is being received is the one begun last. -/
structure Loading (v₀ : MarketView) (pre : List FeedMessage) (first : FeedMessage) (post : List FeedMessage) : Prop where
  numbered : Sequenced v₀ pre first post
  scratch : ∀ side, (v₀.feed (pre ++ first :: post)).scratch side =
    snapshotLadder side v₀.max_depth ((v₀.feed (pre ++ [first])).accepted post)

/-- A live view shows the snapshot between `first` and `last` with the updates since. -/
structure Showing (v₀ : MarketView) (pre : List FeedMessage) (first : FeedMessage) (during : List FeedMessage)
    (last : FeedMessage) (since : List FeedMessage) : Prop where
  numbered : Sequenced v₀ pre first (during ++ last :: since)
  closed : Closed (v₀.feed (pre ++ first :: during)) last
  visible : ∀ side, (v₀.feed (pre ++ first :: (during ++ last :: since))).visible side =
    updatedLadder side v₀.max_depth
      (snapshotLadder side v₀.max_depth ((v₀.feed (pre ++ [first])).accepted during))
      ((v₀.feed (pre ++ first :: (during ++ [last]))).accepted since)

/-- The run so far, cut at the messages the ladders stand for. -/
structure Tracked (v₀ : MarketView) (messages : List FeedMessage) : Prop where
  receiving : (v₀.feed messages).state = .ApplyingSnapshot →
    ∃ pre first post, messages = pre ++ first :: post ∧ Loading v₀ pre first post
  live : (v₀.feed messages).state = .Live →
    ∃ pre first during last since, messages = pre ++ first :: (during ++ last :: since) ∧
      Showing v₀ pre first during last since

theorem snoc_split (pre post : List FeedMessage) (first message : FeedMessage) :
    pre ++ first :: post ++ [message] = pre ++ first :: (post ++ [message]) := by
  rw [List.append_assoc, List.cons_append]

theorem feed_since (v₀ : MarketView) (pre during since : List FeedMessage) (first last : FeedMessage) :
    (v₀.feed (pre ++ first :: (during ++ [last]))).feed since = v₀.feed (pre ++ first :: (during ++ last :: since)) := by
  rw [← MarketView.feed_append]
  simp

theorem Tracked.nil (h : ¬v₀.Follows) : Tracked v₀ [] where
  receiving hs := absurd (.inl hs) h
  live hs := absurd (.inr hs) h

/-- A message that is not let through leaves the cut where it is. -/
theorem Tracked.skips (h : Tracked v₀ messages) (hnot : ¬(v₀.feed messages).Accepts message)
    (hstate : (v₀.feed (messages ++ [message])).state = (v₀.feed messages).state)
    (hscratch : (v₀.feed (messages ++ [message])).scratch = (v₀.feed messages).scratch)
    (hvisible : (v₀.feed (messages ++ [message])).visible = (v₀.feed messages).visible)
    (hlast : (v₀.feed (messages ++ [message])).last_source_seq = (v₀.feed messages).last_source_seq) :
    Tracked v₀ (messages ++ [message]) where
  receiving hs := by
    obtain ⟨pre, first, post, rfl, hr⟩ := h.receiving (hstate ▸ hs)
    rw [snoc_split] at hscratch hlast
    refine ⟨pre, first, post ++ [message], snoc_split .., hr.numbered.skip hnot hlast, fun side => ?_⟩
    rw [hscratch, hr.scratch, MarketView.accepted_snoc, feed_split, if_neg hnot, List.append_nil]
  live hs := by
    obtain ⟨pre, first, during, last, since, rfl, hr⟩ := h.live (hstate ▸ hs)
    rw [snoc_split, List.append_assoc, List.cons_append] at hvisible hlast
    have hnumbered := fun hlast => hr.numbered.skip hnot hlast
    rw [List.append_assoc, List.cons_append] at hnumbered
    refine ⟨pre, first, during, last, since ++ [message], by simp, hnumbered hlast, hr.closed, fun side => ?_⟩
    rw [hvisible, hr.visible, MarketView.accepted_snoc, feed_since, if_neg hnot, List.append_nil]

/-- A message that goes on following the feed extends the cut run. -/
theorem Tracked.goes (h : Tracked v₀ messages) (hacc : (v₀.feed messages).Accepts message) (hbegins : ¬message.Begins)
    (hgoes : MarketView.Goes (v₀.feed messages) (v₀.feed (messages ++ [message])) message.kind)
    (hlast : (v₀.feed (messages ++ [message])).last_source_seq = ((v₀.feed messages).seen message).last_source_seq) :
    Tracked v₀ (messages ++ [message]) where
  receiving hs := by
    rw [hgoes.state] at hs
    obtain ⟨pre, first, post, rfl, hr⟩ := h.receiving hs
    have hscratch := hgoes.scratch hs
    rw [snoc_split] at hscratch hlast
    refine ⟨pre, first, post ++ [message], snoc_split .., hr.numbered.snoc (.inl hs) hacc hbegins hlast, fun side => ?_⟩
    rw [hscratch, hr.scratch, MarketView.accepted_snoc, feed_split, if_pos hacc, snapshotLadder_snoc,
      MarketView.max_depth_feed]
  live hs := by
    rw [hgoes.state] at hs
    obtain ⟨pre, first, during, last, since, rfl, hr⟩ := h.live hs
    have hvisible := hgoes.visible hs
    rw [snoc_split, List.append_assoc, List.cons_append] at hvisible hlast
    have hnumbered := fun hlast => hr.numbered.snoc (.inr hs) hacc hbegins hlast
    rw [List.append_assoc, List.cons_append] at hnumbered
    refine ⟨pre, first, during, last, since ++ [message], by simp, hnumbered hlast, hr.closed, fun side => ?_⟩
    rw [hvisible, hr.visible, MarketView.accepted_snoc, feed_since, if_pos hacc, updatedLadder_snoc,
      MarketView.max_depth_feed]

/-- A message that begins a snapshot cuts the run anew. -/
theorem Tracked.begins (hacc : (v₀.feed messages).Accepts message) (hbegins : message.Begins)
    (hstate : (v₀.feed (messages ++ [message])).state = .ApplyingSnapshot)
    (hscratch : ∀ side, (v₀.feed (messages ++ [message])).scratch side = ∅)
    (hlast : (v₀.feed (messages ++ [message])).last_source_seq = ((v₀.feed messages).seen message).last_source_seq) :
    Tracked v₀ (messages ++ [message]) where
  receiving _ := ⟨messages, message, [], rfl, .begin hacc hbegins hlast, hscratch⟩
  live hs := by
    rw [hstate] at hs
    cases hs

/-- A message that completes the snapshot makes it visible. -/
theorem Tracked.ends (h : Tracked v₀ messages)
    (hacc : (v₀.feed messages).Accepts message) {snapshot_seq : UInt64} {level_count : UInt32}
    (hkind : message.kind = .SnapshotEnd snapshot_seq level_count)
    (hbefore : (v₀.feed messages).state = .ApplyingSnapshot)
    (hafter : (v₀.feed (messages ++ [message])).state = .Live)
    (hvisible : ∀ side, (v₀.feed (messages ++ [message])).visible side =
      MarketView.trim side ((v₀.feed messages).scratch side) (v₀.feed messages).max_depth)
    (hlast : (v₀.feed (messages ++ [message])).last_source_seq = ((v₀.feed messages).seen message).last_source_seq) :
    Tracked v₀ (messages ++ [message]) where
  receiving hs := by
    rw [hafter] at hs
    cases hs
  live _ := by
    obtain ⟨pre, first, post, rfl, hr⟩ := h.receiving hbefore
    have hbegins : ¬message.Begins := fun ⟨s, hs⟩ => by rw [hkind] at hs; cases hs
    rw [MarketView.feed_snoc] at hafter
    rw [snoc_split] at hvisible hlast
    refine ⟨pre, first, post, message, [], snoc_split .., hr.numbered.snoc (.inl hbefore) hacc hbegins hlast,
      ⟨⟨_, _, hkind⟩, hacc, hbefore, hafter⟩, fun side => ?_⟩
    rw [hvisible, hr.scratch, MarketView.max_depth_feed, trim_of_size_le side (size_snapshotLadder ..)]
    rfl

theorem Tracked.snoc (h : Tracked v₀ messages) (message : FeedMessage) :
    Tracked v₀ (messages ++ [message]) := by
  have hmoves := MarketView.next_moves (v₀.feed messages) message
  rw [← MarketView.feed_snoc] at hmoves
  cases hmoves with
  | skips hnot hstate hscratch hvisible hlast => exact h.skips hnot hstate hscratch hvisible hlast
  | leaves hstate =>
    constructor
    · intro hs
      rw [hs] at hstate
      rcases hstate with hstate | hstate <;> cases hstate
    · intro hs
      rw [hs] at hstate
      rcases hstate with hstate | hstate <;> cases hstate
  | goes hacc hbegins hgoes hlast => exact h.goes hacc hbegins hgoes hlast
  | begins hacc hbegins hstate hscratch hlast => exact .begins hacc hbegins hstate hscratch hlast
  | ends hacc hkind hbefore hafter hvisible hlast => exact h.ends hacc hkind hbefore hafter hvisible hlast

theorem tracked_feed (h : ¬v₀.Follows) (messages : List FeedMessage) : Tracked v₀ messages := by
  induction messages using List.reverseRecOn with
  | nil => exact .nil h
  | append_singleton messages message ih => exact ih.snoc message

theorem mem_accepted_middle (v : MarketView) (before after : List FeedMessage) (h : (v.feed before).Accepts message) :
    message ∈ v.accepted (before ++ message :: after) := by
  rw [MarketView.accepted_append, MarketView.accepted, if_pos h]
  exact List.mem_append_right _ List.mem_cons_self

/-- Only one message of a run opened the snapshot. -/
theorem Opened.unique {pre' post' : List FeedMessage} {first' : FeedMessage} (h : Opened v₀ pre first post)
    (h' : Opened v₀ pre' first' post') (heq : pre ++ first :: post = pre' ++ first' :: post') :
    pre = pre' ∧ first = first' ∧ post = post' := by
  -- Whichever comes first, the other one was let through after it.
  have hlater : ∀ {p q r : List FeedMessage} {a b : FeedMessage}, Opened v₀ p a (r ++ b :: q) →
      (v₀.feed (p ++ a :: r)).Accepts b → b.Begins → False := by
    intro p q r a b hopened hacc hbegins
    rw [← feed_split] at hacc
    exact hopened.only b (mem_accepted_middle _ r q hacc) hbegins
  rcases List.append_eq_append_iff.1 heq with ⟨mid, rfl, hrest⟩ | ⟨mid, rfl, hrest⟩
  · cases mid with
    | nil =>
      cases hrest
      simp
    | cons a mid =>
      cases hrest
      exact (hlater h h'.accepts h'.begins).elim
  · cases mid with
    | nil =>
      cases hrest
      simp
    | cons a mid =>
      cases hrest
      exact (hlater h' h.accepts h.begins).elim

/-- A completed snapshot shows the levels let through since it was begun. -/
theorem Closed.shows {during : List FeedMessage} {last : FeedMessage} (h₀ : ¬v₀.Follows)
    (hopened : Opened v₀ pre first during) (h : Closed (v₀.feed (pre ++ first :: during)) last) (side : Side) :
    (v₀.feed (pre ++ first :: (during ++ [last]))).visible side =
      snapshotLadder side v₀.max_depth ((v₀.feed (pre ++ [first])).accepted during) := by
  obtain ⟨pre', first', post', heq, hr⟩ := (tracked_feed h₀ _).receiving h.before
  obtain ⟨rfl, rfl, rfl⟩ := hopened.unique hr.numbered.opened heq
  rw [← List.cons_append, ← List.append_assoc, MarketView.feed_snoc]
  have hafter := h.after
  cases MarketView.next_moves (v₀.feed (pre ++ first :: during)) last with
  | skips hnot => exact absurd h.accepts hnot
  | leaves hstate => rcases hstate with hs | hs <;> rw [hafter] at hs <;> cases hs
  | goes _ _ hgoes =>
    rw [hgoes.state, h.before] at hafter
    cases hafter
  | begins _ _ hstate =>
    rw [hafter] at hstate
    cases hstate
  | ends _ _ _ _ hvisible =>
    rw [hvisible, hr.scratch, MarketView.max_depth_feed, trim_of_size_le side (size_snapshotLadder ..)]

/-- A new view follows no feed. -/
theorem not_follows_new (lo hi : Int64) (depth : Nat) : ¬(MarketView.new lo hi depth).Follows := by
  rintro (h | h) <;> cases h

/-- Whatever the feed sends: while the view follows it, the numbers let through since the
snapshot was begun are consecutive; a live view shows exactly the last snapshot with the
updates since, none of them across a missing number; and the epoch never decreases. -/
theorem view_follows_feed (lo hi : Int64) (depth : Nat) (messages : List FeedMessage) :
    let v₀ := MarketView.new lo hi depth
    let v := v₀.feed messages
    (v.state = .ApplyingSnapshot ∨ v.state = .Live → ∃ pre first post, messages = pre ++ first :: post ∧
      Opened v₀ pre first post ∧ Consecutive (numbersSince v₀ pre first post)) ∧
    (v.state = .Live → ∃ pre first during last since, messages = pre ++ first :: (during ++ last :: since) ∧
      Opened v₀ pre first (during ++ last :: since) ∧
      Consecutive (numbersSince v₀ pre first (during ++ last :: since)) ∧
      Closed (v₀.feed (pre ++ first :: during)) last ∧
      ∀ side, v.visible side = updatedLadder side v.max_depth
        (snapshotLadder side v.max_depth ((v₀.feed (pre ++ [first])).accepted during))
        ((v₀.feed (pre ++ first :: (during ++ [last]))).accepted since)) ∧
    (∀ before after, messages = before ++ after → val (v₀.feed before).epoch ≤ val v.epoch) ∧
    ∀ message side price quantity, message.kind = .LevelSet side price quantity →
      (v.next message).visible ≠ v.visible → v.Accepts message ∧ ∃ pre first post,
        messages ++ [message] = pre ++ first :: post ∧ Opened v₀ pre first post ∧
        Consecutive (numbersSince v₀ pre first post) := by
  intro v₀ v
  have htracked := tracked_feed (not_follows_new lo hi depth)
  have hnumbers : ∀ messages, (v₀.feed messages).Follows → ∃ pre first post, messages = pre ++ first :: post ∧
      Opened v₀ pre first post ∧ Consecutive (numbersSince v₀ pre first post) := by
    rintro messages (hs | hs)
    · obtain ⟨pre, first, post, hm, hr⟩ := (htracked messages).receiving hs
      exact ⟨pre, first, post, hm, hr.numbered.opened, hr.numbered.consecutive⟩
    · obtain ⟨pre, first, during, last, since, hm, hr⟩ := (htracked messages).live hs
      exact ⟨pre, first, _, hm, hr.numbered.opened, hr.numbered.consecutive⟩
  refine ⟨hnumbers messages, fun hs => ?_, fun before after hm => ?_, fun message side price quantity hkind hne => ?_⟩
  · obtain ⟨pre, first, during, last, since, rfl, hr⟩ := (htracked messages).live hs
    refine ⟨pre, first, during, last, since, rfl, hr.numbered.opened, hr.numbered.consecutive, hr.closed,
      fun side => ?_⟩
    rw [MarketView.max_depth_feed]
    exact hr.visible side
  · change _ ≤ val (v₀.feed messages).epoch
    rw [hm, MarketView.feed_append]
    exact MarketView.epoch_feed _ _
  · obtain ⟨hacc, hlive⟩ := MarketView.live_of_update hkind hne
    refine ⟨hacc, hnumbers _ ?_⟩
    rw [MarketView.feed_snoc]
    exact .inr hlive

end Runs

end TradingLab
