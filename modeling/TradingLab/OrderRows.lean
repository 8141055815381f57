import TradingLab.Handled
import TradingLab.Reports
import TradingLab.Projection
/-!
# The table of orders

The projection knows the orders from execution reports alone: an open report puts
an order into the table or changes it, a terminal one takes it out. Told in full,
the stories of the engine keep the table to the live orders, with two exceptions:
an order that found no room in its price level is reported as working, and the
retry of a request repeats a report that may no longer be true.
-/
open LabLib

namespace TradingLab

/-! ## Lines -/

/-- What the table says about an order. -/
structure Line where
  who : Identity
  price : PriceTicks
  total : QuantityLots
  filled : QuantityLots
deriving DecidableEq

def OrderRow.line (row : OrderRow) : Line :=
  ⟨⟨row.account, row.instrument, row.side, row.client_order_id⟩, row.price_ticks, row.total_lots, row.filled_lots⟩

def NewOrder.line (o : NewOrder) (instrument : InstrumentId) : Line :=
  ⟨o.tag.identity instrument, o.price, o.total_quantity, o.cumulative_filled⟩

def ExecutionReport.line (report : ExecutionReport) : Line :=
  ⟨report.identity, report.price, report.total_quantity, report.cumulative_filled⟩

/-- What a table of orders says. -/
abbrev Lines := OrderId → Option Line

def Database.lines (db : Database) : Lines := fun id => (db.orders.lookup id).map OrderRow.line

/-- A report names an order and says nothing of a rejection. -/
def ExecutionReport.Telling (report : ExecutionReport) : Prop := report.reject_reason = none ∧ report.order_id ≠ 0

instance (report : ExecutionReport) : Decidable report.Telling :=
  inferInstanceAs (Decidable (report.reject_reason = none ∧ report.order_id ≠ 0))

/-- The line after a report: its order is gone, or keeps the identity it had. -/
def ExecutionReport.written (report : ExecutionReport) (old : Option Line) : Option Line :=
  if report.state.terminal then none
  else some { report.line with who := (old.map Line.who).getD report.identity }

def Lines.event (L : Lines) : OutputEvent → Lines
  | .Report report => if report.Telling then Function.update L report.order_id (report.written (L report.order_id)) else L
  | _ => L

theorem event_telling {L : Lines} {report : ExecutionReport} (h : report.Telling) :
    L.event (.Report report) = Function.update L report.order_id (report.written (L report.order_id)) :=
  if_pos h

theorem event_silent {L : Lines} {report : ExecutionReport} (h : ¬report.Telling) : L.event (.Report report) = L :=
  if_neg h

def Lines.tell (L : Lines) (story : List OutputEvent) : Lines := story.foldl Lines.event L

@[simp] theorem tell_nil (L : Lines) : L.tell [] = L := rfl

@[simp] theorem tell_cons (L : Lines) (event : OutputEvent) (story : List OutputEvent) :
    L.tell (event :: story) = (L.event event).tell story := rfl

theorem tell_append (L : Lines) (story story' : List OutputEvent) : L.tell (story ++ story') = (L.tell story).tell story' :=
  List.foldl_append

theorem event_bare (L : Lines) (event : OutputEvent) : L.event event.bare = L.event event := by
  cases event <;> rfl

/-- No report puts an order under the id 0. -/
theorem tell_zero {L : Lines} (h : L 0 = none) (story : List OutputEvent) : L.tell story 0 = none := by
  induction story generalizing L with
  | nil => exact h
  | cons event story ih =>
    refine ih ?_
    cases event with
    | Report report =>
      by_cases ht : report.Telling
      · rw [event_telling ht, Function.update_of_ne (Ne.symm ht.2)]
        exact h
      · rw [event_silent ht]
        exact h
    | _ => exact h

/-- A terminal report at the end leaves no line of its order. -/
theorem tell_closed {L : Lines} (h0 : L 0 = none) {story : List OutputEvent} {report : ExecutionReport}
    (hlast : final_report story = some report) (hr : report.reject_reason = none) (hterm : report.state.terminal = true) :
    L.tell story report.order_id = none := by
  by_cases hid : report.order_id = 0
  · rw [hid]
    exact tell_zero h0 story
  · obtain ⟨pre, event, rfl⟩ : ∃ pre event, story = pre ++ [event] := by
      rcases List.eq_nil_or_concat story with rfl | ⟨pre, event, rfl⟩
      · cases hlast
      · exact ⟨pre, event, List.concat_eq_append⟩
    obtain rfl : event = .Report report := by
      cases event <;> simp [final_report] at hlast
      rw [hlast]
    rw [tell_append, tell_cons, tell_nil, event_telling ⟨hr, hid⟩, Function.update_self, ExecutionReport.written, hterm, if_pos rfl]

/-- Stamps do not matter. -/
theorem tell_bare (L : Lines) (out : List OutputEvent) : L.tell (out.map OutputEvent.bare) = L.tell out := by
  induction out generalizing L with
  | nil => rfl
  | cons event out ih => rw [List.map_cons, tell_cons, tell_cons, event_bare, ih]

/-- What an event does to the table is what it does to the lines. -/
theorem lines_applyEvent (db : Database) (runId : RunId) (event : OutputEvent) :
    (db.applyEvent runId event).lines = db.lines.event event := by
  cases event with
  | State _ => rfl
  | Trade trade =>
    change ((db.insert_trade _).addPosition _ _ _ |>.addPosition _ _ _).lines = db.lines
    rw [Database.insert_trade]
    split <;> rfl
  | Report report =>
    change (db.applyReport report).lines = _
    rw [Database.applyReport]
    cases hr : report.reject_reason with
    | some reason =>
      have hs : ¬report.Telling := by
        intro ht
        cases hr.symm.trans ht.1
      rw [event_silent hs]
      rfl
    | none =>
      by_cases hid : report.order_id = 0
      · rw [event_silent fun ht => ht.2 hid]
        simp only [hid, if_true]
      · rw [event_telling ⟨hr, hid⟩, ExecutionReport.written]
        simp only [hid, if_false]
        funext id
        rw [Function.update_apply]
        cases ht : report.state.terminal with
        | true =>
          simp only [if_true, Database.lines, lookup_erase_eq]
          split <;> rfl
        | false =>
          simp only [Bool.false_eq_true, if_false, Database.lines, lookup_insert_eq]
          split
          · cases db.orders.lookup report.order_id <;> rfl
          · rfl

theorem lines_foldl (db : Database) (runId : RunId) (events : List OutputEvent) :
    (events.foldl (fun db event => db.applyEvent runId event) db).lines = db.lines.tell events := by
  induction events generalizing db with
  | nil => rfl
  | cons event events ih => rw [List.foldl_cons, ih, lines_applyEvent, tell_cons]

/-! ## Lines and resting orders -/

section Lists
variable {n m : Nat} {c c' : TradingCore n m} {d d' : Desk n m} {w : Wiring n m} {L : Lines} {B B' : Fin n → List NewOrder}
variable {request : OrderRequest} {report : ExecutionReport} {filled r' t : QuantityLots} {i : Fin n}
  {l l' l'' : List NewOrder} {out story : List OutputEvent} {kind : ReportKind} {o : NewOrder} {f : Flight n m}
  {tid : OrderId} {input : EngineInput}

/-- The lines are those of the resting orders. -/
def Lists (w : Wiring n m) (L : Lines) (B : Fin n → List NewOrder) : Prop :=
  ∀ id line, L id = some line ↔ ∃ i, ∃ o ∈ B i, o.order_id = id ∧ o.line (w.instruments i).id = line

theorem Lists.of_mem (h : Lists w L B) (ho : o ∈ B i) :
    L o.order_id = some (o.line (w.instruments i).id) :=
  (h _ _).2 ⟨i, o, ho, rfl, rfl⟩

/-- An order leaves. -/
theorem Lists.drop (h : Lists w L B) {id : OrderId} (hB : ∀ i x, x ∈ B' i ↔ x ∈ B i ∧ x.order_id ≠ id) :
    Lists w (Function.update L id none) B' := by
  intro id' line
  rw [Function.update_apply]
  split
  · rename_i he
    refine iff_of_false nofun ?_
    rintro ⟨i, o, ho, hid, -⟩
    exact ((hB i o).1 ho).2 (hid.trans he)
  · rename_i hne
    rw [h id' line]
    constructor
    · rintro ⟨i, o, ho, rfl, hl⟩
      exact ⟨i, o, (hB i o).2 ⟨ho, hne⟩, rfl, hl⟩
    · rintro ⟨i, o, ho, rfl, hl⟩
      exact ⟨i, o, ((hB i o).1 ho).1, rfl, hl⟩

/-- An order comes, or another takes its place. -/
theorem Lists.put (h : Lists w L B) (hB : ∀ j x, x ∈ B' j ↔ (x ∈ B j ∧ x.order_id ≠ o.order_id) ∨ (j = i ∧ x = o)) :
    Lists w (Function.update L o.order_id (some (o.line (w.instruments i).id))) B' := by
  intro id line
  rw [Function.update_apply]
  split
  · rename_i he
    subst he
    constructor
    · intro hl
      exact ⟨i, o, (hB i o).2 (.inr ⟨rfl, rfl⟩), rfl, Option.some.inj hl⟩
    · rintro ⟨j, x, hx, hid, hl⟩
      rcases (hB j x).1 hx with ⟨-, hne⟩ | ⟨rfl, rfl⟩
      · exact absurd hid hne
      · rw [hl]
  · rename_i hne
    rw [h id line]
    constructor
    · rintro ⟨j, x, hx, rfl, hl⟩
      exact ⟨j, x, (hB j x).2 (.inl ⟨hx, hne⟩), rfl, hl⟩
    · rintro ⟨j, x, hx, rfl, hl⟩
      rcases (hB j x).1 hx with ⟨hx, -⟩ | ⟨rfl, rfl⟩
      · exact ⟨j, x, hx, rfl, hl⟩
      · exact absurd rfl hne

theorem mem_update {i j : Fin n} {x : NewOrder} :
    x ∈ Function.update B i l j ↔ (j = i ∧ x ∈ l) ∨ (j ≠ i ∧ x ∈ B j) := by
  rw [Function.update_apply]
  split <;> simp [*]

/-- Before and after one fill. -/
theorem mem_afterFill_iff (hn : (l.map NewOrder.order_id).Nodup) {o x : NewOrder} (ho : o ∈ l) :
    x ∈ afterFill l o t ↔ (x ∈ l ∧ x.order_id ≠ o.order_id) ∨ (o.left ≠ t ∧ x = o.fill t) := by
  constructor
  · intro hx
    rcases mem_afterFill hx with h | ⟨hne, y, hy, hid, rfl⟩
    · exact .inl h
    · obtain rfl := List.inj_on_of_nodup_map hn hy ho hid
      exact .inr ⟨hne, rfl⟩
  · rw [afterFill]
    rintro (h | ⟨hne, rfl⟩)
    · split
      · exact mem_without.2 h
      · exact mem_amend.2 (.inl h)
    · rw [if_neg hne]
      exact mem_amend.2 (.inr ⟨o, ho, rfl, rfl⟩)

/-- An order in flight meets the resting orders `l` of an instrument: all ids are told apart. -/
structure Meets (B : Fin n → List NewOrder) (i : Fin n) (l : List NewOrder) (tid : OrderId) : Prop where
  ids : (l.map NewOrder.order_id).Nodup
  sound : ∀ x ∈ l, x.Sound
  apart : ∀ j, j ≠ i → ∀ x ∈ B j, x.order_id ∉ tid :: l.map NewOrder.order_id
  fresh : tid ∉ l.map NewOrder.order_id
  named : ∀ id ∈ tid :: l.map NewOrder.order_id, id ≠ 0

theorem Meets.fill (h : Meets B i l tid) (ho : o ∈ l) (ht : val t ≤ val o.left) : Meets B i (afterFill l o t) tid := by
  have hids := (ids_afterFill_sublist l o t).subset
  have hcons : ∀ id ∈ tid :: (afterFill l o t).map NewOrder.order_id, id ∈ tid :: l.map NewOrder.order_id := by
    intro id hid
    rcases List.mem_cons.1 hid with rfl | hid
    · exact List.mem_cons_self
    · exact List.mem_cons_of_mem _ (hids hid)
  exact ⟨ids_afterFill h.ids _ _, sound_afterFill h.ids h.sound ho ht, fun j hj x hx hm => h.apart j hj x hx (hcons _ hm),
    fun hm => h.fresh (hids hm), fun id hm => h.named id (hcons id hm)⟩

/-- The reports of one fill: the maker's line follows the maker, and the taker's line is written anew. -/
theorem Lists.fill (h : Lists w (Function.update L tid none) (Function.update B i l)) (hm : Meets B i l tid)
    (ho : o ∈ l) (ht : val t ≤ val o.left) (request : OrderRequest) (side : Side) (quantity filled : QuantityLots) :
    ∃ L', L.tell (fillStory (w.instruments i).id request tid side quantity filled (Fill.of o t)) =
        Function.update L' tid ((takerReport request tid side quantity filled (Fill.of o t)).written (L tid)) ∧
      Lists w (Function.update L' tid none) (Function.update B i (afterFill l o t)) := by
  have hne : o.order_id ≠ tid := fun he => hm.fresh (he ▸ List.mem_map_of_mem ho)
  have hlo : L o.order_id = some (o.line (w.instruments i).id) := by
    have := h.of_mem (i := i) (o := o) (mem_update.2 (.inl ⟨rfl, ho⟩))
    rwa [Function.update_of_ne hne] at this
  have hother : ∀ j x, j ≠ i → x ∈ B j → x.order_id ≠ o.order_id := fun j x hj hx he =>
    hm.apart j hj x hx (he ▸ List.mem_cons_of_mem _ (List.mem_map_of_mem ho))
  have hmaker : (makerReport (w.instruments i).id side (Fill.of o t)).Telling :=
    ⟨rfl, hm.named _ (List.mem_cons_of_mem _ (List.mem_map_of_mem ho))⟩
  have htaker : (takerReport request tid side quantity filled (Fill.of o t)).Telling := ⟨rfl, hm.named _ List.mem_cons_self⟩
  refine ⟨L.event (.Report (makerReport (w.instruments i).id side (Fill.of o t))), ?_, ?_⟩
  · rw [fillStory, tell_cons, tell_cons, tell_cons, tell_nil, event_telling htaker]
    congr 1
    rw [event_telling hmaker]
    exact congrArg _ (Function.update_of_ne (Ne.symm hne) _ _)
  · rw [event_telling hmaker]
    change Lists w (Function.update (Function.update L o.order_id (ExecutionReport.written _ (L o.order_id))) tid none) _
    rw [Function.update_comm hne, hlo]
    by_cases hleft : o.left = t
    · have hgone : (makerReport (w.instruments i).id side (Fill.of o t)).written (some (o.line (w.instruments i).id)) =
          none := by
        have hz : (Fill.of o t).maker_is_filled = true := (fill_left_zero (hm.sound o ho) ht).2 hleft
        simp only [ExecutionReport.written, makerReport, hz, if_true, OrderState.terminal]
      rw [hgone]
      refine h.drop fun j x => ?_
      rw [mem_update, mem_update, mem_afterFill_iff hm.ids ho]
      have := hother j x
      simp only [ne_eq, hleft, not_true_eq_false, false_and, or_false]
      grind
    · have hopen : (makerReport (w.instruments i).id side (Fill.of o t)).written (some (o.line (w.instruments i).id)) =
          some ((o.fill t).line (w.instruments i).id) := by
        have hz : (Fill.of o t).maker_is_filled = false :=
          Bool.eq_false_iff.2 fun hz => hleft ((fill_left_zero (hm.sound o ho) ht).1 hz)
        simp only [ExecutionReport.written, makerReport, hz, Bool.false_eq_true, if_false, OrderState.terminal]
        rfl
      rw [hopen]
      have hid : (o.fill t).order_id = o.order_id := rfl
      rw [← hid]
      refine h.put fun j x => ?_
      rw [mem_update, mem_update, mem_afterFill_iff hm.ids ho, hid]
      have := hother j x
      grind

/-- The taker's line during a matching that has `left` to fill: it has the right
identity, or the next report of the taker gives it that. -/
structure Holding (L : Lines) (tid : OrderId) (who : Identity) (request : OrderRequest) (side : Side) (left : QuantityLots) :
    Prop where
  line : ∀ line, L tid = some line → line.who = who
  fresh : L tid = none → val left = 0 ∨ ⟨request.account, request.instrument, side, request.client_order_id⟩ = who

/-- The reports of a matching. -/
theorem Fills.lists {s : Side} {limit : PriceTicks} {l l' : List NewOrder} {r r' : UInt64} {fills : List Fill}
    (h : Fills s limit l r fills l' r') {who : Identity} {side : Side} {quantity filled : QuantityLots}
    (hl : Lists w (Function.update L tid none) (Function.update B i l)) (hm : Meets B i l tid)
    (hsum : val filled + val r = val quantity) (hold : Holding L tid who request side r) :
    Lists w (Function.update (L.tell (fillsStory (w.instruments i).id request tid side quantity filled fills)) tid none)
        (Function.update B i l') ∧ Meets B i l' tid ∧
      ∀ line, L.tell (fillsStory (w.instruments i).id request tid side quantity filled fills) tid = some line →
        line.who = who := by
  induction h generalizing L filled with
  | nil => exact ⟨hl, hm, hold.line⟩
  | @cons l r o fs l' r' hr hnext _ _ ih =>
    obtain ⟨ho, -⟩ := hnext.mem
    have hmin : val (min r o.left) = min (val r) (val o.left) := u64_min _ _
    have ht : val (min r o.left) ≤ val o.left := by omega
    have hqb := (u64_bounds quantity).2
    have hadd : val (filled + min r o.left) = val filled + val (min r o.left) := u64_add (by omega)
    have hsub : val (r - min r o.left) = val r - val (min r o.left) := u64_sub (by omega)
    obtain ⟨L₁, htell, hl₁⟩ := hl.fill hm ho ht request side quantity (filled + min r o.left)
    have hquantity : (Fill.of o (min r o.left)).quantity = min r o.left := rfl
    rw [fillsStory, tell_append, hquantity, htell]
    refine ih ?_ (hm.fill ho ht) (by rw [hadd, hsub]; omega) ⟨fun line hline => ?_, fun hline => ?_⟩
    · rw [Function.update_idem]
      exact hl₁
    · rw [Function.update_self, ExecutionReport.written] at hline
      split at hline
      · cases hline
      · cases hline
        change (Option.map Line.who (L tid)).getD _ = who
        cases hold' : L tid with
        | some line => exact hold.line line hold'
        | none =>
          rcases hold.fresh hold' with h0 | hwho
          · omega
          · exact hwho
    · -- The taker's line goes only with its last fill.
      rw [Function.update_self, ExecutionReport.written] at hline
      split at hline
      · rename_i hterm
        have hdone : filled + min r o.left = quantity := by
          by_contra hne
          simp only [takerReport, if_neg hne] at hterm
          cases hterm
        have hval := congrArg val hdone
        rw [hadd] at hval
        left
        rw [hsub]
        omega
      · cases hline

/-- The final report of an order that went through matching and is not dropped. -/
theorem Landing.lists (h : Landing f request kind true filled r' l' report l'')
    (hl : Lists w (Function.update L f.tag.order_id none) (Function.update B f.instrument_index l'))
    (hwho : ∀ line, L f.tag.order_id = some line → line.who = f.tag.identity (w.instruments f.instrument_index).id)
    (hacc : f.tag.account = request.account) (hins : (w.instruments f.instrument_index).id = request.instrument)
    (hm : Meets B f.instrument_index l' f.tag.order_id) :
    Lists w (L.event (.Report report)) (Function.update B f.instrument_index l'') := by
  have htell : ∀ {kind state filled left}, (landed request f.tag kind state filled left).Telling :=
    ⟨rfl, hm.named _ List.mem_cons_self⟩
  have hopen : (openState filled).terminal = false := by
    rw [openState]
    split <;> rfl
  cases h with
  | filled | cancelled =>
    rw [event_telling htell]
    exact hl
  | dropped _ _ hfits => cases hfits
  | rests priority =>
    rw [event_telling htell]
    have hrep : (landed request f.tag kind (openState filled) filled r').identity = f.tag.identity request.instrument := by
      rw [Tag.identity, hacc]
      rfl
    have hid : (Option.map Line.who (L f.tag.order_id)).getD (f.tag.identity request.instrument) =
        f.tag.identity request.instrument := by
      cases hL : L f.tag.order_id with
      | none => rfl
      | some line =>
        rw [← hins]
        exact hwho line hL
    have hline : (landed request f.tag kind (openState filled) filled r').written (L f.tag.order_id) =
        some ((f.order request.price request.quantity filled priority).line (w.instruments f.instrument_index).id) := by
      have hstate : (landed request f.tag kind (openState filled) filled r').state.terminal = false := hopen
      rw [ExecutionReport.written, hstate, hrep, hid, ← hins]
      rfl
    have hput : Lists w (Function.update (Function.update L f.tag.order_id none) f.tag.order_id
        (some ((f.order request.price request.quantity filled priority).line (w.instruments f.instrument_index).id)))
        (Function.update B f.instrument_index (l' ++ [f.order request.price request.quantity filled priority])) :=
      hl.put (o := f.order request.price request.quantity filled priority) fun j x => by
        have hhere : x ∈ l' → x.order_id ≠ f.tag.order_id := fun hx he => hm.fresh (he ▸ List.mem_map_of_mem hx)
        have helse : j ≠ f.instrument_index → x ∈ B j → x.order_id ≠ f.tag.order_id := fun hj hx he =>
          hm.apart j hj x hx (he ▸ List.mem_cons_self)
        rw [mem_update, mem_update, List.mem_append, List.mem_singleton]
        change _ ↔ _ ∧ x.order_id ≠ f.tag.order_id ∨ _
        grind
    rw [Function.update_idem, ← hline] at hput
    exact hput

/-- All reports of an order that goes through matching and is not dropped. -/
theorem Fills.land {limit : PriceTicks} {l l' l'' : List NewOrder} {fills : List Fill}
    (h : Fills f.tag.side.opposite limit l f.left fills l' r')
    (hland : Landing f request kind true filled r' l' report l'')
    (hl : Lists w (Function.update L f.tag.order_id none) (Function.update B f.instrument_index l))
    (hm : Meets B f.instrument_index l f.tag.order_id) (hacc : f.tag.account = request.account)
    (hins : (w.instruments f.instrument_index).id = request.instrument)
    (hold : Holding L f.tag.order_id (f.tag.identity request.instrument) request f.tag.side f.left) :
    Lists w (L.tell (fillsStory (w.instruments f.instrument_index).id request f.tag.order_id f.tag.side f.left 0 fills ++
      [.Report report])) (Function.update B f.instrument_index l'') := by
  rw [← hins] at hold
  have hzero : val (0 : QuantityLots) + val f.left = val f.left := by
    rw [u64_val_zero]
    omega
  obtain ⟨h1, h2, h3⟩ := h.lists hl hm hzero hold
  rw [tell_append, tell_cons, tell_nil]
  exact hland.lists h1 h3 hacc hins h2

/-- Where the request's order would come to rest there is room for it. -/
structure Roomy (fits : Bool) (request : OrderRequest) : Prop where
  enter : request.kind = .New → request.order_type = .Limit → fits = true
  requeue : request.kind = .Replace → fits = true

theorem Landing.fits {fits : Bool} (h : Landing f request kind fits filled r' l' report l'')
    (hroom : (request.kind = .New → request.order_type = .Limit) → fits = true) :
    Landing f request kind true filled r' l' report l'' := by
  cases h with
  | filled h0 => exact .filled h0
  | cancelled h0 hk ht => exact .cancelled h0 hk ht
  | rests priority h0 hlimit _ => exact .rests priority h0 hlimit rfl
  | dropped _ hlimit hfits => exact absurd (hroom hlimit) (by rw [hfits]; exact Bool.false_ne_true)

/-- An order of an instrument is taken out of the book. -/
theorem mem_setBook_without (hl : Listed d) (ho : o ∈ d.book i) (j : Fin n) (x : NewOrder) :
    x ∈ (d.setBook i (without NewOrder.order_id o.order_id (d.book i))).book j ↔ x ∈ d.book j ∧ x.order_id ≠ o.order_id := by
  rw [mem_setBook]
  split
  · rename_i hj
    rw [hj, mem_without]
  · rename_i hj
    exact ⟨fun hx => ⟨hx, fun he => hj (hl.apart hx ho he)⟩, fun hx => hx.1⟩

theorem Listed.meets (hl : Listed d) (hsub : l.Sublist (d.book i)) (hfresh : ∀ x ∈ l, x.order_id ≠ tid)
    (helse : ∀ j, j ≠ i → ∀ x ∈ d.book j, x.order_id ≠ tid) (hzero : ∀ x ∈ d.book i, x.order_id ≠ 0) (ht0 : tid ≠ 0) :
    Meets d.book i l tid where
  ids := (hl.ids i).sublist (hsub.map _)
  sound x hx := (hl.working (hsub.subset hx)).1
  apart j hj x hx hm := by
    rcases List.mem_cons.1 hm with he | hm
    · exact helse j hj x hx he
    · obtain ⟨y, hy, he⟩ := List.mem_map.1 hm
      exact hj (hl.apart hx (hsub.subset hy) he.symm)
  fresh hm := by
    obtain ⟨x, hx, he⟩ := List.mem_map.1 hm
    exact hfresh x hx he
  named id hm := by
    rcases List.mem_cons.1 hm with rfl | hm
    · exact ht0
    · obtain ⟨x, hx, rfl⟩ := List.mem_map.1 hm
      exact hzero x (hsub.subset hx)

theorem Landing.accepted {fits : Bool} (h : Landing f request kind fits filled r' l' report l'') :
    report.reject_reason = none := by
  cases h <;> rfl

/-- The story does not end with a rejection. -/
def Unrejected (story : List OutputEvent) : Prop := ∀ report, final_report story = some report → report.reject_reason = none

theorem unrejected_append (story : List OutputEvent) (h : report.reject_reason = none) :
    Unrejected (story ++ [.Report report]) := by
  intro last hlast
  rw [final_report_append] at hlast
  cases hlast
  exact h

/-- Handling a request keeps the table to the resting orders. -/
theorem Story.lists {fits : Bool} (h : Story w fits d request story d')
    (hw : ∀ {x i}, w.instrument_index.lookup x = some i → (w.instruments i).id = x) (hl : Listed d)
    (hroom : Unrejected story → Roomy fits request) (hL : Lists w L d.book) (h0 : L 0 = none) :
    Lists w (L.tell story) d'.book := by
  have hzero : ∀ i, ∀ x ∈ d.book i, x.order_id ≠ 0 := by
    intro i x hx he
    have := hL.of_mem hx
    rw [he, h0] at this
    cases this
  cases h with
  | reject reason =>
    have hsilent : ¬(rejected request reason).Telling := fun ht => by cases ht.1
    rw [tell_cons, event_silent hsilent]
    exact hL
  | @cancel i o _ ho _ _ =>
    rw [tell_cons, event_telling ⟨rfl, hzero i o ho⟩]
    exact hL.drop (mem_setBook_without hl ho)
  | @retire i o _ ho _ _ _ _ =>
    rw [tell_cons, event_telling ⟨rfl, hzero i o ho⟩]
    exact hL.drop (mem_setBook_without hl ho)
  | @shrink i o r' _ ho hacc _ hi _ hprice _ =>
    rw [tell_cons, event_telling ⟨rfl, hzero i o ho⟩]
    have hline : (landed request o.tag .Replaced (openState o.cumulative_filled) o.cumulative_filled r').written
        (L o.order_id) = some ({ o with total_quantity := request.quantity }.line (w.instruments i).id) := by
      have hopen : (openState o.cumulative_filled).terminal = false := by
        rw [openState]
        split <;> rfl
      have hstate : (landed request o.tag .Replaced (openState o.cumulative_filled) o.cumulative_filled r').state.terminal =
          false := hopen
      rw [ExecutionReport.written, hstate, hL.of_mem ho]
      simp only [Bool.false_eq_true, if_false, Option.map_some, Option.getD_some, NewOrder.line, ExecutionReport.line, landed,
        plain, hprice]
      rfl
    have hput : Lists w (Function.update L o.order_id (some ({ o with total_quantity := request.quantity }.line
        (w.instruments i).id))) (d.setBook i (amend NewOrder.order_id o.order_id
          (fun o => { o with total_quantity := request.quantity }) (d.book i))).book :=
      hL.put (o := { o with total_quantity := request.quantity }) fun j x => by
        rw [mem_setBook]
        split
        · rename_i hj
          subst hj
          rw [mem_amend]
          refine or_congr_right ⟨?_, ?_⟩
          · rintro ⟨y, hy, hid, rfl⟩
            obtain rfl := List.inj_on_of_nodup_map (hl.ids j) hy ho hid
            exact ⟨rfl, rfl⟩
          · rintro ⟨-, rfl⟩
            exact ⟨o, ho, rfl, rfl⟩
        · rename_i hj
          exact ⟨fun hx => .inl ⟨hx, fun he => hj (hl.apart hx ho he)⟩, fun hx => hx.elim And.left fun he => absurd he.1 hj⟩
    rw [← hline] at hput
    exact hput
  | @enter f limit fills l' l'' r' filled report _ hk hacc hcl hside hid _ hleft hi hfills hsum hland hbook =>
    have hnext := (u64_bounds d.next_order_id).1
    have hfresh : ∀ j x, x ∈ d.book j → x.order_id ≠ f.tag.order_id := by
      intro j x hx he
      have := hl.issued hx
      rw [he] at this
      omega
    have ht0 : f.tag.order_id ≠ 0 := by
      intro he
      rw [he, u64_val_zero] at hid
      omega
    have hnone : L f.tag.order_id = none := by
      by_contra hsome
      obtain ⟨line, hline⟩ := Option.ne_none_iff_exists'.1 hsome
      obtain ⟨j, x, hx, he, -⟩ := (hL _ _).1 hline
      exact hfresh j x hx he
    have hstart : Lists w (Function.update L f.tag.order_id none)
        (Function.update d.book f.instrument_index (d.book f.instrument_index)) := by
      rw [← hnone, Function.update_eq_self, Function.update_eq_self]
      exact hL
    have hwho : (⟨request.account, request.instrument, f.tag.side, request.client_order_id⟩ : Identity) =
        f.tag.identity request.instrument := by
      rw [Tag.identity, hacc, hcl]
    have hhold : Holding L f.tag.order_id (f.tag.identity request.instrument) request f.tag.side f.left :=
      ⟨fun line hline => absurd (hnone.symm.trans hline) (by simp), fun _ => .inr hwho⟩
    rw [hbook]
    exact hfills.land (hland.fits fun hlimit => (hroom (unrejected_append _ hland.accepted)).enter hk (hlimit hk)) hstart
      (hl.meets (List.Sublist.refl _) (hfresh _) (fun j _ => hfresh j) (hzero _) ht0) hacc (hw hi) hhold
  | @requeue f o fills l' l'' r' filled report _ hk ho hacc hcl htag hleft hpos hi hfills hsum hland hbook =>
    have hto : f.tag.order_id = o.order_id := congrArg Tag.order_id htag
    have hstart : Lists w (Function.update L f.tag.order_id none) (Function.update d.book f.instrument_index
        (without NewOrder.order_id o.order_id (d.book f.instrument_index))) := by
      rw [hto]
      exact hL.drop (mem_setBook_without hl ho)
    have hown : L f.tag.order_id = some (o.line (w.instruments f.instrument_index).id) := by
      rw [hto]
      exact hL.of_mem ho
    have hhold : Holding L f.tag.order_id (f.tag.identity request.instrument) request f.tag.side f.left := by
      refine ⟨fun line hline => ?_, fun hnone => absurd (hown.symm.trans hnone) (by simp)⟩
      rw [hown] at hline
      cases hline
      rw [htag, ← hw hi]
      rfl
    have htacc : f.tag.account = request.account := by
      rw [htag]
      exact hacc
    rw [hbook]
    refine hfills.land (hland.fits fun _ => (hroom (unrejected_append _ hland.accepted)).requeue hk) hstart
      (hl.meets (without_sublist _ _) ?_ ?_ (hzero _) (hto ▸ hzero _ o ho)) htacc (hw hi) hhold
    · intro x hx
      rw [hto]
      exact (mem_without.1 hx).2
    · intro j hj x hx he
      exact hj (hl.apart hx ho (he.trans hto))

/-! ## The table in runs -/

/-- The request passes the checks that come before a resting order. -/
def TradingCore.admits (c : TradingCore n m) (request : OrderRequest) : Bool :=
  match request.kind with
  | .New => request.order_type = .Limit && passed (c.check_new_order request)
  | .Replace => passed (c.check_replace request)
  | .Cancel => false

/-- At the time of the input the request passes its checks, and its price level has no room for an order of its
quantity. Whether some of that would trade first is not looked at. -/
def TradingCore.crowded (c : TradingCore n m) (input : EngineInput) (request : OrderRequest) : Bool :=
  (next c.engine_seq).any (fun seq => (c.entered input seq).admits request) && !c.fits request

/-- The order of the report is live with the report's price and quantities. -/
def TradingCore.shows (c : TradingCore n m) (report : ExecutionReport) : Bool :=
  match c.live_orders.lookup report.order_id with
  | none => false
  | some live =>
    match (c.book live.instrument_index).get report.order_id with
    | .ok (some node) => node.price = report.price && node.total_quantity = report.total_quantity &&
        node.cumulative_filled = report.cumulative_filled
    | _ => false

/-- The request ends with the report of an open order that is not in the book, or not as reported. -/
def TradingCore.misleads (c : TradingCore n m) (input : EngineInput) (request : OrderRequest) : Bool :=
  match c.cache_hit request with
  | none => c.crowded input request
  | some (_, .Retry previous) => previous.reject_reason.isNone && !previous.state.terminal && !c.shows previous
  | some (_, .Conflict) => false

/-- The reports of the turn are true of the book. -/
def Truthful (t : CoreTurn n m) : Prop := t.input.event.OnOrder fun request => t.before.misleads t.input request = false

instance (t : CoreTurn n m) : Decidable (Truthful t) := inferInstanceAs (Decidable (t.input.event.OnOrder _))

/-- A request that is handled without a rejection has passed its checks. -/
theorem Handled.admits {c₁ : TradingCore n m} (h : Handled c c₁ d request out report)
    (hacc : report.reject_reason = none)
    (hrests : request.kind = .New ∧ request.order_type = .Limit ∨ request.kind = .Replace) :
    c.admits request = true := by
  have hnew {checked : CheckedNewOrder n m} (hk : request.kind = .New) (hp : Passes (c.check_new_order request) checked) :
      c.admits request = true := by
    have ht : request.order_type = .Limit := by
      rcases hrests with hlimit | hreplace
      · exact hlimit.2
      · cases hk.symm.trans hreplace
    rw [TradingCore.admits, hk, hp.passed, ht]
    rfl
  have hreplace {checked : CheckedReplace n m} (hk : request.kind = .Replace)
      (hp : Passes (c.check_replace request) checked) : c.admits request = true := by
    rw [TradingCore.admits, hk]
    exact hp.passed
  cases h with
  | refused reason he =>
    have hr : (c.reject_report request reason).2.reject_reason = some reason := rfl
    rw [he, hacc] at hr
    cases hr
  | exhausted hk hp => exact hnew hk hp
  | cancels hk => rcases hrests with ⟨hk', -⟩ | hk' <;> cases hk.symm.trans hk'
  | enters hk hp => exact hnew hk hp
  | retires hk hp => exact hreplace hk hp
  | reduces hk hp => exact hreplace hk hp
  | requeues hk hp => exact hreplace hk hp

/-- A request that is not misleading finds room, unless it is rejected. -/
theorem View.roomy (h : View c d) (hinput : input.event = .Order request) (hhit : c.cache_hit request = none)
    (hf : c.fault = none) (hr : c.apply input = .ok (c', out)) {seq : EngineSeq} (hn : next c.engine_seq = some seq)
    (hq : c.crowded input request = false) (hout : Unrejected out) :
    Roomy (c.fits request) request := by
  have hfits (hrests : request.kind = .New ∧ request.order_type = .Limit ∨ request.kind = .Replace) :
      c.fits request = true := by
    rw [apply_eq hf input hn, hinput] at hr
    obtain ⟨⟨c₁, out₁⟩, he, hr⟩ := bind_eq_ok.1 hr
    cases hr
    have hadmits : (c.entered input seq).admits request = true := by
      cases apply_event_happened (h.entered input seq) he with
      | quiet hother => exact absurd rfl (hother request)
      | retry hhit' => cases hhit.symm.trans hhit'
      | conflict hhit' => cases hhit.symm.trans hhit'
      | handled _ _ hhandled _ hlast =>
        refine hhandled.admits (hout _ ?_) hrests
        rw [hlast, final_report_append]
    rw [TradingCore.crowded, hn, Option.any_some, hadmits, Bool.true_and, Bool.not_eq_false'] at hq
    exact hq
  exact ⟨fun hk ht => hfits (.inl ⟨hk, ht⟩), fun hk => hfits (.inr hk)⟩

/-- A report that still shows its order changes nothing. -/
theorem Lists.shows (hL : Lists c.wiring L d.book) (h : View c d) (hs : c.shows report = true)
    (hopen : report.state.terminal = false) : L.event (.Report report) = L := by
  by_cases ht : report.Telling
  · rw [event_telling ht, Function.update_eq_self_iff, ExecutionReport.written, hopen, if_neg Bool.false_ne_true]
    rw [TradingCore.shows] at hs
    split at hs
    · cases hs
    · rename_i live _
      split at hs
      · rename_i node hnode
        have hlive : c.LiveIn live.instrument_index report.order_id node := hnode
        obtain ⟨hm, hid⟩ := h.mem_of_live hlive
        have hline := hL.of_mem hm
        simp only [Bool.and_eq_true, decide_eq_true_eq] at hs
        obtain ⟨⟨hp, htot⟩, hcum⟩ := hs
        rw [show report.order_id = node.toNewOrder.order_id from hid.symm, hline]
        simp only [Option.map_some, Option.getD_some, ExecutionReport.line, ← hp, ← htot, ← hcum]
        rfl
      · cases hs
  · exact event_silent ht

/-- The tables so far, and the orders of terminal reports that can still be repeated. -/
structure Projected (c : TradingCore n m) (ts : List (CoreTurn n m)) (d : Desk n m) : Prop where
  lists : Lists c.wiring (Lines.tell (fun _ => none) (outputs ts)) d.book
  seqs : Counts 0 ((outputs ts).map fun event => val event.output_seq) (val c.output_seq)
  closed : ∀ a entry, some entry ∈ (c.memory a).cache.entries → entry.outcome.reject_reason = none →
    entry.outcome.state.terminal = true → val entry.outcome.order_id ≤ val d.next_order_id ∧
      ∀ i, ∀ o ∈ d.book i, o.order_id ≠ entry.outcome.order_id

/-- The final report of a request is about an order that is issued by then. -/
theorem Story.issued {fits : Bool} (h : Story w fits d request story d') (hl : Listed d)
    (hnext : val d.next_order_id ≤ val d'.next_order_id) (hlast : final_report story = some report) :
    val report.order_id ≤ val d'.next_order_id := by
  cases h with
  | reject =>
    cases hlast
    have := (u64_bounds d.next_order_id).1
    change val (0 : OrderId) ≤ _
    rw [u64_val_zero]
    omega
  | cancel _ ho | retire _ ho | shrink _ ho =>
    cases hlast
    exact Int.le_trans (hl.issued ho) hnext
  | enter _ hacc _ _ _ hid _ _ _ _ hland =>
    rw [final_report_append] at hlast
    cases hlast
    rw [(hland.identity hacc).1]
    exact hid
  | requeue _ ho hacc _ htag _ _ _ _ _ hland =>
    rw [final_report_append] at hlast
    cases hlast
    rw [(hland.identity (by rw [htag]; exact hacc)).1, htag]
    exact Int.le_trans (hl.issued ho) hnext

/-- What a turn does to the lines. -/
theorem Projected.turn {ts : List (CoreTurn n m)} (h : Projected c ts d)
    (hv : View c d) (he : Effect c d input.event story d')
    (hroom : ∀ request, input.event = .Order request → c.cache_hit request = none → c.crowded input request = false →
      Unrejected story → Roomy (c.fits request) request) (hq : Truthful (⟨c, input, out⟩ : CoreTurn n m)) :
    Lists c.wiring ((Lines.tell (fun _ => none) (outputs ts)).tell story) d'.book := by
  have h0 := tell_zero (L := fun _ => none) rfl (outputs ts)
  change input.event.OnOrder fun request => c.misleads input request = false at hq
  generalize input.event = event at he hq hroom
  cases he with
  | quiet _ hst =>
    rcases hst with rfl | ⟨state, rfl⟩
    · exact h.lists
    · exact h.lists
  | @retry request a previous hhit =>
    have hq : c.misleads input request = false := hq
    obtain ⟨entry, hentry, rfl⟩ := mem_of_hit hhit
    have hkeep : (Lines.tell (fun _ => none) (outputs ts)).event (.Report entry.outcome) =
        Lines.tell (fun _ => none) (outputs ts) := by
      by_cases hrej : entry.outcome.reject_reason = none
      · cases hterm : entry.outcome.state.terminal with
        | true =>
          -- The order is gone for good, so there is no line to delete.
          by_cases ht : entry.outcome.Telling
          · rw [event_telling ht, Function.update_eq_self_iff, ExecutionReport.written, hterm, if_pos rfl]
            by_contra hsome
            obtain ⟨line, hline⟩ := Option.ne_none_iff_exists'.1 (Ne.symm hsome)
            obtain ⟨i, o, ho, hid, -⟩ := (h.lists _ _).1 hline
            exact (h.closed a entry hentry hrej hterm).2 i o ho hid
          · exact event_silent ht
        | false =>
          refine h.lists.shows hv ?_ hterm
          simpa [TradingCore.misleads, hhit, hrej, hterm] using hq
      · exact event_silent fun ht => hrej ht.1
    rw [tell_cons, tell_nil, show OutputEvent.Report entry.outcome.bare = (OutputEvent.Report entry.outcome).bare from rfl,
      event_bare, hkeep]
    exact h.lists
  | @conflict request a hhit =>
    have hsilent : ¬(rejected request .DuplicateRequestConflict).Telling := fun ht => by cases ht.1
    rw [tell_cons, event_silent hsilent]
    exact h.lists
  | @handled request _ _ hhit hst =>
    have hq : c.misleads input request = false := hq
    rw [TradingCore.misleads, hhit] at hq
    exact hst.lists hv.wired.instrument hv.inv.toListed (hroom request rfl hhit hq) h.lists h0

theorem Projected.snoc {ts : List (CoreTurn n m)} (h : Projected c ts d) {seq : EngineSeq} {ms : List (Move n m)}
    (hv : View c d) (hf : c.fault = none) (hr : c.apply input = .ok (c', out)) (hn : next c.engine_seq = some seq)
    (ha : Applied c c' d input.event out (c.stampsAt seq)) (hd : Done c c' d input.event out (c.stampsAt seq) d' ms)
    (hq : Truthful (⟨c, input, out⟩ : CoreTurn n m)) :
    Projected c' (ts ++ [⟨c, input, out⟩]) d' := by
  obtain ⟨story, heffect, hemits⟩ := hd.told
  have hunrejected : Unrejected story → Unrejected out := fun hstory report hlast => by
    refine hstory report.bare ?_
    rw [← hemits.bare, final_report_bare, hlast]
    rfl
  have hlists := h.turn hv heffect (fun request hinput hhit hcrowded hstory =>
    hv.roomy hinput hhit hf hr hn hcrowded (hunrejected hstory)) hq
  have hout : outputs (ts ++ [(⟨c, input, out⟩ : CoreTurn n m)]) = outputs ts ++ out := by
    rw [outputs_append]
    simp [outputs]
  have htell : Lines.tell (fun _ => none) (outputs ts ++ out) = (Lines.tell (fun _ => none) (outputs ts)).tell story := by
    rw [tell_append, ← hemits.bare, tell_bare]
  have hev := hd.steps.evolves (wordBounds c) hv.inv
  refine ⟨?_, ?_, fun a entry hentry hrej hterm => ?_⟩
  · rw [hout, htell, ha.wiring]
    exact hlists
  · rw [hout, List.map_append]
    exact h.seqs.append hemits.seqs
  · rcases ha.memory.entries hentry with hold | ⟨report, hrep, rfl⟩
    · obtain ⟨hissued, hgone⟩ := h.closed a entry hold hrej hterm
      refine ⟨Int.le_trans hissued hev.issued, fun i o ho hid => ?_⟩
      rcases hev.known i o.tag (.inl ⟨o, ho, rfl⟩) with (⟨y, hy, ht⟩ | ⟨f, hf, -⟩) | hlt
      · exact hgone i y hy ((congrArg Tag.order_id ht).trans hid)
      · rw [hv.idle] at hf
        cases hf
      · have : val o.tag.order_id = val entry.outcome.order_id := congrArg val hid
        omega
    · have hbare : final_report story = some entry.outcome.bare := by
        rw [← hemits.bare, final_report_bare, hrep]
        rfl
      have hnone := tell_closed (tell_zero (L := fun _ => none) rfl (outputs ts)) hbare hrej hterm
      refine ⟨?_, fun i o ho hid => ?_⟩
      · generalize input.event = event at heffect
        cases heffect with
        | quiet _ hst => rcases hst with rfl | ⟨state, rfl⟩ <;> cases hbare
        | @retry request b previous hhit =>
          obtain ⟨first, hfirst, rfl⟩ := mem_of_hit hhit
          have hsame : first.outcome.bare = entry.outcome.bare := Option.some.inj hbare
          have hrej' : first.outcome.reject_reason = none := (congrArg ExecutionReport.reject_reason hsame).trans hrej
          have hterm' : first.outcome.state.terminal = true :=
            (congrArg (fun report => report.state.terminal) hsame).trans hterm
          have hid := congrArg ExecutionReport.order_id hsame
          change first.outcome.order_id = entry.outcome.order_id at hid
          rw [← hid]
          exact (h.closed b first hfirst hrej' hterm').1
        | conflict =>
          have hreason := (congrArg ExecutionReport.reject_reason (Option.some.inj hbare)).trans hrej
          cases hreason
        | handled _ hst =>
          have hissued := hst.issued hv.inv.toListed hev.issued hbare
          exact hissued
      · have hline := hlists.of_mem ho
        rw [hid] at hline
        exact absurd (hnone.symm.trans hline) (by simp)

/-- The row is that of the live order. -/
structure RowOf (c : TradingCore n m) (i : Fin n) (node : OrderNode) (row : OrderRow) : Prop where
  account : row.account = node.account
  instrument : row.instrument = c.instruments[i].config.id
  client_order_id : row.client_order_id = node.client_order_id
  side : row.side = node.side
  price : row.price_ticks = node.price
  total : row.total_lots = node.total_quantity
  filled : row.filled_lots = node.cumulative_filled

theorem rowOf_iff {node : OrderNode} {row : OrderRow} :
    RowOf c i node row ↔ row.line = node.toNewOrder.line c.instruments[i].config.id := by
  constructor
  · rintro ⟨h1, h2, h3, h4, h5, h6, h7⟩
    rw [OrderRow.line, h1, h2, h3, h4, h5, h6, h7]
    rfl
  · intro h
    have hwho := congrArg Line.who h
    exact ⟨congrArg Identity.account hwho, congrArg Identity.instrument hwho, congrArg Identity.client_order_id hwho,
      congrArg Identity.side hwho, congrArg Line.price h, congrArg Line.total h, congrArg Line.filled h⟩

/-- The rows of the table and the live orders, one to one. -/
structure TableAgrees (c : TradingCore n m) (db : Database) : Prop where
  live : ∀ id row, db.orders.lookup id = some row → ∃ i node, c.LiveIn i id node ∧ RowOf c i node row
  row : ∀ i id node, c.LiveIn i id node → ∃ row, db.orders.lookup id = some row ∧ RowOf c i node row

theorem View.table (hv : View c d) {db : Database} (h : Lists c.wiring db.lines d.book) : TableAgrees c db where
  live id row hrow := by
    have hline : db.lines id = some row.line := by rw [Database.lines, hrow]; rfl
    obtain ⟨i, o, ho, rfl, hl⟩ := (h _ _).1 hline
    obtain ⟨node, hlive, rfl⟩ := hv.live_of_mem ho
    exact ⟨i, node, hlive, rowOf_iff.2 hl.symm⟩
  row i id node hlive := by
    obtain ⟨hm, rfl⟩ := hv.mem_of_live hlive
    have hline : db.lines node.order_id = some (node.toNewOrder.line (c.wiring.instruments i).id) := h.of_mem hm
    obtain ⟨row, hrow, hl⟩ := Option.map_eq_some_iff.1 hline
    exact ⟨row, hrow, rowOf_iff.2 hl⟩

/-- A new projection that reads the outputs of a run without a fault, in which
every report of an open order is true of the book and every integer can be bound,
has the live orders of the engine in its table and no others. -/
theorem orders_table_agrees {allocator : SlabAllocator} {config : EngineConfig} {inputs : List EngineInput}
    {c : TradingCore config.instruments.length config.accounts.length} {ts : List (CoreTurn _ _)}
    (h : (TradingCore.new allocator config).history inputs = .ok (c, ts)) (hf : c.fault = none)
    (hq : ∀ t ∈ ts, Truthful t) (hbinds : ∀ event ∈ outputs ts, event.binds = true) :
    TableAgrees c ((Projection.new .migrate).apply (outputs ts)).db := by
  obtain ⟨d, hv, hrun⟩ := history_steady (view_new allocator config)
    (fun c ts d => (∀ t ∈ ts, Truthful t) → Projected c ts d)
    (fun _ => ⟨fun id line => iff_of_false nofun (by rintro ⟨i, o, ho, -⟩; cases ho), rfl, fun a entry he => by
      simp [TradingCore.memory, TradingCore.new, AccountState.new, RequestCache.new] at he⟩)
    (fun ih hv hf hr hn ha hd hq => (ih fun t ht => hq t (List.mem_append_left _ ht)).snoc hv hf hr hn ha hd
      (hq _ (List.mem_append_right _ (List.mem_singleton_self _)))) h hf
  have hp := hrun hq
  have hloop := applyLoop_of_counts (p := Projection.new .migrate) hp.seqs
  refine hv.table ?_
  rw [apply_of_binds fun event hevent => hbinds event (mem_applied hevent).1, Projection.commit, hloop]
  change Lists c.wiring (Database.lines (List.foldl Projection.take _ _).db) d.book
  rw [db_foldl_take, lines_foldl]
  exact hp.lists

/-- Of the small market the first account's offer is left with two of its lots, and the second's bid. -/
theorem orders_table_agrees_small :
    ∃ c ts row, smallCore.history smallInputs = .ok (c, ts) ∧ c.fault = none ∧
      TableAgrees c ((Projection.new .migrate).apply (outputs ts)).db ∧
      ((Projection.new .migrate).apply (outputs ts)).db.orders.lookup 1 = some row ∧ row.filled_lots = 3 := by
  have hends : Ends (smallCore.history smallInputs) fun r => r.1.fault = none ∧ (∀ t ∈ r.2, Truthful t) ∧
      (∀ event ∈ outputs r.2, event.binds = true) ∧
      ∃ row ∈ ((Projection.new .migrate).apply (outputs r.2)).db.orders.lookup 1, row.filled_lots = 3 := by
    decide +kernel
  obtain ⟨⟨c, ts⟩, hr, hf, hq, hbinds, row, hrow, hfilled⟩ := hends
  exact ⟨c, ts, row, hr, hf, orders_table_agrees hr hf hq hbinds, hrow, hfilled⟩

/-- Order 1 is cancelled, and then its first request is repeated: the order is back in the table. -/
theorem cancelled_order_reappears :
    ∃ c ts row, smallCore.history (smallInputs ++ [cancelling 1 2 2 1, placed 1 1 .Sell 100 5]) = .ok (c, ts) ∧
      c.fault = none ∧ ((Projection.new .migrate).apply (outputs ts)).db.orders.lookup 1 = some row ∧
      ∀ i node, ¬c.LiveIn i 1 node := by
  have hends : Ends (smallCore.history (smallInputs ++ [cancelling 1 2 2 1, placed 1 1 .Sell 100 5])) fun r =>
      r.1.fault = none ∧ (((Projection.new .migrate).apply (outputs r.2)).db.orders.lookup 1).isSome ∧
      ∀ i, Ends ((r.1.book i).get 1) fun found => found = none := by
    decide +kernel
  obtain ⟨⟨c, ts⟩, hr, hf, hrow, hgone⟩ := hends
  obtain ⟨row, hrow⟩ := Option.isSome_iff_exists.1 hrow
  refine ⟨c, ts, row, hr, hf, hrow, fun i node hlive => ?_⟩
  obtain ⟨found, hget, rfl⟩ := hgone i
  exact nomatch hget.symm.trans hlive

end Lists

end TradingLab
