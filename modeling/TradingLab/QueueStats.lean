import TradingLab.Lib.Machine
import TradingLab.Lib.Channel
import TradingLab.Lib.System
/-!
# The counters of a queue

`queue.rs`: `send` counts a value once it is in the ring, and `try_recv` once it took one
out. At every 64th push the sender samples the depth, as the difference of the two
counters. The two ends take their steps in any order. An addition that overflows stops
its thread.
-/
open LabLib

namespace TradingLab

structure QueueStats where
  pushed : UInt64
  popped : UInt64
  full_events : UInt64
  high_water : UInt64
deriving DecidableEq

/-- Where a call of `send` stands. -/
inductive SendPc (α : Type) where
  | idle
  | look (value : α) (at_ring : SendAt) (counted_full : Bool)
  /-- The value is in the ring. -/
  | count
  | sample (pushed : UInt64)
  | panicked
deriving DecidableEq

/-- Where a call of `try_recv` stands. -/
inductive RecvPc where
  | idle
  /-- A value is out of the ring. -/
  | count
deriving DecidableEq

structure Queue (α : Type) where
  ring : Channel α
  stats : QueueStats
  sender : SendPc α
  receiver : RecvPc

inductive QueueMove (α : Type) where
  /-- A call of `send` begins. -/
  | send (value : α)
  | sender
  | receiver
  | drop_sender
  | drop_receiver

namespace Queue
variable {α : Type}

def bounded (capacity : Nat) : Queue α where
  ring := .bounded capacity
  stats := ⟨0, 0, 0, 0⟩
  sender := .idle
  receiver := .idle

/-- The next step of `send`. -/
def send_step (q : Queue α) : Option (Queue α) :=
  match q.sender with
  | .idle | .panicked => none
  | .look value at_ring counted_full =>
    match q.ring.send value at_ring with
    | (ring, .done true) => some { q with ring := ring, sender := .count }
    | (ring, .done false) => some { q with ring := ring, sender := .idle }
    | (ring, .cont .check) => some { q with ring := ring, sender := .look value .check counted_full }
    | (ring, .cont .push) =>
      let full_events := if counted_full then q.stats.full_events else q.stats.full_events + 1
      some { q with
        ring := ring
        stats := { q.stats with full_events := full_events }
        sender := .look value .push true }
  | .count =>
    -- `fetch_add` wraps and gives the old value; the addition behind it does not wrap.
    let old := q.stats.pushed
    let q := { q with stats := { q.stats with pushed := old + 1 } }
    match checked_add old 1 with
    | none => some { q with sender := .panicked }
    | some pushed => some { q with sender := if pushed % 64 = 0 then .sample pushed else .idle }
  | .sample pushed =>
    let depth := saturating_sub64 pushed q.stats.popped
    some { q with stats := { q.stats with high_water := max q.stats.high_water depth }, sender := .idle }

/-- The next step of `try_recv`. -/
def recv_step (q : Queue α) : Option (Queue α) :=
  match q.receiver with
  | .idle =>
    if q.ring.receiver then
      match q.ring.try_recv with
      | (ring, some _) => some { q with ring := ring, receiver := .count }
      | (ring, none) => some { q with ring := ring }
    else none
  | .count => some { q with stats := { q.stats with popped := q.stats.popped + 1 }, receiver := .idle }

def step (q : Queue α) : QueueMove α → Option (Queue α)
  | .send value =>
    match q.sender with
    | .idle => if q.ring.sender then some { q with sender := .look value .push false } else none
    | _ => none
  | .sender => q.send_step
  | .receiver => q.recv_step
  | .drop_sender =>
    match q.sender with
    | .idle => some { q with ring := { q.ring with sender := false } }
    | _ => none
  | .drop_receiver =>
    match q.receiver with
    | .idle => some { q with ring := { q.ring with receiver := false } }
    | _ => none

end Queue

/-! ## What a step does -/

section Steps
variable {α : Type} {q q' : Queue α} {move : QueueMove α}

/-- Nothing of the call is in the ring yet. -/
def SendPc.outside : SendPc α → Bool
  | .idle | .look _ _ _ => true
  | _ => false

/-- What a step does to the ring and the counters. -/
inductive Queue.Stepped (q : Queue α) : QueueMove α → Queue α → Prop where
  /-- The ring and the counters of values stay. -/
  | around {move : QueueMove α} {there there' : Bool} {full_events : UInt64} {sender : SendPc α} :
      (move = .sender → q.sender.outside = true) →
      sender = q.sender ∨ (q.sender.outside = true ∧ sender.outside = true) →
      Stepped q move { q with
        ring := { q.ring with sender := there, receiver := there' }
        stats := { q.stats with full_events := full_events }
        sender := sender }
  | push {value : α} : q.sender.outside = true → q.ring.items.length < q.ring.capacity →
      Stepped q .sender { q with ring := { q.ring with items := q.ring.items ++ [value] }, sender := .count }
  | count {pushed : UInt64} : q.sender = .count → checked_add q.stats.pushed 1 = some pushed →
      Stepped q .sender { q with
        stats := { q.stats with pushed := q.stats.pushed + 1 }
        sender := if pushed % 64 = 0 then .sample pushed else .idle }
  | overflow : q.sender = .count → checked_add q.stats.pushed 1 = none →
      Stepped q .sender { q with stats := { q.stats with pushed := q.stats.pushed + 1 }, sender := .panicked }
  | sample {pushed : UInt64} : q.sender = .sample pushed →
      Stepped q .sender { q with
        stats := { q.stats with high_water := max q.stats.high_water (saturating_sub64 pushed q.stats.popped) }
        sender := .idle }
  | pop {value : α} {items : List α} : q.receiver = .idle → q.ring.items = value :: items →
      Stepped q .receiver { q with ring := { q.ring with items := items }, receiver := .count }
  | popped : q.receiver = .count →
      Stepped q .receiver { q with stats := { q.stats with popped := q.stats.popped + 1 }, receiver := .idle }

theorem Queue.send_step_stepped (h : q.send_step = some q') : q.Stepped .sender q' := by
  rw [send_step] at h
  split at h
  · cases h
  · cases h
  · rename_i value at_ring counted_full hpc
    have hout : q.sender.outside = true := by rw [hpc]; rfl
    cases at_ring with
    | push =>
      by_cases hroom : q.ring.items.length < q.ring.capacity
      · have hsend : q.ring.send value .push = ({ q.ring with items := q.ring.items ++ [value] }, .done true) := if_pos hroom
        rw [hsend] at h
        cases h
        exact .push hout hroom
      · have hsend : q.ring.send value .push = (q.ring, .cont .check) := if_neg hroom
        rw [hsend] at h
        cases h
        exact .around (fun _ => hout) (.inr ⟨hout, rfl⟩)
    | check =>
      cases hthere : q.ring.receiver with
      | true =>
        have hsend : q.ring.send value .check = (q.ring, .cont .push) := by rw [Channel.send, hthere]; rfl
        rw [hsend] at h
        cases h
        exact .around (fun _ => hout) (.inr ⟨hout, rfl⟩)
      | false =>
        have hsend : q.ring.send value .check = (q.ring, .done false) := by rw [Channel.send, hthere]; rfl
        rw [hsend] at h
        cases h
        exact .around (fun _ => hout) (.inr ⟨hout, rfl⟩)
  · rename_i hpc
    dsimp only at h
    split at h
    · rename_i hnone
      cases h
      exact .overflow hpc hnone
    · rename_i pushed hsome
      cases h
      exact .count hpc hsome
  · rename_i pushed hpc
    cases h
    exact .sample hpc

theorem Queue.recv_step_stepped (h : q.recv_step = some q') : q.Stepped .receiver q' := by
  rw [recv_step] at h
  split at h
  · rename_i hpc
    split at h
    · cases hitems : q.ring.items with
      | nil =>
        have hrecv : q.ring.try_recv = (q.ring, none) := by rw [Channel.try_recv, hitems]
        rw [hrecv] at h
        cases h
        exact .around (by simp) (.inl rfl)
      | cons value items =>
        have hrecv : q.ring.try_recv = ({ q.ring with items := items }, some value) := by rw [Channel.try_recv, hitems]
        rw [hrecv] at h
        cases h
        exact .pop hpc hitems
    · cases h
  · rename_i hpc
    cases h
    exact .popped hpc

theorem Queue.step_stepped (h : q.step move = some q') : q.Stepped move q' := by
  cases move with
  | send value =>
    rw [step] at h
    split at h
    · rename_i hpc
      split at h
      · cases h
        exact .around (by simp) (.inr ⟨by rw [hpc]; rfl, rfl⟩)
      · cases h
    · cases h
  | sender => exact send_step_stepped h
  | receiver => exact recv_step_stepped h
  | drop_sender =>
    rw [step] at h
    split at h
    · cases h
      exact .around (by simp) (.inl rfl)
    · cases h
  | drop_receiver =>
    rw [step] at h
    split at h
    · cases h
      exact .around (by simp) (.inl rfl)
    · cases h

end Steps

/-! ## The counters and the ring -/

section Counters
variable {α : Type} {q q' : Queue α} {move : QueueMove α} {pushes pops : Nat}

/-- A value that is in the ring and not counted. -/
def SendPc.uncounted : SendPc α → Nat
  | .count => 1
  | _ => 0

/-- A value that is out of the ring and not counted. -/
def RecvPc.uncounted : RecvPc → Nat
  | .count => 1
  | .idle => 0

theorem SendPc.uncounted_of_outside {pc : SendPc α} (h : pc.outside = true) : pc.uncounted = 0 := by
  cases pc <;> first | rfl | cases h

/-- The values that went into the ring and were counted, those that came out of it and were counted, and the ring. -/
structure Queue.Counts (q : Queue α) (pushes pops : Nat) : Prop where
  room : q.ring.items.length ≤ q.ring.capacity
  pushed : q.stats.pushed.toNat = pushes % 2 ^ 64
  popped : q.stats.popped.toNat = pops % 2 ^ 64
  values : pushes + q.sender.uncounted = pops + q.receiver.uncounted + q.ring.items.length
  fits : q.sender ≠ .panicked → pushes < 2 ^ 64
  sampled : ∀ pushed, q.sender = .sample pushed → pushed = q.stats.pushed

theorem Queue.Counts.step (h : q.Counts pushes pops) (hstep : q.Stepped move q') : ∃ pushes pops, q'.Counts pushes pops := by
  have hvalues := h.values
  cases hstep with
  | around _ hpc =>
    refine ⟨pushes, pops, h.room, h.pushed, h.popped, ?_, ?_, ?_⟩
    · obtain rfl | ⟨hold, hnew⟩ := hpc
      · exact hvalues
      · rw [SendPc.uncounted_of_outside hold] at hvalues
        rw [SendPc.uncounted_of_outside hnew]
        exact hvalues
    · obtain rfl | ⟨hold, -⟩ := hpc
      · exact h.fits
      · refine fun _ => h.fits fun hpanicked => ?_
        rw [hpanicked] at hold
        cases hold
    · obtain rfl | ⟨-, hnew⟩ := hpc
      · exact h.sampled
      · intro pushed hpc
        dsimp only at hpc
        rw [hpc] at hnew
        cases hnew
  | push hout hroom =>
    refine ⟨pushes, pops, ?_, h.pushed, h.popped, ?_, fun _ => h.fits fun hpanicked => ?_, fun _ hpc => by cases hpc⟩
    · simpa using hroom
    · rw [SendPc.uncounted_of_outside hout] at hvalues
      simp only [SendPc.uncounted, List.length_append, List.length_singleton]
      omega
    · rw [hpanicked] at hout
      cases hout
  | count hpc hadd =>
    rename_i pushed
    have hfits := h.fits (by rw [hpc]; simp)
    have hpushed := h.pushed
    rw [checked_add_eq_some, u64_val, u64_val, u64_val_one] at hadd
    have hbound := pushed.toNat_lt
    refine ⟨pushes + 1, pops, h.room, ?_, h.popped, ?_, fun _ => ?_, ?_⟩
    · rw [UInt64.toNat_add, hpushed, UInt64.toNat_one]
      omega
    · rw [hpc] at hvalues
      dsimp only
      split
      · simp only [SendPc.uncounted] at hvalues ⊢
        omega
      · simp only [SendPc.uncounted] at hvalues ⊢
        omega
    · omega
    · intro sampled hsample
      dsimp only at hsample ⊢
      split at hsample
      · cases hsample
        rw [← UInt64.toNat_inj, UInt64.toNat_add, UInt64.toNat_one]
        omega
      · cases hsample
  | overflow hpc hadd =>
    refine ⟨pushes + 1, pops, h.room, ?_, h.popped, ?_, fun hne => absurd rfl hne, fun _ hsample => by cases hsample⟩
    · rw [UInt64.toNat_add, h.pushed, UInt64.toNat_one]
      omega
    · rw [hpc] at hvalues
      simp only [SendPc.uncounted] at hvalues ⊢
      omega
  | sample hpc =>
    refine ⟨pushes, pops, h.room, h.pushed, h.popped, ?_, fun _ => h.fits (by rw [hpc]; simp), fun _ hsample => by cases hsample⟩
    rw [hpc] at hvalues
    exact hvalues
  | pop hpc hitems =>
    rw [hpc, hitems] at hvalues
    refine ⟨pushes, pops, ?_, h.pushed, h.popped, ?_, h.fits, h.sampled⟩
    · have hroom := h.room
      rw [hitems, List.length_cons] at hroom
      exact Nat.le_of_succ_le hroom
    · simp only [RecvPc.uncounted, List.length_cons] at hvalues ⊢
      omega
  | popped hpc =>
    rw [hpc] at hvalues
    refine ⟨pushes, pops + 1, h.room, h.pushed, ?_, ?_, h.fits, h.sampled⟩
    · rw [UInt64.toNat_add, h.popped, UInt64.toNat_one]
      omega
    · simp only [RecvPc.uncounted] at hvalues ⊢
      omega

/-- A step that samples the depth. -/
def Queue.samples (q : Queue α) : QueueMove α → Bool
  | .sender =>
    match q.sender with
    | .sample _ => true
    | _ => false
  | _ => false

theorem Queue.not_samples_of_outside (h : q.sender.outside = true) : ¬q.samples .sender = true := by
  intro hsamples
  rw [samples] at hsamples
  split at hsamples
  · rename_i hpc
    rw [hpc] at h
    cases h
  · cases hsamples

/-- The sender samples a full ring after a value came out that is not counted. -/
def Queue.oversamples (q : Queue α) (move : QueueMove α) : Bool :=
  q.samples move && decide (q.ring.items.length = q.ring.capacity ∧ q.receiver = .count)

/-- A sample is what is in the ring, and what just came out of it. -/
theorem Queue.Counts.high_water (h : q.Counts pushes pops) (hstep : q.Stepped move q') :
    q'.stats.high_water.toNat =
      if q.samples move = true then max q.stats.high_water.toNat (q.receiver.uncounted + q.ring.items.length)
      else q.stats.high_water.toNat := by
  cases hstep with
  | around hout =>
    cases move with
    | sender => rw [if_neg (not_samples_of_outside (hout rfl))]
    | _ => rfl
  | push hout _ => rw [if_neg (not_samples_of_outside hout)]
  | count hpc _ | overflow hpc _ =>
    have hnot : ¬q.samples .sender = true := by simp [Queue.samples, hpc]
    rw [if_neg hnot]
  | sample hpc =>
    have hvalues := h.values
    have hpushed := h.pushed
    have hpopped := h.popped
    have hfits := h.fits (by rw [hpc]; simp)
    rw [h.sampled _ hpc, if_pos (by rw [Queue.samples, hpc]), toNat_max64, toNat_saturating_sub64]
    rw [hpc] at hvalues
    simp only [SendPc.uncounted] at hvalues
    -- Fewer values came out than went in, so neither counter has wrapped.
    have hdepth : q.stats.pushed.toNat - q.stats.popped.toNat = q.receiver.uncounted + q.ring.items.length := by omega
    rw [hdepth]
  | pop _ _ | popped _ => rfl

end Counters

/-! ## The high water mark -/

section HighWater
variable {α : Type} {q q' : Queue α} {size : Nat} {move : QueueMove α} {moves : List (QueueMove α)}

theorem Queue.Stepped.capacity (h : q.Stepped move q') :
    q'.ring.capacity = q.ring.capacity := by
  cases h <;> rfl

theorem RecvPc.uncounted_le (pc : RecvPc) : pc.uncounted ≤ 1 := by
  cases pc <;> decide

/-- What a run leaves. -/
structure Queue.Marked (q : Queue α) (size : Nat) (moves : List (QueueMove α)) : Prop where
  run : walk Queue.step (fun _ _ => True) (.bounded size) moves = some q
  counts : ∃ pushes pops, q.Counts pushes pops
  capacity : q.ring.capacity = size
  bound : q.stats.high_water.toNat ≤ size + 1
  within : q.stats.high_water.toNat ≤ size ↔
    walk Queue.step (fun q move => q.oversamples move = false) (.bounded size) moves = some q

theorem Queue.Marked.snoc (h : q.Marked size moves) (hstep : q.step move = some q') :
    q'.Marked size (moves ++ [move]) := by
  have hstepped := step_stepped hstep
  obtain ⟨pushes, pops, hcounts⟩ := h.counts
  have hmark := hcounts.high_water hstepped
  have hroom := hcounts.room
  have hone := q.receiver.uncounted_le
  have hbound := h.bound
  rw [h.capacity] at hroom
  refine ⟨walk_snoc.2 ⟨q, h.run, trivial, hstep⟩, hcounts.step hstepped, hstepped.capacity.trans h.capacity, ?_, ?_⟩
  · rw [hmark]
    split
    · omega
    · exact hbound
  · rw [walk_snoc, hmark]
    constructor
    · intro hle
      refine ⟨q, h.within.1 ?_, ?_, hstep⟩
      · split at hle <;> omega
      · rw [oversamples, Bool.and_eq_false_iff, decide_eq_false_iff_not, or_iff_not_imp_left, Bool.not_eq_false]
        rintro hsamples ⟨hfull, hpc⟩
        rw [if_pos hsamples, hfull, hpc, h.capacity, RecvPc.uncounted] at hle
        omega
    · rintro ⟨q₁, hwalk, hok, -⟩
      obtain rfl : q = q₁ := Option.some.inj (h.run.symm.trans (walk_weaken (fun _ _ _ => trivial) hwalk))
      have hle := h.within.2 hwalk
      split
      · rename_i hsamples
        rw [oversamples, hsamples, Bool.true_and, decide_eq_false_iff_not, h.capacity] at hok
        have hdepth : q.receiver.uncounted + q.ring.items.length ≤ size := by
          cases hpc : q.receiver with
          | idle =>
            rw [RecvPc.uncounted]
            omega
          | count =>
            have hfull : q.ring.items.length ≠ size := fun hfull => hok ⟨hfull, hpc⟩
            rw [RecvPc.uncounted]
            omega
        exact max_le hle hdepth
      · exact hle

theorem Queue.marked_of_walk (h : walk Queue.step (fun _ _ => True) (.bounded size) moves = some q) : q.Marked size moves := by
  induction moves using List.reverseRecOn generalizing q with
  | nil =>
    cases h
    refine ⟨rfl, ⟨0, 0, Nat.zero_le _, rfl, rfl, rfl, fun _ => by decide, fun _ hpc => by cases hpc⟩, rfl, Nat.zero_le _, ?_⟩
    exact ⟨fun _ => rfl, fun _ => Nat.zero_le _⟩
  | append_singleton moves move ih =>
    obtain ⟨q₁, hwalk, -, hstep⟩ := walk_snoc.1 h
    exact (ih hwalk).snoc hstep

/-- The mark stays within the capacity exactly in the runs in which the sender never samples a full ring while the
receiver is between taking a value out and counting it. It is never more than one above. -/
theorem high_water_within_capacity_iff (capacity : Nat) (moves : List (QueueMove α))
    (hrun : walk Queue.step (fun _ _ => True) (.bounded capacity) moves = some q) :
    (q.stats.high_water.toNat ≤ capacity ↔
      walk Queue.step (fun q move => q.oversamples move = false) (.bounded capacity) moves = some q) ∧
    q.stats.high_water.toNat ≤ capacity + 1 :=
  ⟨(Queue.marked_of_walk hrun).within, (Queue.marked_of_walk hrun).bound⟩

/-- A value goes in and is counted. -/
def sendsOne : List (QueueMove Unit) := [.send (), .sender, .sender]

/-- A value comes out and is counted. -/
def receivesOne : List (QueueMove Unit) := [.receiver, .receiver]

/-- With 64 places the 64th value fills the ring, and the mark is what the ring holds. -/
theorem high_water_within_capacity_small :
    ∃ q : Queue Unit, walk Queue.step (fun _ _ => True) (.bounded 64) ((List.replicate 64 sendsOne).flatten ++ [.sender]) = some q ∧
      q.stats.high_water = 64 ∧ q.stats.high_water.toNat ≤ 64 := by
  have hwalk : ∃ q ∈ walk Queue.step (fun q move => q.oversamples move = false) (.bounded 64)
      ((List.replicate 64 sendsOne).flatten ++ [.sender]), q.stats.high_water = 64 := by
    decide +kernel
  obtain ⟨q, hq, hmark⟩ := hwalk
  have hrun : walk Queue.step (fun _ _ => True) (.bounded 64) ((List.replicate 64 sendsOne).flatten ++ [.sender]) = some q :=
    walk_weaken (fun _ _ _ => trivial) hq
  exact ⟨q, hrun, hmark, (high_water_within_capacity_iff 64 _ hrun).1.2 hq⟩

/-- Eight places: 55 values went through, eight more fill the ring, one comes out and is not counted yet, and the next
one is the 64th. The sample is nine. -/
theorem high_water_exceeds_capacity :
    ∃ q ∈ walk Queue.step (fun _ _ => True) (Queue.bounded 8)
        ((List.replicate 55 (sendsOne ++ receivesOne)).flatten ++ (List.replicate 8 sendsOne).flatten ++ [.receiver] ++ sendsOne ++ [.sender]),
      q.stats.high_water = 9 := by
  decide +kernel

end HighWater

end TradingLab
