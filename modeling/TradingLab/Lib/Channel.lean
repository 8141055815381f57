import TradingLab.Lib.Eval
/-!
# Bounded channels

A queue between a sender and a receiver, either of which may be dropped. A call looks
at the queue and at the other end one after the other, as often as it has to: a step
of it either goes on with the next look or is done. The receiver looks at the queue
once more after it saw that the sender is gone.
-/

namespace LabLib

structure Channel (α : Type) where
  capacity : Nat
  items : List α
  /-- The ends that are still there. -/
  sender : Bool
  receiver : Bool

/-- What a call of `send` does next. -/
inductive SendAt where
  | push
  | check
deriving DecidableEq

/-- What a call of `recv` does next. -/
inductive RecvAt where
  | pop
  | check
  | last
deriving DecidableEq

namespace Channel
variable {α : Type} {c c' : Channel α}

def bounded (capacity : Nat) : Channel α := ⟨capacity, [], true, true⟩

/-- Waits for space; the answer is `false` if nobody receives any more. -/
def send (c : Channel α) (a : α) : SendAt → Channel α × Flow SendAt Bool
  | .push =>
    if c.items.length < c.capacity then ({ c with items := c.items ++ [a] }, .done true)
    else (c, .cont .check)
  | .check => (c, if c.receiver then .cont .push else .done false)

def try_recv (c : Channel α) : Channel α × Option α :=
  match c.items with
  | [] => (c, none)
  | a :: items => ({ c with items := items }, some a)

/-- Waits for a value; there is none once the sender is gone and the queue is empty. -/
def recv (c : Channel α) : RecvAt → Channel α × Flow RecvAt (Option α)
  | .pop =>
    match c.try_recv with
    | (c, some a) => (c, .done (some a))
    | (c, none) => (c, .cont .check)
  | .check => (c, .cont (if c.sender then .pop else .last))
  | .last =>
    let (c, a) := c.try_recv
    (c, .done a)

/-- A step of `send` adds the value, or nothing. -/
theorem send_cases {a : α} {look : SendAt} {flow : Flow SendAt Bool} (h : c.send a look = (c', flow)) :
    (flow = .done true ∧ c' = { c with items := c.items ++ [a] }) ∨
      (c' = c ∧ (flow = .done false ∨ ∃ next, flow = .cont next)) := by
  cases look with
  | push =>
    rw [send] at h
    split at h
    · cases h
      exact .inl ⟨rfl, rfl⟩
    · cases h
      exact .inr ⟨rfl, .inr ⟨_, rfl⟩⟩
  | check =>
    cases h
    refine .inr ⟨rfl, ?_⟩
    split
    · exact .inr ⟨_, rfl⟩
    · exact .inl rfl

/-- What was received was the first in the queue. -/
theorem try_recv_some {a : α} (h : c.try_recv = (c', some a)) :
    c.items = a :: c'.items ∧ c' = { c with items := c'.items } := by
  rw [try_recv] at h
  split at h
  · cases h
  · rename_i hitems
    cases h
    exact ⟨hitems, rfl⟩

theorem try_recv_none (h : c.try_recv = (c', none)) : c.items = [] ∧ c' = c := by
  rw [try_recv] at h
  split at h
  · rename_i hitems
    cases h
    exact ⟨hitems, rfl⟩
  · cases h

/-- A step of `recv` that is done without a value was the last look, at an empty queue;
a last look comes only when the sender is gone. -/
inductive Recv (c : Channel α) (look : RecvAt) : Channel α → Flow RecvAt (Option α) → Prop where
  | value {a : α} {items : List α} : c.items = a :: items → Recv c look { c with items := items } (.done (some a))
  | closed : look = .last → c.items = [] → Recv c look c (.done none)
  | looks {next : RecvAt} : (next = .last → c.sender = false) → Recv c look c (.cont next)

theorem recv_cases {look : RecvAt} {flow : Flow RecvAt (Option α)} (h : c.recv look = (c', flow)) :
    Recv c look c' flow := by
  cases look with
  | pop =>
    rw [recv] at h
    split at h
    · rename_i next a hrecv
      cases h
      obtain ⟨hitems, hc⟩ := try_recv_some hrecv
      rw [hc]
      exact .value hitems
    · rename_i next hrecv
      cases h
      obtain ⟨-, rfl⟩ := try_recv_none hrecv
      exact .looks nofun
  | check =>
    cases h
    refine .looks fun hlast => ?_
    split at hlast
    · cases hlast
    · rename_i hsender
      exact Bool.eq_false_iff.2 hsender
  | last =>
    rw [recv] at h
    cases hrecv : c.try_recv with
    | mk next value =>
      rw [hrecv] at h
      cases h
      cases value with
      | some a =>
        obtain ⟨hitems, hc⟩ := try_recv_some hrecv
        rw [hc]
        exact .value hitems
      | none =>
        obtain ⟨hitems, rfl⟩ := try_recv_none hrecv
        exact .closed rfl hitems

theorem recv_capacity {look : RecvAt} {flow : Flow RecvAt (Option α)} (h : c.recv look = (c', flow)) :
    c'.capacity = c.capacity := by
  cases recv_cases h <;> rfl

/-! ## Waiting -/

/-- Two looks bring a call of `send` back to where it was, and nothing changed. -/
def SendWaits (c : Channel α) (a : α) (look : SendAt) : Prop :=
  ∃ next, c.send a look = (c, .cont next) ∧ c.send a next = (c, .cont look)

/-- The same of a call of `recv`. -/
def RecvWaits (c : Channel α) (look : RecvAt) : Prop :=
  ∃ next, c.recv look = (c, .cont next) ∧ c.recv next = (c, .cont look)

/-- A sender waits for space, and for a receiver who is still there. -/
theorem SendWaits.full {a : α} {look : SendAt} (h : c.SendWaits a look) :
    c.capacity ≤ c.items.length ∧ c.receiver = true := by
  obtain ⟨next, h₁, h₂⟩ := h
  cases look <;> cases next <;> grind [send]

/-- A receiver waits for a value, and for a sender who is still there. -/
theorem RecvWaits.empty {look : RecvAt} (h : c.RecvWaits look) : c.items = [] ∧ c.sender = true := by
  obtain ⟨next, h₁, h₂⟩ := h
  cases look <;> cases next <;> grind [recv, try_recv]

end Channel

end LabLib
