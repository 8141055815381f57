import TradingLab.Lib.Maps
/-!
# Slabs

A slab stores values under keys it chooses itself and may give a removed key
out again. Which vacant key it chooses is the allocator's business: the key may
depend on every earlier call, and all that is known is that it is vacant.
-/

namespace LabLib

/-- A past call to a slab, with the key it returned or was given. -/
inductive SlabCall where
  | insert (key : Nat)
  | remove (key : Nat)

/-- The keys in use after a history of calls, newest call first. -/
def occupied : List SlabCall → List Nat
  | [] => []
  | .insert k :: h => k :: occupied h
  | .remove k :: h => (occupied h).filter (· ≠ k)

/-- A way of choosing the next key. -/
structure SlabAllocator where
  vacant_key : List SlabCall → Nat
  fresh : ∀ h, vacant_key h ∉ occupied h

structure Slab (α : Type) where
  allocator : SlabAllocator
  entries : HashMap Nat α
  history : List SlabCall
  tracked : ∀ k, k ∈ entries → k ∈ occupied history

namespace Slab
variable {α : Type}

def empty (allocator : SlabAllocator) : Slab α where
  allocator := allocator
  entries := ∅
  history := []
  tracked _ h := absurd h Finmap.notMem_empty

def get? (s : Slab α) (k : Nat) : Option α := s.entries.lookup k

def len (s : Slab α) : Nat := s.entries.keys.card

/-- The key the next insertion returns. -/
def vacant (s : Slab α) : Nat := s.allocator.vacant_key s.history

def insert (s : Slab α) (a : α) : Nat × Slab α :=
  (s.vacant, { s with
    entries := s.entries.insert s.vacant a
    history := .insert s.vacant :: s.history
    tracked := by
      intro k hk
      rcases Finmap.mem_insert.1 hk with rfl | hk
      · exact List.mem_cons_self
      · exact List.mem_cons_of_mem _ (s.tracked k hk) })

/-- Write through an index, when the key is in use. -/
def modify (s : Slab α) (k : Nat) (f : α → α) : Option (Slab α) :=
  match h : s.entries.lookup k with
  | none => none
  | some a => some { s with
      entries := s.entries.insert k (f a)
      tracked := by
        intro k' hk
        rcases Finmap.mem_insert.1 hk with rfl | hk
        · exact s.tracked k' (Finmap.mem_of_lookup_eq_some h)
        · exact s.tracked k' hk }

def remove (s : Slab α) (k : Nat) : Option (α × Slab α) :=
  match s.entries.lookup k with
  | none => none
  | some a => some (a, { s with
      entries := s.entries.erase k
      history := .remove k :: s.history
      tracked := by
        intro k' hk
        obtain ⟨hne, hk⟩ := Finmap.mem_erase.1 hk
        exact List.mem_filter.2 ⟨s.tracked k' hk, by simpa using hne⟩ })

/-! ## What the operations do -/

theorem len_empty (al : SlabAllocator) : (empty al : Slab α).len = 0 := rfl

theorem get?_vacant (s : Slab α) : s.get? s.vacant = none := by
  rw [get?, Finmap.lookup_eq_none]
  intro h
  exact s.allocator.fresh _ (s.tracked _ h)

theorem get?_insert (s : Slab α) (a : α) (k : Nat) :
    (s.insert a).2.get? k = if k = s.vacant then some a else s.get? k := by
  simp only [insert, get?]
  split
  · rename_i h; rw [h, Finmap.lookup_insert]
  · rename_i h; rw [Finmap.lookup_insert_of_ne _ h]

theorem len_insert (s : Slab α) (a : α) : (s.insert a).2.len = s.len + 1 := by
  have hk : (s.entries.insert s.vacant a).keys = Insert.insert s.vacant s.entries.keys := by
    ext k; simp only [Finmap.mem_keys, Finmap.mem_insert, Finset.mem_insert]
  have hn : s.vacant ∉ s.entries.keys := by
    rw [Finmap.mem_keys, ← Finmap.lookup_eq_none]; exact s.get?_vacant
  simp only [len, insert, hk, Finset.card_insert_of_notMem hn]

theorem modify_of_get? {s : Slab α} {k : Nat} {a : α} (f : α → α) (h : s.get? k = some a) :
    ∃ s', s.modify k f = some s' ∧ s'.len = s.len ∧
      ∀ k', s'.get? k' = if k' = k then some (f a) else s.get? k' := by
  unfold modify
  split
  · rename_i hn; rw [get?, hn] at h; cases h
  · rename_i b hb
    have hab : b = a := by rw [get?, hb] at h; exact Option.some.inj h
    subst hab
    refine ⟨_, rfl, ?_, fun k' => ?_⟩
    · have hk : (s.entries.insert k (f b)).keys = s.entries.keys := by
        ext k'
        simp only [Finmap.mem_keys, Finmap.mem_insert]
        constructor
        · rintro (rfl | hk)
          · exact Finmap.mem_of_lookup_eq_some hb
          · exact hk
        · exact .inr
      simp only [len, hk]
    · simp only [get?]
      split
      · rename_i h; rw [h, Finmap.lookup_insert]
      · rename_i h; rw [Finmap.lookup_insert_of_ne _ h]

theorem remove_of_get? {s : Slab α} {k : Nat} {a : α} (h : s.get? k = some a) :
    ∃ s', s.remove k = some (a, s') ∧ s'.len + 1 = s.len ∧
      ∀ k', s'.get? k' = if k' = k then none else s.get? k' := by
  have hm : k ∈ s.entries.keys := Finmap.mem_keys.2 (Finmap.mem_of_lookup_eq_some h)
  unfold remove
  rw [get?] at h
  split
  · rename_i hn; rw [hn] at h; cases h
  · rename_i b hb
    have hab : b = a := by rw [hb] at h; exact Option.some.inj h
    subst hab
    refine ⟨_, rfl, ?_, fun k' => ?_⟩
    · have hk : (s.entries.erase k).keys = s.entries.keys.erase k := by
        ext k'; simp only [Finmap.mem_keys, Finmap.mem_erase, Finset.mem_erase]
      simp only [len, hk]
      exact Finset.card_erase_add_one hm
    · simp only [get?]
      split
      · rename_i h; rw [h, Finmap.lookup_erase]
      · rename_i h; rw [Finmap.lookup_erase_ne h]
end Slab

/-! ## A free list -/

/-- Replay of a history: the stack of freed keys and the number of keys ever made. -/
def freeList : List SlabCall → List Nat × Nat
  | [] => ([], 0)
  | .insert _ :: h =>
    match freeList h with
    | ([], n) => ([], n + 1)
    | (_ :: free, n) => (free, n)
  | .remove k :: h => (k :: (freeList h).1, (freeList h).2)

/-- Reuse the key freed last, or make a new one. -/
def freeListKey (h : List SlabCall) : Nat := (freeList h).1.headD (freeList h).2

/-- The allocator with a last-in first-out free list. A history it did not
produce itself may have that key in use; it then takes one beyond all of them. -/
def freeListAllocator : SlabAllocator where
  vacant_key h := if freeListKey h ∈ occupied h then (occupied h).sum + 1 else freeListKey h
  fresh h := by
    split
    · intro hm
      have := List.single_le_sum (fun _ _ => Nat.zero_le _) _ hm
      omega
    · assumption

end LabLib
