import Mathlib
/-!
# Cut streams

A stream is made of the encodings of some items, one after the other. A cut leaves the
encodings before it, and a part of the one it falls into.
-/

namespace LabLib

section Streams
variable {α β : Type} (f : α → List β)

/-- Where the first `k` items end. -/
def boundary (l : List α) (k : Nat) : Nat := ((l.take k).flatMap f).length

/-- A part of an encoding, neither empty nor all of it. -/
def Torn (l : List α) (part : List β) : Prop :=
  ∃ a ∈ l, ∃ n, 0 < n ∧ n < (f a).length ∧ part = (f a).take n

/-- A cut at `c` leaves the first `k` items, all that end before it, and `part` of the
next. -/
structure CutAt (l : List α) (c k : Nat) (part : List β) : Prop where
  le : k ≤ l.length
  stream : (l.flatMap f).take c = (l.take k).flatMap f ++ part
  position : c = boundary f l k + part.length
  last : ∀ j ≤ l.length, boundary f l j ≤ c → j ≤ k
  torn : part = [] ∨ Torn f l part

variable {f}

theorem boundary_cons (a : α) (l : List α) (k : Nat) :
    boundary f (a :: l) (k + 1) = (f a).length + boundary f l k := by
  rw [boundary, List.take_succ_cons, List.flatMap_cons, List.length_append, boundary]

theorem boundary_add (l : List α) (j k : Nat) : boundary f l (j + k) = boundary f l j + boundary f (l.drop j) k := by
  rw [boundary, List.take_add, List.flatMap_append, List.length_append]
  rfl

theorem drop_boundary (l : List α) (k : Nat) : (l.flatMap f).drop (boundary f l k) = (l.drop k).flatMap f := by
  have hsplit : l.flatMap f = (l.take k).flatMap f ++ (l.drop k).flatMap f := by
    rw [← List.flatMap_append, List.take_append_drop]
  rw [hsplit]
  exact List.drop_left' rfl

theorem boundary_length (l : List α) : boundary f l l.length = (l.flatMap f).length := by
  rw [boundary, List.take_length]

theorem Torn.ne_nil {l : List α} {part : List β} (h : Torn f l part) : part ≠ [] := by
  obtain ⟨a, -, n, hpos, hlt, rfl⟩ := h
  refine List.ne_nil_of_length_pos ?_
  rw [List.length_take]
  omega

/-- The item a cut falls before or into is not among those left. -/
theorem CutAt.of_part (a : α) (l : List α) {c : Nat} (hc : c < (f a).length) :
    CutAt f (a :: l) c 0 ((f a).take c) where
  le := Nat.zero_le _
  stream := by
    rw [List.flatMap_cons, List.take_append_of_le_length hc.le]
    rfl
  position := by
    rw [List.length_take, Nat.min_eq_left hc.le]
    exact (Nat.zero_add c).symm
  last j _ hj := by
    cases j with
    | zero => exact le_rfl
    | succ j =>
      rw [boundary_cons] at hj
      omega
  torn := by
    rcases Nat.eq_zero_or_pos c with rfl | hpos
    · exact .inl rfl
    · exact .inr ⟨a, List.mem_cons_self, c, hpos, hc, rfl⟩

theorem CutAt.cons (a : α) {l : List α} {c k : Nat} {part : List β} (h : CutAt f l c k part) :
    CutAt f (a :: l) ((f a).length + c) (k + 1) part where
  le := Nat.succ_le_succ h.le
  stream := by
    rw [List.flatMap_cons, List.take_length_add_append, h.stream, List.take_succ_cons, List.flatMap_cons,
      List.append_assoc]
  position := by
    rw [boundary_cons, Nat.add_assoc, ← h.position]
  last j hj hboundary := by
    cases j with
    | zero => exact Nat.zero_le _
    | succ j =>
      rw [boundary_cons] at hboundary
      exact Nat.succ_le_succ (h.last j (Nat.le_of_succ_le_succ hj) (by omega))
  torn := h.torn.imp_right fun ⟨b, hb, hpart⟩ => ⟨b, List.mem_cons_of_mem _ hb, hpart⟩

theorem exists_cutAt (l : List α) {c : Nat} (hc : c ≤ (l.flatMap f).length) : ∃ k part, CutAt f l c k part := by
  induction l generalizing c with
  | nil =>
    obtain rfl : c = 0 := Nat.le_zero.1 hc
    exact ⟨0, [], le_rfl, rfl, rfl, fun j hj _ => hj, .inl rfl⟩
  | cons a l ih =>
    by_cases hlt : c < (f a).length
    · exact ⟨0, _, .of_part a l hlt⟩
    · rw [List.flatMap_cons, List.length_append] at hc
      obtain ⟨k, part, h⟩ := ih (c := c - (f a).length) (by omega)
      have hcut := h.cons a
      rw [Nat.add_sub_cancel' (by omega)] at hcut
      exact ⟨k + 1, part, hcut⟩

/-- The cut is at the end of an item when it leaves no part of one. -/
theorem CutAt.part_eq_nil {l : List α} {c k : Nat} {part : List β} (h : CutAt f l c k part) :
    part = [] ↔ c = boundary f l k := by
  rw [h.position, ← List.length_eq_zero_iff]
  omega

theorem boundary_mono (l : List α) {j k : Nat} (h : j ≤ k) : boundary f l j ≤ boundary f l k := by
  have hprefix : l.take j <+: l.take k := List.take_prefix_take_left h
  obtain ⟨rest, hrest⟩ := hprefix
  rw [boundary, boundary, ← hrest, List.flatMap_append, List.length_append]
  exact Nat.le_add_right _ _

/-- A part is left unless the cut is at the end of some item. -/
theorem CutAt.part_ne_nil {l : List α} {c k : Nat} {part : List β} (h : CutAt f l c k part) :
    part ≠ [] ↔ ∀ j ≤ l.length, c ≠ boundary f l j := by
  constructor
  · rintro hne j hj rfl
    have hle := boundary_mono (f := f) l (h.last j hj le_rfl)
    have hposition := h.position
    exact hne (List.length_eq_zero_iff.1 (by omega))
  · intro hall hnil
    exact hall k h.le (h.part_eq_nil.1 hnil)

end Streams

end LabLib
