import Mathlib
/-!
# Lists with keys

A list whose entries have distinct keys is a map that remembers an order.
`without` takes the entry of a key out and `amend` changes it in place; sums
over the entries follow the change.
-/

namespace LabLib

section Keyed
variable {α κ : Type} [DecidableEq κ] (key : α → κ)

/-- The list without the entries of a key. -/
def without (k : κ) (l : List α) : List α := l.filter fun a => key a ≠ k

/-- The list with `f` applied to the entries of a key. -/
def amend (k : κ) (f : α → α) (l : List α) : List α := l.map fun a => if key a = k then f a else a

variable {key}
variable {l : List α} {f : α → α} {a : α} {k : κ}

theorem mem_without : a ∈ without key k l ↔ a ∈ l ∧ key a ≠ k := by
  simp [without]

theorem mem_amend {b : α} :
    b ∈ amend key k f l ↔ (b ∈ l ∧ key b ≠ k) ∨ ∃ a ∈ l, key a = k ∧ f a = b := by
  simp only [amend, List.mem_map]
  constructor
  · rintro ⟨a, ha, rfl⟩
    by_cases h : key a = k
    · exact .inr ⟨a, ha, h, by rw [if_pos h]⟩
    · rw [if_neg h]; exact .inl ⟨ha, h⟩
  · rintro (⟨ha, h⟩ | ⟨a, ha, h, rfl⟩)
    · exact ⟨b, ha, if_neg h⟩
    · exact ⟨a, ha, if_pos h⟩

theorem without_of_notMem (h : k ∉ l.map key) : without key k l = l := by
  refine List.filter_eq_self.2 fun a ha => ?_
  simp only [ne_eq, decide_not, Bool.not_eq_eq_eq_not, Bool.not_true, decide_eq_false_iff_not]
  rintro rfl
  exact h (List.mem_map_of_mem ha)

theorem amend_of_notMem (h : k ∉ l.map key) : amend key k f l = l := by
  refine (List.map_congr_left fun a ha => ?_).trans (List.map_id l)
  rw [if_neg, id]
  rintro rfl
  exact h (List.mem_map_of_mem ha)

theorem without_split {pre post : List α} (hn : ((pre ++ a :: post).map key).Nodup) :
    without key (key a) (pre ++ a :: post) = pre ++ post := by
  simp only [List.map_append, List.map_cons, List.nodup_append, List.nodup_cons] at hn
  have h1 : key a ∉ pre.map key := fun h => hn.2.2 _ h _ List.mem_cons_self rfl
  have h2 := without_of_notMem h1
  have h3 := without_of_notMem hn.2.1.1
  simp only [without] at h2 h3 ⊢
  rw [List.filter_append, h2, List.filter_cons_of_neg (by simp), h3]

theorem amend_split {pre post : List α} (hn : ((pre ++ a :: post).map key).Nodup) :
    amend key (key a) f (pre ++ a :: post) = pre ++ f a :: post := by
  simp only [List.map_append, List.map_cons, List.nodup_append, List.nodup_cons] at hn
  have h1 : key a ∉ pre.map key := fun h => hn.2.2 _ h _ List.mem_cons_self rfl
  have h2 := amend_of_notMem (f := f) h1
  have h3 := amend_of_notMem (f := f) hn.2.1.1
  simp only [amend] at h2 h3 ⊢
  simp [h2, h3]

theorem without_sublist (k : κ) (l : List α) : (without key k l).Sublist l := List.filter_sublist

theorem map_amend {β : Type} (g : α → β) (h : ∀ a ∈ l, key a = k → g (f a) = g a) :
    (amend key k f l).map g = l.map g := by
  rw [amend, List.map_map]
  refine List.map_congr_left fun a ha => ?_
  simp only [Function.comp]
  split
  · exact h a ha ‹_›
  · rfl

/-- A change in place is gone with the entry. -/
theorem without_amend (hf : ∀ a, key (f a) = key a) (l : List α) :
    without key k (amend key k f l) = without key k l := by
  induction l with
  | nil => rfl
  | cons a l ih =>
    simp only [without, amend] at ih ⊢
    rw [List.map_cons]
    by_cases ha : key a = k
    · rw [if_pos ha, List.filter_cons_of_neg (by simp [hf, ha]), List.filter_cons_of_neg (by simp [ha]), ih]
    · rw [if_neg ha, List.filter_cons_of_pos (by simp [ha]), List.filter_cons_of_pos (by simp [ha]), ih]

theorem length_amend (k : κ) (f : α → α) (l : List α) : (amend key k f l).length = l.length := List.length_map _

/-- With distinct keys an entry is found by its key. -/
theorem find?_key (hn : (l.map key).Nodup) (ha : a ∈ l) :
    l.find? (fun b => key b = key a) = some a := by
  cases h : l.find? (fun b => key b = key a) with
  | none => exact absurd (decide_eq_true rfl) (List.find?_eq_none.1 h a ha)
  | some b =>
    have hb : key b = key a := by simpa using List.find?_some h
    rw [List.inj_on_of_nodup_map hn (List.mem_of_find?_eq_some h) ha hb]

theorem find?_amend (hf : ∀ a, key (f a) = key a) (k k' : κ) (l : List α) :
    (amend key k f l).find? (fun a => key a = k') =
      if k' = k then (l.find? fun a => key a = k').map f else l.find? fun a => key a = k' := by
  induction l with
  | nil => simp [amend]
  | cons a l ih =>
    have hhead : key (if key a = k then f a else a) = key a := by split <;> simp [hf]
    simp only [amend, List.map_cons, List.find?_cons, hhead] at ih ⊢
    by_cases ha : key a = k'
    · simp only [ha, decide_true]
      split <;> rfl
    · simp only [ha, decide_false]
      exact ih

theorem find?_without (k k' : κ) (l : List α) :
    (without key k l).find? (fun a => key a = k') = if k' = k then none else l.find? fun a => key a = k' := by
  rw [without, List.find?_filter]
  split
  · subst k'
    simp
  · rename_i hne
    congr 1
    funext a
    by_cases ha : key a = k'
    · simp [ha, hne]
    · simp [ha]

theorem length_without (hn : (l.map key).Nodup) (ha : a ∈ l) :
    (without key (key a) l).length + 1 = l.length := by
  obtain ⟨pre, post, rfl⟩ := List.append_of_mem ha
  rw [without_split hn]
  simp only [List.length_append, List.length_cons]; omega

theorem sum_without (hn : (l.map key).Nodup) (ha : a ∈ l) (g : α → Int) :
    ((without key (key a) l).map g).sum = (l.map g).sum - g a := by
  obtain ⟨pre, post, rfl⟩ := List.append_of_mem ha
  rw [without_split hn]
  simp only [List.map_append, List.map_cons, List.sum_append, List.sum_cons]; omega

theorem sum_amend (hn : (l.map key).Nodup) (ha : a ∈ l) (f : α → α) (g : α → Int) :
    ((amend key (key a) f l).map g).sum = (l.map g).sum - g a + g (f a) := by
  obtain ⟨pre, post, rfl⟩ := List.append_of_mem ha
  rw [amend_split hn]
  simp only [List.map_append, List.map_cons, List.sum_append, List.sum_cons]; omega

omit [DecidableEq κ] in
theorem sum_nonneg_of {g : α → Int} (h : ∀ a ∈ l, 0 ≤ g a) : 0 ≤ (l.map g).sum :=
  List.sum_nonneg (List.forall_mem_map.2 h)

omit [DecidableEq κ] in
/-- One entry is at most the sum, when none is negative. -/
theorem le_sum_of_mem {g : α → Int} (h : ∀ a ∈ l, 0 ≤ g a) (ha : a ∈ l) :
    g a ≤ (l.map g).sum :=
  List.single_le_sum (List.forall_mem_map.2 h) _ (List.mem_map_of_mem ha)
end Keyed

end LabLib
