import Mathlib
/-!
# Rows in the order of their keys

Rows with distinct keys have one order. A query that takes the first rows of this
order, and one that takes the rows between the first and the last key of the answer,
select the same.
-/

namespace LabLib

section Sorting
variable {α κ : Type} [LE κ] [DecidableLE κ] (key : α → κ)

/-- `ORDER BY`. -/
def orderBy (rows : List α) : List α := rows.insertionSort fun a b => key a ≤ key b

variable {key} {rows rest : List α} {first a : α}

theorem orderBy_perm (rows : List α) : (orderBy key rows).Perm rows := List.perm_insertionSort _ _

@[simp] theorem mem_orderBy : a ∈ orderBy key rows ↔ a ∈ rows := (orderBy_perm rows).mem_iff

/-- A change that leaves the keys leaves the order. -/
theorem orderBy_map {f : α → α} (hf : ∀ a, key (f a) = key a) :
    orderBy key (rows.map f) = (orderBy key rows).map f := by
  refine (List.map_insertionSort _ _ f rows fun a _ b _ => ?_).symm
  rw [hf, hf]

variable [Std.IsLinearOrder κ]

theorem orderBy_pairwise (rows : List α) : (orderBy key rows).Pairwise fun a b => key a ≤ key b :=
  have : Std.Total fun a b : α => key a ≤ key b := ⟨fun _ _ => Std.le_total⟩
  have : IsTrans α fun a b => key a ≤ key b := ⟨fun _ _ _ => Std.le_trans⟩
  List.pairwise_insertionSort _ rows

/-- With distinct keys, rows that are in order are in the only order. -/
theorem orderBy_eq {sorted : List α} (hkeys : (rows.map key).Nodup) (hnodup : sorted.Nodup)
    (hsorted : sorted.Pairwise fun a b => key a ≤ key b) (hmem : ∀ a, a ∈ sorted ↔ a ∈ rows) :
    orderBy key rows = sorted := by
  have hperm : sorted.Perm rows := (List.perm_ext_iff_of_nodup hnodup (hkeys.of_map _)).2 hmem
  refine List.Perm.eq_of_pairwise ?_ (orderBy_pairwise rows) hsorted ((orderBy_perm rows).trans hperm.symm)
  intro a b ha hb hab hba
  rw [mem_orderBy] at ha
  exact List.inj_on_of_nodup_map hkeys ha ((hmem b).1 hb) (Std.le_antisymm hab hba)

/-- The order is stable: rows of one key keep theirs. -/
theorem filter_orderBy [DecidableEq κ] (rows : List α) (k : κ) :
    (orderBy key rows).filter (key · = k) = rows.filter (key · = k) := by
  have : Std.Total fun a b : α => key a ≤ key b := ⟨fun _ _ => Std.le_total⟩
  have : IsTrans α fun a b => key a ≤ key b := ⟨fun _ _ _ => Std.le_trans⟩
  have hsame : (rows.filter (key · = k)).Pairwise fun a b => key a ≤ key b := by
    refine List.pairwise_iff_forall_sublist.2 fun {a b} hab => ?_
    have ha := (List.mem_filter.1 (hab.subset List.mem_cons_self)).2
    have hb := (List.mem_filter.1 (hab.subset (List.mem_cons_of_mem _ List.mem_cons_self))).2
    rw [decide_eq_true_eq] at ha hb
    rw [ha, hb]
    exact Std.le_refl _
  have hsub : (rows.filter (key · = k)).Sublist (orderBy key rows) := List.sublist_insertionSort hsame List.filter_sublist
  have hfilter := hsub.filter (key · = k)
  rw [List.filter_filter, List.filter_congr (fun a _ => Bool.and_self _)] at hfilter
  exact (hfilter.eq_of_length ((orderBy_perm rows).filter _).length_eq.symm).symm

omit [DecidableLE κ] in
/-- Rows in order that have the rows of each key as they were are in the stable order. -/
theorem eq_of_filter_key [DecidableEq κ] {sorted : List α} (hs : sorted.Pairwise fun a b => key a ≤ key b)
    (hr : rows.Pairwise fun a b => key a ≤ key b) (hf : ∀ k, sorted.filter (key · = k) = rows.filter (key · = k)) :
    sorted = rows := by
  have hmem {sorted rows : List α} (hf : ∀ k, sorted.filter (key · = k) = rows.filter (key · = k)) (a : α) :
      a ∈ sorted ↔ a ∈ rows := by
    have h := congrArg (a ∈ ·) (hf (key a))
    simpa using h
  induction sorted generalizing rows with
  | nil => exact (List.eq_nil_iff_forall_not_mem.2 fun a ha => List.not_mem_nil ((hmem hf a).2 ha)).symm
  | cons a sorted ih =>
    have hmem := hmem hf
    cases rows with
    | nil => exact absurd ((hmem a).1 List.mem_cons_self) List.not_mem_nil
    | cons b rows =>
      obtain ⟨hab, hs'⟩ := List.pairwise_cons.1 hs
      obtain ⟨hba, hr'⟩ := List.pairwise_cons.1 hr
      have hkey : key a = key b := by
        refine Std.le_antisymm ?_ ?_
        · rcases List.mem_cons.1 ((hmem b).2 List.mem_cons_self) with rfl | hb
          · exact Std.le_refl _
          · exact hab b hb
        · rcases List.mem_cons.1 ((hmem a).1 List.mem_cons_self) with rfl | ha
          · exact Std.le_refl _
          · exact hba a ha
      have hhead := hf (key a)
      rw [List.filter_cons_of_pos (by simp), List.filter_cons_of_pos (by simp [hkey])] at hhead
      obtain ⟨rfl, -⟩ := List.cons.inj hhead
      have htail : ∀ k, sorted.filter (key · = k) = rows.filter (key · = k) := by
        intro k
        have hk := hf k
        rw [List.filter_cons, List.filter_cons] at hk
        split at hk
        · exact (List.cons.inj hk).2
        · exact hk
      exact congrArg (a :: ·) (ih hs' hr' htail)

omit [DecidableLE κ] in
theorem le_getLastD (h : (first :: rest).Pairwise fun a b => key a ≤ key b) (ha : a ∈ first :: rest) :
    key a ≤ key (rest.getLastD first) := by
  induction rest generalizing first with
  | nil =>
    rw [List.mem_singleton.1 ha]
    exact Std.le_refl _
  | cons b rest ih =>
    obtain ⟨hfirst, hrest⟩ := List.pairwise_cons.1 h
    rw [List.getLastD_cons]
    rcases List.mem_cons.1 ha with rfl | hmem
    · exact hfirst _ List.getLastD_mem_cons
    · exact ih hrest hmem

/-- The rows between the first and the last key of a first part of the order are that part. -/
theorem orderBy_between (hkeys : (rows.map key).Nodup) (hpart : first :: rest <+: orderBy key rows) :
    orderBy key (rows.filter fun a => key first ≤ key a ∧ key a ≤ key (rest.getLastD first)) = first :: rest := by
  obtain ⟨later, hlater⟩ := hpart
  have hsorted : (orderBy key rows).Pairwise fun a b => key a ≤ key b := orderBy_pairwise rows
  have hnodup : (orderBy key rows).Nodup := (orderBy_perm rows).nodup_iff.2 (hkeys.of_map _)
  rw [← hlater] at hsorted hnodup
  obtain ⟨hpart, -, hcross⟩ := List.pairwise_append.1 hsorted
  have hmem (a : α) : a ∈ rows ↔ a ∈ first :: rest ∨ a ∈ later := by
    rw [← List.mem_append, hlater, mem_orderBy]
  have hlast : rest.getLastD first ∈ first :: rest := List.getLastD_mem_cons
  refine orderBy_eq (hkeys.sublist (List.filter_sublist.map _)) (List.nodup_append.1 hnodup).1 hpart fun a => ?_
  rw [List.mem_filter, decide_eq_true_eq, hmem]
  constructor
  · intro ha
    refine ⟨.inl ha, ?_, le_getLastD hpart ha⟩
    rcases List.mem_cons.1 ha with rfl | hrest
    · exact Std.le_refl _
    · exact (List.pairwise_cons.1 hpart).1 a hrest
  · rintro ⟨ha | ha, -, hle⟩
    · exact ha
    · -- a later row has a later key, so this one is the last row itself
      have heq := Std.le_antisymm hle (hcross _ hlast a ha)
      rwa [List.inj_on_of_nodup_map hkeys ((hmem a).2 (.inr ha)) ((hmem _).2 (.inl hlast)) heq]

end Sorting

/-! ## Blocks -/

section Blocks
variable {α κ : Type} {size : Nat} {l block block' : List α}

/-- A list is cut into blocks of one size from its start on, and this is one of them. -/
def BlockOf (size : Nat) (l block : List α) : Prop :=
  ∃ before after, l = before ++ (block ++ after) ∧ size ∣ before.length ∧ block.length = size

theorem BlockOf.grow (h : BlockOf size l block) (more : List α) : BlockOf size (l ++ more) block := by
  obtain ⟨before, after, rfl, hblock⟩ := h
  exact ⟨before, after ++ more, by simp, hblock⟩

/-- Where the members of a block are in the list. -/
theorem BlockOf.place (h : BlockOf size l block) {a : α} (ha : a ∈ block) :
    ∃ j i, i < size ∧ l[size * j + i]? = some a ∧ block = (l.drop (size * j)).take size := by
  obtain ⟨before, after, rfl, ⟨j, hj⟩, rfl⟩ := h
  obtain ⟨i, hi, rfl⟩ := List.getElem_of_mem ha
  refine ⟨j, i, hi, ?_, ?_⟩
  · rw [← hj, List.getElem?_append_right (Nat.le_add_right _ _), Nat.add_sub_cancel_left, List.getElem?_append_left hi,
      List.getElem?_eq_getElem hi]
  · rw [← hj, List.drop_left, List.take_left]

/-- Two blocks with a common key are one. -/
theorem BlockOf.eq (h : BlockOf size l block) (h' : BlockOf size l block') {key : α → κ} (hkeys : (l.map key).Nodup)
    {a b : α} (ha : a ∈ block) (hb : b ∈ block') (hkey : key a = key b) : block = block' := by
  obtain ⟨j, i, hi, hat, hblock⟩ := h.place ha
  obtain ⟨j', i', hi', hat', hblock'⟩ := h'.place hb
  have hplace : size * j + i = size * j' + i' := by
    refine (List.getElem?_inj ?_ hkeys).1 ?_
    · rw [List.length_map]
      exact (List.getElem?_eq_some_iff.1 hat).1
    · rw [List.getElem?_map, List.getElem?_map, hat, hat', Option.map_some, Option.map_some, hkey]
  have hsame := congrArg (· / size) hplace
  simp only [Nat.mul_add_div (Nat.zero_lt_of_lt hi), Nat.div_eq_of_lt hi, Nat.div_eq_of_lt hi', Nat.add_zero] at hsame
  rw [hblock, hblock', hsame]

end Blocks

end LabLib
