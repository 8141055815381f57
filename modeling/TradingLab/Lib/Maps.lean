import Mathlib
/-!
# Maps

`BTreeMap` is iterated in key order, so it is the extensional tree map of the
standard library. Nothing iterates a `HashMap`, so it is a finite map. A vector
is a map from positions.
-/

namespace LabLib

abbrev BTreeMap (K V : Type) [Ord K] := Std.ExtTreeMap K V compare

abbrev HashMap (K V : Type) := Finmap fun _ : K => V

section BTree
variable {K V W : Type} [Ord K] [Std.TransOrd K] [Std.LawfulEqOrd K]
variable {m : BTreeMap K V} {k : K} {v : V}

/-- The entry with the least key. -/
def BTreeMap.first? (m : BTreeMap K V) : Option (K × V) := m.toList.head?

/-- The entry with the greatest key. -/
def BTreeMap.last? (m : BTreeMap K V) : Option (K × V) := m.toList.getLast?

theorem get?_insert [DecidableEq K] (m : BTreeMap K V) (k k' : K) (v : V) :
    (m.insert k v)[k']? = if k = k' then some v else m[k']? := by
  rw [Std.ExtTreeMap.getElem?_insert]
  by_cases h : k = k'
  · simp [h]
  · rw [if_neg (by simpa using h), if_neg h]

theorem get?_erase [DecidableEq K] (m : BTreeMap K V) (k k' : K) :
    (m.erase k)[k']? = if k = k' then none else m[k']? := by
  rw [Std.ExtTreeMap.getElem?_erase]
  by_cases h : k = k'
  · simp [h]
  · rw [if_neg (by simpa using h), if_neg h]

theorem mem_toList : (k, v) ∈ m.toList ↔ m[k]? = some v :=
  Std.ExtTreeMap.mem_toList_iff_getElem?_eq_some

omit [Std.LawfulEqOrd K] in
/-- Keys come in increasing order, each once. -/
theorem toList_sorted (m : BTreeMap K V) : m.toList.Pairwise fun a b => compare a.1 b.1 = .lt :=
  Std.ExtTreeMap.ordered_keys_toList

theorem first?_eq_none : m.first? = none ↔ ∀ k : K, m[k]? = none := by
  rw [BTreeMap.first?, List.head?_eq_none_iff]
  constructor
  · intro h k
    cases hk : m[k]? with
    | none => rfl
    | some v => rw [← mem_toList, h] at hk; cases hk
  · intro h
    rw [List.eq_nil_iff_forall_not_mem]
    rintro ⟨k, v⟩ hkv
    rw [mem_toList, h k] at hkv; cases hkv

theorem last?_eq_none : m.last? = none ↔ ∀ k : K, m[k]? = none := by
  rw [BTreeMap.last?, List.getLast?_eq_none_iff, ← List.head?_eq_none_iff]
  exact first?_eq_none

theorem first?_eq_some (h : m.first? = some (k, v)) :
    m[k]? = some v ∧ ∀ k' v', m[k']? = some v' → k = k' ∨ compare k k' = .lt := by
  obtain ⟨tl, hl⟩ := List.head?_eq_some_iff.1 h
  have hs := toList_sorted m
  rw [hl, List.pairwise_cons] at hs
  refine ⟨mem_toList.1 (by rw [hl]; exact List.mem_cons_self), fun k' v' hk => ?_⟩
  rw [← mem_toList, hl] at hk
  rcases List.mem_cons.1 hk with he | hk
  · cases he; exact .inl rfl
  · exact .inr (hs.1 _ hk)

theorem last?_eq_some (h : m.last? = some (k, v)) :
    m[k]? = some v ∧ ∀ k' v', m[k']? = some v' → k = k' ∨ compare k' k = .lt := by
  obtain ⟨tl, hl⟩ := List.getLast?_eq_some_iff.1 h
  have hs := toList_sorted m
  rw [hl, List.pairwise_append] at hs
  refine ⟨mem_toList.1 (by rw [hl]; simp), fun k' v' hk => ?_⟩
  rw [← mem_toList, hl] at hk
  rcases List.mem_append.1 hk with hk | hk
  · exact .inr (hs.2.2 _ hk _ (List.mem_singleton_self _))
  · cases List.mem_singleton.1 hk; exact .inl rfl

omit [Std.LawfulEqOrd K] in
theorem contains_of_get? (h : m[k]? = some v) : m.contains k = true := by
  rw [Std.ExtTreeMap.contains_eq_isSome_getElem?, h]; rfl

omit [Std.LawfulEqOrd K] in
theorem size_insert_of_get? (v' : V) (h : m[k]? = some v) :
    (m.insert k v').size = m.size := by
  rw [Std.ExtTreeMap.size_insert, if_pos (contains_of_get? h)]

theorem size_erase_of_get? (h : m[k]? = some v) : (m.erase k).size + 1 = m.size := by
  have hpos : 0 < m.size := by
    rw [← Std.ExtTreeMap.length_toList]; exact List.length_pos_of_mem (mem_toList.2 h)
  rw [Std.ExtTreeMap.size_erase, if_pos (contains_of_get? h)]; omega

/-- Two maps whose entries agree after `f` and `g` list the same rows. -/
theorem map_toList_congr {U : Type} (m : BTreeMap K V) (m' : BTreeMap K W) (f : K → V → U) (g : K → W → U)
    (h : ∀ k, m[k]?.map (f k) = m'[k]?.map (g k)) :
    m.toList.map (fun e => (e.1, f e.1 e.2)) = m'.toList.map (fun e => (e.1, g e.1 e.2)) := by
  have hm : m.map f = m'.map g := by
    apply Std.ExtTreeMap.ext_getElem?
    intro k
    rw [Std.ExtTreeMap.getElem?_map, Std.ExtTreeMap.getElem?_map]
    exact h k
  have := congrArg Std.ExtTreeMap.toList hm
  rwa [Std.ExtTreeMap.toList_map, Std.ExtTreeMap.toList_map] at this
end BTree

section Hash
variable {K V : Type} [DecidableEq K]

theorem lookup_insert_eq (m : HashMap K V) (k k' : K) (v : V) :
    (m.insert k v).lookup k' = if k' = k then some v else m.lookup k' := by
  split
  · rename_i h; rw [h, Finmap.lookup_insert]
  · rename_i h; exact Finmap.lookup_insert_of_ne m h

theorem lookup_erase_eq (m : HashMap K V) (k k' : K) :
    (m.erase k).lookup k' = if k' = k then none else m.lookup k' := by
  split
  · rename_i h; rw [h, Finmap.lookup_erase]
  · rename_i h; exact Finmap.lookup_erase_ne h
end Hash

section Vectors
variable {α : Type} {n : Nat}

/-- An index of type `Fin n` is in range by its type. -/
instance finIndex : GetElem (Vector α n) (Fin n) α fun _ _ => True := ⟨fun xs i _ => xs.get i⟩

@[simp] theorem getElem_ofFn_fin (f : Fin n → α) (i : Fin n) : (Vector.ofFn f)[i] = f i :=
  Vector.getElem_ofFn i.isLt

@[simp] theorem getElem_replicate_fin (x : α) (i : Fin n) : (Vector.replicate n x)[i] = x :=
  Vector.getElem_replicate i.isLt

@[simp] theorem set_getElem_fin (xs : Vector α n) (i : Fin n) : xs.set i xs[i] i.isLt = xs :=
  Vector.set_getElem_self i.isLt

theorem getElem_set_fin (xs : Vector α n) (i j : Fin n) (x : α) :
    (xs.set i x i.isLt)[j] = if j = i then x else xs[j] := by
  have h : (xs.set i x i.isLt).get j = if i.val = j.val then x else xs.get j := Vector.getElem_set i.isLt j.isLt
  have hij : (i.val = j.val) = (j = i) := propext ⟨fun h => Fin.ext h.symm, fun h => congrArg Fin.val h.symm⟩
  exact Eq.trans h (ite_congr hij (fun _ => rfl) fun _ => rfl)

end Vectors

end LabLib
