import TradingLab.Lib.Keyed
/-!
# Tallies

Amounts are added up under their keys, and the keys stand in the order in which they first
came. A table of other records, with keys of its own, is a tally as long as its keys tell
the same items apart.
-/

namespace LabLib

/-- The entry of a key is changed, or a new one is put at the end. -/
def amendOrAdd {α κ : Type} [DecidableEq κ] (key : α → κ) (k : κ) (change : α → α) (fresh : α) (l : List α) : List α :=
  if k ∈ l.map key then amend key k change l else l ++ [fresh]

section Tally
variable {κ : Type} [DecidableEq κ] {entries items : List (κ × Int)} {item : κ × Int}

def tallied (entries : List (κ × Int)) (item : κ × Int) : List (κ × Int) :=
  amendOrAdd Prod.fst item.1 (fun entry => (entry.1, entry.2 + item.2)) item entries

def tally (items : List (κ × Int)) : List (κ × Int) := items.foldl tallied []

/-- What the entries of some keys are together. -/
def totalOf (p : κ → Prop) [DecidablePred p] (entries : List (κ × Int)) : Int :=
  (entries.map fun entry => if p entry.1 then entry.2 else 0).sum

theorem keys_tallied : (tallied entries item).map Prod.fst =
    if item.1 ∈ entries.map Prod.fst then entries.map Prod.fst else entries.map Prod.fst ++ [item.1] := by
  rw [tallied, amendOrAdd]
  split
  · exact map_amend _ fun _ _ _ => rfl
  · rw [List.map_append, List.map_singleton]

theorem nodup_tallied (h : (entries.map Prod.fst).Nodup) : ((tallied entries item).map Prod.fst).Nodup := by
  rw [keys_tallied]
  split
  · exact h
  · rename_i hnew
    exact List.nodup_append.2 ⟨h, List.nodup_singleton _, fun a ha b hb hab => hnew (by rwa [← List.mem_singleton.1 hb, ← hab])⟩

theorem mem_keys_tallied {k : κ} : k ∈ (tallied entries item).map Prod.fst ↔ k ∈ entries.map Prod.fst ∨ k = item.1 := by
  rw [keys_tallied]
  split
  · rename_i hold
    exact ⟨.inl, fun h => h.elim id fun h => h ▸ hold⟩
  · rw [List.mem_append, List.mem_singleton]

theorem total_tallied (p : κ → Prop) [DecidablePred p] (h : (entries.map Prod.fst).Nodup) :
    totalOf p (tallied entries item) = totalOf p entries + if p item.1 then item.2 else 0 := by
  rw [tallied, amendOrAdd]
  split
  · rename_i hold
    obtain ⟨entry, hentry, hkey⟩ := List.mem_map.1 hold
    rw [totalOf, totalOf, ← hkey, sum_amend h hentry]
    split <;> omega
  · rw [totalOf, totalOf, List.map_append, List.sum_append, List.map_singleton, List.sum_singleton]

theorem nodup_tally (items : List (κ × Int)) : ((tally items).map Prod.fst).Nodup := by
  induction items using List.reverseRecOn with
  | nil => exact List.nodup_nil
  | append_singleton items item ih =>
    rw [tally, List.foldl_append]
    exact nodup_tallied ih

theorem mem_keys_tally {k : κ} : k ∈ (tally items).map Prod.fst ↔ k ∈ items.map Prod.fst := by
  induction items using List.reverseRecOn with
  | nil => exact Iff.rfl
  | append_singleton items item ih =>
    rw [tally, List.foldl_append, List.map_append, List.mem_append, ← ih]
    exact mem_keys_tallied.trans (or_congr_right List.mem_singleton.symm)

/-- The totals are those of the items. -/
theorem total_tally (p : κ → Prop) [DecidablePred p] (items : List (κ × Int)) : totalOf p (tally items) = totalOf p items := by
  induction items using List.reverseRecOn with
  | nil => rfl
  | append_singleton items item ih =>
    rw [tally, List.foldl_append]
    change totalOf p (tallied (tally items) item) = _
    rw [total_tallied p (nodup_tally items), ih, totalOf, totalOf, List.map_append, List.sum_append, List.map_singleton,
      List.sum_singleton]

/-- A table with another key for each entry goes along with the tally. -/
theorem amendOrAdd_map {α κ' : Type} [DecidableEq κ'] (key : α → κ') (change : α → α) (image : κ × Int → α) (f : κ → κ')
    (item : κ × Int) (hkey : ∀ entry, key (image entry) = f entry.1)
    (hchange : ∀ entry, change (image entry) = image (entry.1, entry.2 + item.2))
    (hf : ∀ entry ∈ entries, f entry.1 = f item.1 → entry.1 = item.1) :
    amendOrAdd key (f item.1) change (image item) (entries.map image) = (tallied entries item).map image := by
  have hkeys : f item.1 ∈ (entries.map image).map key ↔ item.1 ∈ entries.map Prod.fst := by
    simp only [List.map_map, List.mem_map, Function.comp, hkey]
    constructor
    · rintro ⟨entry, hentry, heq⟩
      exact ⟨entry, hentry, hf entry hentry heq⟩
    · rintro ⟨entry, hentry, heq⟩
      exact ⟨entry, hentry, by rw [heq]⟩
  rw [tallied, amendOrAdd, amendOrAdd]
  by_cases hold : item.1 ∈ entries.map Prod.fst
  · rw [if_pos hold, if_pos (hkeys.2 hold), amend, amend, List.map_map, List.map_map]
    refine List.map_congr_left fun entry hentry => ?_
    simp only [Function.comp, hkey]
    by_cases heq : entry.1 = item.1
    · rw [if_pos heq, if_pos (by rw [heq]), hchange]
    · rw [if_neg heq, if_neg fun h => heq (hf entry hentry h)]
  · rw [if_neg hold, if_neg fun h => hold (hkeys.1 h), List.map_append, List.map_singleton]

end Tally

end LabLib
