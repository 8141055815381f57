import TradingLab.Lib.Keyed
import TradingLab.Lib.Maps
/-!
# Ranked rows

Rows with distinct keys, the best first. A tree map that is read from the end where
its best key is gives such a list, and what is done to the map is done to the list:
an insertion places a row, a removal takes one out, and to keep the best rows only is
to `take` them.
-/

namespace LabLib

section Rows
variable {K V : Type} (ahead : K → K → Prop)

/-- Every row is ahead of those that follow it. -/
def Ranked (rows : List (K × V)) : Prop := rows.Pairwise fun a b => ahead a.1 b.1

/-- The rows with one more, or with a new value under its key. -/
def place [DecidableRel ahead] (k : K) (v : V) : List (K × V) → List (K × V)
  | [] => [(k, v)]
  | row :: rows =>
    if ahead k row.1 then (k, v) :: row :: rows
    else if ahead row.1 k then row :: place k v rows
    else (k, v) :: rows

variable {ahead} {rows rows' : List (K × V)} {k : K} {v : V}

theorem ranked_nil : Ranked ahead ([] : List (K × V)) := List.Pairwise.nil

variable [IsStrictTotalOrder K ahead]

theorem Ranked.keys_nodup (h : Ranked ahead rows) : (rows.map Prod.fst).Nodup := by
  rw [List.Nodup, List.pairwise_map]
  exact List.Pairwise.imp (fun hab => ne_of_irrefl' (r := fun x y => ahead y x) hab) h

theorem Ranked.nodup (h : Ranked ahead rows) : rows.Nodup := h.keys_nodup.of_map

/-- Ranked rows are in the only order they can have. -/
theorem Ranked.ext (h : Ranked ahead rows) (h' : Ranked ahead rows') (hmem : ∀ row, row ∈ rows ↔ row ∈ rows') :
    rows = rows' := by
  have hperm : rows.Perm rows' := (List.perm_ext_iff_of_nodup h.nodup h'.nodup).2 hmem
  exact hperm.eq_of_pairwise (fun a b _ _ hab hba => absurd hba (asymm_of ahead hab)) h h'

/-! ## Placing a row -/

theorem eq_of_unranked {a b : K} (h : ¬ahead a b) (h' : ¬ahead b a) : b = a := by
  rcases trichotomous_of ahead a b with hlt | he | hgt
  · exact absurd hlt h
  · exact he.symm
  · exact absurd hgt h'

variable [DecidableRel ahead]

theorem mem_place (h : Ranked ahead rows) {row : K × V} :
    row ∈ place ahead k v rows ↔ row = (k, v) ∨ (row ∈ rows ∧ row.1 ≠ k) := by
  induction rows with
  | nil => simp [place]
  | cons first rows ih =>
    obtain ⟨hfirst, hrows⟩ := List.pairwise_cons.1 h
    rw [place]
    split
    · rename_i hk
      -- The new row comes first: the key is none of those that follow.
      have hne : ∀ row ∈ first :: rows, row.1 ≠ k := by
        intro row hrow
        rcases List.mem_cons.1 hrow with rfl | hrow
        · exact fun he => irrefl_of ahead k (he ▸ hk)
        · exact fun he => irrefl_of ahead k (he ▸ trans_of ahead hk (hfirst row hrow))
      rw [List.mem_cons]
      constructor
      · rintro (rfl | hrow)
        · exact .inl rfl
        · exact .inr ⟨hrow, hne row hrow⟩
      · rintro (rfl | ⟨hrow, -⟩)
        · exact .inl rfl
        · exact .inr hrow
    · split
      · rename_i hk
        have hne : first.1 ≠ k := fun he => irrefl_of ahead k (he ▸ hk)
        rw [List.mem_cons, ih hrows, List.mem_cons]
        constructor
        · rintro (rfl | rfl | ⟨hrow, hk⟩)
          · exact .inr ⟨.inl rfl, hne⟩
          · exact .inl rfl
          · exact .inr ⟨.inr hrow, hk⟩
        · rintro (rfl | ⟨rfl | hrow, hk⟩)
          · exact .inr (.inl rfl)
          · exact .inl rfl
          · exact .inr (.inr ⟨hrow, hk⟩)
      · rename_i h1 h2
        have he := eq_of_unranked h1 h2
        have hne : ∀ row ∈ rows, row.1 ≠ k := fun row hrow heq =>
          irrefl_of ahead k (by have := hfirst row hrow; rwa [he, heq] at this)
        rw [List.mem_cons, List.mem_cons]
        constructor
        · rintro (rfl | hrow)
          · exact .inl rfl
          · exact .inr ⟨.inr hrow, hne row hrow⟩
        · rintro (rfl | ⟨rfl | hrow, hk⟩)
          · exact .inl rfl
          · exact absurd he hk
          · exact .inr hrow

theorem Ranked.place (h : Ranked ahead rows) (k : K) (v : V) : Ranked ahead (place ahead k v rows) := by
  induction rows with
  | nil => exact List.pairwise_singleton _ _
  | cons first rows ih =>
    obtain ⟨hfirst, hrows⟩ := List.pairwise_cons.1 h
    rw [LabLib.place]
    split
    · rename_i hk
      refine List.pairwise_cons.2 ⟨fun row hrow => ?_, h⟩
      rcases List.mem_cons.1 hrow with rfl | hrow
      · exact hk
      · exact trans_of ahead hk (hfirst row hrow)
    · split
      · rename_i hk
        refine List.pairwise_cons.2 ⟨fun row hrow => ?_, ih hrows⟩
        rcases (mem_place hrows).1 hrow with rfl | ⟨hrow, -⟩
        · exact hk
        · exact hfirst row hrow
      · rename_i h1 h2
        have he := eq_of_unranked h1 h2
        exact List.pairwise_cons.2 ⟨fun row hrow => he ▸ hfirst row hrow, hrows⟩

omit [IsStrictTotalOrder K ahead] in
/-- The best rows after a placement come from the best rows before it. -/
theorem take_place (k : K) (v : V) (rows : List (K × V)) (n : Nat) :
    (place ahead k v (rows.take n)).take n = (place ahead k v rows).take n := by
  induction rows generalizing n with
  | nil => rw [List.take_nil]
  | cons first rows ih =>
    cases n with
    | zero => rfl
    | succ n =>
      rw [List.take_succ_cons, place, place]
      split
      · have htake : (first :: rows.take n).take n = (first :: rows).take n := by
          rw [← List.take_succ_cons, List.take_take, Nat.min_eq_left (Nat.le_succ n)]
        rw [List.take_succ_cons, List.take_succ_cons, htake]
      · split
        · rw [List.take_succ_cons, List.take_succ_cons, ih]
        · rw [List.take_succ_cons, List.take_succ_cons, List.take_take, Nat.min_self]

/-- A row behind all others goes to the end. -/
theorem place_last (h : ∀ row ∈ rows, ahead row.1 k) : place ahead k v rows = rows ++ [(k, v)] := by
  induction rows with
  | nil => rfl
  | cons first rows ih =>
    have hk := h first List.mem_cons_self
    rw [place, if_neg (asymm_of ahead hk), if_pos hk, ih fun row hrow => h row (List.mem_cons_of_mem _ hrow)]
    rfl

/-! ## The best row -/

variable {full : List (K × V)}

omit [DecidableRel ahead] in
theorem Ranked.mem_of_key (hfull : Ranked ahead full) (hsub : rows ⊆ full) {row : K × V} (hrow : row ∈ full)
    (hk : row.1 ∈ rows.map Prod.fst) : row ∈ rows := by
  obtain ⟨other, hother, hkey⟩ := List.mem_map.1 hk
  have heq : other = row := List.inj_on_of_nodup_map hfull.keys_nodup (hsub hother) hrow hkey
  exact heq ▸ hother

/-- Both lists start with the same key. -/
def SameBest (rows full : List (K × V)) : Prop := rows.head?.map Prod.fst = full.head?.map Prod.fst

omit [IsStrictTotalOrder K ahead] in
/-- A placed row comes first in both lists, or in none. -/
theorem SameBest.place (h : SameBest rows full) (k : K) (v : V) {n : Nat} (hn : 0 < n) :
    SameBest ((place ahead k v rows).take n) (place ahead k v full) := by
  obtain ⟨n, rfl⟩ := Nat.exists_eq_succ_of_ne_zero hn.ne'
  cases rows with
  | nil =>
    cases full with
    | nil => rfl
    | cons first full => cases h
  | cons best rows =>
    cases full with
    | nil => cases h
    | cons first full =>
      have hkey : best.1 = first.1 := Option.some.inj h
      rw [SameBest, LabLib.place, LabLib.place, hkey]
      split
      · rfl
      · split
        · exact congrArg some hkey
        · rfl

theorem head_without_of_ne [DecidableEq K] {best : K × V} (hne : best.1 ≠ k) :
    (without Prod.fst k (best :: rows)).head? = some best := by
  rw [without, List.filter_cons_of_pos (by simpa using hne)]
  rfl

omit [DecidableRel ahead] in
theorem Ranked.without_head [DecidableEq K] {best : K × V} (h : Ranked ahead (best :: rows)) :
    without Prod.fst best.1 (best :: rows) = rows :=
  without_split (show (([] ++ best :: rows).map Prod.fst).Nodup from h.keys_nodup)

omit [DecidableRel ahead] in
/-- Without one key, some of the rows of a list start as the list does, unless they lack the
row that comes first when the first one is taken out. -/
theorem SameBest.without_iff [DecidableEq K] (h : SameBest rows full) (hrows : Ranked ahead rows) (hfull : Ranked ahead full)
    (hsub : rows ⊆ full) (k : K) :
    SameBest (without Prod.fst k rows) (without Prod.fst k full) ↔
      (full.head?.map Prod.fst = some k → ∀ row, full[1]? = some row → row.1 ∈ rows.map Prod.fst) := by
  cases full with
  | nil =>
    cases List.subset_nil.1 hsub
    simp [without, SameBest]
  | cons first full =>
    cases rows with
    | nil => cases h
    | cons best rows =>
      have hkey : best.1 = first.1 := Option.some.inj h
      have hbest : best = first :=
        List.inj_on_of_nodup_map hfull.keys_nodup (hsub List.mem_cons_self) List.mem_cons_self hkey
      subst hbest
      by_cases hk : best.1 = k
      · subst hk
        rw [hrows.without_head, hfull.without_head]
        have htail : rows ⊆ full := by
          intro row hrow
          rcases List.mem_cons.1 (hsub (List.mem_cons_of_mem _ hrow)) with rfl | hrow'
          · exact absurd hrow (List.nodup_cons.1 hrows.nodup).1
          · exact hrow'
        cases full with
        | nil =>
          cases List.subset_nil.1 htail
          simp [SameBest]
        | cons next full =>
          have hfull' := (List.pairwise_cons.1 hfull).2
          have hrows' : Ranked ahead rows := (List.pairwise_cons.1 hrows).2
          constructor
          · intro hsame _ row hrow
            cases hrow
            cases rows with
            | nil => cases hsame
            | cons second rows =>
              have hsecond : second.1 = next.1 := Option.some.inj hsame
              rw [← hsecond]
              simp
          · intro hkeeps
            have hmem := hkeeps rfl next rfl
            have hnext : next ∈ rows := by
              have hin := hfull.mem_of_key hsub (List.mem_cons_of_mem _ List.mem_cons_self) hmem
              rcases List.mem_cons.1 hin with he | hin
              · exact absurd (he ▸ List.mem_cons_self) (List.nodup_cons.1 hfull.nodup).1
              · exact hin
            cases rows with
            | nil => cases hnext
            | cons second rows =>
              -- Nothing in the full list is ahead of `next`, so it is the first of these rows, too.
              rcases List.mem_cons.1 hnext with he | hlater
              · rw [he]
                rfl
              · have h1 : ahead second.1 next.1 := (List.pairwise_cons.1 hrows').1 next hlater
                rcases List.mem_cons.1 (htail List.mem_cons_self) with he | hin
                · rw [he]
                  rfl
                · exact absurd ((List.pairwise_cons.1 hfull').1 second hin) (asymm_of ahead h1)
      · rw [SameBest, head_without_of_ne hk, head_without_of_ne hk]
        simp [hk]

end Rows

/-! ## Tree maps -/

section BTree
variable {K V : Type} [Ord K] [Std.TransOrd K] [Std.LawfulEqOrd K] (ahead : K → K → Prop)

/-- A way to list the rows of tree maps by rank. -/
structure Listing (list : BTreeMap K V → List (K × V)) : Prop where
  ranked : ∀ m, Ranked ahead (list m)
  mem : ∀ m k v, (k, v) ∈ list m ↔ m[k]? = some v

variable {ahead} [IsStrictTotalOrder K ahead] {list : BTreeMap K V → List (K × V)} {m : BTreeMap K V}

namespace Listing

theorem perm (h : Listing ahead list) (m : BTreeMap K V) : (list m).Perm m.toList := by
  have hn : m.toList.Nodup := (toList_sorted m).imp fun hab he => by rw [he, Std.compare_self] at hab; cases hab
  refine (List.perm_ext_iff_of_nodup (h.ranked m).nodup hn).2 ?_
  rintro ⟨k, v⟩
  rw [h.mem, mem_toList]

theorem length (h : Listing ahead list) (m : BTreeMap K V) : (list m).length = m.size := by
  rw [(h.perm m).length_eq, Std.ExtTreeMap.length_toList]

variable [DecidableEq K]

theorem insert [DecidableRel ahead] (h : Listing ahead list) (m : BTreeMap K V) (k : K) (v : V) :
    list (m.insert k v) = place ahead k v (list m) := by
  refine (h.ranked _).ext ((h.ranked m).place k v) ?_
  rintro ⟨k', v'⟩
  rw [h.mem, get?_insert, mem_place (h.ranked m), h.mem, Prod.mk.injEq]
  by_cases hk : k = k'
  · simp [hk, eq_comm]
  · simp [hk, Ne.symm hk]

theorem erase (h : Listing ahead list) (m : BTreeMap K V) (k : K) : list (m.erase k) = without Prod.fst k (list m) := by
  refine (h.ranked _).ext (List.Pairwise.sublist (without_sublist _ _) (h.ranked m)) ?_
  rintro ⟨k', v'⟩
  rw [h.mem, get?_erase, mem_without, h.mem]
  by_cases hk : k = k'
  · simp [hk]
  · simp [hk, Ne.symm hk]

end Listing

end BTree

end LabLib
