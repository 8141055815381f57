import TradingLab.Lib.Ranked
import TradingLab.Market
/-!
# Ladders of the market view

A side of the market view is a tree map of which only the best levels are kept. Read
best price first it is a list of ranked rows: `trim` takes the first of them, and
`set_bounded` places a row and takes the first.
-/
open LabLib

namespace TradingLab

/-- The price is better for the side. -/
def Side.Ahead (side : Side) (p q : PriceTicks) : Prop :=
  match side with
  | .Buy => q < p
  | .Sell => p < q

instance (side : Side) : DecidableRel side.Ahead := fun p q =>
  match side with
  | .Buy => inferInstanceAs (Decidable (q < p))
  | .Sell => inferInstanceAs (Decidable (p < q))

instance (side : Side) : IsStrictTotalOrder PriceTicks side.Ahead where
  trichotomous p q hpq hqp := by
    cases side <;> simp only [Side.Ahead, i64_lt] at hpq hqp <;> exact val_inj.1 (by omega)
  irrefl p h := by
    cases side <;> simp only [Side.Ahead, i64_lt] at h <;> omega
  trans p q r hpq hqr := by
    cases side <;> simp only [Side.Ahead, i64_lt] at hpq hqr ⊢ <;> omega

/-- The levels of a side, the best price first. -/
def ladder (side : Side) (levels : BTreeMap PriceTicks UInt64) : List (PriceTicks × UInt64) :=
  match side with
  | .Buy => levels.toList.reverse
  | .Sell => levels.toList

theorem compare_lt_iff {p q : PriceTicks} : compare p q = .lt ↔ p < q := Std.compare_eq_lt

theorem ladder_listing (side : Side) : Listing side.Ahead (ladder side) where
  ranked levels := by
    have hsorted := toList_sorted levels
    simp only [compare_lt_iff] at hsorted
    cases side with
    | Buy => exact List.pairwise_reverse.2 hsorted
    | Sell => exact hsorted
  mem levels p q := by
    cases side with
    | Buy => exact List.mem_reverse.trans mem_toList
    | Sell => exact mem_toList

section Ladders
variable {side : Side} {levels : BTreeMap PriceTicks UInt64} {p : PriceTicks} {q : UInt64} {n : Nat}

theorem mem_ladder : (p, q) ∈ ladder side levels ↔ levels[p]? = some q := (ladder_listing side).mem levels p q

theorem ladder_ranked (side : Side) (levels : BTreeMap PriceTicks UInt64) : Ranked side.Ahead (ladder side levels) :=
  (ladder_listing side).ranked levels

@[simp] theorem length_ladder : (ladder side levels).length = levels.size := (ladder_listing side).length levels

@[simp] theorem ladder_empty (side : Side) : ladder side ∅ = [] := by
  rw [← List.length_eq_zero_iff, length_ladder, Std.ExtTreeMap.size_empty]

theorem ladder_insert (side : Side) (levels : BTreeMap PriceTicks UInt64) (p : PriceTicks) (q : UInt64) :
    ladder side (levels.insert p q) = place side.Ahead p q (ladder side levels) :=
  (ladder_listing side).insert levels p q

theorem ladder_erase (side : Side) (levels : BTreeMap PriceTicks UInt64) (p : PriceTicks) :
    ladder side (levels.erase p) = without Prod.fst p (ladder side levels) :=
  (ladder_listing side).erase levels p

/-- The level `trim` drops. -/
def worst? (side : Side) (levels : BTreeMap PriceTicks UInt64) : Option (PriceTicks × UInt64) :=
  match side with
  | .Buy => levels.first?
  | .Sell => levels.last?

theorem worst?_eq (side : Side) (levels : BTreeMap PriceTicks UInt64) :
    worst? side levels = (ladder side levels).getLast? := by
  cases side with
  | Buy => exact (List.getLast?_reverse).symm
  | Sell => rfl

theorem trim_by_succ (side : Side) (excess : Nat) (levels : BTreeMap PriceTicks UInt64) :
    MarketView.trim_by side (excess + 1) levels = match worst? side levels with
      | none => levels
      | some worst => MarketView.trim_by side excess (levels.erase worst.1) := by
  cases side <;> rfl

theorem ladder_trim_by (side : Side) (excess : Nat) (levels : BTreeMap PriceTicks UInt64) :
    ladder side (MarketView.trim_by side excess levels) =
      (ladder side levels).take ((ladder side levels).length - excess) := by
  induction excess generalizing levels with
  | zero => exact List.take_length.symm
  | succ excess ih =>
    rw [trim_by_succ, worst?_eq]
    cases hlast : (ladder side levels).getLast? with
    | none =>
      rw [List.getLast?_eq_none_iff.1 hlast, List.take_nil]
    | some worst =>
      obtain ⟨rest, hrest⟩ := List.getLast?_eq_some_iff.1 hlast
      have hkeys := (ladder_ranked side levels).keys_nodup
      have herase : ladder side (levels.erase worst.1) = rest := by
        rw [hrest] at hkeys
        rw [ladder_erase, hrest, without_split hkeys, List.append_nil]
      rw [ih, herase, hrest, List.length_append, List.length_singleton, List.take_append_of_le_length (by omega)]
      congr 1
      omega

/-- `trim` keeps the best levels. -/
theorem ladder_trim (side : Side) (levels : BTreeMap PriceTicks UInt64) (n : Nat) :
    ladder side (MarketView.trim side levels n) = (ladder side levels).take n := by
  rw [MarketView.trim, ladder_trim_by, length_ladder]
  rcases Nat.le_total n levels.size with hle | hge
  · rw [Nat.sub_sub_self hle]
  · rw [Nat.sub_eq_zero_of_le hge, Nat.sub_zero, List.take_of_length_le length_ladder.le,
      List.take_of_length_le (length_ladder.le.trans hge)]

theorem improves_eq (side : Side) (p : PriceTicks) (levels : BTreeMap PriceTicks UInt64) :
    MarketView.improves side p levels = (worst? side levels).any fun worst => side.Ahead p worst.1 := by
  cases side <;> rfl

/-- A price that does not improve a ladder without it is behind all of it. -/
theorem ahead_of_not_improves (hp : levels[p]? = none) (h : MarketView.improves side p levels = false) :
    ∀ row ∈ ladder side levels, side.Ahead row.1 p := by
  intro row hrow
  rw [improves_eq, worst?_eq] at h
  cases hlast : (ladder side levels).getLast? with
  | none =>
    rw [List.getLast?_eq_none_iff.1 hlast] at hrow
    cases hrow
  | some worst =>
    rw [hlast, Option.any_some, decide_eq_false_iff_not] at h
    have hne : ∀ other ∈ ladder side levels, other.1 ≠ p := by
      intro other hother he
      have hget : levels[other.1]? = some other.2 := mem_ladder.1 hother
      rw [he, hp] at hget
      cases hget
    obtain ⟨rest, hrest⟩ := List.getLast?_eq_some_iff.1 hlast
    have hranked := ladder_ranked side levels
    rw [hrest] at hranked hrow hne
    have hworst : side.Ahead worst.1 p := by
      rcases trichotomous_of side.Ahead worst.1 p with hlt | he | hgt
      · exact hlt
      · exact absurd he (hne worst (by simp))
      · exact absurd hgt h
    rcases List.mem_append.1 hrow with hrow | hrow
    · exact trans_of side.Ahead ((List.pairwise_append.1 hranked).2.2 row hrow worst (List.mem_singleton_self _)) hworst
    · rw [List.mem_singleton.1 hrow]
      exact hworst

/-- `set_bounded` sets the level and keeps the best. -/
theorem ladder_set_bounded (side : Side) (p : PriceTicks) (q : UInt64) (h : levels.size ≤ n) :
    ladder side (MarketView.set_bounded levels side p q n) = (place side.Ahead p q (ladder side levels)).take n := by
  rw [MarketView.set_bounded]
  split
  · rename_i hsome
    obtain ⟨old, hold⟩ := Option.isSome_iff_exists.1 hsome
    have hsize := size_insert_of_get? q hold
    rw [← ladder_insert, List.take_of_length_le (by rw [length_ladder]; omega)]
  · rename_i hnone
    rw [Bool.not_eq_true, Option.isSome_eq_false_iff, Option.isNone_iff_eq_none] at hnone
    split
    · rename_i hfull
      have hsize : n = (ladder side levels).length := by rw [length_ladder]; omega
      have hlast := ahead_of_not_improves hnone (Bool.eq_false_iff.2 hfull.2)
      rw [place_last hlast, hsize, List.take_left']
      rfl
    · rw [ladder_trim, ladder_insert]

theorem size_set_bounded (side : Side) (p : PriceTicks) (q : UInt64) (h : levels.size ≤ n) :
    (MarketView.set_bounded levels side p q n).size ≤ n := by
  rw [← (ladder_listing side).length, ladder_set_bounded side p q h]
  exact List.length_take_le n _

theorem size_trim (side : Side) (levels : BTreeMap PriceTicks UInt64) (n : Nat) :
    (MarketView.trim side levels n).size ≤ n := by
  rw [← (ladder_listing side).length, ladder_trim]
  exact List.length_take_le n _

/-- What `set_bounded` holds was held, or is the level it sets. -/
theorem mem_set_bounded (h : levels.size ≤ n) {row : PriceTicks × UInt64}
    (hrow : row ∈ ladder side (MarketView.set_bounded levels side p q n)) : row = (p, q) ∨ row ∈ ladder side levels := by
  rw [ladder_set_bounded side p q h] at hrow
  rcases (mem_place (ladder_ranked side levels)).1 (List.mem_of_mem_take hrow) with rfl | ⟨hrow, -⟩
  · exact .inl rfl
  · exact .inr hrow

end Ladders

end TradingLab
