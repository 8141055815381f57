import Mathlib
/-!
# Machine integers

A fixed-width integer is read as the integer it stands for, `val`. Checked
operations compute on those integers and give `none` when the result has no
word, so one lemma describes each of them for every width.
-/

namespace LabLib

/-- A fixed-width integer type, with the integers its words stand for. -/
class Machine (α : Type) where
  lo : Int
  hi : Int
  val : α → Int
  ofInt? : Int → Option α
  ofInt?_eq_some : ∀ {z : Int} {a : α}, ofInt? z = some a ↔ val a = z
  ofInt?_isSome : ∀ {z : Int}, (ofInt? z).isSome ↔ lo ≤ z ∧ z ≤ hi

export Machine (val ofInt?)

/-- The words of a type that represents exactly the integers from `lo` to `hi`. -/
@[reducible] def Machine.ofRange {α : Type} (lo hi : Int) (val : α → Int) (ofInt : Int → α)
    (bounds : ∀ a, lo ≤ val a ∧ val a ≤ hi) (val_ofInt : ∀ z, lo ≤ z → z ≤ hi → val (ofInt z) = z)
    (inj : ∀ a b, val a = val b → a = b) : Machine α where
  lo := lo
  hi := hi
  val := val
  -- The bound is on the left: with it on the right, `decide (z ≤ hi)` counts down from `hi` when it is unfolded.
  ofInt? z := if z < lo ∨ hi < z then none else some (ofInt z)
  ofInt?_eq_some := by
    intro z a
    constructor
    · intro h
      split at h
      · cases h
      · rename_i hz
        cases h
        exact val_ofInt z (by omega) (by omega)
    · rintro rfl
      obtain ⟨h1, h2⟩ := bounds a
      rw [if_neg (by omega), inj _ _ (val_ofInt _ h1 h2)]
  ofInt?_isSome := by
    intro z
    split
    · simp only [Option.isSome_none, Bool.false_eq_true, false_iff]; omega
    · simp only [Option.isSome_some, true_iff]; omega

section Ops
variable {α β : Type} [Machine α] [Machine β]

theorem val_inj {a b : α} : val a = val b ↔ a = b := by
  constructor
  · intro h
    have ha : ofInt? (val b) = some a := Machine.ofInt?_eq_some.2 h
    have hb : ofInt? (val b) = some b := Machine.ofInt?_eq_some.2 rfl
    rw [ha] at hb
    exact Option.some.inj hb
  · rintro rfl; rfl

theorem val_bounds (a : α) : Machine.lo α ≤ val a ∧ val a ≤ Machine.hi α := by
  apply Machine.ofInt?_isSome.1
  rw [Machine.ofInt?_eq_some.2 rfl]
  rfl

/-- An integer in range has a word. -/
theorem exists_word {z : Int} (h1 : Machine.lo α ≤ z) (h2 : z ≤ Machine.hi α) :
    ∃ a : α, ofInt? z = some a ∧ val a = z := by
  obtain ⟨a, ha⟩ := Option.isSome_iff_exists.1 (Machine.ofInt?_isSome.2 ⟨h1, h2⟩)
  exact ⟨a, ha, Machine.ofInt?_eq_some.1 ha⟩

def checked_add (a b : α) : Option α := ofInt? (val a + val b)
def checked_sub (a b : α) : Option α := ofInt? (val a - val b)

/-- Words without a sign: a difference that is not negative has a word. -/
theorem exists_checked_sub (h0 : Machine.lo α = 0) {a b : α} (h : val b ≤ val a) :
    ∃ c, checked_sub a b = some c ∧ val c = val a - val b := by
  have ha := (val_bounds a).2
  have hb := (val_bounds b).1
  exact exists_word (by omega) (by omega)

theorem exists_checked_add (h0 : Machine.lo α = 0) {a b : α} (h : val a + val b ≤ Machine.hi α) :
    ∃ c, checked_add a b = some c ∧ val c = val a + val b := by
  have ha := (val_bounds a).1
  have hb := (val_bounds b).1
  exact exists_word (by omega) h

/-- Conversion between widths, `none` when the value does not fit. -/
def try_from (a : α) : Option β := ofInt? (val a)

theorem checked_add_eq_some {a b c : α} : checked_add a b = some c ↔ val c = val a + val b :=
  Machine.ofInt?_eq_some

theorem checked_sub_eq_some {a b c : α} : checked_sub a b = some c ↔ val c = val a - val b :=
  Machine.ofInt?_eq_some

theorem try_from_eq_some {a : α} {b : β} : (try_from a : Option β) = some b ↔ val b = val a :=
  Machine.ofInt?_eq_some

theorem checked_add_isSome {a b : α} :
    (checked_add a b).isSome ↔ Machine.lo α ≤ val a + val b ∧ val a + val b ≤ Machine.hi α :=
  Machine.ofInt?_isSome
end Ops

/-! ## The widths -/

abbrev U128 := BitVec 128

instance : Machine UInt32 := Machine.ofRange 0 (2 ^ 32 - 1) (fun a => a.toNat) (fun z => .ofNat z.toNat)
  (fun a => by have := a.toNat_lt; omega)
  (fun z h1 h2 => by rw [UInt32.toNat_ofNat_of_lt' (by simp only [UInt32.size]; omega)]; omega)
  (fun a b h => by rw [UInt32.ext_iff]; omega)

instance : Machine UInt64 := Machine.ofRange 0 (2 ^ 64 - 1) (fun a => a.toNat) (fun z => .ofNat z.toNat)
  (fun a => by have := a.toNat_lt; omega)
  (fun z h1 h2 => by rw [UInt64.toNat_ofNat_of_lt' (by simp only [UInt64.size]; omega)]; omega)
  (fun a b h => by rw [UInt64.ext_iff]; omega)

instance : Machine U128 := Machine.ofRange 0 (2 ^ 128 - 1) (fun a => a.toNat) (fun z => .ofNat 128 z.toNat)
  (fun a => by have := a.isLt; omega)
  (fun z h1 h2 => by rw [BitVec.toNat_ofNat, Nat.mod_eq_of_lt (by omega)]; omega)
  (fun a b h => BitVec.eq_of_toNat_eq (by omega))

instance : Machine Int64 := Machine.ofRange (-2 ^ 63) (2 ^ 63 - 1) (fun a => a.toInt) (fun z => .ofInt z)
  (fun a => by have := a.toInt_lt; have := a.le_toInt; omega)
  (fun z h1 h2 => Int64.toInt_ofInt_of_le (by omega) (by omega))
  (fun a b h => Int64.toInt_inj.1 h)

theorem u32_val (a : UInt32) : val a = (a.toNat : Int) := rfl
theorem u64_val (a : UInt64) : val a = (a.toNat : Int) := rfl
theorem u128_val (a : U128) : val a = (a.toNat : Int) := rfl
theorem i64_val (a : Int64) : val a = a.toInt := rfl

@[simp] theorem u32_val_zero : val (0 : UInt32) = 0 := rfl
@[simp] theorem u32_val_one : val (1 : UInt32) = 1 := rfl
@[simp] theorem u64_val_zero : val (0 : UInt64) = 0 := rfl
@[simp] theorem u64_val_one : val (1 : UInt64) = 1 := rfl
@[simp] theorem u128_val_zero : val (0 : U128) = 0 := rfl
@[simp] theorem i64_val_zero : val (0 : Int64) = 0 := rfl

theorem u32_bounds (a : UInt32) : 0 ≤ val a ∧ val a ≤ 4294967295 := val_bounds a
theorem u64_bounds (a : UInt64) : 0 ≤ val a ∧ val a ≤ 18446744073709551615 := val_bounds a
theorem i64_bounds (a : Int64) : -9223372036854775808 ≤ val a ∧ val a ≤ 9223372036854775807 := val_bounds a

theorem u64_lt {a b : UInt64} : a < b ↔ val a < val b := by
  rw [UInt64.lt_iff_toNat_lt, u64_val, u64_val]; omega

theorem u64_le {a b : UInt64} : a ≤ b ↔ val a ≤ val b := by
  rw [UInt64.le_iff_toNat_le, u64_val, u64_val]; omega

theorem u128_lt {a b : U128} : a < b ↔ val a < val b := by
  rw [BitVec.lt_def, u128_val, u128_val]; omega

theorem i64_lt {a b : Int64} : a < b ↔ val a < val b := Int64.lt_iff_toInt_lt

theorem i64_le {a b : Int64} : a ≤ b ↔ val a ≤ val b := Int64.le_iff_toInt_le

/-! ## Plain arithmetic that does not wrap -/

theorem u32_add {a b : UInt32} (h : val a + val b ≤ 4294967295) : val (a + b) = val a + val b := by
  simp only [u32_val, UInt32.toNat_add] at *; omega

theorem u64_add {a b : UInt64} (h : val a + val b ≤ 18446744073709551615) : val (a + b) = val a + val b := by
  simp only [u64_val, UInt64.toNat_add] at *; omega

theorem u64_sub {a b : UInt64} (h : val b ≤ val a) : val (a - b) = val a - val b := by
  rw [u64_val, UInt64.toNat_sub_of_le _ _ (u64_le.2 h)]
  simp only [u64_val] at *; omega

theorem u64_min (a b : UInt64) : val (min a b) = min (val a) (val b) := by
  rw [show min a b = if a ≤ b then a else b from rfl]
  split
  · rename_i h; rw [u64_le] at h; omega
  · rename_i h; rw [u64_le] at h; omega

/-- Subtraction that stops at zero. -/
def saturating_sub32 (a b : UInt32) : UInt32 := .ofNat (a.toNat - b.toNat)

def saturating_sub64 (a b : UInt64) : UInt64 := .ofNat (a.toNat - b.toNat)

theorem saturating_sub32_val {a b : UInt32} (h : val b ≤ val a) :
    val (saturating_sub32 a b) = val a - val b := by
  have ha := a.toNat_lt
  simp only [u32_val, saturating_sub32] at *
  rw [UInt32.toNat_ofNat_of_lt' (by simp only [UInt32.size]; omega)]; omega

theorem toNat_saturating_sub64 (a b : UInt64) : (saturating_sub64 a b).toNat = a.toNat - b.toNat := by
  have ha := a.toNat_lt
  rw [saturating_sub64, UInt64.toNat_ofNat_of_lt' (by simp only [UInt64.size]; omega)]

theorem toNat_max64 (a b : UInt64) : (max a b).toNat = max a.toNat b.toNat := by
  rw [show max a b = if a ≤ b then b else a from rfl]
  split
  · rename_i h
    rw [UInt64.le_iff_toNat_le] at h
    omega
  · rename_i h
    rw [UInt64.le_iff_toNat_le] at h
    omega

/-- The magnitude of a signed word, in the unsigned type of the same width. -/
def unsigned_abs (a : Int64) : UInt64 := .ofNat a.toInt.natAbs

theorem unsigned_abs_val (a : Int64) : val (unsigned_abs a) = |val a| := by
  have h := i64_bounds a
  simp only [i64_val, unsigned_abs, u64_val] at *
  rw [UInt64.toNat_ofNat_of_lt' (by simp only [UInt64.size]; omega), Int.natCast_natAbs]

end LabLib
