import Mathlib
/-!
# Numbers as bytes

Numbers of a fixed width are written as their bytes, the lowest first. Such an
encoding can be told from whatever follows it, and so can every encoding that is put
together from ones that can: `Delimited` says so, and the lemmas below follow the
ways of putting them together.
-/

namespace LabLib

/-! ## Words -/

/-- The lowest bytes of a number. -/
def leBytes : Nat → Nat → List UInt8
  | 0, _ => []
  | width + 1, value => .ofNat value :: leBytes width (value / 256)

def ofLeBytes : List UInt8 → Nat
  | [] => 0
  | byte :: bytes => byte.toNat + 256 * ofLeBytes bytes

@[simp] theorem length_leBytes (width value : Nat) : (leBytes width value).length = width := by
  induction width generalizing value with
  | zero => rfl
  | succ width ih => rw [leBytes, List.length_cons, ih]

theorem ofLeBytes_leBytes {width value : Nat} (h : value < 256 ^ width) : ofLeBytes (leBytes width value) = value := by
  induction width generalizing value with
  | zero =>
    rw [leBytes, ofLeBytes]
    omega
  | succ width ih =>
    have hdiv : value / 256 < 256 ^ width := by
      rw [pow_succ] at h
      exact Nat.div_lt_of_lt_mul (by omega)
    rw [leBytes, ofLeBytes, ih hdiv, UInt8.toNat_ofNat']
    omega

theorem ofLeBytes_lt (bytes : List UInt8) : ofLeBytes bytes < 256 ^ bytes.length := by
  induction bytes with
  | nil => simp [ofLeBytes]
  | cons byte bytes ih =>
    have hbyte := byte.toNat_lt
    rw [ofLeBytes, List.length_cons, pow_succ]
    omega

theorem leBytes_ofLeBytes (bytes : List UInt8) : leBytes bytes.length (ofLeBytes bytes) = bytes := by
  induction bytes with
  | nil => rfl
  | cons byte bytes ih =>
    have hbyte := byte.toNat_lt
    have hlow : UInt8.ofNat (byte.toNat + 256 * ofLeBytes bytes) = byte := by
      rw [← UInt8.toNat_inj, UInt8.toNat_ofNat']
      omega
    have hhigh : (byte.toNat + 256 * ofLeBytes bytes) / 256 = ofLeBytes bytes := by omega
    rw [List.length_cons, leBytes, ofLeBytes, hlow, hhigh, ih]

/-- A type of numbers that fill some bytes. -/
class Word (α : Type) where
  width : Nat
  toNat : α → Nat
  ofNat : Nat → α
  toNat_lt : ∀ a, toNat a < 256 ^ width
  ofNat_toNat : ∀ a, ofNat (toNat a) = a
  toNat_ofNat : ∀ v, v < 256 ^ width → toNat (ofNat v) = v

section Word
variable {α : Type} [Word α]

def to_le_bytes (a : α) : List UInt8 := leBytes (Word.width α) (Word.toNat a)

def from_le_bytes (bytes : List UInt8) : α := Word.ofNat (ofLeBytes bytes)

@[simp] theorem length_to_le_bytes (a : α) : (to_le_bytes a).length = Word.width α := length_leBytes _ _

@[simp] theorem from_to_le_bytes (a : α) : from_le_bytes (to_le_bytes a) = a := by
  rw [from_le_bytes, to_le_bytes, ofLeBytes_leBytes (Word.toNat_lt a), Word.ofNat_toNat]

theorem to_from_le_bytes {bytes : List UInt8} (h : bytes.length = Word.width α) :
    to_le_bytes (from_le_bytes bytes : α) = bytes := by
  have hlt := ofLeBytes_lt bytes
  rw [h] at hlt
  rw [to_le_bytes, from_le_bytes, Word.toNat_ofNat _ hlt, ← h, leBytes_ofLeBytes]

end Word

instance : Word UInt8 where
  width := 1
  toNat a := a.toNat
  ofNat v := .ofNat v
  toNat_lt a := a.toNat_lt
  ofNat_toNat _ := UInt8.ofNat_toNat
  toNat_ofNat _ h := UInt8.toNat_ofNat_of_lt' h

instance : Word UInt16 where
  width := 2
  toNat a := a.toNat
  ofNat v := .ofNat v
  toNat_lt a := a.toNat_lt
  ofNat_toNat _ := UInt16.ofNat_toNat
  toNat_ofNat _ h := UInt16.toNat_ofNat_of_lt' h

instance : Word UInt32 where
  width := 4
  toNat a := a.toNat
  ofNat v := .ofNat v
  toNat_lt a := a.toNat_lt
  ofNat_toNat _ := UInt32.ofNat_toNat
  toNat_ofNat _ h := UInt32.toNat_ofNat_of_lt' h

instance : Word UInt64 where
  width := 8
  toNat a := a.toNat
  ofNat v := .ofNat v
  toNat_lt a := a.toNat_lt
  ofNat_toNat _ := UInt64.ofNat_toNat
  toNat_ofNat _ h := UInt64.toNat_ofNat_of_lt' h

/-- Two's complement. -/
instance : Word Int64 where
  width := 8
  toNat a := a.toUInt64.toNat
  ofNat v := (UInt64.ofNat v).toInt64
  toNat_lt a := a.toUInt64.toNat_lt
  ofNat_toNat a := by simp
  toNat_ofNat v h := by
    rw [UInt64.toUInt64_toInt64]
    exact UInt64.toNat_ofNat_of_lt' h

instance : Word (BitVec 128) where
  width := 16
  toNat a := a.toNat
  ofNat v := .ofNat 128 v
  toNat_lt a := a.isLt
  ofNat_toNat _ := BitVec.ofNat_toNat _ _
  toNat_ofNat v h := (BitVec.toNat_ofNat v 128).trans (Nat.mod_eq_of_lt h)

@[simp] theorem to_le_bytes_append_inj {α : Type} [Word α] {a b : α} {rest rest' : List UInt8} :
    to_le_bytes a ++ rest = to_le_bytes b ++ rest' ↔ a = b ∧ rest = rest' := by
  constructor
  · intro h
    obtain ⟨hab, hrest⟩ := List.append_inj h (by simp)
    exact ⟨by rw [← from_to_le_bytes a, hab, from_to_le_bytes], hrest⟩
  · rintro ⟨rfl, rfl⟩
    rfl

/-! ## Encodings that end by themselves -/

/-- From the bytes the value can be told, and where its encoding ends. -/
def Delimited {α : Type} (encode : α → List UInt8) : Prop :=
  ∀ a b rest rest', encode a ++ rest = encode b ++ rest' → a = b ∧ rest = rest'

namespace Delimited
variable {α : Type} {f : α → List UInt8}

/-- In this form `simp` takes two equal encodings apart, field by field. -/
theorem append_inj (h : Delimited f) {a b : α} {rest rest' : List UInt8} :
    f a ++ rest = f b ++ rest' ↔ a = b ∧ rest = rest' := by
  refine ⟨h a b rest rest', ?_⟩
  rintro ⟨rfl, rfl⟩
  rfl

/-- A stream of encodings determines its values. -/
theorem flatMap_injective (h : Delimited f) (hne : ∀ a, f a ≠ []) : Function.Injective fun l : List α => l.flatMap f := by
  intro l l' heq
  induction l generalizing l' with
  | nil =>
    cases l' with
    | nil => rfl
    | cons b l' => simp [hne] at heq
  | cons a l ih =>
    cases l' with
    | nil => simp [hne] at heq
    | cons b l' =>
      simp only [List.flatMap_cons] at heq
      obtain ⟨rfl, hrest⟩ := h a b _ _ heq
      rw [ih hrest]

end Delimited

/-! ## Single bits -/

/-- The bytes with one bit of the byte at `i` the other way. -/
def flipBit (bytes : List UInt8) (i bit : Nat) : List UInt8 := bytes.modify i fun byte => byte ^^^ (1 <<< UInt8.ofNat bit)

@[simp] theorem length_flipBit (bytes : List UInt8) (i bit : Nat) : (flipBit bytes i bit).length = bytes.length :=
  List.length_modify ..

theorem flipBit_append_left {bytes : List UInt8} {i : Nat} (hi : i < bytes.length) (rest : List UInt8) (bit : Nat) :
    flipBit (bytes ++ rest) i bit = flipBit bytes i bit ++ rest := by
  induction bytes generalizing i with
  | nil => cases hi
  | cons byte bytes ih =>
    cases i with
    | zero => rfl
    | succ i => exact congrArg (byte :: ·) (ih (Nat.lt_of_succ_lt_succ hi))

theorem flipBit_append_right (bytes rest : List UInt8) (i bit : Nat) :
    flipBit (bytes ++ rest) (bytes.length + i) bit = bytes ++ flipBit rest i bit := by
  induction bytes with
  | nil => rw [List.length_nil, Nat.zero_add, List.nil_append, List.nil_append]
  | cons byte bytes ih =>
    rw [List.length_cons, Nat.add_right_comm]
    exact congrArg (byte :: ·) ih

theorem mask_ne_zero {bit : Nat} (hb : bit < 8) : (1 : UInt8) <<< UInt8.ofNat bit ≠ 0 := by
  interval_cases bit <;> decide

theorem flipBit_ne {bytes : List UInt8} {i bit : Nat} (hi : i < bytes.length) (hb : bit < 8) : flipBit bytes i bit ≠ bytes := by
  intro h
  have hbyte := congrArg (fun l => l[i]?) h
  rw [flipBit, List.getElem?_modify_eq, List.getElem?_eq_getElem hi] at hbyte
  exact mask_ne_zero hb (by simpa using hbyte)

end LabLib
