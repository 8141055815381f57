import Mathlib
/-!
# Texts with separators

Fields that are written one after another with a separator between them can be told
apart when they do not contain it. Of two fields it is enough that one of them does not:
then the first separator, or the last one, is where they meet. A decimal consists of
digits and a sign.
-/

namespace LabLib

section Separators
variable {α : Type} {sep : α} {l l' r r' : List α}

theorem append_sep_inj (hl : sep ∉ l) (hl' : sep ∉ l') : l ++ sep :: r = l' ++ sep :: r' ↔ l = l' ∧ r = r' := by
  constructor
  · intro h
    induction l generalizing l' with
    | nil =>
      cases l' with
      | nil => exact ⟨rfl, (List.cons.inj h).2⟩
      | cons a l' =>
        have hsep : sep = a := (List.cons.inj h).1
        exact absurd (hsep ▸ List.mem_cons_self) hl'
    | cons a l ih =>
      cases l' with
      | nil =>
        have hsep : a = sep := (List.cons.inj h).1
        exact absurd (hsep ▸ List.mem_cons_self) hl
      | cons a' l' =>
        obtain ⟨rfl, htail⟩ := List.cons.inj h
        obtain ⟨rfl, hr⟩ := ih (List.not_mem_of_not_mem_cons hl) (List.not_mem_of_not_mem_cons hl') htail
        exact ⟨rfl, hr⟩
  · rintro ⟨rfl, rfl⟩
    rfl

/-- The last separator is the first one from behind. -/
theorem append_last_sep_inj (hr : sep ∉ r) (hr' : sep ∉ r') : l ++ sep :: r = l' ++ sep :: r' ↔ l = l' ∧ r = r' := by
  have hreverse (l r : List α) : (l ++ sep :: r).reverse = r.reverse ++ sep :: l.reverse := by simp
  rw [← List.reverse_inj, hreverse, hreverse, append_sep_inj (by simpa using hr) (by simpa using hr'), List.reverse_inj,
    List.reverse_inj, and_comm]

theorem intercalate_inj [DecidableEq α] {ls ls' : List (List α)} (hls : ∀ l ∈ ls, sep ∉ l) (hls' : ∀ l ∈ ls', sep ∉ l)
    (hne : ls ≠ []) (hne' : ls' ≠ []) : [sep].intercalate ls = [sep].intercalate ls' ↔ ls = ls' := by
  constructor
  · intro h
    rw [← List.splitOn_intercalate sep hls hne, h, List.splitOn_intercalate sep hls' hne']
  · rintro rfl
    rfl

end Separators

/-! ## Decimals -/

/-- The characters of a decimal. -/
def decimalChar (c : Char) : Bool := c.isDigit || c == '-'

theorem decimalChar_of_mem_nat {n : Nat} {c : Char} (h : c ∈ (toString n).toList) : decimalChar c = true := by
  rw [Nat.toString_eq_repr, Nat.toList_repr] at h
  rw [decimalChar, Nat.isDigit_of_mem_toDigits (by decide) (by decide) h, Bool.true_or]

theorem decimalChar_of_mem_int {z : Int} {c : Char} (h : c ∈ (toString z).toList) : decimalChar c = true := by
  cases z with
  | ofNat n => exact decimalChar_of_mem_nat h
  | negSucc n =>
    have hminus : (toString (Int.negSucc n)).toList = '-' :: (toString (n + 1)).toList := by
      rw [Int.toString_eq_repr, Int.repr, String.toList_append]
      rfl
    rw [hminus] at h
    obtain rfl | h := List.mem_cons.1 h
    · rfl
    · exact decimalChar_of_mem_nat h

end LabLib
