import Mathlib
/-!
# Counters

Numbers drawn from a counter one after another: no gap and no repeat.
-/

namespace LabLib

/-- The numbers drawn while a counter went from `a` to `b`. -/
def Counts : Int → List Int → Int → Prop
  | a, [], b => b = a
  | a, x :: l, b => x = a + 1 ∧ Counts x l b

theorem Counts.append {a b c : Int} {l l' : List Int} (h : Counts a l b) (h' : Counts b l' c) : Counts a (l ++ l') c := by
  induction l generalizing a with
  | nil =>
    obtain rfl : b = a := h
    exact h'
  | cons x l ih => exact ⟨h.1, ih h.2⟩

/-- The numbers are the ones above the counter's start, in order. -/
theorem Counts.eq_range {a b : Int} {l : List Int} (h : Counts a l b) :
    l = (List.range l.length).map (fun k : Nat => a + 1 + k) ∧ b = a + l.length := by
  induction l generalizing a with
  | nil =>
    obtain rfl : b = a := h
    simp
  | cons x l ih =>
    obtain ⟨rfl, hl⟩ := h
    obtain ⟨h1, h2⟩ := ih hl
    constructor
    · rw [List.length_cons, List.range_succ_eq_map, List.map_cons, List.map_map]
      congr 1
      · simp
      · conv_lhs => rw [h1]
        refine List.map_congr_left fun k _ => ?_
        simp only [Function.comp_apply]
        push_cast
        ring
    · rw [h2, List.length_cons]
      push_cast
      ring

end LabLib
