import Mathlib
/-!
# Guarded computations

Code that checks its way forward: `require` stops with an error unless a condition
holds, `ok_or` unless there is a value. The lemmas say what a computation that got to
its end has checked.
-/

namespace LabLib

section Guards
variable {ε α β : Type}

def require (p : Prop) [Decidable p] (error : ε) : Except ε Unit := if p then .ok () else .error error

def ok_or (o : Option α) (error : ε) : Except ε α :=
  match o with
  | some a => .ok a
  | none => .error error

theorem require_bind {p : Prop} [Decidable p] {error : ε} {f : Unit → Except ε β} {b : β} :
    require p error >>= f = .ok b ↔ p ∧ f () = .ok b := by
  by_cases h : p
  · simp only [require, h, true_and]
    rfl
  · simp only [require, h, false_and, iff_false]
    nofun

theorem ok_or_bind {o : Option α} {error : ε} {f : α → Except ε β} {b : β} :
    ok_or o error >>= f = .ok b ↔ ∃ a, o = some a ∧ f a = .ok b := by
  cases o with
  | none =>
    simp only [ok_or, reduceCtorEq, false_and, exists_false, iff_false]
    nofun
  | some a =>
    simp only [ok_or, Option.some.injEq, exists_eq_left']
    rfl

theorem ok_bind_iff {x : Except ε α} {f : α → Except ε β} {b : β} :
    x >>= f = .ok b ↔ ∃ a, x = .ok a ∧ f a = .ok b := by
  cases x with
  | error error =>
    simp only [reduceCtorEq, false_and, exists_false, iff_false]
    nofun
  | ok a =>
    simp only [Except.ok.injEq, exists_eq_left']
    rfl

/-! ### Failures -/

theorem error_bind (error : ε) (f : α → Except ε β) : (Except.error error : Except ε α) >>= f = .error error := rfl

theorem require_bind_error {p : Prop} [Decidable p] {error e : ε} {f : Unit → Except ε β} :
    require p error >>= f = .error e ↔ (¬p ∧ error = e) ∨ (p ∧ f () = .error e) := by
  by_cases h : p
  · simp only [require, h, not_true_eq_false, false_and, true_and, false_or, if_true]
    rfl
  · simp only [require, h, not_false_eq_true, false_and, true_and, or_false, if_false, error_bind, Except.error.injEq]

theorem ok_or_bind_error {o : Option α} {error e : ε} {f : α → Except ε β} :
    ok_or o error >>= f = .error e ↔ (o = none ∧ error = e) ∨ ∃ a, o = some a ∧ f a = .error e := by
  cases o with
  | none =>
    simp only [ok_or, true_and, reduceCtorEq, false_and, exists_false, or_false, error_bind, Except.error.injEq]
  | some a =>
    simp only [ok_or, reduceCtorEq, false_and, false_or, Option.some.injEq, exists_eq_left']
    rfl

theorem error_bind_iff {x : Except ε α} {e : ε} {f : α → Except ε β} :
    x >>= f = .error e ↔ x = .error e ∨ ∃ a, x = .ok a ∧ f a = .error e := by
  cases x with
  | error error =>
    simp only [reduceCtorEq, false_and, exists_false, or_false, error_bind, Except.error.injEq]
  | ok a =>
    simp only [reduceCtorEq, false_or, Except.ok.injEq, exists_eq_left']
    rfl

/-! ### Loops -/

/-- All calls of a loop that ended well did. -/
theorem ok_of_mapM {f : α → Except ε β} {l : List α} {bs : List β} (h : l.mapM f = .ok bs) {a : α} (ha : a ∈ l) :
    ∃ b, f a = .ok b := by
  induction l generalizing bs with
  | nil => cases ha
  | cons a' l ih =>
    rw [List.mapM_cons] at h
    obtain ⟨b, hb, h⟩ := ok_bind_iff.1 h
    obtain ⟨bs, hbs, -⟩ := ok_bind_iff.1 h
    obtain rfl | ha := List.mem_cons.1 ha
    · exact ⟨b, hb⟩
    · exact ih hbs ha

theorem length_of_mapM {f : α → Except ε β} {l : List α} {bs : List β} (h : l.mapM f = .ok bs) : bs.length = l.length := by
  induction l generalizing bs with
  | nil =>
    cases h
    rfl
  | cons a l ih =>
    rw [List.mapM_cons] at h
    obtain ⟨b, -, h⟩ := ok_bind_iff.1 h
    obtain ⟨bs, hbs, h⟩ := ok_bind_iff.1 h
    cases h
    rw [List.length_cons, List.length_cons, ih hbs]

end Guards

end LabLib
