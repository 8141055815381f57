import Mathlib
/-!
# Systems of steps

A system whose parties take turns in any order: a state, and for each move the
state it leads to, if the move is possible. `Reach` are the states of all runs whose
moves meet a condition; `walk` makes one such run.
-/

namespace LabLib

variable {S M : Type} {step : S → M → Option S} {ok : S → M → Prop} {init s s' : S}

/-- The states that moves which meet `ok` lead to. -/
inductive Reach (step : S → M → Option S) (ok : S → M → Prop) (init : S) : S → Prop
  | init : Reach step ok init init
  | step {s s' : S} {move : M} : Reach step ok init s → ok s move → step s move = some s' → Reach step ok init s'

/-- What holds first and is kept by every move holds in every state reached. -/
theorem Reach.inv (I : S → Prop) (h : Reach step ok init s) (h0 : I init)
    (hstep : ∀ s move s', I s → ok s move → step s move = some s' → I s') : I s := by
  induction h with
  | init => exact h0
  | step _ hok hs ih => exact hstep _ _ _ ih hok hs

/-- A run that meets a condition meets a weaker one. -/
theorem Reach.weaken {ok' : S → M → Prop} (h : Reach step ok init s) (hok : ∀ s move, ok s move → ok' s move) :
    Reach step ok' init s := by
  induction h with
  | init => exact .init
  | step _ hmove hs ih => exact ih.step (hok _ _ hmove) hs

/-- The moves one after another, as long as they are possible and meet the condition. -/
def walk (step : S → M → Option S) (ok : S → M → Prop) [∀ s move, Decidable (ok s move)] : S → List M → Option S
  | s, [] => some s
  | s, move :: moves => if ok s move then (step s move).bind fun s' => walk step ok s' moves else none

theorem Reach.walk [∀ s move, Decidable (ok s move)] {moves : List M} (h : Reach step ok init s)
    (hw : walk step ok s moves = some s') : Reach step ok init s' := by
  induction moves generalizing s with
  | nil =>
    cases hw
    exact h
  | cons move moves ih =>
    rw [LabLib.walk] at hw
    split at hw
    · rename_i hok
      obtain ⟨s₁, hs, hw⟩ := Option.bind_eq_some_iff.1 hw
      exact ih (h.step hok hs) hw
    · cases hw

theorem walk_snoc [∀ s move, Decidable (ok s move)] {moves : List M} {move : M} :
    LabLib.walk step ok s (moves ++ [move]) = some s' ↔
      ∃ s₁, LabLib.walk step ok s moves = some s₁ ∧ ok s₁ move ∧ step s₁ move = some s' := by
  induction moves generalizing s with
  | nil =>
    by_cases hok : ok s move
    · simp [LabLib.walk, hok]
    · simp [LabLib.walk, hok]
  | cons first moves ih =>
    by_cases hok : ok s first
    · simp only [List.cons_append, LabLib.walk, hok, if_true, Option.bind_eq_some_iff, ih]
      constructor
      · rintro ⟨s₁, hs, s₂, hw, hlast⟩
        exact ⟨s₂, ⟨s₁, hs, hw⟩, hlast⟩
      · rintro ⟨s₂, ⟨s₁, hs, hw⟩, hlast⟩
        exact ⟨s₁, hs, s₂, hw, hlast⟩
    · simp [LabLib.walk, hok]

/-- A walk ends in the same state when the condition is weaker. -/
theorem walk_weaken {ok' : S → M → Prop} [∀ s move, Decidable (ok s move)] [∀ s move, Decidable (ok' s move)]
    (h : ∀ s move, ok s move → ok' s move) {moves : List M} (hw : LabLib.walk step ok s moves = some s') :
    LabLib.walk step ok' s moves = some s' := by
  induction moves generalizing s with
  | nil => exact hw
  | cons move moves ih =>
    rw [LabLib.walk] at hw ⊢
    split at hw
    · rename_i hok
      obtain ⟨s₁, hs, hw⟩ := Option.bind_eq_some_iff.1 hw
      rw [if_pos (h s move hok), hs]
      exact ih hw
    · cases hw

/-- A state that a walk from the start ends in. -/
theorem reach_of_walk [∀ s move, Decidable (ok s move)] {moves : List M} (h : walk step ok init moves = some s) :
    Reach step ok init s :=
  Reach.init.walk h

end LabLib
