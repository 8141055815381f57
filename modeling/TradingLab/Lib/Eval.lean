import Mathlib
/-!
# Computations that may panic

`Eval` is the result of running imperative code: a value, or the way it
stopped without one. A `while` loop is `loop` with fuel; running out of fuel is
reported as divergence, and `loop_spec` shows it does not happen when a measure
stays below the fuel. `runs` applies a step function to a list of inputs.
-/

namespace LabLib

/-- How a computation stops without a value. -/
inductive Panic where
  /-- A failing `expect`, with its message. -/
  | expect (message : String)
  /-- Indexing a collection at a missing key. -/
  | index
  /-- A remainder by zero, or one that overflows. -/
  | remainder
  /-- A loop that has not ended within its fuel. -/
  | diverges
deriving DecidableEq, Repr

abbrev Eval := Except Panic

/-- The value of an `Option`, or a panic with a message. -/
def expect {α : Type} (o : Option α) (message : String) : Eval α :=
  match o with
  | some a => .ok a
  | none => .error (.expect message)

/-- The entry an indexing expression reads, or a panic. -/
def idx {α : Type} (o : Option α) : Eval α :=
  match o with
  | some a => .ok a
  | none => .error .index

@[simp] theorem expect_some {α : Type} (a : α) (m : String) : expect (some a) m = .ok a := rfl
@[simp] theorem idx_some {α : Type} (a : α) : idx (some a) = .ok a := rfl

@[simp] theorem ok_bind {α β : Type} (a : α) (f : α → Eval β) : (Except.ok a : Eval α) >>= f = f a := rfl
@[simp] theorem pure_eq {α : Type} (a : α) : (pure a : Eval α) = .ok a := rfl

theorem bind_eq_ok {α β : Type} {m : Eval α} {f : α → Eval β} {b : β} :
    m >>= f = .ok b ↔ ∃ a, m = .ok a ∧ f a = .ok b := by
  cases m with
  | error e => simp [bind, Except.bind]
  | ok a => simp

/-- The computation has a value with the property. -/
def Ends {α : Type} (x : Eval α) (P : α → Prop) : Prop := ∃ a, x = .ok a ∧ P a

instance {α : Type} (x : Eval α) (P : α → Prop) [DecidablePred P] : Decidable (Ends x P) :=
  match x with
  | .ok a => decidable_of_iff (P a) ⟨fun h => ⟨a, rfl, h⟩, fun ⟨_, ha, h⟩ => by cases ha; exact h⟩
  | .error _ => isFalse fun ⟨_, ha, _⟩ => by cases ha

/-- How a computation stopped, when it has no value. -/
def panicOf {α : Type} : Eval α → Option Panic
  | .ok _ => none
  | .error e => some e

theorem mapM_eq_pure {m : Type → Type} [Monad m] [LawfulMonad m] {α β : Type} {f : α → m β} {g : α → β} {l : List α}
    (h : ∀ a ∈ l, f a = pure (g a)) : l.mapM f = pure (l.map g) := by
  induction l with
  | nil => rfl
  | cons a l ih =>
    rw [List.mapM_cons, h a List.mem_cons_self, ih fun b hb => h b (List.mem_cons_of_mem _ hb)]
    simp

/-! ## Checks

A check may also end with an error of its own, which is a value and no panic. -/

section Checks
variable {ε α β : Type}
variable {x : ExceptT ε Eval α} {a : α}

/-- The check does not panic. -/
def Safe (x : ExceptT ε Eval α) : Prop := ∃ r, x.run = .ok r

/-- The check ends with the value. -/
def Passes (x : ExceptT ε Eval α) (a : α) : Prop := x.run = .ok (.ok a)

/-- Whether a check passes. -/
def passed (x : ExceptT ε Eval α) : Bool :=
  match x.run with
  | .ok (.ok _) => true
  | _ => false

theorem Passes.passed (h : Passes x a) : passed x = true := by
  rw [LabLib.passed, h]

@[simp] theorem lift_ok (a : α) : (liftM (Except.ok a : Eval α) : ExceptT ε Eval α) = pure a := rfl

theorem safe_pure (a : α) : Safe (pure a : ExceptT ε Eval α) := ⟨_, rfl⟩

theorem safe_throw (e : ε) : Safe (throw e : ExceptT ε Eval α) := ⟨_, rfl⟩

theorem safe_lift {x : Eval α} (h : x = .ok a) : Safe (liftM x : ExceptT ε Eval α) := by
  subst h; exact safe_pure a

theorem Safe.bind {f : α → ExceptT ε Eval β} (hx : Safe x) (hf : ∀ a, Passes x a → Safe (f a)) :
    Safe (x >>= f) := by
  obtain ⟨r, hr⟩ := hx
  rw [Safe, ExceptT.run_bind, hr]
  cases r with
  | error e => exact ⟨_, rfl⟩
  | ok a => exact hf a hr

@[simp] theorem passes_pure {a b : α} : Passes (pure a : ExceptT ε Eval α) b ↔ a = b := by
  simp [Passes, ExceptT.run_pure]

@[simp] theorem passes_throw {e : ε} : Passes (throw e : ExceptT ε Eval α) a ↔ False := by
  simp [Passes, ExceptT.run_throw]

theorem passes_bind {f : α → ExceptT ε Eval β} {b : β} :
    Passes (x >>= f) b ↔ ∃ a, Passes x a ∧ Passes (f a) b := by
  simp only [Passes, ExceptT.run_bind]
  cases h : x.run with
  | error e => simp [bind, Except.bind]
  | ok r => cases r <;> simp

@[simp] theorem passes_lift {x : Eval α} : Passes (liftM x : ExceptT ε Eval α) a ↔ x = .ok a := by
  cases x with
  | error e => simp [Passes, liftM, monadLift, MonadLift.monadLift, ExceptT.run, ExceptT.lift, ExceptT.mk, Functor.map,
      Except.map]
  | ok b => rw [lift_ok, passes_pure, Except.ok.injEq]

end Checks

/-! ## Loops -/

/-- What one pass through a loop body decides. -/
inductive Flow (σ ρ : Type) where
  | cont (s : σ)
  | done (r : ρ)

/-- Run `body` until it is done, at most `fuel` times. -/
def loop {σ ρ : Type} (body : σ → Eval (Flow σ ρ)) : Nat → σ → Eval ρ
  | 0, _ => .error .diverges
  | fuel + 1, s => do
    match ← body s with
    | .cont s' => loop body fuel s'
    | .done r => pure r

/-- What a pass has to establish: it either goes on with the invariant and a
smaller measure, or ends with the postcondition. -/
def Flow.Ok {σ ρ : Type} (inv : σ → Prop) (measure : σ → Nat) (post : ρ → Prop) (m : Nat) : Flow σ ρ → Prop
  | .cont s => inv s ∧ measure s < m
  | .done r => post r

theorem loop_spec {σ ρ : Type} (body : σ → Eval (Flow σ ρ)) (inv : σ → Prop) (measure : σ → Nat)
    (post : ρ → Prop) (h : ∀ s, inv s → ∃ f, body s = .ok f ∧ f.Ok inv measure post (measure s)) :
    ∀ fuel s, inv s → measure s < fuel → ∃ r, loop body fuel s = .ok r ∧ post r := by
  intro fuel
  induction fuel with
  | zero => intro s _ hm; omega
  | succ fuel ih =>
    intro s hs hm
    obtain ⟨f, hf, hok⟩ := h s hs
    cases f with
    | done r => exact ⟨r, by simp [loop, hf], hok⟩
    | cont s' =>
      obtain ⟨hs', hlt⟩ := hok
      obtain ⟨r, hr, hp⟩ := ih s' hs' (by omega)
      exact ⟨r, by simpa [loop, hf] using hr, hp⟩

/-! ## Runs -/

section Runs
variable {S I O : Type} (step : S → I → Eval (S × O))

/-- Apply the inputs one after another; the outputs are listed by input. -/
def runs : S → List I → Eval (S × List O)
  | s, [] => pure (s, [])
  | s, i :: is => do
    let (s1, o) ← step s i
    let (s2, os) ← runs s1 is
    pure (s2, o :: os)

variable {is : List I} {s s' : S} {os : List O} {i : I}

variable {step} in
theorem runs_cons {s s1 s' : S} {o : O} (h : step s i = .ok (s1, o)) (hr : runs step s1 is = .ok (s', os)) :
    runs step s (i :: is) = .ok (s', o :: os) := by
  simp only [runs, h, ok_bind, hr, pure_eq]

theorem runs_snoc :
    runs step s (is ++ [i]) = .ok (s', os) ↔
      ∃ s1 os1 o, runs step s is = .ok (s1, os1) ∧ step s1 i = .ok (s', o) ∧ os = os1 ++ [o] := by
  induction is generalizing s s' os with
  | nil =>
    constructor
    · intro h
      simp only [List.nil_append, runs, bind_eq_ok] at h
      obtain ⟨⟨s1, o⟩, h1, ⟨s2, os2⟩, h2, h3⟩ := h
      cases h2; cases h3
      exact ⟨s, [], o, rfl, h1, rfl⟩
    · rintro ⟨s1, os1, o, h1, h2, rfl⟩
      cases h1
      simp [runs, h2]
  | cons j is ih =>
    simp only [List.cons_append, runs, bind_eq_ok]
    constructor
    · rintro ⟨⟨s1, o1⟩, h1, ⟨s2, os2⟩, h2, h3⟩
      cases h3
      obtain ⟨s3, os3, o, h4, h5, rfl⟩ := ih.1 h2
      exact ⟨s3, o1 :: os3, o, ⟨(s1, o1), h1, (s3, os3), h4, rfl⟩, h5, rfl⟩
    · rintro ⟨s3, os3, o, ⟨⟨s1, o1⟩, h1, ⟨s2, os2⟩, h2, h3⟩, h4, rfl⟩
      cases h3
      exact ⟨(s1, o1), h1, (s', os2 ++ [o]), ih.2 ⟨s2, os2, o, h2, h4, rfl⟩, rfl⟩

/-- When every step from a state of the invariant succeeds and keeps it, so
does every run. -/
theorem runs_total {s0 : S} (inv : S → Prop) (h0 : inv s0)
    (hs : ∀ s i, inv s → ∃ s' o, step s i = .ok (s', o) ∧ inv s') (is : List I) :
    ∃ s os, runs step s0 is = .ok (s, os) ∧ inv s := by
  induction is using List.reverseRecOn with
  | nil => exact ⟨s0, [], rfl, h0⟩
  | append_singleton is i ih =>
    obtain ⟨s1, os1, h1, hi⟩ := ih
    obtain ⟨s', o, h2, hi'⟩ := hs s1 i hi
    exact ⟨s', os1 ++ [o], (runs_snoc step).2 ⟨s1, os1, o, h1, h2, rfl⟩, hi'⟩

/-- A run that goes on with the same input, again and again. -/
theorem runs_replicate {s0 s : S} (h : runs step s0 is = .ok (s, os)) (inv : Nat → S → Prop) (h0 : inv 0 s)
    (count : Nat) (hs : ∀ k s, k < count → inv k s → ∃ s' o, step s i = .ok (s', o) ∧ inv (k + 1) s') :
    ∃ s' os', runs step s0 (is ++ List.replicate count i) = .ok (s', os') ∧ inv count s' := by
  induction count with
  | zero => exact ⟨s, os, by rw [List.replicate_zero, List.append_nil]; exact h, h0⟩
  | succ count ih =>
    obtain ⟨s1, os1, h1, hi⟩ := ih fun k s hk => hs k s (Nat.lt_succ_of_lt hk)
    obtain ⟨s', o, h2, hi'⟩ := hs count s1 (Nat.lt_succ_self count) hi
    refine ⟨s', os1 ++ [o], ?_, hi'⟩
    rw [List.replicate_succ', ← List.append_assoc]
    exact (runs_snoc step).2 ⟨s1, os1, o, h1, h2, rfl⟩

/-- What the inputs bring out, up to one that panics. -/
def brings {O : Type} (step : S → I → Eval (S × List O)) : S → List I → List O
  | _, [] => []
  | s, i :: is =>
    match step s i with
    | .ok (s, os) => os ++ brings step s is
    | .error _ => []

theorem brings_append {O : Type} {step : S → I → Eval (S × List O)} {os : List (List O)}
    (h : runs step s is = .ok (s', os)) (js : List I) :
    brings step s (is ++ js) = os.flatten ++ brings step s' js := by
  induction is generalizing s os with
  | nil =>
    cases h
    rfl
  | cons i is ih =>
    simp only [runs, bind_eq_ok] at h
    obtain ⟨⟨s1, o⟩, h1, ⟨s2, os2⟩, h2, h3⟩ := h
    cases h3
    rw [List.cons_append, brings, h1]
    simp only [ih h2, List.flatten_cons, List.append_assoc]

theorem brings_of_runs {O : Type} {step : S → I → Eval (S × List O)} {os : List (List O)}
    (h : runs step s is = .ok (s', os)) : brings step s is = os.flatten := by
  simpa [brings] using brings_append h []

/-- One step of a run. -/
structure Turn (S I O : Type) where
  before : S
  input : I
  output : O

/-- A run that lists its steps. -/
def history : S → List I → Eval (S × List (Turn S I O)) :=
  runs fun s i => do
    let (s', o) ← step s i
    pure (s', ⟨s, i, o⟩)

theorem history_snoc {ts : List (Turn S I O)} :
    history step s (is ++ [i]) = .ok (s', ts) ↔
      ∃ s1 ts1 o, history step s is = .ok (s1, ts1) ∧ step s1 i = .ok (s', o) ∧ ts = ts1 ++ [⟨s1, i, o⟩] := by
  rw [history, runs_snoc]
  constructor
  · rintro ⟨s1, ts1, t, h1, h2, rfl⟩
    obtain ⟨⟨s2, o⟩, h3, h4⟩ := bind_eq_ok.1 h2
    cases h4
    exact ⟨s1, ts1, o, h1, h3, rfl⟩
  · rintro ⟨s1, ts1, o, h1, h2, rfl⟩
    exact ⟨s1, ts1, _, h1, by simp only [h2, ok_bind, pure_eq], rfl⟩

/-- A property of histories that every further step keeps holds of every history. -/
theorem history_induction {s0 : S} (motive : S → List (Turn S I O) → Prop) (nil : motive s0 [])
    (snoc : ∀ {s ts i s' o}, motive s ts → step s i = .ok (s', o) → motive s' (ts ++ [⟨s, i, o⟩])) :
    ∀ {is s ts}, history step s0 is = .ok (s, ts) → motive s ts := by
  intro is
  induction is using List.reverseRecOn with
  | nil => intro s ts h; cases h; exact nil
  | append_singleton is i ih =>
    intro s ts h
    obtain ⟨s1, ts1, o, h1, h2, rfl⟩ := (history_snoc step).1 h
    exact snoc (ih h1) h2

/-- A history lists the inputs it was run on. -/
theorem history_inputs {ts : List (Turn S I O)} (h : history step s is = .ok (s', ts)) :
    ts.map Turn.input = is := by
  induction is using List.reverseRecOn generalizing s' ts with
  | nil => cases h; rfl
  | append_singleton is i ih =>
    obtain ⟨s1, ts1, o, h1, -, rfl⟩ := (history_snoc step).1 h
    rw [List.map_append, ih h1]
    rfl

/-- Every run has a history. -/
theorem exists_history (h : runs step s is = .ok (s', os)) :
    ∃ ts, history step s is = .ok (s', ts) ∧ is = ts.map Turn.input ∧ os = ts.map Turn.output := by
  induction is using List.reverseRecOn generalizing s' os with
  | nil => cases h; exact ⟨[], rfl, rfl, rfl⟩
  | append_singleton is i ih =>
    obtain ⟨s1, os1, o, h1, h2, rfl⟩ := (runs_snoc step).1 h
    obtain ⟨ts, h3, h4, h5⟩ := ih h1
    exact ⟨ts ++ [⟨s1, i, o⟩], (history_snoc step).2 ⟨s1, ts, o, h3, h2, rfl⟩, by simp [← h4], by simp [← h5]⟩
end Runs

/-- An entry of a list with one more is an entry of the list, or the one more. -/
theorem getElem?_snoc {α : Type} {l : List α} {x y : α} {k : Nat} (h : (l ++ [x])[k]? = some y) :
    l[k]? = some y ∨ (k = l.length ∧ y = x) := by
  rcases Nat.lt_trichotomy k l.length with hk | hk | hk
  · left
    rwa [List.getElem?_append_left hk] at h
  · right
    rw [hk, List.getElem?_concat_length] at h
    exact ⟨hk, (Option.some.inj h).symm⟩
  · rw [List.getElem?_eq_none (by simp; omega)] at h
    cases h

end LabLib
