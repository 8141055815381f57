import Mathlib
/-!
# Doubly linked lists in a store

Nodes live in a store under numeric slots and point at each other by slot. A
`Dll` says that a list of slots with their data is linked up in the store, as a
segment between two given neighbours. Appending at the tail and unlinking any
node are the two changes of shape; both leave the store alone elsewhere.
-/

namespace LabLib

section Chain
variable {α ν : Type}
variable {σ : Nat → Option ν} {q : List (Nat × α)}

/-- The slot that follows: the first of the list, or else `n`. -/
def firstOr (n : Option Nat) : List (Nat × α) → Option Nat
  | [] => n
  | e :: _ => some e.1

/-- The slot that precedes: the last of the list, or else `p`. -/
def lastOr (p : Option Nat) : List (Nat × α) → Option Nat
  | [] => p
  | e :: q => lastOr (some e.1) q

/-- Apply `f` to the node in an optional slot. -/
def updAt (σ : Nat → Option ν) (o : Option Nat) (f : ν → ν) : Nat → Option ν :=
  fun k => if o = some k then (σ k).map f else σ k

/-- `q` is linked up in `σ` between the neighbours `p` and `n`. -/
def Dll (mk : α → Option Nat → Option Nat → ν) (σ : Nat → Option ν) : Option Nat → List (Nat × α) → Option Nat → Prop
  | _, [], _ => True
  | p, e :: q, n => σ e.1 = some (mk e.2 p (firstOr n q)) ∧ Dll mk σ (some e.1) q n

/-- A whole list, with no neighbours. -/
def Linked (mk : α → Option Nat → Option Nat → ν) (σ : Nat → Option ν) (q : List (Nat × α)) : Prop :=
  Dll mk σ none q none

@[simp] theorem firstOr_cons (n : Option Nat) (e : Nat × α) (q : List (Nat × α)) : firstOr n (e :: q) = some e.1 := rfl

theorem firstOr_append (n : Option Nat) (q q' : List (Nat × α)) :
    firstOr n (q ++ q') = firstOr (firstOr n q') q := by
  cases q <;> rfl

theorem lastOr_append (p : Option Nat) (q q' : List (Nat × α)) :
    lastOr p (q ++ q') = lastOr (lastOr p q) q' := by
  induction q generalizing p with
  | nil => rfl
  | cons e q ih => exact ih _

theorem lastOr_eq (p : Option Nat) (q : List (Nat × α)) : lastOr p q = (q.getLast?.map Prod.fst).or p := by
  induction q generalizing p with
  | nil => rfl
  | cons e q ih =>
    rw [lastOr, ih, List.getLast?_cons]
    cases q.getLast? <;> rfl

theorem lastOr_mem {k : Nat} (h : lastOr none q = some k) : k ∈ q.map Prod.fst := by
  rw [lastOr_eq, Option.or_none, Option.map_eq_some_iff] at h
  obtain ⟨e, he, rfl⟩ := h
  exact List.mem_map_of_mem (List.mem_of_getLast? he)

theorem firstOr_mem {k : Nat} (h : firstOr none q = some k) : k ∈ q.map Prod.fst := by
  cases q with
  | nil => cases h
  | cons e q => cases h; exact List.mem_cons_self

theorem updAt_of_ne {o : Option Nat} {f : ν → ν} {k : Nat} (h : o ≠ some k) :
    updAt σ o f k = σ k := if_neg h

variable {mk : α → Option Nat → Option Nat → ν}

theorem dll_append {p n : Option Nat} {q q' : List (Nat × α)} :
    Dll mk σ p (q ++ q') n ↔ Dll mk σ p q (firstOr n q') ∧ Dll mk σ (lastOr p q) q' n := by
  induction q generalizing p with
  | nil => simp [Dll, lastOr]
  | cons e q ih => simp only [List.cons_append, Dll, lastOr, firstOr_append, ih, and_assoc]

/-- The nodes of a list up to the end, each with its links. -/
def linkedNodes (mk : α → Option Nat → Option Nat → ν) : Option Nat → List (Nat × α) → List ν
  | _, [] => []
  | p, e :: q => mk e.2 p (firstOr none q) :: linkedNodes mk (some e.1) q

/-- What is read off the data of a node is read off the list. -/
theorem map_linkedNodes {β : Type} {f : ν → β} {g : α → β} (h : ∀ a p n, f (mk a p n) = g a) (p : Option Nat)
    (q : List (Nat × α)) : (linkedNodes mk p q).map f = q.map fun e => g e.2 := by
  induction q generalizing p with
  | nil => rfl
  | cons e q ih => simp [linkedNodes, h, ih]

/-- A segment only depends on the nodes in its slots. -/
theorem Dll.congr {σ σ' : Nat → Option ν} {p n : Option Nat} (h : Dll mk σ p q n)
    (hs : ∀ k ∈ q.map Prod.fst, σ' k = σ k) : Dll mk σ' p q n := by
  induction q generalizing p with
  | nil => trivial
  | cons e q ih =>
    refine ⟨?_, ih h.2 fun k hk => hs k (List.mem_cons_of_mem _ hk)⟩
    rw [hs e.1 List.mem_cons_self]
    exact h.1

/-- The node of an entry points at its neighbours in the list. -/
theorem Linked.node {pre post : List (Nat × α)} {e : Nat × α} (h : Linked mk σ (pre ++ e :: post)) :
    σ e.1 = some (mk e.2 (lastOr none pre) (firstOr none post)) :=
  (dll_append.1 h).2.1

/-- Replacing the data of one entry. -/
theorem Linked.set {σ σ' : Nat → Option ν} {pre post : List (Nat × α)} {e : Nat × α} {a : α}
    (h : Linked mk σ (pre ++ e :: post)) (hn : ((pre ++ e :: post).map Prod.fst).Nodup)
    (he : σ' e.1 = some (mk a (lastOr none pre) (firstOr none post)))
    (hs : ∀ k, k ≠ e.1 → σ' k = σ k) : Linked mk σ' (pre ++ (e.1, a) :: post) := by
  simp only [List.map_append, List.map_cons, List.nodup_append, List.nodup_cons] at hn
  obtain ⟨h1, -, h2⟩ := dll_append.1 h
  refine dll_append.2 ⟨h1.congr fun k hk => hs k ?_, he, h2.congr fun k hk => hs k ?_⟩
  · exact hn.2.2 k hk e.1 List.mem_cons_self
  · rintro rfl; exact hn.2.1.1 hk

section Links
variable (setPrev setNext : ν → Option Nat → ν)
variable {q : List (Nat × α)}

/-- Redirecting the last node of a segment to a new right neighbour. -/
theorem Dll.set_next (hnext : ∀ a p n n', setNext (mk a p n) n' = mk a p n') {σ : Nat → Option ν} {p n : Option Nat}
    (h : Dll mk σ p q n) (hn : (q.map Prod.fst).Nodup) (n' : Option Nat) :
    Dll mk (updAt σ (lastOr none q) (setNext · n')) p q n' := by
  induction q generalizing p with
  | nil => trivial
  | cons e q ih =>
    simp only [List.map_cons, List.nodup_cons] at hn
    cases q with
    | nil => exact ⟨by simp [updAt, lastOr, h.1, hnext, firstOr], trivial⟩
    | cons e' q =>
      refine ⟨?_, ih h.2 hn.2⟩
      have hl : lastOr none (e :: e' :: q) ≠ some e.1 := fun hl => hn.1 (lastOr_mem (q := e' :: q) hl)
      rw [updAt_of_ne hl]
      exact h.1

/-- Redirecting the first node of a segment to a new left neighbour. -/
theorem Dll.set_prev (hprev : ∀ a p n p', setPrev (mk a p n) p' = mk a p' n) {σ : Nat → Option ν} {p n : Option Nat}
    (h : Dll mk σ p q n) (hn : (q.map Prod.fst).Nodup) (p' : Option Nat) :
    Dll mk (updAt σ (firstOr none q) (setPrev · p')) p' q n := by
  cases q with
  | nil => trivial
  | cons e q =>
    simp only [List.map_cons, List.nodup_cons] at hn
    refine ⟨by simp [updAt, firstOr, h.1, hprev], h.2.congr fun k hk => updAt_of_ne ?_⟩
    intro he
    cases he
    exact hn.1 hk

/-- Appending a node: the old tail and the new node are joined. -/
theorem Linked.push (hnext : ∀ a p n n', setNext (mk a p n) n' = mk a p n') {σ σ' : Nat → Option ν} {k : Nat} {a : α}
    (h : Linked mk σ q) (hn : (q.map Prod.fst).Nodup) (hk : k ∉ q.map Prod.fst)
    (hself : σ' k = some (mk a (lastOr none q) none))
    (hs : ∀ j, j ≠ k → σ' j = updAt σ (lastOr none q) (setNext · (some k)) j) :
    Linked mk σ' (q ++ [(k, a)]) := by
  refine dll_append.2 ⟨?_, hself, trivial⟩
  refine (Dll.set_next setNext hnext h hn (some k)).congr fun j hj => hs j ?_
  rintro rfl; exact hk hj

/-- Unlinking a node: its neighbours are joined. -/
theorem Linked.unlink (hprev : ∀ a p n p', setPrev (mk a p n) p' = mk a p' n)
    (hnext : ∀ a p n n', setNext (mk a p n) n' = mk a p n') {σ σ' : Nat → Option ν}
    {pre post : List (Nat × α)} {e : Nat × α} (h : Linked mk σ (pre ++ e :: post))
    (hn : ((pre ++ e :: post).map Prod.fst).Nodup)
    (hs : ∀ j, j ≠ e.1 → σ' j =
      updAt (updAt σ (lastOr none pre) (setNext · (firstOr none post))) (firstOr none post)
        (setPrev · (lastOr none pre)) j) :
    Linked mk σ' (pre ++ post) := by
  simp only [List.map_append, List.map_cons, List.nodup_append, List.nodup_cons] at hn
  obtain ⟨hpre, ⟨he, hpost⟩, hdisj⟩ := hn
  obtain ⟨h1, -, h2⟩ := dll_append.1 h
  refine dll_append.2 ⟨?_, ?_⟩
  · refine (Dll.set_next setNext hnext h1 hpre (firstOr none post)).congr fun j hj => ?_
    rw [hs j (hdisj j hj e.1 List.mem_cons_self)]
    apply updAt_of_ne
    intro hf
    exact hdisj j hj j (List.mem_cons_of_mem _ (firstOr_mem hf)) rfl
  · have hne : ∀ j ∈ post.map Prod.fst, lastOr none pre ≠ some j := fun j hj hl =>
      hdisj j (lastOr_mem hl) j (List.mem_cons_of_mem _ hj) rfl
    refine (Dll.set_prev setPrev hprev h2 hpost (lastOr none pre)).congr fun j hj => ?_
    rw [hs j (by rintro rfl; exact he hj)]
    simp only [updAt, if_neg (hne j hj)]
end Links
end Chain

end LabLib
