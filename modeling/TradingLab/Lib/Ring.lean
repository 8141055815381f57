import TradingLab.Lib.Maps
/-!
# Rings

A ring of `n` cells keeps the last `n` values written to it: each write goes to
the next cell and the one after the last is the first again. Turned so that the
next cell to be overwritten comes first, the cells are a window that moves over
the values. An index by key may come with the ring; it is kept up lazily, and
still leads to the newest value of every key.
-/

namespace LabLib

section Window
variable {α : Type}

/-- A write drops the oldest cell and adds one at the end. -/
theorem rotate_set_next {cells : List α} {next : Nat} (hn : next < cells.length) (a : α) :
    (cells.set next a).rotate ((next + 1) % cells.length) = (cells.rotate next).tail ++ [a] := by
  obtain ⟨pre, x, post, rfl, rfl⟩ : ∃ pre x post, cells = pre ++ x :: post ∧ pre.length = next :=
    ⟨cells.take next, cells[next], cells.drop (next + 1), by simp, by simp; omega⟩
  have hset : (pre ++ x :: post).set pre.length a = (pre ++ [a]) ++ post := by simp
  have hlength : (pre ++ x :: post).length = ((pre ++ [a]) ++ post).length := by simp
  rw [hset, hlength, List.rotate_mod, List.rotate_append_length_eq]
  rw [show pre.length + 1 = (pre ++ [a]).length by simp, List.rotate_append_length_eq]
  simp

theorem rtake_concat {l : List α} {n : Nat} (hn : 0 < n) (hl : n ≤ l.length) (a : α) :
    (l ++ [a]).rtake n = (l.rtake n).tail ++ [a] := by
  have hlength : (l ++ [a]).length - n = l.length - n + 1 := by
    rw [List.length_append, List.length_singleton]
    omega
  rw [List.rtake, List.rtake, hlength, List.drop_append_of_le_length (by omega), List.tail_drop]

/-- The ring comes back to a cell only after a whole round. -/
theorem slot_ne {k age len : Nat} (hk : k < len) (hage : age + 1 < len) : (k + 1 + age) % len ≠ k := by
  rcases Nat.lt_or_ge (k + 1 + age) len with h | h
  · rw [Nat.mod_eq_of_lt h]
    omega
  · rw [Nat.mod_eq_sub_mod h, Nat.mod_eq_of_lt (by omega)]
    omega

/-- The window over the values: empty cells in front until there are enough of them. -/
def window (n : Nat) (values : List α) : List (Option α) := (List.replicate n none ++ values.map some).rtake n

theorem window_nil (n : Nat) : window n ([] : List α) = List.replicate n none := by
  simp [window, List.rtake]

theorem window_concat {n : Nat} (hn : 0 < n) (values : List α) (a : α) :
    window n (values ++ [a]) = (window n values).tail ++ [some a] := by
  rw [window, List.map_append, ← List.append_assoc, List.map_singleton]
  exact rtake_concat hn (by simp) _

/-- Without the empty cells these are the last values. -/
theorem reduceOption_window (n : Nat) (values : List α) : (window n values).reduceOption = values.rtake n := by
  have hlength : (List.replicate n none ++ values.map some).length - n = values.length := by simp
  rw [window, List.rtake, hlength, List.drop_append, List.reduceOption_append]
  simp [List.reduceOption, List.rtake, List.filterMap_map, ← List.map_drop]

end Window

section Index
variable {α κ : Type} {key : α → κ} {cells : List (Option α)} {next : Nat} {index : HashMap κ Nat}

/-- `e` is the last one of its key. -/
structure Newest (key : α → κ) (l : List (Option α)) (pre : List (Option α)) (e : α) (post : List (Option α)) : Prop where
  split : l = pre ++ some e :: post
  last : ∀ e' : α, some e' ∈ post → key e' ≠ key e

theorem Newest.eq {l pre pre' post post' : List (Option α)} {e e' : α} (h : Newest key l pre e post)
    (h' : Newest key l pre' e' post') (hk : key e = key e') : pre = pre' ∧ e = e' ∧ post = post' := by
  have hsplit := h.split.symm.trans h'.split
  rcases List.append_eq_append_iff.1 hsplit with ⟨mid, hpre, htail⟩ | ⟨mid, hpre, htail⟩
  · cases mid with
    | nil => simp_all
    | cons x mid =>
      rw [List.cons_append, List.cons.injEq] at htail
      exact absurd hk.symm (h.last e' (by rw [htail.2]; simp))
  · cases mid with
    | nil => simp_all
    | cons x mid =>
      rw [List.cons_append, List.cons.injEq] at htail
      exact absurd hk (h'.last e (by rw [htail.2]; simp))

theorem Newest.length_lt {pre post : List (Option α)} {e : α} (h : Newest key (cells.rotate next) pre e post) :
    pre.length < cells.length := by
  rw [← List.length_rotate cells next, h.split]
  simp

theorem Newest.cell {pre post : List (Option α)} {e : α} (h : Newest key (cells.rotate next) pre e post) :
    cells[(next + pre.length) % cells.length]? = some (some e) := by
  rw [Nat.add_comm, ← List.getElem?_rotate h.length_lt, h.split]
  simp

variable [DecidableEq κ]

theorem exists_newest {l : List (Option α)} {e : α} (he : some e ∈ l) :
    ∃ pre e' post, Newest key l pre e' post ∧ key e' = key e := by
  have hsome : (l.reverse.find? fun x => x.map key = some (key e)).isSome := by
    rw [List.find?_isSome]
    exact ⟨some e, List.mem_reverse.2 he, by simp⟩
  obtain ⟨x, hx⟩ := Option.isSome_iff_exists.1 hsome
  obtain ⟨hkey, post, pre, hsplit, hlast⟩ := List.find?_eq_some_iff_append.1 hx
  obtain ⟨e', rfl, hk⟩ : ∃ e', x = some e' ∧ key e' = key e := by simpa using hkey
  refine ⟨pre.reverse, e', post.reverse, ⟨?_, ?_⟩, hk⟩
  · rw [← List.reverse_reverse l, hsplit]
    simp
  · intro e'' he'' hsame
    have := hlast _ (List.mem_reverse.1 he'')
    simp [hsame, hk] at this

/-- The newest value of a key, with the empty cells left out. -/
theorem Newest.find? {l pre post : List (Option α)} {e : α} (h : Newest key l pre e post) :
    l.reduceOption.reverse.find? (fun e' => key e' = key e) = some e := by
  have hnone : post.reduceOption.reverse.find? (fun e' => key e' = key e) = none := by
    rw [List.find?_eq_none]
    intro e' he' hk
    exact h.last e' (List.reduceOption_mem_iff.1 (List.mem_reverse.1 he')) (of_decide_eq_true hk)
  rw [h.split, List.reduceOption_append, List.reduceOption_cons_of_some, List.reverse_append, List.reverse_cons,
    List.append_assoc, List.find?_append, hnone]
  simp

/-- The index leads to the newest value of every key, and to nothing else. -/
def Indexed (key : α → κ) (cells : List (Option α)) (next : Nat) (index : HashMap κ Nat) : Prop :=
  ∀ k slot, index.lookup k = some slot ↔ ∃ pre e post, Newest key (cells.rotate next) pre e post ∧ key e = k ∧
    slot = (next + pre.length) % cells.length

variable (key) in
/-- The index without the value that is about to be overwritten, if it leads there. -/
def evict (cells : List (Option α)) (next : Nat) (index : HashMap κ Nat) : HashMap κ Nat :=
  match (cells[next]?).join with
  | some previous => if index.lookup (key previous) = some next then index.erase (key previous) else index
  | none => index

/-- What the index leads to is the newest value of its key. -/
theorem Indexed.newest (h : Indexed key cells next index) (k : κ) :
    (index.lookup k).bind (fun slot => (cells[slot]?).join) =
      (cells.rotate next).reduceOption.reverse.find? fun e => key e = k := by
  cases hk : index.lookup k with
  | none =>
    symm
    rw [Option.bind_none, List.find?_eq_none]
    intro e he hkey
    obtain ⟨pre, e', post, hnew, hsame⟩ : ∃ pre e' post, Newest key (cells.rotate next) pre e' post ∧ key e' = key e :=
      exists_newest (List.reduceOption_mem_iff.1 (List.mem_reverse.1 he))
    have hlookup := (h k _).2 ⟨pre, e', post, hnew, hsame.trans (of_decide_eq_true hkey), rfl⟩
    rw [hk] at hlookup
    cases hlookup
  | some slot =>
    obtain ⟨pre, e, post, hnew, rfl, rfl⟩ := (h k slot).1 hk
    rw [hnew.find?, Option.bind_some, hnew.cell]
    rfl

theorem Indexed.empty (n : Nat) : Indexed key (List.replicate n none) 0 ∅ := by
  intro k slot
  rw [Finmap.lookup_empty]
  constructor
  · intro h
    cases h
  · rintro ⟨pre, e, post, hnew, -⟩
    have hmem : some e ∈ List.replicate n (none : Option α) := by
      rw [List.rotate_zero] at hnew
      rw [hnew.split]
      simp
    cases List.eq_of_mem_replicate hmem

/-- Only what leads to the cell is taken out. -/
theorem Indexed.lookup_evict (h : Indexed key cells next index) (k : κ) (slot : Nat) :
    (evict key cells next index).lookup k = some slot ↔ index.lookup k = some slot ∧ slot ≠ next := by
  have hhere : index.lookup k = some next → ∃ e, (cells[next]?).join = some e ∧ key e = k := by
    intro hk
    obtain ⟨pre, e, post, hnew, hkey, hslot⟩ := (h k next).1 hk
    refine ⟨e, ?_, hkey⟩
    have hcell := hnew.cell
    rw [← hslot] at hcell
    rw [hcell]
    rfl
  rw [evict]
  cases hcell : (cells[next]?).join with
  | none =>
    refine ⟨fun hk => ⟨hk, ?_⟩, And.left⟩
    rintro rfl
    obtain ⟨e, he, -⟩ := hhere hk
    rw [hcell] at he
    cases he
  | some previous =>
    have hsame : index.lookup k = some next → key previous = k := by
      intro hk
      obtain ⟨e, he, hkey⟩ := hhere hk
      rw [hcell] at he
      cases he
      exact hkey
    dsimp only
    split
    · rename_i hprev
      rw [lookup_erase_eq]
      split
      · rename_i hkp
        subst hkp
        rw [hprev]
        simp
        omega
      · rename_i hne
        refine ⟨fun hk => ⟨hk, ?_⟩, And.left⟩
        rintro rfl
        exact hne (hsame hk).symm
    · rename_i hprev
      refine ⟨fun hk => ⟨hk, ?_⟩, And.left⟩
      rintro rfl
      rw [hsame hk] at hprev
      exact hprev hk

/-- A write keeps the index: an older value of its key, somewhere in the ring, does not matter. -/
theorem Indexed.write (h : Indexed key cells next index) (hn : next < cells.length) (e : α) :
    Indexed key (cells.set next (some e)) ((next + 1) % cells.length)
      ((evict key cells next index).insert (key e) next) := by
  obtain ⟨oldest, rest, hturned⟩ : ∃ oldest rest, cells.rotate next = oldest :: rest := by
    refine List.exists_cons_of_ne_nil fun hnil => ?_
    rw [List.rotate_eq_nil_iff] at hnil
    rw [hnil] at hn
    cases hn
  have hlength : rest.length + 1 = cells.length := by
    rw [← List.length_rotate cells next, hturned, List.length_cons]
  have hnow : (cells.set next (some e)).rotate ((next + 1) % cells.length) = rest ++ [some e] := by
    rw [rotate_set_next hn, hturned]
    rfl
  have hlatest : Newest key (rest ++ [some e]) rest e [] := ⟨rfl, fun _ he => absurd he List.not_mem_nil⟩
  have hslot : ((next + 1) % cells.length + rest.length) % cells.length = next := by
    rw [Nat.mod_add_mod, Nat.add_assoc, Nat.add_comm 1, hlength, Nat.add_mod_right, Nat.mod_eq_of_lt hn]
  intro k slot
  rw [hnow, List.length_set, lookup_insert_eq]
  by_cases hk : k = key e
  · rw [if_pos hk]
    constructor
    · intro hs
      cases hs
      exact ⟨rest, e, [], hlatest, hk.symm, hslot.symm⟩
    · rintro ⟨pre, e', post, hnew, hkey, rfl⟩
      obtain ⟨rfl, -, -⟩ := hnew.eq hlatest (hkey.trans hk)
      rw [hslot]
  · rw [if_neg hk, h.lookup_evict, h k slot, hturned]
    constructor
    · rintro ⟨⟨pre, e', post, hnew, hkey, rfl⟩, hne⟩
      cases pre with
      | nil => exact absurd (Nat.mod_eq_of_lt hn) hne
      | cons x pre =>
        obtain ⟨-, hrest⟩ := List.cons.inj hnew.split
        refine ⟨pre, e', post ++ [some e], ⟨by rw [hrest]; simp, ?_⟩, hkey, ?_⟩
        · intro e'' he''
          rcases List.mem_append.1 he'' with he'' | he''
          · exact hnew.last e'' he''
          · cases List.mem_singleton.1 he''
            rw [hkey]
            exact Ne.symm hk
        · rw [Nat.mod_add_mod, List.length_cons]
          congr 1
          omega
    · rintro ⟨pre, e', post, hnew, hkey, rfl⟩
      -- The value just written has another key, so it is behind the one in question.
      rcases List.eq_nil_or_concat post with rfl | ⟨post, last, rfl⟩
      · have hlast := congrArg List.getLast? hnew.split
        rw [List.getLast?_concat, List.getLast?_concat] at hlast
        cases hlast
        exact absurd hkey.symm hk
      · have hsplit : rest ++ [some e] = (pre ++ some e' :: post) ++ [last] := by
          rw [hnew.split]
          simp
        obtain ⟨hrest, hlast⟩ := List.append_inj' hsplit rfl
        have hmod : ((next + 1) % cells.length + pre.length) % cells.length =
            (next + (oldest :: pre).length) % cells.length := by
          rw [Nat.mod_add_mod, List.length_cons]
          congr 1
          omega
        refine ⟨⟨oldest :: pre, e', post, ⟨by rw [hrest]; rfl, ?_⟩, hkey, hmod⟩, ?_⟩
        · intro e'' he''
          exact hnew.last e'' (by simp [he''])
        · have hshort : pre.length + 1 < cells.length := by
            have := congrArg List.length hrest
            simp at this
            omega
          rw [Nat.mod_add_mod]
          exact slot_ne hn hshort

end Index

end LabLib
