import Mathlib
/-!
# Files that grow while they are read

A reader of a file that another party still writes. Before each call of `read` more of
the file may become visible; the call hands over as much as it likes of what is behind
the position, within the room there is, and nothing only if there is nothing.
-/

namespace LabLib

/-- A file, and what will be appended to it. -/
structure GrowingFile (α : Type) where
  visible : List α
  hidden : List α
deriving DecidableEq, Repr

/-- What happens at a call: how much is appended before it, and how much more than one
item it hands over at most. -/
structure ReadCall where
  grown : Nat
  more : Nat
deriving DecidableEq, Repr

namespace GrowingFile
variable {α : Type}

def grow (file : GrowingFile α) (n : Nat) : GrowingFile α where
  visible := file.visible ++ file.hidden.take n
  hidden := file.hidden.drop n

/-- The file when all is written. -/
def whole (file : GrowingFile α) : List α := file.visible ++ file.hidden

def read (file : GrowingFile α) (position room : Nat) (call : ReadCall) : List α × GrowingFile α :=
  (((file.grow call.grown).visible.drop position).take (min room (call.more + 1)), file.grow call.grown)

/-- Reads on until a call hands over nothing; a call past the end of `calls` meets a file
that no longer grows. -/
def read_chunks (room : Nat) : Nat → List ReadCall → GrowingFile α → Nat → List α × GrowingFile α
  | 0, _, file, _ => ([], file)
  | fuel + 1, calls, file, position =>
    let (chunk, file) := file.read position room (calls.headD ⟨0, room⟩)
    if chunk.length = 0 then ([], file)
    else
      let (rest, file) := read_chunks room fuel calls.tail file (position + chunk.length)
      (chunk ++ rest, file)

/-- The loop ends once all of the file has been read. -/
def read_to_end (room : Nat) (calls : List ReadCall) (file : GrowingFile α) (position : Nat) : List α × GrowingFile α :=
  read_chunks room (file.whole.length + 1) calls file position

/-- Reads on until there are `len` items, from the start of the file. -/
def read_filled (len : Nat) : Nat → List ReadCall → GrowingFile α → List α → Option (List α) × GrowingFile α
  | 0, _, file, filled => (if filled.length < len then none else some filled, file)
  | fuel + 1, calls, file, filled =>
    if filled.length < len then
      let (chunk, file) := file.read filled.length (len - filled.length) (calls.headD ⟨0, len⟩)
      if chunk.length = 0 then (none, file) else read_filled len fuel calls.tail file (filled ++ chunk)
    else (some filled, file)

/-- Each round fills in some of what is missing, or is the last. -/
def read_exact (len : Nat) (calls : List ReadCall) (file : GrowingFile α) : Option (List α) × GrowingFile α :=
  read_filled len len calls file []

/-! ## What the loops read -/

variable {file : GrowingFile α} {calls : List ReadCall}

theorem grow_zero (file : GrowingFile α) : file.grow 0 = file := by
  simp [grow]

theorem grow_grow (file : GrowingFile α) (m n : Nat) : (file.grow m).grow n = file.grow (m + n) := by
  simp [grow, List.take_add]

@[simp] theorem whole_grow (file : GrowingFile α) (n : Nat) : (file.grow n).whole = file.whole := by
  simp [grow, whole]

theorem visible_grow (file : GrowingFile α) (n : Nat) : file.visible <+: (file.grow n).visible :=
  List.prefix_append _ _

theorem visible_le_whole (file : GrowingFile α) : file.visible.length ≤ file.whole.length := by
  rw [whole, List.length_append]
  exact Nat.le_add_right _ _

theorem visible_eq_take (file : GrowingFile α) : file.visible = file.whole.take file.visible.length :=
  (List.take_left).symm

/-- What is visible stays as it is. -/
theorem slice_grow (file : GrowingFile α) (n : Nat) {a b : Nat} (h : a + b ≤ file.visible.length) :
    ((file.grow n).visible.drop a).take b = (file.visible.drop a).take b := by
  rw [grow, List.drop_append_of_le_length (by omega), List.take_append_of_le_length (by rw [List.length_drop]; omega)]

/-- One call hands over what comes next, and nothing only at the end. -/
theorem read_reads {position room : Nat} {call : ReadCall} (hroom : 0 < room) (hposition : position ≤ file.visible.length) :
    ∃ chunk, file.read position room call = (chunk, file.grow call.grown) ∧
      chunk = ((file.grow call.grown).visible.drop position).take chunk.length ∧
      position + chunk.length ≤ (file.grow call.grown).visible.length ∧ chunk.length ≤ room ∧
      (chunk.length = 0 → (file.grow call.grown).visible.length = position) := by
  have hle := (file.visible_grow call.grown).length_le
  have hlength : (((file.grow call.grown).visible.drop position).take (min room (call.more + 1))).length =
      min (min room (call.more + 1)) ((file.grow call.grown).visible.length - position) := by
    rw [List.length_take, List.length_drop]
  refine ⟨_, rfl, ?_, by omega, by omega, fun hzero => by omega⟩
  rw [List.length_take, ← List.take_eq_take_min]

/-- With more fuel than there is left of the file, the loop reads all that is visible when
it ends. -/
theorem read_chunks_reads {room : Nat} (hroom : 0 < room) {fuel position : Nat} (hposition : position ≤ file.visible.length)
    (hfuel : file.whole.length < position + fuel) :
    ∃ n, (read_chunks room fuel calls file position).2 = file.grow n ∧
      (read_chunks room fuel calls file position).1 = (file.grow n).visible.drop position := by
  induction fuel generalizing calls file position with
  | zero => exact absurd hfuel (by have := file.visible_le_whole; omega)
  | succ fuel ih =>
    rw [read_chunks]
    set call := calls.headD ⟨0, room⟩
    obtain ⟨chunk, hread, hchunk, hend, -, hlast⟩ := @read_reads α file position room call hroom hposition
    rw [hread]
    dsimp only
    split
    · rename_i hzero
      refine ⟨call.grown, rfl, ?_⟩
      rw [List.drop_eq_nil_of_le (hlast hzero).le]
    · obtain ⟨n, hfile, hrest⟩ := @ih (file.grow call.grown) calls.tail (position + chunk.length) hend
        (by rw [whole_grow]; omega)
      rw [grow_grow] at hfile hrest
      refine ⟨call.grown + n, hfile, ?_⟩
      have hstill : chunk = ((file.grow (call.grown + n)).visible.drop position).take chunk.length := by
        rw [← grow_grow, slice_grow _ n hend]
        exact hchunk
      calc chunk ++ (read_chunks room fuel calls.tail (file.grow call.grown) (position + chunk.length)).1
        _ = ((file.grow (call.grown + n)).visible.drop position).take chunk.length ++
              ((file.grow (call.grown + n)).visible.drop position).drop chunk.length := by
            rw [hrest, List.drop_drop, ← hstill]
        _ = (file.grow (call.grown + n)).visible.drop position := List.take_append_drop _ _

theorem read_to_end_reads {room : Nat} (hroom : 0 < room) {position : Nat} (hposition : position ≤ file.visible.length) :
    ∃ n, (read_to_end room calls file position).2 = file.grow n ∧
      (read_to_end room calls file position).1 = (file.grow n).visible.drop position :=
  read_chunks_reads hroom hposition (by omega)

theorem read_filled_reads {len fuel : Nat} {filled : List α} (hfilled : filled = file.visible.take filled.length)
    (hvisible : filled.length ≤ file.visible.length) (hlen : filled.length ≤ len) (hfuel : len ≤ filled.length + fuel) :
    ∃ n, (read_filled len fuel calls file filled).2 = file.grow n ∧
      (read_filled len fuel calls file filled).1 =
        if (file.grow n).visible.length < len then none else some ((file.grow n).visible.take len) := by
  -- When enough has been read the rounds are over.
  have hdone : ¬filled.length < len → some filled =
      if (file.grow 0).visible.length < len then none else some ((file.grow 0).visible.take len) := by
    intro hnot
    obtain rfl : len = filled.length := by omega
    rw [grow_zero, if_neg (by omega), ← hfilled]
  induction fuel generalizing calls file filled with
  | zero => exact ⟨0, (grow_zero _).symm, by rw [read_filled, if_neg (by omega), hdone (by omega)]⟩
  | succ fuel ih =>
    rw [read_filled]
    split
    · set call := calls.headD ⟨0, len⟩
      obtain ⟨chunk, hread, hchunk, hend, hroom, hlast⟩ :=
        @read_reads α file filled.length (len - filled.length) call (by omega) hvisible
      rw [hread]
      dsimp only
      split
      · rename_i hzero
        exact ⟨call.grown, rfl, by rw [hlast hzero, if_pos (by assumption)]⟩
      · have hmore : filled ++ chunk = (file.grow call.grown).visible.take (filled ++ chunk).length := by
          have hold : (file.grow call.grown).visible.take filled.length = filled := by
            have hslice := file.slice_grow call.grown (show 0 + filled.length ≤ file.visible.length by omega)
            rw [List.drop_zero, List.drop_zero] at hslice
            rw [hslice, ← hfilled]
          rw [List.length_append, List.take_add, hold, ← hchunk]
        have hlength : (filled ++ chunk).length = filled.length + chunk.length := List.length_append
        obtain ⟨n, hfile, hresult⟩ := @ih (file.grow call.grown) calls.tail (filled ++ chunk) hmore (by omega) (by omega)
          (by omega) (fun hnot => by
            rw [grow_zero, if_neg (by omega), show len = (filled ++ chunk).length by omega, ← hmore])
        rw [grow_grow] at hfile hresult
        exact ⟨call.grown + n, hfile, hresult⟩
    · rename_i hnot
      exact ⟨0, (grow_zero _).symm, hdone hnot⟩

theorem read_exact_reads (len : Nat) :
    ∃ n, (read_exact len calls file).2 = file.grow n ∧
      (read_exact len calls file).1 =
        if (file.grow n).visible.length < len then none else some ((file.grow n).visible.take len) :=
  read_filled_reads rfl (Nat.zero_le _) (Nat.zero_le _) (by simp)

end GrowingFile

end LabLib
