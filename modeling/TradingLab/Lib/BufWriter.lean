import Mathlib
/-!
# Buffered writers

A writer with a buffer in front of a sink that may take any part of what it is given
and then fail. Whatever happens, the sink and the buffer together hold what was
written, in order; only the write that fails may leave a part of its data.
-/

namespace LabLib

structure BufWriter (β : Type) where
  capacity : Nat
  buffer : List β
  sink : List β

namespace BufWriter
variable {β : Type} {w w' : BufWriter β} {data : List β} {accepted : Nat} {ok : Bool}

/-- The sink accepts a number of elements; with all of them the buffer is flushed. -/
def flush_buf (w : BufWriter β) (accepted : Nat) : BufWriter β × Bool :=
  ({ w with buffer := w.buffer.drop accepted, sink := w.sink ++ w.buffer.take accepted }, w.buffer.length ≤ accepted)

/-- Data that would fill an empty buffer goes to the sink at once. -/
def place (w : BufWriter β) (data : List β) (accepted : Nat) : BufWriter β × Bool :=
  if w.capacity ≤ data.length then ({ w with sink := w.sink ++ data.take accepted }, data.length ≤ accepted)
  else ({ w with buffer := w.buffer ++ data }, true)

def write_all (w : BufWriter β) (data : List β) (accepted : Nat) : BufWriter β × Bool :=
  if w.capacity - w.buffer.length < data.length then
    match w.flush_buf accepted with
    | (flushed, true) => flushed.place data (accepted - w.buffer.length)
    | (stuck, false) => (stuck, false)
  else w.place data accepted

/-- All that was written so far. -/
def written (w : BufWriter β) : List β := w.sink ++ w.buffer

theorem flush_buf_written (h : w.flush_buf accepted = (w', ok)) :
    w'.written = w.written ∧ (ok = true → w'.buffer = []) := by
  cases h
  refine ⟨?_, fun hok => ?_⟩
  · rw [written, written, List.append_assoc, List.take_append_drop]
  · exact List.drop_eq_nil_of_le (of_decide_eq_true hok)

/-- A write that succeeds adds its data; one that fails adds a part of it at most. -/
structure Writes (w : BufWriter β) (data : List β) (w' : BufWriter β) (ok : Bool) : Prop where
  part : ∃ k, w'.written = w.written ++ data.take k
  all : ok = true → w'.written = w.written ++ data

theorem place_writes (hbuffer : w.capacity ≤ data.length → data = [] ∨ w.buffer = [])
    (h : w.place data accepted = (w', ok)) : Writes w data w' ok := by
  rw [place] at h
  split at h
  · rename_i hlarge
    cases h
    have hpart : ({ w with sink := w.sink ++ data.take accepted } : BufWriter β).written =
        w.written ++ data.take accepted := by
      rcases hbuffer hlarge with hnil | hnil <;> simp [written, hnil]
    refine ⟨⟨accepted, hpart⟩, fun hok => ?_⟩
    rw [hpart, List.take_of_length_le (of_decide_eq_true hok)]
  · cases h
    have hall : ({ w with buffer := w.buffer ++ data } : BufWriter β).written = w.written ++ data := by
      simp [written]
    exact ⟨⟨data.length, by rw [List.take_length, hall]⟩, fun _ => hall⟩

theorem write_all_writes (h : w.write_all data accepted = (w', ok)) : Writes w data w' ok := by
  rw [write_all] at h
  split at h
  · split at h
    · rename_i flushed hflush
      obtain ⟨hwritten, hempty⟩ := flush_buf_written hflush
      obtain ⟨hpart, hall⟩ := place_writes (fun _ => .inr (hempty rfl)) h
      rw [hwritten] at hpart hall
      exact ⟨hpart, hall⟩
    · rename_i stuck hflush
      cases h
      exact ⟨⟨0, by rw [(flush_buf_written hflush).1, List.take_zero, List.append_nil]⟩, nofun⟩
  · rename_i hroom
    refine place_writes (fun hlarge => ?_) h
    by_cases hdata : data.length = 0
    · exact .inl (List.length_eq_zero_iff.1 hdata)
    · exact .inr (List.length_eq_zero_iff.1 (by omega))

/-! ## What reached the sink stays there -/

theorem flush_buf_sink (h : w.flush_buf accepted = (w', ok)) : w.sink <+: w'.sink := by
  cases h
  exact List.prefix_append _ _

theorem place_sink (h : w.place data accepted = (w', ok)) : w.sink <+: w'.sink := by
  rw [place] at h
  split at h
  · cases h
    exact List.prefix_append _ _
  · cases h
    exact List.prefix_rfl

theorem write_all_sink (h : w.write_all data accepted = (w', ok)) : w.sink <+: w'.sink := by
  rw [write_all] at h
  split at h
  · split at h
    · rename_i hflush
      exact (flush_buf_sink hflush).trans (place_sink h)
    · rename_i hflush
      cases h
      exact flush_buf_sink hflush
  · exact place_sink h

end BufWriter

end LabLib
