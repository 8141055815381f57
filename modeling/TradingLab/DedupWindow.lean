import TradingLab.Account
import TradingLab.Lib.Ring
/-!
# The deduplication window

The request cache of an account is a ring with an index. It behaves as the list
of the last outcomes recorded: a request id is found as long as it is in that
list, with its newest entry.
-/
open LabLib

namespace TradingLab

/-- The cache after these entries have been recorded, the first one first. -/
def RequestCache.recordAll (cache : RequestCache) (records : List CachedRequest) : RequestCache :=
  records.foldl (fun cache entry => cache.record entry.request_id entry.fingerprint entry.outcome) cache

/-- What `lookup` makes of an entry. -/
def CachedRequest.hit (entry : CachedRequest) (fingerprint : UInt64) : CacheHit :=
  if entry.fingerprint = fingerprint then .Retry entry.outcome else .Conflict

section Cache
variable {cache : RequestCache} {n : Nat} {records : List CachedRequest}

/-- The cache is the window of the last `n` records. -/
structure RequestCache.Retains (cache : RequestCache) (n : Nat) (records : List CachedRequest) : Prop where
  size : cache.entries.length = n
  cells : cache.entries.rotate cache.next = window n records
  indexed : Indexed CachedRequest.request_id cache.entries cache.next cache.index

theorem RequestCache.record_index (cache : RequestCache) (entry : CachedRequest) :
    (cache.record entry.request_id entry.fingerprint entry.outcome).index =
      (evict CachedRequest.request_id cache.entries cache.next cache.index).insert entry.request_id cache.next := by
  have hcell : (cache.entries[cache.next]?).join = cache.entries.get ⟨cache.next, cache.next_lt⟩ := by
    rw [List.getElem?_eq_getElem cache.next_lt]
    rfl
  rw [record, evict, hcell]
  cases cache.entries.get ⟨cache.next, cache.next_lt⟩ <;> rfl

theorem retains_new (capacity : Nat) : (RequestCache.new capacity).Retains (max capacity 1) [] where
  size := by simp [RequestCache.new]
  cells := by
    rw [window_nil]
    exact List.rotate_zero _
  indexed := Indexed.empty _

/-- The oldest entry goes when there is no room for another one. -/
theorem RequestCache.Retains.record (h : cache.Retains n records) (entry : CachedRequest) :
    (cache.record entry.request_id entry.fingerprint entry.outcome).Retains n (records ++ [entry]) where
  size := by
    rw [← h.size]
    exact List.length_set
  cells := by
    have hpos : 0 < n := by
      rw [← h.size]
      exact Nat.lt_of_le_of_lt (Nat.zero_le _) cache.next_lt
    rw [window_concat hpos, ← h.cells]
    exact rotate_set_next cache.next_lt _
  indexed := by
    rw [record_index]
    exact h.indexed.write cache.next_lt entry

theorem remembers_recordAll (capacity : Nat) (records : List CachedRequest) :
    ((RequestCache.new capacity).recordAll records).Retains (max capacity 1) records := by
  induction records using List.reverseRecOn with
  | nil => exact retains_new capacity
  | append_singleton records entry ih =>
    rw [RequestCache.recordAll, List.foldl_append]
    exact ih.record entry

theorem RequestCache.Retains.canonical_entries (h : cache.Retains n records) :
    cache.canonical_entries =
      (records.rtake n).map fun entry => (entry.request_id, entry.fingerprint, entry.outcome) := by
  have hturned : ((List.range cache.entries.length).map fun offset =>
      (cache.entries[(cache.next + offset) % cache.entries.length]?).join) = cache.entries.rotate cache.next := by
    refine List.ext_getElem (by simp) fun k hk hk' => ?_
    have hlt : k < cache.entries.length := by simpa using hk
    have hcell := List.getElem?_rotate (n := cache.next) hlt
    rw [List.getElem?_eq_getElem hk', Nat.add_comm] at hcell
    rw [List.getElem_map, List.getElem_range, ← hcell]
    rfl
  rw [RequestCache.canonical_entries, ← reduceOption_window, ← h.cells, ← hturned]
  simp only [List.reduceOption, List.filterMap_map]
  rfl

theorem RequestCache.Retains.lookup (h : cache.Retains n records) (id : RequestId) (fingerprint : UInt64) :
    cache.lookup id fingerprint = ((records.rtake n).reverse.find? fun entry => entry.request_id = id).map fun entry =>
      entry.hit fingerprint := by
  have hnewest := h.indexed.newest id
  rw [h.cells, reduceOption_window] at hnewest
  have hlookup : cache.lookup id fingerprint =
      ((cache.index.lookup id).bind fun slot => (cache.entries[slot]?).join).bind fun entry =>
        if entry.request_id ≠ id then none
        else if entry.fingerprint = fingerprint then some (.Retry entry.outcome) else some .Conflict := by
    rw [RequestCache.lookup, Option.bind_assoc]
    rfl
  rw [hlookup, hnewest]
  cases hfind : (records.rtake n).reverse.find? fun entry => entry.request_id = id with
  | none => rfl
  | some entry =>
    have hid : entry.request_id = id := by simpa using List.find?_some hfind
    rw [Option.bind_some, Option.map_some, CachedRequest.hit, if_neg (not_not.2 hid)]
    split <;> rfl

end Cache

/-- Whatever is recorded, and under whatever ids, the cache answers from the last
entries: not at all for an id that is not among them, and from the newest entry
of the id otherwise. -/
theorem cache_is_window (capacity : Nat) (records : List CachedRequest) :
    let cache := (RequestCache.new capacity).recordAll records
    let last := records.rtake (max 1 capacity)
    cache.canonical_entries = last.map (fun entry => (entry.request_id, entry.fingerprint, entry.outcome)) ∧
      ∀ id fingerprint, (cache.lookup id fingerprint = none ↔ ∀ entry ∈ last, entry.request_id ≠ id) ∧
        cache.lookup id fingerprint =
          (last.reverse.find? fun entry => entry.request_id = id).map fun entry => entry.hit fingerprint := by
  intro cache last
  have h : cache.Retains (max 1 capacity) records := by
    rw [Nat.max_comm]
    exact remembers_recordAll capacity records
  refine ⟨h.canonical_entries, fun id fingerprint => ⟨?_, h.lookup id fingerprint⟩⟩
  rw [h.lookup, Option.map_eq_none_iff, List.find?_eq_none]
  simp [last]

end TradingLab
