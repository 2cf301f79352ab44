import MoenotesApi.Client.Operation
import MoenotesApi.Library.Map
import Mathlib.Data.List.MinMax

/-!
# The entries of the query cache

The data of `cache.rs` that the state lock protects, and what a critical section does to it.

* `Key`, `CachedResponse`, `Entry`, `CacheOptions`;
* `Store`: the map of entries and the byte counter;
* `Store.purge`: the `retain` of a lookup; `Store.evict`, `Store.insert`: the completion of a flight.

Times are in nanoseconds.  `min_by_key` takes the first of the least recently touched entries in the
order of the map, which is arbitrary: the machine may rearrange the entries at any time.
-/

namespace MoenotesApi

structure Key where
  generation : ℕ
  method : String
  request : List UInt8
  deriving DecidableEq, Repr

/-- The key of a query under a generation. -/
def Query.key (query : Query) (generation : ℕ) : Key :=
  ⟨generation, query.method.name, query.request⟩

/-- `QueryResponse`. -/
structure QueryResponse where
  message : Message
  fetchedAt : ℕ
  generation : ℕ
  deriving DecidableEq, Repr

structure CachedResponse (J : Type) where
  json : J
  fetchedAt : ℕ
  size : ℕ
  deriving DecidableEq, Repr

structure Entry (J : Type) where
  response : CachedResponse J
  expires : ℕ
  touched : ℕ
  deriving DecidableEq, Repr

structure CacheOptions where
  ttl : ℕ
  capacity : ℕ
  maxBytes : ℕ
  maxInflight : ℕ
  deriving DecidableEq, Repr

/-- `CacheOptions::validate`. -/
def CacheOptions.validate (opt : CacheOptions) : Except ClientError Unit :=
  .refuse (3600 * 10 ^ 9 < opt.ttl ∨ 16384 < opt.capacity) badConfig

/-- `to_json` of the protocol crate, and the length of `serde_json::to_vec`. -/
structure Codec (J : Type) where
  toJson : Message → Option J
  size : J → Option ℕ

/-- The cache and its byte counter. -/
structure Store (J : Type) where
  cache : Map Key (Entry J)
  bytes : ℕ

namespace Store

variable {J : Type} {k : Key}

def empty : Store J := ⟨∅, 0⟩

/-- The sizes of the entries, summed up. -/
def sizes (cache : Map Key (Entry J)) : ℕ :=
  (cache.entries.map fun e => e.2.response.size).sum

/-- What a lookup under `generation` does first: entries of other generations and expired entries
go. -/
def purge (s : Store J) (generation now : ℕ) : Store J :=
  let cache := s.cache.retain fun k e => k.generation = generation ∧ now < e.expires
  ⟨cache, sizes cache⟩

/-- The least recently touched entry. -/
def oldest (s : Store J) : Option ((_ : Key) × Entry J) :=
  s.cache.entries.argmin fun e => e.2.touched

/-- Whether a response of `size` bytes needs no further eviction. -/
def fits (s : Store J) (opt : CacheOptions) (size : ℕ) : Bool :=
  s.cache.entries.isEmpty ||
    s.cache.entries.length < opt.capacity && s.bytes + size ≤ opt.maxBytes

/-- One round of the eviction loop. -/
def removeOldest (s : Store J) : Store J :=
  match s.oldest with
  | none => s
  | some e => ⟨s.cache.erase e.1, s.bytes - e.2.response.size⟩

/-- At most `n` rounds of the eviction loop. -/
def evict (opt : CacheOptions) (size : ℕ) : ℕ → Store J → Store J
  | 0, s => s
  | n + 1, s => if s.fits opt size then s else evict opt size n s.removeOldest

/-- The insertion of a response, after the eviction loop. -/
def insert (s : Store J) (opt : CacheOptions) (k : Key) (response : CachedResponse J) (now : ℕ) :
    Store J :=
  let s := s.evict opt response.size s.cache.entries.length
  ⟨s.cache.insert k ⟨response, now + opt.ttl, now⟩, s.bytes + response.size⟩

/-! ### What the operations keep -/

theorem lookup_purge (s : Store J) (generation now : ℕ) (k : Key) :
    (s.purge generation now).cache.lookup k =
      (s.cache.lookup k).filter fun e => k.generation = generation ∧ now < e.expires :=
  Map.lookup_retain _ _ _

theorem lookup_removeOldest (s : Store J) (k : Key) :
    s.removeOldest.cache.lookup k = s.cache.lookup k ∨ s.removeOldest.cache.lookup k = none := by
  unfold removeOldest
  split
  · exact .inl rfl
  · next e _ =>
    by_cases hk : k = e.1
    · subst hk
      exact .inr (AList.lookup_erase _ _)
    · exact .inl (AList.lookup_erase_ne hk)

/-- The eviction loop only removes entries. -/
theorem lookup_evict (opt : CacheOptions) (size n : ℕ) (s : Store J) (k : Key) :
    (s.evict opt size n).cache.lookup k = s.cache.lookup k ∨
      (s.evict opt size n).cache.lookup k = none := by
  induction n generalizing s with
  | zero => exact .inl rfl
  | succ n ih =>
    unfold evict
    split_ifs
    · exact .inl rfl
    · rcases ih s.removeOldest with h | h
      · rw [h]
        exact s.lookup_removeOldest k
      · exact .inr h

theorem length_removeOldest {s : Store J} (h : s.cache.entries ≠ []) :
    s.removeOldest.cache.entries.length < s.cache.entries.length := by
  obtain ⟨e, he⟩ : ∃ e, s.oldest = some e := by
    by_contra hnone
    simp only [not_exists, ← Option.eq_none_iff_forall_ne_some] at hnone
    exact h (List.argmin_eq_none.1 hnone)
  have hmem : e ∈ s.cache.entries := List.argmin_mem he
  have hkey : e.1 ∈ s.cache.keys := List.mem_keys_of_mem hmem
  have hlen : (s.cache.erase e.1).entries.length + 1 = s.cache.entries.length := by
    have := congrArg List.length (AList.keys_erase e.1 s.cache)
    rw [List.length_erase_of_mem hkey] at this
    have hpos := List.length_pos_of_mem hkey
    simp only [AList.keys, List.keys, List.length_map] at this hpos
    omega
  simp only [removeOldest, he]
  omega

/-- The loop runs until the response fits. -/
theorem fits_evict (opt : CacheOptions) (size : ℕ) {n : ℕ} {s : Store J}
    (h : s.cache.entries.length ≤ n) : (s.evict opt size n).fits opt size = true := by
  induction n generalizing s with
  | zero =>
    have : s.cache.entries = [] := by simpa using h
    simp [evict, fits, this]
  | succ n ih =>
    unfold evict
    split_ifs with hfits
    · exact hfits
    · refine ih ?_
      have hne : s.cache.entries ≠ [] := by
        rintro hnil
        simp [fits, hnil] at hfits
      have := length_removeOldest hne
      omega

theorem lookup_insert (s : Store J) (opt : CacheOptions) (k : Key) (response : CachedResponse J)
    (now : ℕ) : (s.insert opt k response now).cache.lookup k =
      some ⟨response, now + opt.ttl, now⟩ := AList.lookup_insert _

theorem lookup_insert_of_ne (s : Store J) (opt : CacheOptions) {k k' : Key} (h : k' ≠ k)
    (response : CachedResponse J) (now : ℕ) :
    (s.insert opt k response now).cache.lookup k' = s.cache.lookup k' ∨
      (s.insert opt k response now).cache.lookup k' = none := by
  have hi : (s.insert opt k response now).cache.lookup k' =
      (s.evict opt response.size s.cache.entries.length).cache.lookup k' :=
    AList.lookup_insert_ne h
  rw [hi]
  exact lookup_evict _ _ _ _ _

end Store

end MoenotesApi
