import MoenotesApi.Cache.Flights
import Mathlib.Data.List.Sort

/-!
# Accounting and eviction

`cache.rs` keeps the number of stored bytes in a counter, which a lookup recomputes and the end of a
flight updates entry by entry.

* `Store.Accounted`: the counter is the sum of the sizes;
* `Store.Evicted`: what the eviction loop has removed, oldest first and no more than necessary;
* `Limits`: the invariant of the store;
* `cache_accounting`: the main result.
-/

namespace MoenotesApi

variable {J : Type}

/-- An entry with its key, as it is stored. -/
abbrev Stored (J : Type) := (_ : Key) × Entry J

namespace Store

variable {opt : CacheOptions} {size n : ℕ} {s : Store J}

/-- The size of the response of an entry. -/
def entrySize (e : Stored J) : ℕ := e.2.response.size

/-- When an entry was touched last. -/
def entryTouched (e : Stored J) : ℕ := e.2.touched

/-- There is room for a response of `size` bytes beside these entries. -/
def Room (opt : CacheOptions) (size : ℕ) (es : List (Stored J)) : Prop :=
  es.length < opt.capacity ∧ (es.map entrySize).sum + size ≤ opt.maxBytes

/-- The byte counter is the sum of the sizes. -/
def Accounted (s : Store J) : Prop := s.bytes = (s.cache.entries.map entrySize).sum

theorem Room.perm {es fs : List (Stored J)} (h : Room opt size es) (hp : es.Perm fs) :
    Room opt size fs := by
  obtain ⟨hlen, hsum⟩ := h
  exact ⟨hp.length_eq ▸ hlen, (hp.map entrySize).sum_eq ▸ hsum⟩

theorem fits_iff (h : s.Accounted) :
    s.fits opt size = true ↔ s.cache.entries = [] ∨ Room opt size s.cache.entries := by
  unfold fits Room
  rw [← show s.bytes = _ from h]
  simp

/-! ### One round of the loop -/

theorem perm_cons_erase {s : Map Key (Entry J)} {e : Stored J} (h : e ∈ s.entries) :
    (e :: (s.erase e.1).entries).Perm s.entries := by
  obtain ⟨k, v⟩ := e
  obtain ⟨v', l, r, hk, hs, herase⟩ := List.exists_of_kerase (List.mem_keys_of_mem h)
  have hv : v' = v := by
    have hv' : s.lookup k = some v' := Map.lookup_eq_some.2 (by rw [hs]; simp)
    exact Option.some.inj (hv'.symm.trans (Map.lookup_eq_some.2 h))
  subst hv
  rw [show (s.erase k).entries = s.entries.kerase k from rfl, herase, hs]
  exact List.perm_middle.symm

/-- A round removes one of the oldest entries, and the counter is large enough for the
subtraction. -/
theorem removeOldest_spec (hne : s.cache.entries ≠ []) (h : s.Accounted) :
    ∃ e, s.oldest = some e ∧ (e :: s.removeOldest.cache.entries).Perm s.cache.entries ∧
      (∀ e' ∈ s.cache.entries, entryTouched e ≤ entryTouched e') ∧ entrySize e ≤ s.bytes ∧
      s.removeOldest.Accounted := by
  obtain ⟨e, he⟩ : ∃ e, s.oldest = some e := by
    by_contra hnone
    simp only [not_exists, ← Option.eq_none_iff_forall_ne_some] at hnone
    exact hne (List.argmin_eq_none.1 hnone)
  have hmem : e ∈ s.cache.entries := List.argmin_mem he
  have hperm := perm_cons_erase hmem
  have hremove : s.removeOldest = ⟨s.cache.erase e.1, s.bytes - entrySize e⟩ := by
    unfold removeOldest
    rw [he]
    rfl
  have hbytes : entrySize e + ((s.cache.erase e.1).entries.map entrySize).sum = s.bytes := by
    rw [show s.bytes = _ from h, ← (hperm.map entrySize).sum_eq, List.map_cons, List.sum_cons]
  refine ⟨e, he, by rw [hremove]; exact hperm, ?_, by omega, ?_⟩
  · exact fun e' he' => List.le_of_mem_argmin he' he
  · rw [hremove]
    show s.bytes - entrySize e = ((s.cache.erase e.1).entries.map entrySize).sum
    omega

/-! ### The loop -/

theorem Accounted.evict (h : s.Accounted) (n : ℕ) : (s.evict opt size n).Accounted := by
  induction n generalizing s with
  | zero => exact h
  | succ n ih =>
    unfold Store.evict
    split_ifs with hfits
    · exact h
    · have hne : s.cache.entries ≠ [] := fun hnil => hfits ((fits_iff h).2 (.inl hnil))
      obtain ⟨-, -, -, -, -, h'⟩ := removeOldest_spec hne h
      exact ih h'

/-- The loop has removed `removed`, in this order: the oldest entries, ascending, and at every
moment there was no room yet. -/
structure Evicted (opt : CacheOptions) (size : ℕ) (s s' : Store J) (removed : List (Stored J)) :
    Prop where
  perm : (removed ++ s'.cache.entries).Perm s.cache.entries
  ascending : removed.Pairwise fun e e' => entryTouched e ≤ entryTouched e'
  older : ∀ e ∈ removed, ∀ e' ∈ s'.cache.entries, entryTouched e ≤ entryTouched e'
  shortest : ∀ k < removed.length, ¬ Room opt size (removed.drop k ++ s'.cache.entries)

/-- The loop stops without a round. -/
theorem Evicted.none : Evicted opt size s s [] where
  perm := .refl _
  ascending := .nil
  older _ he := absurd he List.not_mem_nil
  shortest _ hk := absurd hk (Nat.not_lt_zero _)

theorem exists_evicted (h : s.Accounted) (hn : s.cache.entries.length ≤ n) :
    ∃ removed, Evicted opt size s (s.evict opt size n) removed := by
  induction n generalizing s with
  | zero => exact ⟨[], .none⟩
  | succ n ih =>
    unfold Store.evict
    split_ifs with hfits
    · exact ⟨[], .none⟩
    · have hne : s.cache.entries ≠ [] := fun hnil => hfits ((fits_iff h).2 (.inl hnil))
      obtain ⟨e, -, hperm, hmin, -, h'⟩ := removeOldest_spec hne h
      have hlen := length_removeOldest hne
      obtain ⟨removed, hev⟩ := ih h' (by omega)
      -- the entries after the round are the later removed ones and the kept ones
      have hrest : ∀ e' ∈ removed ++ (s.removeOldest.evict opt size n).cache.entries,
          entryTouched e ≤ entryTouched e' := fun e' he' =>
        hmin e' (hperm.subset (List.mem_cons_of_mem e (hev.perm.subset he')))
      have hall : (e :: (removed ++ (s.removeOldest.evict opt size n).cache.entries)).Perm
          s.cache.entries := (hev.perm.cons e).trans hperm
      refine ⟨e :: removed, hall, List.pairwise_cons.2 ⟨fun e' he' => ?_, hev.ascending⟩, ?_, ?_⟩
      · exact hrest e' (List.mem_append_left _ he')
      · intro e₁ he₁ e₂ he₂
        rcases List.mem_cons.1 he₁ with rfl | he₁
        · exact hrest e₂ (List.mem_append_right _ he₂)
        · exact hev.older e₁ he₁ e₂ he₂
      · intro k hk hroom
        cases k with
        | zero => exact hfits ((fits_iff h).2 (.inr (hroom.perm hall)))
        | succ k => exact hev.shortest k (by simpa using hk) hroom

/-- The entries can be put into an ascending order of their last touch. -/
theorem exists_ascending (es : List (Stored J)) : ∃ kept : List (Stored J), kept.Perm es ∧
    kept.Pairwise fun e e' => entryTouched e ≤ entryTouched e' := by
  let earlier : Stored J → Stored J → Bool := fun e e' =>
    decide (entryTouched e ≤ entryTouched e')
  have htrans : ∀ a b c, earlier a b → earlier b c → earlier a c := by
    simpa [earlier] using fun a b c => le_trans
  have htotal : ∀ a b, earlier a b || earlier b a := by
    simpa [earlier] using fun a b => le_total (entryTouched a) (entryTouched b)
  refine ⟨es.mergeSort earlier, List.mergeSort_perm es earlier, ?_⟩
  exact (List.pairwise_mergeSort htrans htotal es).imp fun h => of_decide_eq_true h

/-- The eviction loop removes the shortest prefix of the entries, in an ascending order of their last
touch, after which the response fits both limits. -/
theorem evict_prefix (h : s.Accounted) (hcapacity : 0 < opt.capacity) (hsize : size ≤ opt.maxBytes)
    (hn : s.cache.entries.length ≤ n) :
    ∃ (order : List (Stored J)) (k : ℕ), order.Perm s.cache.entries ∧
      (order.Pairwise fun e e' => entryTouched e ≤ entryTouched e') ∧ k ≤ order.length ∧
      (order.drop k).Perm (s.evict opt size n).cache.entries ∧ Room opt size (order.drop k) ∧
      ∀ j < k, ¬ Room opt size (order.drop j) := by
  obtain ⟨removed, hev⟩ := @exists_evicted _ opt size _ _ h hn
  obtain ⟨kept, hkept, hsorted⟩ := exists_ascending (s.evict opt size n).cache.entries
  have hroom : Room opt size (s.evict opt size n).cache.entries := by
    rcases (fits_iff (h.evict n)).1 (fits_evict opt size hn) with hnil | hroom
    · rw [hnil]
      exact ⟨hcapacity, by simpa using hsize⟩
    · exact hroom
  refine ⟨removed ++ kept, removed.length, (hkept.append_left removed).trans hev.perm, ?_,
    by simp, by simpa using hkept, by simpa using hroom.perm hkept.symm, fun j hj hroom' => ?_⟩
  · refine List.pairwise_append.2 ⟨hev.ascending, hsorted, fun e he e' he' => ?_⟩
    exact hev.older e he e' (hkept.subset he')
  · rw [List.drop_append_of_le_length hj.le] at hroom'
    exact hev.shortest j hj (hroom'.perm (hkept.append_left _))

/-! ### The limits -/

/-- The counter is right, and the store is within both limits. -/
structure Limits (opt : CacheOptions) (s : Store J) : Prop where
  accounted : s.Accounted
  entries : s.cache.entries.length ≤ opt.capacity
  bytes : s.bytes ≤ opt.maxBytes

theorem Limits.purge (h : Limits opt s) (generation now : ℕ) :
    Limits opt (s.purge generation now) := by
  have hsub : (s.purge generation now).cache.entries.Sublist s.cache.entries :=
    List.filter_sublist
  have hsum : (s.purge generation now).bytes ≤ s.bytes := by
    rw [show s.bytes = _ from h.accounted]
    exact (hsub.map entrySize).sum_le_sum fun _ _ => Nat.zero_le _
  exact ⟨rfl, hsub.length_le.trans h.entries, hsum.trans h.bytes⟩

theorem Limits.perm {cache : Map Key (Entry J)} (h : Limits opt s)
    (hp : cache.entries.Perm s.cache.entries) : Limits opt ⟨cache, s.bytes⟩ :=
  ⟨(show s.bytes = _ from h.accounted).trans (hp.map entrySize).sum_eq.symm,
    hp.length_eq.trans_le h.entries, h.bytes⟩

/-- Touching an entry changes no size. -/
theorem Limits.touch (h : Limits opt s) (k : Key) (now : ℕ) :
    Limits opt ⟨s.cache.adjust k fun e => { e with touched := now }, s.bytes⟩ := by
  have hsizes : (s.cache.adjust k fun e => { e with touched := now }).entries.map entrySize =
      s.cache.entries.map entrySize := by
    rw [Map.adjust, List.map_map]
    refine List.map_congr_left fun e _ => ?_
    show (if e.1 = k then _ else _ : Entry J).response.size = _
    split_ifs <;> rfl
  refine ⟨?_, ?_, h.bytes⟩
  · show s.bytes = _
    rw [hsizes]
    exact h.accounted
  · show (s.cache.adjust k _).entries.length ≤ _
    rw [Map.adjust, List.length_map]
    exact h.entries

/-- The entries after the end of a flight whose key has no entry. -/
theorem entries_insert {k : Key} (hk : s.cache.lookup k = none) (response : CachedResponse J)
    (now : ℕ) : (s.insert opt k response now).cache.entries =
      ⟨k, response, now + opt.ttl, now⟩ ::
        (s.evict opt response.size s.cache.entries.length).cache.entries := by
  have hevict : (s.evict opt response.size s.cache.entries.length).cache.lookup k = none := by
    rcases lookup_evict opt response.size s.cache.entries.length s k with h | h
    · rw [h, hk]
    · exact h
  exact AList.entries_insert_of_notMem (AList.lookup_eq_none.1 hevict)

theorem Limits.insert (h : Limits opt s) {k : Key} (hk : s.cache.lookup k = none)
    {response : CachedResponse J} (hcapacity : 0 < opt.capacity)
    (hsize : response.size ≤ opt.maxBytes) (now : ℕ) :
    Limits opt (s.insert opt k response now) := by
  obtain ⟨order, j, -, -, -, hperm, hroom, -⟩ :=
    evict_prefix h.accounted hcapacity hsize (le_refl s.cache.entries.length)
  obtain ⟨hlen, hsum⟩ := hroom.perm hperm
  have haccounted : (s.evict opt response.size s.cache.entries.length).Accounted :=
    h.accounted.evict _
  have hbytes : (s.insert opt k response now).bytes =
      (s.evict opt response.size s.cache.entries.length).bytes + response.size := rfl
  refine ⟨?_, ?_, ?_⟩
  · rw [Accounted, hbytes, entries_insert hk, List.map_cons, List.sum_cons, add_comm]
    exact congrArg _ haccounted
  · rw [entries_insert hk, List.length_cons]
    exact hlen
  · rw [hbytes, show Store.bytes _ = _ from haccounted]
    exact hsum

end Store

namespace QueryCache

open Runs

variable {ι : Type} {codec : Codec J} {opt : CacheOptions} {c c' : QueryCache ι J} {e : Event ι J}

theorem stored_eq_some {blocked : Option ClientError} {result : SharedResult J}
    {response : CachedResponse J} (h : stored opt blocked result = some response) :
    0 < opt.capacity ∧ response.size ≤ opt.maxBytes := by
  unfold stored at h
  split at h
  · cases h
  · split_ifs at h with hcond
    cases h
    exact ⟨hcond.2.1, hcond.2.2.2⟩

/-- The key of a flight that is about to end has no entry. -/
theorem FlightInv.lookup_none (h : FlightInv opt c) {f : ℕ} {key : Key} {q : Query}
    {result : SharedResult J} (hf : c.tasks f = some ⟨key, q, .locked result⟩) :
    c.store.cache.lookup key = none := by
  refine h.apart key fun hnone => ?_
  rw [(h.flights key f).2 ⟨q, _, hf, rfl⟩] at hnone
  cases hnone

variable [DecidableEq ι]

theorem limits_step (h : Store.Limits opt c.store) (hinv : FlightInv opt c)
    (hs : Step codec opt c e c') : Store.Limits opt c'.store := by
  cases hs with
  | found | join | full | spawn => exact h.purge _ _
  | hitChanged | hitReturn => exact h.touch _ _
  | @publish f key q result hf =>
    show Store.Limits opt (c.completed opt ⟨key, q, .locked result⟩ result)
    unfold completed
    split
    · exact h
    · next response hstored =>
      obtain ⟨hcapacity, hsize⟩ := stored_eq_some hstored
      exact h.insert (hinv.lookup_none hf) hcapacity hsize c.now
  | rearrange hp => exact h.perm hp
  | _ => exact h

/-- The end of a flight that stores a response: the shortest prefix of the entries, in an ascending
order of their last touch, makes room for it; no subtraction underflows, and the loop ends. -/
def EvictsPrefix (opt : CacheOptions) (t : Transition (QueryCache ι J) (Event ι J)) : Prop :=
  ∀ f key q result response, t.event = .publish f →
    t.before.tasks f = some ⟨key, q, .locked result⟩ →
    stored opt (t.before.blocked q.method.anonymous) result = some response →
    (∃ (order : List (Stored J)) (k : ℕ), order.Perm t.before.store.cache.entries ∧
      (order.Pairwise fun e e' => Store.entryTouched e ≤ Store.entryTouched e') ∧
      k ≤ order.length ∧ Store.Room opt response.size (order.drop k) ∧
      (∀ j < k, ¬ Store.Room opt response.size (order.drop j)) ∧
      t.after.store.cache.entries.Perm
        (⟨key, response, t.before.now + opt.ttl, t.before.now⟩ :: order.drop k)) ∧
    (∀ n e, (t.before.store.evict opt response.size n).oldest = some e →
      Store.entrySize e ≤ (t.before.store.evict opt response.size n).bytes) ∧
    ∃ n, (t.before.store.evict opt response.size n).fits opt response.size = true

/-- The store after the end of a flight that stores a response. -/
theorem store_of_publish {f : ℕ} {key : Key} {q : Query} {result : SharedResult J}
    {response : CachedResponse J} (hs : Step codec opt c (.publish f) c')
    (hf : c.tasks f = some ⟨key, q, .locked result⟩)
    (hstored : stored opt (c.blocked q.method.anonymous) result = some response) :
    c'.store = c.store.insert opt key response c.now := by
  cases hs with
  | publish hf' =>
    rw [hf] at hf'
    cases hf'
    simp only [completed, hstored]

theorem evictsPrefix (h : Store.Limits opt c.store) (hinv : FlightInv opt c)
    (hs : Step codec opt c e c') : EvictsPrefix opt ⟨c, e, c'⟩ := by
  rintro f key q result response rfl hf hstored
  obtain ⟨hcapacity, hsize⟩ := stored_eq_some hstored
  obtain ⟨order, k, hperm, hsorted, hk, hkept, hroom, hshortest⟩ :=
    Store.evict_prefix h.accounted hcapacity hsize (le_refl c.store.cache.entries.length)
  refine ⟨⟨order, k, hperm, hsorted, hk, hroom, hshortest, ?_⟩, fun n e he => ?_,
    ⟨_, Store.fits_evict opt response.size le_rfl⟩⟩
  · show c'.store.cache.entries.Perm _
    rw [store_of_publish hs hf hstored, Store.entries_insert (hinv.lookup_none hf)]
    exact (hkept.cons _).symm
  · have haccounted : (c.store.evict opt response.size n).Accounted := h.accounted.evict n
    show _ ≤ Store.bytes _
    rw [show Store.bytes _ = _ from haccounted]
    exact List.single_le_sum (by simp) _ (List.mem_map_of_mem (List.argmin_mem he))

variable [DecidableEq J]

/-- **Accounting and eviction.**  After every event of every run the counter is the sum of the
stored sizes, the store is within both limits, there are at most `max_inflight` flights and no key
has both an entry and a flight; and every response that a flight stores evicts exactly the shortest
prefix of the entries, in an ascending order of their last touch, that makes room for it. -/
theorem cache_accounting {generation now : ℕ} {blocked : Bool → Option ClientError}
    {ts : List (Transition (QueryCache ι J) (Event ι J))}
    (hrun : Run (step codec opt) (initial generation blocked now) ts c) :
    (c.store.bytes = (c.store.cache.entries.map Store.entrySize).sum ∧
      c.store.cache.entries.length ≤ opt.capacity ∧ c.store.bytes ≤ opt.maxBytes ∧
      c.flights.entries.length ≤ opt.maxInflight ∧
      ∀ key, c.store.cache.lookup key = none ∨ c.flights.lookup key = none) ∧
    ∀ t ∈ ts, EvictsPrefix opt t := by
  have hinitial : FlightInv opt (initial generation blocked now : QueryCache ι J) ∧
      Store.Limits opt (initial generation blocked now : QueryCache ι J).store :=
    ⟨flightInv_initial generation blocked now, rfl, Nat.zero_le _, Nat.zero_le _⟩
  have hstep : ∀ (c : QueryCache ι J) e c', FlightInv opt c ∧ Store.Limits opt c.store →
      step codec opt c e = some c' → FlightInv opt c' ∧ Store.Limits opt c'.store :=
    fun _ _ _ h hs => ⟨h.1.step hs, limits_step h.2 h.1 (Step.of_step hs)⟩
  obtain ⟨hflights, hlimits⟩ := hrun.invariant hstep hinitial
  refine ⟨⟨hlimits.accounted, hlimits.entries, hlimits.bytes, hflights.bound, fun key => ?_⟩, ?_⟩
  · by_cases hkey : c.flights.lookup key = none
    · exact .inr hkey
    · exact .inl (hflights.apart key hkey)
  · intro t ht
    obtain ⟨hbefore, hlimits'⟩ := (hrun.mem_invariant hstep hinitial ht).1
    exact evictsPrefix hlimits' hbefore (Step.of_step (hrun.step_of_mem ht))

/-- Room for one entry. -/
def tightOptions : CacheOptions := ⟨15 * 10 ^ 9, 1, 64, 32⟩

abbrev tightStep : QueryCache ℕ String → Event ℕ String → Option (QueryCache ℕ String) :=
  step sampleCodec tightOptions

/-- The response of the second query takes the place of that of the first. -/
def evictingEvents : List (Event ℕ String) :=
  queryEvents 0 ++ [.lookup 0] ++ flightEvents 0 0 ++
    [.arrive 1 ⟨.deckTrend, [1], true⟩, .begin 1, .capture 1, .lookup 1] ++ flightEvents 1 0

def evictingCache : QueryCache ℕ String := (exec tightStep sampleCache evictingEvents).get rfl

theorem cache_accounting_evicting :
    evictingCache.store.bytes = 2 ∧ evictingCache.store.cache.entries.length ≤ 1 ∧
      ∀ key, evictingCache.store.cache.lookup key = none ∨
        evictingCache.flights.lookup key = none := by
  have h := (cache_accounting (run_get evictingEvents rfl : Run tightStep sampleCache _ _)).1
  exact ⟨h.1.trans (by decide), h.2.1, h.2.2.2.2⟩

end QueryCache

end MoenotesApi
