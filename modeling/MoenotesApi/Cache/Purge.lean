import MoenotesApi.Cache.Flights

/-!
# Entries of the current generation

A lookup purges the entries of other generations than the one its query has read.  That generation
was read before the lock was acquired, so it may be an old one, and then the entries of the current
generation go.

* `Loses`: an event removes an entry of the current generation;
* `Evicts`, `Stale`: the removals that make room, and the lookups under an old generation that find
  a live entry of the current one;
* `Locks`, `LockEffect`: who is in a critical section; `Ordered`: the cached entries are not newer
  than a flight in its critical section, whose response is therefore never older than what it evicts;
* `losses_iff_no_stale`: which runs lose entries of the current generation only to the TTL and to
  eviction.
-/

namespace MoenotesApi.QueryCache

open Runs

variable {ι J : Type} {codec : Codec J} {opt : CacheOptions} {c : QueryCache ι J}
variable {ts : List (Transition (QueryCache ι J) (Event ι J))}

/-- The transition removes `entry`, stored for `key` under the generation of the client. -/
def Loses (key : Key) (entry : Entry J) (t : Transition (QueryCache ι J) (Event ι J)) : Prop :=
  t.before.store.cache.lookup key = some entry ∧ t.after.store.cache.lookup key = none ∧
    key.generation = t.before.generation

/-- A flight inserts a response, after the eviction loop has made room for it. -/
def Evicts (opt : CacheOptions) (t : Transition (QueryCache ι J) (Event ι J)) : Prop :=
  ∃ f key q response, t.event = .publish f ∧
    t.before.tasks f = some ⟨key, q, .locked (.ok response)⟩ ∧
    t.after.store = t.before.store.insert opt key response t.before.now

/-- A new session of the client does not bring an old generation back. -/
def Advances (t : Transition (QueryCache ι J) (Event ι J)) : Prop :=
  ∀ generation blocked, t.event = .client generation blocked → t.before.generation ≤ generation

/-- A query that has read an old generation looks its key up while the cache holds an entry of the
current generation that has not expired. -/
def Stale (t : Transition (QueryCache ι J) (Event ι J)) : Prop :=
  ∃ i q key, t.event = .lookup i ∧ t.before.callers i = some ⟨q, .waiting key⟩ ∧
    key.generation ≠ t.before.generation ∧
    ∃ key' entry, t.before.store.cache.lookup key' = some entry ∧
      key'.generation = t.before.generation ∧ t.before.now < entry.expires

/-! ### The critical sections -/

/-- `o` is in its critical section. -/
def Locks (c : QueryCache ι J) : Holder ι → Prop
  | .caller i => ∃ q stage, c.callers i = some ⟨q, stage⟩ ∧ stage.holding = true
  | .task f => ∃ key q result, c.tasks f = some ⟨key, q, .locked result⟩

/-- What an event does to the lock. -/
inductive LockEffect (c c' : QueryCache ι J) : Prop
  | kept (hl : ∀ o, c'.Locks o → c.Locks o) (hh : c'.holder = c.holder)
  | acquired {o} (hfree : c.holder = none) (hl : ∀ o', c'.Locks o' → c.Locks o' ∨ o' = o)
      (hh : c'.holder = some o)
  | released {o} (ho : c.Locks o) (hl : ∀ o', c'.Locks o' → c.Locks o' ∧ o' ≠ o)

/-- A task moves. -/
theorem locks_of_task {c' : QueryCache ι J} {o : Holder ι} (h : c'.Locks o) {f : ℕ} {key : Key}
    {q : Query} {stage : TaskStage J} (hc : c'.callers = c.callers)
    (ht : c'.tasks = Function.update c.tasks f (some ⟨key, q, stage⟩)) :
    (∃ result, stage = .locked result) ∧ o = .task f ∨ c.Locks o ∧ o ≠ .task f := by
  cases o with
  | caller i =>
    obtain ⟨q', stage', hi, hs⟩ := h
    exact .inr ⟨⟨q', stage', hc ▸ hi, hs⟩, nofun⟩
  | task g =>
    obtain ⟨key', q', result, hg⟩ := h
    by_cases hgf : g = f
    · subst hgf
      rw [ht, Function.update_self] at hg
      cases hg
      exact .inl ⟨⟨result, rfl⟩, rfl⟩
    · rw [ht, Function.update_of_ne hgf] at hg
      exact .inr ⟨⟨key', q', result, hg⟩, by simpa using hgf⟩

variable [DecidableEq ι]

/-- A caller moves. -/
theorem locks_of_caller {c' : QueryCache ι J} {o : Holder ι} (h : c'.Locks o) {i : ι} {q : Query}
    {stage : CallerStage J} (hc : c'.callers = Function.update c.callers i (some ⟨q, stage⟩))
    (ht : c'.tasks = c.tasks) :
    stage.holding = true ∧ o = .caller i ∨ c.Locks o ∧ o ≠ .caller i := by
  cases o with
  | caller j =>
    obtain ⟨q', stage', hj, hs⟩ := h
    by_cases hji : j = i
    · subst hji
      rw [hc, Function.update_self] at hj
      cases hj
      exact .inl ⟨hs, rfl⟩
    · rw [hc, Function.update_of_ne hji] at hj
      exact .inr ⟨⟨q', stage', hj, hs⟩, by simpa using hji⟩
  | task f =>
    obtain ⟨key, q', result, hf⟩ := h
    exact .inr ⟨⟨key, q', result, ht ▸ hf⟩, nofun⟩

/-- A caller that is not in its critical section moves to where it is not in it either. -/
theorem LockEffect.of_caller {c' : QueryCache ι J} {i : ι} {q : Query} {stage : CallerStage J}
    (hstage : stage.holding = false)
    (hc : c'.callers = Function.update c.callers i (some ⟨q, stage⟩)) (ht : c'.tasks = c.tasks)
    (hh : c'.holder = c.holder) : LockEffect c c' := by
  refine .kept (fun o ho => ?_) hh
  rcases locks_of_caller ho hc ht with ⟨hs, -⟩ | ⟨ho, -⟩
  · rw [hstage] at hs
    cases hs
  · exact ho

/-- A caller leaves its critical section. -/
theorem LockEffect.of_return {c' : QueryCache ι J} {i : ι} {q : Query} {stage stage' : CallerStage J}
    (hi : c.callers i = some ⟨q, stage⟩) (hstage : stage.holding = true)
    (hstage' : stage'.holding = false)
    (hc : c'.callers = Function.update c.callers i (some ⟨q, stage'⟩)) (ht : c'.tasks = c.tasks) :
    LockEffect c c' := by
  refine .released (o := .caller i) ⟨q, stage, hi, hstage⟩ fun o ho => ?_
  rcases locks_of_caller ho hc ht with ⟨hs, -⟩ | ho
  · rw [hstage'] at hs
    cases hs
  · exact ho

theorem Step.lock {e : Event ι J} {c' : QueryCache ι J} (h : Step codec opt c e c') :
    LockEffect c c' := by
  cases h with
  | arrive => exact .of_caller (by unfold arrival; split <;> rfl) rfl rfl rfl
  | blocked | unblocked | stopped | capture | join | full | wake | wokenBlocked | errorCheck
  | finishChanged | finish | cancelled | drop => exact .of_caller rfl rfl rfl rfl
  | @found i q key entry _ hfree =>
    refine .acquired (o := .caller i) hfree (fun o ho => ?_) rfl
    rcases locks_of_caller (c := c) ho rfl rfl with ⟨-, ho⟩ | ⟨ho, -⟩
    · exact .inr ho
    · exact .inl ho
  | @spawn i q key =>
    refine .kept (fun o ho => ?_) rfl
    rcases locks_of_task (c := (c.purged key).setCaller i ⟨q, .joined key c.nextTask .miss⟩)
      ho rfl rfl with ⟨⟨_, hs⟩, -⟩ | ⟨ho, -⟩
    · cases hs
    · rcases locks_of_caller (c := c) ho rfl rfl with ⟨hs, -⟩ | ⟨ho, -⟩
      · cases hs
      · exact ho
  | @hitCheck i q key entry now hi =>
    refine .kept (fun o ho => ?_) rfl
    rcases locks_of_caller (c := c) ho rfl rfl with ⟨-, rfl⟩ | ⟨ho, -⟩
    · exact ⟨q, _, hi, rfl⟩
    · exact ho
  | hitBlocked hi | hitChanged hi | hitReturn hi => exact .of_return hi rfl rfl rfl rfl
  | execute | answer =>
    refine .kept (fun o ho => ?_) rfl
    rcases locks_of_task (c := c) ho rfl rfl with ⟨⟨_, hs⟩, -⟩ | ⟨ho, -⟩
    · cases hs
    · exact ho
  | @relock f key q result _ hfree =>
    refine .acquired (o := .task f) hfree (fun o ho => ?_) rfl
    rcases locks_of_task (c := c) ho rfl rfl with ⟨-, ho⟩ | ⟨ho, -⟩
    · exact .inr ho
    · exact .inl ho
  | @publish f key q result hf =>
    refine .released (o := .task f) ⟨key, q, result, hf⟩ fun o ho => ?_
    rcases locks_of_task (c := c) ho rfl rfl with ⟨⟨_, hs⟩, -⟩ | ho
    · cases hs
    · exact ho
  | client | stop | advance | rearrange => exact .kept (fun _ ho => ho) rfl

omit [DecidableEq ι] in
/-- One critical section at a time. -/
theorem LockEffect.exclusive {c' : QueryCache ι J} (h : LockEffect c c')
    (hexcl : ∀ o, c.Locks o → c.holder = some o) : ∀ o, c'.Locks o → c'.holder = some o := by
  intro o ho
  cases h with
  | kept hl hh => exact hh.trans (hexcl o (hl o ho))
  | acquired hfree hl hh =>
    rcases hl o ho with ho | rfl
    · rw [hexcl o ho] at hfree
      cases hfree
    · exact hh
  | released ho' hl =>
    obtain ⟨ho, hne⟩ := hl o ho
    have hsame := (hexcl o ho).symm.trans (hexcl _ ho')
    exact absurd (Option.some.inj hsame) hne

/-! ### Flights of an older generation -/

/-- A task in its critical section was there before, or has just acquired the lock and read the
generation of its key again. -/
theorem Step.locked {e : Event ι J} {c' : QueryCache ι J} (h : Step codec opt c e c') {f : ℕ}
    {key : Key} {q : Query} {response : CachedResponse J}
    (hf : c'.tasks f = some ⟨key, q, .locked (.ok response)⟩) :
    c.tasks f = some ⟨key, q, .locked (.ok response)⟩ ∨
      c.generation = key.generation ∧ c'.generation = c.generation ∧ c'.store = c.store := by
  have moved {g : ℕ} {task : Task J} (hne : task.stage ≠ .locked (.ok response))
      (ht : c'.tasks = Function.update c.tasks g (some task)) :
      c.tasks f = some ⟨key, q, .locked (.ok response)⟩ := by
    by_cases hfg : f = g
    · subst hfg
      rw [ht, Function.update_self] at hf
      obtain rfl := Option.some.inj hf
      exact absurd rfl hne
    · rwa [ht, Function.update_of_ne hfg] at hf
  cases h with
  | spawn | execute | answer | publish => exact .inl (moved (by simp) rfl)
  | @relock g key' q' result hg =>
    by_cases hgen : c.generation = key'.generation
    · by_cases hfg : f = g
      · subst hfg
        simp only [setTask_tasks, Function.update_self, hgen, ne_eq, not_true_eq_false,
          if_false] at hf
        cases hf
        exact .inr ⟨hgen, rfl, rfl⟩
      · simp only [setTask_tasks, Function.update_of_ne hfg] at hf
        exact .inl hf
    · exact .inl (moved (by simp [hgen]) rfl)
  | _ => exact .inl hf

/-- No entry is newer than the session, and none is newer than the flight that is to insert its
response. -/
structure Ordered (c : QueryCache ι J) : Prop where
  exclusive : ∀ o, c.Locks o → c.holder = some o
  cached : ∀ key, c.store.cache.lookup key ≠ none → key.generation ≤ c.generation
  locked : ∀ f key q response, c.tasks f = some ⟨key, q, .locked (.ok response)⟩ →
    key.generation ≤ c.generation ∧
      ∀ key', c.store.cache.lookup key' ≠ none → key'.generation ≤ key.generation

theorem Step.generation_le {e : Event ι J} {c' : QueryCache ι J} (h : Step codec opt c e c')
    (hadv : Advances (⟨c, e, c'⟩ : Transition (QueryCache ι J) (Event ι J))) :
    c.generation ≤ c'.generation := by
  cases h with
  | client => exact hadv _ _ rfl
  | _ => exact le_rfl

omit [DecidableEq ι] in
theorem StoreEffect.cached {e : Event ι J} {c' : QueryCache ι J} (h : StoreEffect opt c e c')
    {key : Key} (hk : c'.store.cache.lookup key ≠ none) : c.store.cache.lookup key ≠ none ∨
      ∃ f q response, c.tasks f = some ⟨key, q, .locked (.ok response)⟩ := by
  by_cases hc : c.store.cache.lookup key = none
  · rcases h.lookup_none hc with hnone | ⟨f, q, response, -, hf⟩
    · exact absurd hnone hk
    · exact .inr ⟨f, q, response, hf⟩
  · exact .inl hc

theorem Ordered.step {e : Event ι J} {c' : QueryCache ι J} (h : Ordered c)
    (hs : Step codec opt c e c')
    (hadv : Advances (⟨c, e, c'⟩ : Transition (QueryCache ι J) (Event ι J))) : Ordered c' := by
  have hgen := hs.generation_le hadv
  refine ⟨hs.lock.exclusive h.exclusive, fun key hk => ?_, fun f key q response hf => ?_⟩
  · rcases hs.store.cached hk with hk | ⟨f, q, response, hf⟩
    · exact (h.cached key hk).trans hgen
    · exact (h.locked f key q response hf).1.trans hgen
  · rcases hs.locked hf with hf | ⟨hkey, hsame, hstore⟩
    · obtain ⟨hle, hcached⟩ := h.locked f key q response hf
      refine ⟨hle.trans hgen, fun key' hk => ?_⟩
      rcases hs.store.cached hk with hk | ⟨g, q', response', hg⟩
      · exact hcached key' hk
      · -- a task that inserts now has the lock, so it is this one
        have hlocks := h.exclusive (.task f) ⟨key, q, _, hf⟩
        rw [h.exclusive (.task g) ⟨key', q', _, hg⟩] at hlocks
        cases hlocks
        rw [hf] at hg
        cases hg
        exact le_rfl
    · rw [hsame, hstore, hkey]
      exact ⟨le_rfl, fun key' hk => hkey ▸ h.cached key' hk⟩

variable [DecidableEq J]

theorem ordered_of_run {generation now : ℕ} {blocked : Bool → Option ClientError}
    (hrun : Run (step codec opt) (initial generation blocked now) ts c)
    (hadv : ∀ t ∈ ts, Advances t) : Ordered c := by
  induction hrun with
  | nil => exact ⟨fun o ho => by cases o <;> simp [Locks, initial] at ho,
      fun key hk => absurd rfl hk, fun f key q response hf => by cases hf⟩
  | snoc _ hstep ih =>
    exact (ih fun t ht => hadv t (List.mem_append_left _ ht)).step (Step.of_step hstep)
      (hadv _ (by simp))

/-- A flight that makes room at the cost of an entry of the current generation is of that
generation. -/
theorem Ordered.current_of_loses {t : Transition (QueryCache ι J) (Event ι J)} {key : Key}
    {entry : Entry J} {f : ℕ} {task : Task J} (h : Ordered t.before)
    (hstep : QueryCache.step codec opt t.before t.event = some t.after) (hl : Loses key entry t)
    (he : t.event = .publish f) (hf : t.before.tasks f = some task) :
    task.key.generation = t.before.generation := by
  obtain ⟨hbefore, hafter, hg⟩ := hl
  cases (Step.of_step hstep).store with
  | unchanged hsame =>
    rw [hsame, hbefore] at hafter
    cases hafter
  | purged he' =>
    rw [he] at he'
    cases he'
  | touched he' =>
    rw [he] at he'
    cases he'
  | @inserted g key' q response he' hg' =>
    rw [he] at he'
    cases he'
    rw [hf] at hg'
    cases hg'
    obtain ⟨hle, hcached⟩ := h.locked f key' q response hf
    exact le_antisymm hle (hg ▸ hcached key (by simp [hbefore]))

/-! ### Which runs lose live entries -/

/-- A lookup purges the store. -/
theorem store_of_lookup {c' : QueryCache ι J} {i : ι} {q : Query} {key : Key}
    (hstep : step codec opt c (.lookup i) = some c')
    (hi : c.callers i = some ⟨q, .waiting key⟩) :
    c'.store = c.store.purge key.generation c.now := by
  cases Step.of_step hstep with
  | found hi' | join hi' | full hi' | spawn hi' =>
    rw [hi] at hi'
    cases hi'
    rfl

/-- An entry of the current generation that an event removes has expired, or has made room for a
response, or a stale lookup has discarded it. -/
theorem loses_cases {t : Transition (QueryCache ι J) (Event ι J)} {key : Key} {entry : Entry J}
    (hstep : step codec opt t.before t.event = some t.after) (h : Loses key entry t) :
    entry.expires ≤ t.before.now ∨ Evicts opt t ∨ Stale t := by
  obtain ⟨hbefore, hafter, hg⟩ := h
  cases (Step.of_step hstep).store with
  | unchanged hl =>
    rw [hl, hbefore] at hafter
    cases hafter
  | @purged i q key' he hi hs =>
    rw [hs, Store.lookup_purge, hbefore] at hafter
    by_cases hexp : entry.expires ≤ t.before.now
    · exact .inl hexp
    · refine .inr (.inr ⟨i, q, key', he, hi, fun hg' => ?_, key, entry, hbefore, hg, by omega⟩)
      exact hexp (by simpa [hg, hg'] using hafter)
  | touched _ _ hs =>
    rw [hs, Map.lookup_adjust, hbefore] at hafter
    cases hafter
  | @inserted f key' q response he hf hs => exact .inr (.inl ⟨f, key', q, response, he, hf, hs⟩)

/-- A stale lookup removes a live entry of the current generation, and not to make room. -/
theorem loses_of_stale {t : Transition (QueryCache ι J) (Event ι J)}
    (hstep : step codec opt t.before t.event = some t.after) (h : Stale t) :
    ∃ key entry, Loses key entry t ∧ t.before.now < entry.expires ∧ ¬ Evicts opt t := by
  obtain ⟨i, q, key, he, hi, hne, key', entry, hbefore, hg, hlive⟩ := h
  refine ⟨key', entry, ⟨hbefore, ?_, hg⟩, hlive, ?_⟩
  · rw [store_of_lookup (he ▸ hstep) hi, Store.lookup_purge, hbefore]
    simp [hg, Ne.symm hne]
  · rintro ⟨f, -, -, -, he', -⟩
    rw [he] at he'
    cases he'

/-- **Which runs lose entries of the current generation only to the TTL and to eviction**: those
without a stale lookup.  As long as generations only grow, an entry of the current generation makes
room for a response of the current generation, never for one of a flight before it. -/
theorem losses_iff_no_stale {generation now : ℕ} {blocked : Bool → Option ClientError}
    (hrun : Run (step codec opt) (initial generation blocked now) ts c) :
    ((∀ t ∈ ts, ∀ key entry, Loses key entry t →
      entry.expires ≤ t.before.now ∨ Evicts opt t) ↔ ∀ t ∈ ts, ¬ Stale t) ∧
    ((∀ t ∈ ts, Advances t) → ∀ t ∈ ts, ∀ key entry f task, Loses key entry t →
      t.event = .publish f → t.before.tasks f = some task →
        task.key.generation = t.before.generation) := by
  refine ⟨⟨?_, ?_⟩, ?_⟩
  · intro h t ht hstale
    obtain ⟨key, entry, hl, hlive, hnot⟩ := loses_of_stale (hrun.step_of_mem ht) hstale
    rcases h t ht key entry hl with hexp | hev
    · omega
    · exact hnot hev
  · intro h t ht key entry hl
    rcases loses_cases (hrun.step_of_mem ht) hl with hexp | hev | hstale
    · exact .inl hexp
    · exact .inr hev
    · exact absurd hstale (h t ht)
  · intro hadv t ht key entry f task hl he hf
    obtain ⟨before, after, rfl⟩ := List.append_of_mem ht
    obtain ⟨hbefore, hstep, -⟩ := hrun.around
    have hordered := ordered_of_run hbefore fun u hu => hadv u (List.mem_append_left _ hu)
    exact hordered.current_of_loses hstep hl he hf

/-! ### A stale lookup -/

/-- The caller `0` reads the generation; the session is replaced; the caller `1` fills the cache. -/
def replacedEvents : List (Event ℕ String) :=
  queryEvents 0 ++ [.client 1 fun _ => none] ++ queryEvents 1 ++ [.lookup 1] ++ flightEvents 0 1

def filledCache : QueryCache ℕ String := (exec sampleCacheStep sampleCache replacedEvents).get rfl

/-- The lookup of the caller `0`. -/
def staleCache : QueryCache ℕ String := (sampleCacheStep filledCache (.lookup 0)).get rfl

theorem losses_iff_no_stale_filled :
    (∀ t ∈ transitions sampleCacheStep sampleCache replacedEvents, ∀ key entry,
      Loses key entry t → entry.expires ≤ t.before.now ∨ Evicts sampleCacheOptions t) ↔
    ∀ t ∈ transitions sampleCacheStep sampleCache replacedEvents, ¬ Stale t :=
  (losses_iff_no_stale (run_get replacedEvents rfl : Run sampleCacheStep sampleCache _ filledCache)).1

/-- A live entry of the current generation is lost to the lookup of a query that was started under
the generation before. -/
theorem stale_lookup_loses : ∃ (ts : List (Transition (QueryCache ℕ String) (Event ℕ String)))
    (t : Transition (QueryCache ℕ String) (Event ℕ String)) (key : Key) (entry : Entry String),
    Run sampleCacheStep sampleCache (ts ++ [t]) t.after ∧ Loses key entry t ∧
      t.before.now < entry.expires ∧ t.event = .lookup 0 ∧
      t.before.callers 0 = some ⟨sampleQuery, .waiting (sampleQuery.key 0)⟩ ∧
      t.before.generation = 1 := by
  have hstep : (sampleCacheStep filledCache (.lookup 0)).isSome = true := rfl
  refine ⟨transitions sampleCacheStep sampleCache replacedEvents,
    ⟨filledCache, .lookup 0, staleCache⟩, sampleQuery.key 1,
    ⟨⟨"\x7b\x7d", 0, 2⟩, 15 * 10 ^ 9, 0⟩, ?_, ⟨rfl, rfl, rfl⟩, ?_, rfl, rfl, rfl⟩
  · exact (run_get replacedEvents rfl).snoc (Option.some_get hstep).symm
  · decide

end MoenotesApi.QueryCache
