import MoenotesApi.Cache.Step
import Mathlib.Algebra.BigOperators.Group.Finset.Basic
import Mathlib.Tactic

/-!
# Single flight

The map of flights, the tasks and the watch channels of the query cache change at different moments
and in different tasks.

* `TaskEffect`, `StoreEffect`: what an event does to the tasks and to the store;
* `FlightInv`: the unfinished tasks are exactly the flights in the map, and no flight has an entry;
* `count_executes`: how often `execute` has been called;
* `single_flight`: one call at a time for a key, one call for a miss, one outcome for a flight,
  whatever callers come, wait and go.
-/

namespace MoenotesApi.QueryCache

open Runs

variable {ι J : Type} {codec : Codec J} {opt : CacheOptions} {c c' : QueryCache ι J}
variable {e : Event ι J}

/-! ### Tasks and entries, event by event -/

/-- A query takes the `MISS` path. -/
def misses (t : Transition (QueryCache ι J) (Event ι J)) : Bool :=
  match t.event with
  | .lookup i =>
    match t.after.callers i with
    | some ⟨_, .joined _ _ .miss⟩ => true
    | _ => false
  | _ => false

/-- `client.execute` is called. -/
def executes (t : Transition (QueryCache ι J) (Event ι J)) : Bool :=
  match t.event with
  | .execute _ => true
  | _ => false

/-- What an event does to the tasks and to the map of flights. -/
inductive TaskEffect (opt : CacheOptions) (c : QueryCache ι J) (e : Event ι J)
    (c' : QueryCache ι J) : Prop
  | unchanged (he : e.flight = none) (ht : c'.tasks = c.tasks) (hf : c'.flights = c.flights)
      (hn : c'.nextTask = c.nextTask)
      (hmiss : misses (⟨c, e, c'⟩ : Transition (QueryCache ι J) (Event ι J)) = false)
  | spawned {i q key} (he : e = .lookup i) (hi : c.callers i = some ⟨q, .waiting key⟩)
      (hi' : c'.callers i = some ⟨q, .joined key c.nextTask .miss⟩)
      (hcache : c'.store.cache.lookup key = none) (hfree : c.flights.lookup key = none)
      (hroom : c.flights.entries.length < opt.maxInflight)
      (ht : c'.tasks = Function.update c.tasks c.nextTask (some ⟨key, q, .spawned⟩))
      (hf : c'.flights = c.flights.insert key c.nextTask) (hn : c'.nextTask = c.nextTask + 1)
  | advanced {f key q stage stage'} (he : e.flight = some f) (hne : e ≠ .publish f)
      (hf : c.tasks f = some ⟨key, q, stage⟩) (hs : stage.outcome = none)
      (hs' : stage'.outcome = none) (hstart : stage'.started = true)
      (hexecute : stage.started = false ↔ e = .execute f)
      (ht : c'.tasks = Function.update c.tasks f (some ⟨key, q, stage'⟩))
      (hflights : c'.flights = c.flights) (hn : c'.nextTask = c.nextTask)
  | published {f key q result} (he : e = .publish f)
      (hf : c.tasks f = some ⟨key, q, .locked result⟩)
      (ht : c'.tasks = Function.update c.tasks f (some ⟨key, q, .published result⟩))
      (hflights : c'.flights = c.flights.erase key) (hn : c'.nextTask = c.nextTask)

/-- What an event does to the entries: what a lookup of `k` finds before and after it. -/
inductive StoreEffect (opt : CacheOptions) (c : QueryCache ι J) (e : Event ι J)
    (c' : QueryCache ι J) : Prop
  | unchanged (hl : ∀ k, c'.store.cache.lookup k = c.store.cache.lookup k)
  | purged {i q key} (he : e = .lookup i) (hi : c.callers i = some ⟨q, .waiting key⟩)
      (hs : c'.store = c.store.purge key.generation c.now)
  | touched {i q key entry now} (he : e = .hitReturn i)
      (hi : c.callers i = some ⟨q, .cleared key entry now⟩)
      (hs : c'.store.cache = c.store.cache.adjust key fun e => { e with touched := now })
  | inserted {f key q response} (he : e = .publish f)
      (hf : c.tasks f = some ⟨key, q, .locked (.ok response)⟩)
      (hs : c'.store = c.store.insert opt key response c.now)

theorem completed_cases (c : QueryCache ι J) (task : Task J) (result : SharedResult J) :
    c.completed opt task result = c.store ∨
      ∃ response, result = .ok response ∧
        c.completed opt task result = c.store.insert opt task.key response c.now := by
  unfold completed stored
  cases result with
  | error e => exact .inl rfl
  | ok response =>
    dsimp only
    split_ifs
    · exact .inr ⟨response, rfl, rfl⟩
    · exact .inl rfl

variable [DecidableEq ι]

theorem Step.tasks (h : Step codec opt c e c') : TaskEffect opt c e c' := by
  cases h with
  | @spawn i q key hi _ he hf hfree =>
    exact .spawned rfl hi (by simp) (by simpa using he) hf hfree rfl rfl rfl
  | execute hf => exact .advanced rfl nofun hf rfl rfl rfl (by simp [TaskStage.started]) rfl rfl rfl
  | answer hf => exact .advanced rfl nofun hf rfl rfl rfl (by simp [TaskStage.started]) rfl rfl rfl
  | relock hf => exact .advanced rfl nofun hf rfl rfl rfl (by simp [TaskStage.started]) rfl rfl rfl
  | publish hf => exact .published rfl hf rfl rfl rfl
  | _ => exact .unchanged rfl rfl rfl rfl (by simp [misses])

theorem Step.store (h : Step codec opt c e c') : StoreEffect opt c e c' := by
  cases h with
  | found hi | join hi | full hi | spawn hi => exact .purged rfl hi rfl
  | hitChanged hi | hitReturn hi => exact .touched rfl hi rfl
  | @publish f key q result hf =>
    rcases @completed_cases _ _ opt c ⟨key, q, .locked result⟩ result with
      hs | ⟨response, rfl, hs⟩
    · exact .unchanged fun k => by rw [hs]
    · exact .inserted rfl hf hs
  | rearrange hp => exact .unchanged fun k => AList.perm_lookup hp
  | _ => exact .unchanged fun k => rfl

/-! ### The invariant of the flights -/

omit [DecidableEq ι] in
/-- Only the end of a flight for `k` makes an entry for `k`. -/
theorem StoreEffect.lookup_none (h : StoreEffect opt c e c') {k : Key}
    (hk : c.store.cache.lookup k = none) : c'.store.cache.lookup k = none ∨
      ∃ f q response, e = .publish f ∧ c.tasks f = some ⟨k, q, .locked (.ok response)⟩ := by
  cases h with
  | unchanged hl => exact .inl ((hl k).trans hk)
  | purged _ _ hs =>
    left
    rw [hs, Store.lookup_purge, hk]
    rfl
  | touched _ _ hs =>
    left
    rw [hs, Map.lookup_adjust, hk]
    rfl
  | @inserted f key q response he hf hs =>
    by_cases hkey : k = key
    · subst hkey
      exact .inr ⟨f, q, response, he, hf⟩
    · left
      rw [hs]
      rcases Store.lookup_insert_of_ne c.store opt hkey response c.now with h | h
      · exact h.trans hk
      · exact h

/-- The invariant of the flights. -/
structure FlightInv (opt : CacheOptions) (c : QueryCache ι J) : Prop where
  fresh : ∀ f, c.nextTask ≤ f → c.tasks f = none
  flights : ∀ key f, c.flights.lookup key = some f ↔
    ∃ q stage, c.tasks f = some ⟨key, q, stage⟩ ∧ stage.outcome = none
  apart : ∀ key, c.flights.lookup key ≠ none → c.store.cache.lookup key = none
  bound : c.flights.entries.length ≤ opt.maxInflight

omit [DecidableEq ι] in
theorem flightInv_initial (generation : ℕ) (blocked : Bool → Option ClientError) (now : ℕ) :
    FlightInv opt (initial generation blocked now : QueryCache ι J) :=
  ⟨fun _ _ => rfl, fun _ _ => by simp [initial], fun _ h => absurd rfl h, Nat.zero_le _⟩

omit [DecidableEq ι] in
/-- Two unfinished tasks for one key are the same. -/
theorem FlightInv.unique (h : FlightInv opt c) {f f' : ℕ} {key : Key} {q q' : Query}
    {stage stage' : TaskStage J} (hf : c.tasks f = some ⟨key, q, stage⟩)
    (hs : stage.outcome = none) (hf' : c.tasks f' = some ⟨key, q', stage'⟩)
    (hs' : stage'.outcome = none) : f = f' := by
  have h1 := (h.flights key f).2 ⟨q, stage, hf, hs⟩
  have h2 := (h.flights key f').2 ⟨q', stage', hf', hs'⟩
  rw [h1] at h2
  exact Option.some.inj h2

omit [DecidableEq ι] in
theorem TaskEffect.fresh (ht : TaskEffect opt c e c') (h : FlightInv opt c) :
    ∀ f, c'.nextTask ≤ f → c'.tasks f = none := by
  intro f hf
  cases ht with
  | unchanged _ ht _ hn => rw [ht]; exact h.fresh f (hn ▸ hf)
  | spawned _ _ _ _ _ _ ht _ hn =>
    rw [hn] at hf
    rw [ht, Function.update_of_ne (by omega)]
    exact h.fresh f (by omega)
  | @advanced g _ _ _ _ _ _ hg _ _ _ _ ht _ hn =>
    rw [hn] at hf
    have hne : f ≠ g := by
      rintro rfl
      rw [h.fresh f hf] at hg
      cases hg
    rw [ht, Function.update_of_ne hne]
    exact h.fresh f hf
  | @published g _ _ _ _ hg ht _ hn =>
    rw [hn] at hf
    have hne : f ≠ g := by
      rintro rfl
      rw [h.fresh f hf] at hg
      cases hg
    rw [ht, Function.update_of_ne hne]
    exact h.fresh f hf

omit [DecidableEq ι] in
theorem TaskEffect.flights (ht : TaskEffect opt c e c') (h : FlightInv opt c) (key : Key) (f : ℕ) :
    c'.flights.lookup key = some f ↔
      ∃ q stage, c'.tasks f = some ⟨key, q, stage⟩ ∧ stage.outcome = none := by
  cases ht with
  | unchanged _ ht hf _ => rw [ht, hf]; exact h.flights key f
  | @spawned i q key' _ _ _ _ hfree _ ht hf _ =>
    rw [ht, hf]
    by_cases hfn : f = c.nextTask
    · -- the new flight
      subst hfn
      by_cases hk : key = key'
      · subst hk
        simp [TaskStage.outcome]
      · have hnone : c.flights.lookup key ≠ some c.nextTask := fun hl => by
          obtain ⟨q, stage, ht, -⟩ := (h.flights key _).1 hl
          rw [h.fresh _ le_rfl] at ht
          cases ht
        simp [AList.lookup_insert_ne hk, hnone, Ne.symm hk]
    · by_cases hk : key = key'
      · subst hk
        have hnone : ¬ ∃ q stage, c.tasks f = some ⟨key, q, stage⟩ ∧ stage.outcome = none := by
          rw [← h.flights key f, hfree]
          simp
        simpa [Function.update_of_ne hfn, Ne.symm hfn] using hnone
      · rw [AList.lookup_insert_ne hk, Function.update_of_ne hfn]
        exact h.flights key f
  | @advanced g key' q stage stage' _ _ hg hs hs' _ _ ht hf _ =>
    rw [ht, hf, h.flights key f]
    by_cases hfg : f = g
    · subst hfg
      rw [hg]
      constructor
      · rintro ⟨q', stage'', he, -⟩
        cases he
        exact ⟨q, stage', by simp, hs'⟩
      · rintro ⟨q', stage'', he, -⟩
        rw [Function.update_self] at he
        cases he
        exact ⟨q, stage, rfl, hs⟩
    · rw [Function.update_of_ne hfg]
  | @published g key' q result _ hg ht hf _ =>
    rw [ht, hf]
    have hlg := (h.flights key' g).2 ⟨q, _, hg, rfl⟩
    by_cases hfg : f = g
    · subst hfg
      have hnone : (c.flights.erase key').lookup key ≠ some f := by
        by_cases hk : key = key'
        · subst hk
          simp [AList.lookup_erase]
        · rw [AList.lookup_erase_ne hk]
          intro hl
          obtain ⟨q', stage, ht', -⟩ := (h.flights key f).1 hl
          rw [hg] at ht'
          cases ht'
          exact hk rfl
      refine iff_of_false hnone ?_
      rintro ⟨q', stage, he, hs⟩
      rw [Function.update_self] at he
      cases he
      cases hs
    · rw [Function.update_of_ne hfg]
      by_cases hk : key = key'
      · subst hk
        rw [AList.lookup_erase]
        refine iff_of_false nofun fun hex => ?_
        have := (h.flights key f).2 hex
        rw [hlg] at this
        exact hfg (Option.some.inj this).symm
      · rw [AList.lookup_erase_ne hk]
        exact h.flights key f

omit [DecidableEq ι] in
theorem TaskEffect.bound (ht : TaskEffect opt c e c') (h : FlightInv opt c) :
    c'.flights.entries.length ≤ opt.maxInflight := by
  cases ht with
  | unchanged _ _ hf _ => rw [hf]; exact h.bound
  | spawned _ _ _ _ hfree hroom _ hf _ =>
    rw [hf, AList.entries_insert_of_notMem (AList.lookup_eq_none.1 hfree)]
    simpa using hroom
  | advanced _ _ _ _ _ _ _ _ hf _ => rw [hf]; exact h.bound
  | published _ _ _ hf _ =>
    rw [hf]
    exact (Map.length_erase_le _ _).trans h.bound

omit [DecidableEq ι] in
theorem TaskEffect.apart (ht : TaskEffect opt c e c') (hs : StoreEffect opt c e c')
    (h : FlightInv opt c) (key : Key) (hk : c'.flights.lookup key ≠ none) :
    c'.store.cache.lookup key = none := by
  have hold : c.flights.lookup key ≠ none → (∀ f, e ≠ .publish f) →
      c'.store.cache.lookup key = none := fun hk hne =>
    (hs.lookup_none (h.apart key hk)).elim id fun ⟨f, _, _, he, _⟩ => absurd he (hne f)
  cases ht with
  | unchanged he _ hf _ _ =>
    refine hold (hf ▸ hk) ?_
    rintro f rfl
    cases he
  | @spawned i q key' he _ _ hcache _ _ _ hf _ =>
    by_cases hkey : key = key'
    · rw [hkey]
      exact hcache
    · refine hold ?_ (by simp [he])
      rwa [hf, AList.lookup_insert_ne hkey] at hk
  | advanced he hne _ _ _ _ _ _ hf _ =>
    refine hold (hf ▸ hk) ?_
    rintro g rfl
    cases he
    exact hne rfl
  | @published f key' q result he hf _ hflights _ =>
    rw [hflights] at hk
    by_cases hkey : key = key'
    · subst hkey
      exact absurd (AList.lookup_erase _ _) hk
    · rw [AList.lookup_erase_ne hkey] at hk
      rcases hs.lookup_none (h.apart key hk) with hl | ⟨g, q', response, he', hg⟩
      · exact hl
      · rw [he] at he'
        cases he'
        rw [hf] at hg
        cases hg
        exact absurd rfl hkey

variable [DecidableEq J]

theorem FlightInv.step (h : FlightInv opt c) (hstep : step codec opt c e = some c') :
    FlightInv opt c' :=
  have ht := (Step.of_step hstep).tasks
  ⟨ht.fresh h, ht.flights h, ht.apart (Step.of_step hstep).store h, ht.bound h⟩

theorem flightInv_of_run {ts : List (Transition (QueryCache ι J) (Event ι J))}
    (hrun : Run (QueryCache.step codec opt) c ts c') (h : FlightInv opt c) : FlightInv opt c' :=
  hrun.invariant (fun _ _ _ h hs => h.step hs) h

/-! ### Outcomes -/

omit [DecidableEq ι] [DecidableEq J] in
/-- A task keeps its key, and its outcome once it has one. -/
theorem TaskEffect.keeps (ht : TaskEffect opt c e c') (h : FlightInv opt c) {f : ℕ} {key : Key}
    {q : Query} {stage : TaskStage J} (hf : c.tasks f = some ⟨key, q, stage⟩) :
    ∃ stage', c'.tasks f = some ⟨key, q, stage'⟩ ∧ (stage.outcome.isSome = true → stage' = stage) ∧
      (stage.started = true → stage'.started = true) := by
  cases ht with
  | unchanged _ ht => exact ⟨stage, ht ▸ hf, fun _ => rfl, id⟩
  | spawned _ _ _ _ _ _ ht =>
    have hne : f ≠ c.nextTask := by
      rintro rfl
      rw [h.fresh _ le_rfl] at hf
      cases hf
    exact ⟨stage, by rw [ht, Function.update_of_ne hne, hf], fun _ => rfl, id⟩
  | @advanced g key' q' stage' stage'' _ _ hg hs _ hstart _ ht =>
    by_cases hfg : f = g
    · subst hfg
      rw [hf] at hg
      cases hg
      exact ⟨stage'', by rw [ht, Function.update_self], by simp [hs], fun _ => hstart⟩
    · exact ⟨stage, by rw [ht, Function.update_of_ne hfg, hf], fun _ => rfl, id⟩
  | @published g key' q' result _ hg ht =>
    by_cases hfg : f = g
    · subst hfg
      rw [hf] at hg
      cases hg
      exact ⟨_, by rw [ht, Function.update_self], by simp [TaskStage.outcome], fun _ => rfl⟩
    · exact ⟨stage, by rw [ht, Function.update_of_ne hfg, hf], fun _ => rfl, id⟩

/-- What a caller that has joined a flight knows about it. -/
def Consistent (c : QueryCache ι J) : CallerStage J → Prop
  | .joined key f _ => ∃ q stage, c.tasks f = some ⟨key, q, stage⟩
  | .woken key f _ result | .unlocked key f _ result =>
    ∃ q, c.tasks f = some ⟨key, q, .published result⟩
  | .returned (some f) result => ∃ key q outcome status,
    c.tasks f = some ⟨key, q, .published outcome⟩ ∧
      result = outcome.map fun response => (response, status)
  | _ => True

omit [DecidableEq ι] [DecidableEq J] in
theorem Consistent.mono {stage : CallerStage J} (hs : Consistent c stage)
    (ht : TaskEffect opt c e c') (h : FlightInv opt c) : Consistent c' stage := by
  have hpub : ∀ {f key q result}, c.tasks f = some ⟨key, q, .published result⟩ →
      c'.tasks f = some ⟨key, q, .published result⟩ := fun hf => by
    obtain ⟨stage', hf', hstage, -⟩ := ht.keeps h hf
    rw [hf', hstage rfl]
  unfold Consistent at *
  split at hs
  · obtain ⟨q, stage, hf⟩ := hs
    obtain ⟨stage', hf', -⟩ := ht.keeps h hf
    exact ⟨q, stage', hf'⟩
  · obtain ⟨q, hf⟩ := hs
    exact ⟨q, hpub hf⟩
  · obtain ⟨q, hf⟩ := hs
    exact ⟨q, hpub hf⟩
  · obtain ⟨key, q, outcome, status, hf, hr⟩ := hs
    exact ⟨key, q, outcome, status, hpub hf, hr⟩
  · trivial

omit [DecidableEq J] in
/-- A property of all callers, when the event changes only the caller `i`. -/
theorem forall_callers {P : ι → Caller J → Prop} {i : ι} {caller : Caller J}
    (hc : c'.callers = Function.update c.callers i (some caller)) (hi : P i caller)
    (hold : ∀ j caller, c.callers j = some caller → P j caller) :
    ∀ j caller, c'.callers j = some caller → P j caller := by
  intro j caller' hj
  rw [hc] at hj
  by_cases hji : j = i
  · subst hji
    rw [Function.update_self] at hj
    cases hj
    exact hi
  · rw [Function.update_of_ne hji] at hj
    exact hold j caller' hj

/-- Every caller is consistent with its flight. -/
def CallersConsistent (c : QueryCache ι J) : Prop :=
  ∀ i caller, c.callers i = some caller → Consistent c caller.stage

theorem CallersConsistent.step (hc : CallersConsistent c) (h : FlightInv opt c)
    (hstep : QueryCache.step codec opt c e = some c') : CallersConsistent c' := by
  have hs := Step.of_step hstep
  have hold : ∀ j caller, c.callers j = some caller → Consistent c' caller.stage :=
    fun j caller hj => (hc j caller hj).mono hs.tasks h
  cases hs with
  | arrive =>
    refine forall_callers rfl ?_ hold
    unfold arrival
    split <;> trivial
  | join _ _ _ hf =>
    obtain ⟨q, stage, ht, -⟩ := (h.flights _ _).1 hf
    exact forall_callers rfl ⟨q, stage, ht⟩ hold
  | @spawn i q => exact forall_callers rfl ⟨q, .spawned, by simp⟩ hold
  | wake hi ht hstage =>
    obtain ⟨q, stage, hf⟩ := hc _ _ hi
    rw [ht] at hf
    cases hf
    exact forall_callers rfl ⟨q, hstage ▸ ht⟩ hold
  | errorCheck hi => exact forall_callers rfl (hc _ _ hi) hold
  | finish hi =>
    obtain ⟨q, hf⟩ := hc _ _ hi
    exact forall_callers rfl ⟨_, q, _, _, hf, rfl⟩ hold
  | execute | answer | relock | publish | client | stop | advance | rearrange => exact hold
  | _ => exact forall_callers rfl trivial hold

/-! ### Counting -/

/-- The task `f` has called `execute`. -/
def started (c : QueryCache ι J) (f : ℕ) : Bool := (c.tasks f).any fun task => task.stage.started

/-- The flights so far whose task has called `execute`. -/
def startedTasks (c : QueryCache ι J) : Finset ℕ :=
  (Finset.range c.nextTask).filter fun f => started c f = true

/-- The flights so far whose task has not been scheduled yet. -/
def pendingTasks (c : QueryCache ι J) : Finset ℕ :=
  (Finset.range c.nextTask).filter fun f => started c f = false

omit [DecidableEq ι] [DecidableEq J] in
theorem mem_startedTasks {f : ℕ} :
    f ∈ startedTasks c ↔ f < c.nextTask ∧ started c f = true := by
  simp [startedTasks]

omit [DecidableEq ι] [DecidableEq J] in
theorem card_started_add_pending (c : QueryCache ι J) :
    (startedTasks c).card + (pendingTasks c).card = c.nextTask := by
  have h := Finset.card_filter_add_card_filter_not (s := Finset.range c.nextTask)
    fun f => started c f = true
  simpa [startedTasks, pendingTasks] using h

omit [DecidableEq ι] [DecidableEq J] in
theorem TaskEffect.nextTask (ht : TaskEffect opt c e c') : c'.nextTask = c.nextTask +
    if misses (⟨c, e, c'⟩ : Transition (QueryCache ι J) (Event ι J)) then 1 else 0 := by
  cases ht with
  | unchanged _ _ _ hn hmiss => simp [hn, hmiss]
  | spawned he _ hi' _ _ _ _ _ hn => simp [hn, misses, he, hi']
  | advanced he _ _ _ _ _ _ _ _ hn =>
    have hmiss : misses (⟨c, e, c'⟩ : Transition (QueryCache ι J) (Event ι J)) = false := by
      cases e <;> first | rfl | cases he
    simp [hn, hmiss]
  | published he _ _ _ hn => simp [hn, misses, he]

omit [DecidableEq ι] [DecidableEq J] in
theorem TaskEffect.card_started (ht : TaskEffect opt c e c') (h : FlightInv opt c) :
    (startedTasks c').card = (startedTasks c).card +
      if executes (⟨c, e, c'⟩ : Transition (QueryCache ι J) (Event ι J)) then 1 else 0 := by
  cases ht with
  | unchanged he ht _ hn =>
    have hex : executes (⟨c, e, c'⟩ : Transition (QueryCache ι J) (Event ι J)) = false := by
      cases e <;> first | rfl | cases he
    have hset : startedTasks c' = startedTasks c := by
      ext f
      simp only [mem_startedTasks, started, ht, hn]
    simp [hset, hex]
  | spawned he _ _ _ _ _ ht _ hn =>
    have hset : startedTasks c' = startedTasks c := by
      ext f
      simp only [mem_startedTasks, started, hn, ht]
      by_cases hf : f = c.nextTask
      · subst hf
        simp [TaskStage.started]
      · rw [Function.update_of_ne hf]
        have : f < c.nextTask + 1 ↔ f < c.nextTask := by omega
        rw [this]
    simp [hset, executes, he]
  | @advanced f key q stage stage' he _ hf _ _ hstart hexecute ht _ hn =>
    have hstarted : ∀ g, started c' g = if g = f then true else started c g := by
      intro g
      unfold started
      rw [ht]
      split_ifs with hg
      · subst hg
        simp [hstart]
      · rw [Function.update_of_ne hg]
    have hlt : f < c.nextTask := by
      by_contra hle
      rw [h.fresh f (by omega)] at hf
      cases hf
    by_cases hst : stage.started = true
    · have hne : e ≠ .execute f := fun he' => by simp [hexecute.2 he'] at hst
      have hex : executes (⟨c, e, c'⟩ : Transition (QueryCache ι J) (Event ι J)) = false := by
        cases e <;> first | rfl | skip
        cases he
        exact absurd rfl hne
      have hset : startedTasks c' = startedTasks c := by
        ext g
        simp only [mem_startedTasks, hn, hstarted]
        split_ifs with hg
        · subst hg
          simp [started, hf, hst]
        · rfl
      simp [hset, hex]
    · have he' : e = .execute f := hexecute.1 (by simpa using hst)
      have hset : startedTasks c' = insert f (startedTasks c) := by
        ext g
        simp only [mem_startedTasks, Finset.mem_insert, hn, hstarted]
        split_ifs with hg
        · subst hg
          simp [hlt]
        · simp [hg]
      have hnot : f ∉ startedTasks c := by simpa [mem_startedTasks, started, hf, hlt] using hst
      rw [hset, Finset.card_insert_of_notMem hnot]
      simp [executes, he']
  | @published f key q result he hf ht _ hn =>
    have hset : startedTasks c' = startedTasks c := by
      ext g
      simp only [mem_startedTasks, started, hn, ht]
      by_cases hg : g = f
      · subst hg
        simp [hf, TaskStage.started]
      · rw [Function.update_of_ne hg]
    simp [hset, executes, he]

/-- Every flight was started by one miss, and calls `execute` once. -/
theorem count_executes {ts : List (Transition (QueryCache ι J) (Event ι J))}
    (hrun : Run (QueryCache.step codec opt) c ts c') (h : FlightInv opt c) (hzero : c.nextTask = 0) :
    ts.countP executes = (startedTasks c').card ∧ ts.countP misses = c'.nextTask := by
  induction hrun with
  | nil => simp [startedTasks, hzero]
  | snoc hrun hstep ih =>
    have ht := (Step.of_step hstep).tasks
    rw [List.countP_append, List.countP_append, ih.1, ih.2, ht.nextTask,
      ht.card_started (flightInv_of_run hrun h), List.countP_singleton, List.countP_singleton]
    exact ⟨rfl, rfl⟩

/-- `client.execute` is called by the flight `f`. -/
def executesOf (f : ℕ) (t : Transition (QueryCache ι J) (Event ι J)) : Bool :=
  match t.event with
  | .execute g => g = f
  | _ => false

omit [DecidableEq ι] [DecidableEq J] in
theorem TaskEffect.started_of_executes (ht : TaskEffect opt c e c') {f : ℕ}
    (he : executesOf f (⟨c, e, c'⟩ : Transition (QueryCache ι J) (Event ι J)) = true) :
    started c f = false ∧ started c' f = true := by
  obtain rfl : e = .execute f := by
    cases e <;> simp_all [executesOf]
  cases ht with
  | unchanged he => cases he
  | spawned he => cases he
  | advanced he _ hf _ _ hstart hexecute ht =>
    cases he
    constructor
    · simpa [started, hf] using hexecute
    · simp [started, ht, hstart]
  | published he => cases he

omit [DecidableEq ι] [DecidableEq J] in
theorem started_mono (ht : TaskEffect opt c e c') (h : FlightInv opt c) {f : ℕ}
    (hf : started c f = true) : started c' f = true := by
  obtain ⟨⟨key, q, stage⟩, htask, hs⟩ := (Option.any_eq_true _ _).1 hf
  obtain ⟨stage', htask', -, hstart⟩ := ht.keeps h htask
  simp [started, htask', hstart hs]

/-- A flight calls `execute` at most once. -/
theorem executesOf_le_one {ts : List (Transition (QueryCache ι J) (Event ι J))}
    (hrun : Run (QueryCache.step codec opt) c ts c') (h : FlightInv opt c) (f : ℕ) :
    ts.countP (executesOf f) ≤ 1 ∧ (0 < ts.countP (executesOf f) → started c' f = true) := by
  induction hrun with
  | nil => simp
  | @snoc ts d e d' hrun hstep ih =>
    have ht := (Step.of_step hstep).tasks
    rw [List.countP_append, List.countP_singleton]
    split_ifs with he
    · obtain ⟨hbefore, hafter⟩ := ht.started_of_executes he
      have hzero : ts.countP (executesOf f) = 0 := by
        by_contra hpos
        rw [ih.2 (Nat.pos_of_ne_zero hpos)] at hbefore
        cases hbefore
      simp [hzero, hafter]
    · exact ⟨ih.1, fun hpos => started_mono ht (flightInv_of_run hrun h) (ih.2 hpos)⟩

/-! ### After a failed flight -/

/-- Nothing but a lookup of `key` brings the key back. -/
theorem absent_of_run {ts : List (Transition (QueryCache ι J) (Event ι J))}
    (hrun : Run (QueryCache.step codec opt) c ts c') (h : FlightInv opt c) {key : Key}
    (hf : c.flights.lookup key = none) (hc : c.store.cache.lookup key = none)
    (hno : ∀ t ∈ ts, ∀ i q, t.event = .lookup i → t.before.callers i ≠ some ⟨q, .waiting key⟩) :
    c'.flights.lookup key = none ∧ c'.store.cache.lookup key = none := by
  induction hrun with
  | nil => exact ⟨hf, hc⟩
  | @snoc ts d e d' hrun hstep ih =>
    obtain ⟨hf, hc⟩ := ih fun t ht => hno t (List.mem_append_left _ ht)
    have hinv := flightInv_of_run hrun h
    have hs := Step.of_step hstep
    constructor
    · cases hs.tasks with
      | unchanged _ _ hfl => rw [hfl]; exact hf
      | @spawned i q key' he hi _ _ _ _ _ hfl =>
        have hne : key ≠ key' := by
          rintro rfl
          exact hno ⟨d, e, d'⟩ (by simp) i q he hi
        rw [hfl, AList.lookup_insert_ne hne]
        exact hf
      | advanced _ _ _ _ _ _ _ _ hfl => rw [hfl]; exact hf
      | @published _ key' _ _ _ _ _ hfl =>
        rw [hfl]
        by_cases hkey : key = key'
        · rw [hkey]
          exact AList.lookup_erase _ _
        · rw [AList.lookup_erase_ne hkey]
          exact hf
    · rcases hs.store.lookup_none hc with hl | ⟨f, q, response, -, ht⟩
      · exact hl
      · rw [(hinv.flights key f).2 ⟨q, _, ht, rfl⟩] at hf
        cases hf

/-- A lookup of a key that has neither an entry nor a flight starts a flight, if there is room. -/
theorem lookup_absent {i : ι} {q : Query} {key : Key}
    (hstep : QueryCache.step codec opt c (.lookup i) = some c')
    (hi : c.callers i = some ⟨q, .waiting key⟩) (hf : c.flights.lookup key = none)
    (hc : c.store.cache.lookup key = none) :
    if c.flights.entries.length < opt.maxInflight then
      c'.callers i = some ⟨q, .joined key c.nextTask .miss⟩ ∧
        c'.tasks c.nextTask = some ⟨key, q, .spawned⟩ ∧ c'.nextTask = c.nextTask + 1
    else c'.callers i = some ⟨q, .returned none (.error (.new .queueFull))⟩ := by
  have hpurged : (c.purged key).store.cache.lookup key = none := by
    rw [purged_store, Store.lookup_purge, hc]
    rfl
  cases Step.of_step hstep with
  | found hi' _ he =>
    rw [hi] at hi'
    cases hi'
    rw [hpurged] at he
    cases he
  | join hi' _ _ hf' =>
    rw [hi] at hi'
    cases hi'
    rw [hf] at hf'
    cases hf'
  | full hi' _ _ _ hfull =>
    rw [hi] at hi'
    cases hi'
    rw [if_neg (by omega)]
    simp
  | spawn hi' _ _ _ hfree =>
    rw [hi] at hi'
    cases hi'
    rw [if_pos hfree]
    simp

/-- A lookup of a key that has a flight joins it, whatever the limit. -/
theorem lookup_joins (h : FlightInv opt c) {i : ι} {q : Query} {key : Key} {f : ℕ}
    (hstep : QueryCache.step codec opt c (.lookup i) = some c')
    (hi : c.callers i = some ⟨q, .waiting key⟩) (hf : c.flights.lookup key = some f) :
    c'.callers i = some ⟨q, .joined key f .coalesced⟩ := by
  have hpurged : (c.purged key).store.cache.lookup key = none := by
    rw [purged_store, Store.lookup_purge, h.apart key (by simp [hf])]
    rfl
  cases Step.of_step hstep with
  | found hi' _ he =>
    rw [hi] at hi'
    cases hi'
    rw [hpurged] at he
    cases he
  | join hi' _ _ hf' =>
    rw [hi] at hi'
    cases hi'
    rw [hf] at hf'
    cases hf'
    simp
  | full hi' _ _ hf' =>
    rw [hi] at hi'
    cases hi'
    rw [hf] at hf'
    cases hf'
  | spawn hi' _ _ hf' =>
    rw [hi] at hi'
    cases hi'
    rw [hf] at hf'
    cases hf'

/-- The end of a failed flight leaves neither an entry nor a flight. -/
theorem absent_of_failure (h : FlightInv opt c) {f : ℕ} {key : Key} {q : Query} {error : ClientError}
    (hstep : QueryCache.step codec opt c (.publish f) = some c')
    (hf : c.tasks f = some ⟨key, q, .locked (.error error)⟩) :
    c'.flights.lookup key = none ∧ c'.store.cache.lookup key = none := by
  have hl := (h.flights key f).2 ⟨q, _, hf, rfl⟩
  cases Step.of_step hstep with
  | publish hf' =>
    rw [hf] at hf'
    cases hf'
    exact ⟨AList.lookup_erase _ _, h.apart key (by simp [hl])⟩

/-! ### Single flight -/

/-- **Single flight.**  In every run of the cache: two running calls of `execute` are for different
keys; each miss has started one flight and each flight calls `execute` once, sooner or later; callers
that return the outcome of one flight return the same; a dropped caller changes nothing but itself;
after a failed flight the next lookup of its key starts one call, if there is room; the flights keep
to the limit, which never refuses a caller that joins one. -/
theorem single_flight {generation now : ℕ} {blocked : Bool → Option ClientError}
    {ts : List (Transition (QueryCache ι J) (Event ι J))}
    (hrun : Run (QueryCache.step codec opt) (initial generation blocked now) ts c) :
    (∀ f f' key q q', c.tasks f = some ⟨key, q, .executing⟩ →
      c.tasks f' = some ⟨key, q', .executing⟩ → f = f') ∧
    ts.countP executes + (pendingTasks c).card = ts.countP misses ∧
    (∀ f, ts.countP (executesOf f) ≤ 1) ∧
    (∀ i j q q' f result result', c.callers i = some ⟨q, .returned (some f) result⟩ →
      c.callers j = some ⟨q', .returned (some f) result'⟩ →
        result.map Prod.fst = result'.map Prod.fst) ∧
    (∀ t ∈ ts, ∀ i, t.event = .drop i → ∃ q, t.after = t.before.setCaller i ⟨q, .dropped⟩) ∧
    (∀ before t us u after f key q error i q', ts = before ++ t :: (us ++ u :: after) →
      t.event = .publish f → t.before.tasks f = some ⟨key, q, .locked (.error error)⟩ →
      (∀ t' ∈ us, ∀ j q, t'.event = .lookup j → t'.before.callers j ≠ some ⟨q, .waiting key⟩) →
      u.event = .lookup i → u.before.callers i = some ⟨q', .waiting key⟩ →
      (t.after.flights.lookup key = none ∧ t.after.store.cache.lookup key = none) ∧
      if u.before.flights.entries.length < opt.maxInflight then
        u.after.callers i = some ⟨q', .joined key u.before.nextTask .miss⟩ ∧
          u.after.tasks u.before.nextTask = some ⟨key, q', .spawned⟩ ∧
          u.after.nextTask = u.before.nextTask + 1
      else u.after.callers i = some ⟨q', .returned none (.error (.new .queueFull))⟩) ∧
    c.flights.entries.length ≤ opt.maxInflight ∧
    (∀ t ∈ ts, ∀ i q key f, t.event = .lookup i → t.before.callers i = some ⟨q, .waiting key⟩ →
      t.before.flights.lookup key = some f →
        t.after.callers i = some ⟨q, .joined key f .coalesced⟩) := by
  have hinit : FlightInv opt (initial generation blocked now : QueryCache ι J) :=
    flightInv_initial generation blocked now
  have hinv := flightInv_of_run hrun hinit
  have hcallers : CallersConsistent c := by
    have hboth : FlightInv opt c ∧ CallersConsistent c := by
      refine hrun.invariant (I := fun c => FlightInv opt c ∧ CallersConsistent c)
        (fun m e m' h hs => ⟨h.1.step hs, h.2.step h.1 hs⟩) ⟨hinit, ?_⟩
      intro i caller hi
      cases hi
    exact hboth.2
  refine ⟨?_, ?_, ?_, ?_, ?_, ?_, hinv.bound, ?_⟩
  · intro f f' key q q' hf hf'
    exact hinv.unique hf rfl hf' rfl
  · obtain ⟨hexecutes, hmisses⟩ := count_executes hrun hinit rfl
    rw [hexecutes, hmisses]
    exact card_started_add_pending c
  · exact fun f => (executesOf_le_one hrun hinit f).1
  · intro i j q q' f result result' hi hj
    obtain ⟨key, r, outcome, status, hf, rfl⟩ := hcallers _ _ hi
    obtain ⟨key', r', outcome', status', hf', rfl⟩ := hcallers _ _ hj
    rw [hf] at hf'
    cases hf'
    cases outcome <;> rfl
  · intro t ht i he
    have hstep := hrun.step_of_mem ht
    rw [he] at hstep
    generalize t.after = after at hstep
    cases Step.of_step hstep with
    | drop hi hs => exact ⟨_, rfl⟩
  · rintro before t us u after f key q error i q' rfl he hf hno hu hi
    obtain ⟨hbefore, hstep, hrest⟩ := hrun.around
    obtain ⟨hmid, hstep', -⟩ := hrest.around
    have hb := flightInv_of_run hbefore hinit
    have habsent := absent_of_failure hb (he ▸ hstep) hf
    have hnext := absent_of_run hmid (hb.step hstep) habsent.1 habsent.2 hno
    exact ⟨habsent, lookup_absent (hu ▸ hstep') hi hnext.1 hnext.2⟩
  · intro t ht i q key f he hi hf
    obtain ⟨before, after, rfl⟩ := List.append_of_mem ht
    obtain ⟨hbefore, hstep, -⟩ := hrun.around
    exact lookup_joins (flightInv_of_run hbefore hinit) (he ▸ hstep) hi hf

/-- Two callers share a flight. -/
def coalescedEvents : List (Event ℕ String) :=
  queryEvents 0 ++ [.lookup 0] ++ queryEvents 1 ++ [.lookup 1] ++ flightEvents 0 0 ++
    returnEvents 0 ++ returnEvents 1

def coalescedCache : QueryCache ℕ String := (exec sampleCacheStep sampleCache coalescedEvents).get rfl

theorem single_flight_coalesced :
    (transitions sampleCacheStep sampleCache coalescedEvents).countP executes +
      (pendingTasks coalescedCache).card =
        (transitions sampleCacheStep sampleCache coalescedEvents).countP misses ∧
    coalescedCache.flights.entries.length ≤ 32 := by
  have h := single_flight (run_get coalescedEvents rfl : Run sampleCacheStep sampleCache _ _)
  exact ⟨h.2.1, h.2.2.2.2.2.2.1⟩

end MoenotesApi.QueryCache
