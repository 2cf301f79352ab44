import MoenotesApi.Cache.Callers
import MoenotesApi.Library.Weights

/-!
# Every query of the cache comes to its end

A caller waits for the state lock or for a flight, a flight for the upstream and for the lock.

* `Held`: the lock is held by a caller or a task that can go on;
* `enabled_of_underway`, `enabled_of_unpublished`: while a caller or a task is under way, one of them can go
  on;
* `CallerStage.rank`, `TaskStage.rank`: the steps that they have left at most; `bounded_of_run`: a cache
  makes at most ten steps for each query;
* `cache_settles`: both together.
-/

namespace MoenotesApi

/-- The call of `query` has neither returned nor been dropped. -/
def CallerStage.underway {J : Type} : CallerStage J → Bool
  | .returned _ _ | .dropped => false
  | _ => true

/-- The steps that a caller has left at most, with those of the flight that it may still start. -/
def CallerStage.rank {J : Type} : CallerStage J → ℕ
  | .arrived => 10
  | .unblocked => 9
  | .waiting _ => 8
  | .joined _ _ _ => 3
  | .found _ _ _ | .woken _ _ _ _ => 2
  | .cleared _ _ _ | .unlocked _ _ _ _ => 1
  | .returned _ _ | .dropped => 0

/-- The steps that a task has left. -/
def TaskStage.rank {J : Type} : TaskStage J → ℕ
  | .spawned => 4
  | .executing => 3
  | .computed _ => 2
  | .locked _ => 1
  | .published _ => 0

namespace QueryCache

open Runs

variable {ι J : Type} {codec : Codec J} {opt : CacheOptions} {c c' : QueryCache ι J}
variable {e : Event ι J} {ts : List (Transition (QueryCache ι J) (Event ι J))} {i : ι}

/-- A caller or a task goes on; it is neither dropped nor cut short by the end of the server. -/
def Event.proceeds : Event ι J → Bool
  | .begin _ | .capture _ | .lookup _ | .hitCheck _ | .hitReturn _ | .wake _ | .errorCheck _
  | .finish _ | .execute _ | .answer _ _ | .relock _ | .publish _ => true
  | _ => false

/-! ### The lock -/

/-- The lock is held by someone who can go on. -/
structure Held (c : QueryCache ι J) : Prop where
  caller : ∀ i, c.holder = some (.caller i) →
    ∃ q stage, c.callers i = some ⟨q, stage⟩ ∧ stage.holding = true
  task : ∀ f, c.holder = some (.task f) → ∃ key q result, c.tasks f = some ⟨key, q, .locked result⟩

theorem held_of_free (h : c.holder = none) : Held c := by
  constructor
  · intro i hi
    rw [h] at hi
    cases hi
  · intro f hf
    rw [h] at hf
    cases hf

variable [DecidableEq ι]

/-- A caller moves, and leaves the lock alone. -/
theorem Held.move (h : Held c) {q : Query} {stage stage' : CallerStage J}
    (hi : c.callers i = some ⟨q, stage⟩) (hholding : stage.holding = true → stage'.holding = true)
    (hcallers : c'.callers = Function.update c.callers i (some ⟨q, stage'⟩))
    (hholder : c'.holder = c.holder) (htasks : ∀ f task, c.tasks f = some task → c'.tasks f = some task) :
    Held c' := by
  constructor
  · intro j hj
    obtain ⟨q', stage₀, hcaller, hstage⟩ := h.caller j (hholder ▸ hj)
    rw [hcallers]
    by_cases hji : j = i
    · subst hji
      rw [hi] at hcaller
      cases hcaller
      exact ⟨q, stage', Function.update_self _ _ _, hholding hstage⟩
    · exact ⟨q', stage₀, by rw [Function.update_of_ne hji, hcaller], hstage⟩
  · intro f hf
    obtain ⟨key, q', result, htask⟩ := h.task f (hholder ▸ hf)
    exact ⟨key, q', result, htasks f _ htask⟩

omit [DecidableEq ι] in
/-- A task without the lock moves, and leaves it alone. -/
theorem Held.work (h : Held c) {f : ℕ} {task task' : Task J} (hf : c.tasks f = some task)
    (hunlocked : ∀ result, task.stage ≠ .locked result)
    (htasks : c'.tasks = Function.update c.tasks f (some task')) (hcallers : c'.callers = c.callers)
    (hholder : c'.holder = c.holder) : Held c' := by
  constructor
  · intro j hj
    obtain ⟨q, stage, hcaller, hstage⟩ := h.caller j (hholder ▸ hj)
    exact ⟨q, stage, by rw [hcallers, hcaller], hstage⟩
  · intro g hg
    obtain ⟨key, q, result, htask⟩ := h.task g (hholder ▸ hg)
    have hgf : g ≠ f := by
      rintro rfl
      rw [hf] at htask
      cases htask
      exact hunlocked result rfl
    exact ⟨key, q, result, by rw [htasks, Function.update_of_ne hgf, htask]⟩

theorem Held.step (h : Held c) (hinv : FlightInv opt c) (hs : Step codec opt c e c') : Held c' := by
  have same (hcallers : c'.callers = c.callers) (htasks : c'.tasks = c.tasks)
      (hholder : c'.holder = c.holder) : Held c' := by
    constructor
    · rw [hcallers, hholder]
      exact h.caller
    · rw [htasks, hholder]
      exact h.task
  cases hs with
  | @arrive i q hi =>
    constructor
    · intro j hj
      obtain ⟨q', stage, hcaller, hstage⟩ := h.caller j hj
      have hji : j ≠ i := by
        rintro rfl
        rw [hi] at hcaller
        cases hcaller
      exact ⟨q', stage, by rw [setCaller_callers, Function.update_of_ne hji, hcaller], hstage⟩
    · exact h.task
  | blocked hi | unblocked hi | stopped hi | capture hi | join hi | full hi | wake hi | wokenBlocked hi
  | errorCheck hi | finishChanged hi | finish hi | cancelled hi =>
    exact h.move hi (by simp [CallerStage.holding]) rfl rfl fun _ _ hf => hf
  | drop hi hs =>
    refine h.move hi ?_ rfl rfl fun _ _ hf => hf
    rcases hs with ⟨key, rfl⟩ | ⟨key, f, status, rfl⟩ <;> simp [CallerStage.holding]
  | spawn hi =>
    refine h.move hi (by simp [CallerStage.holding]) rfl rfl fun f task hf => ?_
    have hlt : f ≠ c.nextTask := by
      rintro rfl
      rw [hinv.fresh _ le_rfl] at hf
      cases hf
    rw [spawn_tasks, purged_tasks, purged_nextTask, Function.update_of_ne hlt, hf]
  | found hi =>
    constructor
    · intro j hj
      cases hj
      exact ⟨_, _, Function.update_self _ _ _, rfl⟩
    · intro f hf
      cases hf
  | hitCheck hi => exact h.move hi (fun _ => rfl) rfl rfl fun _ _ hf => hf
  | hitBlocked | hitChanged | hitReturn | publish => exact held_of_free rfl
  | execute hf => exact h.work hf (by simp) rfl rfl rfl
  | answer hf => exact h.work hf (by simp) rfl rfl rfl
  | relock hf =>
    constructor
    · intro j hj
      cases hj
    · intro f hf
      cases hf
      exact ⟨_, _, _, Function.update_self _ _ _⟩
  | client | stop | advance | rearrange => exact same rfl rfl rfl

variable [DecidableEq J]

theorem held_of_run {generation now : ℕ} {blocked : Bool → Option ClientError}
    (hrun : Run (QueryCache.step codec opt) (initial generation blocked now) ts c) : Held c := by
  induction hrun with
  | nil => exact held_of_free rfl
  | snoc hrun hstep ih => exact ih.step (history_of_run hrun).1 (Step.of_step hstep)

/-! ### No caller and no task is stuck -/

/-- A caller or a task can go on. -/
def CanProceed (codec : Codec J) (opt : CacheOptions) (c : QueryCache ι J) : Prop :=
  ∃ e, e.proceeds = true ∧ (c.step codec opt e).isSome = true

/-- The holder of the lock can go on. -/
theorem Held.free_or_proceeds (h : Held c) : c.holder = none ∨ CanProceed codec opt c := by
  cases hholder : c.holder with
  | none => exact .inl rfl
  | some holder =>
    right
    cases holder with
    | caller i =>
      obtain ⟨q, stage, hi, hstage⟩ := h.caller i hholder
      cases stage with
      | found key entry now =>
        refine ⟨.hitCheck i, rfl, ?_⟩
        cases hb : c.blocked q.method.anonymous <;>
          simp [QueryCache.step, Event.caller, hi, stepCaller, hb]
      | cleared key entry now =>
        refine ⟨.hitReturn i, rfl, ?_⟩
        by_cases hg : c.generation = key.generation <;>
          simp [QueryCache.step, Event.caller, hi, stepCaller, hg]
      | arrived | unblocked | waiting | joined | woken | unlocked | returned | dropped => cases hstage
    | task f =>
      obtain ⟨key, q, result, hf⟩ := h.task f hholder
      exact ⟨.publish f, rfl, by simp [QueryCache.step, Event.caller, Event.flight, hf, stepTask]⟩

/-- While a task has not published, it or the holder of the lock can go on. -/
theorem enabled_of_unpublished (h : Held c) {f : ℕ} {task : Task J} (hf : c.tasks f = some task)
    (hstage : task.stage.outcome = none) : CanProceed codec opt c := by
  obtain ⟨key, q, stage⟩ := task
  cases stage with
  | spawned => exact ⟨.execute f, rfl, by simp [QueryCache.step, Event.caller, Event.flight, hf, stepTask]⟩
  | executing =>
    exact ⟨.answer f (.error (.new .transport)), rfl,
      by simp [QueryCache.step, Event.caller, Event.flight, hf, stepTask]⟩
  | computed result =>
    have hlock : c.holder = none ∨ CanProceed codec opt c := h.free_or_proceeds
    rcases hlock with hfree | hproceeds
    · exact ⟨.relock f, rfl,
        by simp [QueryCache.step, Event.caller, Event.flight, hf, stepTask, hfree]⟩
    · exact hproceeds
  | locked result =>
    exact ⟨.publish f, rfl, by simp [QueryCache.step, Event.caller, Event.flight, hf, stepTask]⟩
  | published result => cases hstage

/-- While a caller is under way, it, its flight or the holder of the lock can go on. -/
theorem enabled_of_underway (h : Held c) (hcon : CallersConsistent c) {q : Query}
    {stage : CallerStage J} (hi : c.callers i = some ⟨q, stage⟩) (hstage : stage.underway = true) :
    CanProceed codec opt c := by
  cases stage with
  | arrived =>
    refine ⟨.begin i, rfl, ?_⟩
    cases hb : c.blocked q.method.anonymous <;>
      simp [QueryCache.step, Event.caller, hi, stepCaller, hb]
  | unblocked =>
    refine ⟨.capture i, rfl, ?_⟩
    cases hs : c.stopped <;> simp [QueryCache.step, Event.caller, hi, stepCaller, hs]
  | waiting key =>
    have hlock : c.holder = none ∨ CanProceed codec opt c := h.free_or_proceeds
    rcases hlock with hfree | hproceeds
    · exact ⟨.lookup i, rfl, by simp [QueryCache.step, Event.caller, hi, stepCaller, hfree]⟩
    · exact hproceeds
  | found key entry now =>
    refine ⟨.hitCheck i, rfl, ?_⟩
    cases hb : c.blocked q.method.anonymous <;>
      simp [QueryCache.step, Event.caller, hi, stepCaller, hb]
  | cleared key entry now =>
    refine ⟨.hitReturn i, rfl, ?_⟩
    by_cases hg : c.generation = key.generation <;>
      simp [QueryCache.step, Event.caller, hi, stepCaller, hg]
  | joined key f status =>
    obtain ⟨q', stage', hf⟩ := hcon i _ hi
    cases houtcome : stage'.outcome with
    | none => exact enabled_of_unpublished h hf houtcome
    | some result =>
      cases stage' with
      | published result =>
        exact ⟨.wake i, rfl, by simp [QueryCache.step, Event.caller, hi, stepCaller, hf]⟩
      | spawned | executing | computed | locked => cases houtcome
  | woken key f status result =>
    refine ⟨.errorCheck i, rfl, ?_⟩
    cases hb : c.blocked q.method.anonymous <;>
      simp [QueryCache.step, Event.caller, hi, stepCaller, hb]
  | unlocked key f status result =>
    refine ⟨.finish i, rfl, ?_⟩
    by_cases hg : c.generation = key.generation <;>
      simp [QueryCache.step, Event.caller, hi, stepCaller, hg]
  | returned | dropped => cases hstage

omit [DecidableEq J] in
/-- A caller that is known and has not been dropped stays so until somebody drops it. -/
theorem Step.undropped (h : Step codec opt c e c') {q : Query} {stage : CallerStage J}
    (hi : c.callers i = some ⟨q, stage⟩) (hstage : stage ≠ .dropped) (he : e ≠ .drop i) :
    ∃ stage', c'.callers i = some ⟨q, stage'⟩ ∧ stage' ≠ .dropped := by
  have update {j : ι} {q' : Query} {stage₀ stage' : CallerStage J} (hj : c.callers j = some ⟨q', stage₀⟩)
      (hstage' : j = i → stage' ≠ .dropped) :
      ∃ stage₁, Function.update c.callers j (some ⟨q', stage'⟩) i = some ⟨q, stage₁⟩ ∧
        stage₁ ≠ .dropped := by
    by_cases hij : i = j
    · subst hij
      rw [hi] at hj
      cases hj
      exact ⟨stage', Function.update_self _ _ _, hstage' rfl⟩
    · exact ⟨stage, by rw [Function.update_of_ne hij, hi], hstage⟩
  cases h with
  | @arrive j q' hj =>
    have hij : i ≠ j := by
      rintro rfl
      rw [hi] at hj
      cases hj
    exact ⟨stage, by rw [setCaller_callers, Function.update_of_ne hij, hi], hstage⟩
  | drop hj =>
    refine update hj ?_
    rintro rfl
    exact absurd rfl he
  | blocked hj | unblocked hj | stopped hj | capture hj | found hj | join hj | full hj | spawn hj
  | hitBlocked hj | hitCheck hj | hitChanged hj | hitReturn hj | wake hj | wokenBlocked hj
  | errorCheck hj | finishChanged hj | finish hj | cancelled hj => exact update hj (by simp)
  | execute | answer | relock | publish | client | stop | advance | rearrange =>
    exact ⟨stage, hi, hstage⟩

/-! ### The work that is left -/

def callerRank (caller : Option (Caller J)) : ℕ := (caller.map fun caller => caller.stage.rank).getD 0

def taskRank (task : Option (Task J)) : ℕ := (task.map fun task => task.stage.rank).getD 0

/-- A caller or a task goes on in this transition. -/
def proceeds (t : Transition (QueryCache ι J) (Event ι J)) : Bool := t.event.proceeds

/-- Callers and tasks have at most `n` steps left. -/
def Left (c : QueryCache ι J) (n : ℕ) : Prop :=
  ∃ a b, Weighs callerRank c.callers a ∧ Weighs taskRank c.tasks b ∧ a + b = n

omit [DecidableEq J] in
/-- A caller that moves has fewer steps left, by one if it goes on. -/
theorem Left.move {n : ℕ} (h : Left c n) {q : Query} {stage stage' : CallerStage J}
    (hi : c.callers i = some ⟨q, stage⟩) (hrank : stage'.rank + e.proceeds.toNat ≤ stage.rank)
    (hcallers : c'.callers = Function.update c.callers i (some ⟨q, stage'⟩))
    (htasks : c'.tasks = c.tasks) : ∃ n', Left c' n' ∧ n' + e.proceeds.toNat ≤ n := by
  obtain ⟨a, b, ha, hb, rfl⟩ := h
  have hle : stage.rank ≤ a := by
    have hle := ha.le i
    rwa [hi] at hle
  refine ⟨a - stage.rank + stage'.rank + b, ⟨_, b, ?_, by rwa [htasks], rfl⟩, by omega⟩
  rw [hcallers]
  refine ha.update ?_
  rw [hi]
  simp only [callerRank, Option.map_some, Option.getD_some]
  omega

omit [DecidableEq ι] [DecidableEq J] in
/-- A task that moves has one step less. -/
theorem Left.work {n : ℕ} (h : Left c n) {f : ℕ} {key : Key} {q : Query} {stage stage' : TaskStage J}
    (hf : c.tasks f = some ⟨key, q, stage⟩) (hrank : stage'.rank + e.proceeds.toNat ≤ stage.rank)
    (htasks : c'.tasks = Function.update c.tasks f (some ⟨key, q, stage'⟩))
    (hcallers : c'.callers = c.callers) : ∃ n', Left c' n' ∧ n' + e.proceeds.toNat ≤ n := by
  obtain ⟨a, b, ha, hb, rfl⟩ := h
  have hle : stage.rank ≤ b := by
    have hle := hb.le f
    rwa [hf] at hle
  refine ⟨a + (b - stage.rank + stage'.rank), ⟨a, _, by rwa [hcallers], ?_, rfl⟩, by omega⟩
  rw [htasks]
  refine hb.update ?_
  rw [hf]
  simp only [taskRank, Option.map_some, Option.getD_some]
  omega

omit [DecidableEq J] in
/-- A flight is started with four steps, and the caller that starts it has three left. -/
theorem Left.spawn {n : ℕ} (h : Left c n) {q : Query} {key : Key} {stage : CallerStage J}
    (hi : c.callers i = some ⟨q, stage⟩) (hrank : stage.rank = 8) (hfresh : c.tasks c.nextTask = none) :
    ∃ n', Left ((c.purged key).spawn i ⟨q, stage⟩ key) n' ∧ n' + 1 ≤ n := by
  obtain ⟨a, b, ha, hb, rfl⟩ := h
  have hle : 8 ≤ a := by
    have hle := ha.le i
    rwa [hi, show callerRank (some (⟨q, stage⟩ : Caller J)) = 8 from hrank] at hle
  refine ⟨a - 8 + 3 + (b + 4), ⟨_, _, ?_, ?_, rfl⟩, by omega⟩
  · refine ha.update ?_
    rw [hi, show callerRank (some (⟨q, stage⟩ : Caller J)) = 8 from hrank]
    simp only [callerRank, Option.map_some, Option.getD_some, CallerStage.rank]
    omega
  · refine hb.update ?_
    rw [purged_nextTask, hfresh]
    rfl

omit [DecidableEq J] in
theorem Left.step {n : ℕ} (h : Left c n) (hinv : FlightInv opt c) (hs : Step codec opt c e c') :
    ∃ n', Left c' n' ∧ n' + e.proceeds.toNat ≤
      n + 10 * (arrives (⟨c, e, c'⟩ : Transition (QueryCache ι J) (Event ι J))).toNat := by
  have quiet (hle : ∃ n', Left c' n' ∧ n' + e.proceeds.toNat ≤ n) : ∃ n', Left c' n' ∧
      n' + e.proceeds.toNat ≤
        n + 10 * (arrives (⟨c, e, c'⟩ : Transition (QueryCache ι J) (Event ι J))).toNat := by
    obtain ⟨n', hn', hle⟩ := hle
    exact ⟨n', hn', by omega⟩
  have same (he : e.proceeds = false) (hcallers : c'.callers = c.callers)
      (htasks : c'.tasks = c.tasks) : ∃ n', Left c' n' ∧ n' + e.proceeds.toNat ≤ n := by
    obtain ⟨a, b, ha, hb, rfl⟩ := h
    exact ⟨a + b, ⟨a, b, by rwa [hcallers], by rwa [htasks], rfl⟩, by simp [he]⟩
  cases hs with
  | @arrive i q hi =>
    obtain ⟨a, b, ha, hb, rfl⟩ := h
    have hrank : (arrival opt q : CallerStage J).rank ≤ 10 := by
      unfold arrival
      split <;> simp [CallerStage.rank]
    refine ⟨a + (arrival opt q : CallerStage J).rank + b, ⟨_, b, ha.update ?_, hb, rfl⟩, ?_⟩
    · rw [hi]
      rfl
    · simp only [Event.proceeds, arrives, Bool.toNat_false, Bool.toNat_true]
      omega
  | blocked hi | unblocked hi | stopped hi | capture hi | found hi | join hi | full hi | hitBlocked hi
  | hitCheck hi | hitChanged hi | hitReturn hi | wake hi | wokenBlocked hi | errorCheck hi
  | finishChanged hi | finish hi | cancelled hi =>
    refine quiet (h.move hi ?_ rfl rfl)
    simp [CallerStage.rank, Event.proceeds]
  | drop hi hs =>
    refine quiet (h.move hi ?_ rfl rfl)
    simp [CallerStage.rank, Event.proceeds]
  | spawn hi => exact quiet (h.spawn hi rfl (hinv.fresh _ le_rfl))
  | execute hf | answer hf | relock hf | publish hf =>
    refine quiet (h.work hf ?_ rfl rfl)
    simp [TaskStage.rank, Event.proceeds]
  | client | stop | advance | rearrange => exact quiet (same rfl rfl rfl)

/-- A cache makes at most ten steps for each query. -/
theorem bounded_of_run {generation now : ℕ} {blocked : Bool → Option ClientError}
    (hrun : Run (QueryCache.step codec opt) (initial generation blocked now) ts c) :
    ts.countP proceeds ≤ 10 * ts.countP arrives := by
  have hstart : Left (initial generation blocked now : QueryCache ι J) 0 :=
    ⟨0, 0, .zero fun _ => rfl, .zero fun _ => rfl, rfl⟩
  obtain ⟨n, -, hle⟩ : ∃ n, Left c n ∧ ts.countP proceeds + n ≤ 0 + 10 * ts.countP arrives :=
    hrun.accounting hstart
      fun _ _ _ _ _ hrun hn hstep => hn.step (history_of_run hrun).1 (Step.of_step hstep)
  omega

/-- Where nobody can go on, nobody has anything left to do. -/
theorem settled_of_run {generation now : ℕ} {blocked : Bool → Option ClientError}
    (hrun : Run (QueryCache.step codec opt) (initial generation blocked now) ts c)
    (hstuck : ¬ CanProceed codec opt c) :
    (∀ i caller, c.callers i = some caller → caller.stage.underway = false) ∧
      (∀ key, c.flights.lookup key = none) ∧ c.holder = none := by
  obtain ⟨hinv, hcon, -⟩ := history_of_run hrun
  have hheld := held_of_run hrun
  refine ⟨fun i caller hi => ?_, fun key => ?_, hheld.free_or_proceeds.resolve_right hstuck⟩
  · cases hstage : caller.stage.underway with
    | false => rfl
    | true => exact absurd (enabled_of_underway hheld hcon hi hstage) hstuck
  · cases hflight : c.flights.lookup key with
    | none => rfl
    | some f =>
      obtain ⟨q, stage, hf, hstage⟩ := (hinv.flights key f).1 hflight
      exact absurd (enabled_of_unpublished hheld hf hstage) hstuck

/-- **Every query of the cache comes to its end.**  However callers, flights, the upstream and the client
are interleaved, callers and flights make at most ten steps for each query, so that they cannot go on
for ever; and when none of them can go on, every call has returned or was dropped, no flight is left and
nobody holds the lock. -/
theorem cache_settles {generation now : ℕ} {blocked : Bool → Option ClientError}
    (hrun : Run (QueryCache.step codec opt) (initial generation blocked now) ts c) :
    ts.countP proceeds ≤ 10 * ts.countP arrives ∧
      (¬ CanProceed codec opt c →
        (∀ i caller, c.callers i = some caller → caller.stage.underway = false) ∧
          (∀ key, c.flights.lookup key = none) ∧ c.holder = none) :=
  ⟨bounded_of_run hrun, settled_of_run hrun⟩

theorem cache_settles_coalesced :
    (transitions sampleCacheStep sampleCache coalescedEvents).countP proceeds ≤
      10 * (transitions sampleCacheStep sampleCache coalescedEvents).countP arrives :=
  (cache_settles (run_get coalescedEvents rfl : Run sampleCacheStep sampleCache _ coalescedCache)).1

end QueryCache

end MoenotesApi
