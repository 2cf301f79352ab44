import MoenotesApi.Pool.Cooldown
import MoenotesApi.Library.Weights

/-!
# Every query of the pool comes to its end

* `Holding`: the lock of the cursor is held by a query in its selection loop;
* `proceeds_of_underway`: while a query is under way, it or the holder of the lock can go on;
* `PoolStage.rank`, `Step.progress`: the steps that a query has left, and what an event does to them;
* `bounded_of_query`, `bounded_of_run`: in a pool of `n` members each query makes at most `n + 7` steps;
* `pool_settles`: both together.
-/

namespace MoenotesApi

/-- The call of `query` has neither returned nor been dropped. -/
def PoolStage.underway {α : Type} : PoolStage α → Bool
  | .returned _ | .dropped => false
  | _ => true

/-- The steps that a query has left at most, in a pool of this size. -/
def PoolStage.rank {α : Type} (size : ℕ) : PoolStage α → ℕ
  | .waiting _ => size + 7
  | .selecting _ offset _ => size - offset + 6
  | .chosen _ _ => 5
  | .running _ _ => 4
  | .failed _ _ _ => 3
  | .checked _ _ _ => 2
  | .stamped _ _ _ _ => 1
  | .returned _ | .dropped => 0

namespace SessionPool

open Runs

variable {ι σ α : Type} [DecidableEq ι] {p p' : SessionPool ι σ α} {e : Event ι σ α} {i : ι}
variable {ts : List (Transition (SessionPool ι σ α) (Event ι σ α))}

/-- A query goes on. -/
def Event.proceeds : Event ι σ α → Bool
  | .lock _ | .examine _ | .enter _ | .answer _ _ | .check _ | .stamp _ | .write _ => true
  | _ => false

/-! ### The lock of the cursor -/

/-- The lock is held by a query that can go on. -/
def Holding (p : SessionPool ι σ α) : Prop :=
  ∀ i, p.holder = some i → ∃ q offset firstError, p.queries i = some (.selecting q offset firstError)

/-- A query outside the selection loop moves, and leaves the lock alone. -/
theorem Holding.move (h : Holding p) {stage : PoolStage α}
    (hi : ∀ q offset firstError, p.queries i ≠ some (.selecting q offset firstError))
    (hqueries : p'.queries = Function.update p.queries i (some stage)) (hholder : p'.holder = p.holder) :
    Holding p' := by
  intro j hj
  obtain ⟨q, offset, firstError, hstage⟩ := h j (hholder ▸ hj)
  have hji : j ≠ i := by
    rintro rfl
    exact hi _ _ _ hstage
  exact ⟨q, offset, firstError, by rw [hqueries, Function.update_of_ne hji, hstage]⟩

theorem Holding.step (h : Holding p) (hs : Step p e p') : Holding p' := by
  cases hs with
  | query hi => exact h.move (by simp [hi]) rfl rfl
  | lock hi =>
    intro j hj
    cases hj
    exact ⟨_, _, _, Function.update_self _ _ _⟩
  | @examineRefused i q offset firstError error hi =>
    intro j hj
    simp only [setQuery_holder, preflight_holder] at hj
    simp only [setQuery_queries, preflight_queries]
    by_cases hji : j = i
    · subst hji
      exact ⟨_, _, _, Function.update_self _ _ _⟩
    · rw [Function.update_of_ne hji]
      exact h j hj
  | examinePicked | examineEnd =>
    intro j hj
    cases hj
  | enter hi | answer hi | checkFailed hi | check hi | stamp hi | write hi | drop hi =>
    exact h.move (by simp [hi]) rfl rfl
  | inspect | session | client | stop | advance => exact h

theorem holding_of_run (hrun : Run SessionPool.step p ts p') (h : Holding p) : Holding p' :=
  hrun.invariant (fun _ _ _ hm he => hm.step (Step.of_step he)) h

/-! ### No query is stuck -/

/-- A query can go on. -/
def CanProceed (p : SessionPool ι σ α) : Prop := ∃ e, e.proceeds = true ∧ (p.step e).isSome = true

/-- While a query is under way, it or the holder of the lock can go on. -/
theorem proceeds_of_underway (h : Holding p) {stage : PoolStage α} (hi : p.queries i = some stage)
    (hstage : stage.underway = true) : CanProceed p := by
  cases stage with
  | waiting q =>
    cases hholder : p.holder with
    | none => exact ⟨.lock i, rfl, by simp [SessionPool.step, hi, stepQuery, hholder]⟩
    | some j =>
      obtain ⟨q', offset, firstError, hj⟩ := h j hholder
      exact ⟨.examine j, rfl, by simp [SessionPool.step, hj, stepQuery]⟩
  | selecting q offset firstError =>
    exact ⟨.examine i, rfl, by simp [SessionPool.step, hi, stepQuery]⟩
  | chosen q j => exact ⟨.enter i, rfl, by simp [SessionPool.step, hi, stepQuery]⟩
  | running j g =>
    exact ⟨.answer i (.error (.new .transport)), rfl, by simp [SessionPool.step, hi, stepQuery]⟩
  | failed j g error =>
    refine ⟨.check i, rfl, ?_⟩
    by_cases hg : (p.members j).generation = g <;> simp [SessionPool.step, hi, stepQuery, hg]
  | checked j g error => exact ⟨.stamp i, rfl, by simp [SessionPool.step, hi, stepQuery]⟩
  | stamped j g error expires => exact ⟨.write i, rfl, by simp [SessionPool.step, hi, stepQuery]⟩
  | returned | dropped => cases hstage

/-- A query that is known and has not been dropped stays so until somebody drops it. -/
theorem Step.undropped (h : Step p e p') {stage : PoolStage α} (hi : p.queries i = some stage)
    (hstage : stage ≠ .dropped) (he : e ≠ .drop i) :
    ∃ stage', p'.queries i = some stage' ∧ stage' ≠ .dropped := by
  have update {j : ι} {stage' : PoolStage α} (hstage' : j = i → stage' ≠ .dropped) :
      ∃ stage₀, Function.update p.queries j (some stage') i = some stage₀ ∧ stage₀ ≠ .dropped := by
    by_cases hij : i = j
    · subst hij
      exact ⟨stage', Function.update_self _ _ _, hstage' rfl⟩
    · exact ⟨stage, by rw [Function.update_of_ne hij, hi], hstage⟩
  cases h with
  | @query j q hj =>
    refine update ?_
    rintro rfl
    rw [hi] at hj
    cases hj
  | drop =>
    refine update ?_
    rintro rfl
    exact absurd rfl he
  | examineRefused | examinePicked =>
    simp only [setQuery_queries, preflight_queries]
    exact update (by simp)
  | @answer j k g result =>
    refine update fun _ => ?_
    rcases answered_cases p k g result with hs | ⟨error, -, -, hs⟩ <;> rw [hs] <;> simp
  | lock | examineEnd | enter | checkFailed | check | stamp | write => exact update (by simp)
  | inspect | session | client | stop | advance => exact ⟨stage, hi, hstage⟩

/-! ### The work that is left -/

def queryRank (size : ℕ) (stage : Option (PoolStage α)) : ℕ := (stage.map (PoolStage.rank size)).getD 0

/-- A query goes on in this transition. -/
def proceeds (t : Transition (SessionPool ι σ α) (Event ι σ α)) : Bool := t.event.proceeds

/-- The query `i` goes on in this transition. -/
def proceedsOf (i : ι) (t : Transition (SessionPool ι σ α) (Event ι σ α)) : Bool :=
  t.event.proceeds && t.event.owner = some i

/-- A query is made in this transition. -/
def makes (t : Transition (SessionPool ι σ α) (Event ι σ α)) : Bool :=
  match t.event with
  | .query _ _ => true
  | _ => false

/-- What an event does to the queries of a pool: it makes one, or one moves and has fewer steps left, by
one if it goes on. -/
inductive Progress (p : SessionPool ι σ α) (e : Event ι σ α) (queries : ι → Option (PoolStage α)) : Prop
  | made {i : ι} {q : Query} (he : e = .query i q) (hi : p.queries i = none)
      (hqueries : queries = Function.update p.queries i (some (p.arrive q)))
  | moved {i : ι} {stage stage' : PoolStage α} (he : e.owner = some i) (hi : p.queries i = some stage)
      (hrank : stage'.rank p.size + e.proceeds.toNat ≤ stage.rank p.size)
      (hqueries : queries = Function.update p.queries i (some stage'))
  | quiet (he : e.owner = none) (hnew : ∀ i q, e ≠ .query i q) (hqueries : queries = p.queries)

omit [DecidableEq ι] in
/-- An event that no query owns is no step of one. -/
theorem Event.proceeds_of_owner (he : e.owner = none) : e.proceeds = false := by
  cases e with
  | query | inspect | session | client | stop | advance => rfl
  | _ => cases he

omit [DecidableEq ι] in
theorem arrive_rank (p : SessionPool ι σ α) (q : Query) : (p.arrive q).rank p.size ≤ p.size + 7 := by
  rcases arrive_cases p q with harrive | ⟨error, harrive⟩ <;> rw [harrive] <;> simp [PoolStage.rank]

theorem Step.progress (hs : Step p e p') : Progress p e p'.queries ∧ p'.size = p.size := by
  cases hs with
  | @query i q hi => exact ⟨.made rfl hi rfl, rfl⟩
  | lock hi =>
    refine ⟨.moved rfl hi ?_ rfl, rfl⟩
    simp [PoolStage.rank, Event.proceeds]
  | examineRefused hi ho =>
    refine ⟨.moved rfl hi ?_ (by rw [setQuery_queries, preflight_queries]),
      by rw [setQuery_size, preflight_size]⟩
    simp only [PoolStage.rank, Event.proceeds, Bool.toNat_true]
    omega
  | examinePicked hi ho =>
    refine ⟨.moved rfl hi ?_ (by rw [setQuery_queries, preflight_queries]),
      by rw [setQuery_size, preflight_size]⟩
    simp only [PoolStage.rank, Event.proceeds, Bool.toNat_true]
    omega
  | examineEnd hi ho =>
    refine ⟨.moved rfl hi ?_ rfl, rfl⟩
    simp only [PoolStage.rank, Event.proceeds, Bool.toNat_true]
    omega
  | @answer i j g result n hi =>
    refine ⟨.moved rfl hi ?_ rfl, rfl⟩
    rcases answered_cases p j g result with hs | ⟨error, -, -, hs⟩ <;> rw [hs] <;>
      simp [PoolStage.rank, Event.proceeds]
  | enter hi | checkFailed hi | check hi | stamp hi | write hi | drop hi =>
    refine ⟨.moved rfl hi ?_ rfl, rfl⟩
    simp [PoolStage.rank, Event.proceeds]
  | inspect | session | client | stop | advance => exact ⟨.quiet rfl (by simp) rfl, rfl⟩

/-- The steps that a query has made, and those that it has left, are at most `n + 7`. -/
def Spent (size : ℕ) (i : ι) (ts : List (Transition (SessionPool ι σ α) (Event ι σ α)))
    (p : SessionPool ι σ α) : Prop :=
  p.size = size ∧ (p.queries i = none → ts.countP (proceedsOf i) = 0) ∧
    ∀ stage, p.queries i = some stage → ts.countP (proceedsOf i) + stage.rank size ≤ size + 7

theorem countP_snoc (ts : List (Transition (SessionPool ι σ α) (Event ι σ α)))
    (p : SessionPool ι σ α) (e : Event ι σ α) (p' : SessionPool ι σ α) (i : ι) :
    List.countP (proceedsOf i) (ts ++ [⟨p, e, p'⟩]) =
      ts.countP (proceedsOf i) + (e.proceeds && decide (e.owner = some i)).toNat := by
  rw [List.countP_append, List.countP_singleton, proceedsOf, Bool.toNat, Bool.cond_eq_ite]

theorem Spent.step {size : ℕ} (h : Spent size i ts p) (hs : Step p e p') :
    Spent size i (ts ++ [⟨p, e, p'⟩]) p' := by
  obtain ⟨rfl, hnone, hsome⟩ := h
  obtain ⟨hprogress, hsize⟩ := hs.progress
  -- an event that is not one of this query
  have kept (hno : e.owner ≠ some i) (hi : p'.queries i = p.queries i) :
      Spent p.size i (ts ++ [⟨p, e, p'⟩]) p' := by
    have hcount := countP_snoc ts p e p' i
    simp only [hno, decide_false, Bool.and_false, Bool.toNat_false, Nat.add_zero] at hcount
    rw [Spent, hcount, hi]
    exact ⟨hsize, hnone, hsome⟩
  cases hprogress with
  | @made j q he hj hqueries =>
    have howner : e.owner = none := by rw [he]; rfl
    by_cases hij : i = j
    · subst hij
      have hcount := countP_snoc ts p e p' i
      rw [hnone hj, Event.proceeds_of_owner howner, Bool.false_and, Bool.toNat_false,
        Nat.add_zero] at hcount
      rw [Spent, hcount, hqueries, Function.update_self]
      refine ⟨hsize, fun _ => rfl, ?_⟩
      rintro _ ⟨⟩
      rw [Nat.zero_add]
      exact arrive_rank p q
    · exact kept (by simp [howner]) (by rw [hqueries, Function.update_of_ne hij])
  | @moved j stage stage' he hj hrank hqueries =>
    by_cases hij : i = j
    · subst hij
      have hcount := countP_snoc ts p e p' i
      rw [he, decide_eq_true rfl, Bool.and_true] at hcount
      have hleft := hsome stage hj
      rw [Spent, hcount, hqueries, Function.update_self]
      refine ⟨hsize, nofun, ?_⟩
      rintro _ ⟨⟩
      omega
    · refine kept (fun howner => hij ?_) (by rw [hqueries, Function.update_of_ne hij])
      exact Option.some.inj (howner.symm.trans he)
  | quiet he _ hqueries => exact kept (by simp [he]) (by rw [hqueries])

/-- A query of a pool of `n` members makes at most `n + 7` steps. -/
theorem bounded_of_query (hrun : Run SessionPool.step p ts p') (h : ∀ i, p.queries i = none) (i : ι) :
    ts.countP (proceedsOf i) ≤ p.size + 7 := by
  have hspent : Spent p.size i ts p' := by
    induction hrun with
    | nil => exact ⟨rfl, fun _ => rfl, fun stage hi => by rw [h] at hi; cases hi⟩
    | snoc _ he ih => exact ih.step (Step.of_step he)
  cases hi : p'.queries i with
  | none =>
    rw [hspent.2.1 hi]
    exact Nat.zero_le _
  | some stage => exact (Nat.le_add_right _ _).trans (hspent.2.2 stage hi)

/-- The pool has this size, and its queries have at most `n` steps left. -/
def Left (size : ℕ) (p : SessionPool ι σ α) (n : ℕ) : Prop :=
  p.size = size ∧ Weighs (queryRank size) p.queries n

theorem Left.step {size n : ℕ} (h : Left size p n) (hs : Step p e p') :
    ∃ n', Left size p' n' ∧ n' + e.proceeds.toNat ≤
      n + (size + 7) * (makes (⟨p, e, p'⟩ : Transition (SessionPool ι σ α) (Event ι σ α))).toNat := by
  obtain ⟨rfl, hn⟩ := h
  obtain ⟨hprogress, hsize⟩ := hs.progress
  cases hprogress with
  | @made i q he hi hqueries =>
    subst he
    have hrank := arrive_rank p q
    refine ⟨n + (p.arrive q).rank p.size, ⟨hsize, hqueries ▸ hn.update ?_⟩, ?_⟩
    · rw [hi]
      rfl
    · simp only [Event.proceeds, makes, Bool.toNat_false, Bool.toNat_true]
      omega
  | @moved i stage stage' _ hi hrank hqueries =>
    have hle : stage.rank p.size ≤ n := by
      have hle := hn.le i
      rwa [hi] at hle
    refine ⟨n - stage.rank p.size + stage'.rank p.size, ⟨hsize, hqueries ▸ hn.update ?_⟩, by omega⟩
    rw [hi]
    simp only [queryRank, Option.map_some, Option.getD_some]
    omega
  | quiet he _ hqueries =>
    refine ⟨n, ⟨hsize, hqueries ▸ hn⟩, ?_⟩
    rw [Event.proceeds_of_owner he]
    exact Nat.le_add_right _ _

/-- A pool of `n` members makes at most `n + 7` steps for each query. -/
theorem bounded_of_run (hrun : Run SessionPool.step p ts p') (h : ∀ i, p.queries i = none) :
    ts.countP proceeds ≤ (p.size + 7) * ts.countP makes := by
  have hstart : Left p.size p 0 := by
    refine ⟨rfl, .zero fun i => ?_⟩
    rw [h]
    rfl
  obtain ⟨n, -, hle⟩ : ∃ n, Left p.size p' n ∧
      ts.countP proceeds + n ≤ 0 + (p.size + 7) * ts.countP makes :=
    hrun.accounting hstart fun _ _ _ _ _ _ hn hstep => hn.step (Step.of_step hstep)
  omega

/-- **Every query of the pool comes to its end.**  In every run of a pool of `n` members, each query
makes at most `n + 7` steps, so that all make at most `n + 7` for each query together; and when none of
them can go on, every call has returned or was dropped, and nobody holds the cursor. -/
theorem pool_settles {members : List (SessionMember σ)} {now : ℕ}
    (hrun : Run SessionPool.step (initial members now) ts p) :
    (∀ i, ts.countP (proceedsOf i) ≤ members.length + 7) ∧
      ts.countP proceeds ≤ (members.length + 7) * ts.countP makes ∧
      (¬ CanProceed p → (∀ i stage, p.queries i = some stage → stage.underway = false) ∧
        p.holder = none) := by
  have hholding : Holding p := by
    refine holding_of_run hrun ?_
    rintro i ⟨⟩
  refine ⟨bounded_of_query hrun fun _ => rfl, bounded_of_run hrun fun _ => rfl,
    fun hstuck => ⟨fun i stage hi => ?_, ?_⟩⟩
  · cases hstage : stage.underway with
    | false => rfl
    | true => exact absurd (proceeds_of_underway hholding hi hstage) hstuck
  · cases hholder : p.holder with
    | none => rfl
    | some i =>
      obtain ⟨q, offset, firstError, hi⟩ := hholding i hholder
      exact absurd (proceeds_of_underway hholding hi rfl) hstuck

theorem pool_settles_select :
    (transitions step (initial sampleMembers 0) selectEvents).countP (proceedsOf 0) ≤
      sampleMembers.length + 7 :=
  (pool_settles (run_get selectEvents (by decide +kernel) : Run step _ _ selectPool)).1 0

end SessionPool

end MoenotesApi
