import MoenotesApi.Gateway.Answers
import MoenotesApi.Pool.Settling

/-!
# The work of the HTTP server

* `RequestStage.rank`, `bounded_of_run`: the server itself makes at most five steps for each request;
* `Awaits`: a request that waits for its pool is known to that pool, which has not dropped it.
-/

namespace MoenotesApi

/-- The steps of the server that a request has left at most. -/
def RequestStage.rank : RequestStage → ℕ
  | .begun _ => 5
  | .admitted _ _ _ => 4
  | .reading _ _ _ => 3
  | .querying _ _ => 2
  | .answered _ _ => 1
  | .closed _ _ | .dropped _ => 0

namespace Gateway

open Runs

variable {ι σ M ρ : Type} {g g' : Gateway ι σ} {e : Event ι σ} {i : ι}
variable {ts : List (Transition (Gateway ι σ) (Event ι σ))}

/-- A request goes on in the server itself. -/
def Event.proceeds : Event ι σ → Bool
  | .authenticate _ | .handle _ _ | .body _ _ | .respond _ | .finish _ _ => true
  | _ => false

def proceeds (t : Transition (Gateway ι σ) (Event ι σ)) : Bool := t.event.proceeds

/-- A request arrives. -/
def arrives (t : Transition (Gateway ι σ) (Event ι σ)) : Bool :=
  match t.event with
  | .arrive _ _ => true
  | _ => false

def requestRank (stage : Option RequestStage) : ℕ := (stage.map RequestStage.rank).getD 0

/-- The requests have at most `n` steps of the server left. -/
def Left (g : Gateway ι σ) (n : ℕ) : Prop := Weighs requestRank g.requests n

variable [DecidableEq ι]

/-- A request that moves has fewer steps left, by one if it goes on. -/
theorem Left.move {n : ℕ} (h : Left g n) {stage stage' : RequestStage}
    (hi : g.requests i = some stage) (hrank : stage'.rank + e.proceeds.toNat ≤ stage.rank)
    (hrequests : g'.requests = Function.update g.requests i (some stage')) :
    ∃ n', Left g' n' ∧ n' + e.proceeds.toNat ≤ n := by
  have hle : stage.rank ≤ n := by
    have hle := h.le i
    rwa [hi] at hle
  refine ⟨n - stage.rank + stage'.rank, ?_, by omega⟩
  unfold Left
  rw [hrequests]
  refine Weighs.update h ?_
  rw [hi]
  simp only [requestRank, Option.map_some, Option.getD_some]
  omega

variable [DecidableEq ρ] {lib : HttpLibraries M ρ} {state : ApiState ρ}

theorem Left.step {n : ℕ} (h : Left g n) (hs : Step lib state g e g') :
    ∃ n', Left g' n' ∧ n' + e.proceeds.toNat ≤
      n + 5 * (arrives (⟨g, e, g'⟩ : Transition (Gateway ι σ) (Event ι σ))).toNat := by
  have quiet (hle : ∃ n', Left g' n' ∧ n' + e.proceeds.toNat ≤ n) :
      ∃ n', Left g' n' ∧ n' + e.proceeds.toNat ≤
        n + 5 * (arrives (⟨g, e, g'⟩ : Transition (Gateway ι σ) (Event ι σ))).toNat := by
    obtain ⟨n', hn', hle⟩ := hle
    exact ⟨n', hn', by omega⟩
  cases hs with
  | arrive hi =>
    refine ⟨n + 5, Weighs.update h ?_, ?_⟩
    · rw [hi]
      rfl
    · simp [Event.proceeds, arrives]
  | refuse hi | letIn hi | read hi | reply hi | reject hi | query hi | respond hi | finish hi
  | leave hi | quit hi =>
    refine quiet (h.move hi ?_ rfl)
    simp [RequestStage.rank, Event.proceeds]
  | pool | advance => exact quiet ⟨n, h, le_rfl⟩

theorem started_of_run {pools : ℕ → SessionPool ι σ PoolAnswer}
    (hrun : Run (Gateway.step lib state) (initial pools) ts g) : g.started = ts.countP arrives := by
  induction hrun with
  | nil => rfl
  | @snoc ts m e m' _ hstep ih =>
    rw [List.countP_append, ← ih, List.countP_singleton]
    cases Step.of_step hstep <;> rfl

/-- The server itself makes at most five steps for each request. -/
theorem bounded_of_run {pools : ℕ → SessionPool ι σ PoolAnswer}
    (hrun : Run (Gateway.step lib state) (initial pools) ts g) :
    ts.countP proceeds ≤ 5 * g.started := by
  have hstart : Left (initial pools : Gateway ι σ) 0 := Weighs.zero fun _ => rfl
  obtain ⟨n, -, hle⟩ : ∃ n, Left g n ∧ ts.countP proceeds + n ≤ 0 + 5 * ts.countP arrives :=
    hrun.accounting hstart fun _ _ _ _ _ _ hn hstep => hn.step (Step.of_step hstep)
  rw [started_of_run hrun]
  omega

/-! ### Requests that wait for their pool -/

/-- A request that waits for its pool is known to that pool. -/
def Awaits (g : Gateway ι σ) : Prop :=
  ∀ i request call, g.requests i = some (.querying request call) →
    ∃ stage, (g.pools call.pool).queries i = some stage ∧ stage ≠ .dropped

theorem Awaits.step (h : Awaits g) (hs : Step lib state g e g') : Awaits g' := by
  intro i request call hi
  by_cases howner : e.owner = some i
  · cases hs with
    | @query _ _ _ _ _ call' p _ _ hp =>
      cases howner
      simp only [setRequest_requests, Function.update_self, Option.some.injEq,
        RequestStage.querying.injEq] at hi
      obtain ⟨-, rfl⟩ := hi
      cases SessionPool.Step.of_step hp with
      | query =>
        refine ⟨(g.pools call'.pool).arrive (call'.encoded lib), by simp, ?_⟩
        rcases SessionPool.arrive_cases (g.pools call'.pool) (call'.encoded lib) with
          harrive | ⟨error, harrive⟩ <;> rw [harrive] <;> simp
    | pool | advance => cases howner
    | arrive | refuse | letIn | read | reply | reject | respond | finish | leave | quit =>
      cases howner
      simp at hi
  · rw [hs.requests_of_ne howner] at hi
    obtain ⟨stage, hstage, hdropped⟩ := h i request call hi
    have hmoves := hs.moves call.pool
    cases hown : (part lib state call.pool).own g e with
    | none =>
      have hstays : g'.pools call.pool = g.pools call.pool := hmoves.stays hown
      exact ⟨stage, by rw [hstays, hstage], hdropped⟩
    | some d =>
      refine (SessionPool.Step.of_step (hmoves.moves d hown)).undropped hstage hdropped ?_
      rintro rfl
      cases e with
      | disconnect j =>
        simp only [part, poolEvent] at hown
        split at hown
        · split_ifs at hown
          cases hown
          exact howner rfl
        · cases hown
      | pool k e =>
        simp only [part, poolEvent] at hown
        split_ifs at hown
        cases hown
        cases hs with
        | pool hinner => cases hinner
      | body j body =>
        simp only [part, poolEvent] at hown
        split at hown
        · split at hown
          · split_ifs at hown
            cases hown
          · cases hown
        · cases hown
      | arrive | authenticate | handle | respond | finish | advance => cases hown

theorem awaits_of_run {pools : ℕ → SessionPool ι σ PoolAnswer}
    (hrun : Run (Gateway.step lib state) (initial pools) ts g) : Awaits g := by
  refine hrun.invariant (fun _ _ _ hm he => hm.step (Step.of_step he)) ?_
  rintro i request call ⟨⟩

end Gateway

end MoenotesApi
