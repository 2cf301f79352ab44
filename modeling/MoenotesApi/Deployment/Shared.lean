import MoenotesApi.Deployment.Step

/-!
# What the server and its caches see alike

A member of a pool and its cache look at one client, one clock and one token for the end.

* `SessionPool.shared`, `QueryCache.shared`: what both see; `Coherent`: they see the same;
* `coherent_of_run`: so it is in every run; `generation_le_of_run`: the generation of a client only
  grows.
-/

namespace MoenotesApi

open JsonTree (Value)
open Runs

/-- What a pool and a cache see of a client, of the clock and of the end. -/
structure SharedView where
  generation : ℕ
  blocked : Bool → Option ClientError
  now : ℕ
  stopped : Bool

namespace SessionPool

variable {ι σ α : Type} [DecidableEq ι] {p p' : SessionPool ι σ α} {e : Event ι σ α}

/-- What the pool sees of its member `j`. -/
def shared (p : SessionPool ι σ α) (j : ℕ) : SharedView :=
  ⟨(p.members j).generation, (p.members j).queryError, p.now, p.stopped⟩

/-- The event changes what the pool sees. -/
def outward : Event ι σ α → Bool
  | .session _ _ | .client _ _ _ | .stop | .advance _ => true
  | _ => false

omit [DecidableEq ι] in
theorem shared_setMember {k : ℕ} {m : PoolMember σ} (j : ℕ)
    (hgeneration : m.generation = (p.members k).generation)
    (herror : m.queryError = (p.members k).queryError) : (p.setMember k m).shared j = p.shared j := by
  unfold shared
  rw [setMember_members]
  by_cases hj : j = k
  · subst hj
    rw [Function.update_self, hgeneration, herror]
    rfl
  · rw [Function.update_of_ne hj]
    rfl

omit [DecidableEq ι] in
theorem shared_cooldownError (j k : ℕ) : (p.cooldownError k).2.shared j = p.shared j :=
  shared_setMember j (PoolMember.cooldownError_generation _ _) (PoolMember.cooldownError_queryError _ _)

omit [DecidableEq ι] in
theorem shared_preflight (j k : ℕ) (anonymous : Bool) :
    (p.preflight k anonymous).2.shared j = p.shared j := by
  unfold preflight
  split_ifs
  · exact shared_cooldownError j k
  · rfl

theorem Step.shared_eq (h : Step p e p') (he : outward e = false) (j : ℕ) :
    p'.shared j = p.shared j := by
  cases h with
  | session | client | stop | advance => cases he
  | query | lock | examineEnd | checkFailed | check | stamp | drop => rfl
  | examineRefused | examinePicked => exact shared_preflight _ _ _
  | enter => exact shared_setMember j rfl rfl
  | answer => exact shared_setMember j rfl rfl
  | write => exact shared_setMember j rfl rfl
  | inspect => exact shared_cooldownError _ _

theorem generation_le_of_run {ts : List (Transition (SessionPool ι σ α) (Event ι σ α))}
    (hrun : Run SessionPool.step p ts p') (j : ℕ) :
    (p.members j).generation ≤ (p'.members j).generation := by
  induction hrun with
  | nil => exact le_rfl
  | snoc _ hstep ih => exact ih.trans ((Step.of_step hstep).generation_le j)

end SessionPool

namespace QueryCache

variable {ι J : Type} [DecidableEq ι] [DecidableEq J] {codec : Codec J} {opt : CacheOptions}
variable {c c' : QueryCache ι J} {e : Event ι J}

/-- What the cache sees of its client. -/
def shared (c : QueryCache ι J) : SharedView := ⟨c.generation, c.blocked, c.now, c.stopped⟩

/-- The event changes what the cache sees. -/
def outward : Event ι J → Bool
  | .client _ _ | .stop | .advance _ => true
  | _ => false

omit [DecidableEq J] in
theorem Step.shared_eq (h : Step codec opt c e c') (he : outward e = false) :
    c'.shared = c.shared := by
  cases h with
  | client | stop | advance => cases he
  | _ => rfl

end QueryCache

namespace Deployment

variable {ι σ M ρ : Type} [DecidableEq ι] [DecidableEq ρ] [DecidableEq Value]
variable {setup : DeploymentSetup M ρ} {d d' : Deployment ι σ} {e : Event ι σ}
variable {ts : List (Transition (Deployment ι σ) (Event ι σ))}

/-- Pools and caches see the same. -/
def Coherent (d : Deployment ι σ) : Prop :=
  ∀ k j, (d.caches k j).shared = (d.gateway.pools k).shared j

omit [DecidableEq ι] [DecidableEq Value] in
theorem coherent_initial (members : ℕ → List (SessionPool.SessionMember σ)) (now : ℕ) :
    Coherent (initial members now : Deployment ι σ) := by
  intro k j
  rfl

/-- The event of the server changes nothing that a cache sees as well. -/
def inward : Gateway.Event ι σ → Bool
  | .pool _ e => !SessionPool.outward e
  | .advance _ => false
  | _ => true

omit [DecidableEq Value] in
theorem pools_shared {g g' : Gateway ι σ} {e : Gateway.Event ι σ}
    (h : g.step setup.lib setup.state e = some g') (he : inward e = true) (k j : ℕ) :
    (g'.pools k).shared j = (g.pools k).shared j := by
  have hmoves := (Gateway.Step.of_step h).moves k
  cases hown : Gateway.poolEvent setup.lib setup.state k g e with
  | none =>
    have hstays : g'.pools k = g.pools k := hmoves.stays hown
    rw [hstays]
  | some e' =>
    refine (SessionPool.Step.of_step (hmoves.moves e' hown)).shared_eq ?_ j
    cases e with
    | pool k' e =>
      simp only [Gateway.poolEvent] at hown
      split_ifs at hown
      cases hown
      simpa [inward] using he
    | body i body =>
      simp only [Gateway.poolEvent] at hown
      split at hown
      · split at hown
        · split_ifs at hown
          cases hown
          rfl
        · cases hown
      · cases hown
    | disconnect i =>
      simp only [Gateway.poolEvent] at hown
      split at hown
      · split_ifs at hown
        cases hown
        rfl
      · cases hown
    | advance => cases he
    | arrive | authenticate | handle | respond | finish => cases hown

omit [DecidableEq Value] in
/-- A step of the pool `k`. -/
theorem pools_of_pool {g g' : Gateway ι σ} {k : ℕ} {e : SessionPool.Event ι σ PoolAnswer}
    (h : g.step setup.lib setup.state (.pool k e) = some g') :
    (g.pools k).step e = some (g'.pools k) ∧ ∀ k', k' ≠ k → g'.pools k' = g.pools k' := by
  cases Gateway.Step.of_step h with
  | pool _ hp =>
    refine ⟨by simpa using hp, fun k' hk => ?_⟩
    simp [hk]

omit [DecidableEq ι] [DecidableEq Value] in
theorem inward_of_not_crossing {e : Gateway.Event ι σ} (he : crossing e = false) :
    inward e = true := by
  cases e with
  | pool k e => cases e <;> first | rfl | cases he
  | advance => cases he
  | _ => rfl

omit [DecidableEq ρ] in
theorem caches_shared {k' j' : ℕ} {c : QueryCache ι Value} {e : QueryCache.Event ι Value}
    (h : (d.caches k' j').step setup.codec setup.options e = some c)
    (he : QueryCache.outward e = false) (k j : ℕ) :
    ((d.setCache k' j' c).caches k j).shared = (d.caches k j).shared := by
  by_cases hkj : k' = k ∧ j' = j
  · obtain ⟨rfl, rfl⟩ := hkj
    rw [setCache_self]
    exact (QueryCache.Step.of_step h).shared_eq he
  · rw [setCache_of_ne hkj]

omit [DecidableEq ρ] in
/-- A member and its cache have been told the same. -/
theorem coherent_of_told (h : Coherent d) {k' j' generation : ℕ} {g : Gateway ι σ}
    {queryError : Bool → Option ClientError} {m : PoolMember σ} {c : QueryCache ι Value}
    (hpool : g.pools k' = (d.gateway.pools k').setMember j' m)
    (hpools : ∀ k, k ≠ k' → g.pools k = d.gateway.pools k)
    (hgeneration : m.generation = generation) (herror : m.queryError = queryError)
    (hc : (d.caches k' j').step setup.codec setup.options (.client generation queryError) = some c) :
    Coherent (setCache { d with gateway := g } k' j' c) := by
  obtain rfl := Option.some.inj hc
  intro k j
  rw [setCache_gateway]
  by_cases hkj : k' = k ∧ j' = j
  · obtain ⟨rfl, rfl⟩ := hkj
    have hshared := h k' j'
    simp only [QueryCache.shared, SessionPool.shared, SharedView.mk.injEq] at hshared
    rw [setCache_self, hpool]
    unfold QueryCache.shared SessionPool.shared
    rw [SessionPool.setMember_members, Function.update_self, hgeneration, herror]
    simp only [hshared]
    rfl
  · rw [setCache_of_ne hkj]
    refine (h k j).trans ?_
    by_cases hk : k = k'
    · subst hk
      have hj : j ≠ j' := fun hj => hkj ⟨rfl, hj.symm⟩
      rw [hpool]
      unfold SessionPool.shared
      rw [SessionPool.setMember_members, Function.update_of_ne hj]
      rfl
    · rw [hpools k hk]

theorem Coherent.step (h : Coherent d) (hstep : Step setup d e d') : Coherent d' := by
  cases hstep with
  | front he hg =>
    intro k j
    exact (h k j).trans (pools_shared hg (inward_of_not_crossing he) k j).symm
  | answer _ hg | leave _ hg =>
    intro k j
    exact (h k j).trans (pools_shared hg rfl k j).symm
  | enter _ hg hc | quit _ _ hg hc =>
    intro k j
    rw [setCache_gateway]
    exact (caches_shared hc rfl k j).trans ((h k j).trans (pools_shared hg rfl k j).symm)
  | @cache k' j' e c he hc =>
    intro k j
    refine (caches_shared hc ?_ k j).trans (h k j)
    cases e <;> first | rfl | cases he
  | session hg hc | client hg hc =>
    obtain ⟨hp, hpools⟩ := pools_of_pool hg
    exact coherent_of_told h (Option.some.inj hp).symm hpools rfl rfl hc
  | @stop k' g hg =>
    obtain ⟨hp, hpools⟩ := pools_of_pool hg
    intro k j
    have hshared := h k j
    by_cases hk : k = k'
    · subst hk
      simp only [QueryCache.shared, SessionPool.shared, SharedView.mk.injEq] at hshared ⊢
      rw [← Option.some.inj hp, Function.update_self]
      simp [hshared]
    · simp only [hpools k hk, Function.update_of_ne hk]
      exact hshared
  | advance hg =>
    obtain rfl := Option.some.inj hg
    intro k j
    have hshared := h k j
    simp only [QueryCache.shared, SessionPool.shared, SharedView.mk.injEq] at hshared ⊢
    simp [hshared]

theorem coherent_of_run (hrun : Run (step setup) d ts d') (h : Coherent d) : Coherent d' :=
  hrun.invariant (fun _ _ _ hm he => hm.step (Step.of_step he)) h

/-- A client never goes back to an earlier session. -/
theorem generation_le_of_run (hrun : Run (step setup) d ts d') (k j : ℕ) :
    ((d.gateway.pools k).members j).generation ≤ ((d'.gateway.pools k).members j).generation :=
  SessionPool.generation_le_of_run (Gateway.runs_pool (runs_gateway hrun) k) j

end Deployment

end MoenotesApi
