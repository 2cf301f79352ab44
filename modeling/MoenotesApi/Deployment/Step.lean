import MoenotesApi.Deployment.Machine

/-!
# What one event does to a server with caches

`Deployment.Step d e d'` lists the ways in which an event can happen; `Step.of_step` is the inversion
lemma of `Deployment.step`.

* `server`, `runs_gateway`: a run is one of the server;
* `behind`, `runs_cache`: and one of each cache.
-/

namespace MoenotesApi.Deployment

open JsonTree (Value)
open Runs

variable {ι σ M ρ : Type} [DecidableEq ι] [DecidableEq ρ] [DecidableEq Value]
variable {setup : DeploymentSetup M ρ} {d d' : Deployment ι σ} {e : Event ι σ}
variable {ts : List (Transition (Deployment ι σ) (Event ι σ))}

section Updates

variable (d : Deployment ι σ) (k j : ℕ) (c : QueryCache ι Value)

omit [DecidableEq ι] [DecidableEq Value] in
@[simp] theorem setCache_gateway : (d.setCache k j c).gateway = d.gateway := rfl
omit [DecidableEq ι] [DecidableEq Value] in
theorem setCache_caches : (d.setCache k j c).caches =
    Function.update d.caches k (Function.update (d.caches k) j c) := rfl

end Updates

/-- `d.step e` can lead to `d'`, by the named branch. -/
inductive Step (setup : DeploymentSetup M ρ) : Deployment ι σ → Event ι σ → Deployment ι σ → Prop
  | front {d e g} (he : crossing e = false)
      (hg : d.gateway.step setup.lib setup.state e = some g) :
      Step setup d (.front e) { d with gateway := g }
  | enter {d k i j query g c} (hchosen : d.chosen k i = some (j, query))
      (hg : d.gateway.step setup.lib setup.state (.pool k (.enter i)) = some g)
      (hc : (d.caches k j).step setup.codec setup.options (.arrive i query) = some c) :
      Step setup d (.enter k i) (setCache { d with gateway := g } k j c)
  | answer {d k i result g} (hresult : d.result k i = some result)
      (hg : d.gateway.step setup.lib setup.state (.pool k (.answer i result)) = some g) :
      Step setup d (.answer k i) { d with gateway := g }
  | cache {d k j e c} (he : outer e = false)
      (hc : (d.caches k j).step setup.codec setup.options e = some c) :
      Step setup d (.cache k j e) (d.setCache k j c)
  | leave {d i g} (hwaiting : d.waiting i = none)
      (hg : d.gateway.step setup.lib setup.state (.disconnect i) = some g) :
      Step setup d (.disconnect i) { d with gateway := g }
  | quit {d i k j g c} (hwaiting : d.waiting i = some k) (hworking : d.working k i = some j)
      (hg : d.gateway.step setup.lib setup.state (.disconnect i) = some g)
      (hc : (d.caches k j).step setup.codec setup.options (.drop i) = some c) :
      Step setup d (.disconnect i) (setCache { d with gateway := g } k j c)
  | session {d k j queryError g c}
      (hg : d.gateway.step setup.lib setup.state (.pool k (.session j queryError)) = some g)
      (hc : (d.caches k j).step setup.codec setup.options
        (.client (((d.gateway.pools k).members j).generation + 1) queryError) = some c) :
      Step setup d (.session k j queryError) (setCache { d with gateway := g } k j c)
  | client {d k j queryError managed g c}
      (hg : d.gateway.step setup.lib setup.state (.pool k (.client j queryError managed)) = some g)
      (hc : (d.caches k j).step setup.codec setup.options
        (.client ((d.gateway.pools k).members j).generation queryError) = some c) :
      Step setup d (.client k j queryError managed) (setCache { d with gateway := g } k j c)
  | stop {d k g} (hg : d.gateway.step setup.lib setup.state (.pool k .stop) = some g) :
      Step setup d (.stop k) ⟨g, Function.update d.caches k fun j =>
        { d.caches k j with stopped := true }⟩
  | advance {d duration g}
      (hg : d.gateway.step setup.lib setup.state (.advance duration) = some g) :
      Step setup d (.advance duration) ⟨g, fun k j =>
        { d.caches k j with now := (d.caches k j).now + duration }⟩

omit [DecidableEq Value] in
theorem stepGateway_eq_some {e : Gateway.Event ι σ} : d.stepGateway setup e = some d' ↔
    ∃ g, d.gateway.step setup.lib setup.state e = some g ∧ { d with gateway := g } = d' := by
  rw [stepGateway, Option.map_eq_some_iff]

omit [DecidableEq ρ] in
theorem stepCache_eq_some {k j : ℕ} {e : QueryCache.Event ι Value} :
    d.stepCache setup k j e = some d' ↔
      ∃ c, (d.caches k j).step setup.codec setup.options e = some c ∧ d.setCache k j c = d' := by
  rw [stepCache, Option.map_eq_some_iff]

theorem Step.of_step (h : d.step setup e = some d') : Step setup d e d' := by
  cases e with
  | front e =>
    simp only [step, Option.ite_none_left_eq_some, Bool.not_eq_true, stepGateway_eq_some] at h
    obtain ⟨he, g, hg, rfl⟩ := h
    exact .front he hg
  | enter k i =>
    simp only [step] at h
    split at h
    · cases h
    · next j query hchosen =>
      simp only [Option.bind_eq_some_iff, stepGateway_eq_some, stepCache_eq_some] at h
      obtain ⟨_, ⟨g, hg, rfl⟩, c, hc, rfl⟩ := h
      exact .enter hchosen hg hc
  | answer k i =>
    simp only [step] at h
    split at h
    · cases h
    · next result hresult =>
      obtain ⟨g, hg, rfl⟩ := stepGateway_eq_some.1 h
      exact .answer hresult hg
  | cache k j e =>
    simp only [step, Option.ite_none_left_eq_some, Bool.not_eq_true, stepCache_eq_some] at h
    obtain ⟨he, c, hc, rfl⟩ := h
    exact .cache he hc
  | disconnect i =>
    simp only [step] at h
    split at h
    · next hwaiting =>
      obtain ⟨g, hg, rfl⟩ := stepGateway_eq_some.1 h
      exact .leave hwaiting hg
    · next k hwaiting =>
      split at h
      · cases h
      · next j hworking =>
        simp only [Option.bind_eq_some_iff, stepGateway_eq_some, stepCache_eq_some] at h
        obtain ⟨_, ⟨g, hg, rfl⟩, c, hc, rfl⟩ := h
        exact .quit hwaiting hworking hg hc
  | session | client =>
    simp only [step, Option.bind_eq_some_iff, stepGateway_eq_some, stepCache_eq_some] at h
    obtain ⟨_, ⟨g, hg, rfl⟩, c, hc, rfl⟩ := h
    constructor
    · exact hg
    · exact hc
  | stop | advance =>
    simp only [step, Option.map_eq_some_iff, stepGateway_eq_some] at h
    obtain ⟨_, ⟨g, hg, rfl⟩, rfl⟩ := h
    constructor
    exact hg

/-! ### The server -/

/-- The event of the server within an event. -/
def gatewayEvent (d : Deployment ι σ) : Event ι σ → Option (Gateway.Event ι σ)
  | .front e => some e
  | .enter k i => some (.pool k (.enter i))
  | .answer k i => (d.result k i).map fun result => .pool k (.answer i result)
  | .cache _ _ _ => none
  | .disconnect i => some (.disconnect i)
  | .session k j queryError => some (.pool k (.session j queryError))
  | .client k j queryError managed => some (.pool k (.client j queryError managed))
  | .stop k => some (.pool k .stop)
  | .advance duration => some (.advance duration)

/-- The server within the deployment. -/
def server : Part (Deployment ι σ) (Event ι σ) (Gateway ι σ) (Gateway.Event ι σ) where
  view d := d.gateway
  own := gatewayEvent

theorem Step.moves_gateway (h : Step setup d e d') :
    server.Moves (Gateway.step setup.lib setup.state) d e d' := by
  have own {e' : Gateway.Event ι σ} (hown : gatewayEvent d e = some e')
      (hg : d.gateway.step setup.lib setup.state e' = some d'.gateway) :
      server.Moves (Gateway.step setup.lib setup.state) d e d' := by
    constructor
    · intro hnone
      cases hown.symm.trans hnone
    · intro e'' he
      cases hown.symm.trans he
      exact hg
  cases h with
  | answer hresult hg => exact own (by rw [gatewayEvent, hresult]; rfl) hg
  | cache => exact ⟨fun _ => rfl, nofun⟩
  | front _ hg | enter _ hg | leave _ hg | quit _ _ hg | session hg | client hg | stop hg
  | advance hg => exact own rfl hg

/-- A run is one of the server. -/
theorem runs_gateway (h : Run (step setup) d ts d') :
    Run (Gateway.step setup.lib setup.state) d.gateway (server.project ts) d'.gateway :=
  server.run_project h fun _ ht => (Step.of_step (h.step_of_mem ht)).moves_gateway

/-! ### The caches -/

/-- The event of the cache `j` of the pool `k` within an event. -/
def cacheEvent (k j : ℕ) (d : Deployment ι σ) : Event ι σ → Option (QueryCache.Event ι Value)
  | .front _ | .answer _ _ => none
  | .enter k' i =>
    match d.chosen k' i with
    | some (j', query) => if k' = k ∧ j' = j then some (.arrive i query) else none
    | none => none
  | .cache k' j' e => if k' = k ∧ j' = j then some e else none
  | .disconnect i =>
    match d.waiting i with
    | some k' => if k' = k ∧ d.working k' i = some j then some (.drop i) else none
    | none => none
  | .session k' j' queryError =>
    if k' = k ∧ j' = j then
      some (.client (((d.gateway.pools k').members j').generation + 1) queryError)
    else none
  | .client k' j' queryError _ =>
    if k' = k ∧ j' = j then
      some (.client ((d.gateway.pools k').members j').generation queryError)
    else none
  | .stop k' => if k' = k then some .stop else none
  | .advance duration => some (.advance duration)

/-- The cache `j` of the pool `k` within the deployment. -/
def behind (k j : ℕ) :
    Part (Deployment ι σ) (Event ι σ) (QueryCache ι Value) (QueryCache.Event ι Value) where
  view d := d.caches k j
  own := cacheEvent k j

omit [DecidableEq ι] [DecidableEq Value] in
theorem setCache_of_ne {k j k' j' : ℕ} {c : QueryCache ι Value} (h : ¬ (k' = k ∧ j' = j)) :
    (d.setCache k' j' c).caches k j = d.caches k j := by
  rw [setCache_caches]
  by_cases hk : k = k'
  · subst hk
    have hj : j ≠ j' := fun hj => h ⟨rfl, hj.symm⟩
    rw [Function.update_self, Function.update_of_ne hj]
  · rw [Function.update_of_ne hk]

omit [DecidableEq ι] [DecidableEq Value] in
theorem setCache_self {k j : ℕ} {c : QueryCache ι Value} :
    (d.setCache k j c).caches k j = c := by
  rw [setCache_caches, Function.update_self, Function.update_self]

theorem Step.moves_cache (h : Step setup d e d') (k j : ℕ) :
    (behind k j).Moves (QueryCache.step setup.codec setup.options) d e d' := by
  have own (e' : QueryCache.Event ι Value) (hown : cacheEvent k j d e = some e')
      (hc : (d.caches k j).step setup.codec setup.options e' = some (d'.caches k j)) :
      (behind k j).Moves (QueryCache.step setup.codec setup.options) d e d' := by
    constructor
    · intro hnone
      cases hown.symm.trans hnone
    · intro e'' he
      cases hown.symm.trans he
      exact hc
  have other (hown : cacheEvent k j d e = none) (hc : d'.caches k j = d.caches k j) :
      (behind k j).Moves (QueryCache.step setup.codec setup.options) d e d' := by
    refine ⟨fun _ => hc, fun e' he => ?_⟩
    cases hown.symm.trans he
  cases h with
  | front | answer => exact other rfl rfl
  | leave hwaiting => exact other (by simp [cacheEvent, hwaiting]) rfl
  | @enter k' i j' query g c hchosen _ hc =>
    by_cases hkj : k' = k ∧ j' = j
    · obtain ⟨rfl, rfl⟩ := hkj
      exact own (.arrive i query) (by simp [cacheEvent, hchosen]) (by rw [setCache_self]; exact hc)
    · exact other (by simp [cacheEvent, hchosen, hkj]) (setCache_of_ne hkj)
  | @cache k' j' e c _ hc =>
    by_cases hkj : k' = k ∧ j' = j
    · obtain ⟨rfl, rfl⟩ := hkj
      exact own e (by simp [cacheEvent]) (by rw [setCache_self]; exact hc)
    · exact other (by simp [cacheEvent, hkj]) (setCache_of_ne hkj)
  | @quit i k' j' g c hwaiting hworking _ hc =>
    by_cases hkj : k' = k ∧ j' = j
    · obtain ⟨rfl, rfl⟩ := hkj
      exact own (.drop i) (by simp [cacheEvent, hwaiting, hworking]) (by rw [setCache_self]; exact hc)
    · exact other (by simp [cacheEvent, hwaiting, hworking, hkj]) (setCache_of_ne hkj)
  | @session k' j' queryError g c _ hc | @client k' j' queryError _ g c _ hc =>
    by_cases hkj : k' = k ∧ j' = j
    · obtain ⟨rfl, rfl⟩ := hkj
      exact own (.client _ queryError) (if_pos ⟨rfl, rfl⟩) (by rw [setCache_self]; exact hc)
    · exact other (by simp [cacheEvent, hkj]) (setCache_of_ne hkj)
  | @stop k' g =>
    by_cases hk : k' = k
    · subst hk
      exact own .stop (by simp [cacheEvent]) (by simp [QueryCache.step])
    · exact other (by simp [cacheEvent, hk]) (by simp [Ne.symm hk])
  | advance => exact own (.advance _) rfl rfl

/-- A run is one of each cache. -/
theorem runs_cache (h : Run (step setup) d ts d') (k j : ℕ) :
    Run (QueryCache.step setup.codec setup.options) (d.caches k j) ((behind k j).project ts)
      (d'.caches k j) :=
  (behind k j).run_project h fun _ ht => (Step.of_step (h.step_of_mem ht)).moves_cache k j

end MoenotesApi.Deployment
