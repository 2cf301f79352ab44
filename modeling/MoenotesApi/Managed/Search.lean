import MoenotesApi.Client.Inquiry
import MoenotesApi.Client.Release
import MoenotesApi.Managed.Sync
import MoenotesApi.Managed.Writers

/-!
# The search for a client release

The Version calls of `sync_versions`, over whole runs.

* `calls`, `answers`: the client versions that a sync has presented in a run, and the answers;
* `Searched`: what they are, stage by stage; `Searched.step`, `searched_of_run`: it holds in every
  run;
* `Searched.of_call`: a sync calls again only if all versions before were refused.
-/

namespace MoenotesApi.ManagedClient

open Runs

variable {I ρ : Type} {setup : Setup I ρ} {m m' : ManagedClient I ρ} {e : Event I} {k : ℕ}
variable {ts : List (Transition (ManagedClient I ρ) (Event I))}

/-! ### Calls and answers of a run -/

/-- The client version that the activity `k` presents to the game in a transition. -/
def presents (k : ℕ) (t : Transition (ManagedClient I ρ) (Event I)) : List String :=
  match t.event with
  | .client ce => Client.asks (.writer k) t.before.client ce
  | _ => []

/-- The answer that the activity `k` gets in a transition. -/
def hears (k : ℕ) (t : Transition (ManagedClient I ρ) (Event I)) : List Client.Answer :=
  match t.event with
  | .client ce => Client.answers (.writer k) t.before.client ce
  | _ => []

/-- The client versions that the activity `k` has presented. -/
def calls (ts : List (Transition (ManagedClient I ρ) (Event I))) (k : ℕ) : List String :=
  ts.flatMap (presents k)

/-- The answers that the activity `k` has got. -/
def answers (ts : List (Transition (ManagedClient I ρ) (Event I))) (k : ℕ) : List Client.Answer :=
  ts.flatMap (hears k)

/-- The game has refused the version for a newer client. -/
def Outdated (a : Client.Answer) : Prop :=
  ∃ error, a.2 = .error error ∧ error.clientUpdateRequired = true

/-- The client version of the session `g`. -/
def versionAt (m : ManagedClient I ρ) (g : ℕ) : String := (m.client.arena g).config.clientVersion

/-- The versions that a sync presents, in order, while the game refuses them. -/
def releases (base : String) : List String := base :: patchSuccessors base clientCandidates

theorem length_releases_le (base : String) : (releases base).length ≤ 4 := by
  unfold releases clientCandidates
  cases h : patchVersion base with
  | none => simp [patchSuccessors_of_none h]
  | some v => simp [patchSuccessors_eq h le_rfl]

/-! ### What a sync has done so far -/

/-- What the activity `k` has presented and heard, if its last stages are those of a sync. -/
inductive Searched (m : ManagedClient I ρ) (k : ℕ) : List String → List Client.Answer → Prop
  | idle {calls answers} (hk : ∀ s, m.activities k ≠ some (.sync s)) (hcalls : calls.length ≤ 4)
      (hfresh : m.nextActivity ≤ k → calls = [] ∧ answers = []) : Searched m k calls answers
  | begun {s} (hk : m.activities k = some (.sync s))
      (hs : s.stage = .begun ∨ ∃ g, s.stage = .captured g) : Searched m k [] []
  | refreshing {follow g calls answers}
      (hk : m.activities k = some (.sync ⟨follow, .refreshing g⟩))
      (hi : Client.Inquiry m.client (.writer k) [] (versionAt m g) calls answers) :
      Searched m k calls answers
  | refused {g error} (hk : m.activities k = some (.sync ⟨true, .refused g error⟩))
      (he : error.clientUpdateRequired = true) :
      Searched m k [versionAt m g] [(versionAt m g, .error error)]
  | trying {g error candidates refusals}
      (hk : m.activities k = some (.sync ⟨true, .trying g error (versionAt m g) candidates⟩))
      (hall : ∀ a ∈ refusals, Outdated a) (hne : refusals ≠ [])
      (hnext : refusals.map Prod.fst ++ candidates = releases (versionAt m g)) :
      Searched m k (refusals.map Prod.fst) refusals
  | adopting {g error candidate candidates refusals calls answers}
      (hk : m.activities k =
        some (.sync ⟨true, .adopting g error (versionAt m g) candidate candidates⟩))
      (hall : ∀ a ∈ refusals, Outdated a) (hne : refusals ≠ [])
      (hnext : refusals.map Prod.fst ++ candidate :: candidates = releases (versionAt m g))
      (hi : Client.Inquiry m.client (.writer k) refusals candidate calls answers) :
      Searched m k calls answers
  | finishing {follow g result followed calls answers}
      (hk : m.activities k = some (.sync ⟨follow, .finishing g result followed⟩))
      (hcalls : calls.length ≤ 4) : Searched m k calls answers

variable {asked : List String} {heard : List Client.Answer}

/-- A sync makes at most four calls. -/
theorem Searched.length_le (h : Searched m k asked heard) : asked.length ≤ 4 := by
  cases h with
  | idle _ hcalls | finishing _ hcalls => exact hcalls
  | begun => simp
  | refreshing _ hi => exact hi.asked_prefix.length_le.trans (by simp)
  | refused => simp
  | @trying g _ _ _ _ _ _ hnext =>
    refine le_trans ?_ (length_releases_le (versionAt m g))
    rw [← hnext, List.length_append]
    exact Nat.le_add_right _ _
  | @adopting g _ candidate _ refusals _ _ _ _ _ hnext hi =>
    refine hi.asked_prefix.length_le.trans (le_trans ?_ (length_releases_le (versionAt m g)))
    rw [← hnext]
    simp

/-- What an activity has done, if it is no sync. -/
theorem Searched.of_idle (h : Searched m k asked heard)
    (hk : ∀ s, m.activities k ≠ some (.sync s)) : m.nextActivity ≤ k → asked = [] ∧ heard = [] := by
  cases h with
  | idle _ _ hfresh => exact hfresh
  | begun hk' | refreshing hk' | refused hk' | trying hk' | adopting hk' | finishing hk' =>
    exact absurd hk' (hk _)

/-- A transition after which the activity is no sync. -/
theorem Searched.to_idle (h : Searched m k asked heard) (hs : Sound m)
    (hk : ∀ s, m'.activities k ≠ some (.sync s)) (hn : m.nextActivity ≤ m'.nextActivity) :
    Searched m' k asked heard := by
  refine .idle hk h.length_le fun hle => h.of_idle (fun s => ?_) (hn.trans hle)
  rw [hs.exclusive.fresh k (hn.trans hle)]
  exact (Option.some_ne_none _).symm

/-- A transition that leaves alone the activity and its operation. -/
theorem Searched.congr (h : Searched m k asked heard) (ht : Tracked m)
    (ha : m'.activities k = m.activities k) (hn : m.nextActivity ≤ m'.nextActivity)
    (hops : m'.client.ops (.writer k) = m.client.ops (.writer k))
    (hv : ∀ g ≤ m.client.current, versionAt m' g = versionAt m g) : Searched m' k asked heard := by
  have base : ∀ {s g}, m.activities k = some (.sync s) → s.stage.generation = some g →
      versionAt m' g = versionAt m g := by
    intro s g hk hg
    apply hv
    rcases ht k s g hk hg with h | ⟨h, -⟩ <;> omega
  cases h with
  | idle hk hcalls hfresh =>
    exact .idle (by rwa [ha]) hcalls fun hle => hfresh (hn.trans hle)
  | begun hk hs => exact .begun (ha.trans hk) hs
  | refreshing hk hi => exact .refreshing (ha.trans hk) (by rw [base hk rfl]; exact hi.congr hops)
  | refused hk he =>
    rw [← base hk rfl]
    exact .refused (ha.trans hk) he
  | trying hk hall hne hnext =>
    rw [← base hk rfl] at hk hnext
    exact .trying (ha.trans hk) hall hne hnext
  | adopting hk hall hne hnext hi =>
    rw [← base hk rfl] at hk hnext
    exact .adopting (ha.trans hk) hall hne hnext (hi.congr hops)
  | finishing hk hcalls => exact .finishing (ha.trans hk) hcalls

/-! ### Steps of the client -/

/-- Only a sync that waits presents a version. -/
theorem presented_eq_none (hs : Sound m)
    (hk : ∀ s, m.activities k = some (.sync s) → s.stage.waits = false) :
    m.client.presented (.writer k) = none := by
  unfold Client.presented
  cases hrun : m.client.running (.writer k) with
  | none => rfl
  | some op =>
    have hop := Client.running_eq_some.1 hrun
    cases hcall : op.call with
    | version presented =>
      exfalso
      cases hs.owned.writer k op hop with
      | worker _ _ _ hlogin =>
        rw [hcall] at hlogin
        simp at hlogin
      | sync hk' hw =>
        rw [hk _ hk'] at hw
        cases hw
    | _ => simp [hcall]

theorem asks_eq_nil {c : Client Task} {task : Task} {ce : Client.Event Task}
    (h : c.presented task = none) : Client.asks task c ce = [] := by
  cases ce <;> simp [Client.asks, h]

theorem answers_eq_nil {c : Client Task} {task : Task} {ce : Client.Event Task}
    (h : c.presented task = none) : Client.answers task c ce = [] := by
  cases ce <;> simp [Client.answers, h]

/-- Sessions keep their client version. -/
theorem versionAt_of_clientStep {ce : Client.Event Task}
    (hc : Client.step setup.lib setup.options m.client ce = some m'.client) (g : ℕ)
    (hg : g ≤ m.client.current) : versionAt m' g = versionAt m g := by
  unfold versionAt
  rw [(Client.identity_of_step hc hg).1]

/-- A step of the client by itself. -/
theorem Searched.of_progress (h : Searched m k asked heard) (hs : Sound m) (ht : Tracked m)
    {ce : Client.Event Task} {client : Client Task} (hp : progresses ce = true)
    (hc : Client.step setup.lib setup.options m.client ce = some client) :
    Searched (m.setClient client) k (asked ++ Client.asks (.writer k) m.client ce)
      (heard ++ Client.answers (.writer k) m.client ce) := by
  have hv := @versionAt_of_clientStep _ _ _ m (m.setClient client) _ hc
  have base : ∀ {s g}, m.activities k = some (.sync s) → s.stage.generation = some g →
      versionAt (m.setClient client) g = versionAt m g := by
    intro s g hk hg
    apply hv
    rcases ht k s g hk hg with h | ⟨h, -⟩ <;> omega
  -- the client neither submits nor takes the operation
  have inquiry : ∀ {before v}, Client.Inquiry m.client (.writer k) before v asked heard →
      Client.Inquiry client (.writer k) before v (asked ++ Client.asks (.writer k) m.client ce)
        (heard ++ Client.answers (.writer k) m.client ce) := by
    intro before v hi
    apply hi.step (Client.Step.of_step hc) <;> (try intro request id) <;> rintro rfl <;> cases hp
  -- there is no operation
  have quiet : (∀ s, m.activities k = some (.sync s) → s.stage.waits = false) →
      asked ++ Client.asks (.writer k) m.client ce = asked ∧
        heard ++ Client.answers (.writer k) m.client ce = heard := by
    intro hk
    have hnone := presented_eq_none hs hk
    rw [asks_eq_nil hnone, answers_eq_nil hnone, List.append_nil, List.append_nil]
    exact ⟨rfl, rfl⟩
  have stage : ∀ {s s' : Sync}, m.activities k = some (.sync s) → s.stage.waits = false →
      m.activities k = some (.sync s') → s'.stage.waits = false := by
    intro s s' hk hw hk'
    rw [hk] at hk'
    cases hk'
    exact hw
  cases h with
  | idle hk hcalls hfresh =>
    obtain ⟨ha, hh⟩ := quiet fun s hk' => absurd hk' (hk s)
    rw [ha, hh]
    exact .idle hk hcalls hfresh
  | begun hk hstage =>
    obtain ⟨ha, hh⟩ := quiet fun s => stage hk (by rcases hstage with h | ⟨_, h⟩ <;> rw [h] <;> rfl)
    rw [ha, hh]
    exact .begun hk hstage
  | refreshing hk hi => exact .refreshing hk (by rw [base hk rfl]; exact inquiry hi)
  | refused hk he =>
    obtain ⟨ha, hh⟩ := quiet fun s => stage hk rfl
    rw [ha, hh, ← base hk rfl]
    exact .refused hk he
  | trying hk hall hne hnext =>
    obtain ⟨ha, hh⟩ := quiet fun s => stage hk rfl
    rw [ha, hh]
    rw [← base hk rfl] at hk hnext
    exact .trying hk hall hne hnext
  | adopting hk hall hne hnext hi =>
    rw [← base hk rfl] at hk hnext
    exact .adopting hk hall hne hnext (inquiry hi)
  | finishing hk hcalls =>
    obtain ⟨ha, hh⟩ := quiet fun s => stage hk rfl
    rw [ha, hh]
    exact .finishing hk hcalls

/-- A step of the client for a caller. -/
theorem Searched.of_caller (h : Searched m k asked heard) (ht : Tracked m) {ce : Client.Event Task}
    {n : ℕ} (hc : Client.step setup.lib setup.options m.client ce = some m'.client)
    (hce : (∃ request id, ce = .submit (.caller n) request id) ∨ ce = .take (.caller n) ∨
      ce = .drop (.caller n))
    (ha : m'.activities = m.activities) (hn : m'.nextActivity = m.nextActivity) :
    Searched m' k asked heard :=
  h.congr ht (by rw [ha]) hn.ge (ops_of_other hc hce (by simp)) (versionAt_of_clientStep hc)

/-! ### Steps of the sync -/

/-- The sync submits a version discovery. -/
theorem inquiry_of_submit {client : Client Task} {g : ℕ} {candidate : Option String} {id : String}
    {before : List Client.Answer}
    (hc : Client.step setup.lib setup.options m.client (.submit (.writer k) (.version g candidate) id) =
      some client) :
    Client.Inquiry client (.writer k) before (candidate.getD m.client.session.config.clientVersion)
      (before.map Prod.fst) before :=
  .of_submit (Client.Step.of_step hc)

/-- A version that the game has refused was answered so. -/
theorem heard_of_refused {before : List Client.Answer} {v : String} {error : ClientError}
    (hi : Client.Inquiry m.client (.writer k) before v asked heard)
    (hr : m.client.ops (.writer k) = some (.done (.error error)))
    (he : error.clientUpdateRequired = true) :
    asked = before.map Prod.fst ++ [v] ∧ heard = before ++ [(v, .error error)] := by
  cases hi with
  | waiting hj | calling hj | answered hj =>
    rw [hr] at hj
    cases hj
  | refused hj =>
    rw [hr] at hj
    cases hj
    exact ⟨rfl, rfl⟩
  | ended hj hplain =>
    rw [hr] at hj
    cases hj
    have := (hplain error rfl).not_clientUpdateRequired
    rw [he] at this
    cases this

/-- The sync takes the result of its operation. -/
theorem Searched.of_take (h : Searched m k asked heard) {follow : Bool} {stage : SyncStage}
    {result : Except ClientError Outcome} (hk : m.activities k = some (.sync ⟨follow, stage⟩))
    (hw : stage.waits = true) (hr : m.client.ops (.writer k) = some (.done result))
    (hk' : m'.activities k = some (.sync ⟨follow, afterCall follow result stage⟩))
    (hv : ∀ g, stage.generation = some g → versionAt m' g = versionAt m g) :
    Searched m' k asked heard := by
  have hlength := h.length_le
  cases h with
  | idle hno => exact absurd hk (hno _)
  | begun hk₁ hs =>
    rw [hk] at hk₁
    cases hk₁
    rcases hs with hs | ⟨g, hs⟩ <;> dsimp only at hs <;> rw [hs] at hw <;> cases hw
  | refused hk₁ | trying hk₁ | finishing hk₁ =>
    rw [hk] at hk₁
    cases hk₁
    cases hw
  | @refreshing _ g _ _ hk₁ hi =>
    rw [hk] at hk₁
    cases hk₁
    cases result with
    | ok outcome => exact .finishing hk' hlength
    | error error =>
      by_cases hc : (follow && error.clientUpdateRequired) = true
      · obtain ⟨rfl, he⟩ : follow = true ∧ error.clientUpdateRequired = true := by simpa using hc
        obtain ⟨rfl, rfl⟩ := heard_of_refused hi hr he
        rw [← hv g rfl]
        simp only [afterCall, he, Bool.and_self, if_true] at hk'
        exact .refused hk' he
      · simp only [afterCall, if_neg hc] at hk'
        exact .finishing hk' hlength
  | @adopting g _ candidate candidates refusals _ _ hk₁ hall hne hnext hi =>
    rw [hk] at hk₁
    cases hk₁
    rw [← hv g rfl] at hnext
    cases result with
    | ok outcome => exact .finishing hk' hlength
    | error error =>
      by_cases he : error.clientUpdateRequired = true
      · obtain ⟨rfl, rfl⟩ := heard_of_refused hi hr he
        simp only [afterCall, if_pos he] at hk'
        rw [← hv g rfl] at hk'
        have hall' : ∀ a ∈ refusals ++ [(candidate, .error error)], Outdated a := by
          intro a ha
          rcases List.mem_append.1 ha with ha | ha
          · exact hall a ha
          · obtain rfl := List.mem_singleton.1 ha
            exact ⟨error, rfl, he⟩
        have := Searched.trying hk' hall' (by simp) (by simpa using hnext)
        simpa using this
      · simp only [afterCall, if_neg he] at hk'
        exact .finishing hk' hlength

/-- What one event does to the search. -/
theorem Searched.step (h : Searched m k asked heard) (hs : Sound m) (ht : Tracked m)
    (hstep : Step setup m e m') :
    Searched m' k (asked ++ presents k ⟨m, e, m'⟩) (heard ++ hears k ⟨m, e, m'⟩) := by
  -- the other activities are not there
  have only : ∀ {j : ℕ} {a : Activity}, m.activities j = some a →
      ∀ s, m.activities k = some (.sync s) → k = j ∧ a = .sync s := by
    intro j a hj s hk
    obtain rfl := hs.exclusive.unique k j (by simp [hk]) (by simp [hj])
    rw [hj] at hk
    exact ⟨rfl, Option.some.inj hk⟩
  -- an event that presents and hears nothing
  have silent : Searched m' k asked heard → (∀ ce, e ≠ .client ce) →
      Searched m' k (asked ++ presents k ⟨m, e, m'⟩) (heard ++ hears k ⟨m, e, m'⟩) := by
    intro h he
    have hp : presents k (⟨m, e, m'⟩ : Transition (ManagedClient I ρ) (Event I)) = [] := by
      unfold presents
      split
      · next ce hce => exact absurd hce (he ce)
      · rfl
    have hh : hears k (⟨m, e, m'⟩ : Transition (ManagedClient I ρ) (Event I)) = [] := by
      unfold hears
      split
      · next ce hce => exact absurd hce (he ce)
      · rfl
    rwa [hp, hh, List.append_nil, List.append_nil]
  -- an activity other than a sync goes on or ends
  have foreign : ∀ {j : ℕ} {a : Activity} {x : Option Activity}, m.activities j = some a →
      (∀ s, a ≠ .sync s) → (∀ s, x ≠ some (.sync s)) →
      m'.activities = Function.update m.activities j x → m'.nextActivity = m.nextActivity →
      Searched m' k asked heard := by
    intro j a x hj ha hx hact hn
    have hno : ∀ s, m.activities k ≠ some (.sync s) := fun s hk => ha s (only hj s hk).2
    refine h.to_idle hs (fun s hk => ?_) hn.ge
    rw [hact, Function.update_apply] at hk
    split_ifs at hk
    · exact hx s hk
    · exact hno s hk
  -- an event of the sync `j`
  have sync : ∀ {j : ℕ} {s s' : Sync}, m.activities j = some (.sync s) →
      m'.activities = Function.update m.activities j (some (.sync s')) →
      m'.nextActivity = m.nextActivity → (k = j → Searched m' k asked heard) →
      Searched m' k asked heard := by
    intro j s s' hj hact hn hkj
    by_cases hne : k = j
    · exact hkj hne
    · have hno : ∀ s, m.activities k ≠ some (.sync s) := fun s hk => hne (only hj s hk).1
      refine h.to_idle hs (fun s hk => ?_) hn.ge
      rw [hact, Function.update_of_ne hne] at hk
      exact hno s hk
  cases hstep with
  | client hp hc => exact h.of_progress hs ht hp hc
  | call _ hc => exact silent (h.of_caller ht hc (.inl ⟨_, _, rfl⟩) rfl rfl) (by simp)
  | returned _ _ hc => exact silent (h.of_caller ht hc (.inr (.inl rfl)) rfl rfl) (by simp)
  | dropCaller _ hc => exact silent (h.of_caller ht hc (.inr (.inr rfl)) rfl rfl) (by simp)
  | workerCall hj | workerTake hj | workerImport hj =>
    refine silent (h.to_idle hs (fun s hk => ?_) le_rfl) (by simp)
    cases (only hj s hk).2
  | workerConfig hj | workerReplace hj | workerReturn hj | workerInterrupted hj | reloadFail hj
  | reloadConfig hj | reloadReplaceFailed hj | reloadReplace hj | workerEnd hj | reloadEndFailed hj
  | reloadEnd hj => exact silent (foreign hj (by simp) (by simp) rfl rfl) (by simp)
  | @syncEnd j _ _ _ _ _ hj =>
    refine silent (h.to_idle hs (fun s hk => ?_) le_rfl) (by simp)
    by_cases hkj : k = j
    · subst hkj
      simp at hk
    · exact hkj (only hj s (by simpa [hkj] using hk)).1
  | observeSpawn | reloadBegin =>
    refine silent ?_ (by simp)
    by_cases hk : k = m.nextActivity
    · subst hk
      exact h.to_idle hs (by simp) (Nat.le_succ _)
    · exact h.congr ht (by simp [hk]) (Nat.le_succ _) rfl fun _ _ => rfl
  | syncBegin =>
    refine silent ?_ (by simp)
    by_cases hk : k = m.nextActivity
    · subst hk
      obtain ⟨rfl, rfl⟩ := h.of_idle (by simp [hs.exclusive.fresh _ le_rfl]) le_rfl
      exact .begun (by simp; rfl) (.inl rfl)
    · exact h.congr ht (by simp [hk]) (Nat.le_succ _) rfl fun _ _ => rfl
  | syncGeneration hj =>
    refine silent (sync hj rfl rfl ?_) (by simp)
    rintro rfl
    cases h with
    | idle hno => exact absurd hj (hno _)
    | begun => exact .begun (setActivity_self _ _ _) (.inr ⟨_, rfl⟩)
    | refreshing hk | refused hk | trying hk | adopting hk | finishing hk =>
      rw [hj] at hk
      cases hk
  | @syncRefresh j id follow g client hj hc =>
    refine silent (sync hj rfl rfl ?_) (by simp)
    rintro rfl
    cases h with
    | idle hno => exact absurd hj (hno _)
    | begun =>
      have hg : m.client.current = g :=
        (ht k _ g hj rfl).resolve_right fun hup => not_updated rfl (by simp) hup.2
      refine .refreshing (setActivity_self _ _ _) ?_
      rw [versionAt_of_clientStep (m := m) hc g hg.ge, ← hg]
      exact inquiry_of_submit hc
    | refreshing hk | refused hk | trying hk | adopting hk | finishing hk =>
      rw [hj] at hk
      cases hk
  | @syncTake j follow stage result client hj hw hr hc =>
    refine silent (sync hj rfl rfl ?_) (by simp)
    rintro rfl
    refine h.of_take hj hw hr (setActivity_self _ _ _) fun g hg => ?_
    refine versionAt_of_clientStep (m := m) hc g ?_
    rcases ht k _ g hj hg with h | ⟨h, -⟩ <;> omega
  | @syncCandidates j follow g error hj =>
    refine silent (sync hj rfl rfl ?_) (by simp)
    rintro rfl
    cases h with
    | idle hno => exact absurd hj (hno _)
    | begun hk hstage =>
      rw [hj] at hk
      cases hk
      rcases hstage with h | ⟨_, h⟩ <;> cases h
    | @refused g' error' hk he =>
      rw [hj] at hk
      cases hk
      have hg : m.client.current = g :=
        (ht k _ g hj rfl).resolve_right fun hup => not_updated rfl (by simp) hup.2
      have hprevious : m.client.sessionConfig.clientVersion = versionAt m g := by rw [← hg]; rfl
      rw [hprevious]
      refine @Searched.trying _ _ _ _ _ _ _ [(versionAt m g, .error error)]
        (setActivity_self _ _ _) ?_ (by simp) rfl
      intro a ha
      obtain rfl := List.mem_singleton.1 ha
      exact ⟨error, rfl, he⟩
    | refreshing hk | trying hk | adopting hk | finishing hk =>
      rw [hj] at hk
      cases hk
  | @syncGiveUp j id follow g error previous hj =>
    refine silent (sync hj rfl rfl ?_) (by simp)
    rintro rfl
    exact .finishing (setActivity_self _ _ _) h.length_le
  | @syncAdopt j id follow g error previous candidate candidates client hj hc =>
    refine silent (sync hj rfl rfl ?_) (by simp)
    rintro rfl
    cases h with
    | idle hno => exact absurd hj (hno _)
    | begun hk hstage =>
      rw [hj] at hk
      cases hk
      rcases hstage with h | ⟨_, h⟩ <;> cases h
    | trying hk hall hne hnext =>
      rw [hj] at hk
      cases hk
      have hg : m.client.current = g :=
        (ht k _ g hj rfl).resolve_right fun hup => not_updated rfl (by simp) hup.2
      rw [← @versionAt_of_clientStep _ _ _ m ((m.setClient client).setActivity k none) _ hc g
        hg.ge] at hnext ⊢
      exact .adopting (setActivity_self _ _ _) hall hne hnext (inquiry_of_submit hc)
    | refreshing hk | refused hk | adopting hk | finishing hk =>
      rw [hj] at hk
      cases hk
  | refused he => exact silent h (by rintro ce rfl; cases he)
  | _ => exact silent (h.congr ht rfl le_rfl rfl fun _ _ => rfl) (by simp)

/-! ### Whole runs -/

theorem searched_of_run [DecidableEq ρ] (hrun : Run (step setup) m ts m') (hs : Sound m)
    (ht : Tracked m) (h : Searched m k [] []) : Searched m' k (calls ts k) (answers ts k) := by
  induction hrun with
  | nil => exact h
  | @snoc ts d e d' hrun hstep ih =>
    have := ih.step (sound_of_run hrun hs) (tracked_of_run hrun hs ht) (Step.of_step hstep)
    simpa [calls, answers] using this

theorem searched_initial (client : Client Task) (input : I) (k : ℕ) :
    Searched (initial client input : ManagedClient I ρ) k [] [] :=
  .idle (by simp [initial]) (by simp) fun _ => ⟨rfl, rfl⟩

/-- The operation of a sync runs under the session that the sync has read. -/
theorem current_of_running (ht : Tracked m) {follow : Bool} {stage : SyncStage} {g : ℕ} {op : Op}
    (hk : m.activities k = some (.sync ⟨follow, stage⟩)) (hg : stage.generation = some g)
    (hw : stage.waits = true) (hop : m.client.ops (.writer k) = some (.running op)) :
    m.client.current = g := by
  rcases ht k _ g hk hg with hcur | ⟨-, ⟨-, hdone⟩ | ⟨_, _, hf⟩⟩
  · exact hcur
  · rw [hop] at hdone
    cases hdone
  · dsimp only at hf
    rw [hf] at hw
    cases hw

theorem presented_eq_some {c : Client Task} {task : Task} {v : String}
    (h : c.presented task = some v) : ∃ op presented, c.ops task = some (.running op) ∧
      op.call = .version presented ∧ presented.clientVersion = v := by
  unfold Client.presented at h
  obtain ⟨op, hop, h⟩ := Option.bind_eq_some_iff.1 h
  split at h
  · next presented hcall =>
    exact ⟨op, presented, Client.running_eq_some.1 hop, hcall, Option.some.inj h⟩
  · cases h

/-- A version is presented at the start of a transport call. -/
theorem start_of_presents (hstep : Step setup m e m') {v : String}
    (hv : v ∈ presents k (⟨m, e, m'⟩ : Transition (ManagedClient I ρ) (Event I))) :
    ∃ op presented, m.client.ops (.writer k) = some (.running op) ∧ op.stage = .slot ∧
      op.call = .version presented ∧ presented.clientVersion = v := by
  unfold presents at hv
  split at hv
  · next ce hce =>
    dsimp only at hce hv
    subst hce
    cases ce with
    | start j =>
      simp only [Client.asks] at hv
      split_ifs at hv with hj
      · subst hj
        obtain ⟨op, presented, hop, hcall, hp⟩ := presented_eq_some (Option.mem_toList.1 hv)
        cases hstep with
        | refused he => cases he
        | client _ hc =>
          cases Client.Step.of_step hc with
          | start hop' hs =>
            rw [hop] at hop'
            cases hop'
            exact ⟨op, presented, hop, hs, hcall, hp⟩
      · cases hv
    | _ => cases hv
  · cases hv

/-- A sync calls again only if the game has refused all versions before for a newer client. -/
theorem Searched.of_call (h : Searched m k asked heard) (hs : Sound m) (ht : Tracked m)
    (hstep : Step setup m e m') {v : String}
    (hv : v ∈ presents k (⟨m, e, m'⟩ : Transition (ManagedClient I ρ) (Event I))) :
    ∃ follow stage, m.activities k = some (.sync ⟨follow, stage⟩) ∧
      (heard ≠ [] → follow = true) ∧ (∀ a ∈ heard, Outdated a) ∧ asked = heard.map Prod.fst ∧
      asked ++ [v] <+: releases m.client.sessionConfig.clientVersion := by
  obtain ⟨op, presented, hop, hslot, hcall, rfl⟩ := start_of_presents hstep hv
  -- the call is the next one of the inquiry
  have next : ∀ {before w}, Client.Inquiry m.client (.writer k) before w asked heard →
      asked = before.map Prod.fst ∧ heard = before ∧ presented.clientVersion = w := by
    intro before w hi
    obtain ⟨⟨_, hcall', hw⟩, ⟨-, ha, hh⟩ | ⟨-, ⟨⟨b, hb⟩, -⟩ | ⟨r, hr, -⟩⟩⟩ := hi.of_running hop
    · rw [hcall] at hcall'
      cases hcall'
      exact ⟨ha, hh, hw⟩
    · rw [hslot] at hb
      cases hb
    · rw [hslot] at hr
      cases hr
  cases hs.owned.writer k op hop with
  | worker _ _ _ hlogin =>
    rw [hcall] at hlogin
    simp at hlogin
  | @sync s _ hk hw hg =>
    obtain ⟨follow, stage⟩ := s
    have hcur := current_of_running ht hk hg hw hop
    refine ⟨follow, stage, hk, ?_⟩
    cases h with
    | idle hno => exact absurd hk (hno _)
    | begun hk' hstage =>
      rw [hk] at hk'
      cases hk'
      rcases hstage with h | ⟨_, h⟩ <;> dsimp only at h <;> rw [h] at hw <;> cases hw
    | refused hk' | trying hk' | finishing hk' =>
      rw [hk] at hk'
      cases hk'
      cases hw
    | @refreshing _ g _ _ hk' hi =>
      rw [hk] at hk'
      cases hk'
      obtain rfl := Option.some.inj hg
      obtain ⟨rfl, rfl, hv⟩ := next hi
      have hbase : presented.clientVersion = m.client.sessionConfig.clientVersion := by
        rw [hv, ← hcur]
        rfl
      refine ⟨fun h => absurd rfl h, by simp, rfl, ?_⟩
      rw [hbase]
      exact ⟨_, rfl⟩
    | @adopting g error candidate candidates refusals _ _ hk' hall hne hnext hi =>
      rw [hk] at hk'
      cases hk'
      obtain rfl := Option.some.inj hg
      obtain ⟨rfl, rfl, hv⟩ := next hi
      have hbase : versionAt m op.generation = m.client.sessionConfig.clientVersion := by
        rw [← hcur]
        rfl
      refine ⟨fun _ => rfl, hall, rfl, candidates, ?_⟩
      rw [← hbase, ← hnext, hv]
      simp

end MoenotesApi.ManagedClient
