import MoenotesApi.Managed.Lineage

/-!
# The generation that the markers refer to

`sync_versions` reads the generation once, and its last critical section compares the markers of
recovery attempts with what it has read.  In between the session may have been replaced, by the sync
itself and by nobody else.

* `Tracked`: a running sync has updated the session exactly if its result will be `Ok(true)`;
* `Reference`: the generation that the markers refer to, in the middle of a sync or outside;
* `reference_of_step`: how an event moves it.
-/

namespace MoenotesApi.ManagedClient

open Runs

variable {I ρ : Type} {setup : Setup I ρ} {m m' : ManagedClient I ρ} {e : Event I}
variable {ts us : List (Transition (ManagedClient I ρ) (Event I))}

/-! ### A sync and the session -/

/-- The sync `k` has replaced the session: its operation has returned `Ok(true)`, or the sync has
taken that result. -/
def Updated (m : ManagedClient I ρ) (k : ℕ) (stage : SyncStage) : Prop :=
  stage.waits = true ∧ m.client.ops (.writer k) = some (.done (.ok (.versions true))) ∨
    ∃ g followed, stage = .finishing g (.ok (.versions true)) followed

/-- The generation of a running sync is that of the session, up to the update by the sync. -/
def Tracked (m : ManagedClient I ρ) : Prop :=
  ∀ k s g, m.activities k = some (.sync s) → s.stage.generation = some g →
    m.client.current = g ∨ m.client.current = g + 1 ∧ Updated m k s.stage

/-- An operation that has returned stays as it is, while the client goes on with the others. -/
theorem done_of_progress {client client' : Client Task} {ce : Client.Event Task} {task : Task}
    {result : Except ClientError Outcome} (hp : progresses ce = true)
    (hc : Client.step setup.lib setup.options client ce = some client')
    (hd : client.ops task = some (.done result)) : client'.ops task = some (.done result) := by
  have other : ∀ {j : Task} {op : Op} {x : Option OpState}, client.ops j = some (.running op) →
      Function.update client.ops j x task = some (.done result) := by
    intro j op x hj
    have hne : task ≠ j := by
      rintro rfl
      rw [hd] at hj
      cases hj
    rw [Function.update_of_ne hne, hd]
  cases Client.Step.of_step hc with
  | submitError | submit | take | importRefused | imported | replaceRefused | replaced | drop =>
    cases hp
  | advance => exact hd
  | acquireFull hi | acquire hi | enterRefused hi | enter hi | start hi | answerError hi | answer hi
  | checkFailed hi | check hi | finishError hi | finishKeep hi | finishInstall hi | abort hi
  | cancel hi => exact other hi

/-- A sync that waits for no operation and has no result yet has not updated the session. -/
theorem not_updated {k : ℕ} {stage : SyncStage} (hw : stage.waits = false)
    (hf : ∀ g result followed, stage ≠ .finishing g result followed) : ¬ Updated m k stage := by
  rintro (⟨hw', -⟩ | ⟨g, followed, rfl⟩)
  · rw [hw] at hw'
    cases hw'
  · exact hf _ _ _ rfl

/-- The operation of a sync that submits or takes does not replace the session. -/
theorem current_of_quiet {client client' : Client Task} {ce : Client.Event Task}
    (hc : Client.step setup.lib setup.options client ce = some client')
    (hfinish : ∀ i files, ce ≠ .finish i files)
    (himport : ∀ g provider, ce ≠ .importCredentials g provider)
    (hreplace : ∀ config provider, ce ≠ .replaceSession config provider) :
    client'.current = client.current := by
  by_contra hne
  cases (Client.install_cases hc hne).1 with
  | finish he => exact hfinish _ _ he
  | imported he => exact himport _ _ he
  | replaced he => exact hreplace _ _ he

/-- What a sync makes of `Ok(true)`. -/
theorem afterCall_updated (follow : Bool) {stage : SyncStage} (hw : stage.waits = true) :
    ∃ g followed, afterCall follow (.ok (.versions true)) stage =
      .finishing g (.ok (.versions true)) followed := by
  cases stage with
  | refreshing g => exact ⟨g, none, rfl⟩
  | adopting g _ previous candidate => exact ⟨g, some (previous, candidate), rfl⟩
  | _ => cases hw

/-- Submitting, taking or dropping an operation touches no other operation. -/
theorem ops_of_other {client client' : Client Task} {ce : Client.Event Task} {j task : Task}
    (hc : Client.step setup.lib setup.options client ce = some client')
    (hce : (∃ request id, ce = .submit j request id) ∨ ce = .take j ∨ ce = .drop j)
    (hne : task ≠ j) : client'.ops task = client.ops task := by
  rcases hce with ⟨request, id, rfl⟩ | rfl | rfl
  · cases Client.Step.of_step hc with
    | submitError | submit => simp [hne]
  · cases Client.Step.of_step hc with
    | take => simp [hne]
  · cases Client.Step.of_step hc with
    | drop => simp [hne]

/-- A step of the client for a caller does not touch what a sync waits for. -/
theorem Tracked.of_caller (h : Tracked m) {ce : Client.Event Task} {n : ℕ}
    (hc : Client.step setup.lib setup.options m.client ce = some m'.client)
    (hce : (∃ request id, ce = .submit (.caller n) request id) ∨ ce = .take (.caller n) ∨
      ce = .drop (.caller n))
    (ha : m'.activities = m.activities) : Tracked m' := by
  intro k s g hk hg
  have hcur : m'.client.current = m.client.current := by
    apply current_of_quiet hc <;> rcases hce with ⟨_, _, rfl⟩ | rfl | rfl <;> simp
  have hops : m'.client.ops (.writer k) = m.client.ops (.writer k) :=
    ops_of_other hc hce (by simp)
  have := h k s g (ha ▸ hk) hg
  simpa [Updated, hcur, hops] using this

/-- A step of the client by itself: only the operation of the sync updates the session. -/
theorem Tracked.of_progress (h : Tracked m) (hs : Sound m) {ce : Client.Event Task}
    {client : Client Task} (hp : progresses ce = true)
    (hc : Client.step setup.lib setup.options m.client ce = some client) :
    Tracked (m.setClient client) := by
  intro k s g hk hg
  by_cases hcur : client.current = m.client.current
  · rcases h k s g hk hg with hg' | ⟨hg', hw | hf⟩
    · exact .inl (hcur.trans hg')
    · exact .inr ⟨hcur.trans hg', .inl ⟨hw.1, done_of_progress hp hc hw.2⟩⟩
    · exact .inr ⟨hcur.trans hg', .inr hf⟩
  · obtain ⟨hinstall, hnext⟩ :=
      installs_cases hs.owned (@Step.client _ _ setup _ _ _ hp hc) hcur
    have only : ∀ {j : ℕ} {a : Activity}, m.activities j = some a → j = k ∧ a = .sync s := by
      intro j a hj
      obtain rfl := hs.exclusive.unique j k (by simp [hj]) (by simpa using hk ▸ Option.some_ne_none _)
      exact ⟨rfl, Option.some.inj (hj.symm.trans hk)⟩
    cases hinstall with
    | version _ _ _ hj hw hg' hdone =>
      obtain ⟨rfl, ha⟩ := only hj
      cases ha
      rw [hg] at hg'
      obtain rfl := Option.some.inj hg'
      exact .inr ⟨hnext, .inl ⟨hw, hdone⟩⟩
    | login _ hj | imported _ hj | replaced _ hj | reloaded _ hj => cases (only hj).2

theorem Tracked.of_branch (h : Tracked m) (hs : Sound m) (hstep : Step setup m e m') :
    Tracked m' := by
  -- the other activities are not there
  have only : ∀ {j k : ℕ} {a b : Activity}, m.activities j = some a → m.activities k = some b →
      j = k ∧ a = b := by
    intro j k a b hj hk
    obtain rfl := hs.exclusive.unique j k (by simp [hj]) (by simp [hk])
    rw [hj] at hk
    exact ⟨rfl, Option.some.inj hk⟩
  -- an event that leaves the client and the syncs alone
  have same : m'.client = m.client →
      (∀ k s, m'.activities k = some (.sync s) → m.activities k = some (.sync s)) → Tracked m' := by
    intro hc ha k s g hk hg
    have := h k s g (ha k s hk) hg
    simpa [Updated, hc] using this
  have kept : ∀ {j : ℕ} {x : Option Activity} {k : ℕ} {s : Sync},
      Function.update m.activities j x k = some (.sync s) → (∀ s, x ≠ some (.sync s)) →
        m.activities k = some (.sync s) := by
    intro j x k s hk hx
    rw [Function.update_apply] at hk
    split_ifs at hk
    · exact absurd hk (hx s)
    · exact hk
  -- the sync `j` goes on
  have went : ∀ {j : ℕ} {a b : Activity} {k : ℕ} {s : Sync}, m.activities j = some a →
      Function.update m.activities j (some b) k = some (.sync s) → k = j ∧ b = .sync s := by
    intro j a b k s hj hk
    by_cases hkj : k = j
    · subst hkj
      rw [Function.update_self] at hk
      exact ⟨rfl, Option.some.inj hk⟩
    · rw [Function.update_of_ne hkj] at hk
      exact absurd (only hk hj).1 hkj
  cases hstep with
  | client hp hc => exact h.of_progress hs hp hc
  | call _ hc => exact h.of_caller hc (.inl ⟨_, _, rfl⟩) rfl
  | returned _ _ hc => exact h.of_caller hc (.inr (.inl rfl)) rfl
  | dropCaller _ hc => exact h.of_caller hc (.inr (.inr rfl)) rfl
  | workerCall hj | workerTake hj | workerImport hj =>
    intro k s g hk
    cases (only hj hk).2
  | workerReplace hj | workerInterrupted hj | reloadReplace hj =>
    intro k s g hk
    cases (only hj (kept hk (by simp))).2
  | observeSpawn | workerConfig | workerReturn | workerEnd | reloadBegin | reloadFail | reloadConfig
  | reloadReplaceFailed | reloadEndFailed | reloadEnd | syncEnd =>
    exact same rfl fun k s hk => kept hk (by simp)
  | syncBegin =>
    intro k s g hk hg
    by_cases hkn : k = m.nextActivity
    · subst hkn
      rw [spawn_activities, Function.update_self] at hk
      cases hk
      cases hg
    · rw [spawn_activities, Function.update_of_ne hkn] at hk
      exact h k s g hk hg
  | syncGeneration hj =>
    intro k s g hk hg
    obtain ⟨rfl, hb⟩ := went hj hk
    cases hb
    exact .inl (Option.some.inj hg)
  | syncRefresh hj hc | syncAdopt hj hc =>
    intro k s g hk hg
    obtain ⟨rfl, hb⟩ := went hj hk
    cases hb
    obtain rfl := Option.some.inj hg
    have hcur := (h k _ _ hj rfl).resolve_right fun hup => not_updated rfl (by simp) hup.2
    exact .inl ((current_of_quiet hc (by simp) (by simp) (by simp)).trans hcur)
  | @syncTake j follow stage result client hj hw hr hc =>
    intro k s g hk hg
    obtain ⟨rfl, hb⟩ := went hj hk
    cases hb
    have hcur : client.current = m.client.current :=
      current_of_quiet hc (by simp) (by simp) (by simp)
    rw [generation_afterCall] at hg
    rcases h k _ g hj hg with hg' | ⟨hg', ⟨-, hdone⟩ | ⟨_, _, hf⟩⟩
    · exact .inl (hcur.trans hg')
    · rw [hr] at hdone
      cases hdone
      exact .inr ⟨hcur.trans hg', .inr (afterCall_updated follow hw)⟩
    · dsimp only at hf
      subst hf
      cases hw
  | syncCandidates hj | syncGiveUp hj =>
    intro k s g hk hg
    obtain ⟨rfl, hb⟩ := went hj hk
    cases hb
    obtain rfl := Option.some.inj hg
    exact .inl ((h k _ _ hj rfl).resolve_right fun hup => not_updated rfl (by simp) hup.2)
  | _ => exact same rfl fun _ _ hk => hk

theorem tracked_initial (client : Client Task) (input : I) :
    Tracked (initial client input : ManagedClient I ρ) := by
  intro k s g hk
  cases hk

theorem tracked_of_run [DecidableEq ρ] (hrun : Run (step setup) m ts m') (hs : Sound m)
    (h : Tracked m) : Tracked m' := by
  induction hrun with
  | nil => exact h
  | snoc hrun hstep ih => exact ih.of_branch (sound_of_run hrun hs) (Step.of_step hstep)

/-! ### The reference of the markers -/

/-- A running sync has read the generation `g`. -/
def Captures (m : ManagedClient I ρ) (g : ℕ) : Prop :=
  ∃ k s, m.activities k = some (.sync s) ∧ s.stage.generation = some g

/-- The generation that the markers refer to: the one that a running sync has read, else that of the
session. -/
def Reference (m : ManagedClient I ρ) (g : ℕ) : Prop :=
  Captures m g ∨ (∀ x, ¬ Captures m x) ∧ m.client.current = g

theorem reference_exists (m : ManagedClient I ρ) : ∃ g, Reference m g := by
  by_cases h : ∃ g, Captures m g
  · obtain ⟨g, hg⟩ := h
    exact ⟨g, .inl hg⟩
  · exact ⟨_, .inr ⟨not_exists.1 h, rfl⟩⟩

theorem Captures.unique (hs : Sound m) {g x : ℕ} (hg : Captures m g) (hx : Captures m x) :
    g = x := by
  obtain ⟨k, s, hk, hg⟩ := hg
  obtain ⟨j, r, hj, hx⟩ := hx
  obtain rfl := hs.exclusive.unique j k (by simp [hj]) (by simp [hk])
  rw [hk] at hj
  cases hj
  exact Option.some.inj (hg.symm.trans hx)

theorem Reference.unique (hs : Sound m) {g x : ℕ} (hg : Reference m g) (hx : Reference m x) :
    g = x := by
  rcases hg with hg | ⟨hnone, rfl⟩ <;> rcases hx with hx | ⟨hnone', hx⟩
  · exact hg.unique hs hx
  · exact absurd hg (hnone' g)
  · exact absurd hx (hnone x)
  · exact hx

/-- A running worker or reload reads no generation that it keeps. -/
theorem not_captures_of_activity (hs : Sound m) {k : ℕ} {a : Activity}
    (hk : m.activities k = some a) (ha : a.kind ≠ .sync) (g : ℕ) : ¬ Captures m g := by
  rintro ⟨j, s, hj, -⟩
  obtain rfl := hs.exclusive.unique j k (by simp [hj]) (by simp [hk])
  rw [hk] at hj
  cases hj
  exact ha rfl

theorem reference_of_idle (h : ∀ k s, m.activities k ≠ some (.sync s)) :
    Reference m m.client.current :=
  .inr ⟨fun _ ⟨k, s, hk, _⟩ => h k s hk, rfl⟩

theorem Captures.congr {g : ℕ} (h : Captures m g) (ha : m'.activities = m.activities) :
    Captures m' g := by
  obtain ⟨k, s, hk, hg⟩ := h
  exact ⟨k, s, ha ▸ hk, hg⟩

/-- A sync keeps the generation that it has read until it ends. -/
theorem captures_kept (hs : Sound m) (hstep : Step setup m e m') {g : ℕ} (h : Captures m g) :
    Captures m' g ∨ ∃ k time follow result followed, e = .syncEnd k time ∧
      m.activities k = some (.sync ⟨follow, .finishing g result followed⟩) := by
  obtain ⟨k, s, hk, hg⟩ := h
  have fresh : k ≠ m.nextActivity := (hs.exclusive.lt_nextActivity hk).ne
  cases hstep.effect with
  | quiet _ ha | status _ _ _ ha | noted _ _ _ _ _ ha => exact .inl ⟨k, s, ha ▸ hk, hg⟩
  | spawned _ _ _ _ _ _ ha | syncBegan _ _ _ _ _ ha | reloadBegan _ _ _ _ _ ha =>
    exact .inl ⟨k, s, by rw [ha, Function.update_of_ne fresh, hk], hg⟩
  | @wentOn j a a' _ hj _ ha _ _ _ hgo =>
    obtain rfl := hs.exclusive.unique j k (by simp [hj]) (by simp [hk])
    rw [hk] at hj
    obtain rfl := Option.some.inj hj
    obtain ⟨s', rfl, hs' | ⟨hnone, -⟩⟩ := hgo.sync s rfl
    · exact .inl ⟨j, s', by rw [ha, Function.update_self], hs'.trans hg⟩
    · rw [hnone] at hg
      cases hg
  | @workerEnded j _ _ _ hj | @reloadFailed j _ _ hj | @reloaded j _ hj =>
    obtain rfl := hs.exclusive.unique j k (by simp [hj]) (by simp [hk])
    rw [hk] at hj
    cases hj
  | @syncEnded j time follow g' result followed he hj =>
    obtain rfl := hs.exclusive.unique j k (by simp [hj]) (by simp [hk])
    rw [hk] at hj
    cases hj
    obtain rfl := Option.some.inj hg
    exact .inr ⟨j, time, follow, result, followed, he, hk⟩

/-- The generation that a sync has read was read before, or is read now. -/
theorem captures_of_step (hs : Sound m) (hstep : Step setup m e m') {g : ℕ} (h : Captures m' g) :
    Captures m g ∨ (∀ x, ¬ Captures m x) ∧ m.client.current = g := by
  obtain ⟨k, s, hk, hg⟩ := h
  cases hstep.effect with
  | quiet _ ha | status _ _ _ ha | noted _ _ _ _ _ ha => exact .inl ⟨k, s, ha ▸ hk, hg⟩
  | spawned _ _ _ _ _ _ ha | reloadBegan _ _ _ _ _ ha | workerEnded _ _ _ _ _ _ ha
  | syncEnded _ _ _ _ _ ha | reloadFailed _ _ _ _ ha | reloaded _ _ _ _ ha =>
    rw [ha, Function.update_apply] at hk
    split_ifs at hk
    · first | cases hk | exact .inl ⟨k, s, hk, hg⟩
    all_goals exact .inl ⟨k, s, hk, hg⟩
  | syncBegan _ _ _ _ _ ha =>
    rw [ha, Function.update_apply] at hk
    split_ifs at hk
    · cases hk
      cases hg
    · exact .inl ⟨k, s, hk, hg⟩
  | @wentOn j a a' _ hj _ ha hkind _ _ hgo =>
    rw [ha, Function.update_apply] at hk
    split_ifs at hk with hkj
    · subst hkj
      obtain rfl := Option.some.inj hk
      cases a with
      | worker | reload => cases hkind
      | sync s₀ =>
        obtain ⟨s', hs', hs'' | ⟨hnone, hcur, -⟩⟩ := hgo.sync s₀ rfl
        · cases hs'
          exact .inl ⟨k, s₀, hj, hs''.symm.trans hg⟩
        · cases hs'
          rw [hg] at hcur
          refine .inr ⟨?_, (Option.some.inj hcur).symm⟩
          rintro x ⟨i, s₁, hi, hx⟩
          obtain rfl := hs.exclusive.unique i k (by simp [hi]) (by simp [hj])
          rw [hj] at hi
          cases hi
          rw [hnone] at hx
          cases hx
    · exact .inl ⟨k, s, hk, hg⟩

/-- The reference of the markers moves when a sync ends, and when the session is replaced while no
sync has read its generation; that is no version update. -/
theorem reference_of_step (hs : Sound m) (hstep : Step setup m e m') {g : ℕ}
    (h : Reference m' g) :
    Reference m g ∨
    (∃ k time follow x result followed, e = .syncEnd k time ∧
      m.activities k = some (.sync ⟨follow, .finishing x result followed⟩) ∧ Reference m x ∧
      m.client.current = g) ∨
    Reference m m.client.current ∧ g = m'.client.current ∧
      m'.client.current = m.client.current + 1 ∧
      ∀ a b, ¬ VersionUpdate (⟨m, e, m'⟩ : Transition (ManagedClient I ρ) (Event I)) a b := by
  rcases h with hcap | ⟨hnone', rfl⟩
  · exact .inl (captures_of_step hs hstep hcap)
  · by_cases hnone : ∀ x, ¬ Captures m x
    · by_cases hcur : m'.client.current = m.client.current
      · exact .inl (.inr ⟨hnone, hcur.symm⟩)
      · refine .inr (.inr ⟨.inr ⟨hnone, rfl⟩, rfl, (installs_cases hs.owned hstep hcur).2, ?_⟩)
        intro a b hu
        obtain ⟨-, k, s, hk, hg, -⟩ := sync_of_update hs.owned hstep hu
        exact hnone a ⟨k, s, hk, hg⟩
    · simp only [not_forall, not_not] at hnone
      obtain ⟨x, hx⟩ := hnone
      rcases captures_kept hs hstep hx with hx' | ⟨k, time, follow, result, followed, he, hk⟩
      · exact absurd hx' (hnone' x)
      · refine .inr (.inl ⟨k, time, follow, x, result, followed, he, hk, .inl hx, ?_⟩)
        subst he
        cases hstep with
        | refused he => cases he
        | syncEnd => rfl

/-- The generation of a session while a sync runs that has read it, or has updated it. -/
theorem Tracked.current (h : Tracked m) {g : ℕ} (hg : Reference m g) :
    m.client.current = g ∨ m.client.current = g + 1 := by
  rcases hg with ⟨k, s, hk, hs⟩ | ⟨-, hcur⟩
  · exact (h k s g hk hs).imp_right And.left
  · exact .inl hcur

theorem reference_eq (hnone : ∀ x, ¬ Captures m x) {g : ℕ} (h : Reference m g) :
    m.client.current = g := by
  rcases h with h | ⟨-, h⟩
  · exact absurd h (hnone g)
  · exact h

/-! ### Lineages of a run -/

/-- Version updates of a run go from a generation to the next one. -/
theorem update_succ [DecidableEq ρ] (hrun : Run (step setup) m ts m') (hs : Sound m) :
    ∀ t ∈ ts, ∀ a b, VersionUpdate t a b → b = a + 1 := by
  intro t ht a b hu
  obtain ⟨x, y, rfl⟩ := List.append_of_mem ht
  obtain ⟨hx, hstep, -⟩ := hrun.around
  exact (sync_of_update (sound_of_run hx hs).owned (Step.of_step hstep) hu).1

/-- A session that was installed otherwise than by a version update begins a lineage of its own. -/
theorem not_lineage_of_install [DecidableEq ρ]
    {s : Transition (ManagedClient I ρ) (Event I)}
    (hrun : Run (step setup) m (ts ++ s :: us) m') (hs : Sound m)
    (hno : ∀ a b, ¬ VersionUpdate s a b)
    (hnext : s.after.client.current = s.before.client.current + 1) {a : ℕ}
    (ha : a ≤ s.before.client.current) : ¬ Lineage (ts ++ s :: us) a s.after.client.current := by
  intro h
  rw [hnext] at h
  obtain ⟨-, t, ht, hu⟩ := Descends.pred h (update_succ hrun hs) ha
  obtain ⟨h1, -, h2⟩ := hrun.around
  have hbefore : t.before.client.current = s.before.client.current := hu.1
  have hafter : t.after.client.current = s.before.client.current + 1 := hu.2.1
  -- the session with that generation is installed once
  rcases List.mem_append.1 ht with ht | ht
  · obtain ⟨x, y, rfl⟩ := List.append_of_mem ht
    have := current_le_of_run h1.around.2.2
    omega
  · rcases List.mem_cons.1 ht with rfl | ht
    · exact hno _ _ hu
    · obtain ⟨x, y, rfl⟩ := List.append_of_mem ht
      have := current_le_of_run h2.around.1
      omega

end MoenotesApi.ManagedClient
