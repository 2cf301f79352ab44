import MoenotesApi.Managed.Sync

/-!
# Readiness

`ready` reads the phase and the error that the client has for protected queries.  The phase is set by
tasks that have read the generation before, and the session is replaced under another lock, so the
flag means something only because every replacement resets the phase or is under way.

* `ready`: the flag, which waits for the state lock;
* `Succeeded`, `Observed`, `Recovered`: the events that make a generation ready;
* `verified_of_step`: no other event sets the phase to `Ready` or `Recovered`;
* `ReadyInv`: what holds of the session while the phase is one of the two;
* `ready_sound`: the result, over whole runs.
-/

namespace MoenotesApi

namespace Client

variable {ι : Type} [DecidableEq ι] {lib : Libraries} {opt : ClientOptions} {c c' : Client ι}
variable {e : Event ι}

omit [DecidableEq ι] in
theorem queryError_ne_none :
    c.queryError false ≠ none ↔ c.session.blocked ≠ none ∨ c.session.credentials = none := by
  unfold queryError
  cases c.session.blocked <;> by_cases hc : c.session.credentials = none <;> simp [hc]

/-- While the session stays, it does not become queryable again. -/
theorem queryError_of_step (h : step lib opt c e = some c') (hcur : c'.current = c.current)
    (hq : c.queryError false ≠ none) : c'.queryError false ≠ none := by
  rw [queryError_ne_none] at hq ⊢
  cases (Step.of_step h).sessions with
  | unchanged _ hc ha =>
    rw [session, ha, hc]
    exact hq
  | @rejected i op _ error _ _ _ hc ha =>
    rw [session_update hc ha]
    split_ifs with hg
    · rw [hg, record]
      split_ifs
      · exact .inl (Option.some_ne_none _)
      · exact hq
    · exact hq
  | @answered i op b _ _ _ _ hc ha =>
    rw [session_update hc ha]
    split_ifs with hg
    · rw [hg]
      cases b <;> exact hq
    · exact hq
  | installed _ hc => omega

end Client

/-- The phases in which the session counts as verified. -/
def Phase.verified (phase : Phase) : Bool := phase = .ready || phase = .recovered

namespace ManagedClient

open Runs

variable {I ρ : Type} {setup : Setup I ρ} {m m' : ManagedClient I ρ} {e : Event I}
variable {ts us : List (Transition (ManagedClient I ρ) (Event I))}

/-- `ManagedClient::ready`; `status` waits for the state lock. -/
def ready (m : ManagedClient I ρ) : Option Bool :=
  match m.lock with
  | some _ => none
  | none => some (m.state.phase.verified && (m.client.queryError false).isNone)

theorem ready_eq_true : m.ready = some true ↔
    m.lock = none ∧ m.state.phase.verified = true ∧ m.client.queryError false = none := by
  unfold ready
  cases m.lock <;> simp

/-! ### What makes a generation ready -/

/-- A protected query of the generation `g` has returned `Ok`. -/
def Succeeded (ts : List (Transition (ManagedClient I ρ) (Event I))) (g : ℕ) : Prop :=
  ∃ r ∈ ts, ∃ n outcome, r.event = .returned n ∧ r.before.callers n = some (.calling g false) ∧
    r.before.client.ops (.caller n) = some (.done (.ok outcome))

/-- A success of the generation `g` is observed, while that is the current one. -/
def Observed (t : Transition (ManagedClient I ρ) (Event I)) (g : ℕ) : Prop :=
  ∃ n outcome, t.event = .observe n ∧ t.before.callers n = some (.locking g (.ok outcome)) ∧
    t.before.client.current = g

/-- A recovery worker completes with `Ok`, and the generation `g` is in place. -/
def Recovered (t : Transition (ManagedClient I ρ) (Event I)) (g : ℕ) : Prop :=
  ∃ k w, t.event = .workerEnd k ∧ t.before.activities k = some (.worker w) ∧ w.initial = false ∧
    w.result = some (.ok ()) ∧ t.before.client.current = g

/-- The generation `g` has been verified: a success of it was observed, or a worker recovered it. -/
def Verified (ts : List (Transition (ManagedClient I ρ) (Event I))) (g : ℕ) : Prop :=
  (Succeeded ts g ∧ ∃ t ∈ ts, Observed t g) ∨ ∃ t ∈ ts, Recovered t g

theorem Succeeded.mono {g : ℕ} (h : Succeeded ts g) (hsub : ∀ t ∈ ts, t ∈ us) : Succeeded us g := by
  obtain ⟨r, hr, how⟩ := h
  exact ⟨r, hsub r hr, how⟩

theorem Verified.mono {g : ℕ} (h : Verified ts g) (hsub : ∀ t ∈ ts, t ∈ us) : Verified us g := by
  rcases h with ⟨hs, t, ht, ho⟩ | ⟨t, ht, hr⟩
  · exact .inl ⟨hs.mono hsub, t, hsub t ht, ho⟩
  · exact .inr ⟨t, hsub t ht, hr⟩

/-! ### The phases of the critical sections -/

namespace State

theorem not_verified_observedPhase (kind : ErrorKind) :
    (observedPhase kind).verified = false := by
  cases kind <;> rfl

theorem not_verified_failedPhase (initial : Bool) (kind : ErrorKind) :
    (failedPhase initial kind).verified = false := by
  cases kind <;> cases initial <;> rfl

/-- Only a success makes `observed` set the phase to a verified one. -/
theorem phase_observed [DecidableEq ρ] (s : State ρ) (input : I) (now generation : ℕ)
    (result : Except ClientError Outcome)
    (h : (s.observed setup input now generation result).1.phase.verified = true) :
    (s.observed setup input now generation result).1.phase = s.phase ∨
      ∃ outcome, result = .ok outcome := by
  cases result with
  | ok outcome => exact .inr ⟨outcome, rfl⟩
  | error e =>
    left
    simp only [observed] at h ⊢
    split_ifs at h ⊢ <;> first
      | rfl
      | rw [not_verified_observedPhase] at h; cases h
      | cases h

/-- Only the success of a recovery makes the end of a worker set the phase to a verified one. -/
theorem phase_ended (s : State ρ) (current : ℕ) (w : Worker) (result : Except ClientError Unit)
    (h : (s.ended current w result).phase.verified = true) :
    w.initial = false ∧ result = .ok () := by
  cases result with
  | ok =>
    refine ⟨?_, rfl⟩
    cases hi : w.initial with
    | false => rfl
    | true => simp [ended, hi, Phase.verified] at h
  | error e =>
    simp only [ended] at h
    split_ifs at h
    · cases h
    · rw [not_verified_failedPhase] at h
      cases h

/-- A sync that has changed the versions of a queryable session leaves the phase `Unverified`. -/
theorem phase_synced (s : State ρ) (generation current time : ℕ)
    (followed : Option (String × String)) (config : SessionConfig) :
    (s.synced generation followed (.ok (.versions true)) current true config time).phase =
      .unverified := by
  simp [synced, changed]

end State

/-- The observation of a result leaves the phase alone, or makes it an unverified one, or has seen a
success. -/
theorem phase_of_observe [DecidableEq ρ] {n : ℕ} (h : m.step setup (.observe n) = some m')
    (hv : m'.state.phase.verified = true) :
    m'.state.phase = m.state.phase ∨
      ∃ outcome, m.callers n = some (.locking m.client.current (.ok outcome)) := by
  simp only [step, stepCaller] at h
  split at h
  · next g result hn hl =>
    obtain rfl := Option.some.inj h
    simp only [setCaller_state] at hv ⊢
    by_cases hg : m.client.current ≠ g
    · exact .inl (by simp [observe, hg])
    · obtain rfl := not_not.1 hg
      have hstate : (m.observe setup m.client.current result).state =
          (m.state.observed setup m.input m.client.now m.client.current result).1 := by
        unfold observe
        rw [if_neg (by simp)]
        split <;> next heq => simp [heq]
      rw [hstate] at hv ⊢
      refine (State.phase_observed _ _ _ _ _ hv).imp_right ?_
      rintro ⟨outcome, rfl⟩
      exact ⟨outcome, hn⟩
  · cases h

/-- An event that leaves a verified phase: it was that before, or a success is observed, or a
recovery has succeeded. -/
theorem verified_of_step [DecidableEq ρ] (h : m.step setup e = some m') (hv : m'.state.phase.verified = true) :
    m'.state.phase = m.state.phase ∨
      Observed ⟨m, e, m'⟩ m.client.current ∧ m'.client = m.client ∨
      Recovered ⟨m, e, m'⟩ m.client.current ∧ m'.client = m.client := by
  cases Step.of_step h with
  | observe hn | observeSpawn hn =>
    rcases phase_of_observe h hv with hp | ⟨outcome, hn'⟩
    · exact .inl hp
    · exact .inr (.inl ⟨⟨_, outcome, rfl, hn', rfl⟩, rfl⟩)
  | @workerEnd k result w hk hr hl =>
    obtain ⟨hi, rfl⟩ := State.phase_ended _ _ _ _ hv
    exact .inr (.inr ⟨⟨k, w, rfl, hk, hi, hr, rfl⟩, rfl⟩)
  | @syncEnd k time follow g result followed hk hl =>
    rcases State.synced_phase m.state g m.client.current time followed result
      (m.client.queryError false).isNone m.client.sessionConfig with hp | hp
    · exact .inl hp
    · rw [hp] at hv
      cases hv
  | reloadEnd => cases hv
  | _ => exact .inl rfl

/-! ### The invariant -/

/-- What a verified phase says about the session: it was verified, or it has an error, or it was
replaced by a sync or a reload that has not ended yet. -/
structure ReadyInv (ts : List (Transition (ManagedClient I ρ) (Event I)))
    (m : ManagedClient I ρ) : Prop where
  observing : ∀ n g outcome, m.callers n = some (.observing g false (.ok outcome)) →
    Succeeded ts g
  locking : ∀ n g outcome, m.callers n = some (.locking g (.ok outcome)) → Succeeded ts g
  session : m.state.phase.verified = true → Verified ts m.client.current ∨
    m.client.queryError false ≠ none ∨ (∃ g, Captures m g ∧ m.client.current ≠ g) ∨
    ∃ k, m.activities k = some (.reload .replaced)

theorem readyInv_initial (client : Client Task) (input : I) :
    ReadyInv [] (initial client input : ManagedClient I ρ) := by
  refine ⟨fun n g outcome hn => ?_, fun n g outcome hn => ?_, fun hv => ?_⟩
  · cases hn
  · cases hn
  · cases hv

/-- A success that waits to be observed has been returned by a protected query. -/
theorem ReadyInv.callers_step (h : ReadyInv ts m) (hstep : Step setup m e m') :
    (∀ n g outcome, m'.callers n = some (.observing g false (.ok outcome)) →
      Succeeded (ts ++ [⟨m, e, m'⟩]) g) ∧
    ∀ n g outcome, m'.callers n = some (.locking g (.ok outcome)) →
      Succeeded (ts ++ [⟨m, e, m'⟩]) g := by
  have hsub : ∀ t ∈ ts, t ∈ ts ++ [⟨m, e, m'⟩] := fun t ht => List.mem_append_left _ ht
  -- the caller `j` goes on, with a success or without
  have went : ∀ {j : ℕ} {x : Option Caller}, m'.callers = Function.update m.callers j x →
      (∀ g outcome, x = some (.observing g false (.ok outcome)) →
        Succeeded (ts ++ [⟨m, e, m'⟩]) g) →
      (∀ g outcome, x = some (.locking g (.ok outcome)) → Succeeded (ts ++ [⟨m, e, m'⟩]) g) →
      (∀ n g outcome, m'.callers n = some (.observing g false (.ok outcome)) →
        Succeeded (ts ++ [⟨m, e, m'⟩]) g) ∧
      ∀ n g outcome, m'.callers n = some (.locking g (.ok outcome)) →
        Succeeded (ts ++ [⟨m, e, m'⟩]) g := by
    intro j x hc hobserving hlocking
    refine ⟨fun n g outcome hn => ?_, fun n g outcome hn => ?_⟩ <;>
      rw [hc, Function.update_apply] at hn <;> split_ifs at hn
    · exact hobserving g outcome hn
    · exact (h.observing n g outcome hn).mono hsub
    · exact hlocking g outcome hn
    · exact (h.locking n g outcome hn).mono hsub
  cases hstep with
  | @returned n g anonymous result client hn hr hc =>
    refine went rfl (fun g' outcome hx => ?_) (fun g' outcome hx => by cases hx)
    cases hx
    exact ⟨_, List.mem_append_right _ (List.mem_singleton_self _), n, outcome, rfl, hn, hr⟩
  | @check n g result hn hg hs =>
    refine went rfl (fun g' outcome hx => by cases hx) (fun g' outcome hx => ?_)
    cases hx
    exact (h.observing n g outcome hn).mono hsub
  | readGeneration | execute | call | dropCaller | queryError | readNoError | readError
  | checkFailed | observeStale | observe | observeSpawn =>
    exact went rfl (fun g' outcome hx => by cases hx) (fun g' outcome hx => by cases hx)
  | _ =>
    exact ⟨fun n g outcome hn => (h.observing n g outcome hn).mono hsub,
      fun n g outcome hn => (h.locking n g outcome hn).mono hsub⟩

/-- A reload that has replaced the session ends with the phase `Unverified`. -/
theorem replaced_kept (hs : Sound m) (hstep : Step setup m e m') {k : ℕ}
    (hk : m.activities k = some (.reload .replaced)) :
    m'.activities k = some (.reload .replaced) ∨ m'.state.phase = .unverified := by
  have only : ∀ {j : ℕ} {a : Activity}, m.activities j = some a → a = .reload .replaced := by
    intro j a hj
    obtain rfl := hs.exclusive.unique j k (by simp [hj]) (by simp [hk])
    exact Option.some.inj (hj.symm.trans hk)
  have fresh : k ≠ m.nextActivity := (hs.exclusive.lt_nextActivity hk).ne
  cases hstep with
  | observeSpawn | syncBegin | reloadBegin => exact .inl (by simpa [fresh] using hk)
  | reloadEnd => exact .inr rfl
  | workerConfig hj | workerReplace hj | workerReturn hj | workerInterrupted hj | workerEnd hj
  | syncGeneration hj | syncRefresh hj | syncTake hj | syncCandidates hj | syncGiveUp hj
  | syncAdopt hj | syncEnd hj | reloadFail hj | reloadConfig hj | reloadReplaceFailed hj
  | reloadReplace hj | reloadEndFailed hj => cases only hj
  | _ => exact .inl hk

/-- While the phase is verified, only a sync or a reload replaces the session. -/
theorem replaced_of_verified (hs : Sound m) (hstep : Step setup m e m')
    (hv : m.state.phase.verified = true) (hnew : m'.client.current ≠ m.client.current) :
    (∃ g, Captures m' g ∧ m'.client.current ≠ g) ∨ ∃ k, m'.activities k = some (.reload .replaced) := by
  -- a worker runs only in the phase `Recovering`
  have hworker : ∀ {k : ℕ} {w : Worker}, m.activities k ≠ some (.worker w) := by
    intro k w hk
    rw [hs.exclusive.recovering.2 ⟨k, _, hk, rfl⟩] at hv
    cases hv
  obtain ⟨hinstall, hnext⟩ := installs_cases hs.owned hstep hnew
  cases hinstall with
  | login _ hk | imported _ hk | replaced _ hk => exact absurd hk hworker
  | @version k s _ _ _ he _ _ hk _ hg =>
    refine .inl ⟨m.client.current, ?_, hnew⟩
    rcases captures_kept hs hstep ⟨k, s, hk, hg⟩ with hcap | ⟨_, _, _, _, _, he', -⟩
    · exact hcap
    · rw [he] at he'
      cases he'
  | @reloaded k provider config he hk =>
    subst he
    refine .inr ⟨k, ?_⟩
    cases hstep with
    | refused he => cases he
    | reloadReplaceFailed => exact absurd rfl hnew
    | reloadReplace => simp

/-- A sync that has replaced the session ends in the phase `Unverified`, unless the session has an
error. -/
theorem ended_of_captured (ht : Tracked m) {k time g : ℕ} {follow : Bool}
    {result : Except ClientError Outcome} {followed : Option (String × String)}
    (hstep : Step setup m (.syncEnd k time) m')
    (hk : m.activities k = some (.sync ⟨follow, .finishing g result followed⟩))
    (hg : m.client.current ≠ g) :
    m'.state.phase = .unverified ∨ m'.client.queryError false ≠ none := by
  have hresult : result = .ok (.versions true) := by
    rcases ht k _ g hk rfl with hcur | ⟨-, ⟨hw, -⟩ | ⟨_, _, hf⟩⟩
    · exact absurd hcur hg
    · cases hw
    · cases hf
      rfl
  subst hresult
  cases hstep with
  | refused he => cases he
  | syncEnd hk' hl =>
    rw [hk] at hk'
    cases hk'
    cases hq : m.client.queryError false with
    | none =>
      left
      exact State.phase_synced _ _ _ _ _ _
    | some error => exact .inr (by simp [hq])

/-- While the phase is verified, the session is, or it has an error, or its replacement is under
way. -/
theorem ReadyInv.session_step [DecidableEq ρ] (h : ReadyInv ts m) (hs : Sound m) (ht : Tracked m)
    (hstep : m.step setup e = some m') (hv : m'.state.phase.verified = true) :
    Verified (ts ++ [⟨m, e, m'⟩]) m'.client.current ∨ m'.client.queryError false ≠ none ∨
      (∃ g, Captures m' g ∧ m'.client.current ≠ g) ∨
      ∃ k, m'.activities k = some (.reload .replaced) := by
  have hmem : (⟨m, e, m'⟩ : Transition (ManagedClient I ρ) (Event I)) ∈ ts ++ [⟨m, e, m'⟩] :=
    List.mem_append_right _ (List.mem_singleton_self _)
  have hsub : ∀ t ∈ ts, t ∈ ts ++ [⟨m, e, m'⟩] := fun t ht => List.mem_append_left _ ht
  have hbranch := Step.of_step hstep
  rcases verified_of_step hstep hv with hp | ⟨hobserved, hc⟩ | ⟨hrecovered, hc⟩
  · have hv₀ : m.state.phase.verified = true := hp ▸ hv
    by_cases hnew : m'.client.current = m.client.current
    · rw [hnew]
      rcases h.session hv₀ with hverified | herror | ⟨g, hcap, hg⟩ | ⟨k, hk⟩
      · exact .inl (hverified.mono hsub)
      · refine .inr (.inl ?_)
        cases hbranch.clientEffect with
        | same hc => rwa [hc]
        | step _ hc => exact Client.queryError_of_step hc hnew herror
      · rcases captures_kept hs hbranch hcap with hcap' | ⟨k, time, follow, result, followed, rfl, hk⟩
        · exact .inr (.inr (.inl ⟨g, hcap', hg⟩))
        · rcases ended_of_captured ht hbranch hk hg with hp' | herror
          · rw [hp'] at hv
            cases hv
          · exact .inr (.inl herror)
      · rcases replaced_kept hs hbranch hk with hk' | hp'
        · exact .inr (.inr (.inr ⟨k, hk'⟩))
        · rw [hp'] at hv
          cases hv
    · exact .inr (.inr (replaced_of_verified hs hbranch hv₀ hnew))
  · obtain ⟨n, outcome, he, hn, hcur⟩ := hobserved
    rw [hc]
    exact .inl (.inl ⟨(h.locking n _ outcome hn).mono hsub, _, hmem, n, outcome, he, hn, hcur⟩)
  · rw [hc]
    exact .inl (.inr ⟨_, hmem, hrecovered⟩)

theorem readyInv_of_run [DecidableEq ρ] (hrun : Run (step setup) m ts m') (hs : Sound m)
    (ht : Tracked m) (h : ReadyInv [] m) : ReadyInv ts m' := by
  induction hrun with
  | nil => exact h
  | @snoc ts d e d' hrun hstep ih =>
    obtain ⟨hobserving, hlocking⟩ := ih.callers_step (Step.of_step hstep)
    exact ⟨hobserving, hlocking,
      ih.session_step (sound_of_run hrun hs) (tracked_of_run hrun hs ht) hstep⟩

/-- **Readiness is sound.**  In every state that a run of a managed client reaches: if it is ready
and no version sync is in progress, then a success of a protected query of the current generation
was observed, or a recovery worker completed with `Ok` under it, and the client has no error for
protected queries.  Only these two events make the phase a verified one, for the generation that is
in place then. -/
theorem ready_sound [DecidableEq ρ] {config : SessionConfig}
    {provider : Option StaticCredentials} {transport : Transport} {now : ℕ} {client : Client Task}
    {input : I}
    (hclient : Client.withTransport setup.lib setup.options config provider transport now =
      .ok client)
    (hrun : Run (step setup) (initial client input) ts m) :
    (m.ready = some true → m.state.versionUpdating = false →
      Verified ts m.client.current ∧ m.client.queryError false = none) ∧
    (∀ (before after : List (Transition (ManagedClient I ρ) (Event I)))
      (t : Transition (ManagedClient I ρ) (Event I)), ts = before ++ t :: after →
      t.after.state.phase.verified = true → t.before.state.phase.verified = false →
        Succeeded before t.after.client.current ∧ Observed t t.after.client.current ∨
          Recovered t t.after.client.current) := by
  have hops : ∀ task, client.ops task = none := by
    obtain ⟨session, -, rfl⟩ := Client.withTransport_ok hclient
    exact fun _ => rfl
  have hs : Sound (initial client input : ManagedClient I ρ) := sound_initial hops input
  have ht : Tracked (initial client input : ManagedClient I ρ) := tracked_initial client input
  refine ⟨fun hready hidle => ?_, ?_⟩
  · obtain ⟨hl, hv, hq⟩ := ready_eq_true.1 hready
    have hex := (sound_of_run hrun hs).exclusive
    refine ⟨?_, hq⟩
    rcases (readyInv_of_run hrun hs ht (readyInv_initial client input)).session hv with
      hverified | herror | ⟨g, ⟨k, s, hk, -⟩, -⟩ | ⟨k, hk⟩
    · exact hverified
    · exact absurd hq herror
    · rw [hex.updating.2 ⟨k, _, hk, rfl⟩] at hidle
      cases hidle
    · rw [(hex.locked k).2 ⟨_, hk⟩] at hl
      cases hl
  · rintro before after t rfl hv hv₀
    obtain ⟨hbefore, hstep, -⟩ := hrun.around
    rcases verified_of_step hstep hv with hp | ⟨hobserved, hc⟩ | ⟨hrecovered, hc⟩
    · rw [hp, hv₀] at hv
      cases hv
    · rw [hc]
      obtain ⟨n, outcome, he, hn, hcur⟩ := hobserved
      exact .inl ⟨(readyInv_of_run hbefore hs ht (readyInv_initial client input)).locking n _
        outcome hn, n, outcome, he, hn, hcur⟩
    · rw [hc]
      exact .inr hrecovered

section Sample

/-- The sample client loads an account, and then a protected query of the new session succeeds. -/
def readyEvents : List (Event ℕ) :=
  queryEvents 1 0 ++ observeEvents 1 ++
  [.workerConfig 0, .workerReplace 0 sampleProvider, .workerReturn 0 (.ok ()), .workerEnd 0] ++
  queryEvents 2 1 ++ startEvents (.caller 2) ++
  [.client (.answer (.caller 2) (.ok ⟨.plain QueryVariant.profile.method.output [], none⟩)),
    .client (.check (.caller 2)), .client (.finish (.caller 2) ⟨true, true⟩)] ++ observeEvents 2

def readyClient : ManagedClient ℕ ℕ :=
  (exec sampleStep sampleManaged readyEvents).get (by decide +kernel)

theorem ready_sound_load :
    readyClient.ready = some true ∧ Verified (transitions sampleStep sampleManaged readyEvents) 1 := by
  have hclient : Client.withTransport sampleLibraries Client.sampleOptions sampleConfig none
      sampleTransport 0 =
      .ok sampleManaged.client := rfl
  have hrun : Run sampleStep sampleManaged _ readyClient := run_get readyEvents (by decide +kernel)
  have hready : readyClient.ready = some true := by decide +kernel
  have hidle : readyClient.state.versionUpdating = false := by decide +kernel
  have hcurrent : readyClient.client.current = 1 := by decide +kernel
  have hverified := ((ready_sound hclient hrun).1 hready hidle).1
  rw [hcurrent] at hverified
  exact ⟨hready, hverified⟩

end Sample

end ManagedClient

end MoenotesApi
