import MoenotesApi.Managed.Search

/-!
# Client releases are followed

The client version of the session changes only in a version sync that follows releases, step by step
from the version that the game has refused, and nothing takes it back.

* `releases_split`: what a sync has presented when it presents a successor;
* `Upgrades`: a sync installs the release that the game has accepted;
* `Refreshes`, `session_of_sync`: a sync changes nothing of the session but its versions, and those it
  takes from the last answer;
* `releases_followed`: all this, in every run.
-/

namespace MoenotesApi.ManagedClient

open Runs

variable {I ρ : Type} {setup : Setup I ρ} {m m' : ManagedClient I ρ} {e : Event I} {k : ℕ}
variable {ts : List (Transition (ManagedClient I ρ) (Event I))}

/-! ### Releases in order -/

theorem releases_of_some {base : String} {major minor patch : ℕ}
    (h : patchVersion base = some (major, minor, patch)) :
    releases base = base :: (List.range 3).map fun k => release major minor (patch + (k + 1)) := by
  unfold releases clientCandidates
  rw [patchSuccessors_eq h le_rfl]

/-- A version that comes after others is one of the next three patch releases, and those before it are
the version itself and the releases in between. -/
theorem releases_split {base candidate : String} {before after : List String} (hne : before ≠ [])
    (h : before ++ candidate :: after = releases base) :
    ∃ major minor patch j, patchVersion base = some (major, minor, patch) ∧ 1 ≤ j ∧ j ≤ 3 ∧
      candidate = release major minor (patch + j) ∧
      before = base :: (List.range (j - 1)).map fun i => release major minor (patch + (i + 1)) := by
  obtain ⟨first, rest, rfl⟩ := List.exists_cons_of_ne_nil hne
  cases hv : patchVersion base with
  | none =>
    rw [releases, patchSuccessors_of_none hv, List.cons_append] at h
    simp at h
  | some v =>
    obtain ⟨major, minor, patch⟩ := v
    rw [releases_of_some hv, List.cons_append, List.cons.injEq] at h
    obtain ⟨rfl, h⟩ := h
    have hlen : rest.length < 3 := by
      have := congrArg List.length h
      simp at this
      omega
    refine ⟨major, minor, patch, rest.length + 1, rfl, by omega, by omega, ?_, ?_⟩
    · have := congrArg (fun l => l[rest.length]?) h
      simpa [hlen] using this
    · have := congrArg (List.take rest.length) h
      rw [List.take_left, ← List.map_take, List.take_range, min_eq_left hlen.le] at this
      rw [Nat.add_sub_cancel, ← this]

/-! ### The version that a sync installs -/

/-- After the history `before`, the sync `k` installs the release that it has presented last: the game
has refused the version of the session and all releases in between, and accepted this one. -/
def Upgrades (before : List (Transition (ManagedClient I ρ) (Event I))) (k : ℕ)
    (t : Transition (ManagedClient I ρ) (Event I)) : Prop :=
  ∃ files stage major minor patch j response refusals,
    t.event = .client (.finish (.writer k) files) ∧
    t.before.activities k = some (.sync ⟨true, stage⟩) ∧
    patchVersion t.before.client.sessionConfig.clientVersion = some (major, minor, patch) ∧
    1 ≤ j ∧ j ≤ 3 ∧
    t.after.client.sessionConfig.clientVersion = release major minor (patch + j) ∧
    patchVersion t.after.client.sessionConfig.clientVersion = some (major, minor, patch + j) ∧
    answers before k =
      refusals ++ [(t.after.client.sessionConfig.clientVersion, .ok response)] ∧
    (∀ a ∈ refusals, Outdated a) ∧
    refusals.map Prod.fst = t.before.client.sessionConfig.clientVersion ::
      (List.range (j - 1)).map fun i => release major minor (patch + (i + 1))

/-- After the history `before`, the sync `k` installs the versions of the last answer it has got, for the
client version that it has presented last. -/
def Refreshes (setup : Setup I ρ) (before : List (Transition (ManagedClient I ρ) (Event I))) (k : ℕ)
    (t : Transition (ManagedClient I ρ) (Event I)) : Prop :=
  ∃ files op presented response master answered earlier,
    t.event = .client (.finish (.writer k) files) ∧
    t.before.client.ops (.writer k) = some (.running op) ∧ op.call = .version presented ∧
    answers before k = earlier ++ [(presented.clientVersion, .ok response)] ∧
    response.message = .version master answered ∧
    t.after.client.session = Client.discovered t.before.client.session presented master
      (Client.answeredResource setup.lib t.before.client op presented response answered)

/-- The two cases in which a sync installs a session. -/
theorem Searched.of_update {asked : List String} {heard : List Client.Answer}
    (h : Searched m k asked heard) (hs : Sound m) (ht : Tracked m) {op : Op}
    {presented : SessionConfig} {response : TransportResponse}
    (hop : m.client.ops (.writer k) = some (.running op)) (hcall : op.call = .version presented)
    (hstage : op.stage = .checked response) :
    m.client.current = op.generation ∧
    (∃ earlier, heard = earlier ++ [(presented.clientVersion, .ok response)]) ∧
    (presented.clientVersion = m.client.sessionConfig.clientVersion ∨
    ∃ stage candidates refusals, m.activities k = some (.sync ⟨true, stage⟩) ∧
      refusals ≠ [] ∧ (∀ a ∈ refusals, Outdated a) ∧
      heard = refusals ++ [(presented.clientVersion, .ok response)] ∧
      refusals.map Prod.fst ++ presented.clientVersion :: candidates =
        releases m.client.sessionConfig.clientVersion) := by
  -- the answer is the last one of the inquiry
  have last : ∀ {before w}, Client.Inquiry m.client (.writer k) before w asked heard →
      presented.clientVersion = w ∧ heard = before ++ [(w, .ok response)] := by
    intro before w hi
    obtain ⟨⟨_, hcall', hw⟩, ⟨hu, -⟩ | ⟨-, ⟨⟨b, hb⟩, -⟩ | ⟨r, hr, hh⟩⟩⟩ := hi.of_running hop
    · rw [hstage] at hu
      cases hu
    · rw [hstage] at hb
      cases hb
    · rw [hcall] at hcall'
      cases hcall'
      rw [hstage] at hr
      cases hr
      exact ⟨hw, hh⟩
  cases hs.owned.writer k op hop with
  | worker _ _ _ hlogin =>
    rw [hcall] at hlogin
    simp at hlogin
  | @sync s _ hk hw hg =>
    obtain ⟨follow, stage⟩ := s
    have hcur := current_of_running ht hk hg hw hop
    have hbase : versionAt m op.generation = m.client.sessionConfig.clientVersion := by
      rw [← hcur]
      rfl
    refine ⟨hcur, ?_⟩
    cases h with
    | idle hno => exact absurd hk (hno _)
    | begun hk' hstage' =>
      rw [hk] at hk'
      cases hk'
      rcases hstage' with h | ⟨_, h⟩ <;> dsimp only at h <;> rw [h] at hw <;> cases hw
    | refused hk' | trying hk' | finishing hk' =>
      rw [hk] at hk'
      cases hk'
      cases hw
    | refreshing hk' hi =>
      rw [hk] at hk'
      cases hk'
      obtain rfl := Option.some.inj hg
      obtain ⟨hv, rfl⟩ := last hi
      exact ⟨⟨_, by rw [hv]⟩, .inl (hv.trans hbase)⟩
    | adopting hk' hall hne hnext hi =>
      rw [hk] at hk'
      cases hk'
      obtain rfl := Option.some.inj hg
      obtain ⟨hv, rfl⟩ := last hi
      rw [← hv] at hnext
      exact ⟨⟨_, by rw [hv]⟩,
        .inr ⟨_, _, _, hk, hne, hall, by rw [hv], hnext.trans (by rw [hbase])⟩⟩

/-! ### Runs -/

/-- What the earlier modules know of a managed client, as far as releases are concerned. -/
structure Upgradable (m : ManagedClient I ρ) : Prop where
  sound : Sound m
  tracked : Tracked m
  issued : Issued m
  reads : ReadsCurrent m
  discoveries : Client.Discoveries m.client

theorem upgradable_initial {client : Client Task} (hops : ∀ task, client.ops task = none)
    (input : I) : Upgradable (initial client input : ManagedClient I ρ) where
  sound := sound_initial hops input
  tracked := tracked_initial client input
  issued := issued_initial hops input
  reads := by
    rintro k config ⟨a, hk, -⟩
    cases hk
  discoveries := by
    intro task op presented hop
    rw [initial, hops] at hop
    cases hop

theorem Upgradable.step [DecidableEq ρ] (h : Upgradable m) (hstep : m.step setup e = some m') :
    Upgradable m' where
  sound := h.sound.step hstep
  tracked := h.tracked.of_branch h.sound (Step.of_step hstep)
  issued := h.issued.step hstep
  reads := h.reads.step h.sound hstep
  discoveries := by
    cases (Step.of_step hstep).clientEffect with
    | same hc =>
      rw [hc]
      exact h.discoveries
    | step _ hc => exact h.discoveries.step h.issued.op hc

theorem upgradable_of_run [DecidableEq ρ] (hrun : Run (step setup) m ts m') (h : Upgradable m) :
    Upgradable m' :=
  hrun.invariant (fun _ _ _ h hstep => h.step hstep) h

/-- A replacement of the session takes the configuration over. -/
theorem config_of_replace {client : Client Task} {config : SessionConfig}
    {provider : Option StaticCredentials}
    (hc : Client.step setup.lib setup.options m.client (.replaceSession config provider) =
      some client) (hconfig : config = m.client.sessionConfig) :
    client.sessionConfig = m.client.sessionConfig := by
  by_cases hcur : client.current = m.client.current
  · unfold Client.sessionConfig Client.session
    rw [hcur]
    exact (Client.identity_of_step hc le_rfl).1
  · cases (Client.install_cases hc hcur).1 with
    | finish he | imported he => cases he
    | replaced he hsession =>
      cases he
      rw [← hconfig, Client.sessionConfig, hsession]
      rfl

/-- The client version changes only by a sync that adopts a release. -/
theorem upgrades_of_step (h : Upgradable m) (hstep : Step setup m e m')
    (hsearch : ∀ k, Searched m k (calls ts k) (answers ts k))
    (hne : m'.client.sessionConfig.clientVersion ≠ m.client.sessionConfig.clientVersion) :
    ∃ k, Upgrades ts k ⟨m, e, m'⟩ := by
  cases hstep.clientEffect with
  | same hc => exact absurd (by rw [hc]) hne
  | step hb hc =>
    rcases config_of_clientStep hc with hsame | ⟨config, provider, rfl⟩ |
      ⟨task, files, op, presented, rfl, hop, hcall⟩
    · exact absurd (by rw [hsame]) hne
    · -- the activity has read the configuration of the session
      refine absurd ?_ hne
      cases hb with
      | progress hp => cases hp
      | workerReplace hk hconfig =>
        rw [config_of_replace hc (h.reads _ _ ⟨_, hk, hconfig⟩)]
      | reloadReplace hk => rw [config_of_replace hc (h.reads _ _ ⟨_, hk, rfl⟩)]
    · cases hb with
      | progress hp =>
        cases task with
        | caller n =>
          have := h.sound.owned.caller n op hop
          rw [hcall] at this
          cases this
        | writer k =>
          rcases h.discoveries.arena_of_step hc rfl (fun op' hop' => ⟨presented, by
              rw [hop] at hop'
              cases hop'
              exact hcall⟩) with
            ⟨hcur, harena⟩ |
              ⟨_, _, _, response, master, answered, hfin, hop', hcall', hstage, -, hnew⟩
          · refine absurd ?_ hne
            rw [Client.sessionConfig, Client.session, hcur, harena]
            rfl
          · cases hfin
            rw [hop] at hop'
            cases hop'
            rw [hcall] at hcall'
            cases hcall'
            have hversion : m'.client.sessionConfig.clientVersion = presented.clientVersion := by
              rw [Client.sessionConfig, hnew]
              rfl
            obtain ⟨hcur, -, hsame |
                ⟨stage, candidates, refusals, hk, hnil, hall, hheard, hnext⟩⟩ :=
              (hsearch k).of_update h.sound h.tracked hop hcall hstage
            · exact absurd (hversion.trans hsame) hne
            · obtain ⟨major, minor, patch, j, hold, h1, h3, hrel, hbefore⟩ :=
                releases_split (by simpa using hnil) hnext
              have hread := (h.discoveries _ op presented hop hcall).version
                (by rw [← hcur, ← hversion]; exact hne)
              refine ⟨k, files, stage, major, minor, patch, j, response, refusals, rfl, hk, hold, h1,
                h3, hversion.trans hrel, ?_, ?_, hall, hbefore⟩
              · dsimp only
                rw [hversion, hrel]
                exact patchVersion_release (hrel ▸ hread)
              · dsimp only
                rw [hversion]
                exact hheard

/-- A release that is installed comes after the one before. -/
theorem Upgrades.advances {t : Transition (ManagedClient I ρ) (Event I)} (h : Upgrades ts k t) :
    Advances t.before.client.sessionConfig.clientVersion
      t.after.client.sessionConfig.clientVersion := by
  obtain ⟨_, _, major, minor, patch, j, _, _, -, -, hold, -, -, -, hnew, -⟩ := h
  exact .inr ⟨major, minor, patch, patch + j, hold, hnew, Nat.le_add_right _ _⟩

/-- What an event of a sync does to the session: nothing, or the installation of other versions. -/
theorem session_of_sync (h : Upgradable m) (hsearch : Searched m k (calls ts k) (answers ts k))
    (hstep : Step setup m e m') {s : Sync} (hk : m.activities k = some (.sync s))
    (he : e.activity = some k) :
    m'.client.session = m.client.session ∨ Refreshes setup ts k ⟨m, e, m'⟩ := by
  have only : ∀ {a : Activity}, m.activities k = some a → a = .sync s := by
    intro a ha
    rw [hk] at ha
    exact (Option.some.inj ha).symm
  -- submitting and taking leave the sessions alone
  have quiet : ∀ {ce : Client.Event Task},
      Client.step setup.lib setup.options m.client ce = some m'.client →
      ((∃ request id, ce = .submit (.writer k) request id) ∨ ce = .take (.writer k)) →
      m'.client.session = m.client.session := by
    intro ce hc hce
    cases (Client.Step.of_step hc).sessions with
    | unchanged _ hcur ha => rw [Client.session, hcur, ha]; rfl
    | rejected hans | answered hans => rcases hce with ⟨_, _, rfl⟩ | rfl <;> cases hans
    | installed how =>
      cases how with
      | finish | imported | replaced => rcases hce with ⟨_, _, hce⟩ | hce <;> cases hce
  cases hstep.clientEffect with
  | same hc => exact .inl (by rw [hc])
  | @step ce hb hc =>
    cases hb with
    | progress hp =>
      have hop : ce.op = some (.writer k) := by
        simp only [Event.activity] at he
        split at he
        · next j hj =>
          cases he
          exact hj
        · cases he
      have hversion : ∀ op, m.client.ops (.writer k) = some (.running op) →
          ∃ presented, op.call = .version presented := by
        intro op hrun
        cases h.sound.owned.writer k op hrun with
        | worker hk' => cases only hk'
        | sync _ _ _ hcall => exact ⟨_, hcall⟩
      rcases h.discoveries.arena_of_step hc hop hversion with
        ⟨hcur, harena⟩ |
          ⟨files, op, presented, response, master, answered, rfl, hrun, hcall, hstage, hm, hnew⟩
      · left
        rw [Client.session, hcur, harena]
        rfl
      · obtain ⟨-, ⟨earlier, hheard⟩, -⟩ := hsearch.of_update h.sound h.tracked hrun hcall hstage
        exact .inr ⟨files, op, presented, response, master, answered, earlier, rfl, hrun, hcall, hheard,
          hm, hnew⟩
    | callerCall | callerTake | callerDrop => cases he
    | workerCall hk' | workerTake hk' | workerDrop hk' | workerReplace hk' | workerImport hk'
    | reloadReplace hk' =>
      cases he
      cases only hk'
    | syncRefresh | syncAdopt =>
      cases he
      exact .inl (quiet hc (.inl ⟨_, _, rfl⟩))
    | syncTake =>
      cases he
      exact .inl (quiet hc (.inr rfl))

/-- Releases that advance in every transition advance in the run. -/
theorem advances_of_run [DecidableEq ρ] (hrun : Run (step setup) m ts m')
    (h : ∀ t ∈ ts, Advances t.before.client.sessionConfig.clientVersion
      t.after.client.sessionConfig.clientVersion) :
    Advances m.client.sessionConfig.clientVersion m'.client.sessionConfig.clientVersion := by
  induction hrun with
  | nil => exact .refl _
  | snoc _ _ ih =>
    exact (ih fun t ht => h t (List.mem_append_left _ ht)).trans
      (h _ (List.mem_append_right _ (List.mem_singleton_self _)))

/-- **Client releases are followed.**  In every run of a managed client: the client version changes
only in a version sync that follows releases, to the first release after it that the game accepts, of
the next three; a sync presents a version only if the game has refused all before for a newer client,
and four at most; it changes nothing of the session but the versions, which are those of the last
answer it has got; and the client version never goes back. -/
theorem releases_followed [DecidableEq ρ] {config : SessionConfig}
    {provider : Option StaticCredentials} {transport : Transport} {now : ℕ} {client : Client Task}
    {input : I} (hclient : Client.withTransport setup.lib setup.options config provider transport now =
      .ok client)
    (hrun : Run (step setup) (initial client input) ts m) :
    (∀ before t after, ts = before ++ t :: after →
      t.after.client.sessionConfig.clientVersion ≠ t.before.client.sessionConfig.clientVersion →
        ∃ k, Upgrades before k t) ∧
    (∀ before t after k v, ts = before ++ t :: after → v ∈ presents k t →
      ∃ follow stage, t.before.activities k = some (.sync ⟨follow, stage⟩) ∧
        (answers before k ≠ [] → follow = true) ∧ (∀ a ∈ answers before k, Outdated a) ∧
        calls before k = (answers before k).map Prod.fst ∧
        calls before k ++ [v] <+: releases t.before.client.sessionConfig.clientVersion) ∧
    (∀ k, (calls ts k).length ≤ 4) ∧
    (∀ before t after k s, ts = before ++ t :: after → t.before.activities k = some (.sync s) →
      t.event.activity = some k →
        t.after.client.session = t.before.client.session ∨ Refreshes setup before k t) ∧
    ∀ before t after, ts = before ++ t :: after →
      Advances t.before.client.sessionConfig.clientVersion m.client.sessionConfig.clientVersion := by
  have hstart : Upgradable (initial client input : ManagedClient I ρ) := by
    obtain ⟨session, -, rfl⟩ := Client.withTransport_ok hclient
    exact upgradable_initial (fun _ => rfl) input
  -- the state before a transition, and the search so far
  have at_transition : ∀ {before after : List (Transition (ManagedClient I ρ) (Event I))}
      {t : Transition (ManagedClient I ρ) (Event I)}, ts = before ++ t :: after →
      Upgradable t.before ∧ Step setup t.before t.event t.after ∧
        (∀ k, Searched t.before k (calls before k) (answers before k)) ∧
        Run (step setup) t.after after m := by
    rintro before after t rfl
    obtain ⟨hbefore, hstep, hafter⟩ := hrun.around
    exact ⟨upgradable_of_run hbefore hstart, Step.of_step hstep, fun k =>
      searched_of_run hbefore hstart.sound hstart.tracked (searched_initial client input k), hafter⟩
  have upgrades : ∀ before t after, ts = before ++ t :: after →
      t.after.client.sessionConfig.clientVersion ≠ t.before.client.sessionConfig.clientVersion →
        ∃ k, Upgrades before k t := by
    intro before t after hts hne
    obtain ⟨h, hstep, hsearch, -⟩ := at_transition hts
    exact upgrades_of_step h hstep hsearch hne
  have advances : ∀ t ∈ ts, Advances t.before.client.sessionConfig.clientVersion
      t.after.client.sessionConfig.clientVersion := by
    intro t ht
    obtain ⟨before, after, hts⟩ := List.append_of_mem ht
    by_cases hsame : t.after.client.sessionConfig.clientVersion =
        t.before.client.sessionConfig.clientVersion
    · exact .inl hsame.symm
    · obtain ⟨k, hk⟩ := upgrades before t after hts hsame
      exact hk.advances
  refine ⟨upgrades, ?_, ?_, ?_, ?_⟩
  · intro before t after k v hts hv
    obtain ⟨h, hstep, hsearch, -⟩ := at_transition hts
    exact (hsearch k).of_call h.sound h.tracked hstep hv
  · intro k
    exact (searched_of_run hrun hstart.sound hstart.tracked
      (searched_initial client input k)).length_le
  · intro before t after k s hts hk he
    obtain ⟨h, hstep, hsearch, -⟩ := at_transition hts
    exact session_of_sync h (hsearch k) hstep hk he
  · intro before t after hts
    obtain ⟨-, -, -, hafter⟩ := at_transition hts
    refine (advances t (by simp [hts])).trans (advances_of_run hafter fun u hu => ?_)
    exact advances u (by simp [hts, hu])

/-! ### A sample search -/

/-- The game refuses the client version of the sample and accepts the next one. -/
def searchEvents : List (Event ℕ) :=
  [.syncBegin true, .syncGeneration 0, .syncRefresh 0 "request"] ++ startEvents (.writer 0) ++
  [.client (.answer (.writer 0) (.error (.ofCode "CLIENT_UPDATE_REQUIRED"))), .syncTake 0,
    .syncCandidates 0, .syncAdopt 0 "request"] ++ startEvents (.writer 0) ++
  [.client (.answer (.writer 0) (.ok ⟨.version "5" "6", none⟩)), .client (.check (.writer 0))]

def searchClient : ManagedClient ℕ ℕ :=
  (exec sampleStep sampleManaged searchEvents).get (by decide +kernel)

/-- The sync installs it. -/
def searchUpdate : Transition (ManagedClient ℕ ℕ) (Event ℕ) :=
  transitionOf sampleStep searchClient (.client (.finish (.writer 0) ⟨true, true⟩)) (by decide +kernel)

theorem releases_followed_search :
    ∃ k, Upgrades (transitions sampleStep sampleManaged searchEvents) k searchUpdate := by
  have hclient : Client.withTransport sampleLibraries Client.sampleOptions sampleConfig none
      sampleTransport 0 = .ok sampleManaged.client := rfl
  have hrun : Run sampleStep sampleManaged _ searchClient := run_get searchEvents (by decide +kernel)
  exact (releases_followed hclient (hrun.append (run_transitionOf .nil))).1 _ _ [] rfl
    (by decide +kernel)

end MoenotesApi.ManagedClient
