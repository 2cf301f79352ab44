import MoenotesApi.Client.Rejection

/-!
# Installing sessions

Six operations replace the session of a client.  Each builds a whole new session from what it has
captured, and all but `replace_session` compare the generation before they swap.

* `Submitted`, `Traced`: what the history of a run says about an operation under way;
* `install_cases`: the ways in which an event replaces the session;
* `CalledWith`, `AnsweredVersions`: the generation an operation was called with, and the versions
  that one Version call presented and was answered with;
* `session_swap`: the compare-and-swap, the origin of the versions and the frames of the
  installations, over whole runs.
-/

namespace MoenotesApi.Client

open Runs

variable {ι : Type} {lib : Libraries} {opt : ClientOptions} {c c' : Client ι} {e : Event ι}
variable {ts us : List (Transition (Client ι) (Event ι))} {i : ι}

/-! ### The history of an operation -/

/-- The operation `i` is under way after every transition of `ts`. -/
def UnderWay (i : ι) (ts : List (Transition (Client ι) (Event ι))) : Prop :=
  ∀ t ∈ ts, (t.after.running i).isSome = true

/-- The operation `i` was submitted with `request`, and `span` is its history since then. -/
def Submitted (ts : List (Transition (Client ι) (Event ι))) (i : ι) (request : Request)
    (span : List (Transition (Client ι) (Event ι))) : Prop :=
  ∃ before s requestId, ts = before ++ s :: span ∧ s.event = .submit i request requestId ∧
    UnderWay i (s :: span)

/-- What the history `ts` says about the operation `i`: the generation it was called with, the
client version it presents, and where its answer comes from. -/
structure Traced (ts : List (Transition (Client ι) (Event ι))) (i : ι) (op : Op) : Prop where
  presented : ∀ presented, op.call = .version presented →
    op.metadata.get "x-client-version" = some presented.clientVersion
  history : ∃ request span, Submitted ts i request span ∧ request.generation = op.generation ∧
    ∀ response, op.stage.response = some response →
      ∃ t ∈ span, t.event = .answer i (.ok response)

theorem UnderWay.snoc (h : UnderWay i ts) {t : Transition (Client ι) (Event ι)} {op : Op}
    (hop : t.after.ops i = some (.running op)) : UnderWay i (ts ++ [t]) := by
  intro t' ht'
  rcases List.mem_append.1 ht' with ht' | ht'
  · exact h t' ht'
  · obtain rfl := List.mem_singleton.1 ht'
    simp [running_eq_some.2 hop]

theorem Prepares.presented {requestId : String} {request : Request} {op : Op}
    (h : Prepares lib c requestId request op) {presented : SessionConfig}
    (hc : op.call = .version presented) :
    op.metadata.get "x-client-version" = some presented.clientVersion := by
  cases h with
  | version _ _ _ hd =>
    cases hc
    exact SessionConfig.get_metadata hd
  | execute | selfData | preLogin | login | register => cases hc

theorem Prepares.request {requestId : String} {request : Request} {op : Op}
    (h : Prepares lib c requestId request op) : request.generation = op.generation := by
  cases h <;> rfl

variable [DecidableEq ι]

theorem traced_of_run (hrun : Run (step lib opt) c ts c') (hnone : ∀ i, c.ops i = none) {op : Op}
    (hop : c'.ops i = some (.running op)) : Traced ts i op := by
  induction hrun generalizing op with
  | nil => simp [hnone] at hop
  | @snoc ts d e d' hrun hstep ih =>
    rcases (Step.of_step hstep).running hop with ⟨op', hop', hf⟩ | ⟨request, id, he, -, hp⟩
    · obtain ⟨hpresented, request, span, ⟨before, s, id, rfl, hs, hway⟩, hg, hanswer⟩ := ih hop'
      refine ⟨fun presented hc => ?_, request, span ++ [⟨d, e, d'⟩],
        ⟨before, s, id, by simp, hs, ?_⟩, hg.trans hf.generation.symm, fun response hr => ?_⟩
      · have hp := hpresented presented (hf.call ▸ hc)
        rcases hf.metadata with hm | hm
        · rw [hm]
          exact hp
        · rw [hm, Metadata.get_put_of_ne _ _ (by decide)]
          exact hp
      · exact hway.snoc hop
      · rcases hf.response response hr with hr' | he
        · obtain ⟨t, ht, he⟩ := hanswer response hr'
          exact ⟨t, List.mem_append_left _ ht, he⟩
        · exact ⟨_, List.mem_append_right _ (List.mem_singleton_self _), he⟩
    · refine ⟨fun presented hc => hp.presented hc, request, [],
        ⟨ts, _, id, rfl, he, fun t ht => ?_⟩, hp.request, fun response hr => ?_⟩
      · obtain rfl := List.mem_singleton.1 ht
        simp [running_eq_some.2 hop]
      · rw [hp.stage] at hr
        cases hr

theorem ops_of_submit {request : Request} {requestId : String}
    (h : step lib opt c (.submit i request requestId) = some c') : c.ops i = none := by
  cases Step.of_step h with
  | submit hi | submitError hi => exact hi

/-- An operation under way keeps the generation it was called with. -/
theorem generation_of_submitted (hrun : Run (step lib opt) c ts c') {request : Request}
    (h : Submitted ts i request us) :
    ∃ op, c'.ops i = some (.running op) ∧ op.generation = request.generation := by
  obtain ⟨before, s, id, rfl, he, hway⟩ := h
  obtain ⟨-, hstep, hspan⟩ := hrun.around
  have hs : ∃ op, s.after.ops i = some (.running op) ∧ op.generation = request.generation := by
    obtain ⟨op, hop⟩ := Option.isSome_iff_exists.1 (hway s List.mem_cons_self)
    rw [running_eq_some] at hop
    rcases (Step.of_step hstep).running hop with ⟨op', hop', -⟩ | ⟨request', id', he', -, hp⟩
    · rw [he] at hstep
      rw [ops_of_submit hstep] at hop'
      cases hop'
    · rw [he] at he'
      cases he'
      exact ⟨op, hop, hp.request.symm⟩
  replace hway : UnderWay i us := fun t ht => hway t (List.mem_cons_of_mem _ ht)
  clear hrun
  induction hspan with
  | nil => exact hs
  | @snoc us d e d' _ hstep' ih =>
    obtain ⟨op, hop, hg⟩ := ih fun t ht => hway t (List.mem_append_left _ ht)
    obtain ⟨op', hop'⟩ := Option.isSome_iff_exists.1
      (hway _ (List.mem_append_right _ (List.mem_singleton_self _)))
    rw [running_eq_some] at hop'
    rcases (Step.of_step hstep').running hop' with ⟨op'', hop'', hf⟩ | ⟨_, _, _, hi, -⟩
    · rw [hop] at hop''
      cases hop''
      exact ⟨op', hop', hf.generation.trans hg⟩
    · rw [hop] at hi
      cases hi

/-! ### The ways to install a session -/

/-- The ways in which an event replaces the session. -/
inductive Install (lib : Libraries) (c : Client ι) (e : Event ι) (c' : Client ι) : Prop
  | finish {i op response files outcome new} (he : e = .finish i files)
      (hi : c.ops i = some (.running op)) (hs : op.stage = .checked response)
      (hf : Concludes lib c op response files outcome (some new)) (hsession : c'.session = new)
      (hdone : c'.ops i = some (.done (.ok outcome)))
  | imported {provider} (he : e = .importCredentials c.current provider)
      (hsession : c'.session =
        .fresh c.session.config (some provider.credentials) c.session.transport)
  | replaced {config provider transport} (he : e = .replaceSession config provider)
      (hsession : c'.session =
        .fresh config (provider.map StaticCredentials.credentials) transport)

theorem install_cases (h : step lib opt c e = some c') (hne : c'.current ≠ c.current) :
    Install lib c e c' ∧ c'.current = c.current + 1 := by
  cases Step.of_step h with
  | finishInstall hi hs hf =>
    exact ⟨.finish rfl hi hs hf (by simp) (by simp), by simp⟩
  | imported hg hn =>
    subst hg
    exact ⟨.imported rfl ((install_session c _).trans (makeSession_eq hn)), rfl⟩
  | replaced ht hn => exact ⟨.replaced rfl ((install_session c _).trans (makeSession_eq hn)), rfl⟩
  | _ => exact absurd rfl hne

/-- An installation under the new generation is complete: the operation has returned `Ok`. -/
theorem done_of_install (h : step lib opt c e = some c') (hne : c'.current ≠ c.current)
    (he : e.op = some i) : ∃ outcome, c'.ops i = some (.done (.ok outcome)) := by
  cases (install_cases h hne).1 with
  | finish hfin _ _ _ _ hdone =>
    rw [hfin] at he
    cases he
    exact ⟨_, hdone⟩
  | imported hfin => rw [hfin] at he; cases he
  | replaced hfin => rw [hfin] at he; cases he

/-! ### Compare and swap -/

omit [DecidableEq ι] in
/-- The operation that `t` belongs to was called with the generation `g`, after the run `ts`. -/
def CalledWith (ts : List (Transition (Client ι) (Event ι))) (t : Transition (Client ι) (Event ι))
    (g : ℕ) : Prop :=
  (∃ provider, t.event = .importCredentials g provider) ∨
    ∃ i files request span, t.event = .finish i files ∧ Submitted ts i request span ∧
      request.generation = g

omit [DecidableEq ι] in
/-- The transition replaces the session. -/
def Installed (t : Transition (Client ι) (Event ι)) : Prop := t.after.current ≠ t.before.current

omit [DecidableEq ι] in
theorem Concludes.generation {op : Op} {response : TransportResponse} {files : RegisterFiles}
    {outcome : Outcome} {new : Session}
    (h : Concludes lib c op response files outcome (some new)) : c.current = op.generation := by
  cases h with
  | login _ _ hg | register _ _ hg | version _ _ _ hg => exact hg

/-- An operation that installs a session was called with the generation it replaces. -/
theorem calledWith_of_install (hrun : Run (step lib opt) c ts c') (hnone : ∀ i, c.ops i = none)
    {t : Transition (Client ι) (Event ι)} (hbefore : t.before = c')
    (hstep : step lib opt t.before t.event = some t.after) (hnew : Installed t) :
    (∃ config provider, t.event = .replaceSession config provider) ∨
      CalledWith ts t t.before.current := by
  cases (install_cases hstep hnew).1 with
  | finish he hi _ hf _ _ =>
    obtain ⟨-, request, span, hsub, hg, -⟩ := traced_of_run hrun hnone (hbefore ▸ hi)
    exact .inr (.inr ⟨_, _, request, span, he, hsub, hg.trans hf.generation.symm⟩)
  | imported he _ => exact .inr (.inl ⟨_, he⟩)
  | replaced he _ => exact .inl ⟨_, _, he⟩

/-- The generation that an installing operation was called with is the current one. -/
theorem current_of_calledWith (hrun : Run (step lib opt) c ts c')
    {t : Transition (Client ι) (Event ι)} (hbefore : t.before = c')
    (hstep : step lib opt t.before t.event = some t.after) (hnew : Installed t) {g : ℕ}
    (hg : CalledWith ts t g) : t.before.current = g := by
  rcases hg with ⟨provider, he⟩ | ⟨i, files, request, span, he, hsub, rfl⟩
  · cases (install_cases hstep hnew).1 with
    | finish he' => rw [he] at he'; cases he'
    | imported he' => rw [he] at he'; cases he'; rfl
    | replaced he' => rw [he] at he'; cases he'
  · obtain ⟨op, hop, hg⟩ := generation_of_submitted hrun hsub
    cases (install_cases hstep hnew).1 with
    | @finish j op' _ _ _ _ he' hi _ hf =>
      rw [he] at he'
      cases he'
      rw [hbefore, hop] at hi
      cases hi
      rw [hf.generation, hg]
    | imported he' => rw [he] at he'; cases he'
    | replaced he' => rw [he] at he'; cases he'

/-! ### The origin of the versions -/

omit [DecidableEq ι] in
/-- One Version call presented and was answered with `versions`, as a whole. -/
def AnsweredVersions (lib : Libraries) (ts : List (Transition (Client ι) (Event ι)))
    (versions : String × Option String × Option String) : Prop :=
  ∃ before t after i files op presented response master answered,
    ts = before ++ t :: after ∧ t.event = .finish i files ∧
    t.before.ops i = some (.running op) ∧ Traced before i op ∧
    op.call = .version presented ∧ op.stage = .checked response ∧
    response.message = .version master answered ∧
    versions = (presented.clientVersion, some master,
      answeredResource lib t.before op presented response answered)

omit [DecidableEq ι] in
/-- The versions come from the configuration `config`, or from a session that was put in its
place, or from one Version call. -/
def Originated (lib : Libraries) (config : SessionConfig)
    (ts : List (Transition (Client ι) (Event ι)))
    (versions : String × Option String × Option String) : Prop :=
  versions = config.triple ∨
    (∃ t ∈ ts, ∃ config' provider, t.event = .replaceSession config' provider ∧ Installed t ∧
      versions = config'.triple) ∨
    AnsweredVersions lib ts versions

omit [DecidableEq ι] in
theorem Originated.append {config : SessionConfig} {versions : String × Option String × Option String}
    (h : Originated lib config ts versions) (us : List (Transition (Client ι) (Event ι))) :
    Originated lib config (ts ++ us) versions := by
  rcases h with h | ⟨t, ht, h⟩ | ⟨before, t, after, i, files, op, presented, response, master,
    answered, rfl, h⟩
  · exact .inl h
  · exact .inr (.inl ⟨t, List.mem_append_left _ ht, h⟩)
  · exact .inr (.inr ⟨before, t, after ++ us, i, files, op, presented, response, master, answered,
      by simp, h⟩)

theorem originated_of_run {config : SessionConfig} (hrun : Run (step lib opt) c ts c')
    (hnone : ∀ i, c.ops i = none) (hconfig : c.session.config = config) :
    Originated lib config ts c'.session.config.triple := by
  induction hrun with
  | nil => exact .inl (by rw [hconfig])
  | @snoc ts d e d' hrun hstep ih =>
    by_cases hne : d'.current = d.current
    · -- nothing is installed, so the session keeps its configuration
      have hkeep : d'.session.config = d.session.config := by
        unfold session
        rw [hne]
        exact (identity_of_step hstep le_rfl).1
      rw [hkeep]
      exact ih.append _
    · cases (install_cases hstep hne).1 with
      | @finish i op response files outcome new he hi hs hf hsession _ =>
        cases hf with
        | login | register =>
          rw [hsession]
          exact ih.append _
        | @version presented master answered hcall hm =>
          rw [hsession]
          exact .inr (.inr ⟨ts, _, [], i, files, op, presented, response, master, answered, rfl,
            he, hi, traced_of_run hrun hnone hi, hcall, hs, hm, rfl⟩)
      | imported he hsession =>
        rw [hsession]
        exact ih.append _
      | replaced he hsession =>
        rw [hsession]
        exact .inr (.inl ⟨_, List.mem_append_right _ (List.mem_singleton_self _), _, _, he, hne,
          rfl⟩)

/-! ### What an installation keeps -/

/-- Everything but the generation, the versions, the block and the mismatch flag. -/
structure KeepsIdentity (s s' : Session) : Prop where
  credentials : s'.credentials = s.credentials
  region : s'.config.region = s.config.region
  origin : s'.config.origin = s.config.origin
  allowedOrigins : s'.config.allowedOrigins = s.config.allowedOrigins
  platform : s'.config.platform = s.config.platform
  transport : s'.transport = s.transport
  jpOverridePending : s'.jpOverridePending = s.jpOverridePending

theorem keepsIdentity_discovered (s : Session) (presented : SessionConfig) (master : String)
    (resource : Option String) : KeepsIdentity s (discovered s presented master resource) :=
  ⟨rfl, rfl, rfl, rfl, rfl, rfl, rfl⟩

theorem keepsIdentity_of_version (h : step lib opt c e = some c') (hne : c'.current ≠ c.current)
    {files : RegisterFiles} {op : Op} {presented : SessionConfig} (he : e = .finish i files)
    (hi : c.ops i = some (.running op)) (hcall : op.call = .version presented) :
    KeepsIdentity c.session c'.session := by
  subst he
  cases (install_cases h hne).1 with
  | finish he' hi' _ hf hsession _ =>
    cases he'
    rw [hi] at hi'
    cases hi'
    rw [hsession]
    cases hf with
    | login hlogin => rw [hcall] at hlogin; cases hlogin
    | register hregister => rw [hcall] at hregister; cases hregister
    | version => exact keepsIdentity_discovered _ _ _ _
  | imported he' => cases he'
  | replaced he' => cases he'

/-- The credentials in memory change only when credentials are installed. -/
theorem credentials_of_step (h : step lib opt c e = some c')
    (hkeep : installsCredentials (⟨c, e, c'⟩ : Transition (Client ι) (Event ι)) = false) :
    c'.session.credentials = c.session.credentials := by
  by_cases hc : c'.current = c.current
  · have hsame := (identity_of_step h (le_refl c.current)).2
    rw [session, session, hc]
    exact hsame
  · cases (install_cases h hc).1 with
    | @finish j op _ _ _ _ he hi _ hf hsession _ =>
      subst he
      rw [hsession]
      cases hf with
      | login hcall | register hcall =>
        simp [installsCredentials, hc, running_eq_some.2 hi, hcall, Call.installsCredentials]
          at hkeep
      | version => rfl
    | imported he => simp [installsCredentials, hc, he] at hkeep
    | replaced he => simp [installsCredentials, hc, he] at hkeep

theorem config_of_installsCredentials (h : step lib opt c e = some c')
    (hin : installsCredentials (⟨c, e, c'⟩ : Transition (Client ι) (Event ι)) = true)
    (hreplace : ∀ config provider, e ≠ .replaceSession config provider) :
    c'.session.config = c.session.config := by
  have hne : c'.current ≠ c.current := by
    intro heq
    simp [installsCredentials, heq] at hin
  cases (install_cases h hne).1 with
  | @finish j op _ _ _ _ he hi _ hf hsession _ =>
    subst he
    rw [hsession]
    cases hf with
    | login | register => rfl
    | version hcall =>
      simp [installsCredentials, running_eq_some.2 hi, hcall, Call.installsCredentials] at hin
  | imported _ hsession => rw [hsession]; rfl
  | replaced he => exact absurd he (hreplace _ _)

/-- An operation that returns an error has installed nothing, at no moment since its submission. -/
theorem not_installed_of_error {request : Request} {t : Transition (Client ι) (Event ι)}
    (ht : Run (step lib opt) c (ts ++ [t]) t.after) (hsub : Submitted ts i request us) {error : ClientError}
    (hdone : t.after.ops i = some (.done (.error error))) :
    ∀ t' ∈ us ++ [t], t'.event.op = some i → ¬ Installed t' := by
  intro t' ht' he hnew
  have hmem : t' ∈ ts ++ [t] := by
    obtain ⟨before, s, id, rfl, -, -⟩ := hsub
    simp only [List.mem_append, List.mem_cons] at ht' ⊢
    tauto
  obtain ⟨outcome, hout⟩ := done_of_install (ht.step_of_mem hmem) hnew he
  rcases List.mem_append.1 ht' with ht' | ht'
  · obtain ⟨before, s, id, -, -, hway⟩ := hsub
    have := hway t' (List.mem_cons_of_mem _ ht')
    simp [running, hout] at this
  · obtain rfl := List.mem_singleton.1 ht'
    rw [hdone] at hout
    cases hout

theorem importCredentials_error {g : ℕ} {provider : StaticCredentials} {error : ClientError}
    (h : step lib opt c (.importCredentials g provider) = some c')
    (he : importCredentials lib c g provider = .error error) : c' = c := by
  simpa [step, he, eq_comm] using h

theorem replaceSession_error {config : SessionConfig} {provider : Option StaticCredentials}
    {error : ClientError} (h : step lib opt c (.replaceSession config provider) = some c')
    (he : replaceSession lib c config provider = .error error) : c' = c := by
  simpa [step, he, eq_comm] using h

/-- **Compare and swap.**  In every run of a client: an operation that installs a session, other
than a replacement, was called with the generation that it replaces, so at most one of the
operations called with one generation installs; the versions of the current session are configured
ones or those of one Version call; version updates keep the identity of the session and credential
installs its configuration; an operation that returns an error has installed nothing. -/
theorem session_swap {config : SessionConfig} {provider : Option StaticCredentials}
    {transport : Transport} {now : ℕ} {start : Client ι}
    (hstart : withTransport lib opt config provider transport now = .ok start)
    (hrun : Run (step lib opt) start ts c) :
    (∀ before t after, ts = before ++ t :: after → Installed t →
      (∃ config provider, t.event = .replaceSession config provider) ∨
        CalledWith before t t.before.current ∧
          ∀ g, CalledWith before t g → t.before.current = g) ∧
    (∀ before t between t' after g, ts = before ++ t :: between ++ t' :: after →
      Installed t → Installed t' → CalledWith before t g →
        ¬ CalledWith (before ++ t :: between) t' g) ∧
    Originated lib config ts c.session.config.triple ∧
    (∀ t ∈ ts, Installed t → ∀ i files op presented, t.event = .finish i files →
      t.before.ops i = some (.running op) → op.call = .version presented →
        KeepsIdentity t.before.session t.after.session) ∧
    (∀ t ∈ ts, installsCredentials t = true →
      (∀ config provider, t.event ≠ .replaceSession config provider) →
        t.after.session.config = t.before.session.config) ∧
    (∀ before t after i request span error, ts = before ++ t :: after →
      Submitted before i request span → t.after.ops i = some (.done (.error error)) →
        ∀ t' ∈ span ++ [t], t'.event.op = some i → ¬ Installed t') ∧
    (∀ t ∈ ts, ∀ g provider error, t.event = .importCredentials g provider →
      importCredentials lib t.before g provider = .error error → t.after = t.before) ∧
    (∀ t ∈ ts, ∀ config provider error, t.event = .replaceSession config provider →
      replaceSession lib t.before config provider = .error error → t.after = t.before) := by
  have hnone : ∀ i, start.ops i = none := by
    obtain ⟨session, -, rfl⟩ := withTransport_ok hstart
    exact fun _ => rfl
  have hconfig : start.session.config = config := by
    obtain ⟨session, hn, rfl⟩ := withTransport_ok hstart
    rw [makeSession_eq hn]
    rfl
  refine ⟨?_, ?_, originated_of_run hrun hnone hconfig, ?_, ?_, ?_, ?_, ?_⟩
  · rintro before t after rfl hnew
    obtain ⟨h1, hstep, -⟩ := hrun.around
    refine (calledWith_of_install h1 hnone rfl hstep hnew).imp_right fun hcalled => ?_
    exact ⟨hcalled, fun g => current_of_calledWith h1 rfl hstep hnew⟩
  · rintro before t between t' after g rfl hnew hnew' hg hg'
    obtain ⟨h1, hstep', -⟩ := hrun.around
    obtain ⟨h0, hstep, hbetween⟩ := h1.around
    have hc := current_of_calledWith h0 rfl hstep hnew hg
    have hc' := current_of_calledWith h1 rfl hstep' hnew' hg'
    have hnext := (install_cases hstep hnew).2
    have hle := current_le_of_run hbetween
    omega
  · intro t ht hnew i files op presented he hi hcall
    exact keepsIdentity_of_version (hrun.step_of_mem ht) hnew he hi hcall
  · intro t ht hin hreplace
    exact config_of_installsCredentials (hrun.step_of_mem ht) hin hreplace
  · rintro before t after i request span error rfl hsub hdone
    obtain ⟨h1, hstep, -⟩ := hrun.around
    exact not_installed_of_error (h1.snoc hstep) hsub hdone
  · intro t ht g provider error he herr
    have hstep := hrun.step_of_mem ht
    rw [he] at hstep
    exact importCredentials_error hstep herr
  · intro t ht config provider error he herr
    have hstep := hrun.step_of_mem ht
    rw [he] at hstep
    exact replaceSession_error hstep herr

/-- A discovery of the sample client. -/
def discoveryEvents : List (Event ℕ) :=
  callEvents 0 (.version 0 none) ++
    [.answer 0 (.ok ⟨.version "5" "6", none⟩), .check 0, .finish 0 ⟨true, true⟩]

theorem session_swap_discovery :
    Originated sampleLibraries sampleConfig (transitions sampleStep sampleClient discoveryEvents)
      ("1.0.0", some "5", some "6") := by
  have hstart : withTransport sampleLibraries sampleOptions sampleConfig (some sampleProvider)
      sampleTransport 0 = .ok sampleClient := rfl
  exact (session_swap hstart (run_get discoveryEvents rfl)).2.2.1

end MoenotesApi.Client
