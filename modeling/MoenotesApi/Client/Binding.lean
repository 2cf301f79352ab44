import MoenotesApi.Client.Headers
import MoenotesApi.Client.Install

/-!
# Credentials belong to one region and one origin

A session does not store where its credentials come from.  The binding follows from the checks at
each entry point: the provider of a constructor, an import or a replacement, the SDK authorization
of a login, and the session of a registration; every later session takes its configuration, its
credentials and its transport over together.

* `Client.new`: the constructor with the transport of the configuration;
* `Granted`: where credentials come from, and for which region and normalised origin;
* `Allowed`: a configuration names an origin that it allows;
* `Destined`: where the calls of a session go;
* `credentials_bound`: sessions and calls use credentials only where they belong.
-/

namespace MoenotesApi

/-- The origin of the configuration normalises to `target`, which is one of the allowed ones. -/
def SessionConfig.Allowed (lib : Libraries) (config : SessionConfig) (target : String) : Prop :=
  MoenotesApi.origin lib config.origin = .ok target ∧
    ∃ v ∈ config.allowedOrigins, MoenotesApi.origin lib v = .ok target

theorem SessionConfig.allowed_of_validate {lib : Libraries} {config : SessionConfig}
    (h : config.validate lib = .ok ()) : ∃ target, config.Allowed lib target := by
  simp only [SessionConfig.validate, Except.bind_eq_ok, Except.refuse_eq_ok, not_or] at h
  obtain ⟨target, htarget, -, ⟨-, -, -, hallowed, -⟩, -⟩ := h
  refine ⟨target, htarget, ?_⟩
  obtain ⟨v, hv, hor⟩ := List.any_eq_true.1 (not_not.1 hallowed)
  refine ⟨v, hv, ?_⟩
  have hsome : (MoenotesApi.origin lib v).toOption = some target := of_decide_eq_true hor
  cases ho : MoenotesApi.origin lib v with
  | error e => rw [ho] at hsome; cases hsome
  | ok w => rw [ho] at hsome; cases hsome; rfl

/-- The provider belongs to this region and normalised origin. -/
def StaticCredentials.BoundTo (lib : Libraries) (provider : StaticCredentials)
    (region target : String) : Prop :=
  provider.region = region ∧ MoenotesApi.origin lib provider.origin = .ok target

/-- A session is made only with credentials that belong to its region and origin. -/
theorem bound_of_makeSession {lib : Libraries} {config : SessionConfig}
    {provider : Option StaticCredentials} {transport : Transport} {session : Session}
    (h : makeSession lib config provider transport = .ok session) :
    ∃ target, config.Allowed lib target ∧
      ∀ p, provider = some p → p.BoundTo lib config.region target := by
  simp only [makeSession, Except.bind_eq_ok] at h
  obtain ⟨⟨⟩, hvalid, h⟩ := h
  obtain ⟨target, hallowed⟩ := SessionConfig.allowed_of_validate hvalid
  refine ⟨target, hallowed, ?_⟩
  rintro p rfl
  simp only [Except.bind_eq_ok] at h
  obtain ⟨credentials, hprovide, -⟩ := h
  simp only [StaticCredentials.provide, Except.bind_eq_ok, Except.refuse_eq_ok, not_not] at hprovide
  obtain ⟨-, hregion, bound, hbound, target', htarget, -, heq, -⟩ := hprovide
  rw [hallowed.1] at htarget
  cases htarget
  exact ⟨hregion, heq ▸ hbound⟩

theorem grpcTransport_eq {lib : Libraries} {config : SessionConfig} {transport : Transport}
    (h : grpcTransport lib config = .ok transport) :
    transport = ⟨config.origin, config.region⟩ := by
  simp only [grpcTransport, Except.bind_eq_ok, Except.pure_eq_ok] at h
  obtain ⟨-, -, -, -, h⟩ := h
  exact h.symm

namespace Client

open Runs

variable {ι : Type} {lib : Libraries} {opt : ClientOptions} {c c' : Client ι} {e : Event ι}
variable {ts us : List (Transition (Client ι) (Event ι))}

/-- `Client::new`. -/
def new (lib : Libraries) (opt : ClientOptions) (config : SessionConfig)
    (provider : Option StaticCredentials) (now : ℕ) : Except ClientError (Client ι) := do
  let transport ← grpcTransport lib config
  withTransport lib opt config provider transport now

/-! ### Where credentials come from -/

/-- The provider was given to the constructor, to an import or to a replacement. -/
def Provided (first : Option StaticCredentials) (ts : List (Transition (Client ι) (Event ι)))
    (provider : StaticCredentials) : Prop :=
  first = some provider ∨ ∃ t ∈ ts, (∃ g, t.event = .importCredentials g provider) ∨
    ∃ config, t.event = .replaceSession config (some provider)

/-- A login with this SDK authorization was asked for in the session `g`. -/
def Authorized (ts : List (Transition (Client ι) (Event ι))) (g : ℕ) (sdk : SdkAuthorization) : Prop :=
  ∃ t ∈ ts, ∃ i context requestId, t.event = .submit i (.login g sdk context) requestId

/-- The operation `op` finishes with this response. -/
def Finishes (t : Transition (Client ι) (Event ι)) (op : Op) (response : TransportResponse) :
    Prop :=
  ∃ i files, t.event = .finish i files ∧ t.before.ops i = some (.running op) ∧
    op.stage = .checked response

/-- The credentials were imported for, or issued for, this region and normalised origin. -/
inductive Granted (lib : Libraries) (first : Option StaticCredentials)
    (ts : List (Transition (Client ι) (Event ι))) : Credentials → String → String → Prop
  | provided {provider region target} (h : Provided first ts provider)
      (hb : provider.BoundTo lib region target) :
      Granted lib first ts provider.credentials region target
  | login {t op response sdk id credential isNewUser} (ht : t ∈ ts) (hf : Finishes t op response)
      (hcall : op.call = .login sdk.callback.uid)
      (hm : response.message = .login (some (id, credential)) isNewUser)
      (ha : Authorized ts op.generation sdk)
      (hr : sdk.region = (t.before.arena op.generation).config.region)
      (ho : origin lib (t.before.arena op.generation).config.origin = .ok sdk.origin) :
      Granted lib first ts (loginCredentials sdk.callback.uid id credential) sdk.region sdk.origin
  | register {t op response id credential deviceId target} (ht : t ∈ ts)
      (hf : Finishes t op response) (hcall : op.call = .register)
      (hm : response.message = .register id credential deviceId)
      (ho : origin lib (t.before.arena op.generation).config.origin = .ok target) :
      Granted lib first ts (registerCredentials id credential deviceId)
        (t.before.arena op.generation).config.region target

theorem Granted.mono {first : Option StaticCredentials} {credentials : Credentials}
    {region target : String} (h : Granted lib first ts credentials region target)
    (hsub : ∀ t ∈ ts, t ∈ us) : Granted lib first us credentials region target := by
  cases h with
  | provided h hb =>
    refine .provided (h.imp_right ?_) hb
    rintro ⟨t, ht, how⟩
    exact ⟨t, hsub t ht, how⟩
  | login ht hf hcall hm ha hr ho =>
    obtain ⟨s, hs, how⟩ := ha
    exact .login (hsub _ ht) hf hcall hm ⟨s, hsub s hs, how⟩ hr ho
  | register ht hf hcall hm ho => exact .register (hsub _ ht) hf hcall hm ho

/-- The calls of the session go to the region and origin of its configuration, or through the
transport that `with_transport` was given for them. -/
def Destined (config : SessionConfig) (transport : Transport) (s : Session) : Prop :=
  s.transport = ⟨s.config.origin, s.config.region⟩ ∨
    s.transport = transport ∧ s.config.region = config.region ∧ s.config.origin = config.origin

/-- The session allows its origin, and its credentials belong to its region and origin. -/
def Bound (lib : Libraries) (first : Option StaticCredentials)
    (ts : List (Transition (Client ι) (Event ι))) (s : Session) : Prop :=
  ∃ target, s.config.Allowed lib target ∧
    ∀ credentials, s.credentials = some credentials →
      Granted lib first ts credentials s.config.region target

/-- Sessions with the same credentials, region and origins are bound alike. -/
theorem Bound.mono {first : Option StaticCredentials} {s s' : Session}
    (h : Bound lib first ts s) (hsub : ∀ t ∈ ts, t ∈ us)
    (hregion : s'.config.region = s.config.region) (horigin : s'.config.origin = s.config.origin)
    (horigins : s'.config.allowedOrigins = s.config.allowedOrigins)
    (hcredentials : s'.credentials = s.credentials) : Bound lib first us s' := by
  obtain ⟨target, ⟨htarget, hallowed⟩, hgranted⟩ := h
  refine ⟨target, ⟨horigin ▸ htarget, horigins ▸ hallowed⟩, fun credentials hc => ?_⟩
  rw [hregion]
  exact (hgranted credentials (hcredentials ▸ hc)).mono hsub

/-! ### The SDK account of a login -/

/-- A login under way was asked for with an authorization for the region and origin of the session
that it has captured. -/
def LoginsBound (lib : Libraries) (ts : List (Transition (Client ι) (Event ι))) (c : Client ι) :
    Prop :=
  ∀ i op uid, c.ops i = some (.running op) → op.call = .login uid → ∃ sdk,
    Authorized ts op.generation sdk ∧ sdk.callback.uid = uid ∧
    sdk.region = (c.arena op.generation).config.region ∧
      origin lib (c.arena op.generation).config.origin = .ok sdk.origin

theorem binding_of_buildRequest {config : SessionConfig} {sdk : SdkAuthorization}
    {context : AndroidLoginContext} {method : Method} {requestId : String} {map : Metadata}
    (h : buildRequest lib config sdk context method requestId = .ok map) :
    sdk.region = config.region ∧ origin lib config.origin = .ok sdk.origin := by
  simp only [buildRequest, SdkAuthorization.checkBinding, Except.bind_eq_ok, Except.refuse_eq_ok,
    not_or, not_not] at h
  obtain ⟨-, ⟨-, ⟨-, -, hregion⟩, target, htarget, heq⟩, -⟩ := h
  exact ⟨hregion, heq ▸ htarget⟩

variable [DecidableEq ι]

theorem loginsBound_of_run (hrun : Run (step lib opt) c ts c') (hs : SlotInv c)
    (h : LoginsBound lib [] c) : LoginsBound lib ts c' := by
  induction hrun with
  | nil => exact h
  | @snoc ts d e d' hrun hstep ih =>
    intro i op uid hi hcall
    rcases (Step.of_step hstep).running hi with ⟨op₀, hop, hf⟩ | ⟨request, id, he, -, hp⟩
    · obtain ⟨sdk, ⟨t, ht, how⟩, huid, hregion, horigin⟩ := ih i op₀ uid hop (hf.call ▸ hcall)
      have hle := (slotInv_of_run hrun hs).captured i op₀ hop
      rw [hf.generation, (identity_of_step hstep hle).1]
      exact ⟨sdk, ⟨t, List.mem_append_left _ ht, how⟩, huid, hregion, horigin⟩
    · rw [hp.generation, (identity_of_step hstep le_rfl).1]
      cases hp with
      | @login sdk context metadata hd =>
        cases hcall
        obtain ⟨hregion, horigin⟩ := binding_of_buildRequest hd
        exact ⟨sdk, ⟨_, List.mem_append_right _ (List.mem_singleton_self _), i, context, id, he⟩,
          rfl, hregion, horigin⟩
      | execute | selfData | preLogin | register | version => cases hcall

/-! ### Sessions -/

/-- A session keeps its transport for ever. -/
theorem transport_of_step (h : step lib opt c e = some c') {g : ℕ} (hg : g ≤ c.current) :
    (c'.arena g).transport = (c.arena g).transport := by
  cases (Step.of_step h).sessions with
  | unchanged _ _ ha => rw [ha]
  | @rejected _ op _ _ _ _ _ _ ha =>
    rw [ha]
    by_cases hgo : g = op.generation
    · subst hgo
      rw [Function.update_self, record]
      split_ifs <;> rfl
    · rw [Function.update_of_ne hgo]
  | @answered _ op overrideSent _ _ _ _ _ ha =>
    rw [ha]
    by_cases hgo : g = op.generation
    · subst hgo
      rw [Function.update_self]
      cases overrideSent <;> rfl
    · rw [Function.update_of_ne hgo]
  | @installed new _ _ ha =>
    rw [ha]
    rcases install_arena_of_le c new hg with hi | hi <;> rw [hi]

/-- Every session of the client is bound, and its calls go where it is bound to. -/
structure BindingInv (lib : Libraries) (config : SessionConfig) (first : Option StaticCredentials)
    (transport : Transport) (ts : List (Transition (Client ι) (Event ι))) (c : Client ι) :
    Prop where
  bound : ∀ g ≤ c.current, Bound lib first ts (c.arena g)
  destined : ∀ g ≤ c.current, Destined config transport (c.arena g)

omit [DecidableEq ι] in
theorem bindingInv_initial {config : SessionConfig} {first : Option StaticCredentials}
    {transport : Transport} {session : Session} {now : ℕ}
    (hn : makeSession lib config first transport = .ok session) :
    BindingInv lib config first transport [] (initial opt session now : Client ι) := by
  obtain ⟨target, hallowed, hbound⟩ := bound_of_makeSession hn
  rw [makeSession_eq hn]
  refine ⟨fun g _ => ⟨target, hallowed, fun credentials hc => ?_⟩, fun g _ => .inr ⟨rfl, rfl, rfl⟩⟩
  obtain ⟨p, rfl, rfl⟩ : ∃ p, first = some p ∧ p.credentials = credentials :=
    Option.map_eq_some_iff.1 hc
  exact .provided (.inl rfl) (hbound p rfl)

omit [DecidableEq ι] in
/-- A session that an event installs is bound. -/
theorem BindingInv.bound_of_installs {config : SessionConfig} {first : Option StaticCredentials}
    {transport : Transport} {d : Client ι} (h : BindingInv lib config first transport ts d)
    (hlogins : LoginsBound lib ts d) {new : Session} (how : Installs lib d e new) :
    Bound lib first (ts ++ [⟨d, e, c'⟩]) new := by
  have hmem : (⟨d, e, c'⟩ : Transition (Client ι) (Event ι)) ∈ ts ++ [⟨d, e, c'⟩] :=
    List.mem_append_right _ (List.mem_singleton_self _)
  have hsub : ∀ t ∈ ts, t ∈ ts ++ [⟨d, e, c'⟩] := fun t ht => List.mem_append_left _ ht
  have hcurrent := h.bound d.current le_rfl
  cases how with
  | @finish i op response files outcome _ hi hs hf =>
    have hfinishes : Finishes ⟨d, .finish i files, c'⟩ op response := ⟨i, files, rfl, hi, hs⟩
    obtain ⟨target, hallowed, -⟩ := hcurrent
    cases hf with
    | @login uid id credential isNewUser hcall hm hg =>
      obtain ⟨sdk, ⟨s, hs', how⟩, rfl, hregion, horigin⟩ := hlogins i op uid hi hcall
      have hsame : d.session.config.region = sdk.region := by
        rw [hregion, ← hg]
        rfl
      have htarget : sdk.origin = target :=
        Except.ok.inj (horigin.symm.trans (by rw [← hg]; exact hallowed.1))
      refine ⟨target, hallowed, fun credentials hc => ?_⟩
      cases hc
      rw [show (Session.fresh d.session.config _ d.session.transport).config.region = sdk.region
        from hsame, ← htarget]
      exact .login hmem hfinishes hcall hm ⟨s, hsub s hs', how⟩ hregion horigin
    | @register id credential deviceId hcall hm hg =>
      refine ⟨target, hallowed, fun credentials hc => ?_⟩
      cases hc
      have hregister := @Granted.register _ lib first _ _ _ _ _ _ _ target hmem hfinishes hcall hm
        (by rw [← hg]; exact hallowed.1)
      rwa [← hg] at hregister
    | version => exact (h.bound d.current le_rfl).mono hsub rfl rfl rfl rfl
  | @imported provider _ hn =>
    obtain ⟨target, hallowed, hbound⟩ := bound_of_makeSession hn
    rw [makeSession_eq hn]
    refine ⟨target, hallowed, fun credentials hc => ?_⟩
    cases hc
    exact .provided (.inr ⟨_, hmem, .inl ⟨_, rfl⟩⟩) (hbound provider rfl)
  | @replaced config' provider transport' _ _ hn =>
    obtain ⟨target, hallowed, hbound⟩ := bound_of_makeSession hn
    rw [makeSession_eq hn]
    refine ⟨target, hallowed, fun credentials hc => ?_⟩
    obtain ⟨p, rfl, rfl⟩ : ∃ p, provider = some p ∧ p.credentials = credentials :=
      Option.map_eq_some_iff.1 hc
    exact .provided (.inr ⟨_, hmem, .inr ⟨_, rfl⟩⟩) (hbound p rfl)

omit [DecidableEq ι] in
/-- The calls of a session that an event installs go where it is bound to. -/
theorem BindingInv.destined_of_installs {config : SessionConfig} {first : Option StaticCredentials}
    {transport : Transport} {d : Client ι} (h : BindingInv lib config first transport ts d)
    {new : Session} (how : Installs lib d e new) : Destined config transport new := by
  have hcurrent := h.destined d.current le_rfl
  cases how with
  | finish _ _ hf =>
    cases hf with
    | login | register | version => exact hcurrent
  | imported hn =>
    rw [makeSession_eq hn]
    exact hcurrent
  | replaced ht hn =>
    rw [makeSession_eq hn]
    exact .inl (grpcTransport_eq ht)

/-- A session after a step was there before it, or has just been installed. -/
theorem installed_of_step (h : step lib opt c e = some c') {g : ℕ} (hg : g ≤ c'.current) :
    g ≤ c.current ∨ ∃ new, Installs lib c e new ∧ c'.arena g = new := by
  rcases Nat.lt_or_ge c.current g with hlt | hle
  · cases (Step.of_step h).sessions with
    | unchanged _ hc | rejected _ _ _ hc | answered _ _ _ hc => omega
    | @installed new how hc ha =>
      obtain rfl : g = c.current + 1 := by omega
      exact .inr ⟨new, how, by rw [ha]; simp [install]⟩
  · exact .inl hle

theorem bindingInv_of_run {config : SessionConfig} {first : Option StaticCredentials}
    {transport : Transport} (hrun : Run (step lib opt) c ts c') (hs : SlotInv c)
    (hlogins : LoginsBound lib [] c) (h : BindingInv lib config first transport [] c) :
    BindingInv lib config first transport ts c' := by
  induction hrun with
  | nil => exact h
  | @snoc ts d e d' hrun hstep ih =>
    have hsub : ∀ t ∈ ts, t ∈ ts ++ [⟨d, e, d'⟩] := fun t ht => List.mem_append_left _ ht
    refine ⟨fun g hg => ?_, fun g hg => ?_⟩
    · rcases installed_of_step hstep hg with hle | ⟨new, how, hnew⟩
      · obtain ⟨hconfig, hcredentials⟩ := identity_of_step hstep hle
        exact (ih.bound g hle).mono hsub (by rw [hconfig]) (by rw [hconfig]) (by rw [hconfig])
          hcredentials
      · rw [hnew]
        exact ih.bound_of_installs (loginsBound_of_run hrun hs hlogins) how
    · rcases installed_of_step hstep hg with hle | ⟨new, how, hnew⟩
      · have hdestined := ih.destined g hle
        unfold Destined at hdestined ⊢
        rw [transport_of_step hstep hle, (identity_of_step hstep hle).1]
        exact hdestined
      · rw [hnew]
        exact ih.destined_of_installs how

/-! ### Calls -/

/-- The headers that identify a player, and the versions of the game data. -/
def privateHeaders : List String :=
  ["x-player-id", "x-player-credential", "x-device-id", "x-master-version", "x-resource-version"]

/-- **Credentials are bound to their region and origin.**  In every run of a client: the current
session allows its origin, and its credentials were imported or issued for exactly its region and
normalised origin; a call that carries a player's credentials carries those of its session, goes
where that session's configuration says and is bound in the same way; and a call of an anonymous
method carries none of the private headers. -/
theorem credentials_bound {config : SessionConfig} {first : Option StaticCredentials}
    {transport : Transport} {now : ℕ} {start : Client ι}
    (hstart : withTransport lib opt config first transport now = .ok start)
    (hrun : Run (step lib opt) start ts c) :
    Bound lib first ts c.session ∧ Destined config transport c.session ∧
    (∀ (before after : List (Transition (Client ι) (Event ι)))
      (t : Transition (Client ι) (Event ι)) (i : ι) (op : Op), ts = before ++ t :: after →
      Calls t i op →
        (op.method.anonymous = true → ∀ key ∈ privateHeaders, op.metadata.get key = none) ∧
        (op.method.anonymous = false → ∃ credentials target,
          (t.before.arena op.generation).credentials = some credentials ∧
          op.metadata.get "x-player-id" = some credentials.playerId ∧
          op.metadata.get "x-player-credential" = some credentials.credential ∧
          op.metadata.get "x-device-id" = credentials.deviceId ∧
          (t.before.arena op.generation).config.Allowed lib target ∧
          Granted lib first before credentials (t.before.arena op.generation).config.region
            target ∧
          Destined config transport (t.before.arena op.generation) ∧
          (new lib opt config first now = .ok start →
            (t.before.arena op.generation).transport =
              ⟨(t.before.arena op.generation).config.origin,
                (t.before.arena op.generation).config.region⟩))) := by
  obtain ⟨session, hn, rfl⟩ := withTransport_ok hstart
  have hslot : SlotInv (initial opt session now : Client ι) := slotInv_initial session now
  have hheaders : HeadersInv (initial opt session now : Client ι) :=
    headersInv_initial session now
  have hlogins : LoginsBound lib [] (initial opt session now : Client ι) := by
    intro i op uid hi
    cases hi
  have hinv : BindingInv lib config first transport [] (initial opt session now : Client ι) :=
    bindingInv_initial hn
  have hlast := bindingInv_of_run hrun hslot hlogins hinv
  refine ⟨hlast.bound c.current le_rfl, hlast.destined c.current le_rfl, ?_⟩
  rintro before after t i op rfl hcall
  obtain ⟨hbefore, hstep, -⟩ := hrun.around
  have hbound := bindingInv_of_run hbefore hslot hlogins hinv
  have hpresents := headersInv_of_run (hbefore.snoc hstep) hslot hheaders i op hcall.2
  obtain ⟨op₀, hi, -, rfl, harena⟩ := called_of_calls hstep hcall
  have hle := (slotInv_of_run hbefore hslot).captured i op₀ hi
  refine ⟨fun ha key hkey => ?_, fun ha => ?_⟩
  · refine (hpresents.anonymous ha).get_eq_none ?_
    revert key
    decide
  · obtain ⟨credentials, hcred, hid, hcredential, hdevice⟩ := hpresents.credentials ha
    rw [harena] at hcred
    obtain ⟨target, hallowed, hgranted⟩ := hbound.bound _ hle
    have hdestined := hbound.destined _ hle
    refine ⟨credentials, target, hcred, hid, hcredential, hdevice, hallowed,
      hgranted credentials hcred, hdestined, fun hnew => ?_⟩
    have htransport : transport = ⟨config.origin, config.region⟩ := by
      simp only [new, Except.bind_eq_ok] at hnew
      obtain ⟨transport', ht, hwith⟩ := hnew
      obtain ⟨session', hn', heq⟩ := withTransport_ok hwith
      have hsame : session = session' := congrFun (congrArg Client.arena heq) 0
      rw [← grpcTransport_eq ht]
      rw [hsame, makeSession_eq hn'] at hn
      exact (congrArg Session.transport (makeSession_eq hn)).symm
    rcases hdestined with hd | ⟨hd, hregion, horigin⟩
    · exact hd
    · rw [called_generation, hd, hregion, horigin, htransport]

/-- After a discovery the credentials of the sample client are still those of its provider. -/
theorem credentials_bound_discovery :
    Bound sampleLibraries (some sampleProvider)
      (transitions sampleStep sampleClient discoveryEvents)
      ((exec sampleStep sampleClient discoveryEvents).get (by decide +kernel)).session := by
  have hstart : withTransport sampleLibraries sampleOptions sampleConfig (some sampleProvider)
      sampleTransport 0 = .ok sampleClient := rfl
  exact (credentials_bound hstart (run_get discoveryEvents (by decide +kernel))).1

end Client

end MoenotesApi
