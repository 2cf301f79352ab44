import MoenotesApi.Client.Machine

/-!
# What one event does to the client

`Client.Step lib opt c e c'` lists the ways in which an event can happen, one constructor for each
branch of the source, with the guards of that branch.  `Step.of_step` is the inversion lemma of
`Client.step`; every later argument about a step is a case analysis on it.
-/

namespace MoenotesApi.Client

variable {ι : Type} {lib : Libraries} {opt : ClientOptions} {c c' : Client ι}

theorem withTransport_ok {config : SessionConfig} {provider : Option StaticCredentials}
    {transport : Transport} {now : ℕ}
    (h : withTransport lib opt config provider transport now = .ok c) :
    ∃ session, makeSession lib config provider transport = .ok session ∧
      c = initial opt session now := by
  simp only [withTransport, Except.bind_eq_ok, Except.pure_eq_ok] at h
  obtain ⟨session, hn, h⟩ := h
  exact ⟨session, hn, h.symm⟩

theorem importCredentials_ok {g : ℕ} {provider : StaticCredentials}
    (h : importCredentials lib c g provider = .ok c') :
    c.current = g ∧ ∃ new,
      makeSession lib c.session.config (some provider) c.session.transport = .ok new ∧
        c' = c.install new := by
  simp only [importCredentials, Except.bind_eq_ok, Except.refuse_eq_ok, Except.pure_eq_ok,
    not_not] at h
  obtain ⟨-, hg, new, hn, h⟩ := h
  exact ⟨hg, new, hn, h.symm⟩

theorem replaceSession_ok {config : SessionConfig} {provider : Option StaticCredentials}
    (h : replaceSession lib c config provider = .ok c') :
    ∃ transport new, grpcTransport lib config = .ok transport ∧
      makeSession lib config provider transport = .ok new ∧ c' = c.install new := by
  simp only [replaceSession, Except.bind_eq_ok, Except.pure_eq_ok] at h
  obtain ⟨transport, ht, new, hn, h⟩ := h
  exact ⟨transport, new, ht, hn, h.symm⟩

theorem running_eq_some {i : ι} {op : Op} :
    c.running i = some op ↔ c.ops i = some (.running op) := by
  unfold running
  split
  · next h => simp [h]
  · next h => exact ⟨nofun, fun ho => absurd ho (h op)⟩

/-- What `prepare` makes of a request: the operation and the checks that it has passed. -/
inductive Prepares (lib : Libraries) (c : Client ι) (requestId : String) : Request → Op → Prop
  | execute {query method metadata} (hv : query.valid = true)
      (hc : query.method.anonymous = false → c.session.credentials ≠ none)
      (hm : query.methodForRegion c.session.config.region = .ok method)
      (hd : c.session.config.metadata lib c.session.credentials requestId method.anonymous =
        .ok metadata) :
      Prepares lib c requestId (.execute c.current query)
        ⟨c.current, method, metadata, .query, false, .prepared⟩
  | selfData {metadata} (hr : c.session.config.region = "jp")
      (hc : c.session.credentials ≠ none)
      (hd : c.session.config.metadata lib c.session.credentials requestId false = .ok metadata) :
      Prepares lib c requestId (.selfData c.current)
        ⟨c.current, selfDataMethod, metadata, .selfData, false, .prepared⟩
  | preLogin {sdk context metadata}
      (hd : buildRequest lib c.session.config sdk context preLoginMethod requestId =
        .ok metadata) :
      Prepares lib c requestId (.preLogin c.current sdk context)
        ⟨c.current, preLoginMethod, metadata, .preLogin, false, .prepared⟩
  | login {sdk context metadata}
      (hd : buildRequest lib c.session.config sdk context loginMethod requestId = .ok metadata) :
      Prepares lib c requestId (.login c.current sdk context)
        ⟨c.current, loginMethod, metadata, .login sdk.callback.uid, false, .prepared⟩
  | register {metadata} (hr : c.session.config.region = "jp")
      (hc : c.session.credentials = none)
      (hd : c.session.config.metadata lib none requestId true = .ok metadata) :
      Prepares lib c requestId (.register c.current true)
        ⟨c.current, registerMethod, metadata, .register, false, .prepared⟩
  | version {candidate presented method metadata}
      (hv : ∀ v, candidate = some v → (patchVersion v).isSome = true)
      (hp : presented = { c.session.config with
        clientVersion := candidate.getD c.session.config.clientVersion })
      (hm : versionQuery.methodForRegion presented.region = .ok method)
      (hd : presented.metadata lib none requestId true = .ok metadata) :
      Prepares lib c requestId (.version c.current candidate)
        ⟨c.current, method, metadata, .version presented, false, .prepared⟩

theorem Prepares.of_prepare {requestId : String} {request : Request} {op : Op}
    (h : prepare lib c requestId request = .ok op) : Prepares lib c requestId request op := by
  simp only [prepare, Except.bind_eq_ok, Except.refuse_eq_ok, not_not] at h
  obtain ⟨_, hcheck, -, hg, h⟩ := h
  cases request with
  | execute g query =>
    obtain rfl : g = c.current := hg
    have hv : ¬ query.valid = false := by simpa [checkRequest, Query.validate] using hcheck
    simp only [Except.bind_eq_ok, Except.refuse_eq_ok, Except.pure_eq_ok] at h
    obtain ⟨-, hc, method, hm, metadata, hd, rfl⟩ := h
    exact .execute (by simpa using hv) (by simpa using hc) hm hd
  | selfData g =>
    obtain rfl : g = c.current := hg
    simp only [Except.bind_eq_ok, Except.refuse_eq_ok, Except.pure_eq_ok, not_or, not_not] at h
    obtain ⟨-, ⟨hr, hc⟩, metadata, hd, rfl⟩ := h
    exact .selfData hr hc hd
  | preLogin g sdk context =>
    obtain rfl : g = c.current := hg
    simp only [Except.bind_eq_ok, Except.pure_eq_ok] at h
    obtain ⟨metadata, hd, rfl⟩ := h
    exact .preLogin hd
  | login g sdk context =>
    obtain rfl : g = c.current := hg
    simp only [Except.bind_eq_ok, Except.pure_eq_ok] at h
    obtain ⟨metadata, hd, rfl⟩ := h
    exact .login hd
  | register g outputsFree =>
    obtain rfl : g = c.current := hg
    simp only [Except.bind_eq_ok, Except.refuse_eq_ok, Except.pure_eq_ok, not_or, not_not] at h
    obtain ⟨-, ⟨hr, hc⟩, -, hfree, metadata, hd, rfl⟩ := h
    obtain rfl : outputsFree = true := by simpa using hfree
    exact .register hr (by simpa using hc) hd
  | version g candidate =>
    obtain rfl : g = c.current := hg
    simp only [Except.bind_eq_ok, Except.pure_eq_ok] at h
    obtain ⟨method, hm, metadata, hd, rfl⟩ := h
    have hv : ∀ v, candidate = some v → (patchVersion v).isSome = true := by
      rintro v rfl
      simpa [checkRequest, Option.isSome_iff_ne_none] using hcheck
    exact .version hv rfl hm hd

/-- A new operation has captured the current session. -/
theorem Prepares.generation {requestId : String} {request : Request} {op : Op}
    (h : Prepares lib c requestId request op) : op.generation = c.current := by
  cases h <;> rfl

theorem Prepares.stage {requestId : String} {request : Request} {op : Op}
    (h : Prepares lib c requestId request op) : op.stage = .prepared := by
  cases h <;> rfl

/-- A protected operation has captured a session with credentials. -/
theorem Prepares.credentials {requestId : String} {request : Request} {op : Op}
    (h : Prepares lib c requestId request op) (ha : op.method.anonymous = false) :
    c.session.credentials ≠ none := by
  cases h with
  | execute _ hc hm _ => exact hc (by rw [← Query.anonymous_of_methodForRegion hm]; exact ha)
  | selfData _ hc _ => exact hc
  | preLogin => cases ha
  | login => cases ha
  | register => cases ha
  | version _ _ hm _ =>
    rw [Query.anonymous_of_methodForRegion hm] at ha
    cases ha

/-- What the closure of an operation returns when it succeeds, and the session it installs. -/
inductive Concludes (lib : Libraries) (c : Client ι) (op : Op) (response : TransportResponse)
    (files : RegisterFiles) : Outcome → Option Session → Prop
  | query (hcall : op.call = .query) :
      Concludes lib c op response files (.response response.message op.generation) none
  | selfData (hcall : op.call = .selfData) :
      Concludes lib c op response files (.selfData response.message) none
  | preLogin {created} (hcall : op.call = .preLogin)
      (hm : response.message = .preLogin created) :
      Concludes lib c op response files (.roleExists created) none
  | login {uid id credential isNewUser} (hcall : op.call = .login uid)
      (hm : response.message = .login (some (id, credential)) isNewUser)
      (hg : c.current = op.generation) (hcancel : op.cancelled = false) :
      Concludes lib c op response files (.receipt (c.current + 1) isNewUser)
        (some (.fresh c.session.config (some (loginCredentials uid id credential))
          c.session.transport))
  | register {id credential deviceId} (hcall : op.call = .register)
      (hm : response.message = .register id credential deviceId)
      (hg : c.current = op.generation) :
      Concludes lib c op response files .registered
        (some (.registered c.session.config (registerCredentials id credential deviceId)
          c.session.transport))
  | versionKept {presented master answered} (hcall : op.call = .version presented)
      (hm : response.message = .version master answered)
      (hg : c.current = op.generation)
      (hsame : SameVersions c.session presented master
        (answeredResource lib c op presented response answered)) :
      Concludes lib c op response files (.versions false) none
  | version {presented master answered} (hcall : op.call = .version presented)
      (hm : response.message = .version master answered)
      (hv : validAnswer c op master answered = true)
      (hg : c.current = op.generation) (hcancel : op.cancelled = false)
      (hnew : ¬ SameVersions c.session presented master
        (answeredResource lib c op presented response answered)) :
      Concludes lib c op response files (.versions true)
        (some (discovered c.session presented master
          (answeredResource lib c op presented response answered)))

theorem Concludes.of_conclude {op : Op} {response : TransportResponse} {files : RegisterFiles}
    {outcome : Outcome} {new : Option Session}
    (h : conclude lib c op response files = .ok (outcome, new)) :
    Concludes lib c op response files outcome new := by
  cases hcall : op.call <;> simp only [conclude, hcall] at h
  case query => cases h; exact .query hcall
  case selfData => cases h; exact .selfData hcall
  case preLogin =>
    split at h
    · next hm => cases h; exact .preLogin hcall hm
    · cases h
  case login uid =>
    unfold finishLogin at h
    split at h
    · next hm =>
      simp only at h
      split at h
      · cases h
      · split_ifs at h with hg hcancel
        cases h
        rw [← not_not.1 hg]
        exact .login hcall hm (not_not.1 hg) (by simpa using hcancel)
    · cases h
  case register =>
    unfold finishRegister at h
    split at h
    · cases h
    split at h
    · next hm =>
      simp only at h
      split at h
      · cases h
      · split_ifs at h with hfile hg
        cases h
        rw [← not_not.1 hg]
        exact .register hcall hm (not_not.1 hg)
    · cases h
  case version presented =>
    unfold finishVersion at h
    split at h
    · next hm =>
      simp only at h
      split_ifs at h with hv hg hcancel hsame
      · cases h; exact .versionKept hcall hm (not_not.1 hg) hsame
      · cases h
        exact .version hcall hm (by simpa using hv) (not_not.1 hg) (by simpa using hcancel) hsame
    · cases h

variable [DecidableEq ι]

/-- `c.step e` can lead to `c'`, by the named branch. -/
inductive Step (lib : Libraries) (opt : ClientOptions) : Client ι → Event ι → Client ι → Prop
  | submitError {c i request requestId e} (hi : c.ops i = none)
      (hp : prepare lib c requestId request = .error e) :
      Step lib opt c (.submit i request requestId) (c.setOp i (.done (.error e)))
  | submit {c i request requestId op} (hi : c.ops i = none)
      (hp : Prepares lib c requestId request op) :
      Step lib opt c (.submit i request requestId) (c.setOp i (.running op))
  | acquireFull {c i op} (hi : c.ops i = some (.running op)) (hs : op.stage = .prepared)
      (ha : c.available = 0) :
      Step lib opt c (.acquire i) (c.setOp i (.done (.error (.new .queueFull))))
  | acquire {c i op} (hi : c.ops i = some (.running op)) (hs : op.stage = .prepared)
      (ha : c.available ≠ 0) :
      Step lib opt c (.acquire i) { c.setOp i (.running { op with stage := .queued }) with
        available := c.available - 1 }
  | enterRefused {c i op kind} (hi : c.ops i = some (.running op)) (hs : op.stage = .queued)
      (hserial : c.serial = none) (hg : gate (c.arena op.generation) op.method = some kind) :
      Step lib opt c (.enter i) (c.complete i (.error (.new kind)))
  | enter {c i op} (hi : c.ops i = some (.running op)) (hs : op.stage = .queued)
      (hserial : c.serial = none) (hg : gate (c.arena op.generation) op.method = none) :
      Step lib opt c (.enter i) { c.setOp i (.running { op with stage := .slot }) with
        serial := some i }
  | start {c i op} (hi : c.ops i = some (.running op)) (hs : op.stage = .slot)
      (ht : c.next ≤ c.now) :
      Step lib opt c (.start i) { c.setOp i (.running (called (c.arena op.generation) op)) with
        next := c.now + opt.minimumInterval }
  | answerError {c i op overrideSent e} (hi : c.ops i = some (.running op))
      (hs : op.stage = .calling overrideSent) :
      Step lib opt c (.answer i (.error e))
        ((c.setSession op.generation (record (c.arena op.generation) op.method e)).complete i
          (.error e))
  | answer {c i op overrideSent response} (hi : c.ops i = some (.running op))
      (hs : op.stage = .calling overrideSent) :
      Step lib opt c (.answer i (.ok response))
        ((c.setSession op.generation (clearOverride (c.arena op.generation) overrideSent)).setOp i
          (.running { op with stage := .answered response }))
  | checkFailed {c i op response kind} (hi : c.ops i = some (.running op))
      (hs : op.stage = .answered response) (hr : refusal c op response = some kind) :
      Step lib opt c (.check i) (c.complete i (.error (.new kind)))
  | check {c i op response} (hi : c.ops i = some (.running op))
      (hs : op.stage = .answered response) (hr : refusal c op response = none) :
      Step lib opt c (.check i) (c.setOp i (.running { op with stage := .checked response }))
  | finishError {c i op response files e} (hi : c.ops i = some (.running op))
      (hs : op.stage = .checked response) (hf : conclude lib c op response files = .error e) :
      Step lib opt c (.finish i files) (c.complete i (.error e))
  | finishKeep {c i op response files outcome} (hi : c.ops i = some (.running op))
      (hs : op.stage = .checked response)
      (hf : Concludes lib c op response files outcome none) :
      Step lib opt c (.finish i files) (c.complete i (.ok outcome))
  | finishInstall {c i op response files outcome new} (hi : c.ops i = some (.running op))
      (hs : op.stage = .checked response)
      (hf : Concludes lib c op response files outcome (some new)) :
      Step lib opt c (.finish i files) ((c.install new).complete i (.ok outcome))
  | abort {c i op kind} (hi : c.ops i = some (.running op)) (hs : op.stage.awaits = true)
      (hk : (kind = .cancelled ∧ op.cancelled = true) ∨
        (kind = .sessionChanged ∧ (c.arena op.generation).cancelled = true) ∨ kind = .timeout) :
      Step lib opt c (.abort i kind) (c.complete i (.error (.new kind)))
  | drop {c i op} (hi : c.ops i = some (.running op)) (hs : op.stage.awaits = true) :
      Step lib opt c (.drop i) { c.release i with ops := Function.update c.ops i none }
  | cancel {c i op} (hi : c.ops i = some (.running op)) :
      Step lib opt c (.cancel i) (c.setOp i (.running { op with cancelled := true }))
  | take {c i result} (hi : c.ops i = some (.done result)) :
      Step lib opt c (.take i) { c with ops := Function.update c.ops i none }
  | importRefused {c g provider} : Step lib opt c (.importCredentials g provider) c
  | imported {c g provider new} (hg : c.current = g)
      (hn : makeSession lib c.session.config (some provider) c.session.transport = .ok new) :
      Step lib opt c (.importCredentials g provider) (c.install new)
  | replaceRefused {c config provider} : Step lib opt c (.replaceSession config provider) c
  | replaced {c config provider transport new} (ht : grpcTransport lib config = .ok transport)
      (hn : makeSession lib config provider transport = .ok new) :
      Step lib opt c (.replaceSession config provider) (c.install new)
  | advance {c duration} :
      Step lib opt c (.advance duration) { c with now := c.now + duration }

/-- An event of an operation under way. -/
theorem Step.of_stepOp {i : ι} {op : Op} {e : Event ι} (hi : c.ops i = some (.running op))
    (he : e.op = some i) (h : stepOp lib opt c i op e = some c') : Step lib opt c e c' := by
  cases e <;> simp only [Event.op, Option.some.injEq, reduceCtorEq] at he <;> subst he <;>
    simp only [stepOp] at h
  case acquire =>
    split at h
    · next hs =>
      split_ifs at h with ha <;> obtain rfl := Option.some.inj h
      · exact .acquireFull hi hs ha
      · exact .acquire hi hs ha
    · cases h
  case enter =>
    split at h
    · next hs =>
      split_ifs at h with hserial
      split at h <;> obtain rfl := Option.some.inj h
      · next hg => exact .enterRefused hi hs hserial hg
      · next hg => exact .enter hi hs hserial hg
    · cases h
  case start =>
    split at h
    · next hs =>
      split_ifs at h with ht
      obtain rfl := Option.some.inj h
      exact .start hi hs ht
    · cases h
  case answer =>
    split at h
    · next hs =>
      split at h <;> obtain rfl := Option.some.inj h
      · exact .answerError hi hs
      · exact .answer hi hs
    · cases h
  case check =>
    split at h
    · next hs =>
      split at h <;> obtain rfl := Option.some.inj h
      · next hr => exact .checkFailed hi hs hr
      · next hr => exact .check hi hs hr
    · cases h
  case finish =>
    split at h
    · next hs =>
      split at h <;> obtain rfl := Option.some.inj h
      · next hf => exact .finishError hi hs hf
      · next hf => exact .finishKeep hi hs (.of_conclude hf)
      · next hf => exact .finishInstall hi hs (.of_conclude hf)
    · cases h
  case abort =>
    split_ifs at h with ha
    obtain rfl := Option.some.inj h
    exact .abort hi ha.1 ha.2
  case drop =>
    split_ifs at h with ha
    obtain rfl := Option.some.inj h
    exact .drop hi ha
  case cancel =>
    obtain rfl := Option.some.inj h
    exact .cancel hi

/-- **Inversion of the step function.** -/
theorem Step.of_step {e : Event ι} (h : step lib opt c e = some c') : Step lib opt c e c' := by
  unfold step at h
  split at h
  · split at h
    · cases h
    · next hi =>
      split at h <;> obtain rfl := Option.some.inj h
      · next hp => exact .submitError hi hp
      · next hp => exact .submit hi (.of_prepare hp)
  · split at h
    · next hi =>
      obtain rfl := Option.some.inj h
      exact .take hi
    · cases h
  · split at h <;> obtain rfl := Option.some.inj h
    · exact .importRefused
    · next hc =>
      obtain ⟨hg, new, hn, rfl⟩ := importCredentials_ok hc
      exact .imported hg hn
  · split at h <;> obtain rfl := Option.some.inj h
    · exact .replaceRefused
    · next hc =>
      obtain ⟨transport, new, ht, hn, rfl⟩ := replaceSession_ok hc
      exact .replaced ht hn
  · obtain rfl := Option.some.inj h
    exact .advance
  · split at h
    · cases h
    · next he =>
      split at h
      · cases h
      · next hi => exact .of_stepOp (running_eq_some.1 hi) he h

/-- An operation that is taken is gone. -/
theorem ops_of_take {i : ι} (h : step lib opt c (.take i) = some c') :
    c'.ops = Function.update c.ops i none := by
  cases Step.of_step h with
  | take => rfl

/-- An operation that is dropped is gone. -/
theorem ops_of_drop {i : ι} (h : step lib opt c (.drop i) = some c') :
    c'.ops = Function.update c.ops i none := by
  cases Step.of_step h with
  | drop => rfl

/-- What the operation `i` keeps through the event `e`. -/
structure Follows (e : Event ι) (i : ι) (op op' : Op) : Prop where
  generation : op'.generation = op.generation
  method : op'.method = op.method
  call : op'.call = op.call
  metadata : op'.metadata = op.metadata ∨
    op'.metadata = op.metadata.put "x-override-device-id" "1"
  response : ∀ response, op'.stage.response = some response →
    op.stage.response = some response ∨ e = .answer i (.ok response)

omit [DecidableEq ι] in
theorem Follows.refl (e : Event ι) (i : ι) (op : Op) : Follows e i op op :=
  ⟨rfl, rfl, rfl, .inl rfl, fun _ => .inl⟩

omit [DecidableEq ι] in
theorem Follows.of_called (e : Event ι) (i : ι) (op : Op) (s : Session) :
    Follows e i op (called s op) := by
  refine ⟨rfl, rfl, rfl, ?_, nofun⟩
  unfold called
  split_ifs
  · exact .inr rfl
  · exact .inl rfl

/-- An operation under way after an event was under way before it, or has just been submitted. -/
theorem Step.running {e : Event ι} (h : Step lib opt c e c') {i : ι} {op' : Op}
    (hi : c'.ops i = some (.running op')) :
    (∃ op, c.ops i = some (.running op) ∧ Follows e i op op') ∨
    ∃ request requestId, e = .submit i request requestId ∧ c.ops i = none ∧
      Prepares lib c requestId request op' := by
  cases h with
  | @submit j request requestId op hj hp =>
    by_cases hij : i = j
    · subst hij
      obtain rfl : op = op' := by simpa using hi
      exact .inr ⟨request, requestId, rfl, hj, hp⟩
    · exact .inl ⟨op', by simpa [hij] using hi, .refl _ _ _⟩
  | imported | replaced | importRefused | replaceRefused | advance =>
    exact .inl ⟨op', hi, .refl _ _ _⟩
  | @acquire j op hj | @enter j op hj | @cancel j op hj =>
    by_cases hij : i = j
    · subst hij
      obtain rfl : _ = op' := by simpa using hi
      exact .inl ⟨op, hj, rfl, rfl, rfl, .inl rfl, by simp [Stage.response]⟩
    · exact .inl ⟨op', by simpa [hij] using hi, .refl _ _ _⟩
  | @answer j op _ response hj =>
    by_cases hij : i = j
    · subst hij
      obtain rfl : _ = op' := by simpa using hi
      refine .inl ⟨op, hj, rfl, rfl, rfl, .inl rfl, fun r hr => .inr ?_⟩
      obtain rfl : response = r := by simpa [Stage.response] using hr
      rfl
    · exact .inl ⟨op', by simpa [hij] using hi, .refl _ _ _⟩
  | @check j op response hj hs =>
    by_cases hij : i = j
    · subst hij
      obtain rfl : _ = op' := by simpa using hi
      refine .inl ⟨op, hj, rfl, rfl, rfl, .inl rfl, fun r hr => .inl ?_⟩
      simpa [Stage.response, hs] using hr
    · exact .inl ⟨op', by simpa [hij] using hi, .refl _ _ _⟩
  | @start j op hj =>
    by_cases hij : i = j
    · subst hij
      obtain rfl : _ = op' := by simpa using hi
      exact .inl ⟨op, hj, .of_called _ _ _ _⟩
    · exact .inl ⟨op', by simpa [hij] using hi, .refl _ _ _⟩
  | @submitError j | @acquireFull j | @enterRefused j | @answerError j | @checkFailed j
  | @finishError j | @finishKeep j | @finishInstall j | @abort j | @drop j | @take j =>
    -- `j` is over, so `i` is another operation
    have hij : i ≠ j := by
      rintro rfl
      simp at hi
    exact .inl ⟨op', by simpa [hij] using hi, .refl _ _ _⟩

/-- An operation that does not exist comes into being by its submission only. -/
theorem Step.ops_none {e : Event ι} (h : Step lib opt c e c') {i : ι} (hi : c.ops i = none)
    (he : ∀ request requestId, e ≠ .submit i request requestId) : c'.ops i = none := by
  cases h with
  | @submit j request requestId | @submitError j request requestId =>
    have hij : i ≠ j := by
      rintro rfl
      exact he request requestId rfl
    simpa [hij] using hi
  | imported | replaced | importRefused | replaceRefused | advance => exact hi
  | @acquire j _ hj | @enter j _ hj | @cancel j _ hj | @answer j _ _ _ hj | @check j _ _ hj
  | @start j _ hj | @acquireFull j _ hj | @enterRefused j _ _ hj | @answerError j _ _ _ hj
  | @checkFailed j _ _ _ hj | @finishError j _ _ _ _ hj | @finishKeep j _ _ _ _ hj
  | @finishInstall j _ _ _ _ _ hj | @abort j _ _ hj | @drop j _ hj | @take j _ hj =>
    have hij : i ≠ j := by
      rintro rfl
      rw [hi] at hj
      cases hj
    simpa [hij] using hi

/-- An operation whose transport has been called does not call it again. -/
theorem Step.unsent {e : Event ι} (h : Step lib opt c e c') {i : ι} {op' : Op}
    (hi : c'.ops i = some (.running op')) (hs : op'.stage.unsent = true) :
    (∃ op, c.ops i = some (.running op) ∧ op.stage.unsent = true ∧ e ≠ .start i) ∨
      ∃ request requestId, e = .submit i request requestId := by
  cases h with
  | @submit j request requestId op hj hp =>
    by_cases hij : i = j
    · subst hij
      exact .inr ⟨request, requestId, rfl⟩
    · exact .inl ⟨op', by simpa [hij] using hi, hs, by simp⟩
  | imported | replaced | importRefused | replaceRefused | advance =>
    exact .inl ⟨op', hi, hs, by simp⟩
  | @acquire j op hj hstage | @enter j op hj hstage =>
    by_cases hij : i = j
    · subst hij
      exact .inl ⟨op, hj, by rw [hstage]; rfl, by simp⟩
    · exact .inl ⟨op', by simpa [hij] using hi, hs, by simp⟩
  | @cancel j op hj =>
    by_cases hij : i = j
    · subst hij
      obtain rfl : _ = op' := by simpa using hi
      exact .inl ⟨op, hj, hs, by simp⟩
    · exact .inl ⟨op', by simpa [hij] using hi, hs, by simp⟩
  | @start j | @answer j | @check j =>
    have hij : i ≠ j := by
      rintro rfl
      obtain rfl : _ = op' := by simpa using hi
      cases hs
    exact .inl ⟨op', by simpa [hij] using hi, hs, by simp [hij.symm]⟩
  | @submitError j | @acquireFull j | @enterRefused j | @answerError j | @checkFailed j
  | @finishError j | @finishKeep j | @finishInstall j | @abort j | @drop j | @take j =>
    have hij : i ≠ j := by
      rintro rfl
      simp at hi
    exact .inl ⟨op', by simpa [hij] using hi, hs, by simp⟩

end MoenotesApi.Client
