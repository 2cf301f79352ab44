import MoenotesApi.Client.Override

/-!
# Version calls

One operation of `discover_versions` presents one client version, calls the transport at most once
and ends with at most one answer.  Its error carries a business code only if that was the answer.

* `plain_of_prepare`, `plain_of_conclude`: the client's own errors have no business code;
* `asks`, `answers`: the version that an event presents in a call, and the answer it brings;
* `Inquiry`: how far an operation that presents a version has come, with the calls and answers that
  it has made so far;
* `Discovery`, `arena_of_discovery`: such an operation changes no session, but may install one that
  differs in the versions only.
-/

namespace MoenotesApi

/-! ### Errors without a business code -/

/-- The client has made the error itself: it has no business code. -/
def ClientError.Plain (error : ClientError) : Prop := error.effectiveCode = none

theorem ClientError.plain_new (kind : ErrorKind) : (new kind).Plain := rfl

theorem ClientError.Plain.not_clientUpdateRequired {error : ClientError} (h : error.Plain) :
    error.clientUpdateRequired = false := by
  unfold ClientError.Plain at h
  simp [ClientError.clientUpdateRequired, h]

open ClientError

variable {lib : Libraries}

theorem plain_origin (value : String) : (origin lib value).Errors Plain := by
  unfold origin
  split
  · exact Except.errors_error.2 (plain_new _)
  · exact .ite (Except.errors_error.2 (plain_new _)) Except.errors_ok

theorem plain_insertHeader (map : Metadata) (key value : String) :
    (insertHeader lib map key value).Errors Plain :=
  .ite Except.errors_ok (Except.errors_error.2 (plain_new _))

theorem plain_insertOptional (map : Metadata) (key : String) (value : Option String) :
    (insertOptional lib map key value).Errors Plain := by
  cases value with
  | none => exact Except.errors_ok
  | some v => exact plain_insertHeader _ _ _

theorem plain_metadata (config : SessionConfig) (credentials : Option Credentials)
    (requestId : String) (anonymous : Bool) :
    (config.metadata lib credentials requestId anonymous).Errors Plain := by
  by_cases hjp : config.region = "jp" <;>
    simp only [SessionConfig.metadata, hjp, if_true, if_false] <;>
    refine (plain_insertHeader _ _ _).bind fun _ => (plain_insertHeader _ _ _).bind fun _ =>
      (plain_insertHeader _ _ _).bind fun _ => ?_ <;>
    split
  · exact (Except.errors_refuse.2 fun _ => plain_new _).bind fun _ =>
      (plain_insertHeader _ _ _).bind fun _ =>
      (Except.errors_refuse.2 fun _ => plain_new _).bind fun _ =>
      (plain_insertHeader _ _ _).bind fun _ => (plain_insertOptional _ _ _).bind fun _ =>
      Except.errors_pure.bind fun _ => (plain_insertOptional _ _ _).bind fun _ => Except.errors_pure
  · exact Except.errors_pure
  · exact (Except.errors_refuse.2 fun _ => plain_new _).bind fun _ =>
      (plain_insertHeader _ _ _).bind fun _ =>
      (Except.errors_refuse.2 fun _ => plain_new _).bind fun _ =>
      (plain_insertHeader _ _ _).bind fun _ => (plain_insertOptional _ _ _).bind fun _ =>
      (plain_insertOptional _ _ _).bind fun _ => (plain_insertOptional _ _ _).bind fun _ =>
      plain_insertOptional _ _ _
  · exact Except.errors_pure

theorem plain_methodForRegion (query : Query) (region : String) :
    (query.methodForRegion region).Errors Plain := by
  unfold Query.methodForRegion
  split_ifs
  · split
    · exact Except.errors_error.2 (plain_new _)
    · exact Except.errors_ok
    · exact Except.errors_ok
  · exact Except.errors_ok

theorem plain_buildRequest (config : SessionConfig) (sdk : SdkAuthorization)
    (context : AndroidLoginContext) (method : Method) (requestId : String) :
    (buildRequest lib config sdk context method requestId).Errors Plain := by
  unfold buildRequest SdkAuthorization.checkBinding
  exact ((Except.errors_refuse.2 fun _ => plain_new _).bind fun _ => (plain_origin _).bind fun _ =>
      Except.errors_refuse.2 fun _ => plain_new _).bind fun _ =>
    (Except.errors_refuse.2 fun _ => plain_new _).bind fun _ => (plain_metadata _ _ _ _).bind fun _ =>
    (Except.errors_refuse.2 fun _ => plain_new _).bind fun _ => Except.errors_pure

namespace Client

variable {ι : Type} {opt : ClientOptions} {c c' : Client ι} {e : Event ι}

theorem plain_checkRequest (request : Request) : (checkRequest request).Errors Plain := by
  cases request with
  | execute | version => exact Except.errors_refuse.2 fun _ => plain_new _
  | _ => exact Except.errors_ok

/-- An operation that is refused before it is admitted is refused by the client. -/
theorem plain_of_prepare (requestId : String) (request : Request) :
    (prepare lib c requestId request).Errors Plain := by
  unfold prepare
  refine (plain_checkRequest request).bind fun _ =>
    (Except.errors_refuse.2 fun _ => plain_new _).bind fun _ => ?_
  cases request with
  | execute g query =>
    exact (Except.errors_refuse.2 fun _ => plain_new _).bind fun _ =>
      (plain_methodForRegion _ _).bind fun _ => (plain_metadata _ _ _ _).bind fun _ =>
      Except.errors_pure
  | selfData g =>
    exact (Except.errors_refuse.2 fun _ => plain_new _).bind fun _ =>
      (plain_metadata _ _ _ _).bind fun _ => Except.errors_pure
  | preLogin g sdk context | login g sdk context =>
    exact (plain_buildRequest _ _ _ _ _).bind fun _ => Except.errors_pure
  | register g outputsFree =>
    exact (Except.errors_refuse.2 fun _ => plain_new _).bind fun _ =>
      (Except.errors_refuse.2 fun _ => plain_new _).bind fun _ =>
      (plain_metadata _ _ _ _).bind fun _ => Except.errors_pure
  | version g candidate =>
    exact (plain_methodForRegion _ _).bind fun _ => (plain_metadata _ _ _ _).bind fun _ =>
      Except.errors_pure

/-- An answer that the closure refuses is refused by the client. -/
theorem plain_of_conclude (op : Op) (response : TransportResponse) (files : RegisterFiles) :
    (conclude lib c op response files).Errors Plain := by
  have hnew : ∀ kind, (Except.error (.new kind) :
      Except ClientError (Outcome × Option Session)).Errors Plain :=
    fun kind => Except.errors_error.2 (plain_new kind)
  cases hcall : op.call <;> simp only [conclude, hcall]
  case query | selfData => exact Except.errors_ok
  case preLogin =>
    split
    · exact Except.errors_ok
    · exact hnew _
  case login uid =>
    unfold finishLogin
    split
    · simp only
      split
      · exact hnew _
      · exact .ite (hnew _) (.ite (hnew _) Except.errors_ok)
    · exact hnew _
  case register =>
    unfold finishRegister
    refine .ite (hnew _) ?_
    split
    · simp only
      split
      · next e he => exact Except.errors_error.2 (plain_metadata _ _ _ _ e he)
      · exact .ite (hnew _) (.ite (hnew _) Except.errors_ok)
    · exact hnew _
  case version presented =>
    unfold finishVersion
    split
    · exact .ite (hnew _) (.ite (hnew _) (.ite (hnew _) (.ite Except.errors_ok Except.errors_ok)))
    · exact hnew _

/-! ### Calls and answers -/

/-- The client version that the operation `i` presents, if it is a version discovery. -/
def presented (c : Client ι) (i : ι) : Option String :=
  (c.running i).bind fun op =>
    match op.call with
    | .version presented => some presented.clientVersion
    | _ => none

variable [DecidableEq ι]

/-- The client version that the event presents to the game, in a Version call of `i`. -/
def asks (i : ι) (c : Client ι) : Event ι → List String
  | .start j => if j = i then (c.presented i).toList else []
  | _ => []

/-- A client version that was presented, and the answer to it. -/
abbrev Answer := String × Except ClientError TransportResponse

/-- The answer that the event brings, to a Version call of `i`. -/
def answers (i : ι) (c : Client ι) : Event ι → List Answer
  | .answer j result => if j = i then (c.presented i).toList.map fun v => (v, result) else []
  | _ => []

/-- How far the operation `i` has come, which presents the version `v`: `asked` and `answered` are
the calls and answers so far, `before` those of earlier operations. -/
inductive Inquiry (c : Client ι) (i : ι) (before : List Answer) (v : String) :
    List String → List Answer → Prop
  | waiting {op presented} (hi : c.ops i = some (.running op)) (hcall : op.call = .version presented)
      (hv : presented.clientVersion = v) (hs : op.stage.uncalled = true) :
      Inquiry c i before v (before.map Prod.fst) before
  | calling {op presented b} (hi : c.ops i = some (.running op))
      (hcall : op.call = .version presented) (hv : presented.clientVersion = v)
      (hs : op.stage = .calling b) :
      Inquiry c i before v (before.map Prod.fst ++ [v]) before
  | answered {op presented response} (hi : c.ops i = some (.running op))
      (hcall : op.call = .version presented) (hv : presented.clientVersion = v)
      (hs : op.stage.response = some response) :
      Inquiry c i before v (before.map Prod.fst ++ [v]) (before ++ [(v, .ok response)])
  | refused {error} (hi : c.ops i = some (.done (.error error))) :
      Inquiry c i before v (before.map Prod.fst ++ [v]) (before ++ [(v, .error error)])
  | ended {result asked answered} (hi : c.ops i = some (.done result))
      (hplain : ∀ error, result = .error error → error.Plain)
      (hasked : asked <+: before.map Prod.fst ++ [v]) : Inquiry c i before v asked answered

variable {i : ι} {before answered : List Answer} {v : String} {asked : List String}

omit [DecidableEq ι] in
theorem Inquiry.congr (h : Inquiry c i before v asked answered) (hops : c'.ops i = c.ops i) :
    Inquiry c' i before v asked answered := by
  cases h with
  | waiting hi hcall hv hs => exact .waiting (hops.trans hi) hcall hv hs
  | calling hi hcall hv hs => exact .calling (hops.trans hi) hcall hv hs
  | answered hi hcall hv hs => exact .answered (hops.trans hi) hcall hv hs
  | refused hi => exact .refused (hops.trans hi)
  | ended hi hplain hasked => exact .ended (hops.trans hi) hplain hasked

omit [DecidableEq ι] in
theorem presented_of_running {op : Op} {presented : SessionConfig}
    (hi : c.ops i = some (.running op)) (hcall : op.call = .version presented) :
    c.presented i = some presented.clientVersion := by
  simp [Client.presented, running_eq_some.2 hi, hcall]

omit [DecidableEq ι] in
/-- How far an operation under way has come. -/
theorem Inquiry.of_running (h : Inquiry c i before v asked answered) {op : Op}
    (hi : c.ops i = some (.running op)) :
    (∃ presented, op.call = .version presented ∧ presented.clientVersion = v) ∧
      (op.stage.uncalled = true ∧ asked = before.map Prod.fst ∧ answered = before ∨
        asked = before.map Prod.fst ++ [v] ∧ ((∃ b, op.stage = .calling b) ∧ answered = before ∨
          ∃ response, op.stage.response = some response ∧
            answered = before ++ [(v, .ok response)])) := by
  cases h with
  | waiting hj hcall hv hs =>
    rw [hi] at hj
    cases hj
    exact ⟨⟨_, hcall, hv⟩, .inl ⟨hs, rfl, rfl⟩⟩
  | calling hj hcall hv hs =>
    rw [hi] at hj
    cases hj
    exact ⟨⟨_, hcall, hv⟩, .inr ⟨rfl, .inl ⟨⟨_, hs⟩, rfl⟩⟩⟩
  | answered hj hcall hv hs =>
    rw [hi] at hj
    cases hj
    exact ⟨⟨_, hcall, hv⟩, .inr ⟨rfl, .inr ⟨_, hs, rfl⟩⟩⟩
  | refused hj | ended hj =>
    rw [hi] at hj
    cases hj

omit [DecidableEq ι] in
/-- No inquiry makes a call twice. -/
theorem Inquiry.asked_prefix (h : Inquiry c i before v asked answered) :
    asked <+: before.map Prod.fst ++ [v] := by
  cases h with
  | waiting => exact List.prefix_append _ _
  | calling | answered | refused => exact List.prefix_rfl
  | ended _ _ hasked => exact hasked

/-- An event of the client, other than the submission and the end of the operation. -/
theorem Inquiry.step (h : Inquiry c i before v asked answered) (hstep : Step lib opt c e c')
    (hsubmit : ∀ request id, e ≠ .submit i request id) (htake : e ≠ .take i)
    (hdrop : e ≠ .drop i) :
    Inquiry c' i before v (asked ++ asks i c e) (answered ++ answers i c e) := by
  -- an event of another operation
  have other : c'.ops i = c.ops i → asks i c e = [] → answers i c e = [] →
      Inquiry c' i before v (asked ++ asks i c e) (answered ++ answers i c e) := by
    intro hops hasks hanswers
    rw [hasks, hanswers, List.append_nil, List.append_nil]
    exact h.congr hops
  cases hstep with
  | @submitError j | @submit j =>
    have hij : i ≠ j := by
      rintro rfl
      exact hsubmit _ _ rfl
    exact other (by simp [hij]) rfl rfl
  | @take j =>
    have hij : i ≠ j := by
      rintro rfl
      exact htake rfl
    exact other (by simp [hij]) rfl rfl
  | @drop j =>
    have hij : i ≠ j := by
      rintro rfl
      exact hdrop rfl
    exact other (by simp [hij]) rfl rfl
  | imported | replaced | importRefused | replaceRefused | advance => exact other rfl rfl rfl
  | @acquireFull j op hj | @enterRefused j op _ hj | @abort j op _ hj =>
    by_cases hij : i = j
    · subst hij
      exact .ended (by simp; rfl) (by rintro _ ⟨⟩; exact plain_new _)
        (by simpa [asks] using h.asked_prefix)
    · exact other (by simp [hij]) rfl rfl
  | @checkFailed j op _ _ hj =>
    by_cases hij : i = j
    · subst hij
      exact .ended (by simp; rfl) (by rintro _ ⟨⟩; exact plain_new _)
        (by simpa [asks] using h.asked_prefix)
    · exact other (by simp [hij]) rfl rfl
  | @finishError j op _ _ error hj hs hf =>
    by_cases hij : i = j
    · subst hij
      refine .ended (by simp; rfl) ?_ (by simpa [asks] using h.asked_prefix)
      rintro error' ⟨⟩
      exact plain_of_conclude _ _ _ _ hf
    · exact other (by simp [hij]) rfl rfl
  | @finishKeep j op _ _ _ hj | @finishInstall j op _ _ _ _ hj =>
    by_cases hij : i = j
    · subst hij
      refine .ended (by simp; rfl) ?_ (by simpa [asks] using h.asked_prefix)
      rintro error' ⟨⟩
    · exact other (by simp [hij]) rfl rfl
  | @acquire j op hj hs =>
    by_cases hij : i = j
    · subst hij
      obtain ⟨⟨presented, hcall, hv⟩, ⟨-, rfl, rfl⟩ | ⟨-, ⟨⟨b, hb⟩, -⟩ | ⟨r, hr, -⟩⟩⟩ :=
        h.of_running hj
      · simp only [asks, answers, List.append_nil]
        exact @Inquiry.waiting _ _ _ _ _ { op with stage := .queued } _ (by simp) hcall hv rfl
      · rw [hs] at hb
        cases hb
      · rw [hs] at hr
        cases hr
    · exact other (by simp [hij]) rfl rfl
  | @enter j op hj hs =>
    by_cases hij : i = j
    · subst hij
      obtain ⟨⟨presented, hcall, hv⟩, ⟨-, rfl, rfl⟩ | ⟨-, ⟨⟨b, hb⟩, -⟩ | ⟨r, hr, -⟩⟩⟩ :=
        h.of_running hj
      · simp only [asks, answers, List.append_nil]
        exact @Inquiry.waiting _ _ _ _ _ { op with stage := .slot } _ (by simp) hcall hv rfl
      · rw [hs] at hb
        cases hb
      · rw [hs] at hr
        cases hr
    · exact other (by simp [hij]) rfl rfl
  | @start j op hj hs =>
    by_cases hij : i = j
    · subst hij
      obtain ⟨⟨presented, hcall, hv⟩, ⟨-, rfl, rfl⟩ | ⟨-, ⟨⟨b, hb⟩, -⟩ | ⟨r, hr, -⟩⟩⟩ :=
        h.of_running hj
      · simp only [asks, answers, presented_of_running hj hcall, hv, if_true, Option.toList_some,
          List.append_nil]
        exact @Inquiry.calling _ _ _ _ _ (called (c.arena op.generation) op) _ _ (by simp) hcall hv rfl
      · rw [hs] at hb
        cases hb
      · rw [hs] at hr
        cases hr
    · exact other (by simp [hij]) (by simp [asks, Ne.symm hij]) rfl
  | @answerError j op _ error hj hs =>
    by_cases hij : i = j
    · subst hij
      obtain ⟨⟨presented, hcall, hv⟩, ⟨hu, -⟩ | ⟨rfl, ⟨-, rfl⟩ | ⟨r, hr, -⟩⟩⟩ := h.of_running hj
      · rw [hs] at hu
        cases hu
      · simp only [asks, answers, presented_of_running hj hcall, hv, if_true, Option.toList_some,
          List.append_nil, List.map_cons, List.map_nil]
        exact .refused (by simp)
      · rw [hs] at hr
        cases hr
    · exact other (by simp [hij]) rfl (by simp [answers, Ne.symm hij])
  | @answer j op _ response hj hs =>
    by_cases hij : i = j
    · subst hij
      obtain ⟨⟨presented, hcall, hv⟩, ⟨hu, -⟩ | ⟨rfl, ⟨-, rfl⟩ | ⟨r, hr, -⟩⟩⟩ := h.of_running hj
      · rw [hs] at hu
        cases hu
      · simp only [asks, answers, presented_of_running hj hcall, hv, if_true, Option.toList_some,
          List.append_nil, List.map_cons, List.map_nil]
        exact @Inquiry.answered _ _ _ _ _ { op with stage := .answered response } _ _ (by simp) hcall hv rfl
      · rw [hs] at hr
        cases hr
    · exact other (by simp [hij]) rfl (by simp [answers, Ne.symm hij])
  | @check j op response hj hs =>
    by_cases hij : i = j
    · subst hij
      obtain ⟨⟨presented, hcall, hv⟩, ⟨hu, -⟩ | ⟨rfl, ⟨⟨b, hb⟩, -⟩ | ⟨r, hr, rfl⟩⟩⟩ :=
        h.of_running hj
      · rw [hs] at hu
        cases hu
      · rw [hs] at hb
        cases hb
      · simp only [asks, answers, List.append_nil]
        exact @Inquiry.answered _ _ _ _ _ { op with stage := .checked response } _ _ (by simp) hcall hv
          (by rw [hs] at hr; exact hr)
    · exact other (by simp [hij]) rfl rfl
  | @cancel j op hj =>
    by_cases hij : i = j
    · subst hij
      obtain ⟨⟨presented, hcall, hv⟩, ⟨hu, rfl, rfl⟩ | ⟨rfl, ⟨⟨b, hb⟩, rfl⟩ | ⟨r, hr, rfl⟩⟩⟩ :=
        h.of_running hj <;> simp only [asks, answers, List.append_nil]
      · exact @Inquiry.waiting _ _ _ _ _ { op with cancelled := true } _ (by simp) hcall hv hu
      · exact @Inquiry.calling _ _ _ _ _ { op with cancelled := true } _ _ (by simp) hcall hv hb
      · exact @Inquiry.answered _ _ _ _ _ { op with cancelled := true } _ _ (by simp) hcall hv hr
    · exact other (by simp [hij]) rfl rfl

/-- The submission of a version discovery begins an inquiry, if it is not refused at once. -/
theorem Inquiry.of_submit {g : ℕ} {candidate : Option String} {requestId : String}
    (hstep : Step lib opt c (.submit i (.version g candidate) requestId) c') :
    Inquiry c' i before (candidate.getD c.session.config.clientVersion) (before.map Prod.fst) before := by
  cases hstep with
  | submitError hi hp =>
    refine .ended (by simp; rfl) ?_ (List.prefix_append _ _)
    rintro error ⟨⟩
    exact plain_of_prepare _ _ _ hp
  | submit hi hp =>
    cases hp with
    | version _ hpresented =>
      exact .waiting (by simp; rfl) rfl (by rw [hpresented]) rfl

/-! ### The sessions -/

/-- What the client knows of a version discovery under way. -/
structure Discovery (c : Client ι) (op : Op) (presented : SessionConfig) : Prop where
  anonymous : op.method.anonymous = true
  notLogin : isLoginMethod op.method = false
  noOverride : ∀ b, op.stage = .calling b → b = false
  version : presented.clientVersion ≠ (c.arena op.generation).config.clientVersion →
    (patchVersion presented.clientVersion).isSome = true

/-- Every operation that presents a version is such a discovery. -/
def Discoveries (c : Client ι) : Prop :=
  ∀ i op presented, c.ops i = some (.running op) → op.call = .version presented →
    Discovery c op presented

theorem isLoginMethod_of_version {region : String} {method : Method}
    (h : versionQuery.methodForRegion region = .ok method) : isLoginMethod method = false := by
  unfold Query.methodForRegion at h
  split_ifs at h <;> cases h <;> rfl

theorem Discoveries.step (h : Discoveries c) (hle : ∀ i op, c.ops i = some (.running op) →
    op.generation ≤ c.current) (hstep : Client.step lib opt c e = some c') : Discoveries c' := by
  intro i op presented hi hcall
  rcases (Step.of_step hstep).running hi with ⟨op₀, hop, hf⟩ | ⟨request, id, rfl, hnone, hp⟩
  · have hd := h i op₀ presented hop (hf.call ▸ hcall)
    refine ⟨hf.method ▸ hd.anonymous, hf.method ▸ hd.notLogin, fun b hb => ?_, ?_⟩
    · rcases (Step.of_step hstep).calling hi hb with ⟨op₁, -, hop₁, -, -, rfl⟩ | ⟨⟨op₁, hop₁, hb₁, -⟩, -⟩
      · cases hb
        rw [hop] at hop₁
        cases hop₁
        simp [overrides, hd.anonymous]
      · rw [hop] at hop₁
        cases hop₁
        exact hd.noOverride b hb₁
    · rw [hf.generation, (identity_of_step hstep (hle i op₀ hop)).1]
      exact hd.version
  · cases Step.of_step hstep with
    | submitError => simp at hi
    | submit =>
      cases hp with
      | @version candidate _ _ _ hv hpresented hm =>
        cases hcall
        refine ⟨Query.anonymous_of_methodForRegion hm, isLoginMethod_of_version hm, by simp, ?_⟩
        intro hne
        subst hpresented
        cases candidate with
        | none => exact absurd rfl hne
        | some v => exact hv v rfl
      | execute | selfData | preLogin | login | register => cases hcall

/-- What a version discovery installs has the configuration of the current session, but for the
versions. -/
theorem Discoveries.arena_of_step (h : Discoveries c) (hstep : Client.step lib opt c e = some c')
    (he : e.op = some i)
    (hi : ∀ op, c.ops i = some (.running op) → ∃ presented, op.call = .version presented) :
    (c'.current = c.current ∧ c'.arena = c.arena) ∨
      ∃ files op presented response master answered, e = .finish i files ∧
        c.ops i = some (.running op) ∧ op.call = .version presented ∧
        op.stage = .checked response ∧ response.message = .version master answered ∧
        c'.session = discovered c.session presented master
          (answeredResource lib c op presented response answered) := by
  cases (Step.of_step hstep).sessions with
  | unchanged _ hc ha => exact .inl ⟨hc, ha⟩
  | @rejected j op _ error hej hj hs hc ha =>
    subst hej
    obtain rfl := Option.some.inj he
    obtain ⟨presented, hcall⟩ := hi op hj
    have hd := h j op presented hj hcall
    refine .inl ⟨hc, ?_⟩
    rw [ha, record, if_neg (by simp [recorded, hd.anonymous, hd.notLogin]), Function.update_eq_self]
  | @answered j op b response hej hj hs hc ha =>
    subst hej
    obtain rfl := Option.some.inj he
    obtain ⟨presented, hcall⟩ := hi op hj
    obtain rfl := (h j op presented hj hcall).noOverride b hs
    exact .inl ⟨hc, ha.trans (Function.update_eq_self _ _)⟩
  | @installed new how hc ha =>
    cases how with
    | @finish j op response files outcome _ hj hs hf =>
      obtain rfl := Option.some.inj he
      obtain ⟨presented, hcall⟩ := hi op hj
      refine .inr ⟨files, op, presented, response, ?_⟩
      have hsession : c'.session = new := by
        unfold session
        rw [ha, hc]
        exact install_session c new
      cases hf with
      | version hcall' hm =>
        rw [hcall] at hcall'
        cases hcall'
        exact ⟨_, _, rfl, hj, hcall, hs, hm, hsession⟩
      | login hcall' | register hcall' =>
        rw [hcall] at hcall'
        cases hcall'
    | imported | replaced => cases he

end Client

end MoenotesApi
