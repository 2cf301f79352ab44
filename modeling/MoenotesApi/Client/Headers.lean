import MoenotesApi.Client.Slot

/-!
# The headers of a call

The metadata of an operation is built when it is submitted, and only the override header is added to
it, when its call starts.

* `anonymousKeys`, `protectedKeys`: the names that `SessionConfig.metadata` may insert;
* `get_metadata_protected`: a protected call presents the credentials it is given;
* `Presents`: what the metadata of an operation says, in every state that a run reaches;
* `Calls`: an operation calls the transport.
-/

namespace MoenotesApi

/-! ### Names in metadata -/

/-- The names that the metadata of an anonymous call has. -/
def anonymousKeys : List String := ["x-request-id", "x-platform", "x-client-version"]

/-- The names that only the metadata of a protected call has. -/
def protectedKeys : List String :=
  ["x-player-id", "x-player-credential", "x-device-id", "x-player-bid", "x-master-version",
    "x-resource-version"]

/-- All names of `map` are among `keys`. -/
def Metadata.Within (map : Metadata) (keys : List String) : Prop := ∀ h ∈ map, h.1 ∈ keys

theorem Metadata.Within.get_eq_none {map : Metadata} {keys : List String} (h : map.Within keys)
    {key : String} (hkey : key ∉ keys) : map.get key = none := by
  rw [Metadata.get, Option.map_eq_none_iff, List.find?_eq_none]
  intro x hx hk
  simp only [decide_eq_true_eq] at hk
  exact hkey (hk ▸ h x hx)

theorem Metadata.Within.put {map : Metadata} {keys : List String} (h : map.Within keys)
    {key : String} (hkey : key ∈ keys) (value : String) : (map.put key value).Within keys := by
  intro x hx
  rcases List.mem_append.1 hx with hx | hx
  · exact h x (List.mem_of_mem_filter hx)
  · rw [List.mem_singleton.1 hx]
    exact hkey

theorem Metadata.Within.remove {map : Metadata} {keys : List String} (h : map.Within keys)
    (key : String) : (map.remove key).Within keys :=
  fun x hx => h x (List.mem_of_mem_filter hx)

theorem Metadata.Within.mono {map : Metadata} {keys keys' : List String} (h : map.Within keys)
    (hsub : ∀ k ∈ keys, k ∈ keys') : map.Within keys' :=
  fun x hx => hsub _ (h x hx)

theorem insertHeader_eq_ok {lib : Libraries} {map map' : Metadata} {key value : String} :
    insertHeader lib map key value = .ok map' ↔
      lib.headerValue value = true ∧ map' = map.put key value := by
  unfold insertHeader
  split_ifs with h <;> simp [h, eq_comm]

/-- An optional header is inserted when there is a value. -/
theorem insertOptional_eq {lib : Libraries} {map map' : Metadata} {key : String}
    {value : Option String} (h : insertOptional lib map key value = .ok map') :
    value = none ∧ map' = map ∨ ∃ v, value = some v ∧ map' = map.put key v := by
  cases value with
  | none => exact .inl ⟨rfl, (Except.ok.inj h).symm⟩
  | some v => exact .inr ⟨v, rfl, (insertHeader_eq_ok.1 h).2⟩

theorem get_insertOptional_of_ne {lib : Libraries} {map map' : Metadata} {key key' : String}
    {value : Option String} (h : insertOptional lib map key value = .ok map') (hne : key' ≠ key) :
    map'.get key' = map.get key' := by
  rcases insertOptional_eq h with ⟨-, rfl⟩ | ⟨v, -, rfl⟩
  · rfl
  · exact Metadata.get_put_of_ne _ _ hne

theorem get_insertOptional {lib : Libraries} {map map' : Metadata} {key : String}
    {value : Option String} (h : insertOptional lib map key value = .ok map')
    (hnone : map.get key = none) : map'.get key = value := by
  rcases insertOptional_eq h with ⟨rfl, rfl⟩ | ⟨v, rfl, rfl⟩
  · exact hnone
  · exact Metadata.get_put _ _ _

theorem Metadata.Within.insertOptional {lib : Libraries} {map map' : Metadata}
    {keys : List String} (hmap : map.Within keys) {key : String} {value : Option String}
    (h : insertOptional lib map key value = .ok map') (hkey : key ∈ keys) : map'.Within keys := by
  rcases insertOptional_eq h with ⟨-, rfl⟩ | ⟨v, -, rfl⟩
  · exact hmap
  · exact hmap.put hkey v

/-- What every call presents. -/
def commonMetadata (config : SessionConfig) (requestId : String) : Metadata :=
  (Metadata.put (Metadata.put (Metadata.put [] "x-request-id" requestId) "x-platform"
    config.platform) "x-client-version" config.clientVersion)

theorem within_commonMetadata (config : SessionConfig) (requestId : String) {keys : List String}
    (hkeys : ∀ k ∈ anonymousKeys, k ∈ keys) : (commonMetadata config requestId).Within keys := by
  have hnil : Metadata.Within [] anonymousKeys := fun _ hx => by cases hx
  exact (((hnil.put (by decide) _).put (by decide) _).put (by decide) _).mono hkeys

/-- The metadata of an anonymous call, or of a call without credentials. -/
theorem metadata_anonymous {lib : Libraries} {config : SessionConfig} {requestId : String}
    {map : Metadata} {credentials : Option Credentials} {anonymous : Bool}
    (h : config.metadata lib credentials requestId anonymous = .ok map)
    (ha : anonymous = true ∨ credentials = none) : map = commonMetadata config requestId := by
  simp only [SessionConfig.metadata, Except.bind_eq_ok, insertHeader_eq_ok] at h
  obtain ⟨_, ⟨-, rfl⟩, _, ⟨-, rfl⟩, _, ⟨-, rfl⟩, h⟩ := h
  rcases ha with rfl | rfl
  · cases credentials <;> exact (Except.pure_eq_ok.1 h).symm
  · cases anonymous <;> exact (Except.pure_eq_ok.1 h).symm

/-- The headers that `metadata` inserts for the credentials of a protected call. -/
inductive Presented (lib : Libraries) (config : SessionConfig) (credentials : Credentials)
    (requestId : String) : Metadata → Prop
  | jp {m₁ m₂} (h₁ : insertOptional lib ((commonMetadata config requestId).put "x-player-id"
        credentials.playerId |>.put "x-player-credential" credentials.credential) "x-device-id"
        credentials.deviceId = .ok m₁)
      (h₂ : insertOptional lib m₁ "x-master-version" config.masterVersion = .ok m₂) :
      Presented lib config credentials requestId m₂
  | other {m₁ m₂ m₃ m₄} (h₁ : insertOptional lib ((commonMetadata config requestId).put
        "x-player-id" credentials.playerId |>.put "x-player-credential" credentials.credential)
        "x-device-id" credentials.deviceId = .ok m₁)
      (h₂ : insertOptional lib m₁ "x-player-bid" credentials.bid = .ok m₂)
      (h₃ : insertOptional lib m₂ "x-master-version" config.masterVersion = .ok m₃)
      (h₄ : insertOptional lib m₃ "x-resource-version" config.resourceVersion = .ok m₄) :
      Presented lib config credentials requestId m₄

theorem Presented.of_metadata {lib : Libraries} {config : SessionConfig} {requestId : String}
    {map : Metadata} {credentials : Credentials}
    (h : config.metadata lib (some credentials) requestId false = .ok map) :
    Presented lib config credentials requestId map := by
  by_cases hjp : config.region = "jp"
  · simp only [SessionConfig.metadata, Except.bind_eq_ok, insertHeader_eq_ok, hjp, if_true,
      Except.pure_eq_ok] at h
    obtain ⟨_, ⟨-, rfl⟩, _, ⟨-, rfl⟩, _, ⟨-, rfl⟩, -, -, _, ⟨-, rfl⟩, -, -, _, ⟨-, rfl⟩, m₁, h₁,
      _, rfl, m₂, h₂, rfl⟩ := h
    exact .jp h₁ h₂
  · simp only [SessionConfig.metadata, Except.bind_eq_ok, insertHeader_eq_ok, hjp, if_false] at h
    obtain ⟨_, ⟨-, rfl⟩, _, ⟨-, rfl⟩, _, ⟨-, rfl⟩, -, -, _, ⟨-, rfl⟩, -, -, _, ⟨-, rfl⟩, m₁, h₁,
      m₂, h₂, m₃, h₃, h₄⟩ := h
    exact .other h₁ h₂ h₃ h₄

/-- The metadata of a protected call has the names of both lists. -/
theorem Presented.within {lib : Libraries} {config : SessionConfig} {requestId : String}
    {map : Metadata} {credentials : Credentials}
    (h : Presented lib config credentials requestId map) :
    map.Within (anonymousKeys ++ protectedKeys) := by
  have hcommon : (commonMetadata config requestId).Within (anonymousKeys ++ protectedKeys) :=
    within_commonMetadata config requestId fun k hk => List.mem_append_left _ hk
  have hid : "x-player-id" ∈ anonymousKeys ++ protectedKeys := by decide
  have hcredential : "x-player-credential" ∈ anonymousKeys ++ protectedKeys := by decide
  have hplayer := (hcommon.put hid credentials.playerId).put hcredential credentials.credential
  cases h with
  | jp h₁ h₂ => exact (hplayer.insertOptional h₁ (by decide)).insertOptional h₂ (by decide)
  | other h₁ h₂ h₃ h₄ =>
    exact (((hplayer.insertOptional h₁ (by decide)).insertOptional h₂ (by decide)).insertOptional h₃
      (by decide)).insertOptional h₄ (by decide)

/-- The metadata of a protected call presents the credentials it is given. -/
theorem Presented.get {lib : Libraries} {config : SessionConfig} {requestId : String}
    {map : Metadata} {credentials : Credentials}
    (h : Presented lib config credentials requestId map) :
    map.get "x-player-id" = some credentials.playerId ∧
      map.get "x-player-credential" = some credentials.credential ∧
      map.get "x-device-id" = credentials.deviceId := by
  have hnone : (commonMetadata config requestId).get "x-device-id" = none :=
    (within_commonMetadata config requestId fun k hk => hk).get_eq_none (by decide)
  -- the headers inserted after the device have other names
  obtain ⟨m₁, h₁, later⟩ : ∃ m₁, insertOptional lib ((commonMetadata config requestId).put
      "x-player-id" credentials.playerId |>.put "x-player-credential" credentials.credential)
      "x-device-id" credentials.deviceId = .ok m₁ ∧ ∀ key, key ≠ "x-player-bid" →
        key ≠ "x-master-version" → key ≠ "x-resource-version" → map.get key = m₁.get key := by
    cases h with
    | jp h₁ h₂ => exact ⟨_, h₁, fun key _ hm _ => get_insertOptional_of_ne h₂ hm⟩
    | other h₁ h₂ h₃ h₄ =>
      exact ⟨_, h₁, fun key hb hm hr => (get_insertOptional_of_ne h₄ hr).trans
        ((get_insertOptional_of_ne h₃ hm).trans (get_insertOptional_of_ne h₂ hb))⟩
  refine ⟨?_, ?_, ?_⟩
  · rw [later _ (by decide) (by decide) (by decide), get_insertOptional_of_ne h₁ (by decide),
      Metadata.get_put_of_ne _ _ (by decide), Metadata.get_put]
  · rw [later _ (by decide) (by decide) (by decide), get_insertOptional_of_ne h₁ (by decide),
      Metadata.get_put]
  · rw [later _ (by decide) (by decide) (by decide)]
    refine get_insertOptional h₁ ?_
    rw [Metadata.get_put_of_ne _ _ (by decide), Metadata.get_put_of_ne _ _ (by decide), hnone]

/-- The metadata of a login or pre-login has the identity of the SDK account, and no credentials. -/
theorem within_buildRequest {lib : Libraries} {config : SessionConfig} {sdk : SdkAuthorization}
    {context : AndroidLoginContext} {method : Method} {requestId : String} {map : Metadata}
    (h : buildRequest lib config sdk context method requestId = .ok map) :
    map.Within ("x-player-bid" :: anonymousKeys) := by
  simp only [buildRequest, Except.bind_eq_ok, Except.pure_eq_ok] at h
  obtain ⟨-, -, -, -, m, hm, -, -, rfl⟩ := h
  have within : m.Within ("x-player-bid" :: anonymousKeys) := by
    rw [metadata_anonymous hm (.inl rfl)]
    exact within_commonMetadata _ _ fun k hk => List.mem_cons_of_mem _ hk
  split_ifs
  · exact (within.remove _).put List.mem_cons_self _
  · exact within.put List.mem_cons_self _

/-! ### The metadata of the operations of a client -/

/-- Stages before the call. -/
def Stage.uncalled : Stage → Bool
  | .prepared | .queued | .slot => true
  | _ => false

namespace Client

open Runs

variable {ι : Type} {lib : Libraries} {opt : ClientOptions} {c c' : Client ι} {e : Event ι}
variable {ts : List (Transition (Client ι) (Event ι))}

/-- What the metadata of `op` presents: the credentials of the session that it has captured if it is
a protected operation, and no override header before its call. -/
structure Presents (c : Client ι) (op : Op) : Prop where
  anonymous : op.method.anonymous = true →
    op.metadata.Within ("x-override-device-id" :: "x-player-bid" :: anonymousKeys)
  credentials : op.method.anonymous = false → ∃ credentials,
    (c.arena op.generation).credentials = some credentials ∧
    op.metadata.get "x-player-id" = some credentials.playerId ∧
    op.metadata.get "x-player-credential" = some credentials.credential ∧
    op.metadata.get "x-device-id" = credentials.deviceId
  uncalled : op.stage.uncalled = true → op.metadata.get "x-override-device-id" = none

/-- A protected operation that is submitted presents the credentials of the current session. -/
theorem presents_protected {requestId : String} {op : Op} (hg : op.generation = c.current)
    (ha : op.method.anonymous = false) (hc : c.session.credentials ≠ none)
    (hd : c.session.config.metadata lib c.session.credentials requestId false = .ok op.metadata) :
    Presents c op := by
  obtain ⟨credentials, hcred⟩ := Option.ne_none_iff_exists'.1 hc
  rw [hcred] at hd
  have hp := Presented.of_metadata hd
  refine ⟨fun h => ?_, fun _ => ⟨credentials, ?_, hp.get⟩,
    fun _ => hp.within.get_eq_none (by decide)⟩
  · rw [ha] at h
    cases h
  · rw [hg]
    exact hcred

theorem presents_anonymous {op : Op} (ha : op.method.anonymous = true)
    (hd : op.metadata.Within ("x-player-bid" :: anonymousKeys)) : Presents c op := by
  refine ⟨fun _ => hd.mono fun k hk => List.mem_cons_of_mem _ hk, fun h => ?_,
    fun _ => hd.get_eq_none (by decide)⟩
  rw [ha] at h
  cases h

theorem Prepares.presents {requestId : String} {request : Request} {op : Op}
    (h : Prepares lib c requestId request op) : Presents c op := by
  have plain : ∀ {map : Metadata} {config : SessionConfig} {credentials : Option Credentials},
      config.metadata lib credentials requestId true = .ok map →
        map.Within ("x-player-bid" :: anonymousKeys) := by
    intro map config credentials hd
    rw [metadata_anonymous hd (.inl rfl)]
    exact within_commonMetadata _ _ fun k hk => List.mem_cons_of_mem _ hk
  cases h with
  | @execute query method metadata _ hc hm hd =>
    rw [← Query.anonymous_of_methodForRegion hm] at hc
    cases ha : method.anonymous with
    | true => exact presents_anonymous ha (plain (ha ▸ hd))
    | false => exact presents_protected rfl ha (hc ha) (ha ▸ hd)
  | selfData _ hc hd => exact presents_protected rfl rfl hc hd
  | preLogin hd | login hd => exact presents_anonymous rfl (within_buildRequest hd)
  | register _ _ hd => exact presents_anonymous rfl (plain hd)
  | version _ _ hm hd =>
    exact presents_anonymous (Query.anonymous_of_methodForRegion hm) (plain hd)

variable [DecidableEq ι]

/-- The metadata of an operation that has not called the transport yet. -/
theorem Step.uncalled (h : Step lib opt c e c') {i : ι} {op' : Op}
    (hi : c'.ops i = some (.running op')) (hs : op'.stage.uncalled = true) :
    (∃ op, c.ops i = some (.running op) ∧ op.stage.uncalled = true ∧
      op'.metadata = op.metadata) ∨ ∃ request requestId, Prepares lib c requestId request op' := by
  cases h with
  | @submit j request requestId op hj hp =>
    by_cases hij : i = j
    · subst hij
      obtain rfl : op = op' := by simpa using hi
      exact .inr ⟨request, requestId, hp⟩
    · exact .inl ⟨op', by simpa [hij] using hi, hs, rfl⟩
  | imported | replaced | importRefused | replaceRefused | advance => exact .inl ⟨op', hi, hs, rfl⟩
  | @acquire j op hj hstage | @enter j op hj hstage =>
    by_cases hij : i = j
    · subst hij
      obtain rfl : _ = op' := by simpa using hi
      exact .inl ⟨op, hj, by rw [hstage]; rfl, rfl⟩
    · exact .inl ⟨op', by simpa [hij] using hi, hs, rfl⟩
  | @cancel j op hj =>
    by_cases hij : i = j
    · subst hij
      obtain rfl : _ = op' := by simpa using hi
      exact .inl ⟨op, hj, hs, rfl⟩
    · exact .inl ⟨op', by simpa [hij] using hi, hs, rfl⟩
  | @start j op hj | @answer j op _ _ hj | @check j op _ hj =>
    by_cases hij : i = j
    · subst hij
      obtain rfl : _ = op' := by simpa using hi
      cases hs
    · exact .inl ⟨op', by simpa [hij] using hi, hs, rfl⟩
  | @submitError j | @acquireFull j | @enterRefused j | @answerError j | @checkFailed j
  | @finishError j | @finishKeep j | @finishInstall j | @abort j | @drop j | @take j =>
    have hij : i ≠ j := by
      rintro rfl
      simp at hi
    exact .inl ⟨op', by simpa [hij] using hi, hs, rfl⟩

/-- Every operation under way presents what it should. -/
def HeadersInv (c : Client ι) : Prop := ∀ i op, c.ops i = some (.running op) → Presents c op

omit [DecidableEq ι] in
theorem headersInv_initial (session : Session) (now : ℕ) :
    HeadersInv (initial opt session now : Client ι) := by
  intro i op hi
  simp [initial] at hi

theorem HeadersInv.step (h : HeadersInv c) (hs : SlotInv c) (hstep : step lib opt c e = some c') :
    HeadersInv c' := by
  intro i op' hi
  have transfer : ∀ {op : Op}, op.generation ≤ c.current → Presents c op → Presents c' op := by
    intro op hg hp
    refine ⟨hp.anonymous, fun ha => ?_, hp.uncalled⟩
    obtain ⟨credentials, hcred, hget⟩ := hp.credentials ha
    exact ⟨credentials, (identity_of_step hstep hg).2.trans hcred, hget⟩
  rcases (Step.of_step hstep).running hi with ⟨op, hop, hfollow⟩ | ⟨request, id, -, -, hp⟩
  · have hpresents := transfer (hs.captured i op hop) (h i op hop)
    refine ⟨fun ha => ?_, fun ha => ?_, fun hstage => ?_⟩
    · rw [hfollow.method] at ha
      have hwithin := hpresents.anonymous ha
      rcases hfollow.metadata with hm | hm <;> rw [hm]
      · exact hwithin
      · exact hwithin.put List.mem_cons_self _
    · rw [hfollow.method] at ha
      obtain ⟨credentials, hcred, hid, hcredential, hdevice⟩ := hpresents.credentials ha
      refine ⟨credentials, by rw [hfollow.generation]; exact hcred, ?_⟩
      rcases hfollow.metadata with hm | hm <;> rw [hm]
      · exact ⟨hid, hcredential, hdevice⟩
      · exact ⟨(Metadata.get_put_of_ne _ _ (by decide)).trans hid,
          (Metadata.get_put_of_ne _ _ (by decide)).trans hcredential,
          (Metadata.get_put_of_ne _ _ (by decide)).trans hdevice⟩
    · rcases (Step.of_step hstep).uncalled hi hstage with ⟨op₀, hop₀, hstage₀, hm⟩ | ⟨_, _, hp⟩
      · rw [hm]
        exact (h i op₀ hop₀).uncalled hstage₀
      · exact hp.presents.uncalled hstage
  · exact transfer hp.generation.le hp.presents

theorem headersInv_of_run (hrun : Run (step lib opt) c ts c') (hs : SlotInv c) (h : HeadersInv c) :
    HeadersInv c' := by
  induction hrun with
  | nil => exact h
  | snoc hrun hstep ih => exact ih.step (slotInv_of_run hrun hs) hstep

/-- The operation `i` calls the transport, as `op`. -/
def Calls (t : Transition (Client ι) (Event ι)) (i : ι) (op : Op) : Prop :=
  t.event = .start i ∧ t.after.ops i = some (.running op)

/-- A call that starts was waiting in the slot, and gets the override header if its session owes
it. -/
theorem called_of_calls {t : Transition (Client ι) (Event ι)} {i : ι} {op' : Op}
    (hstep : step lib opt t.before t.event = some t.after) (h : Calls t i op') :
    ∃ op, t.before.ops i = some (.running op) ∧ op.stage = .slot ∧
      op' = called (t.before.arena op.generation) op ∧ t.after.arena = t.before.arena := by
  obtain ⟨he, hi⟩ := h
  rw [he] at hstep
  obtain ⟨c, f, c'⟩ := t
  dsimp only at *
  cases Step.of_step hstep with
  | start hj hs _ =>
    simp only [setOp_ops, Function.update_self, Option.some.injEq, OpState.running.injEq] at hi
    exact ⟨_, hj, hs, hi.symm, rfl⟩

end Client

end MoenotesApi
