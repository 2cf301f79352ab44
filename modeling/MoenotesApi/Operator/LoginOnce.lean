import MoenotesApi.Operator.Recovery

/-!
# One login in a recovery

The RPC `PlayerLogin` in a call of `recover`: it is sent at most once, and the call has compared the
identities and has seen an existing role before it submits it.

* `Sends`: the transport is called with `PlayerLogin` for an RPC of the call;
* `MatchedIn`, `RoleExists`: the two things that have happened before;
* `LoginInv`, `loginInv_of_run`: while the call has not come to its login there is no such RPC, while
  the login is under way it leaves the stages before its transport call only once, and afterwards
  there is none again.
-/

namespace MoenotesApi

open Runs

/-- The stages before the login is submitted. -/
def RecoveryStage.beforeLogin : RecoveryStage → Bool
  | .entered | .locked | .current | .usable | .loaded _ | .matched _ | .approved _ _
  | .described _ _ _ | .probing _ _ _ | .probed _ _ _ => true
  | _ => false

/-- The login is under way. -/
def RecoveryStage.isLoggingIn : RecoveryStage → Bool
  | .loggingIn _ _ => true
  | _ => false

/-- The same player and the same SDK account. -/
def SameIdentity (a b : Credentials) : Prop := a.playerId = b.playerId ∧ a.bid = b.bid

theorem Client.matchesIdentity_eq_true {ι : Type} {lib : Libraries} {client : Client ι}
    {generation : ℕ} {provider : StaticCredentials}
    (h : client.matchesIdentity lib generation provider = .ok true) :
    ∃ credentials, client.session.credentials = some credentials ∧
      SameIdentity credentials provider.credentials := by
  simp only [matchesIdentity, Except.bind_eq_ok] at h
  obtain ⟨-, -, supplied, hsupplied, h⟩ := h
  rw [StaticCredentials.provide_eq hsupplied] at h
  split at h
  · next a b ha hb =>
    cases hb
    simp only [Except.pure_eq_ok, decide_eq_true_eq] at h
    exact ⟨a, ha, h⟩
  · cases h

namespace GameRecovery

variable {ι : Type} {r : GameRecovery ι} {ts : List (Transition (RecoveryState ι) (RecoveryEvent ι))}
variable {s s' : RecoveryState ι} {t : Transition (RecoveryState ι) (RecoveryEvent ι)}

/-- The transport is called with `PlayerLogin` for an RPC of the call. -/
def Sends (r : GameRecovery ι) (t : Transition (RecoveryState ι) (RecoveryEvent ι)) : Prop :=
  ∃ i op, t.event = .client (.start i) ∧ (i = r.probe ∨ i = r.login) ∧
    t.before.client.ops i = some (.running op) ∧ op.method = loginMethod

/-- The call has found the identity in memory equal to that of `saved`. -/
def MatchedIn (ts : List (Transition (RecoveryState ι) (RecoveryEvent ι)))
    (saved : StaticCredentials) : Prop :=
  ∃ t ∈ ts, ∃ credentials, t.before.stage = .loaded saved ∧
    t.before.client.session.credentials = some credentials ∧
    SameIdentity credentials saved.credentials

/-- The call has taken the answer of its `PreLogin` that the role exists. -/
def RoleExists (r : GameRecovery ι) (ts : List (Transition (RecoveryState ι) (RecoveryEvent ι))) :
    Prop :=
  ∃ t ∈ ts, t.event = .take ∧ (∃ saved sdk context, t.before.stage = .probing saved sdk context) ∧
    t.before.client.ops r.probe = some (.done (.ok (.roleExists true)))

/-- The two RPCs of the call. -/
structure LoginInv (r : GameRecovery ι)
    (ts : List (Transition (RecoveryState ι) (RecoveryEvent ι))) (s : RecoveryState ι) : Prop where
  probe : ∀ op, s.client.ops r.probe = some (.running op) → op.method = preLoginMethod
  absent : s.stage.isLoggingIn = false → s.client.ops r.login = none
  unsent : ∀ op, s.client.ops r.login = some (.running op) → op.stage.unsent = true →
    ∀ t ∈ ts, ¬ Sends r t
  before : s.stage.beforeLogin = true → ∀ t ∈ ts, ¬ Sends r t

theorem not_sends_snoc (h : ∀ t ∈ ts, ¬ Sends r t) (hlast : ¬ Sends r t) :
    ∀ u ∈ ts ++ [t], ¬ Sends r u := by
  intro u hu
  rcases List.mem_append.1 hu with hu | hu
  · exact h u hu
  · obtain rfl := List.mem_singleton.1 hu
    exact hlast

theorem not_sends_of_event (h : ∀ i, t.event ≠ .client (.start i)) : ¬ Sends r t := by
  rintro ⟨i, op, he, -⟩
  exact h i he

theorem isLoggingIn_of_idle {stage : RecoveryStage} (h : stage.awaits = false) :
    stage.isLoggingIn = false := by
  cases stage with
  | loggingIn => cases h
  | _ => rfl

theorem isLoggingIn_of_before {stage : RecoveryStage} (h : stage.beforeLogin = true) :
    stage.isLoggingIn = false := by
  cases stage with
  | loggingIn => cases h
  | _ => rfl

/-- A step of the call that leaves the client alone. -/
theorem LoginInv.own (h : LoginInv r ts s) {e : RecoveryEvent ι}
    (hclient : s'.client = s.client) (hidle : s.stage.awaits = false)
    (hbefore : s'.stage.beforeLogin = true →
      s.stage.beforeLogin = true ∧ ∀ i, e ≠ .client (.start i)) :
    LoginInv r (ts ++ [⟨s, e, s'⟩]) s' := by
  have hnone := h.absent (isLoggingIn_of_idle hidle)
  constructor
  · rw [hclient]
    exact h.probe
  · intro _
    rw [hclient]
    exact hnone
  · intro op hop
    rw [hclient, hnone] at hop
    cases hop
  · intro hb
    obtain ⟨hfrom, he⟩ := hbefore hb
    exact not_sends_snoc (h.before hfrom) (not_sends_of_event he)

variable [DecidableEq ι] {lib : Libraries} {opt : ClientOptions} {serde : Serde}

/-- The first RPC of the call stays a `PreLogin`. -/
theorem LoginInv.probe_step (h : LoginInv r ts s) {e : Client.Event ι} {c : Client ι}
    (hsteps : s.client.step lib opt e = some c)
    (hsubmit : ∀ request requestId, e = .submit r.probe request requestId →
      ∃ g sdk context, request = .preLogin g sdk context) (op : Op)
    (hop : c.ops r.probe = some (.running op)) : op.method = preLoginMethod := by
  rcases (Client.Step.of_step hsteps).running hop with
    ⟨op', hop', hfollows⟩ | ⟨request, requestId, he, -, hprepares⟩
  · rw [hfollows.method]
    exact h.probe op' hop'
  · obtain ⟨g, sdk, context, rfl⟩ := hsubmit request requestId he
    cases hprepares
    rfl

/-- A step of the client that belongs to the first RPC, or to none of the call. -/
theorem LoginInv.absent_step (h : LoginInv r ts s) {e : Client.Event ι} {c : Client ι}
    (hsteps : s.client.step lib opt e = some c) (hlogin : s.stage.isLoggingIn = false)
    (he : ∀ request requestId, e ≠ .submit r.login request requestId) :
    c.ops r.login = none :=
  (Client.Step.of_step hsteps).ops_none (h.absent hlogin) he

/-- A step of the call that goes through the client and is not about the login. -/
theorem LoginInv.through (h : LoginInv r ts s) {e : RecoveryEvent ι} {e' : Client.Event ι}
    {c : Client ι} {stage : RecoveryStage} (hsteps : s.client.step lib opt e' = some c)
    (hsubmit : ∀ request requestId, e' = .submit r.probe request requestId →
      ∃ g sdk context, request = .preLogin g sdk context)
    (he' : ∀ request requestId, e' ≠ .submit r.login request requestId)
    (he : ∀ i, e ≠ .client (.start i)) (hfrom : s.stage.beforeLogin = true) :
    LoginInv r (ts ++ [⟨s, e, ⟨c, s.directory, stage⟩⟩]) ⟨c, s.directory, stage⟩ := by
  have hnone := h.absent_step hsteps (isLoggingIn_of_before hfrom) he'
  constructor
  · exact h.probe_step hsteps hsubmit
  · exact fun _ => hnone
  · intro op hop
    rw [show (⟨c, s.directory, stage⟩ : RecoveryState ι).client.ops r.login = none from hnone] at hop
    cases hop
  · exact fun _ => not_sends_snoc (h.before hfrom) (not_sends_of_event he)

/-- The login leaves the client. -/
theorem LoginInv.over (h : LoginInv r ts s) (hne : r.probe ≠ r.login) {e : RecoveryEvent ι}
    {c : Client ι} {stage : RecoveryStage}
    (hops : c.ops = Function.update s.client.ops r.login none)
    (hbefore : stage.beforeLogin = false) :
    LoginInv r (ts ++ [⟨s, e, ⟨c, s.directory, stage⟩⟩]) ⟨c, s.directory, stage⟩ := by
  constructor
  · intro op hop
    rw [show (⟨c, s.directory, stage⟩ : RecoveryState ι).client.ops = c.ops from rfl, hops,
      Function.update_of_ne hne] at hop
    exact h.probe op hop
  · intro _
    rw [show (⟨c, s.directory, stage⟩ : RecoveryState ι).client.ops = c.ops from rfl, hops,
      Function.update_self]
  · intro op hop
    rw [show (⟨c, s.directory, stage⟩ : RecoveryState ι).client.ops = c.ops from rfl, hops,
      Function.update_self] at hop
    cases hop
  · intro hb
    rw [show (⟨c, s.directory, stage⟩ : RecoveryState ι).stage = stage from rfl, hbefore] at hb
    cases hb

/-- `PlayerLogin` is sent while the login is under way and has not been sent before. -/
theorem LoginInv.sends (h : LoginInv r ts s) {e : RecoveryEvent ι}
    (hs : r.step lib opt serde s e = some s') (hsends : Sends r ⟨s, e, s'⟩) :
    s.stage.isLoggingIn = true ∧ ∀ t ∈ ts, ¬ Sends r t := by
  obtain ⟨i, op, rfl, hi, hop, hmethod⟩ := hsends
  rcases hi with rfl | rfl
  · rw [h.probe op hop] at hmethod
    exact absurd hmethod (by decide)
  · constructor
    · by_contra hnot
      rw [h.absent (by simpa using hnot)] at hop
      cases hop
    · refine h.unsent op hop ?_
      simp only [step, Option.ite_none_right_eq_some, Option.map_eq_some_iff] at hs
      obtain ⟨-, c, hsteps, -⟩ := hs
      cases Client.Step.of_step hsteps with
      | start hi hstage =>
        rw [hop] at hi
        cases hi
        rw [hstage]
        rfl

theorem LoginInv.client (h : LoginInv r ts s) {e : Client.Event ι} {c : Client ι}
    (hforeign : r.Foreign e) (hsteps : s.client.step lib opt e = some c)
    (hs : r.step lib opt serde s (.client e) = some { s with client := c }) :
    LoginInv r (ts ++ [⟨s, .client e, { s with client := c }⟩]) { s with client := c } := by
  have hprobe : ∀ request requestId, e ≠ .submit r.probe request requestId := by
    rintro request requestId rfl
    exact hforeign.1 rfl
  have hlogin : ∀ request requestId, e ≠ .submit r.login request requestId := by
    rintro request requestId rfl
    exact hforeign.2 rfl
  constructor
  · exact h.probe_step hsteps fun request requestId he => absurd he (hprobe request requestId)
  · exact fun hl => h.absent_step hsteps hl hlogin
  · intro op hop hunsent
    rcases (Client.Step.of_step hsteps).unsent hop hunsent with
      ⟨op', hop', hunsent', hstart⟩ | ⟨request, requestId, he⟩
    · refine not_sends_snoc (h.unsent op' hop' hunsent') ?_
      rintro ⟨i, op'', he, hi, hop'', hmethod⟩
      cases he
      rcases hi with rfl | rfl
      · rw [h.probe op'' hop''] at hmethod
        exact absurd hmethod (by decide)
      · exact hstart rfl
    · exact absurd he (hlogin request requestId)
  · intro hb
    refine not_sends_snoc (h.before hb) fun hsends => ?_
    have hl := (h.sends hs hsends).1
    rw [isLoggingIn_of_before hb] at hl
    cases hl

/-- The login is submitted. -/
theorem LoginInv.submitted (h : LoginInv r ts s) (hne : r.probe ≠ r.login)
    {e : RecoveryEvent ι} (he : ∀ i, e ≠ .client (.start i)) (hfrom : s.stage.beforeLogin = true)
    {request : Request} {requestId : String} {c : Client ι} {saved : StaticCredentials}
    {sdk : SdkAuthorization}
    (hsteps : s.client.step lib opt (.submit r.login request requestId) = some c) :
    LoginInv r (ts ++ [⟨s, e, ⟨c, s.directory, .loggingIn saved sdk⟩⟩])
      ⟨c, s.directory, .loggingIn saved sdk⟩ := by
  have hsent := not_sends_snoc (h.before hfrom)
    (not_sends_of_event (t := ⟨s, e, ⟨c, s.directory, .loggingIn saved sdk⟩⟩) he)
  constructor
  · refine h.probe_step hsteps ?_
    intro request' requestId' heq
    exact absurd (Client.Event.submit.inj heq).1.symm hne
  · rintro ⟨⟩
  · exact fun _ _ _ => hsent
  · rintro ⟨⟩

theorem LoginInv.step (h : LoginInv r ts s) (hne : r.probe ≠ r.login) {e : RecoveryEvent ι}
    (hs : r.step lib opt serde s e = some s') : LoginInv r (ts ++ [⟨s, e, s'⟩]) s' := by
  cases Step.of_step hs with
  | client foreign steps => exact h.client foreign steps hs
  | refused idle => exact h.own rfl idle (by rintro ⟨⟩)
  | notLocked stage => exact h.own rfl (by rw [stage]; rfl) (by rintro ⟨⟩)
  | locked stage | current stage | usable stage | loaded stage | matched stage | approved stage
  | described stage => exact h.own rfl (by rw [stage]; rfl) fun _ => ⟨by rw [stage]; rfl, by simp⟩
  | comparing stage | compared stage | uncancelled stage | begun stage =>
    exact h.own rfl (by rw [stage]; rfl) (by rintro ⟨⟩)
  | @saved _ _ _ _ _ _ p saving =>
    refine h.own rfl (by rw [saving]; rfl) ?_
    cases p <;> rintro ⟨⟩
  | probing stage steps =>
    refine h.through steps ?_ ?_ (by simp) (by rw [stage]; rfl)
    · rintro request requestId ⟨⟩
      exact ⟨_, _, _, rfl⟩
    · intro request requestId heq
      exact hne (Client.Event.submit.inj heq).1
  | probed stage _ steps | probeFailed stage steps | droppedProbe stage steps =>
    exact h.through steps (by rintro _ _ ⟨⟩) (by rintro _ _ ⟨⟩) (by simp) (by rw [stage]; rfl)
  | loggingIn stage steps =>
    exact h.submitted hne (by simp) (by rw [stage]; rfl) steps
  | loggedIn _ steps | loginFailed _ steps => exact h.over hne (Client.ops_of_take steps) rfl
  | droppedLogin _ steps => exact h.over hne (Client.ops_of_drop steps) rfl

/-- A call that begins. -/
def start (client : Client ι) (d : StateDir) : RecoveryState ι := ⟨client, d, .entered⟩

theorem loginInv_of_run {client : Client ι} {d : StateDir} (hne : r.probe ≠ r.login)
    (hprobe : client.ops r.probe = none) (hlogin : client.ops r.login = none)
    (hrun : Run (r.step lib opt serde) (start client d) ts s) : LoginInv r ts s := by
  induction hrun with
  | nil =>
    constructor
    · intro op hop
      rw [show (start client d).client.ops r.probe = none from hprobe] at hop
      cases hop
    · exact fun _ => hlogin
    · exact fun _ _ _ => by simp
    · exact fun _ => by simp
  | snoc _ he ih => exact ih.step hne he

end GameRecovery

end MoenotesApi
