import MoenotesApi.Operator.AccountCall

/-!
# The account pin

Whatever happens to the account directory, a sequence of calls of `recover` works for one user.

* `CollisionFree`, `userDir_injective`: the assumption about the hash function, for the users that were
  selected;
* `PinInv`: the pin is the first user, every state directory holds files for its user only, and the
  session in memory, what was done and what the call holds belong to the first user;
* `PinInv.step`: every event keeps it so;
* `Confined`: a step reads and changes no directory but that of the first user;
* `account_pin`, and a run with two users.
-/

namespace MoenotesApi

open JsonText Files Runs Framing

namespace AccountDirectoryClient

/-! ### The hash function -/

section Hash

variable {a : AccountDirectoryClient} {users : List String} {user user' : String}

/-- The hash function tells apart the inputs for these users. -/
def CollisionFree (a : AccountDirectoryClient) (users : List String) : Prop :=
  ∀ user ∈ users, ∀ user' ∈ users,
    NoCollision a.sha256 [bytes user] [bytes user'] ∧
    NoCollision a.sha256 (scopeParts ⟨user, ""⟩ a.session) (scopeParts ⟨user', ""⟩ a.session)

theorem identity_injective (h : a.CollisionFree users) (hu : user ∈ users) (hu' : user' ∈ users)
    (heq : a.identity user = a.identity user') : user = user' :=
  bytes_injective (framed_cons_injective length_bigEndian ((h user hu user' hu').1 heq))

theorem userDir_injective (h : a.CollisionFree users) (hu : user ∈ users) (hu' : user' ∈ users)
    (heq : a.userDir user = a.userDir user') : user = user' := by
  have hlist := congrArg String.toList heq
  rw [userDir, userDir, accountDir, accountDir, String.toList_append, String.toList_append] at hlist
  have hhash := hexName_injective (String.toList_injective (List.append_cancel_left hlist))
  exact bytes_injective (framed_cons_injective length_bigEndian ((h user hu user' hu').2 hhash))

end Hash

/-! ### The invariant -/

section Invariant

variable {ι : Type}

/-- Between the steps of a call: the pin is the first user, and directories, session and effects belong
to their users. -/
structure PinBase (a : AccountDirectoryClient) (s : AccountState ι) : Prop where
  pinned : s.pinned = s.ledger.first.map a.identity
  first : ∀ user, s.ledger.first = some user → user ∈ s.ledger.seen
  disk : ∀ dir d, s.disk dir = some d →
    ∃ user ∈ s.ledger.seen, dir = a.userDir user ∧ Honest s.ledger user d
  session : ∀ credentials, s.client.session.credentials = some credentials →
    ∃ user, s.ledger.first = some user ∧ s.ledger.Issued user credentials
  effects : ∀ x ∈ s.ledger.effects,
    ∃ user, s.ledger.first = some user ∧ x.For s.ledger user (a.userDir user)

/-- The call under way is for the first user. -/
def CallFor (a : AccountDirectoryClient) (s : AccountState ι) :
    Option (GameRecovery ι × AccountStage) → Prop
  | some (r, .working account dir stage) =>
    s.ledger.first = some account.user ∧ dir = a.userDir account.user ∧
      ∃ d, s.disk dir = some d ∧ ScopedFor s.ledger r account.user ⟨s.client, d, stage⟩
  | some (_, .selected account) =>
    s.client.LogsInAt none ∧ s.ledger.first = some account.user
  | _ => s.client.LogsInAt none

structure PinInv (a : AccountDirectoryClient) (s : AccountState ι) : Prop where
  base : PinBase a s
  call : CallFor a s s.running

variable {a : AccountDirectoryClient} {s s' : AccountState ι} {r : GameRecovery ι}
  {lib : Libraries} {opt : ClientOptions} {serde : Serde}

/-- The call is no part of it. -/
theorem PinBase.running (h : PinBase a s) (running : Option (GameRecovery ι × AccountStage))
    (outcome : Option (Except ClientError Unit)) :
    PinBase a { s with running := running, outcome := outcome } :=
  ⟨h.pinned, h.first, h.disk, h.session, h.effects⟩

/-- The call returns. -/
theorem PinBase.finish (h : PinBase a s) (hlogins : s.client.LogsInAt none)
    (result : Except ClientError Unit) : PinInv a (s.finish result) :=
  ⟨h.running none (some result), hlogins⟩

/-- The ledger has forgotten nothing, and the users are the same. -/
theorem PinBase.extends (h : PinBase a s) {l : Ledger ι} (hl : s.ledger.Extends l)
    (hseen : l.seen = s.ledger.seen) (hfirst : l.first = s.ledger.first) {c : Client ι}
    {disk : String → Option StateDir}
    (hdisk : ∀ dir d, disk dir = some d → s.disk dir = some d ∨
      ∃ user, s.ledger.first = some user ∧ dir = a.userDir user ∧ Honest l user d)
    (hsession : ∀ credentials, c.session.credentials = some credentials →
      ∃ user, s.ledger.first = some user ∧ l.Issued user credentials)
    (heffects : ∀ x ∈ l.effects, x ∈ s.ledger.effects ∨
      ∃ user, s.ledger.first = some user ∧ x.For l user (a.userDir user)) :
    PinBase a { s with client := c, disk := disk, ledger := l } where
  pinned := by rw [hfirst]; exact h.pinned
  first := by rw [hseen, hfirst]; exact h.first
  disk := by
    intro dir d hd
    rw [hseen]
    rcases hdisk dir d hd with hd | ⟨user, huser, hdir, hd⟩
    · obtain ⟨user, huser, hdir, hd⟩ := h.disk dir d hd
      exact ⟨user, huser, hdir, hd.mono hl⟩
    · exact ⟨user, h.first user huser, hdir, hd⟩
  session := by rw [hfirst]; exact hsession
  effects := by
    intro x hx
    rw [hfirst]
    rcases heffects x hx with hx | hx
    · obtain ⟨user, huser, hx⟩ := h.effects x hx
      exact ⟨user, huser, hx.mono hl⟩
    · exact hx

end Invariant

/-! ### The steps -/

section Steps

variable {ι : Type} {a : AccountDirectoryClient} {s s' : AccountState ι} {r : GameRecovery ι}
  {lib : Libraries} {opt : ClientOptions} {serde : Serde}

/-- An event of the call under way is a step of that call. -/
theorem call_of_step [DecidableEq ι] {e : AccountEvent ι} (he : e.own = true)
    (hstep : a.step lib opt serde s e = some s') :
    ∃ r stage, s.running = some (r, stage) ∧ a.stepCall lib opt serde s r stage e = some s' := by
  cases hrunning : s.running with
  | none =>
    cases e with
    | client | recover | reload | restart => cases he
    | _ => simp only [AccountDirectoryClient.step, hrunning] at hstep; cases hstep
  | some call =>
    obtain ⟨r, stage⟩ := call
    refine ⟨r, stage, rfl, ?_⟩
    cases e with
    | client | recover | reload | restart => cases he
    | _ => simpa only [AccountDirectoryClient.step, hrunning] using hstep

/-- A user is selected; the first one is pinned. -/
theorem PinBase.select (h : PinBase a s) (user : String) :
    PinBase a { s with
      pinned := (s.ledger.select user).first.map a.identity
      ledger := s.ledger.select user } where
  pinned := rfl
  first := by
    intro user' huser
    cases hfirst : s.ledger.first with
    | none =>
      simp only [Ledger.select, hfirst, Option.none_or, Option.some.injEq] at huser
      subst huser
      exact List.mem_cons_self
    | some first =>
      simp only [Ledger.select, hfirst, Option.some_or, Option.some.injEq] at huser
      subst huser
      exact List.mem_cons_of_mem _ (h.first _ hfirst)
  disk := by
    intro dir d hd
    obtain ⟨user', huser, hdir, hd⟩ := h.disk dir d hd
    exact ⟨user', List.mem_cons_of_mem _ huser, hdir, hd.mono ⟨fun _ hx => hx, fun _ hx => hx⟩⟩
  session := by
    intro credentials hcredentials
    obtain ⟨user', huser, hissued⟩ := h.session credentials hcredentials
    refine ⟨user', ?_, hissued⟩
    simp only [Ledger.select, huser, Option.some_or]
  effects := by
    intro x hx
    obtain ⟨user', huser, hx⟩ := h.effects x hx
    refine ⟨user', ?_, hx.mono ⟨fun _ hx => hx, fun _ hx => hx⟩⟩
    simp only [Ledger.select, huser, Option.some_or]

/-- The pin lets only the first user through. -/
theorem PinInv.select (h : PinBase a s) (hlogins : s.client.LogsInAt none) {files : AccountFiles}
    (hfree : a.CollisionFree (a.select s r files).ledger.seen) : PinInv a (a.select s r files) := by
  unfold AccountDirectoryClient.select at hfree ⊢
  split
  · exact h.finish hlogins _
  · next account hselect =>
    rw [hselect] at hfree
    have hbase := h.select account.user
    dsimp only at hfree ⊢
    cases hfirst : s.ledger.first with
    | none =>
      have hpinned : s.pinned = none := by rw [h.pinned, hfirst]; rfl
      have hselected : (s.ledger.select account.user).first = some account.user := by
        simp only [Ledger.select, hfirst, Option.none_or]
      rw [hselected] at hbase
      simp only [hpinned, Option.any_none, Bool.false_eq_true, if_false]
      exact ⟨hbase.running _ _, hlogins, hselected⟩
    | some first =>
      have hpinned : s.pinned = some (a.identity first) := by rw [h.pinned, hfirst]; rfl
      have hselected : (s.ledger.select account.user).first = some first := by
        simp only [Ledger.select, hfirst, Option.some_or]
      rw [hselected, Option.map_some] at hbase
      simp only [hpinned, Option.any_some, decide_eq_true_eq] at hfree ⊢
      split_ifs at hfree ⊢ with hother
      · exact hbase.finish hlogins _
      · have huser : first = account.user :=
          identity_injective hfree (List.mem_cons_of_mem _ (h.first _ hfirst)) List.mem_cons_self
            (not_not.1 hother)
        subst huser
        exact ⟨hbase.running _ _, hlogins, hselected⟩

theorem seen_scope (account : Account) (outcome : ScopeOutcome) :
    (a.scope s r account outcome).ledger.seen = s.ledger.seen := by
  cases outcome with
  | notPrivate | failed => rfl
  | created =>
    unfold AccountDirectoryClient.scope
    dsimp only
    split <;> rfl

/-- The directory of the account is opened. -/
theorem PinInv.scope (h : PinBase a s) (hlogins : s.client.LogsInAt none) {account : Account}
    (hfirst : s.ledger.first = some account.user) (hfree : a.CollisionFree s.ledger.seen)
    (outcome : ScopeOutcome) : PinInv a (a.scope s r account outcome) := by
  cases outcome with
  | notPrivate | failed => exact h.finish hlogins _
  | created =>
    have hseen := h.first _ hfirst
    have hdir : Honest s.ledger account.user
        ((s.disk (a.userDir account.user)).getD createdDir) := by
      cases hd : s.disk (a.userDir account.user) with
      | none => exact honest_createdDir
      | some d =>
        obtain ⟨user, huser, heq, hd⟩ := h.disk _ d hd
        rw [userDir_injective hfree hseen huser heq]
        exact hd
    have hextends : s.ledger.Extends (s.ledger.record [.opened (a.userDir account.user)]) :=
      ⟨fun _ hx => hx, fun _ hx => hx⟩
    have hbase : PinBase a { s with
        disk := Function.update s.disk (a.userDir account.user)
          (some ((s.disk (a.userDir account.user)).getD createdDir))
        ledger := s.ledger.record [.opened (a.userDir account.user)] } := by
      refine h.extends hextends rfl rfl ?_ h.session ?_
      · intro dir d hd
        by_cases heq : dir = a.userDir account.user
        · subst heq
          rw [Function.update_self] at hd
          cases hd
          exact .inr ⟨_, hfirst, rfl, hdir.mono hextends⟩
        · rw [Function.update_of_ne heq] at hd
          exact .inl hd
      · intro x hx
        rcases List.mem_cons.1 hx with rfl | hx
        · exact .inr ⟨_, hfirst, rfl⟩
        · exact .inl hx
    unfold AccountDirectoryClient.scope
    dsimp only
    split
    · exact hbase.finish hlogins _
    · refine ⟨hbase.running _ _, hfirst, rfl, _, Function.update_self .., ?_⟩
      refine scopedFor_entered (hdir.mono hextends) ?_ hlogins
      intro credentials hcredentials
      obtain ⟨user, huser, hissued⟩ := h.session credentials hcredentials
      rw [hfirst] at huser
      cases huser
      exact hissued.mono hextends

variable [DecidableEq ι]

omit [DecidableEq ι] in
/-- The call goes on in its directory, returns or is dropped. -/
theorem PinInv.settle (h : PinBase a s) {account : Account} {d : StateDir} {stage : ScopedStage}
    (hfirst : s.ledger.first = some account.user) (hd : s.disk (a.userDir account.user) = some d)
    (hfor : ScopedFor s.ledger r account.user ⟨s.client, d, stage⟩) :
    PinInv a (s.settle r account (a.userDir account.user) stage) := by
  cases stage with
  | returned result => exact h.finish hfor.logins result
  | dropped => exact ⟨h.running none none, hfor.logins⟩
  | _ => exact ⟨h.running _ _, hfirst, rfl, d, hd, hfor⟩

/-- A step in the directory of the first user. -/
theorem PinInv.work (h : PinBase a s) {account : Account} {dir : String} {stage : ScopedStage}
    (hcall : CallFor a s (some (r, .working account dir stage))) {e : AccountEvent ι}
    (hstep : a.stepCall lib opt serde s r (.working account dir stage) e = some s') :
    PinInv a s' := by
  obtain ⟨hfirst, rfl, d, hd, hfor⟩ := hcall
  cases e with
  | work e =>
    simp only [stepCall, hd] at hstep
    split at hstep
    · cases hstep
    · next c d' stage' hscoped =>
      cases hstep
      obtain ⟨hfor', heffects⟩ : ScopedAdvance s.ledger r account (a.userDir account.user)
        ⟨s.client, d, stage⟩ ⟨c, d', stage'⟩ := hfor.step hscoped
      refine PinInv.settle (h.extends extends_advance rfl rfl ?_ ?_ ?_) hfirst
        (Function.update_self ..) hfor'
      · intro dir d'' hd''
        by_cases hdir : dir = a.userDir account.user
        · subst hdir
          rw [Function.update_self] at hd''
          cases hd''
          exact .inr ⟨_, hfirst, rfl, hfor'.directory⟩
        · rw [Function.update_of_ne hdir] at hd''
          exact .inl hd''
      · intro credentials hcredentials
        exact ⟨_, hfirst, hfor'.session credentials hcredentials⟩
      · intro x hx
        rcases List.mem_append.1 hx with hx | hx
        · exact .inr ⟨_, hfirst, heffects x hx⟩
        · exact .inl hx
  | _ => cases hstep

/-- An event of the rest of the server: the credentials in memory stay those of the first user. -/
theorem CallFor.client {running : Option (GameRecovery ι × AccountStage)} (h : CallFor a s running)
    (hbase : PinBase a s) {e : Client.Event ι} {c : Client ι}
    (hstep : s.client.step lib opt e = some c) (he : e.neutral = true) :
    (∀ credentials, c.session.credentials = some credentials →
      ∃ user, s.ledger.first = some user ∧
        (s.ledger.client s.client e c).Issued user credentials) ∧
    CallFor a { s with client := c, ledger := s.ledger.client s.client e c } running := by
  -- without a login under way, no new credentials arrive
  have hquiet : s.client.LogsInAt none → ∀ credentials, c.session.credentials = some credentials →
      ∃ user, s.ledger.first = some user ∧
        (s.ledger.client s.client e c).Issued user credentials := by
    intro hlogins credentials hcredentials
    rcases Client.credentials_of_neutral hlogins hstep he with
      hsame | hnone | ⟨_, _, _, hallowed, _⟩
    · obtain ⟨user, huser, hissued⟩ := hbase.session credentials (hsame ▸ hcredentials)
      exact ⟨user, huser, hissued.mono extends_client⟩
    · rw [hnone] at hcredentials
      cases hcredentials
    · cases hallowed
  have hfirst : (s.ledger.client s.client e c).first = s.ledger.first := by
    obtain ⟨issued, hledger, -⟩ := s.ledger.client_eq s.client e c
    rw [hledger]
  rcases running with _ | ⟨r, stage⟩
  · exact ⟨hquiet h, Client.LogsInAt.neutral h hstep he⟩
  · cases stage with
    | working account dir stage =>
      obtain ⟨huser, hdir, d, hd, hfor⟩ := h
      have hfor' := hfor.client hstep he
      refine ⟨fun credentials hcredentials => ⟨account.user, huser, ?_⟩, ?_⟩
      · exact hfor'.session credentials hcredentials
      · exact ⟨hfirst.trans huser, hdir, d, hd, hfor'⟩
    | selected account =>
      exact ⟨hquiet h.1, h.1.neutral hstep he, hfirst.trans h.2⟩
    | entered | uncancelled | current =>
      exact ⟨hquiet h, Client.LogsInAt.neutral h hstep he⟩

theorem PinInv.client (h : PinInv a s) {e : Client.Event ι} {c : Client ι}
    (hstep : s.client.step lib opt e = some c) (he : e.neutral = true) :
    PinInv a { s with client := c, ledger := s.ledger.client s.client e c } := by
  obtain ⟨hsession, hcall⟩ := h.call.client h.base hstep he
  obtain ⟨issued, hledger, -⟩ := s.ledger.client_eq s.client e c
  refine ⟨h.base.extends extends_client (by rw [hledger]) (by rw [hledger]) (fun _ _ => .inl)
    hsession ?_, hcall⟩
  intro x hx
  rw [hledger] at hx
  exact .inl hx

/-- A step of the call. -/
theorem PinInv.call_step (h : PinInv a s) {stage : AccountStage}
    (hrunning : s.running = some (r, stage)) (hfree : a.CollisionFree s'.ledger.seen)
    {e : AccountEvent ι} (hstep : a.stepCall lib opt serde s r stage e = some s') :
    PinInv a s' := by
  obtain ⟨hbase, hcall⟩ := h
  rw [hrunning] at hcall
  cases stage with
  | entered =>
    cases e with
    | isCancelled cancelled =>
      cases hstep
      split_ifs
      · exact hbase.finish hcall _
      · exact ⟨hbase.running _ _, hcall⟩
    | _ => cases hstep
  | uncancelled =>
    cases e with
    | proceed =>
      cases hstep
      split_ifs
      · exact hbase.finish hcall _
      · exact ⟨hbase.running _ _, hcall⟩
    | _ => cases hstep
  | current =>
    cases e with
    | select files =>
      cases hstep
      exact PinInv.select hbase hcall hfree
    | _ => cases hstep
  | selected account =>
    cases e with
    | scope outcome =>
      cases hstep
      rw [seen_scope] at hfree
      exact PinInv.scope hbase hcall.1 hcall.2 hfree outcome
    | _ => cases hstep
  | working account dir stage => exact PinInv.work hbase hcall hstep

omit [DecidableEq ι] in
/-- The client has no credentials, and nothing is pinned. -/
theorem PinInv.initial {c : Client ι} {disk : String → Option StateDir} {l : Ledger ι}
    (hdisk : ∀ dir d, disk dir = some d →
      ∃ user ∈ l.seen, dir = a.userDir user ∧ Honest l user d)
    (hfirst : l.first = none) (heffects : l.effects = [])
    (hsession : c.session.credentials = none) (hlogins : c.LogsInAt none) :
    PinInv a ⟨c, disk, none, none, none, l⟩ := by
  refine ⟨⟨?_, ?_, hdisk, ?_, ?_⟩, hlogins⟩
  · rw [hfirst]
    rfl
  · intro user huser
    rw [hfirst] at huser
    cases huser
  · intro credentials hcredentials
    have hcredentials' : c.session.credentials = some credentials := hcredentials
    rw [hsession] at hcredentials'
    cases hcredentials'
  · intro x hx
    rw [heffects] at hx
    cases hx

omit [DecidableEq ι] in
/-- A reset keeps the directories. -/
theorem PinBase.reset (h : PinBase a s) {c : Client ι} (hsession : c.session.credentials = none)
    (hlogins : c.LogsInAt none) :
    PinInv a ⟨c, s.disk, none, none, none, s.ledger.reset⟩ := by
  refine .initial (fun dir d hd => ?_) rfl rfl hsession hlogins
  obtain ⟨user, huser, hdir, hd⟩ := h.disk dir d hd
  exact ⟨user, huser, hdir, hd.mono ⟨fun _ hx => hx, fun _ hx => hx⟩⟩

/-- Every event keeps the invariant. -/
theorem PinInv.step (h : PinInv a s) (hfree : a.CollisionFree s'.ledger.seen) {e : AccountEvent ι}
    (hstep : a.step lib opt serde s e = some s') : PinInv a s' := by
  cases e with
  | client e =>
    simp only [AccountDirectoryClient.step] at hstep
    split_ifs at hstep with henabled
    obtain ⟨c, hc, rfl⟩ := Option.map_eq_some_iff.1 hstep
    exact h.client hc henabled.1
  | recover generation probe login =>
    simp only [AccountDirectoryClient.step] at hstep
    split at hstep
    · cases hstep
    · next hrunning =>
      split_ifs at hstep
      cases hstep
      have hlogins := h.call
      rw [hrunning] at hlogins
      exact ⟨h.base.running _ _, hlogins⟩
  | reload =>
    simp only [AccountDirectoryClient.step] at hstep
    split at hstep
    · cases hstep
    · next hrunning =>
      split at hstep
      · cases hstep
        exact h
      · next c hreplace =>
        cases hstep
        have hlogins := h.call
        rw [hrunning] at hlogins
        obtain ⟨transport, new, -, hnew, rfl⟩ := Client.replaceSession_ok hreplace
        exact h.base.reset (by rw [Client.install_session, makeSession_eq hnew]; rfl) hlogins
  | restart transport now =>
    simp only [AccountDirectoryClient.step, boot] at hstep
    split at hstep
    · cases hstep
    · next c hboot =>
      cases hstep
      have hlogins := Client.logsInAt_withTransport hboot
      obtain ⟨session, hsession, rfl⟩ := Client.withTransport_ok hboot
      exact h.base.reset (by rw [makeSession_eq hsession]; rfl) hlogins
  | isCancelled | proceed | select | scope | work =>
    obtain ⟨r, stage, hrunning, hcall⟩ := call_of_step rfl hstep
    exact h.call_step hrunning hfree hcall

end Steps

/-! ### One directory -/

section Directory

variable {ι : Type} [DecidableEq ι] {a : AccountDirectoryClient} {s s' : AccountState ι}
  {r : GameRecovery ι} {lib : Libraries} {opt : ClientOptions} {serde : Serde}

/-- Whatever stands in other directories than that of the first user, the step goes the same way and
leaves them alone. -/
def Confined (a : AccountDirectoryClient) (lib : Libraries) (opt : ClientOptions) (serde : Serde)
    (t : Transition (AccountState ι) (AccountEvent ι)) : Prop :=
  ∀ disk : String → Option StateDir,
    (∀ user, t.after.ledger.first = some user →
      disk (a.userDir user) = t.before.disk (a.userDir user)) →
    ∃ disk', a.step lib opt serde { t.before with disk := disk } t.event =
        some { t.after with disk := disk' } ∧
      (∀ user, t.after.ledger.first = some user →
        disk' (a.userDir user) = t.after.disk (a.userDir user)) ∧
      ∀ dir, (∀ user, t.after.ledger.first = some user → dir ≠ a.userDir user) →
        disk' dir = disk dir

/-- A step that reads and changes no directory. -/
theorem Confined.of_same {e : AccountEvent ι} (hsame : s'.disk = s.disk)
    (hstep : ∀ disk, a.step lib opt serde { s with disk := disk } e =
      some { s' with disk := disk }) : Confined a lib opt serde ⟨s, e, s'⟩ := by
  intro disk hdisk
  refine ⟨disk, hstep disk, fun user huser => ?_, fun _ _ => rfl⟩
  rw [hdisk user huser, hsame]

/-- A step that reads and changes the directory of the first user only. -/
theorem Confined.of_update {e : AccountEvent ι} {user : String} {d : StateDir}
    (hfirst : s'.ledger.first = some user)
    (hdisk' : s'.disk = Function.update s.disk (a.userDir user) (some d))
    (hstep : ∀ disk, disk (a.userDir user) = s.disk (a.userDir user) →
      a.step lib opt serde { s with disk := disk } e =
        some { s' with disk := Function.update disk (a.userDir user) (some d) }) :
    Confined a lib opt serde ⟨s, e, s'⟩ := by
  intro disk hdisk
  refine ⟨_, hstep disk (hdisk user hfirst), fun user' huser => ?_, fun dir hdir => ?_⟩
  · obtain rfl : user = user' := Option.some.inj (hfirst.symm.trans huser)
    rw [hdisk', Function.update_self, Function.update_self]
  · exact Function.update_of_ne (hdir user hfirst) _ _

omit [DecidableEq ι] in
theorem settle_disk (s : AccountState ι) (r : GameRecovery ι) (account : Account) (dir : String)
    (stage : ScopedStage) : (s.settle r account dir stage).disk = s.disk := by
  cases stage <;> rfl

omit [DecidableEq ι] in
theorem settle_ledger (s : AccountState ι) (r : GameRecovery ι) (account : Account) (dir : String)
    (stage : ScopedStage) : (s.settle r account dir stage).ledger = s.ledger := by
  cases stage <;> rfl

theorem confined_call (h : PinInv a s) {stage : AccountStage}
    (hrunning : s.running = some (r, stage)) {e : AccountEvent ι}
    (hstep : a.stepCall lib opt serde s r stage e = some s') :
    Confined a lib opt serde ⟨s, e, s'⟩ := by
  obtain ⟨hbase, hcall⟩ := h
  rw [hrunning] at hcall
  cases stage with
  | entered =>
    cases e with
    | isCancelled cancelled =>
      cases hstep
      cases cancelled <;>
        exact .of_same rfl fun disk => by simp only [AccountDirectoryClient.step, hrunning]; rfl
    | _ => cases hstep
  | uncancelled =>
    cases e with
    | proceed =>
      cases hstep
      split_ifs with hcurrent
      · refine .of_same rfl fun disk => ?_
        simp only [AccountDirectoryClient.step, hrunning, stepCall, if_pos hcurrent]
        rfl
      · refine .of_same rfl fun disk => ?_
        simp only [AccountDirectoryClient.step, hrunning, stepCall, if_neg hcurrent]
        rfl
    | _ => cases hstep
  | current =>
    cases e with
    | select files =>
      cases hstep
      have hdisk : (a.select s r files).disk = s.disk := by
        unfold AccountDirectoryClient.select
        split
        · rfl
        · dsimp only
          split_ifs <;> rfl
      refine .of_same hdisk fun disk => ?_
      simp only [AccountDirectoryClient.step, hrunning, stepCall, AccountDirectoryClient.select]
      split
      · rfl
      · split_ifs <;> rfl
    | _ => cases hstep
  | selected account =>
    cases e with
    | scope outcome =>
      cases hstep
      cases outcome with
      | notPrivate | failed =>
        exact .of_same rfl fun disk => by simp only [AccountDirectoryClient.step, hrunning]; rfl
      | created =>
        have hfirst : (a.scope s r account .created).ledger.first = some account.user := by
          unfold AccountDirectoryClient.scope
          dsimp only
          split <;> exact hcall.2
        have hchanged : (a.scope s r account .created).disk =
            Function.update s.disk (a.userDir account.user)
              (some ((s.disk (a.userDir account.user)).getD createdDir)) := by
          unfold AccountDirectoryClient.scope
          dsimp only
          split <;> rfl
        refine .of_update hfirst hchanged fun disk hdisk => ?_
        simp only [AccountDirectoryClient.step, hrunning, stepCall, AccountDirectoryClient.scope,
          hdisk]
        split <;> rfl
    | _ => cases hstep
  | working account dir stage =>
    obtain ⟨hfirst, rfl, d, hd, -⟩ := hcall
    cases e with
    | work e =>
      simp only [stepCall, hd] at hstep
      split at hstep
      · cases hstep
      · next c d' stage' hscoped =>
        cases hstep
        refine .of_update ((congrArg Ledger.first (settle_ledger ..)).trans hfirst)
          (settle_disk ..) fun disk hdisk => ?_
        simp only [AccountDirectoryClient.step, hrunning, stepCall, hdisk, hd, hscoped]
        cases stage' <;> rfl
    | _ => cases hstep

/-- A step reads and changes no directory but that of the first user. -/
theorem confined_of_step (h : PinInv a s) {e : AccountEvent ι}
    (hstep : a.step lib opt serde s e = some s') : Confined a lib opt serde ⟨s, e, s'⟩ := by
  cases e with
  | client e =>
    simp only [AccountDirectoryClient.step] at hstep
    split_ifs at hstep with henabled
    obtain ⟨c, hc, rfl⟩ := Option.map_eq_some_iff.1 hstep
    refine .of_same rfl fun disk => ?_
    simp only [AccountDirectoryClient.step, henabled, and_self, if_true, hc, Option.map_some]
  | recover generation probe login =>
    simp only [AccountDirectoryClient.step] at hstep
    split at hstep
    · cases hstep
    · next hrunning =>
      split_ifs at hstep with hfresh
      cases hstep
      refine .of_same rfl fun disk => ?_
      simp only [AccountDirectoryClient.step, hrunning, if_pos hfresh]
  | reload =>
    simp only [AccountDirectoryClient.step] at hstep
    split at hstep
    · cases hstep
    · next hrunning =>
      split at hstep
      · next herror =>
        cases hstep
        refine .of_same rfl fun disk => ?_
        simp only [AccountDirectoryClient.step, hrunning, herror]
      · next c hreplace =>
        cases hstep
        refine .of_same rfl fun disk => ?_
        simp only [AccountDirectoryClient.step, hrunning, hreplace]
  | restart transport now =>
    simp only [AccountDirectoryClient.step, boot] at hstep
    split at hstep
    · cases hstep
    · next c hboot =>
      cases hstep
      refine .of_same rfl fun disk => ?_
      simp only [AccountDirectoryClient.step, boot, hboot]
  | isCancelled | proceed | select | scope | work =>
    obtain ⟨r, stage, hrunning, hcall⟩ := call_of_step rfl hstep
    exact confined_call h hrunning hcall

end Directory

/-! ### Runs -/

section Run

variable {ι : Type} [DecidableEq ι] {a : AccountDirectoryClient} {start s s' : AccountState ι}
  {r : GameRecovery ι} {lib : Libraries} {opt : ClientOptions} {serde : Serde}
  {ts : List (Transition (AccountState ι) (AccountEvent ι))}

omit [DecidableEq ι] in
theorem CollisionFree.mono {users users' : List String} (h : a.CollisionFree users')
    (hsub : ∀ user ∈ users, user ∈ users') : a.CollisionFree users :=
  fun user hu user' hu' => h user (hsub user hu) user' (hsub user' hu')

omit [DecidableEq ι] in
theorem seen_of_select {files : AccountFiles} :
    ∀ user ∈ s.ledger.seen, user ∈ (a.select s r files).ledger.seen := by
  intro user huser
  unfold AccountDirectoryClient.select
  split
  · exact huser
  · dsimp only
    split_ifs <;> exact List.mem_cons_of_mem _ huser

theorem seen_of_call {stage : AccountStage} {e : AccountEvent ι}
    (hstep : a.stepCall lib opt serde s r stage e = some s') :
    ∀ user ∈ s.ledger.seen, user ∈ s'.ledger.seen := by
  cases stage with
  | entered =>
    cases e with
    | isCancelled cancelled =>
      cases hstep
      split_ifs <;> exact fun _ huser => huser
    | _ => cases hstep
  | uncancelled =>
    cases e with
    | proceed =>
      cases hstep
      split_ifs <;> exact fun _ huser => huser
    | _ => cases hstep
  | current =>
    cases e with
    | select files =>
      cases hstep
      exact seen_of_select
    | _ => cases hstep
  | selected account =>
    cases e with
    | scope outcome =>
      cases hstep
      rw [seen_scope]
      exact fun _ huser => huser
    | _ => cases hstep
  | working account dir stage =>
    cases e with
    | work e =>
      simp only [stepCall] at hstep
      split at hstep
      · cases hstep
      · split at hstep
        · cases hstep
        · cases hstep
          rw [settle_ledger]
          exact fun _ huser => huser
    | _ => cases hstep

/-- The users that were selected are not forgotten. -/
theorem seen_of_step {e : AccountEvent ι} (hstep : a.step lib opt serde s e = some s') :
    ∀ user ∈ s.ledger.seen, user ∈ s'.ledger.seen := by
  cases e with
  | client e =>
    simp only [AccountDirectoryClient.step] at hstep
    split_ifs at hstep
    obtain ⟨c, -, rfl⟩ := Option.map_eq_some_iff.1 hstep
    obtain ⟨issued, hledger, -⟩ := s.ledger.client_eq s.client e c
    intro user huser
    rw [hledger]
    exact huser
  | recover =>
    simp only [AccountDirectoryClient.step] at hstep
    split at hstep
    · cases hstep
    · split_ifs at hstep
      cases hstep
      exact fun _ huser => huser
  | reload =>
    simp only [AccountDirectoryClient.step] at hstep
    split at hstep
    · cases hstep
    · split at hstep <;>
      · cases hstep
        exact fun _ huser => huser
  | restart =>
    simp only [AccountDirectoryClient.step, boot] at hstep
    split at hstep
    · cases hstep
    · cases hstep
      exact fun _ huser => huser
  | isCancelled | proceed | select | scope | work =>
    obtain ⟨r, stage, -, hcall⟩ := call_of_step rfl hstep
    exact seen_of_call hcall

/-- The invariant holds in every state of a run. -/
theorem pinInv_of_run {transport : Transport} {now : ℕ}
    (hboot : a.boot lib opt transport now (fun _ => none) Ledger.empty = some start)
    (hrun : Run (a.step lib opt serde) start ts s) :
    (a.CollisionFree s.ledger.seen → PinInv a s) ∧
    ∀ t ∈ ts, a.CollisionFree t.before.ledger.seen → PinInv a t.before := by
  have hstart : PinInv a start := by
    unfold boot at hboot
    split at hboot
    · cases hboot
    · next c hclient =>
      cases hboot
      have hlogins := Client.logsInAt_withTransport hclient
      obtain ⟨session, hsession, rfl⟩ := Client.withTransport_ok hclient
      refine .initial (fun dir d hd => ?_) rfl rfl (by rw [makeSession_eq hsession]; rfl) hlogins
      cases hd
  have hkeeps : ∀ (m : AccountState ι) (e : AccountEvent ι) (m' : AccountState ι),
      (a.CollisionFree m.ledger.seen → PinInv a m) → a.step lib opt serde m e = some m' →
      a.CollisionFree m'.ledger.seen → PinInv a m' := by
    intro m e m' h hstep hfree
    have hbefore : a.CollisionFree m.ledger.seen := hfree.mono (seen_of_step hstep)
    exact (h hbefore).step hfree hstep
  exact ⟨hrun.invariant hkeeps fun _ => hstart,
    fun t ht => (hrun.mem_invariant hkeeps (fun _ => hstart) ht).1⟩

/-- The users that were selected up to some moment of a run are known at its end. -/
theorem seen_of_mem (hrun : Run (a.step lib opt serde) start ts s)
    {t : Transition (AccountState ι) (AccountEvent ι)} (ht : t ∈ ts) :
    ∀ user ∈ t.after.ledger.seen, user ∈ s.ledger.seen := by
  obtain ⟨before, after, rfl⟩ := List.append_of_mem ht
  exact hrun.around.2.2.preorder (fun _ _ huser => huser)
    (fun _ _ _ h h' user huser => h' user (h user huser)) fun _ _ _ => seen_of_step

omit [DecidableEq ι] in
/-- A call that selects another user than the first one is over, and nothing else has changed. -/
theorem select_other (h : PinBase a s) {files : AccountFiles} {account : Account} {first : String}
    (hselect : selectAccount a.parse a.accounts files = .ok account)
    (hfirst : s.ledger.first = some first) (hne : account.user ≠ first)
    (hfree : a.CollisionFree (a.select s r files).ledger.seen) :
    a.select s r files = { s with
      running := none
      outcome := some (.error badConfig)
      ledger := s.ledger.select account.user } := by
  have hpinned : s.pinned = some (a.identity first) := by rw [h.pinned, hfirst]; rfl
  have hother : a.identity first ≠ a.identity account.user := by
    intro heq
    have hseen : (a.select s r files).ledger.seen = account.user :: s.ledger.seen := by
      simp only [AccountDirectoryClient.select, hselect, hpinned, Option.any_some, heq, ne_eq,
        not_true_eq_false, decide_false, Bool.false_eq_true, if_false]
      rfl
    rw [hseen] at hfree
    have huser := identity_injective hfree (List.mem_cons_of_mem _ (h.first _ hfirst))
      List.mem_cons_self heq
    exact hne huser.symm
  simp only [AccountDirectoryClient.select, hselect, hpinned, Option.any_some, ne_eq, hother,
    not_false_eq_true, decide_true, if_true]
  rfl

/-- Until an account is selected, a call leaves the client and the directories alone, and has done
nothing. -/
theorem unselected_of_step {e : AccountEvent ι} {stage : AccountStage}
    (hrunning : s.running = some (r, stage)) (hstage : stage.unselected = true)
    (he : e.own = true) (hstep : a.step lib opt serde s e = some s') :
    s'.client = s.client ∧ s'.disk = s.disk ∧ s'.ledger.effects = s.ledger.effects := by
  obtain ⟨r', stage', hrunning', hcall⟩ := call_of_step he hstep
  obtain ⟨rfl, rfl⟩ : r = r' ∧ stage = stage' := by
    rw [hrunning] at hrunning'
    cases hrunning'
    exact ⟨rfl, rfl⟩
  cases stage with
  | entered =>
    cases e with
    | isCancelled cancelled =>
      cases hcall
      split_ifs <;> exact ⟨rfl, rfl, rfl⟩
    | _ => cases hcall
  | uncancelled =>
    cases e with
    | proceed =>
      cases hcall
      split_ifs <;> exact ⟨rfl, rfl, rfl⟩
    | _ => cases hcall
  | current =>
    cases e with
    | select files =>
      cases hcall
      unfold AccountDirectoryClient.select
      split
      · exact ⟨rfl, rfl, rfl⟩
      · dsimp only
        split_ifs <;> exact ⟨rfl, rfl, rfl⟩
    | _ => cases hcall
  | _ => cases hstage

/-- **The account pin.**  A server starts without state directories, and its calls of `recover` go on
over reloads and restarts while the account directory, the client and the answers of the servers are
arbitrary.  Then everything that was done since the last reset, every password request, pre-login,
login, loaded session and written file, was done for the user of the first selection since then, with an
authorization or with credentials that were obtained for that user, and in that user's directory; no
step reads or changes another directory; a call that selects another user ends with `invalid_config`,
and until then a call has touched nothing. -/
theorem account_pin {transport : Transport} {now : ℕ}
    (hboot : a.boot lib opt transport now (fun _ => none) Ledger.empty = some start)
    (hrun : Run (a.step lib opt serde) start ts s) (hfree : a.CollisionFree s.ledger.seen) :
    (∀ x ∈ s.ledger.effects,
      ∃ user, s.ledger.first = some user ∧ x.For s.ledger user (a.userDir user)) ∧
    (∀ t ∈ ts, Confined a lib opt serde t) ∧
    (∀ t ∈ ts, ∀ files account first, t.event = .select files →
      selectAccount a.parse a.accounts files = .ok account →
      t.before.ledger.first = some first → account.user ≠ first →
      t.after = { t.before with
        running := none
        outcome := some (.error badConfig)
        ledger := t.before.ledger.select account.user }) ∧
    ∀ t ∈ ts, ∀ r stage, t.before.running = some (r, stage) → stage.unselected = true →
      t.event.own = true →
      t.after.client = t.before.client ∧ t.after.disk = t.before.disk ∧
        t.after.ledger.effects = t.before.ledger.effects := by
  obtain ⟨hlast, hmem⟩ := pinInv_of_run hboot hrun
  have hafter : ∀ t ∈ ts, a.CollisionFree t.after.ledger.seen :=
    fun t ht => hfree.mono (seen_of_mem hrun ht)
  have hbefore : ∀ t ∈ ts, PinInv a t.before := by
    intro t ht
    have hseen : a.CollisionFree t.before.ledger.seen :=
      (hafter t ht).mono (seen_of_step (hrun.step_of_mem ht))
    exact hmem t ht hseen
  refine ⟨(hlast hfree).base.effects, ?_, ?_, ?_⟩
  · intro t ht
    exact confined_of_step (hbefore t ht) (hrun.step_of_mem ht)
  · rintro ⟨s, e, s'⟩ ht files account first rfl hselect hfirst hne
    obtain ⟨r, stage, -, hcall⟩ := call_of_step rfl (hrun.step_of_mem ht)
    have hfree' : a.CollisionFree s'.ledger.seen := hafter _ ht
    cases stage with
    | current =>
      obtain rfl : a.select s r files = s' := Option.some.inj hcall
      exact select_other (hbefore _ ht).base hselect hfirst hne hfree'
    | _ => cases hcall
  · intro t ht r stage hrunning hstage he
    exact unselected_of_step hrunning hstage he (hrun.step_of_mem ht)

end Run

/-! ### Two users -/

/-- An account directory with one file, which names a user. -/
def filesOf (user : String) : AccountFiles :=
  ⟨.found, true, fun _ => .found, none, fun _ => some (bytes user)⟩

def sampleAccounts : AccountDirectoryClient where
  accounts := ⟨"/accounts", some "account.json", .single⟩
  allowCreate := true
  sdkReady := true
  session := sampleConfig
  sha256 := id
  parse raw :=
    if raw = bytes "first" then some ⟨"first", "password"⟩
    else if raw = bytes "other" then some ⟨"other", "password"⟩
    else none

/-- A call up to its selection. -/
def selectEvents (user : String) : List (AccountEvent ℕ) :=
  [.recover 0 0 1, .isCancelled false, .proceed, .select (filesOf user)]

/-- An RPC of the call that is answered with `message`. -/
def loginEvents (i : ℕ) (message : Message) : List (AccountEvent ℕ) :=
  [.work (.submit "request"), .client (.acquire i), .client (.enter i), .client (.start i),
    .client (.answer i (.ok ⟨message, none⟩)), .client (.check i),
    .client (.finish i ⟨true, true⟩), .work .take, .client (.advance 1)]

/-- A file that is written in one piece. -/
def fileEvents (content : Text) : List (AccountEvent ℕ) :=
  [.work .proceed, .work (.disk (.create ".tmp")), .work (.disk (.write content)),
    .work (.disk .sync), .work (.disk .move)]

/-- A call that stops after the password request, a call for another user, and a call that resumes
the first one and logs in. -/
def pinEvents : List (AccountEvent ℕ) :=
  List.flatten [
    selectEvents "first",
    [.scope .created, .work .proceed, .work .proceed, .work (.lock .free), .work .proceed,
      .work (.validate (.ok ())), .work .proceed, .work .request,
      .work (.answer (.ok GameRecovery.sampleSdk))],
    fileEvents GameRecovery.sampleSdk.json,
    [.work (.context (.error badConfig))],
    selectEvents "other",
    selectEvents "first",
    [.scope .created, .work .proceed, .work .proceed, .work (.lock .free), .work .proceed,
      .work (.validate (.ok ())), .work .proceed,
      .work (.context (.ok ⟨"model", "system", "device", 1, 1, 1⟩))],
    loginEvents 0 (.preLogin false),
    loginEvents 1 (.login (some ("player", "new")) 1),
    [.work (.isCancelled false), .work (.persist GameRecovery.newId)],
    fileEvents GameRecovery.sampleSdk.json,
    [.work .proceed],
    fileEvents (GameRecovery.savedWith "new").json,
    [.work .proceed],
    fileEvents (GameRecovery.pointerTo GameRecovery.newId).json,
    [.work (.disk .sync)]]

/-- The steps of the sample server. -/
abbrev pinStep : AccountState ℕ → AccountEvent ℕ → Option (AccountState ℕ) :=
  sampleAccounts.step sampleLibraries Client.sampleOptions .compact

def pinStart : Option (AccountState ℕ) :=
  sampleAccounts.boot sampleLibraries Client.sampleOptions sampleTransport 0 (fun _ => none)
    Ledger.empty

theorem account_pin_sample : ∃ s : AccountState ℕ, s.ledger.first = some "first" ∧
    s.ledger.seen = ["first", "other", "first"] ∧ s.ledger.effects.length = 9 ∧
    ∀ x ∈ s.ledger.effects, x.For s.ledger "first" (sampleAccounts.userDir "first") := by
  obtain ⟨start, hboot, s, hs, hfirst, hseen, heffects⟩ : ∃ start ∈ pinStart,
      ∃ s ∈ exec pinStep start pinEvents, s.ledger.first = some "first" ∧
        s.ledger.seen = ["first", "other", "first"] ∧ s.ledger.effects.length = 9 := by
    decide +kernel
  obtain ⟨hfor, -⟩ := account_pin hboot (run_transitions hs) fun _ _ _ _ => ⟨id, id⟩
  refine ⟨s, hfirst, hseen, heffects, fun x hx => ?_⟩
  obtain ⟨user, huser, hx⟩ := hfor x hx
  rw [hfirst] at huser
  cases huser
  exact hx

end AccountDirectoryClient

end MoenotesApi
