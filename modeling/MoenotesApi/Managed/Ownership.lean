import MoenotesApi.Managed.Exclusion

/-!
# Who replaces the session

An operation of the client belongs to a caller, to a worker or to a version sync, and the owner says
what it may do.  A caller only queries, so the session is replaced by the running activity alone.

* `Owned`: the owners of the operations;
* `Sound`: this and the exclusion, in every state that a run reaches;
* `Installs`, `installs_cases`: the five ways in which an event replaces the session.
-/

namespace MoenotesApi.ManagedClient

open Runs

variable {I ρ : Type} {setup : Setup I ρ} {m m' : ManagedClient I ρ} {e : Event I}

/-! ### The operations of the client -/

/-- An operation that the activity `k` has called: a login or pre-login of a worker, or a version
discovery of a sync. -/
inductive WriterOp (m : ManagedClient I ρ) (k generation : ℕ) (call : Call) : Prop
  | worker {w} (hk : m.activities k = some (.worker w)) (hr : w.result = none)
      (hg : generation = w.generation) (hcall : call = .preLogin ∨ ∃ uid, call = .login uid)
  | sync {s presented} (hk : m.activities k = some (.sync s)) (hw : s.stage.waits = true)
      (hg : s.stage.generation = some generation) (hcall : call = .version presented)

/-- Every operation of the client belongs to a caller, a worker or a sync. -/
structure Owned (m : ManagedClient I ρ) : Prop where
  caller : ∀ n op, m.client.ops (.caller n) = some (.running op) → op.call = .query
  writer : ∀ k op, m.client.ops (.writer k) = some (.running op) →
    WriterOp m k op.generation op.call

theorem WriterOp.congr {k generation : ℕ} {call : Call} (h : WriterOp m k generation call)
    (ha : m'.activities k = m.activities k) : WriterOp m' k generation call := by
  cases h with
  | worker hk hr hg hcall => exact .worker (ha.trans hk) hr hg hcall
  | sync hk hw hg hcall => exact .sync (ha.trans hk) hw hg hcall

/-- An operation under way after a step of the client was under way before, or has just been
submitted. -/
theorem running_of_clientStep {ce : Client.Event Task} {client : Client Task} {task : Task} {op : Op}
    (hc : Client.step setup.lib setup.options m.client ce = some client)
    (hop : client.ops task = some (.running op)) :
    (∃ op', m.client.ops task = some (.running op') ∧ op.generation = op'.generation ∧
      op.method = op'.method ∧ op.call = op'.call) ∨
    ∃ request id, ce = .submit task request id ∧
      Client.Prepares setup.lib m.client id request op := by
  rcases (Client.Step.of_step hc).running hop with ⟨op', hop', hf⟩ | ⟨request, id, he, -, hp⟩
  · exact .inl ⟨op', hop', hf.generation, hf.method, hf.call⟩
  · exact .inr ⟨request, id, he, hp⟩

/-- An event that leaves the client alone keeps the ownership, if no operation loses its owner. -/
theorem Owned.of_same (h : Owned m) (hc : m'.client = m.client)
    (ha : ∀ k op, m.client.ops (.writer k) = some (.running op) →
      WriterOp m k op.generation op.call → WriterOp m' k op.generation op.call) : Owned m' where
  caller n op hop := h.caller n op (hc ▸ hop)
  writer k op hop := by
    rw [hc] at hop
    exact ha k op hop (h.writer k op hop)

/-- The activity `k` changes, and has no operation under way. -/
theorem Owned.of_idle (h : Owned m) {k : ℕ} {activity : Option Activity} (hc : m'.client = m.client)
    (hk : ∀ generation call, ¬ WriterOp m k generation call)
    (ha : m'.activities = Function.update m.activities k activity) : Owned m' := by
  refine h.of_same hc fun j op _ hw => hw.congr ?_
  have hjk : j ≠ k := by
    rintro rfl
    exact hk _ _ hw
  rw [ha, Function.update_of_ne hjk]

/-- An event that makes a step of the client keeps the ownership, if the operations under way keep
their owners and a new one has its own. -/
theorem Owned.of_client (h : Owned m) {ce : Client.Event Task}
    (hc : Client.step setup.lib setup.options m.client ce = some m'.client)
    (hcaller : ∀ n request id, ce = .submit (.caller n) request id →
      ∃ g query, request = .execute g query)
    (hkeep : ∀ k generation call, WriterOp m k generation call → WriterOp m' k generation call ∨
      ∀ op, m'.client.ops (.writer k) ≠ some (.running op))
    (hnew : ∀ k request id op, ce = .submit (.writer k) request id →
      Client.Prepares setup.lib m.client id request op → WriterOp m' k op.generation op.call) :
    Owned m' where
  caller n op hop := by
    rcases running_of_clientStep hc hop with ⟨op', hop', -, -, hcall⟩ | ⟨request, id, he, hp⟩
    · rw [hcall]
      exact h.caller n op' hop'
    · obtain ⟨g, query, rfl⟩ := hcaller n request id he
      cases hp
      rfl
  writer k op hop := by
    rcases running_of_clientStep hc hop with ⟨op', hop', hg, -, hcall⟩ | ⟨request, id, he, hp⟩
    · rw [hg, hcall]
      exact (hkeep k _ _ (h.writer k op' hop')).resolve_right fun hno => hno op hop
    · exact hnew k request id op he hp

theorem writerOp_of_recoveryCall {k : ℕ} {request : Request} {id : String} {op : Op} {w : Worker}
    (hk : m'.activities k = some (.worker w)) (hr : w.result = none)
    (hq : recoveryCall w.generation request = true)
    (hp : Client.Prepares setup.lib m.client id request op) :
    WriterOp m' k op.generation op.call := by
  cases hp with
  | preLogin => exact .worker hk hr (by simpa [recoveryCall] using hq) (.inl rfl)
  | login => exact .worker hk hr (by simpa [recoveryCall] using hq) (.inr ⟨_, rfl⟩)
  | execute | selfData | register | version => cases hq

theorem writerOp_of_version {k g : ℕ} {candidate : Option String} {id : String} {op : Op} {s : Sync}
    (hk : m'.activities k = some (.sync s)) (hw : s.stage.waits = true)
    (hg : s.stage.generation = some g)
    (hp : Client.Prepares setup.lib m.client id (.version g candidate) op) :
    WriterOp m' k op.generation op.call := by
  cases hp with
  | version => exact .sync hk hw hg rfl

theorem WriterOp.active {k generation : ℕ} {call : Call} (h : WriterOp m k generation call) :
    m.activities k ≠ none := by
  cases h with
  | worker hk | sync hk => simp [hk]

/-- A new activity has no operation yet, and takes none from another. -/
theorem Owned.of_spawn (h : Owned m) (hex : Exclusive m) {activity : Option Activity}
    (hc : m'.client = m.client)
    (ha : m'.activities = Function.update m.activities m.nextActivity activity) : Owned m' :=
  h.of_idle hc (fun _ _ hw => hw.active (hex.fresh _ le_rfl)) ha

/-- The operation that is taken or dropped is gone. -/
theorem not_running_of_ops {client client' : Client Task} {task : Task}
    (hops : client'.ops = Function.update client.ops task none) (op : Op) :
    client'.ops task ≠ some (.running op) := by
  rw [hops, Function.update_self]
  exact nofun

/-- A step of the client that submits nothing, while the activities stay as they are. -/
theorem Owned.of_clientOnly (h : Owned m) {ce : Client.Event Task}
    (hc : Client.step setup.lib setup.options m.client ce = some m'.client)
    (hce : ∀ task request id, ce ≠ .submit task request id)
    (ha : m'.activities = m.activities) : Owned m' :=
  h.of_client hc (fun n request id he => absurd he (hce _ _ _))
    (fun k _ _ hw => .inl (hw.congr (by rw [ha])))
    fun k request id op he => absurd he (hce _ _ _)

/-- The activity `k` goes on in a step of the client that submits nothing; its operations, if it
keeps any, are still its own. -/
theorem Owned.of_wentOn (h : Owned m) {ce : Client.Event Task} {k : ℕ} {activity : Option Activity}
    (hc : Client.step setup.lib setup.options m.client ce = some m'.client)
    (hce : ∀ task request id, ce ≠ .submit task request id)
    (hk : ∀ generation call, WriterOp m k generation call → WriterOp m' k generation call ∨
      ∀ op, m'.client.ops (.writer k) ≠ some (.running op))
    (ha : m'.activities = Function.update m.activities k activity) : Owned m' := by
  refine h.of_client hc (fun n request id he => absurd he (hce _ _ _)) (fun j generation call hw => ?_)
    fun j request id op he => absurd he (hce _ _ _)
  by_cases hjk : j = k
  · subst hjk
    exact hk generation call hw
  · exact .inl (hw.congr (by rw [ha, Function.update_of_ne hjk]))

/-- The activity `k` submits an operation of its own. -/
theorem Owned.of_submit (h : Owned m) {k : ℕ} {request : Request} {id : String}
    (hc : Client.step setup.lib setup.options m.client (.submit (.writer k) request id) =
      some m'.client)
    (hother : ∀ j, j ≠ k → m'.activities j = m.activities j)
    (hk : ∀ generation call, WriterOp m k generation call → WriterOp m' k generation call)
    (hnew : ∀ op, Client.Prepares setup.lib m.client id request op →
      WriterOp m' k op.generation op.call) : Owned m' := by
  refine h.of_client hc (fun n request id he => by cases he) (fun j generation call hw => ?_)
    fun j request id op he hp => ?_
  · by_cases hjk : j = k
    · subst hjk
      exact .inl (hk generation call hw)
    · exact .inl (hw.congr (hother j hjk))
  · cases he
    exact hnew op hp

/-- An activity that waits for no operation has none. -/
def Activity.waits : Activity → Bool
  | .worker w => w.result.isNone
  | .sync s => s.stage.waits
  | .reload _ => false

theorem WriterOp.waits {k generation : ℕ} {call : Call} (h : WriterOp m k generation call)
    {a : Activity} (hk : m.activities k = some a) : a.waits = true := by
  cases h with
  | worker hk' hr =>
    rw [hk] at hk'
    obtain rfl := Option.some.inj hk'
    simp [Activity.waits, hr]
  | sync hk' hw =>
    rw [hk] at hk'
    obtain rfl := Option.some.inj hk'
    exact hw

theorem not_writerOp {k : ℕ} {a : Activity} (hk : m.activities k = some a)
    (ha : a.waits = false) (generation : ℕ) (call : Call) : ¬ WriterOp m k generation call := by
  intro hw
  have := hw.waits hk
  rw [ha] at this
  cases this

/-- A worker that only reads the configuration keeps its operation. -/
theorem WriterOp.of_worker {k generation : ℕ} {call : Call} (h : WriterOp m k generation call)
    {w w' : Worker} (hk : m.activities k = some (.worker w))
    (hk' : m'.activities k = some (.worker w')) (hg : w'.generation = w.generation)
    (hr : w'.result = w.result) : WriterOp m' k generation call := by
  cases h with
  | worker hk₁ hr₁ hg₁ hcall =>
    rw [hk] at hk₁
    cases hk₁
    exact .worker hk' (hr.trans hr₁) (hg₁.trans hg.symm) hcall
  | sync hk₁ =>
    rw [hk] at hk₁
    cases hk₁

theorem Owned.of_branch (h : Owned m) (hex : Exclusive m) (hstep : Step setup m e m') :
    Owned m' := by
  cases hstep with
  | client hp hc => exact h.of_clientOnly hc (by rintro _ _ _ rfl; cases hp) rfl
  | call hn hc =>
    refine h.of_client hc (fun n request id he => ?_) (fun k _ _ hw => .inl (hw.congr rfl))
      fun k request id op he => ?_
    · cases he
      exact ⟨_, _, rfl⟩
    · cases he
  | returned _ _ hc | dropCaller _ hc | workerTake _ _ hc | workerImport _ _ hc =>
    exact h.of_clientOnly hc (by simp) rfl
  | observeSpawn | syncBegin | reloadBegin => exact h.of_spawn hex rfl rfl
  | workerCall hk hr hq hc =>
    exact h.of_submit hc (fun _ _ => rfl) (fun _ _ hw => hw.congr rfl)
      fun op => writerOp_of_recoveryCall hk hr hq
  | @workerConfig k w hk hr =>
    refine h.of_same rfl fun j op _ hw => ?_
    by_cases hj : j = k
    · subst hj
      exact hw.of_worker hk (setActivity_self _ _ _) rfl rfl
    · exact hw.congr (by simp [hj])
  | @workerReplace k _ w _ _ hk hr _ hc =>
    refine h.of_wentOn hc (by simp) (fun _ _ hw => .inl ?_) rfl
    exact hw.of_worker hk (setActivity_self _ _ _) rfl rfl
  | @workerReturn k _ _ hk hr hop =>
    refine h.of_same rfl fun j op hj hw => hw.congr ?_
    have hjk : j ≠ k := by
      rintro rfl
      rw [hop] at hj
      cases hj
    simp [hjk]
  | workerInterrupted hk _ _ hc =>
    exact h.of_wentOn hc (by simp) (fun _ _ _ => .inr (not_running_of_ops (Client.ops_of_drop hc))) rfl
  | workerEnd hk hr hl => exact h.of_idle rfl (not_writerOp hk (by simp [Activity.waits, hr])) rfl
  | syncGeneration hk | syncCandidates hk | syncGiveUp hk | syncEnd hk | reloadFail hk
  | reloadConfig hk | reloadReplaceFailed hk | reloadEndFailed hk | reloadEnd hk =>
    exact h.of_idle rfl (not_writerOp hk rfl) rfl
  | syncRefresh hk hc | syncAdopt hk hc =>
    exact h.of_submit hc (fun j hj => by simp [hj])
      (fun _ _ hw => absurd hw (not_writerOp hk rfl _ _))
      fun op => writerOp_of_version (by simp; rfl) rfl rfl
  | syncTake hk _ _ hc =>
    exact h.of_wentOn hc (by simp) (fun _ _ _ => .inr (not_running_of_ops (Client.ops_of_take hc))) rfl
  | reloadReplace hk hc =>
    exact h.of_wentOn hc (by simp) (fun _ _ hw => absurd hw (not_writerOp hk rfl _ _)) rfl
  | _ => exact h.of_same rfl fun _ _ _ hw => hw.congr rfl

/-- The two invariants together, for the states that a run reaches. -/
structure Sound (m : ManagedClient I ρ) : Prop where
  exclusive : Exclusive m
  owned : Owned m

theorem sound_initial {client : Client Task} (hops : ∀ task, client.ops task = none) (input : I) :
    Sound (initial client input : ManagedClient I ρ) :=
  ⟨exclusive_initial _ _, ⟨by simp [initial, hops], by simp [initial, hops]⟩⟩

theorem Sound.step [DecidableEq ρ] (h : Sound m) (hstep : m.step setup e = some m') : Sound m' :=
  ⟨h.exclusive.step hstep, h.owned.of_branch h.exclusive (Step.of_step hstep)⟩

theorem sound_of_run [DecidableEq ρ] {ts : List (Transition (ManagedClient I ρ) (Event I))}
    (hrun : Run (step setup) m ts m') (hs : Sound m) : Sound m' :=
  hrun.invariant (fun _ _ _ h hstep => h.step hstep) hs

/-- The configuration and the credentials of a session stay what they are. -/
theorem identity_of_run [DecidableEq ρ] {ts : List (Transition (ManagedClient I ρ) (Event I))}
    (hrun : Run (step setup) m ts m') {g : ℕ} (hg : g ≤ m.client.current) :
    (m'.client.arena g).config = (m.client.arena g).config ∧
      (m'.client.arena g).credentials = (m.client.arena g).credentials := by
  induction hrun with
  | nil => exact ⟨rfl, rfl⟩
  | @snoc ts d e d' hrun hstep ih =>
    have hle : m.client.current ≤ d.client.current :=
      hrun.preorder (R := fun a b => a.client.current ≤ b.client.current) (fun _ => le_rfl)
        (fun _ _ _ => le_trans) fun _ _ _ => current_le_of_step
    cases (Step.of_step hstep).clientEffect with
    | same hc => rw [hc]; exact ih
    | step _ hc =>
      obtain ⟨h1, h2⟩ := Client.identity_of_step hc (hg.trans hle)
      exact ⟨h1.trans ih.1, h2.trans ih.2⟩

/-! ### Who replaces the session -/

/-- The ways in which an event replaces the session, with the activity that does it. -/
inductive Installs (m : ManagedClient I ρ) (e : Event I) (m' : ManagedClient I ρ) : Prop
  | login {k w files} (he : e = .client (.finish (.writer k) files))
      (hk : m.activities k = some (.worker w)) (hr : w.result = none)
      (hnot : ∀ op presented, m.client.ops (.writer k) = some (.running op) →
        op.call ≠ .version presented)
      (hcred : m'.client.session.credentials ≠ none)
  | version {k s files op presented} (he : e = .client (.finish (.writer k) files))
      (hi : m.client.ops (.writer k) = some (.running op)) (hcall : op.call = .version presented)
      (hk : m.activities k = some (.sync s)) (hw : s.stage.waits = true)
      (hg : s.stage.generation = some m.client.current)
      (hdone : m'.client.ops (.writer k) = some (.done (.ok (.versions true))))
      (hcred : m'.client.session.credentials = m.client.session.credentials)
  | imported {k w provider} (he : e = .workerImport k provider)
      (hk : m.activities k = some (.worker w)) (hr : w.result = none)
      (hcred : m'.client.session.credentials ≠ none)
  | replaced {k w provider} (he : e = .workerReplace k provider)
      (hk : m.activities k = some (.worker w)) (hr : w.result = none)
      (hcred : m'.client.session.credentials ≠ none)
  | reloaded {k provider config} (he : e = .reloadReplace k provider)
      (hk : m.activities k = some (.reload (.read config)))

theorem installs_of_finish (h : Owned m) {task : Task} {op : Op} {response : TransportResponse}
    {files : RegisterFiles} {outcome : Outcome} {new : Session}
    (hi : m.client.ops task = some (.running op))
    (hf : Client.Concludes setup.lib m.client op response files outcome (some new))
    (hsession : m'.client.session = new) (hdone : m'.client.ops task = some (.done (.ok outcome))) :
    Installs m (.client (.finish task files)) m' := by
  cases task with
  | caller n =>
    -- a query installs nothing
    have hq := h.caller n op hi
    cases hf with
    | login hcall | register hcall | version hcall => rw [hq] at hcall; cases hcall
  | writer k =>
    cases h.writer k op hi with
    | worker hk hr _ hcall' =>
      refine .login rfl hk hr (fun op' presented hi' hversion => ?_) ?_
      · rw [hi] at hi'
        cases hi'
        rw [hversion] at hcall'
        simp at hcall'
      · rw [hsession]
        cases hf with
        | login => exact Option.some_ne_none _
        | register => exact Option.some_ne_none _
        | version hcall => rw [hcall] at hcall'; simp at hcall'
    | sync hk hw hg hcall' =>
      cases hf with
      | login hcall | register hcall => rw [hcall'] at hcall; cases hcall
      | version hcall _ _ hcur =>
        exact .version rfl hi hcall hk hw (hcur ▸ hg) hdone (by rw [hsession]; rfl)

theorem installs_cases (h : Owned m) (hstep : Step setup m e m')
    (hnew : m'.client.current ≠ m.client.current) :
    Installs m e m' ∧ m'.client.current = m.client.current + 1 := by
  cases hstep with
  | client hp hc =>
    obtain ⟨hinstall, hnext⟩ := Client.install_cases hc hnew
    refine ⟨?_, hnext⟩
    cases hinstall with
    | finish he hi _ hf hsession hdone =>
      subst he
      exact installs_of_finish h hi hf hsession hdone
    | imported he | replaced he => subst he; cases hp
  | workerImport hk hr hc =>
    obtain ⟨hinstall, hnext⟩ := Client.install_cases hc hnew
    refine ⟨.imported rfl hk hr ?_, hnext⟩
    cases hinstall with
    | finish he | replaced he => cases he
    | imported _ hsession =>
      simp only [setClient_client, hsession]
      exact Option.some_ne_none _
  | workerReplace hk hr _ hc =>
    obtain ⟨hinstall, hnext⟩ := Client.install_cases hc hnew
    refine ⟨.replaced rfl hk hr ?_, hnext⟩
    cases hinstall with
    | finish he | imported he => cases he
    | replaced he hsession =>
      cases he
      simp only [setActivity_client, setClient_client, hsession]
      exact Option.some_ne_none _
  | reloadReplace hk hc => exact ⟨.reloaded rfl hk, (Client.install_cases hc hnew).2⟩
  | call _ hc | returned _ _ hc | dropCaller _ hc | workerCall _ _ _ hc | workerTake _ _ hc
  | workerInterrupted _ _ _ hc | syncRefresh _ hc | syncTake _ _ _ hc | syncAdopt _ hc =>
    cases (Client.install_cases hc hnew).1 with
    | finish he | imported he | replaced he => cases he
  | _ => exact absurd rfl hnew

/-- An event that replaces the session belongs to an activity that is running. -/
theorem Installs.activity (h : Installs m e m') :
    ∃ k, e.activity = some k ∧ m.activities k ≠ none := by
  cases h with
  | login he hk | version he _ _ hk | imported he hk | replaced he hk | reloaded he hk =>
    subst he
    exact ⟨_, rfl, by simp [hk]⟩

end MoenotesApi.ManagedClient
