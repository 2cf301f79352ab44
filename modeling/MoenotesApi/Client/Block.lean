import MoenotesApi.Client.Slot

/-!
# Blocked sessions

A rejected call blocks its session.  Under a block no protected call starts any more, and under a
`Version` or `DeviceConflict` block no login, pre-login or registration either.

* `Strengthens`: how the block of one session can change;
* `Session.Sound`, `sessionsSound_of_run`: a block is a rejection, and the mismatch flag only stands
  beside a `Version` block;
* `Recorded`, `LastRecorded`: the transition that recorded the block of a session;
* `block_gate`: the gate, the monotonicity and the origin of the mismatch flag, over whole runs.
-/

namespace MoenotesApi

/-- A block is a rejection, and only a `Version` block has the mismatch flag. -/
structure Session.Sound (s : Session) : Prop where
  blocked : ∀ kind, s.blocked = some kind → Client.rejection kind = true
  mismatch : s.masterMismatch = true → s.blocked = some .version

namespace Client

open Runs

variable {ι : Type} {lib : Libraries} {opt : ClientOptions} {c c' : Client ι}

/-! ### The order of blocks -/

/-- The block of a session can go from the first to the second. -/
inductive Strengthens : Option ErrorKind → Option ErrorKind → Prop
  | refl (b : Option ErrorKind) : Strengthens b b
  | recorded {kind : ErrorKind} (h : rejection kind = true) : Strengthens none (some kind)
  | raised {b : Option ErrorKind} (h : strong b = true) : Strengthens (some .authentication) b

theorem rejection_of_strong {kind : ErrorKind} (h : strong (some kind) = true) :
    rejection kind = true := by
  revert h
  cases kind <;> decide

theorem Strengthens.eq_of_strong {a b : Option ErrorKind} (h : Strengthens a b)
    (ha : strong a = true) : b = a := by
  cases h with
  | refl => rfl
  | recorded => simp [strong] at ha
  | raised => simp [strong] at ha

theorem Strengthens.trans {a b d : Option ErrorKind} (h : Strengthens a b)
    (h' : Strengthens b d) : Strengthens a d := by
  cases h with
  | refl => exact h'
  | recorded hk =>
    cases h' with
    | refl => exact .recorded hk
    | raised hd =>
      cases d with
      | none => simp [strong] at hd
      | some kind => exact .recorded (rejection_of_strong hd)
  | raised hb => rw [h'.eq_of_strong hb]; exact .raised hb

theorem Strengthens.isSome {a b : Option ErrorKind} (h : Strengthens a b)
    (ha : a.isSome = true) : b.isSome = true := by
  cases h with
  | refl => exact ha
  | recorded => rfl
  | raised hb => cases b <;> simp_all [strong]

/-- A call that the gate lets through a blocked session. -/
theorem anonymous_of_gate {s : Session} {method : Method} (h : gate s method = none)
    (hb : s.blocked.isSome = true) :
    method.anonymous = true ∧
      (strong s.blocked = true → isLoginMethod method = false ∧ method ≠ registerMethod) := by
  obtain ⟨kind, hk⟩ := Option.isSome_iff_exists.1 hb
  simp only [gate, hk, ite_eq_right_iff, reduceCtorEq, imp_false] at h
  simp only [Bool.or_eq_true, Bool.not_eq_true', Bool.and_eq_true, decide_eq_true_eq, not_or,
    not_and, Bool.not_eq_false] at h
  refine ⟨h.1, fun hs => ?_⟩
  have hkind : kind = .version ∨ kind = .deviceConflict := by simpa [strong, hk] using hs
  constructor
  · by_contra hl
    exact (h.2 (.inl (by simpa using hl))).elim (fun hn => by simp_all)
  · intro hr
    exact (h.2 (.inr hr)).elim (fun hn => by simp_all)

/-! ### Recording a rejection -/

theorem strengthens_record {s : Session} (h : s.Sound) (method : Method) (error : ClientError) :
    Strengthens s.blocked (record s method error).blocked := by
  unfold record
  split_ifs with hr
  · have hrej : rejection error.kind = true := by simp_all [recorded]
    have hweak : strong s.blocked = false := by simp_all [recorded]
    cases hb : s.blocked with
    | none => exact .recorded hrej
    | some kind =>
      -- a recorded block that is not strong is an `Authentication` block
      obtain rfl : kind = .authentication := by
        have hk := h.blocked kind hb
        rw [hb] at hweak
        revert hk hweak
        cases kind <;> decide
      by_cases hs : strong (some error.kind) = true
      · exact .raised hs
      · have he : error.kind = .authentication := by
          revert hrej hs
          cases error.kind <;> decide
        rw [he]
        exact .refl _
  · exact .refl _

theorem sound_record {s : Session} (h : s.Sound) (method : Method) (error : ClientError) :
    (record s method error).Sound := by
  unfold record
  split_ifs with hr
  · refine ⟨fun kind hk => ?_, fun hm => ?_⟩
    · obtain rfl : error.kind = kind := by simpa using hk
      simp_all [recorded]
    · exact congrArg some (ClientError.kind_of_masterVersionMismatch hm)
  · exact h

theorem sound_clearOverride {s : Session} (h : s.Sound) (b : Bool) : (clearOverride s b).Sound := by
  cases b <;> exact ⟨h.blocked, h.mismatch⟩

theorem sound_fresh (config : SessionConfig) (credentials : Option Credentials)
    (transport : Transport) : (Session.fresh config credentials transport).Sound :=
  ⟨nofun, nofun⟩

theorem sound_discovered {s : Session} (h : s.Sound) (presented : SessionConfig) (master : String)
    (resource : Option String) : (discovered s presented master resource).Sound := by
  refine ⟨fun kind hk => ?_, nofun⟩
  simp only [discovered] at hk
  split_ifs at hk
  exact h.blocked kind hk

theorem Concludes.sound {op : Op} {response : TransportResponse} {files : RegisterFiles}
    {outcome : Outcome} {new : Session}
    (h : Concludes lib c op response files outcome (some new)) (hs : c.session.Sound) :
    new.Sound := by
  cases h with
  | login => exact sound_fresh _ _ _
  | register => exact ⟨nofun, nofun⟩
  | version => exact sound_discovered hs _ _ _

theorem Installs.sound {e : Event ι} {new : Session} (h : Installs lib c e new)
    (hs : c.session.Sound) : new.Sound := by
  cases h with
  | finish _ _ hf => exact hf.sound hs
  | imported hn => rw [makeSession_eq hn]; exact sound_fresh _ _ _
  | replaced _ hn => rw [makeSession_eq hn]; exact sound_fresh _ _ _

/-! ### The sessions of a client -/

/-- Every session installed so far is sound. -/
def SessionsSound (c : Client ι) : Prop := ∀ g ≤ c.current, (c.arena g).Sound

theorem sessionsSound_initial {config : SessionConfig} {provider : Option StaticCredentials}
    {transport : Transport} {now : ℕ}
    (h : withTransport lib opt config provider transport now = .ok c) : SessionsSound c := by
  obtain ⟨session, hn, rfl⟩ := withTransport_ok h
  rw [makeSession_eq hn]
  exact fun _ _ => sound_fresh _ _ _

variable [DecidableEq ι] {e : Event ι}

theorem SessionsSound.step (h : SessionsSound c) (hstep : step lib opt c e = some c') :
    SessionsSound c' := by
  intro g hg
  cases (Step.of_step hstep).sessions with
  | unchanged _ hc ha => rw [ha]; exact h g (hc ▸ hg)
  | @rejected _ op _ _ _ _ _ hc ha =>
    rw [ha]
    by_cases hgo : g = op.generation
    · subst hgo
      simpa using sound_record (h _ (hc ▸ hg)) _ _
    · simpa [hgo] using h g (hc ▸ hg)
  | @answered _ op _ _ _ _ _ hc ha =>
    rw [ha]
    by_cases hgo : g = op.generation
    · subst hgo
      simpa using sound_clearOverride (h _ (hc ▸ hg)) _
    · simpa [hgo] using h g (hc ▸ hg)
  | @installed new how hc ha =>
    rw [ha]
    rw [hc] at hg
    rcases Nat.le_or_eq_of_le_succ hg with hle | rfl
    · rcases install_arena_of_le c new hle with hi | hi <;> rw [hi]
      · exact h g hle
      · exact ⟨(h g hle).blocked, (h g hle).mismatch⟩
    · have hnew := how.sound (h c.current le_rfl)
      rwa [← install_session c new] at hnew

theorem sessionsSound_of_run {ts : List (Transition (Client ι) (Event ι))}
    (hrun : Run (step lib opt) c ts c') (h : SessionsSound c) : SessionsSound c' :=
  hrun.invariant (fun _ _ _ h hs => h.step hs) h

/-- One event only strengthens the blocks of the sessions there are. -/
theorem strengthens_of_step (h : SessionsSound c) (hstep : step lib opt c e = some c') {g : ℕ}
    (hg : g ≤ c.current) : Strengthens (c.arena g).blocked (c'.arena g).blocked := by
  cases (Step.of_step hstep).sessions with
  | unchanged _ hc ha => rw [ha]; exact .refl _
  | @rejected _ op _ _ _ _ _ hc ha =>
    rw [ha]
    by_cases hgo : g = op.generation
    · subst hgo
      simpa using strengthens_record (h _ hg) _ _
    · simpa [hgo] using Strengthens.refl _
  | @answered _ op b _ _ _ _ hc ha =>
    rw [ha]
    by_cases hgo : g = op.generation
    · subst hgo
      cases b <;> simpa [clearOverride] using Strengthens.refl _
    · simpa [hgo] using Strengthens.refl _
  | @installed new how hc ha =>
    rw [ha]
    rcases install_arena_of_le c new hg with hi | hi <;> rw [hi] <;> exact .refl _

theorem strengthens_of_run {ts : List (Transition (Client ι) (Event ι))}
    (hrun : Run (step lib opt) c ts c') (h : SessionsSound c) {g : ℕ} (hg : g ≤ c.current) :
    Strengthens (c.arena g).blocked (c'.arena g).blocked := by
  induction hrun with
  | nil => exact .refl _
  | snoc hrun hstep ih =>
    exact ih.trans (strengthens_of_step (sessionsSound_of_run hrun h) hstep
      (hg.trans (current_le_of_run hrun)))

/-! ### Where the block of a session comes from -/

omit [DecidableEq ι] in
/-- The transition `t` records the rejection `error` in the session of generation `g`. -/
def Records (t : Transition (Client ι) (Event ι)) (g : ℕ) (error : ClientError) : Prop :=
  ∃ i op overrideSent, t.event = .answer i (.error error) ∧
    t.before.ops i = some (.running op) ∧ op.stage = .calling overrideSent ∧ op.generation = g ∧
    recorded (t.before.arena g) op.method error = true

/-- `error` is the last rejection that `ts` records in the session of generation `g`. -/
def LastRecorded (ts : List (Transition (Client ι) (Event ι))) (g : ℕ) (error : ClientError) :
    Prop :=
  ∃ before t after, ts = before ++ t :: after ∧ Records t g error ∧
    ∀ t' ∈ after, ∀ error', ¬ Records t' g error'

omit [DecidableEq ι] in
theorem not_records_of_strong {t : Transition (Client ι) (Event ι)} {g : ℕ}
    (h : strong (t.before.arena g).blocked = true) (error : ClientError) :
    ¬ Records t g error := by
  rintro ⟨i, op, b, -, -, -, -, hr⟩
  simp [recorded, h] at hr

omit [DecidableEq ι] in
theorem Installs.mismatch {new : Session} (h : Installs lib c e new) :
    new.masterMismatch = false := by
  cases h with
  | finish _ _ hf => cases hf <;> rfl
  | imported hn => rw [makeSession_eq hn]; rfl
  | replaced _ hn => rw [makeSession_eq hn]; rfl

/-- A mismatch flag that stands after an event was set by it or stood before. -/
theorem mismatch_of_step (hstep : step lib opt c e = some c') {g : ℕ} (hg : g ≤ c'.current)
    (hm : (c'.arena g).masterMismatch = true) :
    (∃ error, Records ⟨c, e, c'⟩ g error ∧
      error.effectiveCode = some "MASTER_VERSION_MISMATCH") ∨
    g ≤ c.current ∧ (c.arena g).masterMismatch = true := by
  cases (Step.of_step hstep).sessions with
  | unchanged _ hc ha => exact .inr ⟨hc ▸ hg, ha ▸ hm⟩
  | @rejected i op b error he hi hs hc ha =>
    rw [ha] at hm
    by_cases hgo : g = op.generation
    · subst hgo
      by_cases hr : recorded (c.arena op.generation) op.method error = true
      · refine .inl ⟨error, ⟨i, op, b, he, hi, hs, rfl, hr⟩, ?_⟩
        simpa [record, hr, ClientError.masterVersionMismatch] using hm
      · exact .inr ⟨hc ▸ hg, by simpa [record, hr] using hm⟩
    · exact .inr ⟨hc ▸ hg, by simpa [hgo] using hm⟩
  | @answered i op b response he hi hs hc ha =>
    rw [ha] at hm
    by_cases hgo : g = op.generation
    · subst hgo
      exact .inr ⟨hc ▸ hg, by cases b <;> simpa [clearOverride] using hm⟩
    · exact .inr ⟨hc ▸ hg, by simpa [hgo] using hm⟩
  | @installed new how hc ha =>
    rw [ha] at hm
    rw [hc] at hg
    rcases Nat.le_or_eq_of_le_succ hg with hle | rfl
    · rcases install_arena_of_le c new hle with hi | hi <;> rw [hi] at hm <;>
        exact .inr ⟨hle, hm⟩
    · have hnew : (c.install new).session.masterMismatch = true := hm
      rw [install_session, how.mismatch] at hnew
      cases hnew

/-- The flag stands only beside a block that a master mismatch has caused. -/
theorem lastRecorded_of_mismatch {ts : List (Transition (Client ι) (Event ι))}
    (hrun : Run (step lib opt) c ts c') (h : SessionsSound c)
    (hfresh : ∀ g ≤ c.current, (c.arena g).masterMismatch = false) {g : ℕ} (hg : g ≤ c'.current)
    (hm : (c'.arena g).masterMismatch = true) :
    ∃ error, LastRecorded ts g error ∧
      error.effectiveCode = some "MASTER_VERSION_MISMATCH" := by
  induction hrun with
  | nil => simp [hfresh g hg] at hm
  | @snoc ts d e d' hrun hstep ih =>
    rcases mismatch_of_step hstep hg hm with ⟨error, hr, hcode⟩ | ⟨hg', hm'⟩
    · exact ⟨error, ⟨ts, _, [], rfl, hr, by simp⟩, hcode⟩
    · obtain ⟨error, ⟨before, t, after, rfl, hr, hlast⟩, hcode⟩ := ih hg' hm'
      refine ⟨error, ⟨before, t, after ++ [⟨d, e, d'⟩], by simp, hr, ?_⟩, hcode⟩
      -- the flag stands beside a `Version` block, so this event records nothing in `g`
      have hb := ((sessionsSound_of_run hrun h) g hg').mismatch hm'
      intro t' ht' error'
      rcases List.mem_append.1 ht' with ht' | ht'
      · exact hlast t' ht' error'
      · obtain rfl := List.mem_singleton.1 ht'
        exact not_records_of_strong (by simp [hb, strong]) error'

/-! ### The gate -/

/-- **The gate, the monotonicity of blocks and the origin of the mismatch flag.**  Once the session
of `g` is blocked, in whatever state a run reaches, calls that start later under it are anonymous,
and under a strong block none of them is a login, a pre-login or a registration. -/
theorem block_gate {config : SessionConfig} {provider : Option StaticCredentials}
    {transport : Transport} {now : ℕ} {start u v : Client ι}
    {ts us : List (Transition (Client ι) (Event ι))}
    (hstart : withTransport lib opt config provider transport now = .ok start)
    (hrun : Run (step lib opt) start ts u) (hlater : Run (step lib opt) u us v) {g : ℕ}
    (hg : g ≤ u.current) :
    ((u.arena g).blocked.isSome = true → ∀ t ∈ us, ∀ i op, t.event = .start i →
      t.before.ops i = some (.running op) → op.generation = g →
        op.method.anonymous = true ∧ (strong (u.arena g).blocked = true →
          op.method ≠ loginMethod ∧ op.method ≠ preLoginMethod ∧ op.method ≠ registerMethod)) ∧
    Strengthens (u.arena g).blocked (v.arena g).blocked ∧
    ((u.arena g).masterMismatch = true → (u.arena g).blocked = some .version ∧
      ∃ error, LastRecorded ts g error ∧
        error.effectiveCode = some "MASTER_VERSION_MISMATCH") := by
  have hsound := sessionsSound_of_run hrun (sessionsSound_initial hstart)
  refine ⟨fun hb t ht i op he hi hgo => ?_, strengthens_of_run hlater hsound hg, fun hm => ?_⟩
  · obtain ⟨before, after, rfl⟩ := List.append_of_mem ht
    obtain ⟨h1, hstep, -⟩ := hlater.around
    have hslot : SlotInv t.before := by
      obtain ⟨session, -, rfl⟩ := withTransport_ok hstart
      exact slotInv_of_run (hrun.append h1) (slotInv_initial session now)
    have hst := strengthens_of_run h1 hsound hg
    have hgate : gate (t.before.arena g) op.method = none := by
      rw [he] at hstep
      exact hgo ▸ gate_of_start hslot hstep hi
    obtain ⟨hanon, hlogin⟩ := anonymous_of_gate hgate (hst.isSome hb)
    refine ⟨hanon, fun hs => ?_⟩
    obtain ⟨hl, hreg⟩ := hlogin (by rw [hst.eq_of_strong hs]; exact hs)
    simp only [isLoginMethod, Bool.or_eq_false_iff, decide_eq_false_iff_not] at hl
    exact ⟨hl.1, hl.2, hreg⟩
  · refine ⟨(hsound g hg).mismatch hm, lastRecorded_of_mismatch hrun
      (sessionsSound_initial hstart) (fun g' _ => ?_) hg hm⟩
    obtain ⟨session, hn, rfl⟩ := withTransport_ok hstart
    rw [makeSession_eq hn]
    rfl

/-- A protected call of the sample client is rejected with a master mismatch. -/
def mismatchEvents : List (Event ℕ) :=
  callEvents 0 (.execute 0 ⟨.profile, [], true⟩) ++
    [.answer 0 (.error (.ofCode "MASTER_VERSION_MISMATCH")), .advance 1]

/-- The sample client after that rejection. -/
def mismatchClient : Client ℕ := (exec sampleStep sampleClient mismatchEvents).get rfl

theorem block_gate_mismatch :
    (mismatchClient.arena 0).blocked = some .version ∧
      ∀ t ∈ transitions sampleStep mismatchClient (callEvents 1 (.version 0 none)), ∀ i op,
        t.event = .start i → t.before.ops i = some (.running op) → op.generation = 0 →
          op.method.anonymous = true := by
  have hstart : withTransport sampleLibraries sampleOptions sampleConfig (some sampleProvider)
      sampleTransport 0 = .ok sampleClient := rfl
  have h := block_gate hstart (run_get mismatchEvents rfl)
    (run_get (callEvents 1 (.version 0 none)) rfl) (Nat.zero_le _)
  exact ⟨(h.2.2 rfl).1, fun t ht i op he hi hg => (h.1 rfl t ht i op he hi hg).1⟩

end Client

end MoenotesApi
