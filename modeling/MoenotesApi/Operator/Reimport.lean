import MoenotesApi.Client.Override
import MoenotesApi.Operator.Readback
import MoenotesApi.Operator.Registration

/-!
# A registration can be repeated from its response

`register_jp` saves the answer before it looks at it, and replaces the session last.  Whatever goes
wrong in between, `import_registration_response` makes of the saved answer what `register_jp` would
have made of it.

* `RegisterInv`, `Answered.step`: the operation of the call in the client;
* `Reads`, `Replaces`, `RunInv`: runs of the closure;
* `client_run`: the client takes part in them as a client;
* `import_of_retained`: the import of a saved answer;
* `registration_retained`: the order of the steps, and the import.
-/

namespace MoenotesApi.Registering

open JsonText Files Runs

variable {ι : Type} [DecidableEq ι] {lib : Libraries} {opt : ClientOptions} {json : MessageJson}
variable {call : RegisterCall ι} {c c' : Client ι} {s s' : Registering ι} {d : StateDir}
variable {us : List (Transition (Registering ι) (RegisterEvent ι))}

/-! ### The operation in the client -/

/-- An operation whose closure is `register_jp` calls Register, and belongs to a JP session. -/
def RegisterInv (c : Client ι) : Prop :=
  ∀ i op, c.ops i = some (.running op) → op.call = .register →
    op.method = registerMethod ∧ op.generation ≤ c.current ∧
      (c.arena op.generation).config.region = "jp"

theorem RegisterInv.step {e : Client.Event ι} (h : RegisterInv c)
    (hstep : c.step lib opt e = some c') : RegisterInv c' := by
  intro i op hi hcall
  rcases (Client.Step.of_step hstep).running hi with ⟨op', hi', hf⟩ | ⟨request, id, -, -, hp⟩
  · obtain ⟨hmethod, hle, hjp⟩ := h i op' hi' (hf.call ▸ hcall)
    rw [hf.method, hf.generation, (Client.identity_of_step hstep hle).1]
    exact ⟨hmethod, hle.trans (Client.current_le_of_step hstep), hjp⟩
  · rw [hp.generation, (Client.identity_of_step hstep le_rfl).1]
    cases hp with
    | register hr => exact ⟨rfl, Client.current_le_of_step hstep, hr⟩
    | execute | selfData | preLogin | login | version => cases hcall

/-- The call waits in its closure until that has ended, whatever else happens to the client. -/
theorem Answered.step {e : Client.Event ι} (h : Answered call c) (hne : ¬ call.finishes e)
    (hstep : c.step lib opt e = some c') : Answered call c' := by
  obtain ⟨op, response, hop, hcall, hg, hstage, hmessage⟩ := h
  have hkeep : ∀ {c' : Client ι}, c'.ops call.op = c.ops call.op → Answered call c' := fun heq =>
    ⟨op, response, heq.trans hop, hcall, hg, hstage, hmessage⟩
  -- another operation, or a stage that is not the last one
  have hother : ∀ {i : ι} {op' : Op}, c.ops i = some (.running op') →
      (∀ r, op'.stage ≠ .checked r) → call.op ≠ i := by
    rintro i op' hi hs rfl
    obtain rfl : op' = op := by simpa [hop, eq_comm] using hi
    exact hs _ hstage
  cases Client.Step.of_step hstep with
  | submitError hi | submit hi =>
    refine hkeep (Function.update_of_ne ?_ _ _)
    rintro rfl
    rw [hop] at hi
    cases hi
  | acquireFull hi hs | acquire hi hs | enterRefused hi hs | enter hi hs | start hi hs
  | answerError hi hs | answer hi hs | checkFailed hi hs | check hi hs =>
    refine hkeep (Function.update_of_ne (hother hi fun r hr => ?_) _ _)
    rw [hs] at hr
    cases hr
  | abort hi hs | drop hi hs =>
    refine hkeep (Function.update_of_ne (hother hi fun r hr => ?_) _ _)
    rw [hr] at hs
    cases hs
  | finishError | finishKeep | finishInstall =>
    refine hkeep (Function.update_of_ne (fun heq => hne ?_) _ _)
    exact heq.symm
  | @cancel i op' hi =>
    by_cases heq : call.op = i
    · subst heq
      obtain rfl : op' = op := by simpa [hop, eq_comm] using hi
      exact ⟨_, response, Function.update_self _ _ _, hcall, hg, hstage, hmessage⟩
    · exact hkeep (Function.update_of_ne heq _ _)
  | take hi =>
    refine hkeep (Function.update_of_ne ?_ _ _)
    rintro rfl
    rw [hop] at hi
    cases hi
  | importRefused | imported | replaceRefused | replaced | advance => exact hkeep rfl

/-- The sessions of the client are the same. -/
def SameSessions (c c' : Client ι) : Prop := c'.current = c.current ∧ c'.arena = c.arena

/-- A registration that ends with an error, at any stage, leaves the sessions alone. -/
theorem sameSessions_of_error {e : Client.Event ι} {i : ι} {op : Op} {error : ClientError}
    (hinv : RegisterInv c) (hstep : c.step lib opt e = some c') (hi : c.ops i = some (.running op))
    (hcall : op.call = .register) (hdone : c'.ops i = some (.done (.error error))) :
    SameSessions c c' := by
  -- the event is one of this operation
  have hself : ∀ {j : ι} {o : OpState}, c'.ops = Function.update c.ops j (some o) → i = j := by
    intro j o hops
    by_contra hij
    rw [hops, Function.update_of_ne hij, hi] at hdone
    cases hdone
  have hkeep : c'.ops i = c.ops i → SameSessions c c' := fun heq => by
    rw [heq, hi] at hdone
    cases hdone
  cases Client.Step.of_step hstep with
  | @answerError j op' overrideSent e hj hs =>
    obtain rfl : i = j := hself rfl
    obtain rfl : op = op' := by simpa [hi] using hj
    obtain ⟨hmethod, -, -⟩ := hinv i op hi hcall
    refine ⟨rfl, ?_⟩
    have hrecord : Client.record (c.arena op.generation) op.method e = c.arena op.generation := by
      rw [hmethod]
      rfl
    simp only [Client.complete_arena, Client.setSession_arena, hrecord, Function.update_eq_self]
  | @answer j =>
    obtain rfl : i = j := hself rfl
    simp at hdone
  | @finishInstall j =>
    obtain rfl : i = j := hself rfl
    simp at hdone
  | imported => exact hkeep rfl
  | replaced => exact hkeep rfl
  | _ => exact ⟨rfl, rfl⟩

/-! ### Runs of the closure -/

/-- A step of the closure itself. -/
def Own (t : Transition (Registering ι) (RegisterEvent ι)) : Prop := ∀ e, t.event ≠ .client e

/-- The fields of the answer are read and validated. -/
def Reads (t : Transition (Registering ι) (RegisterEvent ι)) : Prop :=
  Own t ∧ t.before.phase = .retained

/-- The closure replaces the session. -/
def Replaces (t : Transition (Registering ι) (RegisterEvent ι)) : Prop :=
  Own t ∧ ¬ SameSessions t.before.client t.after.client

/-- An event of the client changes neither the directory nor the phase; any other event is a step of
the closure. -/
theorem step_cases {e : RegisterEvent ι} (h : s.step lib opt json call e = some s') :
    (∃ e' client, e = .client e' ∧ ¬ call.finishes e' ∧
      s.client.step lib opt e' = some client ∧ s' = { s with client := client }) ∨
    (∀ e', e ≠ .client e') ∧ s.stepCall lib json call s.phase e = some s' := by
  cases e with
  | client e' =>
    simp only [step] at h
    split_ifs at h with hne
    obtain ⟨client, hclient, rfl⟩ := Option.map_eq_some_iff.1 h
    exact .inl ⟨e', client, rfl, hne, hclient, rfl⟩
  | proceed | disk a =>
    refine .inr ⟨?_, h⟩
    intro e' he
    cases he

/-- What holds after the steps `us` of a run that began with an answer for `config`. -/
structure RunInv (lib : Libraries) (json : MessageJson) (call : RegisterCall ι)
    (config : SessionConfig) (us : List (Transition (Registering ι) (RegisterEvent ι)))
    (s : Registering ι) : Prop where
  config_eq : s.config call = config
  generation_le : call.generation ≤ s.client.current
  sound : Sound lib json call config s.directory s.phase
  past : (∃ t ∈ us, Reads t) → Past s.phase ∨ ∃ result, s.phase = .ended result
  read : (∃ t ∈ us, Reads t) → Retained json call s.directory

omit [DecidableEq ι] in
/-- In the phases after the answer has been saved, it is there. -/
theorem Sound.retained {config : SessionConfig} {phase : RegisterPhase}
    (h : Sound lib json call config d phase) (hpast : Past phase) : Retained json call d := by
  cases phase with
  | retained => exact h
  | saved => exact h.1
  | checking file | writing file =>
    cases file with
    | response => cases hpast
    | credentials => exact h.1
  | answered | ended => cases hpast

omit [DecidableEq ι] in
theorem config_install {g : ℕ} (new : Session) (hg : g ≤ c.current) :
    ((c.install new).arena g).config = (c.arena g).config := by
  rcases Client.install_arena_of_le c new hg with h | h <;> rw [h]

theorem RunInv.step {config : SessionConfig} {e : RegisterEvent ι}
    (h : RunInv lib json call config us s) (hstep : s.step lib opt json call e = some s') :
    RunInv lib json call config (us ++ [⟨s, e, s'⟩]) s' := by
  rcases step_cases hstep with ⟨e', client, rfl, hne, hclient, rfl⟩ | ⟨hown, hcall⟩
  · -- the client goes on
    have hreads : (∃ t ∈ us ++ [(⟨s, .client e', { s with client := client }⟩ : Transition _ _)],
        Reads t) → ∃ t ∈ us, Reads t := by
      rintro ⟨t, ht, hread⟩
      rcases List.mem_append.1 ht with ht | ht
      · exact ⟨t, ht, hread⟩
      · obtain rfl := List.mem_singleton.1 ht
        exact absurd rfl (hread.1 e')
    refine ⟨?_, h.generation_le.trans (Client.current_le_of_step hclient), h.sound,
      fun hr => h.past (hreads hr), fun hr => h.read (hreads hr)⟩
    exact ((Client.identity_of_step hclient h.generation_le).1).trans h.config_eq
  · have hsound : Sound lib json call (s.config call) s.directory s.phase := by
      rw [h.config_eq]
      exact h.sound
    -- once the fields are read, the phase before is one of the later ones
    have hbefore : (∃ t ∈ us ++ [(⟨s, e, s'⟩ : Transition _ _)], Reads t) → Past s.phase := by
      rintro ⟨t, ht, hread⟩
      rcases List.mem_append.1 ht with ht | ht
      · rcases h.past ⟨t, ht, hread⟩ with hpast | ⟨result, hended⟩
        · exact hpast
        · rw [hended] at hcall
          cases hcall
      · obtain rfl := List.mem_singleton.1 ht
        rw [show s.phase = .retained from hread.2]
        trivial
    cases CallEffect.of_step hsound hcall with
    | failed keeps outcome =>
      exact ⟨h.config_eq, h.generation_le, trivial, fun _ => .inr ⟨_, rfl⟩,
        fun hr => keeps (hbefore hr)⟩
    | moved sound keeps running =>
      refine ⟨h.config_eq, h.generation_le, h.config_eq ▸ sound,
        fun hr => .inl (keeps (hbefore hr)), fun hr => ?_⟩
      exact sound.retained (keeps (hbefore hr))
    | @swapped created phase current =>
      refine ⟨?_, h.generation_le.trans (Nat.le_succ _), trivial, fun _ => .inr ⟨_, rfl⟩,
        fun hr => hsound.retained (hbefore hr)⟩
      rw [← h.config_eq]
      exact config_install _ h.generation_le

theorem runInv_of_run {c₀ : Client ι} {d₀ : StateDir} (hle : call.generation ≤ c₀.current)
    (hrun : Run (Registering.step lib opt json call) ⟨c₀, d₀, .answered⟩ us s) :
    RunInv lib json call (c₀.arena call.generation).config us s := by
  have hnone : ¬ ∃ t ∈ ([] : List (Transition (Registering ι) (RegisterEvent ι))), Reads t := by
    simp
  induction hrun with
  | nil => exact ⟨rfl, hle, trivial, fun h => absurd h hnone, fun h => absurd h hnone⟩
  | snoc hrun hstep ih => exact ih.step hstep

/-- **The client of a registration runs as a client.**  Its other operations go on, and the closure
ends the operation of the call in one step. -/
theorem client_run {c₀ : Client ι} {d₀ : StateDir} (hanswered : Answered call c₀)
    (hle : call.generation ≤ c₀.current) (hjson : json.toVec call.message ≠ none)
    (hrun : Run (Registering.step lib opt json call) ⟨c₀, d₀, .answered⟩ us s) :
    (∃ ts, Run (Client.step lib opt) c₀ ts s.client) ∧
      (Answered call s.client ∨ ∃ result, s.phase = .ended result) := by
  induction hrun with
  | nil => exact ⟨⟨[], .nil⟩, .inl hanswered⟩
  | @snoc us s e s' hrun hstep ih =>
    obtain ⟨⟨ts, hts⟩, hphase⟩ := ih
    have hinv := runInv_of_run hle hrun
    rcases step_cases hstep with ⟨e', client, rfl, hne, hclient, rfl⟩ | ⟨-, hcall⟩
    · exact ⟨⟨_, hts.snoc hclient⟩, hphase.imp_left fun h => h.step hne hclient⟩
    · have hnow : Answered call s.client := by
        rcases hphase with h | ⟨result, hended⟩
        · exact h
        · rw [hended] at hcall
          cases hcall
      have hsound : Sound lib json call (s.config call) s.directory s.phase := by
        rw [hinv.config_eq]
        exact hinv.sound
      have heffect := CallEffect.of_step hsound hcall
      have hend : ∀ result, s'.phase = .ended result →
          (∃ ts, Run (Client.step lib opt) c₀ ts s'.client) ∧
            (Answered call s'.client ∨ ∃ result, s'.phase = .ended result) := by
        intro result hended
        obtain ⟨files, hfinish⟩ := finish_of_ended heffect hnow hjson hended hsound
        exact ⟨⟨_, hts.snoc hfinish⟩, .inr ⟨result, hended⟩⟩
      cases heffect with
      | failed => exact hend _ rfl
      | moved => exact ⟨⟨ts, hts⟩, .inl hnow⟩
      | swapped => exact hend _ rfl

/-! ### The import -/

omit [DecidableEq ι] in
/-- Which answers `register_jp` accepts: the identifier and the secret are there, and they and the
device, if there is one, can stand in headers. -/
theorem registeredCredentials_eq_ok {config : SessionConfig} {message : DynamicMessage}
    {created : Credentials} (hvalid : config.validate lib = .ok ()) (hjp : config.region = "jp") :
    registeredCredentials lib config message = .ok created ↔
      ∃ credential, (message.getFieldByName "credential").bind FieldValue.asMessage =
          some credential ∧
        created = Client.registerCredentials (credential.text "id") (credential.text "credential")
          (credential.text "device_id") ∧
        created.playerId ≠ "" ∧ created.credential ≠ "" ∧
        lib.headerValue created.playerId ∧ lib.headerValue created.credential ∧
        created.deviceId.all lib.headerValue ∧ config.masterVersion.all lib.headerValue := by
  have hoptional : ∀ (map : Metadata) (key : String) (value : Option String),
      (∃ map', insertOptional lib map key value = .ok map') ↔ value.all lib.headerValue := by
    intro map key value
    cases value with
    | none => simp [insertOptional]
    | some v => simp [insertOptional, insertHeader_eq_ok]
  have husable : ∀ auth : Credentials, auth.bid = none →
      ((∃ map, config.metadata lib (some auth) "validation" false = .ok map) ↔
        auth.playerId ≠ "" ∧ auth.credential ≠ "" ∧ lib.headerValue auth.playerId ∧
          lib.headerValue auth.credential ∧ auth.deviceId.all lib.headerValue ∧
          config.masterVersion.all lib.headerValue) := by
    intro auth hbid
    obtain ⟨-, -, -, -, -, hid, hplatform, hversion⟩ := Client.validate_iff.1 hvalid
    simp only [SessionConfig.metadata, Except.bind_eq_ok, insertHeader_eq_ok, hid, hplatform,
      hversion, true_and, hjp, if_true, Except.pure_eq_ok, Except.refuse_eq_ok, hbid]
    constructor
    · rintro ⟨map, m₁, -, m₂, -, m₃, -, -, hempty, m₄, ⟨hplayer, -⟩, -, -, m₅, ⟨hsecret, -⟩, m₆,
        hdevice, m₆', -, m₇, hmaster, -⟩
      push Not at hempty
      exact ⟨hempty.1, hempty.2, hplayer, hsecret, (hoptional _ _ _).1 ⟨_, hdevice⟩,
        (hoptional _ _ _).1 ⟨_, hmaster⟩⟩
    · rintro ⟨hne, hne', hplayer, hsecret, hdevice, hmaster⟩
      obtain ⟨m₆, hm₆⟩ := (hoptional (((((Metadata.put [] "x-request-id" "validation").put
        "x-platform" config.platform).put "x-client-version" config.clientVersion).put "x-player-id"
        auth.playerId).put "x-player-credential" auth.credential) "x-device-id" auth.deviceId).2
        hdevice
      obtain ⟨m₇, hm₇⟩ := (hoptional m₆ "x-master-version" config.masterVersion).2 hmaster
      exact ⟨m₇, _, rfl, _, rfl, _, rfl, (), by simp [hne, hne'], _, ⟨hplayer, rfl⟩, (), by simp, _,
        ⟨hsecret, rfl⟩, m₆, hm₆, _, rfl, m₇, hm₇, rfl⟩
  unfold registeredCredentials
  cases hfield : message.getFieldByName "credential" with
  | none => simp
  | some field =>
    cases hmessage : field.asMessage with
    | none => simp [hmessage]
    | some credential =>
      simp only [Option.bind_some, hmessage, Option.some.injEq, exists_eq_left']
      constructor
      · intro h
        obtain ⟨map, hmap, rfl⟩ := Except.map_eq_ok.1 h
        exact ⟨rfl, (husable _ rfl).1 ⟨map, hmap⟩⟩
      · rintro ⟨rfl, h⟩
        obtain ⟨map, hmap⟩ := (husable (Client.registerCredentials _ _ _) rfl).2 h
        exact Except.map_eq_ok.2 ⟨map, hmap, rfl⟩

omit [DecidableEq ι] in
/-- The credentials as the import builds them. -/
theorem imported_eq (id credential deviceId : String) :
    (⟨id, credential, (some deviceId).filter fun s => decide (s ≠ ""), none⟩ : Credentials) =
      Client.registerCredentials id credential deviceId := by
  unfold Client.registerCredentials
  by_cases h : deviceId = "" <;> simp [Option.filter, h]

omit [DecidableEq ι] in
/-- The import of a saved answer is what `register_jp` does with the answer. -/
theorem import_of_retained {config : SessionConfig} {output : String}
    (hvalid : config.validate lib = .ok ()) (hjp : config.region = "jp")
    (hjson : ∀ raw, json.toVec call.message = some raw → json.deserialize raw = some call.message)
    (hretained : Retained json call d) :
    importRegistrationResponse json lib config d call.responseFile output =
      (registeredCredentials lib config call.message).bind fun created =>
        saveCredentials config created d output := by
  obtain ⟨raw, hraw, hlen, hentry⟩ := hretained
  have hread : secretRead d call.responseFile = .ok raw := secretRead_eq_ok.2 ⟨hentry, hlen⟩
  unfold importRegistrationResponse registeredCredentials
  simp only [bind, Except.bind, hvalid, hread, hjson raw hraw, Except.refuse, hjp, ne_eq,
    not_true_eq_false, if_false, Option.elim_some]
  cases call.message.getFieldByName "credential" with
  | none => rfl
  | some field =>
    simp only [Option.elim_some]
    cases field.asMessage with
    | none => rfl
    | some credential =>
      simp only [Option.elim_some, imported_eq]
      cases config.metadata lib (some (Client.registerCredentials (credential.text "id")
        (credential.text "credential") (credential.text "device_id"))) "validation" false <;> rfl

/-! ### The registration as a whole -/

/-- What a replacement has come after. -/
theorem RunInv.of_replaces {config : SessionConfig} {e : RegisterEvent ι}
    (h : RunInv lib json call config us s) (hcall : s.stepCall lib json call s.phase e = some s')
    (hne : ¬ SameSessions s.client s'.client) :
    Retained json call s.directory ∧ ∃ created,
      registeredCredentials lib config call.message = .ok created ∧
      s.directory.entries call.output = some (.file true (exportedCredentials config created)) ∧
      s.client.current = call.generation ∧ s'.phase = .ended (.ok ()) ∧
      s'.client.session =
        .registered config created (s.client.arena call.generation).transport := by
  have hsound : Sound lib json call (s.config call) s.directory s.phase := by
    rw [h.config_eq]
    exact h.sound
  cases CallEffect.of_step hsound hcall with
  | failed => exact absurd ⟨rfl, rfl⟩ hne
  | moved => exact absurd ⟨rfl, rfl⟩ hne
  | @swapped created phase current =>
    rw [phase, h.config_eq] at hsound
    obtain ⟨hretained, hcreated, hentry⟩ := hsound
    refine ⟨hretained, created, hcreated, hentry, current, rfl, ?_⟩
    rw [Client.complete_session, Client.install_session, h.config_eq]

/-- **A registration is saved before it is used.**  `register_jp` saves the answer before it reads a
field of it or replaces the session, and the saved answer stays.  It replaces the session last, after
the file with the credentials of the new session, and an error at any stage leaves the sessions as
they are.  The import of the saved answer fails with the error that `register_jp` makes of the
answer, or writes the file that `register_jp` writes, provided that it is not too long for one. -/
theorem registration_retained {first : SessionConfig} {provider : Option StaticCredentials}
    {transport : Transport} {now : ℕ} {start c₀ : Client ι} {d₀ : StateDir}
    {ts : List (Transition (Client ι) (Client.Event ι))}
    (hstart : Client.withTransport lib opt first provider transport now = .ok start)
    (hrun : Run (Client.step lib opt) start ts c₀) (hanswered : Answered call c₀)
    (hreg : Run (Registering.step lib opt json call) ⟨c₀, d₀, .answered⟩ us s)
    (hjson : ∀ raw, json.toVec call.message = some raw →
      json.deserialize raw = some call.message) :
    (∀ t ∈ us, Reads t ∨ Replaces t → Retained json call t.before.directory) ∧
    ((∃ t ∈ us, Reads t) → Retained json call s.directory) ∧
    (∀ t ∈ us, Replaces t → ∃ created,
      registeredCredentials lib (c₀.arena call.generation).config call.message = .ok created ∧
      t.before.directory.entries call.output =
        some (.file true (exportedCredentials (c₀.arena call.generation).config created)) ∧
      t.before.client.current = call.generation ∧ t.after.phase = .ended (.ok ()) ∧
      t.after.client.session = .registered (c₀.arena call.generation).config created
        (t.before.client.arena call.generation).transport) ∧
    (∀ t ∈ us, Own t → t.after.phase ≠ .ended (.ok ()) →
      SameSessions t.before.client t.after.client) ∧
    (∀ t ∈ ts, ∀ i op error, t.before.ops i = some (.running op) → op.call = .register →
      t.after.ops i = some (.done (.error error)) → SameSessions t.before t.after) ∧
    (Retained json call s.directory → s.directory.isPrivate = true →
      ∀ output, s.directory.entries output = none →
        (∀ error, registeredCredentials lib (c₀.arena call.generation).config call.message =
            .error error →
          importRegistrationResponse json lib (c₀.arena call.generation).config s.directory
            call.responseFile output = .error error) ∧
        (∀ created, registeredCredentials lib (c₀.arena call.generation).config call.message =
            .ok created →
          byteLength (exportedCredentials (c₀.arena call.generation).config created) ≤ fileLimit →
          importRegistrationResponse json lib (c₀.arena call.generation).config s.directory
            call.responseFile output =
            .ok (s.directory.set output (some (.file true
              (exportedCredentials (c₀.arena call.generation).config created)))))) := by
  obtain ⟨session, hsession, rfl⟩ := Client.withTransport_ok hstart
  have hops : RegisterInv (Client.initial opt session now : Client ι) := by
    intro i op hi
    cases hi
  have hinv : RegisterInv c₀ := hrun.invariant (fun _ _ _ h hs => h.step hs) hops
  have hvalid := Client.validInv_of_run hrun (Client.validInv_initial hsession)
  obtain ⟨op, response, hop, hregister, hg, -, -⟩ := hanswered
  obtain ⟨-, hle, hjp⟩ := hinv call.op op hop hregister
  rw [hg] at hle hjp
  have hconfig := hvalid.configs call.generation hle
  -- a step of the closure, with what holds before it
  have hat : ∀ t ∈ us, Own t → ∃ before,
      RunInv lib json call (c₀.arena call.generation).config before t.before ∧
      t.before.stepCall lib json call t.before.phase t.event = some t.after := by
    intro t ht hown
    obtain ⟨before, after, rfl⟩ := List.append_of_mem ht
    obtain ⟨h1, hstep, -⟩ := hreg.around
    refine ⟨before, runInv_of_run hle h1, ?_⟩
    rcases step_cases hstep with ⟨e', client, he, -⟩ | ⟨-, hcall⟩
    · exact absurd he (hown e')
    · exact hcall
  refine ⟨?_, (runInv_of_run hle hreg).read, ?_, ?_, ?_, ?_⟩
  · rintro t ht (hread | hreplace)
    · obtain ⟨before, h, -⟩ := hat t ht hread.1
      have hsound := h.sound
      rw [hread.2] at hsound
      exact hsound
    · obtain ⟨before, h, hcall⟩ := hat t ht hreplace.1
      exact (h.of_replaces hcall hreplace.2).1
  · rintro t ht hreplace
    obtain ⟨before, h, hcall⟩ := hat t ht hreplace.1
    exact (h.of_replaces hcall hreplace.2).2
  · intro t ht hown hphase
    obtain ⟨before, h, hcall⟩ := hat t ht hown
    by_contra hne
    obtain ⟨-, created, -, -, -, hended, -⟩ := h.of_replaces hcall hne
    exact hphase hended
  · intro t ht i op' error hi hcall hdone
    obtain ⟨before, after, rfl⟩ := List.append_of_mem ht
    obtain ⟨h1, hstep, -⟩ := hrun.around
    have hbefore : RegisterInv t.before := h1.invariant (fun _ _ _ h hs => h.step hs) hops
    exact sameSessions_of_error hbefore hstep hi hcall hdone
  · intro hretained hprivate output hfree
    have himport : importRegistrationResponse json lib (c₀.arena call.generation).config s.directory
        call.responseFile output = _ := import_of_retained hconfig hjp hjson hretained
    refine ⟨fun error herror => ?_, fun created hcreated hlen => ?_⟩
    · rw [himport, herror]
      rfl
    · rw [himport, hcreated]
      have hchecks : createChecks s.directory
          (exportedCredentials (c₀.arena call.generation).config created) = .ok () := by
        simp [createChecks, Except.refuse, Nat.not_lt.2 hlen, hprivate, bind, Except.bind]
      simp [Except.bind, saveCredentials, secretCreate, hchecks, Except.refuse, hfree, bind, pure,
        Except.pure]

/-! ### A sample registration -/

/-- An answer to Register with the identifier `id`. -/
def jpAnswer (id : String) : DynamicMessage where
  fields := [("credential", .message [("id", .string id), ("credential", .string "token"),
    ("device_id", .string ""), ("profile_id", .other "0")]), ("profile_id", .other "0")]

/-- The JSON of `jpAnswer id`. -/
def jpAnswerText (id : String) : Text :=
  word "\x7b\"credential\":\x7b\"id\":" ++ string id ++ word ",\"credential\":\"token\"\x7d\x7d"

def jpAnswerJson (id : String) : MessageJson :=
  ⟨fun _ => some (jpAnswerText id), fun _ => some (jpAnswer id)⟩

def jpCall (id : String) : RegisterCall ℕ := ⟨0, 0, "worker.json", jpAnswer id⟩

/-- A registration up to its closure. -/
def answeredEvents : List (Client.Event ℕ) :=
  Client.callEvents 0 (.register 0 true) ++
    [.answer 0 (.ok ⟨(jpAnswer "player").decoded, none⟩), .check 0]

def answeredClient : Client ℕ :=
  (exec Client.sampleStep Client.jpClient answeredEvents).get (by decide +kernel)

def answeredOp : Op := (answeredClient.running 0).get (by decide +kernel)

theorem answered_answeredClient : Answered (jpCall "player") answeredClient := by
  refine ⟨answeredOp, ⟨(jpAnswer "player").decoded, none⟩,
    Client.running_eq_some.1 (Option.some_get _).symm, ?_, ?_, ?_, rfl⟩
  · decide +kernel
  · decide +kernel
  · decide +kernel

abbrev sampleRegister : Registering ℕ → RegisterEvent ℕ → Option (Registering ℕ) :=
  Registering.step sampleLibraries Client.sampleOptions (jpAnswerJson "player") (jpCall "player")

/-- The closure until the answer is saved. -/
def savingEvents : List (RegisterEvent ℕ) :=
  [.proceed, .proceed, .disk (.create ".tmp"), .disk (.write (jpAnswerText "player")), .disk .sync,
    .disk .move]

def answeredRegistering : Registering ℕ :=
  ⟨answeredClient, ⟨true, fun _ => none⟩, .answered⟩

def savedRegistering : Registering ℕ :=
  (exec sampleRegister answeredRegistering savingEvents).get (by decide +kernel)

/-- The step that reads the saved answer. -/
def readingStep : Transition (Registering ℕ) (RegisterEvent ℕ) :=
  transitionOf sampleRegister savedRegistering .proceed (by decide +kernel)

theorem reads_readingStep : Reads readingStep := by
  have hown : Own readingStep := by
    intro e he
    cases he
  refine ⟨hown, ?_⟩
  have hphase : (match savedRegistering.phase with
    | .retained => true
    | _ => false) = true := by decide +kernel
  split at hphase
  · next h => exact h
  · cases hphase

theorem registration_retained_sample :
    Retained (jpAnswerJson "player") (jpCall "player") readingStep.after.directory := by
  have hstart : Client.withTransport sampleLibraries Client.sampleOptions Client.jpConfig none
      Client.jpTransport 0 = .ok Client.jpClient := rfl
  have hrun : Run Client.sampleStep Client.jpClient _ answeredClient :=
    run_get answeredEvents (by decide +kernel)
  have hsaving : Run sampleRegister answeredRegistering _ savedRegistering :=
    run_get savingEvents (by decide +kernel)
  have hreg : Run sampleRegister answeredRegistering
      (transitions sampleRegister answeredRegistering savingEvents ++ [readingStep])
      readingStep.after := hsaving.append (run_transitionOf .nil)
  exact (registration_retained hstart hrun answered_answeredClient hreg fun _ _ => rfl).2.1
    ⟨readingStep, by simp, reads_readingStep⟩

/-! ### An answer that is too long -/

open OperatorState (longRegion byteLength_longRegion longRegion_ne)

theorem headerValue_longRegion (n : ℕ) : sampleLibraries.headerValue (longRegion n) = true := by
  refine List.all_eq_true.2 fun c hc => ?_
  rw [longRegion, String.toList_ofList] at hc
  obtain rfl := (List.mem_replicate.1 hc).2
  decide

theorem byteLength_jpAnswerText (id : String) :
    byteLength (jpAnswerText id) = byteLength (string id) + 43 := by
  have hempty : byteLength (jpAnswerText "") = 45 := by decide +kernel
  have hquotes : byteLength (string "") = 2 := by decide
  simp only [jpAnswerText, byteLength_append, hquotes] at hempty ⊢
  omega

theorem byteLength_exported (id : String) :
    byteLength (exportedCredentials Client.jpConfig ⟨id, "token", none, none⟩) =
      byteLength (string id) + 125 := by
  have hempty : byteLength (exportedCredentials Client.jpConfig ⟨"", "token", none, none⟩) =
      127 := by decide +kernel
  have hquotes : byteLength (string "") = 2 := by decide
  simp only [exportedCredentials, StaticCredentials.json, byteLength_append, hquotes] at hempty ⊢
  omega

/-- With a certain length of the identifier the answer fits its file and the credentials do not. -/
theorem import_of_long {id : String} (hne : id ≠ "") (hheader : sampleLibraries.headerValue id = true)
    (hanswer : byteLength (string id) + 43 ≤ fileLimit)
    (hfile : fileLimit < byteLength (string id) + 125) {d : StateDir}
    (hentry : d.entries "worker.response" = some (.file true (jpAnswerText id))) :
    Retained (jpAnswerJson id) (jpCall id) d ∧
    registeredCredentials sampleLibraries Client.jpConfig (jpCall id).message =
      .ok ⟨id, "token", none, none⟩ ∧
    importRegistrationResponse (jpAnswerJson id) sampleLibraries Client.jpConfig d
      (jpCall id).responseFile (jpCall id).output = .error badConfig := by
  have hvalid : SessionConfig.validate sampleLibraries Client.jpConfig = .ok () := rfl
  have hcreated : registeredCredentials sampleLibraries Client.jpConfig (jpCall id).message =
      .ok ⟨id, "token", none, none⟩ :=
    (registeredCredentials_eq_ok hvalid rfl).2
      ⟨_, rfl, rfl, hne, (by decide : "token" ≠ ""), hheader,
        (by decide : sampleLibraries.headerValue "token" = true), rfl, rfl⟩
  have hname : (jpCall id).responseFile = "worker.response" :=
    (by decide : withExtension "worker.json" "response" = "worker.response")
  have hretained : Retained (jpAnswerJson id) (jpCall id) d :=
    ⟨_, rfl, by rwa [byteLength_jpAnswerText], by rw [hname, hentry]⟩
  refine ⟨hretained, hcreated, ?_⟩
  have hlong : fileLimit <
      byteLength (exportedCredentials Client.jpConfig ⟨id, "token", none, none⟩) := by
    rwa [byteLength_exported]
  rw [import_of_retained hvalid rfl (fun _ _ => rfl) hretained, hcreated]
  simp only [Except.bind, saveCredentials, secretCreate, createChecks, Except.refuse, if_pos hlong,
    bind]

/-- The directory of a registration whose answer has the identifier `id`. -/
def retainedDirectory (id : String) : StateDir where
  isPrivate := true
  entries := fun name =>
    if name = "worker.response" then some (.file true (jpAnswerText id)) else none

/-- An answer can fit its file, and its credentials, which are usable, not fit theirs. -/
theorem import_too_long : ∃ (json : MessageJson) (call : RegisterCall ℕ) (d : StateDir)
    (created : Credentials),
    (∀ raw, json.toVec call.message = some raw → json.deserialize raw = some call.message) ∧
    Retained json call d ∧ d.isPrivate = true ∧ d.entries call.output = none ∧
    SessionConfig.validate sampleLibraries Client.jpConfig = .ok () ∧
    registeredCredentials sampleLibraries Client.jpConfig call.message = .ok created ∧
    importRegistrationResponse json sampleLibraries Client.jpConfig d call.responseFile
      call.output = .error badConfig := by
  have hlength := byteLength_longRegion 65480
  obtain ⟨hretained, hcreated, himport⟩ := @import_of_long (longRegion 65480)
    (longRegion_ne (by decide)) (headerValue_longRegion _) (by rw [hlength]; decide)
    (by rw [hlength]; decide) (retainedDirectory (longRegion 65480)) rfl
  exact ⟨_, _, _, _, fun _ _ => rfl, hretained, rfl, rfl, rfl, hcreated, himport⟩

end MoenotesApi.Registering
