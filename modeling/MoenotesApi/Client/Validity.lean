import MoenotesApi.Client.Headers

/-!
# Every session has a valid configuration

`make_session` validates the configuration of a session.  A login, a registration and a version
update take over a configuration, the last with other versions in it, without validating it again;
it is valid all the same.

* `validate_iff`: the conditions of `SessionConfig::validate`;
* `valid_discovered`: a version answer that is accepted leaves the configuration valid;
* `ValidInv`, `validInv_of_run`: the invariant, in every state that a run reaches.
-/

namespace MoenotesApi.Client

open Runs

variable {ι : Type} {lib : Libraries} {opt : ClientOptions} {c c' : Client ι} {e : Event ι}
variable {ts : List (Transition (Client ι) (Event ι))}

/-- The combinations of versions that `SessionConfig::validate` rejects. -/
def VersionsRejected (config : SessionConfig) : Prop :=
  (config.region ≠ "jp" ∧ config.masterVersion.isSome ≠ config.resourceVersion.isSome) ∨
    (config.region = "jp" ∧ (config.platform ≠ "android" ∨
      config.resourceVersion.isSome ∧ config.masterVersion = none)) ∨
    (config.region = "jp" ∧ config.masterVersion.any fun v => ¬ validMaster v)

/-- The conditions of `SessionConfig::validate`, those on the versions apart. -/
theorem validate_iff {config : SessionConfig} : config.validate lib = .ok () ↔
    (∃ target, origin lib config.origin = .ok target ∧
      config.allowedOrigins.any (fun v => origin? lib v = some target)) ∧
    config.region ≠ "" ∧ config.platform ≠ "" ∧ config.clientVersion ≠ "" ∧
    ¬ VersionsRejected config ∧ lib.headerValue "validation" = true ∧
    lib.headerValue config.platform = true ∧ lib.headerValue config.clientVersion = true := by
  have hmetadata : (∃ map, config.metadata lib none "validation" false = .ok map) ↔
      lib.headerValue "validation" = true ∧ lib.headerValue config.platform = true ∧
        lib.headerValue config.clientVersion = true := by
    simp only [SessionConfig.metadata, Except.bind_eq_ok, insertHeader_eq_ok, Except.pure_eq_ok]
    constructor
    · rintro ⟨-, -, ⟨hid, -⟩, -, ⟨hplatform, -⟩, -, ⟨hversion, -⟩, -⟩
      exact ⟨hid, hplatform, hversion⟩
    · rintro ⟨hid, hplatform, hversion⟩
      exact ⟨_, _, ⟨hid, rfl⟩, _, ⟨hplatform, rfl⟩, _, ⟨hversion, rfl⟩, rfl⟩
  rw [← hmetadata]
  simp only [SessionConfig.validate, Except.bind_eq_ok, Except.refuse_eq_ok, Except.pure_eq_ok,
    not_or, not_not, VersionsRejected]
  constructor
  · rintro ⟨target, htarget, -, ⟨hregion, hplatform, hversion, hallowed, hversions⟩, map, hmap, -⟩
    exact ⟨⟨target, htarget, hallowed⟩, hregion, hplatform, hversion, hversions, map, hmap⟩
  · rintro ⟨⟨target, htarget, hallowed⟩, hregion, hplatform, hversion, hversions, map, hmap⟩
    exact ⟨target, htarget, (), ⟨hregion, hplatform, hversion, hallowed, hversions⟩, map, hmap,
      trivial⟩

theorem validate_of_makeSession {config : SessionConfig} {provider : Option StaticCredentials}
    {transport : Transport} {session : Session}
    (h : makeSession lib config provider transport = .ok session) :
    config.validate lib = .ok () ∧ session.config = config := by
  refine ⟨?_, by rw [makeSession_eq h]; rfl⟩
  simp only [makeSession, Except.bind_eq_ok] at h
  obtain ⟨⟨⟩, hvalid, -⟩ := h
  exact hvalid

/-- An accepted version answer leaves the configuration valid. -/
theorem valid_discovered {op : Op} {presented : SessionConfig} {response : TransportResponse}
    {master answered : String} (hvalid : c.session.config.validate lib = .ok ())
    (hpresented : presented.clientVersion ≠ "" ∧ lib.headerValue presented.clientVersion = true)
    (hanswer : validAnswer c op master answered = true) (hg : c.current = op.generation) :
    (discovered c.session presented master
      (answeredResource lib c op presented response answered)).config.validate lib = .ok () := by
  have hjp : capturedJp c op = true ↔ c.session.config.region = "jp" := by
    rw [capturedJp, ← hg]
    exact decide_eq_true_iff
  obtain ⟨horigin, hregion, hplatform, -, hversions, hid, hheader, -⟩ := validate_iff.1 hvalid
  refine validate_iff.2 ⟨horigin, hregion, hplatform, hpresented.1, ?_, hid, hheader, hpresented.2⟩
  unfold VersionsRejected at hversions ⊢
  push Not at hversions ⊢
  obtain ⟨-, handroid, -⟩ := hversions
  simp only [discovered]
  refine ⟨fun hne => ?_, fun heq => ⟨(handroid heq).1, fun _ => Option.some_ne_none _⟩, fun heq => ?_⟩
  · have hfalse : capturedJp c op = false := Bool.eq_false_iff.2 fun h => hne (hjp.1 h)
    simp [answeredResource, hfalse]
  · simp only [validAnswer, hjp.2 heq, if_true, Bool.true_or, Bool.and_true] at hanswer
    simp [hanswer]

/-- Every session has a valid configuration, and every version call presents a version that could
stand in one. -/
structure ValidInv (lib : Libraries) (c : Client ι) : Prop where
  configs : ∀ g ≤ c.current, (c.arena g).config.validate lib = .ok ()
  presented : ∀ i op presented, c.ops i = some (.running op) → op.call = .version presented →
    presented.clientVersion ≠ "" ∧ lib.headerValue presented.clientVersion = true

theorem validInv_initial {config : SessionConfig} {provider : Option StaticCredentials}
    {transport : Transport} {session : Session} {now : ℕ}
    (hn : makeSession lib config provider transport = .ok session) :
    ValidInv lib (initial opt session now : Client ι) := by
  obtain ⟨hvalid, hconfig⟩ := validate_of_makeSession hn
  refine ⟨fun _ _ => ?_, fun i op presented hi => ?_⟩
  · rw [← hconfig] at hvalid
    exact hvalid
  · cases hi

theorem Prepares.validPresented {requestId : String} {request : Request} {op : Op}
    {presented : SessionConfig} (hp : Prepares lib c requestId request op)
    (hcall : op.call = .version presented) (hvalid : c.session.config.validate lib = .ok ()) :
    presented.clientVersion ≠ "" ∧ lib.headerValue presented.clientVersion = true := by
  cases hp with
  | @version candidate _ _ _ hv hpresented _ hd =>
    cases hcall
    refine ⟨?_, ?_⟩
    · rw [hpresented]
      cases candidate with
      | none => exact (validate_iff.1 hvalid).2.2.2.1
      | some v =>
        rintro rfl
        exact absurd (hv "" rfl) (by decide)
    · simp only [SessionConfig.metadata, Except.bind_eq_ok, insertHeader_eq_ok] at hd
      obtain ⟨-, -, -, -, -, ⟨hversion, -⟩, -⟩ := hd
      exact hversion
  | execute | selfData | preLogin | login | register => cases hcall

/-- A session that is installed has a valid configuration. -/
theorem ValidInv.of_installs {new : Session} (h : ValidInv lib c) (how : Installs lib c e new) :
    new.config.validate lib = .ok () := by
  have hcurrent : c.session.config.validate lib = .ok () := h.configs c.current le_rfl
  cases how with
  | finish hi hs hf =>
    cases hf with
    | login | register => exact hcurrent
    | version hcall hm hv hg hcancel hnew =>
      exact valid_discovered hcurrent (h.presented _ _ _ hi hcall) hv hg
  | imported hn =>
    obtain ⟨hvalid, hconfig⟩ := validate_of_makeSession hn
    rwa [hconfig]
  | replaced _ hn =>
    obtain ⟨hvalid, hconfig⟩ := validate_of_makeSession hn
    rwa [hconfig]

variable [DecidableEq ι]

theorem ValidInv.step (h : ValidInv lib c) (hstep : step lib opt c e = some c') :
    ValidInv lib c' := by
  have hS := Step.of_step hstep
  constructor
  · intro g hg
    by_cases hold : g ≤ c.current
    · rw [(identity_of_step hstep hold).1]
      exact h.configs g hold
    · cases hS.sessions with
      | unchanged _ hc _ => omega
      | rejected _ _ _ hc _ => omega
      | answered _ _ _ hc _ => omega
      | @installed new how hc ha =>
        obtain rfl : g = c.current + 1 := by omega
        have hnew : c'.arena (c.current + 1) = new := by
          rw [ha]
          exact Function.update_self _ _ _
        rw [hnew]
        exact h.of_installs how
  · intro i op presented hi hcall
    rcases hS.running hi with ⟨op', hi', hf⟩ | ⟨request, id, -, -, hp⟩
    · exact h.presented i op' presented hi' (hf.call ▸ hcall)
    · exact hp.validPresented hcall (h.configs c.current le_rfl)

theorem validInv_of_run (hrun : Run (Client.step lib opt) c ts c') (h : ValidInv lib c) :
    ValidInv lib c' :=
  hrun.invariant (fun _ _ _ hi hs => hi.step hs) h

end MoenotesApi.Client
