import MoenotesApi.Client.Block

/-!
# Rejected credentials and version discovery

A protected call that was rejected with `Authentication` or `DeviceConflict` blocks its session.
The block stays with the credentials through version discovery, with one exception: a login call
may still run under an `Authentication` block, and a `Version` error of it takes the place of that
block; version discovery then clears it.

* `ProtectedCalls`: calls that are not anonymous are made with credentials;
* `RejectsCredentials`, `installsCredentials`, `Overwrites`, `Supersedes`: the transitions that matter;
* `rejection_stays_iff`: which runs keep the rejected credentials blocked.
-/

namespace MoenotesApi.Client

open Runs

variable {ι : Type} {lib : Libraries} {opt : ClientOptions} {c c' : Client ι} {e : Event ι}

/-! ### Protected calls -/

/-- Every protected operation under way has captured a session with credentials. -/
def ProtectedCalls (c : Client ι) : Prop :=
  ∀ i op, c.ops i = some (.running op) → op.method.anonymous = false →
    (c.arena op.generation).credentials ≠ none

/-- The invariants of the sessions and of the serial slot. -/
structure Valid (c : Client ι) : Prop where
  slot : SlotInv c
  sound : SessionsSound c
  credentials : ProtectedCalls c

variable [DecidableEq ι]

theorem Valid.step (h : Valid c) (hstep : step lib opt c e = some c') : Valid c' := by
  refine ⟨h.slot.step hstep, h.sound.step hstep, fun i op hi ha => ?_⟩
  rcases (Step.of_step hstep).running hi with ⟨op', hi', hf⟩ | ⟨request, id, -, -, hp⟩
  · have hle := h.slot.captured i op' hi'
    rw [hf.generation, (identity_of_step hstep hle).2]
    exact h.credentials i op' hi' (hf.method ▸ ha)
  · rw [hp.generation, (identity_of_step hstep le_rfl).2]
    exact hp.credentials ha

omit [DecidableEq ι] in
/-- Credentials are installed: by an import, a replacement, a login or a registration. -/
def installsCredentials (t : Transition (Client ι) (Event ι)) : Bool :=
  t.after.current ≠ t.before.current &&
    match t.event with
    | .importCredentials _ _ | .replaceSession _ _ => true
    | .finish i _ => (t.before.running i).any fun op => op.call.installsCredentials
    | _ => false

omit [DecidableEq ι] in
/-- A login or pre-login call is answered with a `Version` error while the current session has an
`Authentication` block. -/
def Overwrites (t : Transition (Client ι) (Event ι)) : Prop :=
  ∃ i op error, t.event = .answer i (.error error) ∧ t.before.ops i = some (.running op) ∧
    isLoginMethod op.method = true ∧ op.generation = t.before.current ∧
    error.kind = .version ∧ t.before.session.blocked = some .authentication

/-- A version discovery ends with a valid answer, either to another client release, or with other
versions while the mismatch flag stands. -/
def Supersedes (lib : Libraries) (t : Transition (Client ι) (Event ι)) : Prop :=
  ∃ i op response files presented master answered, t.event = .finish i files ∧
    t.before.ops i = some (.running op) ∧ op.stage = .checked response ∧
    op.call = .version presented ∧ response.message = .version master answered ∧
    validAnswer t.before op master answered = true ∧ t.before.current = op.generation ∧
    op.cancelled = false ∧
    ¬ SameVersions t.before.session presented master
      (answeredResource lib t.before op presented response answered) ∧
    (t.before.session.config.clientVersion ≠ presented.clientVersion ∨
      t.before.session.masterMismatch = true)

/-- The state of rejected credentials after `ts`: they are blocked, and by a `Version` block exactly
if their own block has been overwritten. -/
structure StillBlocked (credentials : Option Credentials)
    (ts : List (Transition (Client ι) (Event ι))) (c : Client ι) : Prop where
  credentials : c.session.credentials = credentials
  blocked : c.session.blocked ≠ none
  overwritten : c.session.blocked = some .version ↔ ∃ t ∈ ts, Overwrites t

variable {credentials : Option Credentials} {ts us : List (Transition (Client ι) (Event ι))}

omit [DecidableEq ι] in
theorem StillBlocked.queryError (h : StillBlocked credentials ts c) :
    c.queryError false ≠ none := by
  obtain ⟨kind, hk⟩ := Option.ne_none_iff_exists'.1 h.blocked
  simp [Client.queryError, hk]

omit [DecidableEq ι] in
theorem StillBlocked.snoc (h : StillBlocked credentials ts c) {t : Transition (Client ι) (Event ι)}
    (hcred : t.after.session.credentials = c.session.credentials)
    (hblocked : t.after.session.blocked ≠ none)
    (hiff : t.after.session.blocked = some .version ↔
      c.session.blocked = some .version ∨ Overwrites t) :
    StillBlocked credentials (ts ++ [t]) t.after where
  credentials := hcred.trans h.credentials
  blocked := hblocked
  overwritten := by
    rw [hiff, h.overwritten]
    simp [or_and_right, exists_or]

/-- Recording an error of an anonymous call in a blocked session: only a `Version` error of a login
call makes a `Version` block, and only out of an `Authentication` block. -/
theorem record_version_iff {s : Session} (hs : s.Sound) (hb : s.blocked ≠ none) {method : Method}
    (ha : method.anonymous = true) (error : ClientError) :
    (record s method error).blocked ≠ none ∧
      ((record s method error).blocked = some .version ↔ s.blocked = some .version ∨
        isLoginMethod method = true ∧ error.kind = .version ∧
          s.blocked = some .authentication) := by
  obtain ⟨kind, hk⟩ := Option.ne_none_iff_exists'.1 hb
  have hrej := hs.blocked kind hk
  by_cases hl : isLoginMethod method = true
  · -- a login call: the block changes only if it is an `Authentication` block
    cases kind <;> simp [rejection] at hrej <;>
      simp [record, recorded, strong, rejection, ha, hl, hk]
    split_ifs <;> simp_all
  · simp [record, recorded, ha, hl, hk]

omit [DecidableEq ι] in
/-- What an answered error makes of the block of the current session. -/
theorem record_overwrites {i : ι} {op : Op} {error : ClientError} {overrideSent : Bool}
    (c' : Client ι) (hv : Valid c) (hi : c.ops i = some (.running op)) (hs : op.stage = .calling overrideSent)
    (hg : op.generation = c.current) (hb : c.session.blocked ≠ none) :
    (record c.session op.method error).blocked ≠ none ∧
      ((record c.session op.method error).blocked = some .version ↔
        c.session.blocked = some .version ∨
          Overwrites (⟨c, .answer i (.error error), c'⟩ : Transition (Client ι) (Event ι))) := by
  have hgate : gate c.session op.method = none := by
    have := hv.slot.passed i op hi (by rw [hs]; rfl)
    rwa [hg] at this
  have hanon := (anonymous_of_gate hgate (Option.isSome_iff_ne_none.2 hb)).1
  have hover : Overwrites (⟨c, .answer i (.error error), c'⟩ : Transition (Client ι) (Event ι)) ↔
      isLoginMethod op.method = true ∧ error.kind = .version ∧
        c.session.blocked = some .authentication := by
    constructor
    · rintro ⟨j, op', error', he, hj, hl, -, hk, hb⟩
      cases he
      rw [hi] at hj
      cases hj
      exact ⟨hl, hk, hb⟩
    · rintro ⟨hl, hk, hb⟩
      exact ⟨i, op, error, rfl, hi, hl, hg, hk, hb⟩
  rw [hover]
  exact record_version_iff (hv.sound c.current le_rfl) hb hanon error

/-- What an event that installs no credentials makes of blocked credentials: they stay blocked, or
a discovery supersedes a session whose `Authentication` block has been overwritten. -/
theorem StillBlocked.step (h : StillBlocked credentials ts c) (hv : Valid c)
    (hstep : Client.step lib opt c e = some c')
    (hkeep : installsCredentials (⟨c, e, c'⟩ : Transition (Client ι) (Event ι)) = false) :
    StillBlocked credentials (ts ++ [⟨c, e, c'⟩]) c' ∨
      (∃ t ∈ ts, Overwrites t) ∧ Supersedes lib (⟨c, e, c'⟩ : Transition (Client ι) (Event ι)) := by
  cases (Step.of_step hstep).sessions with
  | unchanged he hc ha =>
    have hsame : c'.session = c.session := by simp [session, hc, ha]
    refine .inl (h.snoc (by rw [hsame]) (by rw [hsame]; exact h.blocked) ?_)
    simp [hsame, Overwrites, he]
  | @rejected i op b error he hi hs hc ha =>
    subst he
    have hupd := session_update hc ha
    by_cases hg : op.generation = c.current
    · rw [if_pos hg, hg] at hupd
      obtain ⟨hb, hiff⟩ := record_overwrites c' hv hi hs hg h.blocked
      refine .inl (h.snoc ?_ (hupd ▸ hb) (hupd ▸ hiff))
      rw [hupd]
      exact (record_identity _ _ _).2
    · rw [if_neg hg] at hupd
      refine .inl (h.snoc (by rw [hupd]) (by rw [hupd]; exact h.blocked) ?_)
      have hover : ¬ Overwrites
          (⟨c, .answer i (.error error), c'⟩ : Transition (Client ι) (Event ι)) := by
        rintro ⟨j, op', error', he, hj, -, hg', -⟩
        cases he
        rw [hi] at hj
        cases hj
        exact hg hg'
      simp [hupd, hover]
  | @answered i op b response he hi hs hc ha =>
    subst he
    have hupd := session_update hc ha
    have hsame : c'.session.blocked = c.session.blocked ∧
        c'.session.credentials = c.session.credentials := by
      rw [hupd]
      split_ifs with hg
      · rw [hg]
        cases b <;> exact ⟨rfl, rfl⟩
      · exact ⟨rfl, rfl⟩
    refine .inl (h.snoc hsame.2 (by rw [hsame.1]; exact h.blocked) ?_)
    simp [hsame.1, Overwrites]
  | @installed new how hc ha =>
    have hnew : c'.session = new := by
      rw [← install_session c new]
      simp [session, hc, ha]
    cases how with
    | imported => simp [installsCredentials, hc] at hkeep
    | replaced => simp [installsCredentials, hc] at hkeep
    | @finish i op response files outcome _ hi hs hf =>
      have hcall : op.call.installsCredentials = false := by
        simpa [installsCredentials, hc, running_eq_some.2 hi] using hkeep
      cases hf with
      | login hlogin => simp [hlogin, Call.installsCredentials] at hcall
      | register hreg => simp [hreg, Call.installsCredentials] at hcall
      | @version presented master answered hcall hm hvalid hg hcancel hother =>
        by_cases hclear : c.session.blocked = some .version ∧
            (c.session.config.clientVersion ≠ presented.clientVersion ∨
              c.session.masterMismatch = true)
        · exact .inr ⟨h.overwritten.1 hclear.1, i, op, response, files, presented, master,
            answered, rfl, hi, hs, hcall, hm, hvalid, hg, hcancel, hother, hclear.2⟩
        · have hb : c'.session.blocked = c.session.blocked := by
            rw [hnew]
            exact if_neg hclear
          refine .inl (h.snoc (by rw [hnew]; rfl) (by rw [hb]; exact h.blocked) ?_)
          simp [hb, Overwrites]

end MoenotesApi.Client
