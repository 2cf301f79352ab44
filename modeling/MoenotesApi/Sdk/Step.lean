import MoenotesApi.Sdk.Machine

/-!
# What one event does to the calls of the SDK

`SdkCalls.Step s e s'` lists the ways in which an event can happen; `Step.of_step` is the inversion
lemma of `SdkCalls.step`.
-/

namespace MoenotesApi.SdkHttp.SdkCalls

open FormText

variable {K κ ι : Type} {lib : Libraries}

/-! ### Updates -/

section Updates

variable [DecidableEq κ] [DecidableEq ι] (s : SdkCalls κ ι) (i : ι) (k : κ) (call : SdkCall)
variable (stage : SdkStage) (interval : ℕ)

omit [DecidableEq κ] in
@[simp] theorem put_calls :
    (s.put i k call stage).calls = Function.update s.calls i (some (k, call, stage)) := rfl
omit [DecidableEq κ] in
@[simp] theorem put_free : (s.put i k call stage).free = s.free := rfl
omit [DecidableEq κ] in
@[simp] theorem put_next : (s.put i k call stage).next = s.next := rfl
omit [DecidableEq κ] in
@[simp] theorem put_now : (s.put i k call stage).now = s.now := rfl

omit [DecidableEq ι] in
@[simp] theorem acquire_calls : (s.acquire k).calls = s.calls := rfl
omit [DecidableEq ι] in
@[simp] theorem acquire_free : (s.acquire k).free = Function.update s.free k false := rfl
omit [DecidableEq ι] in
@[simp] theorem acquire_next : (s.acquire k).next = s.next := rfl
omit [DecidableEq ι] in
@[simp] theorem acquire_now : (s.acquire k).now = s.now := rfl

@[simp] theorem finish_calls :
    (s.finish i k call stage).calls = Function.update s.calls i (some (k, call, stage)) := rfl
@[simp] theorem finish_free : (s.finish i k call stage).free = Function.update s.free k true := rfl
@[simp] theorem finish_next : (s.finish i k call stage).next = s.next := rfl
@[simp] theorem finish_now : (s.finish i k call stage).now = s.now := rfl

omit [DecidableEq ι] in
@[simp] theorem pace_calls : (s.pace k interval).calls = s.calls := rfl
omit [DecidableEq ι] in
@[simp] theorem pace_free : (s.pace k interval).free = s.free := rfl
omit [DecidableEq ι] in
@[simp] theorem pace_next :
    (s.pace k interval).next = Function.update s.next k (s.now + interval) := rfl
omit [DecidableEq ι] in
@[simp] theorem pace_now : (s.pace k interval).now = s.now := rfl

end Updates

theorem challenge_eq_some {s : SdkCalls κ ι} {j : ι} {r : RsaChallenge} :
    s.challenge j = some r ↔
      ∃ k call, s.calls j = some (k, call, .finished (.ok (.success (.challenge r)))) := by
  unfold challenge
  constructor
  · intro h
    split at h
    · next k call challenge hj =>
      obtain rfl := Option.some.inj h
      exact ⟨k, call, hj⟩
    · cases h
  · rintro ⟨k, call, hj⟩
    rw [hj]

/-! ### Inversion -/

variable [DecidableEq κ] [DecidableEq ι] {codecs : SdkCodecs K} {clients : κ → SdkHttpClient lib}
variable {s s' : SdkCalls κ ι} {e : Event κ ι} {i : ι}

/-- The call that an event belongs to. -/
def Event.owner : Event κ ι → Option ι
  | .fetchRsa i _ _ | .passwordLogin i _ _ _ _ _ _ | .cacheLogin i _ _ | .send i _ | .head i _
  | .chunk i _ | .timeout i | .cancel i | .drop i => some i
  | .advance _ => none

/-- The event makes the call: a challenge comes from a call that has got it. -/
inductive Issues (s : SdkCalls κ ι) (i : ι) (k : κ) : Event κ ι → SdkCall → Bool → ℕ → Prop
  | fetchRsa {currentUser} :
      Issues s i k (.fetchRsa i k currentUser) (.fetchRsa currentUser) false 0
  | passwordLogin {j challenge login currentUser cancelled seed}
      (hchallenge : s.challenge j = some challenge) :
      Issues s i k (.passwordLogin i k j login currentUser cancelled seed)
        (.passwordLogin challenge login currentUser) cancelled seed
  | cacheLogin {login} : Issues s i k (.cacheLogin i k login) (.cacheLogin login) false 0

/-- `s.step e` can lead to `s'`, by the named branch. -/
inductive Step (codecs : SdkCodecs K) (clients : κ → SdkHttpClient lib) :
    SdkCalls κ ι → Event κ ι → SdkCalls κ ι → Prop
  | refused {s i k e call cancelled seed error} (hi : s.calls i = none)
      (hissues : Issues s i k e call cancelled seed) :
      Step codecs clients s e (s.put i k call (.finished (.error error)))
  | admitted {s i k e call cancelled seed request} (hi : s.calls i = none)
      (hissues : Issues s i k e call cancelled seed)
      (hrequest : (clients k).request codecs cancelled seed call = .ok request)
      (hfree : s.free k = true) :
      Step codecs clients s e
        ((s.acquire k).put i k call (.waiting request (s.now + (clients k).options.timeout)))
  | unsent {s i k call request deadline ms error}
      (hi : s.calls i = some (k, call, .waiting request deadline)) (hnext : s.next k ≤ s.now) :
      Step codecs clients s (.send i ms)
        ((s.pace k (clients k).options.minimumInterval).finish i k call (.finished (.error error)))
  | posted {s i k call request deadline ms post}
      (hi : s.calls i = some (k, call, .waiting request deadline)) (hnext : s.next k ≤ s.now)
      (hpost : (clients k).post codecs request ms = .ok post) :
      Step codecs clients s (.send i ms)
        ((s.pace k (clients k).options.minimumInterval).put i k call (.sent post deadline))
  | opened {s i k call post deadline status length}
      (hi : s.calls i = some (k, call, .sent post deadline)) (hstatus : accepted status = true) :
      Step codecs clients s (.head i (.ok (status, length)))
        (s.put i k call (.reading post deadline []))
  | extended {s i k call post deadline bytes chunk}
      (hi : s.calls i = some (k, call, .reading post deadline bytes))
      (hlen : bytes.length + chunk.length ≤ MAX_RESPONSE) :
      Step codecs clients s (.chunk i (.ok (some chunk)))
        (s.put i k call (.reading post deadline (bytes ++ chunk)))
  | replied {s i k call post deadline bytes}
      (hi : s.calls i = some (k, call, .reading post deadline bytes)) :
      Step codecs clients s (.chunk i (.ok none))
        (s.finish i k call (.finished ((clients k).reply codecs bytes call)))
  | failed {s i k call stage e error} (hi : s.calls i = some (k, call, stage))
      (hactive : stage.active = true) (howner : e.owner = some i) (he : ∀ j ms, e ≠ .send j ms) :
      Step codecs clients s e (s.finish i k call (.finished (.error error)))
  | dropped {s i k call stage} (hi : s.calls i = some (k, call, stage))
      (hactive : stage.active = true) : Step codecs clients s (.drop i) (s.finish i k call .dropped)
  | advance {s duration} :
      Step codecs clients s (.advance duration) { s with now := s.now + duration }

theorem Step.of_begin {k : κ} {call : SdkCall} {cancelled : Bool} {seed : ℕ} (hi : s.calls i = none)
    (hissues : Issues s i k e call cancelled seed) :
    Step codecs clients s e (s.begin codecs clients i k call cancelled seed) := by
  unfold begin
  split
  · exact .refused hi hissues
  · next request hrequest =>
    split_ifs with hfree
    · exact .admitted hi hissues hrequest hfree
    · exact .refused hi hissues

theorem Step.of_stepCall {k : κ} {call : SdkCall} {stage : SdkStage}
    (hi : s.calls i = some (k, call, stage)) (howner : e.owner = some i)
    (h : s.stepCall codecs clients i k call stage e = some s') : Step codecs clients s e s' := by
  have failed {error : SdkError} (hactive : stage.active = true) (he : ∀ j ms, e ≠ .send j ms)
      (hs' : some (s.finish i k call (.finished (.error error))) = some s') :
      Step codecs clients s e s' := by
    obtain rfl := Option.some.inj hs'
    exact .failed hi hactive howner he
  cases e with
  | fetchRsa | passwordLogin | cacheLogin | advance => cases h
  | send _ ms =>
    cases howner
    cases stage with
    | waiting request deadline =>
      simp only [stepCall] at h
      split_ifs at h with hnext
      split at h <;> obtain rfl := Option.some.inj h
      · exact .unsent hi hnext
      · next post hpost => exact .posted hi hnext hpost
    | _ => cases h
  | head _ result =>
    cases howner
    cases stage with
    | sent post deadline =>
      simp only [stepCall] at h
      split at h
      · exact failed rfl (by simp) h
      · split_ifs at h with hstatus hlength
        · exact failed rfl (by simp) h
        · exact failed rfl (by simp) h
        · obtain rfl := Option.some.inj h
          exact .opened hi (by simpa using hstatus)
    | _ => cases h
  | chunk _ result =>
    cases howner
    cases stage with
    | reading post deadline bytes =>
      simp only [stepCall] at h
      split at h
      · exact failed rfl (by simp) h
      · split_ifs at h with hlength
        · exact failed rfl (by simp) h
        · obtain rfl := Option.some.inj h
          exact .extended hi (Nat.not_lt.1 hlength)
      · obtain rfl := Option.some.inj h
        exact .replied hi
    | _ => cases h
  | timeout =>
    cases howner
    simp only [stepCall] at h
    split_ifs at h with hdeadline
    refine failed ?_ (by simp) h
    cases stage with
    | finished | dropped => cases hdeadline
    | _ => rfl
  | cancel =>
    cases howner
    simp only [stepCall] at h
    split_ifs at h with hactive
    exact failed hactive (by simp) h
  | drop =>
    cases howner
    simp only [stepCall] at h
    split_ifs at h with hactive
    obtain rfl := Option.some.inj h
    exact .dropped hi hactive

theorem Step.of_step (h : s.step codecs clients e = some s') : Step codecs clients s e s' := by
  cases e with
  | fetchRsa i k currentUser | cacheLogin i k login =>
    simp only [step, Option.ite_none_right_eq_some] at h
    obtain ⟨hi, h⟩ := h
    obtain rfl := Option.some.inj h
    exact .of_begin (Option.isNone_iff_eq_none.1 hi) (by constructor)
  | passwordLogin i k j login currentUser cancelled seed =>
    simp only [step, Option.ite_none_right_eq_some, Option.map_eq_some_iff] at h
    obtain ⟨hi, challenge, hchallenge, rfl⟩ := h
    exact .of_begin (Option.isNone_iff_eq_none.1 hi) (.passwordLogin hchallenge)
  | advance =>
    obtain rfl := Option.some.inj h
    exact .advance
  | _ =>
    obtain ⟨⟨k, call, stage⟩, hi, h⟩ := Option.bind_eq_some_iff.1 h
    exact .of_stepCall hi rfl h

/-- A step leaves the calls of others alone. -/
theorem Step.others (h : Step codecs clients s e s') (hi : e.owner ≠ some i) :
    s'.calls i = s.calls i := by
  have hput {j : ι} {k : κ} {call : SdkCall} {stage : SdkStage} (hj : e.owner = some j) :
      Function.update s.calls j (some (k, call, stage)) i = s.calls i := by
    refine Function.update_of_ne ?_ _ _
    rintro rfl
    exact hi hj
  cases h with
  | refused _ hissues | admitted _ hissues => cases hissues <;> exact hput rfl
  | failed _ _ howner => exact hput howner
  | advance => rfl
  | _ => exact hput rfl

end MoenotesApi.SdkHttp.SdkCalls
