import MoenotesApi.Client.Signature
import MoenotesApi.Library.Run
import MoenotesApi.Sdk.Step

/-!
# One call at a time

A client runs the call that holds its permit, and its requests keep their distance.

* `Running`, `Owned`: the owner of each permit; `Step.owned`: every step keeps track of it;
* `Starts`, `next_of_start`, `next_le_of_run`: the pace of a client;
* `sdk_serial_paced`: the main result;
* `loginClient`, `loginCodecs`: a client, and the libraries on what it sends and gets.
-/

namespace MoenotesApi.SdkHttp

open FormText Runs

namespace SdkCalls

variable {K κ ι : Type} {lib : Libraries} {codecs : SdkCodecs K} {clients : κ → SdkHttpClient lib}
variable {s s' : SdkCalls κ ι} {e : Event κ ι} {i j : ι} {k k' : κ} {call call' : SdkCall}
variable {stage stage' : SdkStage} {ts : List (Transition (SdkCalls κ ι) (Event κ ι))}

/-! ### The owner of a permit -/

/-- The call `i` runs, and it is one of the client `k`. -/
def Running (s : SdkCalls κ ι) (k : κ) (i : ι) : Prop :=
  ∃ call stage, s.calls i = some (k, call, stage) ∧ stage.active = true

/-- `owner k` is the call that holds the permit of `k`. -/
structure Owned (s : SdkCalls κ ι) (owner : κ → Option ι) : Prop where
  free : ∀ k, s.free k = (owner k).isNone
  running : ∀ k i, Running s k i ↔ owner k = some i

theorem owned_initial (now : ℕ) : Owned (initial now : SdkCalls κ ι) fun _ => none := by
  refine ⟨fun _ => rfl, fun k i => ⟨?_, ?_⟩⟩
  · rintro ⟨call, stage, ⟨⟩, -⟩
  · rintro ⟨⟩

variable [DecidableEq ι]

theorem running_update (h : s'.calls = Function.update s.calls i (some (k, call, stage))) :
    Running s' k' j ↔ j = i ∧ k' = k ∧ stage.active = true ∨ j ≠ i ∧ Running s k' j := by
  unfold Running
  rw [h]
  by_cases hj : j = i
  · subst hj
    constructor
    · rintro ⟨call', stage', hstage, hactive⟩
      rw [Function.update_self] at hstage
      cases hstage
      exact .inl ⟨rfl, rfl, hactive⟩
    · rintro (⟨-, rfl, hactive⟩ | ⟨hne, -⟩)
      · exact ⟨call, stage, Function.update_self _ _ _, hactive⟩
      · exact absurd rfl hne
  · rw [Function.update_of_ne hj]
    simp [hj]

/-- A call that does not run before or after a step does not change the owners. -/
theorem Owned.aside {owner : κ → Option ι} (h : Owned s owner) (hfree : s'.free = s.free)
    (hcalls : s'.calls = Function.update s.calls i (some (k, call, stage)))
    (hi : ∀ k', ¬ Running s k' i) (hstage : stage.active = false) : Owned s' owner := by
  refine ⟨fun k' => by rw [hfree, h.free], fun k' j => ?_⟩
  rw [running_update hcalls, ← h.running, hstage]
  constructor
  · rintro (⟨-, -, ⟨⟩⟩ | ⟨-, hj⟩)
    exact hj
  · intro hj
    refine .inr ⟨?_, hj⟩
    rintro rfl
    exact hi k' hj

/-- A call that goes on running keeps its permit. -/
theorem Owned.goes_on {owner : κ → Option ι} (h : Owned s owner) (hfree : s'.free = s.free)
    (hcalls : s'.calls = Function.update s.calls i (some (k, call, stage')))
    (hi : s.calls i = some (k, call, stage)) (hactive : stage.active = true)
    (hstage : stage'.active = true) : Owned s' owner := by
  refine ⟨fun k' => by rw [hfree, h.free], fun k' j => ?_⟩
  rw [running_update hcalls, ← h.running]
  constructor
  · rintro (⟨rfl, rfl, -⟩ | ⟨-, hj⟩)
    · exact ⟨call, stage, hi, hactive⟩
    · exact hj
  · intro hj
    by_cases hji : j = i
    · subst hji
      obtain ⟨call', stage'', hj, -⟩ := hj
      cases hi.symm.trans hj
      exact .inl ⟨rfl, rfl, hstage⟩
    · exact .inr ⟨hji, hj⟩

variable [DecidableEq κ]

/-- A call takes a free permit. -/
theorem Owned.acquire {owner : κ → Option ι} (h : Owned s owner)
    (hfree : s'.free = Function.update s.free k false) (hk : s.free k = true)
    (hcalls : s'.calls = Function.update s.calls i (some (k, call, stage)))
    (hi : s.calls i = none) (hstage : stage.active = true) :
    Owned s' (Function.update owner k (some i)) := by
  have hnone : owner k = none := by simpa [hk] using (h.free k).symm
  constructor
  · intro k'
    rw [hfree]
    by_cases hkk : k' = k
    · subst hkk
      simp
    · rw [Function.update_of_ne hkk, Function.update_of_ne hkk, h.free]
  · intro k' j
    rw [running_update hcalls]
    by_cases hkk : k' = k
    · subst hkk
      rw [Function.update_self]
      constructor
      · rintro (⟨rfl, -, -⟩ | ⟨-, hj⟩)
        · rfl
        · rw [h.running, hnone] at hj
          cases hj
      · rintro ⟨⟩
        exact .inl ⟨rfl, rfl, hstage⟩
    · rw [Function.update_of_ne hkk, ← h.running]
      constructor
      · rintro (⟨-, hk', -⟩ | ⟨-, hj⟩)
        · exact absurd hk' hkk
        · exact hj
      · intro hj
        refine .inr ⟨?_, hj⟩
        rintro rfl
        obtain ⟨call', stage', hj, -⟩ := hj
        cases hi.symm.trans hj

/-- A call ends and gives its permit back. -/
theorem Owned.finish {owner : κ → Option ι} (h : Owned s owner)
    (hfree : s'.free = Function.update s.free k true)
    (hcalls : s'.calls = Function.update s.calls i (some (k, call, stage')))
    (hi : s.calls i = some (k, call, stage)) (hactive : stage.active = true)
    (hstage : stage'.active = false) : Owned s' (Function.update owner k none) := by
  have howner : owner k = some i := (h.running k i).1 ⟨call, stage, hi, hactive⟩
  constructor
  · intro k'
    rw [hfree]
    by_cases hkk : k' = k
    · subst hkk
      simp
    · rw [Function.update_of_ne hkk, Function.update_of_ne hkk, h.free]
  · intro k' j
    rw [running_update hcalls, hstage]
    by_cases hkk : k' = k
    · subst hkk
      rw [Function.update_self]
      constructor
      · rintro (⟨-, -, ⟨⟩⟩ | ⟨hne, hj⟩)
        rw [h.running, howner] at hj
        exact absurd (Option.some.inj hj).symm hne
      · rintro ⟨⟩
    · rw [Function.update_of_ne hkk, ← h.running]
      constructor
      · rintro (⟨-, -, ⟨⟩⟩ | ⟨-, hj⟩)
        exact hj
      · intro hj
        refine .inr ⟨?_, hj⟩
        rintro rfl
        obtain ⟨call', stage'', hj, -⟩ := hj
        cases hi.symm.trans hj
        exact hkk rfl

theorem Step.owned {owner : κ → Option ι} (hs : Owned s owner) (h : Step codecs clients s e s') :
    ∃ owner', Owned s' owner' := by
  have hidle {i : ι} (hi : s.calls i = none) (k : κ) : ¬ Running s k i := by
    rintro ⟨call, stage, hstage, -⟩
    cases hi.symm.trans hstage
  cases h with
  | refused hi => exact ⟨owner, hs.aside rfl rfl (hidle hi) rfl⟩
  | admitted hi hissues hrequest hk => exact ⟨_, hs.acquire rfl hk rfl hi rfl⟩
  | posted hi | opened hi | extended hi => exact ⟨owner, hs.goes_on rfl rfl hi rfl rfl⟩
  | unsent hi | replied hi => exact ⟨_, hs.finish rfl rfl hi rfl rfl⟩
  | failed hi hactive | dropped hi hactive => exact ⟨_, hs.finish rfl rfl hi hactive rfl⟩
  | advance => exact ⟨owner, hs.free, hs.running⟩

theorem owned_of_run {now : ℕ} (hrun : Run (step codecs clients) (initial now) ts s) :
    ∃ owner, Owned s owner := by
  induction hrun with
  | nil => exact ⟨_, owned_initial now⟩
  | snoc _ he ih =>
    obtain ⟨owner, hs⟩ := ih
    exact (Step.of_step he).owned hs

/-! ### The pace -/

/-- A request of the client `k` starts. -/
def Starts (k : κ) (t : Transition (SdkCalls κ ι) (Event κ ι)) : Prop :=
  ∃ i ms call stage, t.event = .send i ms ∧ t.before.calls i = some (k, call, stage)

theorem next_of_start {ms : Option ℕ} (h : s.step codecs clients (.send i ms) = some s')
    (hi : s.calls i = some (k, call, stage)) :
    s.next k ≤ s.now ∧ s'.next k = s.now + (clients k).options.minimumInterval := by
  cases Step.of_step h with
  | refused _ hissues | admitted _ hissues => cases hissues
  | unsent hi' hnext | posted hi' hnext =>
    cases hi.symm.trans hi'
    exact ⟨hnext, by simp⟩
  | failed _ _ _ he => exact absurd rfl (he i ms)

theorem next_le_of_step (h : Step codecs clients s e s') (k : κ) : s.next k ≤ s'.next k := by
  have hpace {k' : κ} {interval : ℕ} (hnext : s.next k' ≤ s.now) :
      s.next k ≤ (s.pace k' interval).next k := by
    rw [pace_next]
    by_cases hk : k = k'
    · subst hk
      rw [Function.update_self]
      omega
    · rw [Function.update_of_ne hk]
  cases h with
  | unsent _ hnext | posted _ hnext => exact hpace hnext
  | _ => exact le_rfl

theorem next_le_of_run (hrun : Run (step codecs clients) s ts s') (k : κ) :
    s.next k ≤ s'.next k := by
  induction hrun with
  | nil => exact le_rfl
  | snoc _ he ih => exact ih.trans (next_le_of_step (Step.of_step he) k)

theorem begin_of_issues {cancelled : Bool} {seed : ℕ} (hissues : Issues s i k e call cancelled seed)
    (h : s.step codecs clients e = some s') :
    s' = s.begin codecs clients i k call cancelled seed := by
  cases hissues with
  | fetchRsa | cacheLogin =>
    simp only [step, Option.ite_none_right_eq_some, Option.some.injEq] at h
    exact h.2.symm
  | passwordLogin hchallenge =>
    simp only [step, hchallenge, Option.map_some, Option.ite_none_right_eq_some,
      Option.some.injEq] at h
    exact h.2.symm

/-- **Calls are serial and paced.**  In every run of any number of clients, whatever becomes of the
calls: the permit of a client is away exactly while one call of it runs, and no two run; a call that
begins while another call of its client runs ends at once and changes nothing else, with `Busy` if
its arguments are right; and two requests of a client start at least its minimum interval apart. -/
theorem sdk_serial_paced {now : ℕ} (hrun : Run (step codecs clients) (initial now) ts s) :
    (∀ k, (s.free k = false ↔ ∃ i, Running s k i) ∧
      ∀ i j, Running s k i → Running s k j → i = j) ∧
    (∀ t ∈ ts, ∀ i j k call cancelled seed, Issues t.before i k t.event call cancelled seed →
      Running t.before k j →
      ∃ error, t.after = t.before.put i k call (.finished (.error error)) ∧
        ∀ request, (clients k).request codecs cancelled seed call = .ok request →
          error.kind = .busy) ∧
    (∀ (before between after : List (Transition (SdkCalls κ ι) (Event κ ι)))
      (t u : Transition (SdkCalls κ ι) (Event κ ι)) (k : κ),
      ts = before ++ t :: between ++ u :: after → Starts k t → Starts k u →
        t.before.now + (clients k).options.minimumInterval ≤ u.before.now) := by
  refine ⟨fun k => ?_, ?_, ?_⟩
  · obtain ⟨owner, hs⟩ := owned_of_run hrun
    constructor
    · simp only [hs.running, hs.free]
      cases owner k <;> simp
    · intro i j hi hj
      rw [hs.running] at hi hj
      exact Option.some.inj (hi.symm.trans hj)
  · rintro t ht i j k call cancelled seed hissues hj
    obtain ⟨before, after, rfl⟩ := List.append_of_mem ht
    obtain ⟨hbefore, hstep, -⟩ := hrun.around
    obtain ⟨owner, hs⟩ := owned_of_run hbefore
    have hbusy : t.before.free k = false := by
      rw [hs.free, (hs.running k j).1 hj]
      rfl
    rw [begin_of_issues hissues hstep, begin]
    split
    · next error herror =>
      refine ⟨error, rfl, fun request hrequest => ?_⟩
      cases herror.symm.trans hrequest
    · rw [if_neg (by simp [hbusy])]
      exact ⟨_, rfl, fun _ _ => rfl⟩
  · rintro before between after t u k rfl ⟨i, ms, call, stage, ht, hi⟩
      ⟨j, ms', call', stage', hu, hj⟩
    obtain ⟨hhead, hstep', -⟩ := hrun.around
    obtain ⟨-, hstep, hbetween⟩ := hhead.around
    rw [ht] at hstep
    rw [hu] at hstep'
    calc t.before.now + (clients k).options.minimumInterval = t.after.next k :=
          (next_of_start hstep hi).2.symm
      _ ≤ u.before.next k := next_le_of_run hbetween k
      _ ≤ u.before.now := (next_of_start hstep' hj).1

end SdkCalls

/-! ### Two logins -/

def loginUrl : String := "https://sdk.example/passport"

def loginLibraries : Libraries where
  parseUrl v :=
    if v = loginUrl then
      some ⟨"https", some "sdk.example", "", none, none, none, "/passport", "https://sdk.example"⟩
    else none
  headerValue _ := true
  endpoint _ := true
  parseAssets _ := none

def loginClient (binding : ℕ) : SdkHttpClient loginLibraries where
  baseUrl := loginUrl
  allowedBaseUrls := [loginUrl]
  parameters := noParameters
  key := ⟨utf8 "k", by decide +kernel⟩
  headers := ⟨none, some "3.0"⟩
  options := ⟨10 * 10 ^ 9, 10 ^ 9⟩
  binding := binding
  approved := ⟨loginUrl, List.mem_singleton_self _, rfl⟩
  timeout := by decide +kernel

def cachedData : Bytes := utf8 "\x7b\"uid\":7\x7d"

def cachedReply : Bytes := utf8 "\x7b\"code\":0,\"data\":\x7b\"uid\":7\x7d\x7d"

def loginCodecs : SdkCodecs Unit where
  envelope bytes := if bytes = cachedReply then some (0, some cachedData) else none
  rsaData _ := none
  loginData bytes := if bytes = cachedData then some ⟨.unsigned 7, none, none, none, none⟩ else none
  base64Decode _ := none
  base64Encode _ := []
  fromDer _ := none
  bits _ := 0
  size _ := 0
  encrypt _ _ _ := none
  md5 := sampleMd5
  headerValue _ := true

namespace SdkCalls

def cachedLogin : CacheLogin := ⟨utf8 "a+b%2B", none, none, none⟩

def cachedPost : HttpPost := ⟨loginUrl ++ CACHE_PATH, (loginClient 0).requestHeaders, sampleBody⟩

/-- One event of the clients. -/
def loginStep : SdkCalls ℕ ℕ → Event ℕ ℕ → Option (SdkCalls ℕ ℕ) := step loginCodecs loginClient

/-- The first call waits, and the second one has found the client busy. -/
def waitingCalls : SdkCalls ℕ ℕ :=
  ((initial 0).begin loginCodecs loginClient 0 0 (.cacheLogin cachedLogin) false 0).begin loginCodecs
    loginClient 1 0 (.cacheLogin cachedLogin) false 0

/-- The first call has sent its request. -/
def sentCalls : SdkCalls ℕ ℕ :=
  (waitingCalls.pace 0 (10 ^ 9)).put 0 0 (.cacheLogin cachedLogin) (.sent cachedPost (10 * 10 ^ 9))

theorem post_cached : (loginClient 0).post loginCodecs
    ⟨CACHE_PATH, [("access_key", utf8 "a+b%2B")], true, none⟩ (some 1) = .ok cachedPost := by
  show (form sampleMd5 noParameters (utf8 "k") [("access_key", utf8 "a+b%2B")] true none 1 >>= _) = _
  rw [form_sample]
  rfl

theorem send_cached : loginStep waitingCalls (.send 0 (some 1)) = some sentCalls := by
  have hi : waitingCalls.calls 0 = some (0, .cacheLogin cachedLogin,
      .waiting ⟨CACHE_PATH, [("access_key", utf8 "a+b%2B")], true, none⟩ (10 * 10 ^ 9)) := rfl
  rw [loginStep, step, hi, Option.bind_some, stepCall, if_pos (by rfl), post_cached]
  rfl

/-- The reply comes in two parts; then the clock is read as before the epoch. -/
def laterEvents : List (Event ℕ ℕ) :=
  [.head 0 (.ok (200, some 29)), .chunk 0 (.ok (some (cachedReply.take 5))),
    .chunk 0 (.ok (some (cachedReply.drop 5))), .chunk 0 (.ok none), .advance (10 ^ 9),
    .cacheLogin 2 0 cachedLogin, .send 2 none]

theorem laterEvents_happen : (exec loginStep sentCalls laterEvents).isSome = true := by
  rfl

def endCalls : SdkCalls ℕ ℕ := (exec loginStep sentCalls laterEvents).get laterEvents_happen

def loginCalls : List (Transition (SdkCalls ℕ ℕ) (Event ℕ ℕ)) :=
  transitions loginStep (initial 0) [.cacheLogin 0 0 cachedLogin, .cacheLogin 1 0 cachedLogin] ++
    (⟨waitingCalls, .send 0 (some 1), sentCalls⟩ :: transitions loginStep sentCalls laterEvents)

theorem run_login : Run (step loginCodecs loginClient) (initial 0) loginCalls endCalls := by
  have hbegin : exec loginStep (initial 0)
      [.cacheLogin 0 0 cachedLogin, .cacheLogin 1 0 cachedLogin] = some waitingCalls := rfl
  exact (run_transitions hbegin).append
    (Run.cons_iff.2 ⟨rfl, send_cached, run_get laterEvents laterEvents_happen⟩)

theorem sdk_serial_paced_sample : ¬ ∃ i, Running endCalls 0 i := by
  rw [← ((sdk_serial_paced run_login).1 0).1]
  decide +kernel

end SdkCalls

end MoenotesApi.SdkHttp
