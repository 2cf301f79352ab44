import MoenotesApi.Sdk.Serial

/-!
# Replies and requests

What a finished call has sent and received, and that the chunks of a body do not matter.

* `sends`, `chunks`: the requests of a call and the parts of its body;
* `Trace`, `trace_of_run`: the history of a call at each of its stages;
* `sdk_replies_sound`: one request for each reply;
* `chunks_irrelevant`: the result of a body.
-/

namespace MoenotesApi.SdkHttp.SdkCalls

open FormText Runs

variable {K κ ι : Type} [DecidableEq κ] [DecidableEq ι] {lib : Libraries} {codecs : SdkCodecs K}
variable {clients : κ → SdkHttpClient lib} {s s' : SdkCalls κ ι} {e : Event κ ι} {i : ι}
variable {ts : List (Transition (SdkCalls κ ι) (Event κ ι))}

/-! ### The history of a call -/

/-- The request that an event starts. -/
def Event.sent (i : ι) : Event κ ι → Option (Option ℕ)
  | .send j ms => if j = i then some ms else none
  | _ => none

/-- The part of the body that an event brings. -/
def Event.part (i : ι) : Event κ ι → Option Bytes
  | .chunk j (.ok (some bytes)) => if j = i then some bytes else none
  | _ => none

/-- The instants of the requests of a call. -/
def sends (ts : List (Transition (SdkCalls κ ι) (Event κ ι))) (i : ι) : List (Option ℕ) :=
  ts.filterMap fun t => t.event.sent i

/-- The parts of the body of a call. -/
def chunks (ts : List (Transition (SdkCalls κ ι) (Event κ ι))) (i : ι) : List Bytes :=
  ts.filterMap fun t => t.event.part i

omit [DecidableEq κ] in
theorem sends_snoc (t : Transition (SdkCalls κ ι) (Event κ ι)) :
    sends (ts ++ [t]) i = sends ts i ++ (t.event.sent i).toList := by
  rw [sends, List.filterMap_append]
  cases h : t.event.sent i <;> simp [sends, h]

omit [DecidableEq κ] in
theorem chunks_snoc (t : Transition (SdkCalls κ ι) (Event κ ι)) :
    chunks (ts ++ [t]) i = chunks ts i ++ (t.event.part i).toList := by
  rw [chunks, List.filterMap_append]
  cases h : t.event.part i <;> simp [chunks, h]

omit [DecidableEq κ] in
theorem Event.sent_of_owner (h : e.owner ≠ some i) : e.sent i = none := by
  cases e with
  | send j ms => exact if_neg fun hj => h (by rw [hj]; rfl)
  | _ => rfl

omit [DecidableEq κ] in
theorem Event.part_of_owner (h : e.owner ≠ some i) : e.part i = none := by
  cases e with
  | chunk j result =>
    cases result with
    | error => rfl
    | ok bytes =>
      cases bytes with
      | none => rfl
      | some bytes => exact if_neg fun hj => h (by rw [hj]; rfl)
  | _ => rfl

/-- The call asks for the request. -/
def Requested (codecs : SdkCodecs K) (clients : κ → SdkHttpClient lib) (k : κ) (call : SdkCall)
    (request : SdkRequest) : Prop :=
  ∃ cancelled seed, (clients k).request codecs cancelled seed call = .ok request

/-- The one request of the call. -/
structure Posted (codecs : SdkCodecs K) (clients : κ → SdkHttpClient lib)
    (ts : List (Transition (SdkCalls κ ι) (Event κ ι))) (i : ι) (k : κ) (call : SdkCall)
    (request : SdkRequest) (ms : Option ℕ) (post : HttpPost) : Prop where
  requested : Requested codecs clients k call request
  sends : sends ts i = [ms]
  posted : (clients k).post codecs request ms = .ok post

/-- The call has got an accepted status. -/
def Opened (ts : List (Transition (SdkCalls κ ι) (Event κ ι))) (i : ι) : Prop :=
  ∃ t ∈ ts, ∃ status length, t.event = .head i (.ok (status, length)) ∧ accepted status = true

/-- The history of a call, by its stage. -/
inductive Trace (codecs : SdkCodecs K) (clients : κ → SdkHttpClient lib)
    (ts : List (Transition (SdkCalls κ ι) (Event κ ι))) (i : ι) :
    Option (κ × SdkCall × SdkStage) → Prop
  | absent (hsends : sends ts i = []) (hchunks : chunks ts i = []) : Trace codecs clients ts i none
  | waiting {k call request deadline} (requested : Requested codecs clients k call request)
      (hsends : sends ts i = []) (hchunks : chunks ts i = []) :
      Trace codecs clients ts i (some (k, call, .waiting request deadline))
  | sent {k call request ms post deadline}
      (posted : Posted codecs clients ts i k call request ms post) (hchunks : chunks ts i = []) :
      Trace codecs clients ts i (some (k, call, .sent post deadline))
  | reading {k call request ms post deadline bytes}
      (posted : Posted codecs clients ts i k call request ms post) (opened : Opened ts i)
      (hchunks : (chunks ts i).flatten = bytes) (hlen : bytes.length ≤ MAX_RESPONSE) :
      Trace codecs clients ts i (some (k, call, .reading post deadline bytes))
  | failed {k call error} (hsends : (sends ts i).length ≤ 1) :
      Trace codecs clients ts i (some (k, call, .finished (.error error)))
  | replied {k call request ms post result}
      (posted : Posted codecs clients ts i k call request ms post) (opened : Opened ts i)
      (hlen : (chunks ts i).flatten.length ≤ MAX_RESPONSE)
      (hended : ∃ t ∈ ts, t.event = .chunk i (.ok none))
      (hreply : (clients k).reply codecs (chunks ts i).flatten call = result) :
      Trace codecs clients ts i (some (k, call, .finished result))
  | dropped {k call} (hsends : (sends ts i).length ≤ 1) :
      Trace codecs clients ts i (some (k, call, .dropped))

omit [DecidableEq κ] in
theorem Trace.sends_le {c : Option (κ × SdkCall × SdkStage)} (h : Trace codecs clients ts i c) :
    (sends ts i).length ≤ 1 := by
  cases h with
  | absent hsends | waiting _ hsends => simp [hsends]
  | sent posted | reading posted | replied posted => simp [posted.sends]
  | failed hsends | dropped hsends => exact hsends

section Frame

variable {t : Transition (SdkCalls κ ι) (Event κ ι)} {k : κ} {call : SdkCall}

omit [DecidableEq κ]

theorem Posted.snoc {request : SdkRequest} {ms : Option ℕ} {post : HttpPost}
    (h : Posted codecs clients ts i k call request ms post) (hsent : t.event.sent i = none) :
    Posted codecs clients (ts ++ [t]) i k call request ms post := by
  refine ⟨h.requested, ?_, h.posted⟩
  rw [sends_snoc, hsent, h.sends]
  rfl

omit [DecidableEq ι] in
theorem Opened.snoc (h : Opened ts i) : Opened (ts ++ [t]) i := by
  obtain ⟨u, hu, hstatus⟩ := h
  exact ⟨u, List.mem_append_left _ hu, hstatus⟩

/-- An event of another call. -/
theorem Trace.snoc {c : Option (κ × SdkCall × SdkStage)} (h : Trace codecs clients ts i c)
    (hi : t.event.owner ≠ some i) : Trace codecs clients (ts ++ [t]) i c := by
  have hsent := Event.sent_of_owner hi
  have hpart := Event.part_of_owner hi
  have hsends : sends (ts ++ [t]) i = sends ts i := by
    rw [sends_snoc, hsent, Option.toList_none, List.append_nil]
  have hchunks : chunks (ts ++ [t]) i = chunks ts i := by
    rw [chunks_snoc, hpart, Option.toList_none, List.append_nil]
  cases h with
  | absent hs hc => exact .absent (hsends.trans hs) (hchunks.trans hc)
  | waiting requested hs hc => exact .waiting requested (hsends.trans hs) (hchunks.trans hc)
  | sent posted hc => exact .sent (posted.snoc hsent) (hchunks.trans hc)
  | reading posted opened hc hlen =>
    exact .reading (posted.snoc hsent) opened.snoc (by rw [hchunks, hc]) hlen
  | failed hs => exact .failed (by rwa [hsends])
  | replied posted opened hlen hended hreply =>
    obtain ⟨u, hu, he⟩ := hended
    exact .replied (posted.snoc hsent) opened.snoc (by rwa [hchunks])
      ⟨u, List.mem_append_left _ hu, he⟩ (by rwa [hchunks])
  | dropped hs => exact .dropped (by rwa [hsends])

end Frame

omit [DecidableEq κ] in
/-- The event of a call that it makes. -/
theorem Issues.owner {k : κ} {call : SdkCall} {cancelled : Bool} {seed : ℕ}
    (h : Issues s i k e call cancelled seed) :
    e.owner = some i ∧ e.sent i = none ∧ e.part i = none := by
  cases h <;> exact ⟨rfl, rfl, rfl⟩

/-- The step of a call. -/
theorem Step.own_trace (h : Step codecs clients s e s') (hs : Trace codecs clients ts i (s.calls i))
    (howner : e.owner = some i) :
    Trace codecs clients (ts ++ [⟨s, e, s'⟩]) i (s'.calls i) := by
  -- what the event adds to the history of the call
  have hsends : sends (ts ++ [⟨s, e, s'⟩]) i = _ := sends_snoc _
  have hchunks : chunks (ts ++ [⟨s, e, s'⟩]) i = _ := chunks_snoc _
  have hle := hs.sends_le
  have hmem : (⟨s, e, s'⟩ : Transition (SdkCalls κ ι) (Event κ ι)) ∈ ts ++ [⟨s, e, s'⟩] := by simp
  cases h with
  | refused hi hissues =>
    obtain ⟨hown, hsent, -⟩ := hissues.owner
    obtain rfl := Option.some.inj (howner.symm.trans hown)
    rw [put_calls, Function.update_self]
    exact .failed (by rw [hsends, hsent]; simpa using hle)
  | admitted hi hissues hrequest =>
    obtain ⟨hown, hsent, hpart⟩ := hissues.owner
    obtain rfl := Option.some.inj (howner.symm.trans hown)
    rw [hi] at hs
    rw [put_calls, Function.update_self]
    cases hs with
    | absent hs hc =>
      exact .waiting ⟨_, _, hrequest⟩ (by rw [hsends, hsent, hs]; rfl)
        (by rw [hchunks, hpart, hc]; rfl)
  | unsent hi =>
    cases howner
    rw [hi] at hs
    rw [finish_calls, Function.update_self]
    cases hs with
    | waiting requested hs => exact .failed (by rw [hsends, hs]; simp [Event.sent])
  | posted hi _ hpost =>
    cases howner
    rw [hi] at hs
    rw [put_calls, Function.update_self]
    cases hs with
    | waiting requested hs hc =>
      exact .sent ⟨requested, by rw [hsends, hs]; simp [Event.sent], hpost⟩
        (by rw [hchunks, hc]; rfl)
  | opened hi hstatus =>
    cases howner
    rw [hi] at hs
    rw [put_calls, Function.update_self]
    cases hs with
    | sent posted hc =>
      exact .reading (posted.snoc rfl) ⟨_, hmem, _, _, rfl, hstatus⟩ (by rw [hchunks, hc]; rfl)
        (Nat.zero_le _)
  | extended hi hlen =>
    cases howner
    rw [hi] at hs
    rw [put_calls, Function.update_self]
    cases hs with
    | reading posted opened hc =>
      refine .reading (posted.snoc rfl) opened.snoc ?_ ?_
      · rw [hchunks, List.flatten_append, hc]
        simp [Event.part]
      · rwa [List.length_append]
  | replied hi =>
    cases howner
    rw [hi] at hs
    rw [finish_calls, Function.update_self]
    cases hs with
    | reading posted opened hc hlen =>
      have hsame : chunks (ts ++ [⟨s, _, _⟩]) _ = chunks ts _ :=
        hchunks.trans (List.append_nil _)
      exact .replied (posted.snoc rfl) opened.snoc (by rwa [hsame, hc]) ⟨_, hmem, rfl⟩
        (by rw [hsame, hc])
  | failed hi hactive hown he =>
    obtain rfl := Option.some.inj (howner.symm.trans hown)
    rw [finish_calls, Function.update_self]
    have hsent : e.sent i = none := by
      cases e with
      | send j ms => exact absurd rfl (he j ms)
      | _ => rfl
    exact .failed (by rw [hsends, hsent]; simpa using hle)
  | dropped hi =>
    cases howner
    rw [finish_calls, Function.update_self]
    exact .dropped (by rw [hsends]; simpa [Event.sent] using hle)
  | advance => cases howner

/-- The history of every call of a run. -/
theorem trace_of_run {now : ℕ} (hrun : Run (step codecs clients) (initial now) ts s) (i : ι) :
    Trace codecs clients ts i (s.calls i) := by
  induction hrun with
  | nil => exact .absent rfl rfl
  | @snoc ts m e m' _ he ih =>
    have hstep := Step.of_step he
    by_cases howner : e.owner = some i
    · exact hstep.own_trace ih howner
    · rw [hstep.others howner]
      exact ih.snoc howner

/-- **One request for each reply.**  In every run, with any interleaving of the calls, every call
sends at most one request, whatever becomes of it.  A call that ends with a reply has sent one, to
the path of its kind below the base of its client; it has got a status that is accepted and the whole
body, of an admitted length, and the reply is that of the body.  A challenge comes from a call for
it, is bound to the client and has a key that can be used; a login has admitted texts, and that of a
cached key keeps the key. -/
theorem sdk_replies_sound {now : ℕ} {k : κ} {call : SdkCall} {stage : SdkStage}
    (hrun : Run (step codecs clients) (initial now) ts s) (hi : s.calls i = some (k, call, stage)) :
    (sends ts i).length ≤ 1 ∧
    ∀ reply, stage = .finished (.ok reply) →
      (∃ request ms post, Posted codecs clients ts i k call request ms post ∧
        post.url = (clients k).baseUrl ++ call.path) ∧
      Opened ts i ∧ (∃ t ∈ ts, t.event = .chunk i (.ok none)) ∧
      (chunks ts i).flatten.length ≤ MAX_RESPONSE ∧
      (clients k).reply codecs (chunks ts i).flatten call = .ok reply ∧
      ∀ value, reply = .success value → (clients k).Gives codecs call value := by
  have htrace := trace_of_run hrun i
  rw [hi] at htrace
  refine ⟨htrace.sends_le, ?_⟩
  rintro reply rfl
  cases htrace with
  | replied posted opened hlen hended hreply =>
    refine ⟨⟨_, _, _, posted, ?_⟩, opened, hended, hlen, hreply, ?_⟩
    · obtain ⟨cancelled, seed, hrequest⟩ := posted.requested
      rw [SdkHttpClient.post_url posted.posted, SdkHttpClient.request_path hrequest]
    · rintro value rfl
      exact SdkHttpClient.gives_of_reply hreply

/-- The login of the cached key. -/
def cachedUser : PendingSdkLogin := ⟨utf8 "7", some (utf8 "a+b%2B"), none, none, none⟩

theorem endCalls_login : endCalls.calls 0 =
    some (0, .cacheLogin cachedLogin, .finished (.ok (.success (.login cachedUser)))) := by
  rfl

theorem sdk_replies_sound_sample : (∃ request ms post, Posted loginCodecs loginClient loginCalls 0 0
    (.cacheLogin cachedLogin) request ms post ∧
      post.url = "https://sdk.example/passport" ++ "/gapi/client/cache.login") ∧
    LoginValid cachedUser := by
  obtain ⟨hposted, -, -, -, -, hgives⟩ :=
    (sdk_replies_sound run_login endCalls_login).2 _ rfl
  exact ⟨hposted, ((hgives _ rfl).login cachedUser rfl).1⟩

end MoenotesApi.SdkHttp.SdkCalls
