import MoenotesApi.Sdk.Replies

/-!
# The parts of a body

A body may come in any parts, and other calls may go on in between: the result of a call depends on
the body alone.

* `SdkHttpClient.outcome`: the result of a call with a given body;
* `Read`, `read_of_run`: what a call has read;
* `Delivers`: the parts of a given body come to a call;
* `sdk_body_whole`: the main result.
-/

namespace MoenotesApi.SdkHttp

open FormText Runs

variable {K κ ι : Type} {lib : Libraries}

/-- The result of a call with this body. -/
def SdkHttpClient.outcome (codecs : SdkCodecs K) (c : SdkHttpClient lib) (call : SdkCall)
    (body : Bytes) : SdkResult :=
  if MAX_RESPONSE < body.length then .error protocolError else c.reply codecs body call

namespace SdkCalls

variable [DecidableEq κ] [DecidableEq ι] {codecs : SdkCodecs K} {clients : κ → SdkHttpClient lib}
variable {s s' : SdkCalls κ ι} {e : Event κ ι} {i : ι} {k : κ} {call : SdkCall} {stage : SdkStage}
variable {post : HttpPost} {deadline : ℕ} {bytes body : Bytes} {result : Except Bool (Option Bytes)}
variable {ts : List (Transition (SdkCalls κ ι) (Event κ ι))}

theorem step_chunk (hi : s.calls i = some (k, call, stage)) :
    s.step codecs clients (.chunk i result) =
      s.stepCall codecs clients i k call stage (.chunk i result) := by
  simp only [step, hi, Option.bind_some]

/-- The end of the body has come. -/
def Ended (ts : List (Transition (SdkCalls κ ι) (Event κ ι))) (i : ι) : Prop :=
  ∃ t ∈ ts, t.event = .chunk i (.ok none)

/-- Nothing but parts of the body happens to the call. -/
def Reads (ts : List (Transition (SdkCalls κ ι) (Event κ ι))) (i : ι) : Prop :=
  ∀ t ∈ ts, t.event.owner = some i → ∃ part, t.event = .chunk i (.ok part)

/-- A call to which `bytes` have come: it goes on, or it has ended with them, or they are too long. -/
inductive Read (codecs : SdkCodecs K) (clients : κ → SdkHttpClient lib) (k : κ) (call : SdkCall)
    (post : HttpPost) (deadline : ℕ) (ended : Prop) (bytes : Bytes) :
    Option (κ × SdkCall × SdkStage) → Prop
  | reading (hended : ¬ ended) (hlen : bytes.length ≤ MAX_RESPONSE) :
      Read codecs clients k call post deadline ended bytes
        (some (k, call, .reading post deadline bytes))
  | ended (hended : ended) (hlen : bytes.length ≤ MAX_RESPONSE) :
      Read codecs clients k call post deadline ended bytes
        (some (k, call, .finished ((clients k).reply codecs bytes call)))
  | tooLong (hlen : MAX_RESPONSE < bytes.length) :
      Read codecs clients k call post deadline ended bytes
        (some (k, call, .finished (.error protocolError)))

omit [DecidableEq κ] [DecidableEq ι] in
theorem ended_snoc {t : Transition (SdkCalls κ ι) (Event κ ι)} :
    Ended (ts ++ [t]) i ↔ Ended ts i ∨ t.event = .chunk i (.ok none) := by
  simp [Ended, or_and_right, exists_or]

/-- One part of the body, or its end. -/
theorem Read.chunk {p : Prop} {part : Option Bytes}
    (h : Read codecs clients k call post deadline p bytes (s.calls i))
    (hstep : s.step codecs clients (.chunk i (.ok part)) = some s') :
    Read codecs clients k call post deadline (p ∨ part = none) (bytes ++ part.getD [])
      (s'.calls i) := by
  generalize hc : s.calls i = c at h
  cases h with
  | reading hended hlen =>
    rw [step_chunk hc] at hstep
    cases part with
    | none =>
      obtain rfl := Option.some.inj hstep
      rw [finish_calls, Function.update_self, Option.getD_none, List.append_nil]
      exact .ended (.inr rfl) hlen
    | some part =>
      simp only [stepCall] at hstep
      split_ifs at hstep with hlong <;> obtain rfl := Option.some.inj hstep
      · rw [finish_calls, Function.update_self]
        exact .tooLong (by rwa [Option.getD_some, List.length_append])
      · rw [put_calls, Function.update_self]
        refine .reading (by simpa using hended) ?_
        rw [Option.getD_some, List.length_append]
        exact Nat.not_lt.1 hlong
  | ended | tooLong =>
    rw [step_chunk hc] at hstep
    cases hstep

/-- What a call has read at the end of a run in which nothing else happens to it. -/
theorem read_of_run (hi : s.calls i = some (k, call, .reading post deadline bytes))
    (hlen : bytes.length ≤ MAX_RESPONSE) (hrun : Run (step codecs clients) s ts s')
    (hreads : Reads ts i) :
    Read codecs clients k call post deadline (Ended ts i) (bytes ++ (chunks ts i).flatten)
      (s'.calls i) := by
  induction hrun with
  | nil =>
    rw [hi, show bytes ++ (chunks ([] : List (Transition (SdkCalls κ ι) (Event κ ι))) i).flatten =
      bytes from List.append_nil _]
    exact .reading (by simp [Ended]) hlen
  | @snoc ts m e m' _ he ih =>
    have hmem : (⟨m, e, m'⟩ : Transition (SdkCalls κ ι) (Event κ ι)) ∈ ts ++ [⟨m, e, m'⟩] := by simp
    have hread := ih fun t ht => hreads t (List.mem_append_left _ ht)
    rw [chunks_snoc, List.flatten_append, ← List.append_assoc]
    by_cases howner : e.owner = some i
    · obtain ⟨part, rfl⟩ := hreads _ hmem howner
      have hpart : ((Event.part i (.chunk i (.ok part) : Event κ ι)).toList).flatten =
          part.getD [] := by
        cases part <;> simp [Event.part]
      have hended : Ended (ts ++ [⟨m, .chunk i (.ok part), m'⟩]) i ↔ Ended ts i ∨ part = none := by
        simp [ended_snoc]
      rw [hpart, propext hended]
      exact hread.chunk he
    · have hended : Ended (ts ++ [⟨m, e, m'⟩]) i ↔ Ended ts i := by
        rw [ended_snoc, or_iff_left]
        rintro rfl
        exact howner rfl
      rw [(Step.of_step he).others howner, Event.part_of_owner howner, Option.toList_none,
        List.flatten_nil, List.append_nil, propext hended]
      exact hread

/-! ### A given body -/

/-- The parts of `body`, of which `bytes` have come before, come to the call. -/
structure Delivers (bytes body : Bytes) (ts : List (Transition (SdkCalls κ ι) (Event κ ι)))
    (i : ι) : Prop where
  reads : Reads ts i
  parts : bytes ++ (chunks ts i).flatten <+: body
  whole : Ended ts i → bytes ++ (chunks ts i).flatten = body

/-- The parts of a body and its end. -/
def deliveries (i : ι) (parts : List Bytes) : List (Event κ ι) :=
  parts.map (fun part => .chunk i (.ok (some part))) ++ [.chunk i (.ok none)]

theorem exists_delivered {parts : List Bytes}
    (hi : s.calls i = some (k, call, .reading post deadline bytes))
    (hlen : bytes.length ≤ MAX_RESPONSE) :
    ∃ ts s', Run (step codecs clients) s ts s' ∧ ts.map (·.event) <+: deliveries i parts ∧
      s'.calls i =
        some (k, call, .finished ((clients k).outcome codecs call (bytes ++ parts.flatten))) := by
  induction parts generalizing s bytes with
  | nil =>
    refine ⟨[⟨s, .chunk i (.ok none), _⟩], _, .single (step_chunk hi), List.prefix_rfl, ?_⟩
    rw [finish_calls, Function.update_self, List.flatten_nil, List.append_nil,
      SdkHttpClient.outcome, if_neg (Nat.not_lt.2 hlen)]
  | cons part parts ih =>
    have hbody : bytes ++ (part :: parts).flatten = bytes ++ part ++ parts.flatten := by simp
    have hstep : s.step codecs clients (.chunk i (.ok (some part))) = _ := step_chunk hi
    by_cases hlong : MAX_RESPONSE < bytes.length + part.length
    · rw [stepCall, if_pos hlong] at hstep
      refine ⟨[⟨s, .chunk i (.ok (some part)), _⟩], _, .single hstep, ?_, ?_⟩
      · exact List.cons_prefix_cons.2 ⟨rfl, List.nil_prefix⟩
      · rw [finish_calls, Function.update_self, hbody, SdkHttpClient.outcome, if_pos]
        rw [List.length_append, List.length_append]
        omega
    · rw [stepCall, if_neg hlong] at hstep
      have hnext : (s.put i k call (.reading post deadline (bytes ++ part))).calls i =
          some (k, call, .reading post deadline (bytes ++ part)) := Function.update_self _ _ _
      obtain ⟨ts, s', hrun, hevents, hs'⟩ := ih hnext
        (by rw [List.length_append]; exact Nat.not_lt.1 hlong)
      exact ⟨_, s', (Run.single hstep).append hrun, List.cons_prefix_cons.2 ⟨rfl, hevents⟩,
        by rw [hbody, hs']⟩

/-- **The result depends on the whole body.**  A call that reads goes on in the same way however the
body is cut and whatever other calls do: as long as nothing but the parts of `body` comes, it reads a
part of it, and at its end, or before if it is too long, it ends with the result for `body`.  All the
parts can come, up to this end. -/
theorem sdk_body_whole (hi : s.calls i = some (k, call, .reading post deadline bytes))
    (hlen : bytes.length ≤ MAX_RESPONSE) :
    (∀ ts s' body, Run (step codecs clients) s ts s' → Delivers bytes body ts i →
      (∃ read, s'.calls i = some (k, call, .reading post deadline read) ∧ read <+: body ∧
        ¬ Ended ts i) ∨
      s'.calls i = some (k, call, .finished ((clients k).outcome codecs call body))) ∧
    ∀ parts : List Bytes, ∃ ts s', Run (step codecs clients) s ts s' ∧
      ts.map (·.event) <+: deliveries i parts ∧ s'.calls i =
        some (k, call, .finished ((clients k).outcome codecs call (bytes ++ parts.flatten))) := by
  refine ⟨fun ts s' body hrun hdelivers => ?_, fun parts => exists_delivered hi hlen⟩
  have hread := read_of_run hi hlen hrun hdelivers.reads
  generalize s'.calls i = c at hread
  cases hread with
  | reading hended hlen => exact .inl ⟨_, rfl, hdelivers.parts, hended⟩
  | ended hended hlen =>
    right
    rw [SdkHttpClient.outcome, ← hdelivers.whole hended, if_neg (Nat.not_lt.2 hlen)]
  | tooLong hlong =>
    right
    rw [SdkHttpClient.outcome, if_pos (hlong.trans_le hdelivers.parts.length_le)]

/-- The first call reads. -/
def readingCalls : SdkCalls ℕ ℕ :=
  sentCalls.put 0 0 (.cacheLogin cachedLogin) (.reading cachedPost (10 * 10 ^ 9) [])

theorem sdk_body_whole_sample : ∃ ts s', Run (step loginCodecs loginClient) readingCalls ts s' ∧
    ts.map (·.event) <+: deliveries 0 [cachedReply.take 5, [], cachedReply.drop 5] ∧
    s'.calls 0 =
      some (0, .cacheLogin cachedLogin, .finished (.ok (.success (.login cachedUser)))) := by
  have hi : readingCalls.calls 0 = some (0, .cacheLogin cachedLogin,
      .reading cachedPost (10 * 10 ^ 9) []) := rfl
  have houtcome : (loginClient 0).outcome loginCodecs (.cacheLogin cachedLogin)
      ([] ++ [cachedReply.take 5, [], cachedReply.drop 5].flatten) =
        .ok (.success (.login cachedUser)) := rfl
  rw [← houtcome]
  exact (sdk_body_whole hi (Nat.zero_le _)).2 _

end SdkCalls

end MoenotesApi.SdkHttp
