import MoenotesApi.Cache.Flights

/-!
# Where a cached answer comes from

A caller of the cache reads the generation, looks its key up, and reads the block and the generation
again before it returns, while tasks and the client move on.  What it returns is traced back through
the run.

* `Captures`, `Answers`, `Inserts`, `Joins`, `Checks`: the transitions that make up the history of an
  answer; `Obtained`, `Selected`, `Checked`, `Delivered`: that they happened, in this order;
* `History`: what every part of the state says about the run so far;
* `delivered_of_run`: every answer belongs to a completed call under the generation of its query.
-/

namespace MoenotesApi.QueryCache

open Runs

variable {ι J : Type} {codec : Codec J} {opt : CacheOptions} {c c' : QueryCache ι J}
variable {e : Event ι J} {ts us : List (Transition (QueryCache ι J) (Event ι J))} {i : ι}
variable {key : Key} {response : CachedResponse J} {q : Query} {g : ℕ} {status : CacheStatus}

/-! ### The transitions of a history -/

/-- The caller `i` reads the generation `g`. -/
def Captures (i : ι) (g : ℕ) (t : Transition (QueryCache ι J) (Event ι J)) : Prop :=
  t.event = .capture i ∧ t.before.generation = g

/-- A call of `execute` for `key` completes, and `response` is made of its answer. -/
def Answers (codec : Codec J) (key : Key) (response : CachedResponse J)
    (t : Transition (QueryCache ι J) (Event ι J)) : Prop :=
  ∃ f q answer, t.event = .answer f (.ok answer) ∧
    t.before.tasks f = some ⟨key, q, .executing⟩ ∧ q.key key.generation = key ∧
    answer.generation = key.generation ∧ codec.toJson answer.message = some response.json

/-- A flight for `key` inserts `response`, until `expires`. -/
def Inserts (opt : CacheOptions) (key : Key) (response : CachedResponse J) (expires : ℕ)
    (t : Transition (QueryCache ι J) (Event ι J)) : Prop :=
  ∃ f q, t.event = .publish f ∧ t.before.tasks f = some ⟨key, q, .locked (.ok response)⟩ ∧
    expires = t.before.now + opt.ttl

/-- The caller `i` selects a response: its lookup finds an entry inserted less than the TTL ago, or
it is woken by its flight. -/
def Selects (opt : CacheOptions) (ts : List (Transition (QueryCache ι J) (Event ι J))) (i : ι)
    (key : Key) (response : CachedResponse J) (status : CacheStatus)
    (t : Transition (QueryCache ι J) (Event ι J)) : Prop :=
  if status = .hit then
    t.event = .lookup i ∧ ∃ p expires, [p, t].Sublist ts ∧ Inserts opt key response expires p ∧
      t.before.now < expires
  else t.event = .wake i

/-- The caller `i` reads that nothing blocks its query. -/
def Checks (i : ι) (q : Query) (t : Transition (QueryCache ι J) (Event ι J)) : Prop :=
  (t.event = .hitCheck i ∨ t.event = .errorCheck i) ∧ t.before.blocked q.method.anonymous = none

/-- The caller `i` reads the generation `g` once more and returns. -/
def Returns (i : ι) (g : ℕ) (t : Transition (QueryCache ι J) (Event ι J)) : Prop :=
  (t.event = .hitReturn i ∨ t.event = .finish i) ∧ t.before.generation = g

/-! ### Histories -/

/-- The caller `i` has read the generation of `key`, which is the key of its query. -/
def Captured (ts : List (Transition (QueryCache ι J) (Event ι J))) (i : ι) (q : Query)
    (key : Key) : Prop :=
  q.key key.generation = key ∧ ∃ k ∈ ts, Captures i key.generation k

/-- A call for `key` has been answered with `response`. -/
def Obtained (codec : Codec J) (ts : List (Transition (QueryCache ι J) (Event ι J))) (key : Key)
    (response : CachedResponse J) : Prop :=
  ∃ o ∈ ts, Answers codec key response o

/-- The caller `i` has selected `response`, after it was obtained. -/
def Selected (codec : Codec J) (opt : CacheOptions)
    (ts : List (Transition (QueryCache ι J) (Event ι J))) (i : ι) (q : Query) (key : Key)
    (response : CachedResponse J) (status : CacheStatus) : Prop :=
  q.key key.generation = key ∧ ∃ k o t, [k, t].Sublist ts ∧ [o, t].Sublist ts ∧
    Captures i key.generation k ∧ Answers codec key response o ∧
    Selects opt ts i key response status t

/-- The caller `i` has then read that nothing blocks its query. -/
def Checked (codec : Codec J) (opt : CacheOptions)
    (ts : List (Transition (QueryCache ι J) (Event ι J))) (i : ι) (q : Query) (key : Key)
    (response : CachedResponse J) (status : CacheStatus) : Prop :=
  q.key key.generation = key ∧ ∃ k o t u, [k, t, u].Sublist ts ∧ [o, t].Sublist ts ∧
    Captures i key.generation k ∧ Answers codec key response o ∧
    Selects opt ts i key response status t ∧ Checks i q u

/-- The caller `i` has then read its generation once more and returned `response`. -/
def Delivered (codec : Codec J) (opt : CacheOptions)
    (ts : List (Transition (QueryCache ι J) (Event ι J))) (i : ι) (q : Query) (key : Key)
    (response : CachedResponse J) (status : CacheStatus) : Prop :=
  q.key key.generation = key ∧ ∃ k o t u v, [k, t, u, v].Sublist ts ∧ [o, t].Sublist ts ∧
    Captures i key.generation k ∧ Answers codec key response o ∧
    Selects opt ts i key response status t ∧ Checks i q u ∧ Returns i key.generation v

/-- The caller `i` has joined the flight `f` before that had ended. -/
def Joined (ts : List (Transition (QueryCache ι J) (Event ι J))) (i : ι) (f : ℕ) : Prop :=
  ∃ t ∈ ts, t.event = .lookup i ∧
    ∃ key q stage, t.after.tasks f = some ⟨key, q, stage⟩ ∧ stage.outcome = none

section Monotone

variable (hsub : ts.Sublist us)
include hsub

theorem Captured.mono (h : Captured ts i q key) : Captured us i q key :=
  ⟨h.1, h.2.imp fun _ hk => ⟨hsub.subset hk.1, hk.2⟩⟩

theorem Obtained.mono (h : Obtained codec ts key response) : Obtained codec us key response :=
  h.imp fun _ ho => ⟨hsub.subset ho.1, ho.2⟩

theorem Joined.mono {f : ℕ} (h : Joined ts i f) : Joined us i f :=
  h.imp fun _ ht => ⟨hsub.subset ht.1, ht.2⟩

theorem Selects.mono {t : Transition (QueryCache ι J) (Event ι J)}
    (h : Selects opt ts i key response status t) : Selects opt us i key response status t := by
  unfold Selects at *
  split_ifs at h ⊢
  · obtain ⟨he, p, expires, hp, hins⟩ := h
    exact ⟨he, p, expires, hp.trans hsub, hins⟩
  · exact h

theorem Selected.mono (h : Selected codec opt ts i q key response status) :
    Selected codec opt us i q key response status := by
  obtain ⟨hkey, k, o, t, hkt, hot, hk, ho, hs⟩ := h
  exact ⟨hkey, k, o, t, hkt.trans hsub, hot.trans hsub, hk, ho, hs.mono hsub⟩

theorem Checked.mono (h : Checked codec opt ts i q key response status) :
    Checked codec opt us i q key response status := by
  obtain ⟨hkey, k, o, t, u, hkt, hot, hk, ho, hs, hu⟩ := h
  exact ⟨hkey, k, o, t, u, hkt.trans hsub, hot.trans hsub, hk, ho, hs.mono hsub, hu⟩

theorem Delivered.mono (h : Delivered codec opt ts i q key response status) :
    Delivered codec opt us i q key response status := by
  obtain ⟨hkey, k, o, t, u, v, hkt, hot, hk, ho, hs, hu, hv⟩ := h
  exact ⟨hkey, k, o, t, u, v, hkt.trans hsub, hot.trans hsub, hk, ho, hs.mono hsub, hu, hv⟩

end Monotone

theorem sublist_snoc {as : List (Transition (QueryCache ι J) (Event ι J))} (h : as.Sublist ts)
    (t : Transition (QueryCache ι J) (Event ι J)) : (as ++ [t]).Sublist (ts ++ [t]) :=
  h.append (List.Sublist.refl _)

/-- A caller selects a response. -/
theorem Captured.select (h : Captured ts i q key) (ho : Obtained codec ts key response)
    {t : Transition (QueryCache ι J) (Event ι J)}
    (hs : Selects opt (ts ++ [t]) i key response status t) :
    Selected codec opt (ts ++ [t]) i q key response status := by
  obtain ⟨hkey, k, hk, hcap⟩ := h
  obtain ⟨o, hot, hans⟩ := ho
  exact ⟨hkey, k, o, t, sublist_snoc (List.singleton_sublist.2 hk) t,
    sublist_snoc (List.singleton_sublist.2 hot) t, hcap, hans, hs⟩

theorem Selected.check (h : Selected codec opt ts i q key response status)
    {u : Transition (QueryCache ι J) (Event ι J)} (hu : Checks i q u) :
    Checked codec opt (ts ++ [u]) i q key response status := by
  obtain ⟨hkey, k, o, t, hkt, hot, hk, ho, hs⟩ := h
  have hsub : ts.Sublist (ts ++ [u]) := List.sublist_append_left _ _
  exact ⟨hkey, k, o, t, u, sublist_snoc hkt u, hot.trans hsub, hk, ho, hs.mono hsub, hu⟩

theorem Checked.deliver (h : Checked codec opt ts i q key response status)
    {v : Transition (QueryCache ι J) (Event ι J)} (hv : Returns i key.generation v) :
    Delivered codec opt (ts ++ [v]) i q key response status := by
  obtain ⟨hkey, k, o, t, u, hkt, hot, hk, ho, hs, hu⟩ := h
  have hsub : ts.Sublist (ts ++ [v]) := List.sublist_append_left _ _
  exact ⟨hkey, k, o, t, u, v, sublist_snoc hkt v, hot.trans hsub, hk, ho, hs.mono hsub, hu, hv⟩

/-! ### What the state says about the run -/

/-- The history of a caller at a stage. -/
def CallerHistory (codec : Codec J) (opt : CacheOptions)
    (ts : List (Transition (QueryCache ι J) (Event ι J))) (i : ι) (q : Query) :
    CallerStage J → Prop
  | .waiting key => Captured ts i q key
  | .found key entry _ => Selected codec opt ts i q key entry.response .hit
  | .cleared key entry _ => Checked codec opt ts i q key entry.response .hit
  | .joined key f status => Captured ts i q key ∧ Joined ts i f ∧ status ≠ .hit
  | .woken key f status result => Joined ts i f ∧
      ∀ response, result = .ok response → Selected codec opt ts i q key response status
  | .unlocked key f status result => Joined ts i f ∧
      ∀ response, result = .ok response → Checked codec opt ts i q key response status
  | .returned flight result =>
      (∀ response status, result = .ok (response, status) →
        ∃ key, Delivered codec opt ts i q key response status) ∧
      ∀ f, flight = some f → Joined ts i f
  | _ => True

theorem CallerHistory.mono {stage : CallerStage J} (h : CallerHistory codec opt ts i q stage)
    (hsub : ts.Sublist us) : CallerHistory codec opt us i q stage := by
  cases stage with
  | waiting key => exact Captured.mono hsub h
  | found key entry now => exact Selected.mono hsub h
  | cleared key entry now => exact Checked.mono hsub h
  | joined key f status => exact ⟨h.1.mono hsub, h.2.1.mono hsub, h.2.2⟩
  | woken key f status result =>
    exact ⟨h.1.mono hsub, fun response hr => (h.2 response hr).mono hsub⟩
  | unlocked key f status result =>
    exact ⟨h.1.mono hsub, fun response hr => (h.2 response hr).mono hsub⟩
  | returned flight result =>
    refine ⟨fun response status hr => ?_, fun f hf => (h.2 f hf).mono hsub⟩
    obtain ⟨key, hd⟩ := h.1 response status hr
    exact ⟨key, hd.mono hsub⟩
  | arrived | unblocked | dropped => trivial

/-- What the state after the run `ts` says about it. -/
structure History (codec : Codec J) (opt : CacheOptions)
    (ts : List (Transition (QueryCache ι J) (Event ι J))) (c : QueryCache ι J) : Prop where
  tasks : ∀ f key q stage, c.tasks f = some ⟨key, q, stage⟩ → q.key key.generation = key ∧
    ∀ response, stage.result = some (.ok response) → Obtained codec ts key response
  entries : ∀ key entry, c.store.cache.lookup key = some entry →
    Obtained codec ts key entry.response ∧
      ∃ t ∈ ts, Inserts opt key entry.response entry.expires t
  callers : ∀ i caller, c.callers i = some caller →
    CallerHistory codec opt ts i caller.query caller.stage

theorem history_initial (generation : ℕ) (blocked : Bool → Option ClientError) (now : ℕ) :
    History codec opt [] (initial generation blocked now : QueryCache ι J) :=
  ⟨by simp [initial], by simp [initial, Store.empty], by simp [initial]⟩

/-- A successful result is made of an answer under the generation of the key. -/
theorem compute_eq_ok {result : Except ClientError QueryResponse}
    (h : compute codec g key result = .ok response) :
    ∃ answer, result = .ok answer ∧ answer.generation = key.generation ∧
      codec.toJson answer.message = some response.json := by
  unfold compute at h
  split at h
  · cases h
  · next answer =>
    split_ifs at h with hg
    split at h
    · cases h
    · next json hjson =>
      split at h
      · cases h
      · cases h
        have hgen : ¬ answer.generation ≠ key.generation := fun hne => hg (.inl hne)
        exact ⟨answer, rfl, not_not.1 hgen, hjson⟩

variable [DecidableEq ι]

theorem History.step_tasks (h : History codec opt ts c) (hs : Step codec opt c e c') :
    ∀ f key q stage, c'.tasks f = some ⟨key, q, stage⟩ → q.key key.generation = key ∧
      ∀ response, stage.result = some (.ok response) →
        Obtained codec (ts ++ [⟨c, e, c'⟩]) key response := by
  have hold : ∀ f key q stage, c.tasks f = some ⟨key, q, stage⟩ → q.key key.generation = key ∧
      ∀ response, stage.result = some (.ok response) →
        Obtained codec (ts ++ [⟨c, e, c'⟩]) key response := fun f key q stage hf =>
    ⟨(h.tasks f key q stage hf).1, fun response hr =>
      ((h.tasks f key q stage hf).2 response hr).mono (List.sublist_append_left _ _)⟩
  -- only the task of the event has changed
  have hupdate : ∀ {f key q stage}, c'.tasks = Function.update c.tasks f (some ⟨key, q, stage⟩) →
      (q.key key.generation = key ∧ ∀ response, stage.result = some (.ok response) →
        Obtained codec (ts ++ [⟨c, e, c'⟩]) key response) →
      ∀ f key q stage, c'.tasks f = some ⟨key, q, stage⟩ → q.key key.generation = key ∧
        ∀ response, stage.result = some (.ok response) →
          Obtained codec (ts ++ [⟨c, e, c'⟩]) key response := by
    intro f key q stage ht hnew f' key' q' stage' hf'
    rw [ht] at hf'
    by_cases hff : f' = f
    · subst hff
      rw [Function.update_self] at hf'
      cases hf'
      exact hnew
    · rw [Function.update_of_ne hff] at hf'
      exact hold f' key' q' stage' hf'
  cases hs with
  | spawn hi =>
    have hcap : Captured ts _ _ _ := h.callers _ _ hi
    exact hupdate rfl ⟨hcap.1, nofun⟩
  | execute hf => exact hupdate rfl ⟨(hold _ _ _ _ hf).1, nofun⟩
  | @answer f key q result hf =>
    refine hupdate rfl ⟨(hold _ _ _ _ hf).1, fun response hr => ?_⟩
    obtain ⟨answer, rfl, hg, hjson⟩ := compute_eq_ok (Option.some.inj hr)
    exact ⟨_, List.mem_append_right _ (List.mem_singleton_self _), f, q, answer, rfl, hf,
      (hold _ _ _ _ hf).1, hg, hjson⟩
  | @relock f key q result hf =>
    refine hupdate rfl ⟨(hold _ _ _ _ hf).1, fun response hr => ?_⟩
    simp only [TaskStage.result, Option.some.injEq] at hr
    split_ifs at hr
    exact (hold _ _ _ _ hf).2 response (congrArg some hr)
  | publish hf => exact hupdate rfl ⟨(hold _ _ _ _ hf).1, fun r hr => (hold _ _ _ _ hf).2 r hr⟩
  | _ => exact hold

theorem History.step_entries (h : History codec opt ts c) (hs : Step codec opt c e c') :
    ∀ key entry, c'.store.cache.lookup key = some entry →
      Obtained codec (ts ++ [⟨c, e, c'⟩]) key entry.response ∧
        ∃ t ∈ ts ++ [⟨c, e, c'⟩], Inserts opt key entry.response entry.expires t := by
  have hold : ∀ key entry, c.store.cache.lookup key = some entry →
      Obtained codec (ts ++ [⟨c, e, c'⟩]) key entry.response ∧
        ∃ t ∈ ts ++ [⟨c, e, c'⟩], Inserts opt key entry.response entry.expires t := by
    intro key entry he
    obtain ⟨ho, t, ht, hins⟩ := h.entries key entry he
    exact ⟨ho.mono (List.sublist_append_left _ _), t, List.mem_append_left _ ht, hins⟩
  intro key entry he
  cases hs.store with
  | unchanged hl =>
    rw [hl] at he
    exact hold key entry he
  | purged _ _ hs =>
    rw [hs, Store.lookup_purge, Option.filter_eq_some_iff] at he
    exact hold key entry he.1
  | touched _ _ hs =>
    rw [hs, Map.lookup_adjust, Option.map_eq_some_iff] at he
    obtain ⟨entry', he', rfl⟩ := he
    have := hold key entry' he'
    split_ifs <;> exact this
  | @inserted f key' q response hpub hf hs =>
    by_cases hkey : key = key'
    · subst hkey
      rw [hs, Store.lookup_insert] at he
      cases he
      refine ⟨((h.tasks f key q _ hf).2 response rfl).mono (List.sublist_append_left _ _), _,
        List.mem_append_right _ (List.mem_singleton_self _), f, q, hpub, hf, rfl⟩
    · rw [hs] at he
      rcases Store.lookup_insert_of_ne c.store opt hkey response c.now with hl | hl <;>
        rw [hl] at he
      · exact hold key entry he
      · cases he

omit [DecidableEq ι] in
theorem callerHistory_error (error : ClientError) :
    CallerHistory codec opt ts i q (.returned none (.error error)) :=
  ⟨nofun, nofun⟩

theorem History.step_callers (h : History codec opt ts c) (hinv : FlightInv opt c)
    (hcon : CallersConsistent c) (hs : Step codec opt c e c') :
    ∀ i caller, c'.callers i = some caller →
      CallerHistory codec opt (ts ++ [⟨c, e, c'⟩]) i caller.query caller.stage := by
  have hsub : ts.Sublist (ts ++ [⟨c, e, c'⟩]) := List.sublist_append_left _ _
  have hmem : (⟨c, e, c'⟩ : Transition (QueryCache ι J) (Event ι J)) ∈ ts ++ [⟨c, e, c'⟩] :=
    List.mem_append_right _ (List.mem_singleton_self _)
  have hold : ∀ i caller, c.callers i = some caller →
      CallerHistory codec opt (ts ++ [⟨c, e, c'⟩]) i caller.query caller.stage :=
    fun i caller hi => (h.callers i caller hi).mono hsub
  cases hs with
  | arrive =>
    refine forall_callers rfl ?_ hold
    unfold arrival
    split
    · exact callerHistory_error _
    · exact callerHistory_error _
    · trivial
  | capture =>
    refine forall_callers rfl ?_ hold
    exact ⟨rfl, _, hmem, rfl, rfl⟩
  | @found i q key entry hi _ he =>
    refine forall_callers rfl ?_ hold
    rw [purged_store, Store.lookup_purge, Option.filter_eq_some_iff] at he
    obtain ⟨he, hfresh⟩ := he
    obtain ⟨ho, p, hp, hins⟩ := h.entries key entry he
    have hcap : Captured ts i q key := h.callers _ _ hi
    refine hcap.select ho ?_
    rw [Selects, if_pos rfl]
    exact ⟨rfl, p, _, sublist_snoc (List.singleton_sublist.2 hp) _, hins,
      (of_decide_eq_true hfresh).2⟩
  | @join i q key f hi _ _ hf =>
    refine forall_callers rfl ?_ hold
    obtain ⟨q', stage, ht, hstage⟩ := (hinv.flights key f).1 hf
    have hcap : Captured ts i q key := h.callers _ _ hi
    exact ⟨hcap.mono hsub, ⟨_, hmem, rfl, key, q', stage, ht, hstage⟩, nofun⟩
  | @spawn i q key hi =>
    refine forall_callers rfl ?_ hold
    have hcap : Captured ts i q key := h.callers _ _ hi
    exact ⟨hcap.mono hsub, ⟨_, hmem, rfl, key, q, .spawned, by simp, rfl⟩, nofun⟩
  | hitCheck hi hb =>
    refine forall_callers rfl ?_ hold
    exact Selected.check (h.callers _ _ hi) ⟨.inl rfl, hb⟩
  | @hitReturn i q key entry now hi hg =>
    refine forall_callers rfl ⟨fun response status hr => ?_, nofun⟩ hold
    cases hr
    exact ⟨key, Checked.deliver (h.callers _ _ hi) ⟨.inl rfl, hg⟩⟩
  | @wake i q key f status task result hi ht hstage =>
    refine forall_callers rfl ?_ hold
    obtain ⟨hcap, hjoined, hstatus⟩ := h.callers _ _ hi
    refine ⟨hjoined.mono hsub, fun response hr => ?_⟩
    obtain ⟨q', stage, ht'⟩ := hcon _ _ hi
    rw [ht] at ht'
    cases ht'
    obtain rfl : stage = .published result := hstage
    have ho := (h.tasks f key q' _ ht).2 response (congrArg some hr)
    refine hcap.select ho ?_
    rw [Selects, if_neg hstatus]
  | errorCheck hi hb =>
    refine forall_callers rfl ?_ hold
    obtain ⟨hjoined, hsel⟩ := h.callers _ _ hi
    exact ⟨hjoined.mono hsub, fun response hr => (hsel response hr).check ⟨.inr rfl, hb⟩⟩
  | @finish i q key f status result hi hg =>
    obtain ⟨hjoined, hchk⟩ := h.callers _ _ hi
    refine forall_callers rfl ⟨fun response status' hr => ?_, ?_⟩ hold
    · cases result with
      | error error => cases hr
      | ok response' =>
        cases hr
        exact ⟨key, (hchk response rfl).deliver ⟨.inr rfl, hg⟩⟩
    · rintro f' hf'
      cases hf'
      exact hjoined.mono hsub
  | unblocked | drop => exact forall_callers rfl trivial hold
  | blocked | stopped | full | hitBlocked | hitChanged | wokenBlocked | finishChanged
  | cancelled => exact forall_callers rfl (callerHistory_error _) hold
  | _ => exact hold

variable [DecidableEq J]

/-- The state after a run tells its history. -/
theorem history_of_run {generation now : ℕ} {blocked : Bool → Option ClientError}
    (hrun : Run (QueryCache.step codec opt) (initial generation blocked now) ts c) :
    FlightInv opt c ∧ CallersConsistent c ∧ History codec opt ts c := by
  induction hrun with
  | nil =>
    exact ⟨flightInv_initial _ _ _, by simp [CallersConsistent, initial], history_initial _ _ _⟩
  | snoc _ hstep ih =>
    obtain ⟨hinv, hcon, h⟩ := ih
    have hs := Step.of_step hstep
    exact ⟨hinv.step hstep, hcon.step hinv hstep, h.step_tasks hs, h.step_entries hs,
      h.step_callers hinv hcon hs⟩

/-! ### Isolation and freshness -/

omit [DecidableEq ι] [DecidableEq J] in
/-- A call of `execute` under the generation `g`, for the same method and request as `q`, has been
answered under `g`, and `response` is the JSON of its message. -/
def Calls (codec : Codec J) (q : Query) (g : ℕ) (response : CachedResponse J)
    (t : Transition (QueryCache ι J) (Event ι J)) : Prop :=
  ∃ f q' answer, t.event = .answer f (.ok answer) ∧
    t.before.tasks f = some ⟨q.key g, q', .executing⟩ ∧
    q'.variant = q.variant ∧ q'.request = q.request ∧
    answer.generation = g ∧ codec.toJson answer.message = some response.json

omit [DecidableEq ι] [DecidableEq J] in
theorem Answers.calls {t : Transition (QueryCache ι J) (Event ι J)}
    (h : Answers codec (q.key g) response t) : Calls codec q g response t := by
  obtain ⟨f, q', answer, he, hf, hkey, hg, hjson⟩ := h
  simp only [Query.key, Key.mk.injEq, true_and] at hkey
  exact ⟨f, q', answer, he, hf, QueryVariant.eq_of_name hkey.1, hkey.2, hg, hjson⟩

/-- **Isolation and freshness.**  An answer of the cache belongs to a completed call for the same
query, under the generation that the client had when the query read it and again when it returned;
after the answer was selected nothing blocked the query at some moment; a hit was inserted less than
the TTL before its lookup.  The outcome of a flight, so every upstream error, is only returned to
callers that had joined the flight before it ended. -/
theorem delivered_of_run {generation now : ℕ} {blocked : Bool → Option ClientError}
    (hrun : Run (QueryCache.step codec opt) (initial generation blocked now) ts c) :
    (∀ i q flight response status,
      c.callers i = some ⟨q, .returned flight (.ok (response, status))⟩ →
      ∃ g k o t u v, [k, t, u, v].Sublist ts ∧ [o, t].Sublist ts ∧ Captures i g k ∧
        Calls codec q g response o ∧ Selects opt ts i (q.key g) response status t ∧
        Checks i q u ∧ Returns i g v) ∧
    ∀ i q f result, c.callers i = some ⟨q, .returned (some f) result⟩ → Joined ts i f := by
  obtain ⟨-, -, h⟩ := history_of_run hrun
  constructor
  · intro i q flight response status hi
    obtain ⟨key, hkey, k, o, t, u, v, hkt, hot, hk, ho, hs, hu, hv⟩ :=
      (h.callers i _ hi).1 response status rfl
    rw [← hkey] at ho hs
    exact ⟨key.generation, k, o, t, u, v, hkt, hot, hk, ho.calls, hs, hu, hv⟩
  · intro i q f result hi
    exact (h.callers i _ hi).2 f rfl

/-- A third caller finds the entry. -/
def hitEvents : List (Event ℕ String) :=
  coalescedEvents ++ queryEvents 2 ++ [.lookup 2, .hitCheck 2, .hitReturn 2]

def hitCache : QueryCache ℕ String := (exec sampleCacheStep sampleCache hitEvents).get rfl

theorem delivered_of_run_hit :
    ∃ g, ∃ o ∈ transitions sampleCacheStep sampleCache hitEvents,
      Calls sampleCodec sampleQuery g ⟨"\x7b\x7d", 0, 2⟩ o := by
  obtain ⟨g, k, o, t, u, v, -, hot, -, ho, -⟩ :=
    (delivered_of_run (run_get hitEvents rfl : Run sampleCacheStep sampleCache _ hitCache)).1 2
      sampleQuery none ⟨"\x7b\x7d", 0, 2⟩ .hit rfl
  exact ⟨g, o, hot.subset List.mem_cons_self, ho⟩

end MoenotesApi.QueryCache
