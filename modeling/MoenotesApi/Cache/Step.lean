import MoenotesApi.Cache.Machine
import MoenotesApi.Library.Run

/-!
# What one event does to the query cache

`QueryCache.Step codec opt c e c'` lists the branches of `QueryCache.step`, with their guards;
`Step.of_step` is the inversion lemma.
-/

namespace MoenotesApi.QueryCache

variable {ι J : Type} [DecidableEq ι] [DecidableEq J] {codec : Codec J} {opt : CacheOptions}
variable {c c' : QueryCache ι J}

/-- `c.step e` can lead to `c'`, by the named branch. -/
inductive Step (codec : Codec J) (opt : CacheOptions) :
    QueryCache ι J → Event ι J → QueryCache ι J → Prop
  | arrive {c i query} (hi : c.callers i = none) :
      Step codec opt c (.arrive i query) (c.setCaller i ⟨query, arrival opt query⟩)
  | blocked {c i q e} (hi : c.callers i = some ⟨q, .arrived⟩)
      (hb : c.blocked q.method.anonymous = some e) :
      Step codec opt c (.begin i) (c.fail i ⟨q, .arrived⟩ e)
  | unblocked {c i q} (hi : c.callers i = some ⟨q, .arrived⟩)
      (hb : c.blocked q.method.anonymous = none) :
      Step codec opt c (.begin i) (c.setCaller i ⟨q, .unblocked⟩)
  | stopped {c i q} (hi : c.callers i = some ⟨q, .unblocked⟩) (hs : c.stopped = true) :
      Step codec opt c (.capture i) (c.fail i ⟨q, .unblocked⟩ (.new .cancelled))
  | capture {c i q} (hi : c.callers i = some ⟨q, .unblocked⟩) (hs : c.stopped = false) :
      Step codec opt c (.capture i) (c.setCaller i ⟨q, .waiting (q.key c.generation)⟩)
  | found {c i q key entry} (hi : c.callers i = some ⟨q, .waiting key⟩) (hl : c.holder = none)
      (he : (c.purged key).store.cache.lookup key = some entry) :
      Step codec opt c (.lookup i) { (c.purged key).setCaller i ⟨q, .found key entry c.now⟩ with
        holder := some (.caller i) }
  | join {c i q key f} (hi : c.callers i = some ⟨q, .waiting key⟩) (hl : c.holder = none)
      (he : (c.purged key).store.cache.lookup key = none) (hf : c.flights.lookup key = some f) :
      Step codec opt c (.lookup i) ((c.purged key).setCaller i ⟨q, .joined key f .coalesced⟩)
  | full {c i q key} (hi : c.callers i = some ⟨q, .waiting key⟩) (hl : c.holder = none)
      (he : (c.purged key).store.cache.lookup key = none) (hf : c.flights.lookup key = none)
      (hfull : opt.maxInflight ≤ c.flights.entries.length) :
      Step codec opt c (.lookup i) ((c.purged key).fail i ⟨q, .waiting key⟩ (.new .queueFull))
  | spawn {c i q key} (hi : c.callers i = some ⟨q, .waiting key⟩) (hl : c.holder = none)
      (he : (c.purged key).store.cache.lookup key = none) (hf : c.flights.lookup key = none)
      (hfree : c.flights.entries.length < opt.maxInflight) :
      Step codec opt c (.lookup i) ((c.purged key).spawn i ⟨q, .waiting key⟩ key)
  | hitBlocked {c i q key entry now e} (hi : c.callers i = some ⟨q, .found key entry now⟩)
      (hb : c.blocked q.method.anonymous = some e) :
      Step codec opt c (.hitCheck i) (c.fail i ⟨q, .found key entry now⟩ e).unlock
  | hitCheck {c i q key entry now} (hi : c.callers i = some ⟨q, .found key entry now⟩)
      (hb : c.blocked q.method.anonymous = none) :
      Step codec opt c (.hitCheck i) (c.setCaller i ⟨q, .cleared key entry now⟩)
  | hitChanged {c i q key entry now} (hi : c.callers i = some ⟨q, .cleared key entry now⟩)
      (hg : c.generation ≠ key.generation) :
      Step codec opt c (.hitReturn i)
        ((c.touched key now).fail i ⟨q, .cleared key entry now⟩ (.new .sessionChanged)).unlock
  | hitReturn {c i q key entry now} (hi : c.callers i = some ⟨q, .cleared key entry now⟩)
      (hg : c.generation = key.generation) :
      Step codec opt c (.hitReturn i) ((c.touched key now).setCaller i
        ⟨q, .returned none (.ok (entry.response, .hit))⟩).unlock
  | wake {c i q key f status task result} (hi : c.callers i = some ⟨q, .joined key f status⟩)
      (ht : c.tasks f = some task) (hs : task.stage = .published result) :
      Step codec opt c (.wake i) (c.setCaller i ⟨q, .woken key f status result⟩)
  | wokenBlocked {c i q key f status result e}
      (hi : c.callers i = some ⟨q, .woken key f status result⟩)
      (hb : c.blocked q.method.anonymous = some e) :
      Step codec opt c (.errorCheck i) (c.fail i ⟨q, .woken key f status result⟩ e)
  | errorCheck {c i q key f status result} (hi : c.callers i = some ⟨q, .woken key f status result⟩)
      (hb : c.blocked q.method.anonymous = none) :
      Step codec opt c (.errorCheck i) (c.setCaller i ⟨q, .unlocked key f status result⟩)
  | finishChanged {c i q key f status result}
      (hi : c.callers i = some ⟨q, .unlocked key f status result⟩)
      (hg : c.generation ≠ key.generation) :
      Step codec opt c (.finish i)
        (c.fail i ⟨q, .unlocked key f status result⟩ (.new .sessionChanged))
  | finish {c i q key f status result}
      (hi : c.callers i = some ⟨q, .unlocked key f status result⟩)
      (hg : c.generation = key.generation) :
      Step codec opt c (.finish i) (c.setCaller i
        ⟨q, .returned (some f) (result.map fun response => (response, status))⟩)
  | cancelled {c i q key f status} (hi : c.callers i = some ⟨q, .joined key f status⟩)
      (hs : c.stopped = true) :
      Step codec opt c (.cancelled i) (c.fail i ⟨q, .joined key f status⟩ (.new .cancelled))
  | drop {c i q stage} (hi : c.callers i = some ⟨q, stage⟩)
      (hs : (∃ key, stage = .waiting key) ∨ ∃ key f status, stage = .joined key f status) :
      Step codec opt c (.drop i) (c.setCaller i ⟨q, .dropped⟩)
  | execute {c f key q} (hf : c.tasks f = some ⟨key, q, .spawned⟩) :
      Step codec opt c (.execute f) (c.setTask f ⟨key, q, .executing⟩)
  | answer {c f key q result} (hf : c.tasks f = some ⟨key, q, .executing⟩) :
      Step codec opt c (.answer f result)
        (c.setTask f ⟨key, q, .computed (compute codec c.generation key result)⟩)
  | relock {c f key q result} (hf : c.tasks f = some ⟨key, q, .computed result⟩)
      (hl : c.holder = none) :
      Step codec opt c (.relock f) { c.setTask f ⟨key, q, .locked
        (if c.generation ≠ key.generation then .error (.new .sessionChanged) else result)⟩ with
          holder := some (.task f) }
  | publish {c f key q result} (hf : c.tasks f = some ⟨key, q, .locked result⟩) :
      Step codec opt c (.publish f) { c.setTask f ⟨key, q, .published result⟩ with
        store := c.completed opt ⟨key, q, .locked result⟩ result
        flights := c.flights.erase key
        holder := none }
  | client {c generation blocked} :
      Step codec opt c (.client generation blocked)
        { c with generation := generation, blocked := blocked }
  | stop {c : QueryCache ι J} : Step codec opt c .stop { c with stopped := true }
  | advance {c duration} :
      Step codec opt c (.advance duration) { c with now := c.now + duration }
  | rearrange {c cache} (hp : cache.entries.Perm c.store.cache.entries) :
      Step codec opt c (.rearrange cache) { c with store := ⟨cache, c.store.bytes⟩ }

omit [DecidableEq J] in
theorem Step.of_lookup {i : ι} {q : Query} {key : Key}
    (hi : c.callers i = some ⟨q, .waiting key⟩) (hl : c.holder = none) :
    Step codec opt c (.lookup i) (c.lookup opt i ⟨q, .waiting key⟩ key) := by
  unfold QueryCache.lookup
  split
  · next he => exact .found hi hl he
  · next he =>
    split
    · next hf => exact .join hi hl he hf
    · next hf =>
      split_ifs with hfull
      · exact .full hi hl he hf hfull
      · exact .spawn hi hl he hf (not_le.1 hfull)

omit [DecidableEq J] in
theorem Step.of_stepCaller {i : ι} {q : Query} {stage : CallerStage J} {e : Event ι J}
    (hi : c.callers i = some ⟨q, stage⟩) (he : e.caller = some i)
    (h : stepCaller opt c i ⟨q, stage⟩ e = some c') : Step codec opt c e c' := by
  cases e <;> simp only [Event.caller, Option.some.injEq, reduceCtorEq] at he <;> subst he <;>
    simp only [stepCaller] at h
  case begin =>
    split at h
    · split at h <;> obtain rfl := Option.some.inj h
      · next hb => exact .blocked hi hb
      · next hb => exact .unblocked hi hb
    · cases h
  case capture =>
    split at h
    · split_ifs at h with hs <;> obtain rfl := Option.some.inj h
      · exact .stopped hi hs
      · exact .capture hi (by simpa using hs)
    · cases h
  case lookup =>
    split at h
    · next hl =>
      obtain rfl := Option.some.inj h
      exact .of_lookup hi hl
    · cases h
  case hitCheck =>
    split at h
    · split at h <;> obtain rfl := Option.some.inj h
      · next hb => exact .hitBlocked hi hb
      · next hb => exact .hitCheck hi hb
    · cases h
  case hitReturn =>
    split at h
    · split_ifs at h with hg <;> obtain rfl := Option.some.inj h
      · exact .hitChanged hi hg
      · exact .hitReturn hi (not_not.1 hg)
    · cases h
  case wake =>
    split at h
    · split at h
      · next ht =>
        obtain rfl := Option.some.inj h
        exact .wake hi ht rfl
      · cases h
    · cases h
  case errorCheck =>
    split at h
    · split at h <;> obtain rfl := Option.some.inj h
      · next hb => exact .wokenBlocked hi hb
      · next hb => exact .errorCheck hi hb
    · cases h
  case finish =>
    split at h
    · split_ifs at h with hg <;> obtain rfl := Option.some.inj h
      · exact .finishChanged hi hg
      · exact .finish hi (not_not.1 hg)
    · cases h
  case cancelled =>
    split at h
    · split_ifs at h with hs
      obtain rfl := Option.some.inj h
      exact .cancelled hi hs
    · cases h
  case drop =>
    split at h
    · obtain rfl := Option.some.inj h
      exact .drop hi (.inl ⟨_, rfl⟩)
    · obtain rfl := Option.some.inj h
      exact .drop hi (.inr ⟨_, _, _, rfl⟩)
    · cases h

omit [DecidableEq J] in
theorem Step.of_stepTask {f : ℕ} {key : Key} {q : Query} {stage : TaskStage J} {e : Event ι J}
    (hf : c.tasks f = some ⟨key, q, stage⟩) (he : e.flight = some f)
    (h : stepTask codec opt c f ⟨key, q, stage⟩ e = some c') : Step codec opt c e c' := by
  cases e <;> simp only [Event.flight, Option.some.injEq, reduceCtorEq] at he <;> subst he <;>
    simp only [stepTask] at h
  case execute =>
    split at h
    · obtain rfl := Option.some.inj h
      exact .execute hf
    · cases h
  case answer =>
    split at h
    · obtain rfl := Option.some.inj h
      exact .answer hf
    · cases h
  case relock =>
    split at h
    · next hl =>
      obtain rfl := Option.some.inj h
      exact .relock hf hl
    · cases h
  case publish =>
    split at h
    · obtain rfl := Option.some.inj h
      exact .publish hf
    · cases h

/-- **Inversion of the step function.** -/
theorem Step.of_step {e : Event ι J} (h : step codec opt c e = some c') :
    Step codec opt c e c' := by
  unfold step at h
  split at h
  · split at h
    · cases h
    · next hi =>
      obtain rfl := Option.some.inj h
      exact .arrive hi
  · obtain rfl := Option.some.inj h
    exact .client
  · obtain rfl := Option.some.inj h
    exact .stop
  · obtain rfl := Option.some.inj h
    exact .advance
  · split_ifs at h with hp
    obtain rfl := Option.some.inj h
    exact .rearrange hp
  · split at h
    · next he =>
      split at h
      · next hi => exact .of_stepCaller hi he h
      · cases h
    · next he =>
      split at h
      · next hf => exact .of_stepTask hf he h
      · cases h
    · cases h

end MoenotesApi.QueryCache
