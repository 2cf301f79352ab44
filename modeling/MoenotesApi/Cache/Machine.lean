import MoenotesApi.Cache.Store
import Mathlib.Logic.Function.Basic

/-!
# The query cache as a state machine

`QueryCache::query` (`cache.rs`), with any number of callers and flight tasks, as a partial step
function.  A caller and a task are cut at every await, at every acquisition of the state lock, and
between any two reads of the client: the generation and the block of the client can change at any
moment, also inside a critical section.

* a caller: `arrive`, `begin` (block), `capture` (stop, generation), `lookup` (lock, purge, and one of
  hit, join, spawn, refusal), on a hit `hitCheck` and `hitReturn`, else `wake`, `errorCheck` and
  `finish`; it may be dropped while it waits for the lock or for the flight;
* a flight: `execute`, `answer`, `relock` (lock, generation) and `publish`, which inserts the
  response, sends the outcome and removes the flight;
* the rest of the world: `client`, `stop`, `advance`, `rearrange`.

The task of a flight does not panic, so the sender is never dropped unsent.
-/

namespace MoenotesApi

/-- The value of `X-Moenotes-Cache`. -/
inductive CacheStatus
  | hit
  | coalesced
  | miss
  deriving DecidableEq, Repr

/-- `SharedResult`. -/
abbrev SharedResult (J : Type) := Except ClientError (CachedResponse J)

/-- How far a call of `query` has come. -/
inductive CallerStage (J : Type)
  | arrived
  | unblocked
  | waiting (key : Key)
  | found (key : Key) (entry : Entry J) (now : ℕ)
  | cleared (key : Key) (entry : Entry J) (now : ℕ)
  | joined (key : Key) (flight : ℕ) (status : CacheStatus)
  | woken (key : Key) (flight : ℕ) (status : CacheStatus) (result : SharedResult J)
  | unlocked (key : Key) (flight : ℕ) (status : CacheStatus) (result : SharedResult J)
  | returned (flight : Option ℕ) (result : Except ClientError (CachedResponse J × CacheStatus))
  | dropped

/-- The caller has the state lock. -/
def CallerStage.holding {J : Type} : CallerStage J → Bool
  | .found _ _ _ | .cleared _ _ _ => true
  | _ => false

structure Caller (J : Type) where
  query : Query
  stage : CallerStage J

/-- How far the task of a flight has come; `published` is the value in the watch channel. -/
inductive TaskStage (J : Type)
  | spawned
  | executing
  | computed (result : SharedResult J)
  | locked (result : SharedResult J)
  | published (result : SharedResult J)

/-- The outcome that a task has sent. -/
def TaskStage.outcome {J : Type} : TaskStage J → Option (SharedResult J)
  | .published result => some result
  | _ => none

/-- The result that a task has computed so far. -/
def TaskStage.result {J : Type} : TaskStage J → Option (SharedResult J)
  | .computed result | .locked result | .published result => some result
  | _ => none

/-- The task has called `execute`. -/
def TaskStage.started {J : Type} : TaskStage J → Bool
  | .spawned => false
  | _ => true

structure Task (J : Type) where
  key : Key
  query : Query
  stage : TaskStage J

/-- Who holds the state lock. -/
inductive Holder (ι : Type)
  | caller (i : ι)
  | task (f : ℕ)
  deriving DecidableEq

/-- The cache, its tasks and callers, and what they see of the client. -/
structure QueryCache (ι J : Type) where
  generation : ℕ
  blocked : Bool → Option ClientError
  now : ℕ
  stopped : Bool
  store : Store J
  flights : Map Key ℕ
  tasks : ℕ → Option (Task J)
  nextTask : ℕ
  holder : Option (Holder ι)
  callers : ι → Option (Caller J)

namespace QueryCache

/-- What can happen. -/
inductive Event (ι J : Type)
  | arrive (i : ι) (query : Query)
  | begin (i : ι)
  | capture (i : ι)
  | lookup (i : ι)
  | hitCheck (i : ι)
  | hitReturn (i : ι)
  | wake (i : ι)
  | errorCheck (i : ι)
  | finish (i : ι)
  | cancelled (i : ι)
  | drop (i : ι)
  | execute (f : ℕ)
  | answer (f : ℕ) (result : Except ClientError QueryResponse)
  | relock (f : ℕ)
  | publish (f : ℕ)
  | client (generation : ℕ) (blocked : Bool → Option ClientError)
  | stop
  | advance (duration : ℕ)
  | rearrange (cache : Map Key (Entry J))

variable {ι J : Type}

/-- `QueryCache::new`, around a client. -/
def initial (generation : ℕ) (blocked : Bool → Option ClientError) (now : ℕ) : QueryCache ι J where
  generation := generation
  blocked := blocked
  now := now
  stopped := false
  store := .empty
  flights := ∅
  tasks := fun _ => none
  nextTask := 0
  holder := none
  callers := fun _ => none

/-- What the task makes of the answer to its `execute`. -/
def compute (codec : Codec J) (generation : ℕ) (key : Key) :
    Except ClientError QueryResponse → SharedResult J
  | .error e => .error e
  | .ok result =>
    if result.generation ≠ key.generation ∨ generation ≠ key.generation then
      .error (.new .sessionChanged)
    else
      match codec.toJson result.message with
      | none => .error (.new .protocol)
      | some json =>
        match codec.size json with
        | none => .error (.new .protocol)
        | some size => .ok ⟨json, result.fetchedAt, size⟩

/-- The response that the end of a flight inserts, if it inserts one. -/
def stored (opt : CacheOptions) (blocked : Option ClientError) :
    SharedResult J → Option (CachedResponse J)
  | .error _ => none
  | .ok response =>
    if blocked = none ∧ 0 < opt.capacity ∧ opt.ttl ≠ 0 ∧ response.size ≤ opt.maxBytes then
      some response
    else none

/-- The store at the end of a flight. -/
def completed (opt : CacheOptions) (c : QueryCache ι J) (task : Task J)
    (result : SharedResult J) : Store J :=
  match stored opt (c.blocked task.query.method.anonymous) result with
  | none => c.store
  | some response => c.store.insert opt task.key response c.now

def setTask (c : QueryCache ι J) (f : ℕ) (task : Task J) : QueryCache ι J :=
  { c with tasks := Function.update c.tasks f (some task) }

/-- The cache after the purge of a lookup of `key`. -/
def purged (c : QueryCache ι J) (key : Key) : QueryCache ι J :=
  { c with store := c.store.purge key.generation c.now }

/-- The cache after a hit: the entry of `key` has been touched. -/
def touched (c : QueryCache ι J) (key : Key) (now : ℕ) : QueryCache ι J :=
  { c with store := ⟨c.store.cache.adjust key fun e => { e with touched := now }, c.store.bytes⟩ }

/-- The caller's critical section is over. -/
def unlock (c : QueryCache ι J) : QueryCache ι J := { c with holder := none }

section Updates

variable (c : QueryCache ι J) (key : Key) (now f : ℕ) (task : Task J)

@[simp] theorem unlock_callers : c.unlock.callers = c.callers := rfl
@[simp] theorem unlock_tasks : c.unlock.tasks = c.tasks := rfl
@[simp] theorem unlock_nextTask : c.unlock.nextTask = c.nextTask := rfl
@[simp] theorem unlock_flights : c.unlock.flights = c.flights := rfl
@[simp] theorem unlock_store : c.unlock.store = c.store := rfl
@[simp] theorem unlock_generation : c.unlock.generation = c.generation := rfl
@[simp] theorem purged_callers : (c.purged key).callers = c.callers := rfl
@[simp] theorem purged_tasks : (c.purged key).tasks = c.tasks := rfl
@[simp] theorem purged_nextTask : (c.purged key).nextTask = c.nextTask := rfl
@[simp] theorem purged_flights : (c.purged key).flights = c.flights := rfl
@[simp] theorem purged_store :
    (c.purged key).store = c.store.purge key.generation c.now := rfl
@[simp] theorem purged_generation : (c.purged key).generation = c.generation := rfl
@[simp] theorem touched_callers : (c.touched key now).callers = c.callers := rfl
@[simp] theorem touched_tasks : (c.touched key now).tasks = c.tasks := rfl
@[simp] theorem touched_nextTask : (c.touched key now).nextTask = c.nextTask := rfl
@[simp] theorem touched_flights : (c.touched key now).flights = c.flights := rfl
@[simp] theorem touched_generation : (c.touched key now).generation = c.generation := rfl
@[simp] theorem setTask_callers : (c.setTask f task).callers = c.callers := rfl
@[simp] theorem setTask_tasks :
    (c.setTask f task).tasks = Function.update c.tasks f (some task) := rfl
@[simp] theorem setTask_nextTask : (c.setTask f task).nextTask = c.nextTask := rfl
@[simp] theorem setTask_flights : (c.setTask f task).flights = c.flights := rfl
@[simp] theorem setTask_store : (c.setTask f task).store = c.store := rfl
@[simp] theorem setTask_generation : (c.setTask f task).generation = c.generation := rfl

end Updates

variable [DecidableEq ι]

def setCaller (c : QueryCache ι J) (i : ι) (caller : Caller J) : QueryCache ι J :=
  { c with callers := Function.update c.callers i (some caller) }

/-- The caller returns with an error of its own. -/
def fail (c : QueryCache ι J) (i : ι) (caller : Caller J) (e : ClientError) : QueryCache ι J :=
  c.setCaller i { caller with stage := .returned none (.error e) }

/-- A caller starts the flight `c.nextTask`. -/
def spawn (c : QueryCache ι J) (i : ι) (caller : Caller J) (key : Key) : QueryCache ι J :=
  { c.setCaller i { caller with stage := .joined key c.nextTask .miss } with
    flights := c.flights.insert key c.nextTask
    tasks := Function.update c.tasks c.nextTask (some ⟨key, caller.query, .spawned⟩)
    nextTask := c.nextTask + 1 }

section Callers

variable (c : QueryCache ι J) (i : ι) (caller : Caller J) (e : ClientError) (key : Key)

@[simp] theorem setCaller_callers :
    (c.setCaller i caller).callers = Function.update c.callers i (some caller) := rfl
@[simp] theorem setCaller_tasks : (c.setCaller i caller).tasks = c.tasks := rfl
@[simp] theorem setCaller_nextTask : (c.setCaller i caller).nextTask = c.nextTask := rfl
@[simp] theorem setCaller_flights : (c.setCaller i caller).flights = c.flights := rfl
@[simp] theorem setCaller_store : (c.setCaller i caller).store = c.store := rfl
@[simp] theorem setCaller_generation : (c.setCaller i caller).generation = c.generation := rfl
@[simp] theorem fail_callers : (c.fail i caller e).callers =
    Function.update c.callers i (some ⟨caller.query, .returned none (.error e)⟩) := rfl
@[simp] theorem fail_tasks : (c.fail i caller e).tasks = c.tasks := rfl
@[simp] theorem fail_nextTask : (c.fail i caller e).nextTask = c.nextTask := rfl
@[simp] theorem fail_flights : (c.fail i caller e).flights = c.flights := rfl
@[simp] theorem fail_store : (c.fail i caller e).store = c.store := rfl
@[simp] theorem fail_generation : (c.fail i caller e).generation = c.generation := rfl
@[simp] theorem spawn_callers : (c.spawn i caller key).callers =
    Function.update c.callers i (some ⟨caller.query, .joined key c.nextTask .miss⟩) := rfl
@[simp] theorem spawn_tasks : (c.spawn i caller key).tasks =
    Function.update c.tasks c.nextTask (some ⟨key, caller.query, .spawned⟩) := rfl
@[simp] theorem spawn_nextTask : (c.spawn i caller key).nextTask = c.nextTask + 1 := rfl
@[simp] theorem spawn_flights :
    (c.spawn i caller key).flights = c.flights.insert key c.nextTask := rfl
@[simp] theorem spawn_store : (c.spawn i caller key).store = c.store := rfl
@[simp] theorem spawn_generation : (c.spawn i caller key).generation = c.generation := rfl

end Callers

/-- The lookup of a caller that has got the lock. -/
def lookup (opt : CacheOptions) (c : QueryCache ι J) (i : ι) (caller : Caller J) (key : Key) :
    QueryCache ι J :=
  match (c.purged key).store.cache.lookup key with
  | some entry =>
    { (c.purged key).setCaller i { caller with stage := .found key entry c.now } with
      holder := some (.caller i) }
  | none =>
    match c.flights.lookup key with
    | some f => (c.purged key).setCaller i { caller with stage := .joined key f .coalesced }
    | none =>
      if opt.maxInflight ≤ c.flights.entries.length then
        (c.purged key).fail i caller (.new .queueFull)
      else (c.purged key).spawn i caller key

/-- One event of a caller. -/
def stepCaller (opt : CacheOptions) (c : QueryCache ι J) (i : ι) (caller : Caller J) :
    Event ι J → Option (QueryCache ι J)
  | .begin _ =>
    match caller.stage with
    | .arrived =>
      match c.blocked caller.query.method.anonymous with
      | some e => some (c.fail i caller e)
      | none => some (c.setCaller i { caller with stage := .unblocked })
    | _ => none
  | .capture _ =>
    match caller.stage with
    | .unblocked =>
      if c.stopped then some (c.fail i caller (.new .cancelled))
      else some (c.setCaller i { caller with stage := .waiting (caller.query.key c.generation) })
    | _ => none
  | .lookup _ =>
    match caller.stage, c.holder with
    | .waiting key, none => some (c.lookup opt i caller key)
    | _, _ => none
  | .hitCheck _ =>
    match caller.stage with
    | .found key entry now =>
      match c.blocked caller.query.method.anonymous with
      | some e => some (c.fail i caller e).unlock
      | none => some (c.setCaller i { caller with stage := .cleared key entry now })
    | _ => none
  | .hitReturn _ =>
    match caller.stage with
    | .cleared key entry now =>
      if c.generation ≠ key.generation then
        some ((c.touched key now).fail i caller (.new .sessionChanged)).unlock
      else some ((c.touched key now).setCaller i
        { caller with stage := .returned none (.ok (entry.response, .hit)) }).unlock
    | _ => none
  | .wake _ =>
    match caller.stage with
    | .joined key f status =>
      match c.tasks f with
      | some ⟨_, _, .published result⟩ =>
        some (c.setCaller i { caller with stage := .woken key f status result })
      | _ => none
    | _ => none
  | .errorCheck _ =>
    match caller.stage with
    | .woken key f status result =>
      match c.blocked caller.query.method.anonymous with
      | some e => some (c.fail i caller e)
      | none => some (c.setCaller i { caller with stage := .unlocked key f status result })
    | _ => none
  | .finish _ =>
    match caller.stage with
    | .unlocked key f status result =>
      if c.generation ≠ key.generation then some (c.fail i caller (.new .sessionChanged))
      else some (c.setCaller i { caller with
        stage := .returned (some f) (result.map fun response => (response, status)) })
    | _ => none
  | .cancelled _ =>
    match caller.stage with
    | .joined _ _ _ => if c.stopped then some (c.fail i caller (.new .cancelled)) else none
    | _ => none
  | .drop _ =>
    match caller.stage with
    | .waiting _ | .joined _ _ _ => some (c.setCaller i { caller with stage := .dropped })
    | _ => none
  | _ => none

/-- One event of the task of a flight. -/
def stepTask (codec : Codec J) (opt : CacheOptions) (c : QueryCache ι J) (f : ℕ) (task : Task J) :
    Event ι J → Option (QueryCache ι J)
  | .execute _ =>
    match task.stage with
    | .spawned => some (c.setTask f { task with stage := .executing })
    | _ => none
  | .answer _ result =>
    match task.stage with
    | .executing =>
      some (c.setTask f { task with stage := .computed (compute codec c.generation task.key result) })
    | _ => none
  | .relock _ =>
    match task.stage, c.holder with
    | .computed result, none =>
      let result :=
        if c.generation ≠ task.key.generation then .error (.new .sessionChanged) else result
      some { c.setTask f { task with stage := .locked result } with holder := some (.task f) }
    | _, _ => none
  | .publish _ =>
    match task.stage with
    | .locked result =>
      some { c.setTask f { task with stage := .published result } with
        store := c.completed opt task result
        flights := c.flights.erase task.key
        holder := none }
    | _ => none
  | _ => none

/-- The caller that an event belongs to. -/
def Event.caller : Event ι J → Option ι
  | .begin i | .capture i | .lookup i | .hitCheck i | .hitReturn i | .wake i | .errorCheck i
  | .finish i | .cancelled i | .drop i => some i
  | _ => none

/-- The flight that an event belongs to. -/
def Event.flight : Event ι J → Option ℕ
  | .execute f | .answer f _ | .relock f | .publish f => some f
  | _ => none

/-- The first checks of a query. -/
def arrival (opt : CacheOptions) (query : Query) : CallerStage J :=
  match opt.validate, query.validate with
  | .error e, _ => .returned none (.error e)
  | _, .error e => .returned none (.error e)
  | _, _ => .arrived

/-- One event. -/
def step [DecidableEq J] (codec : Codec J) (opt : CacheOptions) (c : QueryCache ι J) :
    Event ι J → Option (QueryCache ι J)
  | .arrive i query =>
    match c.callers i with
    | some _ => none
    | none => some (c.setCaller i ⟨query, arrival opt query⟩)
  | .client generation blocked => some { c with generation := generation, blocked := blocked }
  | .stop => some { c with stopped := true }
  | .advance duration => some { c with now := c.now + duration }
  | .rearrange cache =>
    if cache.entries.Perm c.store.cache.entries then
      some { c with store := ⟨cache, c.store.bytes⟩ }
    else none
  | e =>
    match e.caller, e.flight with
    | some i, _ =>
      match c.callers i with
      | some caller => stepCaller opt c i caller e
      | none => none
    | none, some f =>
      match c.tasks f with
      | some task => stepTask codec opt c f task e
      | none => none
    | none, none => none

/-! ### A sample cache -/

/-- The JSON of a message without fields. -/
def sampleCodec : Codec String where
  toJson := fun message =>
    match message with
    | .plain _ [] => some "\x7b\x7d"
    | _ => none
  size := fun json => some json.utf8ByteSize

/-- The default options. -/
def sampleCacheOptions : CacheOptions := ⟨15 * 10 ^ 9, 1024, 64 * 1024 * 1024, 32⟩

def sampleCache : QueryCache ℕ String := initial 0 (fun _ => none) 0

/-- The steps of the sample cache. -/
abbrev sampleCacheStep : QueryCache ℕ String → Event ℕ String → Option (QueryCache ℕ String) :=
  step sampleCodec sampleCacheOptions

def sampleQuery : Query := ⟨.deckTrend, [], true⟩

/-- The caller `i` comes with the sample query and gets to its lookup. -/
def queryEvents (i : ℕ) : List (Event ℕ String) := [.arrive i sampleQuery, .begin i, .capture i]

/-- The flight `f` runs to its end, with an answer under `generation`. -/
def flightEvents (f generation : ℕ) : List (Event ℕ String) :=
  [.execute f, .answer f (.ok ⟨.plain QueryVariant.deckTrend.method.output [], 0, generation⟩),
    .relock f, .publish f]

/-- The caller `i` returns the outcome of its flight. -/
def returnEvents (i : ℕ) : List (Event ℕ String) := [.wake i, .errorCheck i, .finish i]

end QueryCache

end MoenotesApi
