import MoenotesApi.Cache.Store
import Mathlib.Logic.Function.Basic

/-!
# The session pool as a state machine

`SessionPool` (`pool.rs`), with any number of queries, as a partial step function.

* `PoolMember.cooldownError`, `SessionPool.preflight`: the checks of a member;
* `SessionPool.ready`, `SessionPool.status`;
* a query: `query` (validation, stop), `lock` (the cursor), `examine` for every round of the loop,
  `enter` (the request counter, the generation) into the member's cache, `answer` (what the cache
  returns), `check` (the generation), `stamp` (the clock) and `write` (the cooldown slot); it can be
  dropped while it waits for the cache;
* the rest: `inspect`, a call of `cooldown_error` by `ready` or `status`; `session`, a new session of
  a member; `client`, a new state of its client; `stop` and `advance`.

A round of the loop is one step: nothing that happens between its two checks could make a difference
to them.  The right-hand side of the assignment to the cooldown slot is evaluated before the slot is
locked, so reading the clock is a step of its own.
-/

namespace MoenotesApi

/-- `TRANSIENT_COOLDOWN`, in nanoseconds. -/
def transientCooldown : ℕ := 5 * 10 ^ 9

/-- `MAX_SESSIONS`. -/
def maxSessions : ℕ := 32

/-- The errors that start a cooldown. -/
def transient (kind : ErrorKind) : Bool :=
  kind = .transport || kind = .timeout || kind = .maintenance

/-- What the pool sees of the managed client of a member: `ready()` and `status()`. -/
structure ManagedView (σ : Type) where
  ready : Bool
  status : σ

/-- `Member`, and what the pool sees of its client: `generation()` and `query_error`. -/
structure PoolMember (σ : Type) where
  generation : ℕ
  queryError : Bool → Option ClientError
  managed : Option (ManagedView σ)
  requests : ℕ
  errors : ℕ
  cooldown : Option (ℕ × ℕ × ErrorKind)

namespace PoolMember

variable {σ : Type}

/-- `Member::cooldown_error`. -/
def cooldownError (m : PoolMember σ) (now : ℕ) : Option ClientError × PoolMember σ :=
  match m.cooldown with
  | some (expires, generation, kind) =>
    if generation = m.generation ∧ now < expires then (some (.new kind), m)
    else (none, { m with cooldown := none })
  | none => (none, m)

/-- The member counts as ready, apart from a cooldown. -/
def managedReady (m : PoolMember σ) : Bool := m.managed.any ManagedView.ready

end PoolMember

/-- How far a call of `query` has come. -/
inductive PoolStage (α : Type)
  | waiting (query : Query)
  | selecting (query : Query) (offset : ℕ) (firstError : Option ClientError)
  | chosen (query : Query) (index : ℕ)
  | running (index generation : ℕ)
  | failed (index generation : ℕ) (error : ClientError)
  | checked (index generation : ℕ) (error : ClientError)
  | stamped (index generation : ℕ) (error : ClientError) (expires : ℕ)
  | returned (result : Except ClientError α)
  | dropped

/-- The pool and its queries, of the type `ι`; `α` is what a cache returns.  The lock of the cursor is
held by the query `holder`. -/
structure SessionPool (ι σ α : Type) where
  size : ℕ
  members : ℕ → PoolMember σ
  next : ℕ
  holder : Option ι
  stopped : Bool
  now : ℕ
  queries : ι → Option (PoolStage α)

/-- An entry of `members` in `status`. -/
structure MemberStatus (σ : Type) where
  slot : ℕ
  requests : ℕ
  errors : ℕ
  coolingDown : Bool
  session : Option σ

/-- `status`. -/
structure PoolStatus (σ : Type) where
  sessions : ℕ
  readySessions : ℕ
  members : List (MemberStatus σ)

namespace SessionPool

variable {ι σ α : Type}

/-- What can happen. -/
inductive Event (ι σ α : Type)
  | query (i : ι) (query : Query)
  | lock (i : ι)
  | examine (i : ι)
  | enter (i : ι)
  | answer (i : ι) (result : Except ClientError α)
  | check (i : ι)
  | stamp (i : ι)
  | write (i : ι)
  | drop (i : ι)
  | inspect (j : ℕ)
  | session (j : ℕ) (queryError : Bool → Option ClientError)
  | client (j : ℕ) (queryError : Bool → Option ClientError) (managed : Option (ManagedView σ))
  | stop
  | advance (duration : ℕ)

/-- `SessionMember`: what the pool sees of its client. -/
structure SessionMember (σ : Type) where
  generation : ℕ
  queryError : Bool → Option ClientError
  managed : Option (ManagedView σ)

/-- A member that has not been used yet. -/
def SessionMember.unused (m : SessionMember σ) : PoolMember σ :=
  ⟨m.generation, m.queryError, m.managed, 0, 0, none⟩

/-- A pool of these members, without any query; behind its end there are members without errors. -/
def initial (members : List (SessionMember σ)) (now : ℕ) : SessionPool ι σ α where
  size := members.length
  members := fun j => (members.getD j ⟨0, fun _ => none, none⟩).unused
  next := 0
  holder := none
  stopped := false
  now := now
  queries := fun _ => none

/-- `SessionPool::new`. -/
def new (opt : CacheOptions) (members : List (SessionMember σ)) (now : ℕ) :
    Except ClientError (SessionPool ι σ α) := do
  opt.validate
  .refuse (maxSessions < members.length) badConfig
  return initial members now

/-! ### The members -/

def setMember (p : SessionPool ι σ α) (j : ℕ) (m : PoolMember σ) : SessionPool ι σ α :=
  { p with members := Function.update p.members j m }

/-- `cooldown_error` of the member `j`. -/
def cooldownError (p : SessionPool ι σ α) (j : ℕ) : Option ClientError × SessionPool ι σ α :=
  let (error, m) := (p.members j).cooldownError p.now
  (error, p.setMember j m)

/-- The check of a member in the selection loop; a single member is not checked. -/
def preflight (p : SessionPool ι σ α) (j : ℕ) (anonymous : Bool) :
    Option ClientError × SessionPool ι σ α :=
  if 1 < p.size then
    let (error, p) := p.cooldownError j
    (error.or ((p.members j).queryError anonymous), p)
  else (none, p)

/-- The search of `ready` through the members `js`. -/
def readyAmong : List ℕ → SessionPool ι σ α → Bool × SessionPool ι σ α
  | [], p => (false, p)
  | j :: js, p =>
    let (error, p) := p.cooldownError j
    if error.isNone && (p.members j).managedReady then (true, p) else readyAmong js p

def ready (p : SessionPool ι σ α) : Bool × SessionPool ι σ α := readyAmong (List.range p.size) p

/-- The count of ready sessions among the members `js`. -/
def countReady : List ℕ → SessionPool ι σ α → ℕ × SessionPool ι σ α
  | [], p => (0, p)
  | j :: js, p =>
    let (error, p) := p.cooldownError j
    let here := if error.isNone && (p.members j).managedReady then 1 else 0
    let (count, p) := countReady js p
    (here + count, p)

/-- The entries of the members `js`. -/
def memberStatuses : List ℕ → SessionPool ι σ α → List (MemberStatus σ) × SessionPool ι σ α
  | [], p => ([], p)
  | j :: js, p =>
    let (error, p) := p.cooldownError j
    let m := p.members j
    let here := ⟨j, m.requests, m.errors, error.isSome, m.managed.map ManagedView.status⟩
    let (rest, p) := memberStatuses js p
    (here :: rest, p)

def status (p : SessionPool ι σ α) : PoolStatus σ × SessionPool ι σ α :=
  let (readySessions, p) := countReady (List.range p.size) p
  let (members, p) := memberStatuses (List.range p.size) p
  (⟨p.size, readySessions, members⟩, p)

/-! ### The queries -/

section Queries

variable [DecidableEq ι]

def setQuery (p : SessionPool ι σ α) (i : ι) (stage : PoolStage α) : SessionPool ι σ α :=
  { p with queries := Function.update p.queries i (some stage) }

/-- What a query does first. -/
def arrive (p : SessionPool ι σ α) (query : Query) : PoolStage α :=
  if query.valid = false then .returned (.error (.new .invalidRequest))
  else if p.stopped then .returned (.error (.new .cancelled))
  else .waiting query

/-- One round of the selection loop, or its end. -/
def examine (p : SessionPool ι σ α) (i : ι) (query : Query) (offset : ℕ)
    (firstError : Option ClientError) : SessionPool ι σ α :=
  if offset < p.size then
    let index := (p.next + offset) % p.size
    match p.preflight index query.method.anonymous with
    | (some error, p) => p.setQuery i (.selecting query (offset + 1) (firstError.or (some error)))
    | (none, p) =>
      { p.setQuery i (.chosen query index) with next := (index + 1) % p.size, holder := none }
  else
    { p.setQuery i (.returned (.error (firstError.getD (.new .authenticationRequired)))) with
      holder := none }

/-- What becomes of a query when the cache has returned. -/
def answered (p : SessionPool ι σ α) (index generation : ℕ) (result : Except ClientError α) :
    PoolStage α :=
  match result with
  | .ok response => .returned (.ok response)
  | .error error =>
    if 1 < p.size && transient error.kind then .failed index generation error
    else .returned (.error error)

/-- One event of the query `i`. -/
def stepQuery (p : SessionPool ι σ α) (i : ι) (stage : PoolStage α) :
    Event ι σ α → Option (SessionPool ι σ α)
  | .lock _ =>
    match stage, p.holder with
    | .waiting query, none => some { p.setQuery i (.selecting query 0 none) with holder := some i }
    | _, _ => none
  | .examine _ =>
    match stage with
    | .selecting query offset firstError => some (p.examine i query offset firstError)
    | _ => none
  | .enter _ =>
    match stage with
    | .chosen _ index =>
      let m := p.members index
      some ((p.setMember index { m with requests := m.requests + 1 }).setQuery i
        (.running index m.generation))
    | _ => none
  | .answer _ result =>
    match stage with
    | .running index generation =>
      let m := p.members index
      let errors := match result with
        | .ok _ => m.errors
        | .error _ => m.errors + 1
      some ((p.setMember index { m with errors := errors }).setQuery i
        (p.answered index generation result))
    | _ => none
  | .check _ =>
    match stage with
    | .failed index generation error =>
      if (p.members index).generation = generation then
        some (p.setQuery i (.checked index generation error))
      else some (p.setQuery i (.returned (.error error)))
    | _ => none
  | .stamp _ =>
    match stage with
    | .checked index generation error =>
      some (p.setQuery i (.stamped index generation error (p.now + transientCooldown)))
    | _ => none
  | .write _ =>
    match stage with
    | .stamped index generation error expires =>
      some ((p.setMember index { p.members index with
        cooldown := some (expires, generation, error.kind) }).setQuery i (.returned (.error error)))
    | _ => none
  | .drop _ =>
    match stage with
    | .running _ _ => some (p.setQuery i .dropped)
    | _ => none
  | _ => none

/-- The query that an event belongs to. -/
def Event.owner : Event ι σ α → Option ι
  | .lock i | .examine i | .enter i | .answer i _ | .check i | .stamp i | .write i | .drop i => some i
  | _ => none

/-- One event. -/
def step (p : SessionPool ι σ α) (e : Event ι σ α) : Option (SessionPool ι σ α) :=
  match e with
  | .query i query =>
    match p.queries i with
    | some _ => none
    | none => some (p.setQuery i (p.arrive query))
  | .inspect j => if j < p.size then some (p.cooldownError j).2 else none
  | .session j queryError =>
    let m := p.members j
    some (p.setMember j { m with generation := m.generation + 1, queryError := queryError })
  | .client j queryError managed =>
    some (p.setMember j { p.members j with queryError := queryError, managed := managed })
  | .stop => some { p with stopped := true }
  | .advance duration => some { p with now := p.now + duration }
  | .lock i | .examine i | .enter i | .answer i _ | .check i | .stamp i | .write i | .drop i =>
    (p.queries i).bind fun stage => p.stepQuery i stage e

end Queries

end SessionPool

end MoenotesApi
