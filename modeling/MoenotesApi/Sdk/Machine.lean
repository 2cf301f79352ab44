import MoenotesApi.Sdk.Client
import Mathlib.Logic.Function.Basic

/-!
# The calls of the SDK as a state machine

`sdk_http.rs`: any number of clients, each with any number of calls.

* a call: `fetchRsa`, `passwordLogin`, `cacheLogin` (the checks and `try_acquire`), `send` (the pace,
  the form, the request), `head` (status and length) and `chunk` for each part of the body; it can be
  cancelled, time out or be dropped at any await;
* `SdkCalls.step`: the machine.

Between the acquisition of the permit and the end of a call its client runs no other call, so the lock
of `next` is free when a call wants it.  A challenge is the result of a call of `fetch_rsa`, whichever
client has made it.  Instants and durations are in nanoseconds.
-/

namespace MoenotesApi.SdkHttp

open FormText

variable {K : Type} {lib : Libraries}

/-! ### The machine -/

/-- How far a call has come. -/
inductive SdkStage
  | waiting (request : SdkRequest) (deadline : ℕ)
  | sent (post : HttpPost) (deadline : ℕ)
  | reading (post : HttpPost) (deadline : ℕ) (bytes : Bytes)
  | finished (result : SdkResult)
  | dropped

/-- The instant at which a call that runs may time out. -/
def SdkStage.deadline : SdkStage → Option ℕ
  | .waiting _ deadline | .sent _ deadline | .reading _ deadline _ => some deadline
  | .finished _ | .dropped => none

/-- The call runs. -/
def SdkStage.active (stage : SdkStage) : Bool := stage.deadline.isSome

/-- The calls, of the type `ι`, of the clients `κ`; `free` says whether the permit of a client is
there. -/
structure SdkCalls (κ ι : Type) where
  now : ℕ
  free : κ → Bool
  next : κ → ℕ
  calls : ι → Option (κ × SdkCall × SdkStage)

namespace SdkCalls

variable {κ ι : Type}

/-- What can happen.  A network error says whether it is a timeout. -/
inductive Event (κ ι : Type)
  | fetchRsa (i : ι) (k : κ) (currentUser : Option CurrentSdkUser)
  | passwordLogin (i : ι) (k : κ) (challenge : ι) (login : PasswordLogin)
      (currentUser : Option CurrentSdkUser) (cancelled : Bool) (seed : ℕ)
  | cacheLogin (i : ι) (k : κ) (login : CacheLogin)
  | send (i : ι) (ms : Option ℕ)
  | head (i : ι) (result : Except Bool (ℕ × Option ℕ))
  | chunk (i : ι) (result : Except Bool (Option Bytes))
  | timeout (i : ι)
  | cancel (i : ι)
  | drop (i : ι)
  | advance (duration : ℕ)

/-- New clients without any call. -/
def initial (now : ℕ) : SdkCalls κ ι := ⟨now, fun _ => true, fun _ => now, fun _ => none⟩

/-- The challenge that a call has got. -/
def challenge (s : SdkCalls κ ι) (i : ι) : Option RsaChallenge :=
  match s.calls i with
  | some (_, _, .finished (.ok (.success (.challenge challenge)))) => some challenge
  | _ => none

/-- `network_error`. -/
def networkError (isTimeout : Bool) : SdkError :=
  ⟨if isTimeout then .timeout else .transport, none⟩

/-- `is_success`, without the two statuses that have no body. -/
def accepted (status : ℕ) : Bool := 200 ≤ status && status < 300 && status ≠ 204 && status ≠ 205

section Step

variable [DecidableEq κ] [DecidableEq ι] (codecs : SdkCodecs K) (clients : κ → SdkHttpClient lib)

/-- A call comes to a stage. -/
def put (s : SdkCalls κ ι) (i : ι) (k : κ) (call : SdkCall) (stage : SdkStage) : SdkCalls κ ι :=
  { s with calls := Function.update s.calls i (some (k, call, stage)) }

def acquire (s : SdkCalls κ ι) (k : κ) : SdkCalls κ ι :=
  { s with free := Function.update s.free k false }

/-- A call ends and gives the permit back. -/
def finish (s : SdkCalls κ ι) (i : ι) (k : κ) (call : SdkCall) (stage : SdkStage) : SdkCalls κ ι :=
  { s.put i k call stage with free := Function.update s.free k true }

/-- A request starts. -/
def pace (s : SdkCalls κ ι) (k : κ) (interval : ℕ) : SdkCalls κ ι :=
  { s with next := Function.update s.next k (s.now + interval) }

/-- A call up to its permit. -/
def begin (s : SdkCalls κ ι) (i : ι) (k : κ) (call : SdkCall) (cancelled : Bool) (seed : ℕ) :
    SdkCalls κ ι :=
  match (clients k).request codecs cancelled seed call with
  | .error e => s.put i k call (.finished (.error e))
  | .ok request =>
    if s.free k then
      (s.acquire k).put i k call (.waiting request (s.now + (clients k).options.timeout))
    else s.put i k call (.finished (.error ⟨.busy, none⟩))

/-- One event of a call that runs. -/
def stepCall (s : SdkCalls κ ι) (i : ι) (k : κ) (call : SdkCall) (stage : SdkStage) :
    Event κ ι → Option (SdkCalls κ ι)
  | .send _ ms =>
    match stage with
    | .waiting request deadline =>
      if s.next k ≤ s.now then
        let s := s.pace k (clients k).options.minimumInterval
        match (clients k).post codecs request ms with
        | .error e => some (s.finish i k call (.finished (.error e)))
        | .ok post => some (s.put i k call (.sent post deadline))
      else none
    | _ => none
  | .head _ result =>
    match stage with
    | .sent post deadline =>
      match result with
      | .error isTimeout => some (s.finish i k call (.finished (.error (networkError isTimeout))))
      | .ok (status, length) =>
        if accepted status = false then
          some (s.finish i k call (.finished (.error ⟨.httpStatus, some status⟩)))
        else if length.any fun n => MAX_RESPONSE < n then
          some (s.finish i k call (.finished (.error protocolError)))
        else some (s.put i k call (.reading post deadline []))
    | _ => none
  | .chunk _ result =>
    match stage with
    | .reading post deadline bytes =>
      match result with
      | .error isTimeout => some (s.finish i k call (.finished (.error (networkError isTimeout))))
      | .ok (some chunk) =>
        if MAX_RESPONSE < bytes.length + chunk.length then
          some (s.finish i k call (.finished (.error protocolError)))
        else some (s.put i k call (.reading post deadline (bytes ++ chunk)))
      | .ok none => some (s.finish i k call (.finished ((clients k).reply codecs bytes call)))
    | _ => none
  | .timeout _ =>
    if stage.deadline.any fun deadline => deadline ≤ s.now then
      some (s.finish i k call (.finished (.error ⟨.timeout, none⟩)))
    else none
  | .cancel _ =>
    if stage.active then some (s.finish i k call (.finished (.error ⟨.cancelled, none⟩))) else none
  | .drop _ => if stage.active then some (s.finish i k call .dropped) else none
  | _ => none

/-- One event. -/
def step (s : SdkCalls κ ι) (e : Event κ ι) : Option (SdkCalls κ ι) :=
  match e with
  | .fetchRsa i k currentUser =>
    if (s.calls i).isNone then some (s.begin codecs clients i k (.fetchRsa currentUser) false 0)
    else none
  | .passwordLogin i k j login currentUser cancelled seed =>
    if (s.calls i).isNone then
      (s.challenge j).map fun challenge =>
        s.begin codecs clients i k (.passwordLogin challenge login currentUser) cancelled seed
    else none
  | .cacheLogin i k login =>
    if (s.calls i).isNone then some (s.begin codecs clients i k (.cacheLogin login) false 0)
    else none
  | .advance duration => some { s with now := s.now + duration }
  | .send i _ | .head i _ | .chunk i _ | .timeout i | .cancel i | .drop i =>
    (s.calls i).bind fun c => s.stepCall codecs clients i c.1 c.2.1 c.2.2 e

end Step

end SdkCalls

end MoenotesApi.SdkHttp
