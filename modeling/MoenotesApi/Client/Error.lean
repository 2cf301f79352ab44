import Mathlib.Data.List.Basic

/-!
# Errors of the client

`error.rs`: a `ClientError` has a kind and, when the game answered, the gRPC code and the business
codes of the initial and trailing metadata.  The codes are private in the source and only `new` and
`from_metadata` set them, so a code always agrees with the kind; here that is the field `sound`.

* `ClientError.effectiveCode`: the last trailing code, else the last initial one;
* `ClientError.fromMetadata`: the classification of an answer;
* `ClientError.clientUpdateRequired`: `client_update_required` of `managed/versions.rs`.
-/

namespace MoenotesApi

inductive ErrorKind
  | invalidConfig
  | invalidRequest
  | authenticationRequired
  | authentication
  | maintenance
  | version
  | deviceConflict
  | business
  | transport
  | protocol
  | timeout
  | cancelled
  | queueFull
  | sessionChanged
  deriving DecidableEq, Repr

/-- `tonic::Code`. -/
inductive Code
  | ok
  | cancelled
  | unknown
  | invalidArgument
  | deadlineExceeded
  | notFound
  | alreadyExists
  | permissionDenied
  | resourceExhausted
  | failedPrecondition
  | aborted
  | outOfRange
  | unimplemented
  | internal
  | unavailable
  | dataLoss
  | unauthenticated
  deriving DecidableEq, Repr

/-- Response metadata: names and values, `none` for a value that is not visible ASCII. -/
abbrev HeaderMap := List (String × Option String)

/-- `PrivateCodes`: the business codes of an answer. -/
structure PrivateCodes where
  initial : List String
  trailing : List String
  deriving DecidableEq, Repr

/-- The code that decides: the last trailing one, else the last initial one. -/
def PrivateCodes.effective (codes : PrivateCodes) : Option String :=
  codes.trailing.getLast?.or codes.initial.getLast?

/-- The kind of an answer with this business code. -/
def businessKind (code : String) : ErrorKind :=
  if code = "UNDER_MAINTENANCE" then .maintenance
  else if code = "TOKEN_ILLEGAL" ∨ code = "TOKEN_MISSING" then .authentication
  else if code = "CLIENT_UPDATE_REQUIRED" ∨ code = "MASTER_VERSION_MISMATCH" then .version
  else if code = "CONCURRENT_DEVICE" then .deviceConflict
  else .business

structure ClientError where
  kind : ErrorKind
  grpcCode : Option Code
  businessCodes : PrivateCodes
  sound : ∀ code, businessCodes.effective = some code → kind = businessKind code

namespace ClientError

/-- `ClientError::new`: an error of the client's own, without business codes. -/
def new (kind : ErrorKind) : ClientError where
  kind := kind
  grpcCode := none
  businessCodes := ⟨[], []⟩
  sound := by simp [PrivateCodes.effective]

@[simp] theorem new_kind (kind : ErrorKind) : (new kind).kind = kind := rfl

/-- The last trailing code, else the last initial one. -/
def effectiveCode (error : ClientError) : Option String := error.businessCodes.effective

@[simp] theorem new_effectiveCode (kind : ErrorKind) : (new kind).effectiveCode = none := rfl

theorem kind_of_effectiveCode {error : ClientError} {code : String}
    (h : error.effectiveCode = some code) : error.kind = businessKind code :=
  error.sound code h

/-- The readable values of the header `x-sirius-error-code`. -/
def codes (map : HeaderMap) : List String :=
  (map.filter fun h => h.1 = "x-sirius-error-code").filterMap Prod.snd

/-- The kind of an answer without business codes. -/
def statusKind (code : Code) : ErrorKind :=
  if code = .deadlineExceeded then .timeout else .transport

/-- `ClientError::from_metadata`. -/
def fromMetadata (code : Code) (initial trailing : HeaderMap) : Option ClientError :=
  let codes : PrivateCodes := ⟨codes initial, codes trailing⟩
  match h : codes.effective with
  | none =>
    if code = .ok then none
    else some ⟨statusKind code, some code, codes, by simp [h]⟩
  | some last =>
    some ⟨businessKind last, some code, codes, by rintro c hc; rw [h] at hc; cases hc; rfl⟩

/-- `client_update_required`: the game refused the presented client version. -/
def clientUpdateRequired (error : ClientError) : Bool :=
  error.kind = .version && error.effectiveCode = some "CLIENT_UPDATE_REQUIRED"

/-- Whether the game asked for a newer master version. -/
def masterVersionMismatch (error : ClientError) : Bool :=
  error.effectiveCode = some "MASTER_VERSION_MISMATCH"

/-- A master mismatch is always a `Version` error. -/
theorem kind_of_masterVersionMismatch {error : ClientError}
    (h : error.masterVersionMismatch = true) : error.kind = .version := by
  have hc : error.effectiveCode = some "MASTER_VERSION_MISMATCH" := by
    simpa [masterVersionMismatch] using h
  rw [kind_of_effectiveCode hc]
  decide

/-- An upstream refusal with one trailing business code. -/
def ofCode (code : String) : ClientError where
  kind := businessKind code
  grpcCode := some .failedPrecondition
  businessCodes := ⟨[], [code]⟩
  sound := by simp [PrivateCodes.effective]

/-- `ofCode` is what `from_metadata` makes of that code in the trailing metadata. -/
theorem fromMetadata_trailing (code : String) :
    fromMetadata .failedPrecondition [] [("x-sirius-error-code", some code)] =
      some (ofCode code) := rfl

end ClientError

end MoenotesApi
