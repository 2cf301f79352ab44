import MoenotesApi.Client.Error
import MoenotesApi.Library.FormText
import MoenotesApi.Library.JsonTree

/-!
# Requests and responses of the HTTP server

The parts of `lib.rs` that are about HTTP only.

* `HttpRequest`, `HttpResponse`;
* `HttpError.status`, `httpError`, `refusal`: the answers to failed requests;
* `bearer`, `authorized`: the check of `authenticate`;
* `HttpResponse.tagged`: the headers that `diagnose` sets.

Time since the epoch is in nanoseconds.  The hash function is a parameter.
-/

namespace MoenotesApi

open FormText (Bytes utf8)
open JsonTree (Value)

/-- The name of a kind in JSON. -/
def ErrorKind.json : ErrorKind → String
  | .invalidConfig => "invalid_config"
  | .invalidRequest => "invalid_request"
  | .authenticationRequired => "authentication_required"
  | .authentication => "authentication"
  | .maintenance => "maintenance"
  | .version => "version"
  | .deviceConflict => "device_conflict"
  | .business => "business"
  | .transport => "transport"
  | .protocol => "protocol"
  | .timeout => "timeout"
  | .cancelled => "cancelled"
  | .queueFull => "queue_full"
  | .sessionChanged => "session_changed"

/-- The methods that a route tells apart. -/
inductive Verb
  | get
  | head
  | other
  deriving DecidableEq, Repr

/-- A request without its body; `authorization` are the values of that header. -/
structure HttpRequest where
  verb : Verb
  path : String
  query : Option String
  authorization : List Bytes
  deriving DecidableEq, Repr

/-- What a response contains.  The document, the report of `/v1/status` and the page of `health` are
not looked into. -/
inductive HttpBody
  | empty
  | error (kind : String)
  | data (json : Value)
  | ready (ready : Bool)
  | document
  | report
  | health

structure HttpResponse where
  status : ℕ
  headers : List (String × String)
  body : HttpBody

namespace HttpResponse

/-- `HeaderMap::insert`. -/
def insert (response : HttpResponse) (name value : String) : HttpResponse :=
  { response with headers := (response.headers.filter fun h => h.1 ≠ name) ++ [(name, value)] }

/-- The values of a header. -/
def header (response : HttpResponse) (name : String) : List String :=
  (response.headers.filter fun h => h.1 = name).map Prod.snd

/-- The headers that `diagnose` sets on every response. -/
def tagged (response : HttpResponse) (id : String) : HttpResponse :=
  (response.insert "x-request-id" id).insert "cache-control" "no-store"

/-- `is_client_error() || is_server_error()`. -/
def failed (response : HttpResponse) : Bool := 400 ≤ response.status && response.status < 600

section Headers

variable (response : HttpResponse) (name value other : String)

@[simp] theorem insert_status : (response.insert name value).status = response.status := rfl

@[simp] theorem insert_body : (response.insert name value).body = response.body := rfl

@[simp] theorem header_insert : (response.insert name value).header name = [value] := by
  simp [header, insert]

theorem header_insert_of_ne (h : other ≠ name) :
    (response.insert name value).header other = response.header other := by
  have hkeep : ∀ h' : String × String, (decide (h'.1 = other) && !decide (h'.1 = name)) =
      decide (h'.1 = other) := by
    intro h'
    by_cases hother : h'.1 = other
    · simp [hother, h]
    · simp [hother]
  simp [header, insert, hkeep, Ne.symm h]

@[simp] theorem tagged_status (id : String) : (response.tagged id).status = response.status := rfl

@[simp] theorem tagged_body (id : String) : (response.tagged id).body = response.body := rfl

@[simp] theorem tagged_failed (id : String) : (response.tagged id).failed = response.failed := rfl

theorem tagged_cacheControl (id : String) :
    (response.tagged id).header "cache-control" = ["no-store"] :=
  header_insert _ _ _

theorem tagged_requestId (id : String) : (response.tagged id).header "x-request-id" = [id] := by
  rw [tagged, header_insert_of_ne _ _ _ _ (by decide), header_insert]

theorem tagged_header (id : String) (hid : other ≠ "x-request-id") (hcache : other ≠ "cache-control") :
    (response.tagged id).header other = response.header other := by
  rw [tagged, header_insert_of_ne _ _ _ _ hcache, header_insert_of_ne _ _ _ _ hid]

end Headers

end HttpResponse

/-! ### Failed requests -/

/-- The status of `HttpError`. -/
def ErrorKind.status : ErrorKind → ℕ
  | .invalidRequest => 400
  | .queueFull => 429
  | .timeout => 504
  | .maintenance | .authentication | .authenticationRequired | .version | .deviceConflict
  | .sessionChanged | .cancelled => 503
  | _ => 502

/-- The response of `HttpError`. -/
def httpError (error : ClientError) : HttpResponse where
  status := error.kind.status
  headers := [("cache-control", "no-store")]
  body := .error error.kind.json

/-- `error` of `path_routes.rs`. -/
def refusal (status : ℕ) (kind : String) : HttpResponse where
  status := status
  headers := []
  body := .error kind

/-- `method_not_allowed`. -/
def methodNotAllowed : HttpResponse where
  status := 405
  headers := [("allow", "GET"), ("cache-control", "no-store")]
  body := .empty

/-- axum's answer where a route has no handler for the verb; every route has one for `GET`. -/
def noHandler : HttpResponse where
  status := 405
  headers := [("allow", "GET,HEAD")]
  body := .empty

/-- What `/health` and `/healthz` answer. -/
def healthAnswer : Verb → HttpResponse
  | .get | .head => ⟨200, [], .health⟩
  | .other => noHandler

/-- The answer of `authenticate` to a request without the key. -/
def unauthorized : HttpResponse where
  status := 401
  headers := [("cache-control", "no-store"), ("www-authenticate", "Bearer")]
  body := .error "unauthorized"

theorem httpError_failed (error : ClientError) : (httpError error).failed = true := by
  unfold HttpResponse.failed httpError
  cases error.kind <;> rfl

/-! ### Authentication -/

/-- `HeaderValue::to_str`. -/
def toStr (value : Bytes) : Option Bytes :=
  if value.all fun b => b = 9 ∨ 32 ≤ b ∧ b < 127 then some value else none

/-- `strip_prefix("Bearer ")`. -/
def stripBearer (value : Bytes) : Option Bytes :=
  if utf8 "Bearer " <+: value then some (value.drop (utf8 "Bearer ").length) else none

/-- The token of a request with exactly one readable header. -/
def bearer (values : List Bytes) : Option Bytes :=
  match values with
  | [value] => (toStr value).bind stripBearer
  | _ => none

/-- `valid` in `authenticate`. -/
def authorized {ρ : Type} [DecidableEq ρ] (sha256 : Bytes → ρ) (keyHash : ρ) (values : List Bytes) :
    Bool :=
  ((bearer values).filter fun v => v.length ≤ 4096).any fun v => sha256 v = keyHash

/-- What the check means: one header, which is `Bearer ` before a token with the hash of the key. -/
theorem authorized_iff {ρ : Type} [DecidableEq ρ] {sha256 : Bytes → ρ} {keyHash : ρ}
    {values : List Bytes} : authorized sha256 keyHash values = true ↔
      ∃ token, values = [utf8 "Bearer " ++ token] ∧
        (token.all fun b => b = 9 ∨ 32 ≤ b ∧ b < 127) = true ∧ token.length ≤ 4096 ∧
        sha256 token = keyHash := by
  have hprefix : (utf8 "Bearer ").all (fun b => b = 9 ∨ 32 ≤ b ∧ b < 127) = true := by decide
  constructor
  · intro h
    obtain ⟨token, htoken, hhash⟩ := (Option.any_eq_true _ _).1 h
    obtain ⟨hbearer, hlength⟩ := Option.filter_eq_some_iff.1 htoken
    unfold bearer at hbearer
    split at hbearer
    · next value =>
      obtain ⟨text, htext, hstrip⟩ := Option.bind_eq_some_iff.1 hbearer
      unfold toStr at htext
      unfold stripBearer at hstrip
      split_ifs at htext hstrip with hascii hpre
      cases htext
      obtain ⟨rest, rfl⟩ := hpre
      rw [List.drop_left] at hstrip
      obtain rfl := Option.some.inj hstrip
      rw [List.all_append, Bool.and_eq_true] at hascii
      exact ⟨rest, rfl, hascii.2, by simpa using hlength, by simpa using hhash⟩
    · cases hbearer
  · rintro ⟨token, rfl, hascii, hlength, hhash⟩
    have htext : toStr (utf8 "Bearer " ++ token) = some (utf8 "Bearer " ++ token) := by
      rw [toStr, List.all_append, hprefix, hascii]
      rfl
    have hstrip : stripBearer (utf8 "Bearer " ++ token) = some token := by
      rw [stripBearer, if_pos (List.prefix_append _ _), List.drop_left]
    simp [authorized, bearer, htext, hstrip, hlength, hhash]

end MoenotesApi
