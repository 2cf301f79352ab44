import MoenotesApi.Library.FormText
import MoenotesApi.Library.SortedMap
import Mathlib.Data.String.Basic

/-!
# The form of an SDK request

`sdk_http.rs` and `sdk_http/form.rs`: the body that the SDK client posts, and its signature.

* `encoded`, `raw`, `decoded`, `signForm`: `form.rs`;
* `CommonParameters`, `form`: the fields of a request in their order;
* `passwordFields`, `cacheFields`: the business fields of the callers.

Values are the UTF-8 bytes of the strings of the source; MD5 is a parameter.
-/

namespace MoenotesApi.SdkHttp

open FormText

inductive SdkErrorKind
  | invalidConfig
  | invalidInput
  | protocol
  | transport
  | httpStatus
  | timeout
  | cancelled
  | busy
  deriving DecidableEq, Repr

structure SdkError where
  kind : SdkErrorKind
  status : Option ℕ
  deriving DecidableEq, Repr

def invalid : SdkError := ⟨.invalidInput, none⟩

/-! ### Encodings of values -/

/-- The bytes of ``" \"':;<=>@[]^`{}|/\\?#&!$(),~"``. -/
def FORM_SET : Bytes :=
  [32, 34, 39, 58, 59, 60, 61, 62, 64, 91, 93, 94, 96, 123, 125, 124, 47, 92, 63, 35, 38, 33, 36, 40,
    41, 44, 126]

/-- TAB, LF, FF and CR, which `encoded` leaves out. -/
def dropped (b : UInt8) : Bool := b = 9 || b = 10 || b = 12 || b = 13

/-- How `encoded` writes a byte that it does not leave out. -/
def encodedByte (b : UInt8) : Bytes := if b < 32 ∨ 127 ≤ b ∨ b ∈ FORM_SET then escape b else [b]

def encoded (value : Bytes) : Bytes :=
  value.flatMap fun b => if dropped b then [] else encodedByte b

/-- The bytes of `_-!.~'()*`. -/
def uriMarks : Bytes := [95, 45, 33, 46, 126, 39, 40, 41, 42]

def asciiAlphanumeric (b : UInt8) : Bool :=
  (48 ≤ b && b ≤ 57) || (65 ≤ b && b ≤ 90) || (97 ≤ b && b ≤ 122)

/-- How Android `Uri.encode` writes a byte. -/
def uriByte (b : UInt8) : Bytes := if asciiAlphanumeric b ∨ b ∈ uriMarks then [b] else escape b

def raw (value : Bytes) : Bytes := encoded (value.flatMap uriByte)

def decoded (value : Bytes) : Except SdkError Bytes :=
  let bytes := decodeText value
  if (ofUtf8? bytes).isSome then .ok bytes else .error invalid

/-! ### The signature -/

/-- `eq_ignore_ascii_case`. -/
def eqIgnoreAsciiCase (a b : String) : Bool := a.toList.map Char.toLower = b.toList.map Char.toLower

/-- The names that are not signed. -/
def unsigned (name : String) : Bool :=
  eqIgnoreAsciiCase name "item_name" || eqIgnoreAsciiCase name "item_desc"

/-- A lowercase hexadecimal digit. -/
def lowerDigit (n : UInt8) : UInt8 := if n < 10 then 48 + n else 87 + n

/-- `{:x}` of a digest. -/
def hexLower (digest : Bytes) : Bytes :=
  digest.flatMap fun b => [lowerDigit (b / 16), lowerDigit (b % 16)]

/-- The signed text without the key: the values of the signed names, in the order of the names. -/
def signedText (values : List (String × Bytes)) : Bytes :=
  (values.filter fun e => !unsigned e.1).flatMap Prod.snd

/-- The wire format of the fields. -/
def wire (fields : List (String × Bytes)) : Bytes :=
  fields.foldl (fun body f =>
    (if body.isEmpty then body else body ++ [38]) ++ utf8 f.1 ++ [61] ++ f.2) []

def signForm (md5 : Bytes → Bytes) (fields : List (String × Bytes)) (key : Bytes) :
    Except SdkError Bytes := do
  -- a later value of the same name replaces an earlier one, but both are on the wire
  let values ← fields.foldlM (fun values f => do
    return SortedMap.insert f.1 (← decoded f.2) values) []
  let signature := hexLower (md5 (signedText values ++ key))
  let body := wire fields ++ utf8 "&sign=" ++ signature
  .refuse (64 * 1024 < body.length) invalid
  return body

/-! ### The fields of a request -/

def COMMON_FIELDS : List String :=
  ["game_id", "server_id", "merchant_id", "app_ver", "sdk_ver", "channel_id", "platform",
    "platform_type", "net", "operators", "model", "pf_ver", "udid", "dp", "adid", "lang",
    "sdk_log_type", "ad_ext", "time_zone", "isRoot"]

/-- The names of the business fields. -/
def businessFields : List String :=
  ["user_id", "pwd", "ticket", "third_payment_voucher", "country_id", "user_id_type", "access_key"]

/-- The common parameters that have a value. -/
structure CommonParameters where
  values : List (String × Bytes)
  sorted : SortedMap.Sorted values
  known : ∀ e ∈ values, e.1 ∈ COMMON_FIELDS

theorem keys_eq_common {values : List (String × Option Bytes)}
    (hlen : values.length = COMMON_FIELDS.length)
    (hall : ∀ k ∈ COMMON_FIELDS, k ∈ SortedMap.keys values) :
    ∀ e ∈ values, e.1 ∈ COMMON_FIELDS := by
  have hsub : COMMON_FIELDS.Subperm (SortedMap.keys values) :=
    List.subperm_of_subset (by decide) hall
  have hperm : COMMON_FIELDS.Perm (SortedMap.keys values) :=
    hsub.perm_of_length_le (by simp [SortedMap.keys, hlen])
  intro e he
  exact hperm.mem_iff.2 (List.mem_map_of_mem he)

/-- `CommonParameters::new`. -/
def CommonParameters.new (values : List (String × Option Bytes)) (h : SortedMap.Sorted values) :
    Except SdkError CommonParameters :=
  if hvalid : values.length = COMMON_FIELDS.length ∧
      (∀ k ∈ COMMON_FIELDS, k ∈ SortedMap.keys values) ∧
      ∀ e ∈ values, ∀ v ∈ e.2, v.length ≤ 4096 then
    .ok {
      values := values.filterMap fun e => e.2.map fun v => (e.1, v)
      sorted := by
        refine List.Pairwise.filterMap _ (fun a b hab a' ha' b' hb' => ?_) h
        obtain ⟨v, -, rfl⟩ := Option.map_eq_some_iff.1 ha'
        obtain ⟨w, -, rfl⟩ := Option.map_eq_some_iff.1 hb'
        exact hab
      known := by
        intro e he
        obtain ⟨e', he', hmap⟩ := List.mem_filterMap.1 he
        obtain ⟨v, -, rfl⟩ := Option.map_eq_some_iff.1 hmap
        exact keys_eq_common hvalid.1 hvalid.2.1 e' he' }
  else .error invalid

/-- `CurrentSdkUser`. -/
structure CurrentSdkUser where
  uid : Bytes
  mid : Bytes

def validateSecret (value : Bytes) (max : ℕ) : Except SdkError Unit :=
  .refuse (value = [] ∨ max < value.length) invalid

/-- The fields of the current user. -/
def userFields : Option CurrentSdkUser → List (String × Bytes)
  | none => []
  | some user => [("uid", user.uid), ("mid", user.mid)]

/-- The checks of the current user. -/
def validateUser : Option CurrentSdkUser → Except SdkError Unit
  | none => .ok ()
  | some user => do
    validateSecret user.uid 256
    .refuse (256 < user.mid.length) invalid

def form (md5 : Bytes → Bytes) (parameters : CommonParameters) (key : Bytes)
    (fields : List (String × Bytes)) (alreadyEncoded : Bool) (currentUser : Option CurrentSdkUser)
    (timestampMs : ℕ) : Except SdkError Bytes := do
  validateUser currentUser
  let fields := (fields ++ userFields currentUser).map fun f =>
    (f.1, if alreadyEncoded then encoded f.2 else raw f.2)
  let fields := fields ++ parameters.values.map fun f => (f.1, encoded f.2)
  let fields := fields ++ [("timestamp", utf8 (toString timestampMs)), ("web_code", utf8 "6")]
  signForm md5 fields key

/-! ### The callers -/

inductive PasswordAccountType
  | legacy
  | email (countryId : ℕ)
  | phone (countryId : ℕ)

/-- `optional`. -/
def optionalField (fields : List (String × Bytes)) (name : String) (value : Option Bytes) :
    Except SdkError (List (String × Bytes)) :=
  match value.filter fun v => !v.isEmpty with
  | none => .ok fields
  | some v => do
    validateSecret v (16 * 1024)
    return fields ++ [(name, v)]

/-- The fields of `password_login`, with the encrypted password. -/
def passwordFields (userId password encrypted : Bytes) (accountType : PasswordAccountType)
    (ticket thirdPaymentVoucher : Option Bytes) : Except SdkError (List (String × Bytes)) := do
  validateSecret userId 1024
  validateSecret password 4096
  let fields := [("user_id", userId), ("pwd", encrypted)]
  let fields ← optionalField fields "ticket" ticket
  let fields ← optionalField fields "third_payment_voucher" thirdPaymentVoucher
  match accountType with
  | .legacy => return fields
  | .email countryId =>
    return fields ++ [("country_id", utf8 (toString countryId)), ("user_id_type", utf8 "0")]
  | .phone countryId =>
    return fields ++ [("country_id", utf8 (toString countryId)), ("user_id_type", utf8 "1")]

/-- The fields of `cache_login`. -/
def cacheFields (accessKey : Bytes) (ticket thirdPaymentVoucher : Option Bytes) :
    Except SdkError (List (String × Bytes)) := do
  validateSecret accessKey (16 * 1024)
  let fields ← optionalField [("access_key", accessKey)] "ticket" ticket
  optionalField fields "third_payment_voucher" thirdPaymentVoucher

end MoenotesApi.SdkHttp
