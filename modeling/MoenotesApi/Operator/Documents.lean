import MoenotesApi.Client.Operation
import MoenotesApi.Library.JsonText

/-!
# The documents of the state directory

What the operator writes to and reads from its state directory (`operator.rs`, `auth.rs`,
`session.rs`): the pointer, the SDK authorization and the exported credentials.

* `Pointer`, `Uuid`: the pointer and the names that it may carry;
* `Pointer.json`, `Callback.json`, `SdkAuthorization.json`, `StaticCredentials.json`: the documents
  as `serde_json::to_vec` prints them;
* `Serde`: `serde_json::from_slice` at these types, which reads back what was written;
  `Serde.compact` is such a reader for the printed form;
* `SdkAuthorization.fromCallbackJson`: the import of an SDK callback.
-/

namespace MoenotesApi

open JsonText

/-- `Uuid::new_v4` in its hyphenated form. -/
structure Uuid where
  text : String
  length_eq : text.toList.length = 36
  digits : text.toList.all (fun c => c ∈ "0123456789abcdef-".toList) = true

/-- `Pointer` of `operator.rs`. -/
structure Pointer where
  region : String
  origin : String
  sdkFile : String
  gameFile : String
  deriving DecidableEq, Repr

/-! ### Printing -/

def Pointer.json (p : Pointer) : Text :=
  word "\x7b\"region\":" ++ string p.region ++ word ",\"origin\":" ++ string p.origin ++
    word ",\"sdk_file\":" ++ string p.sdkFile ++ word ",\"game_file\":" ++ string p.gameFile ++
    word "\x7d"

/-- `SdkAuthorization::callback_bytes`. -/
def Callback.json (c : Callback) : Text :=
  word "\x7b\"uid\":" ++ string c.uid ++ word ",\"accessToken\":" ++ string c.accessToken ++
    word ",\"idToken\":" ++ nullable c.idToken ++ word "\x7d"

/-- `RawStored` of `SdkAuthorization::save_to_file`. -/
def SdkAuthorization.json (sdk : SdkAuthorization) : Text :=
  word "\x7b\"region\":" ++ string sdk.region ++ word ",\"origin\":" ++ string sdk.origin ++
    word ",\"callback\":" ++ sdk.callback.json ++ word "\x7d"

/-- `Export` of `save_credentials`. -/
def StaticCredentials.json (s : StaticCredentials) : Text :=
  word "\x7b\"region\":" ++ string s.region ++ word ",\"origin\":" ++ string s.origin ++
    word ",\"credentials\":\x7b\"player_id\":" ++ string s.credentials.playerId ++
    word ",\"credential\":" ++ string s.credentials.credential ++
    word ",\"device_id\":" ++ nullable s.credentials.deviceId ++
    word ",\"bid\":" ++ nullable s.credentials.bid ++ word "\x7d\x7d"

/-! ### Reading -/

/-- `serde_json::from_slice` at the types of the operator, with the round trip. -/
structure Serde where
  pointer : Text → Option Pointer
  stored : Text → Option SdkAuthorization
  credentialFile : Text → Option StaticCredentials
  callback : Text → Option Callback
  pointer_json : ∀ p : Pointer, pointer p.json = some p
  stored_json : ∀ sdk : SdkAuthorization, stored sdk.json = some sdk
  credentialFile_json : ∀ s : StaticCredentials, credentialFile s.json = some s
  callback_json : ∀ c : Callback, callback c.json = some c

/-- A printed pointer. -/
def scanPointer (text : Text) : Option Pointer := do
  let text ← expect "\x7b\"region\":" text
  let (region, text) ← scanString text
  let text ← expect ",\"origin\":" text
  let (origin, text) ← scanString text
  let text ← expect ",\"sdk_file\":" text
  let (sdkFile, text) ← scanString text
  let text ← expect ",\"game_file\":" text
  let (gameFile, text) ← scanString text
  let text ← expect "\x7d" text
  if text = [] then some ⟨region, origin, sdkFile, gameFile⟩ else none

/-- A printed callback, and what follows it. -/
def scanCallback (text : Text) : Option (Callback × Text) := do
  let text ← expect "\x7b\"uid\":" text
  let (uid, text) ← scanString text
  let text ← expect ",\"accessToken\":" text
  let (accessToken, text) ← scanString text
  let text ← expect ",\"idToken\":" text
  let (idToken, text) ← scanNullable text
  let text ← expect "\x7d" text
  return (⟨uid, accessToken, idToken⟩, text)

/-- A printed SDK authorization. -/
def scanStored (text : Text) : Option SdkAuthorization := do
  let text ← expect "\x7b\"region\":" text
  let (region, text) ← scanString text
  let text ← expect ",\"origin\":" text
  let (origin, text) ← scanString text
  let text ← expect ",\"callback\":" text
  let (callback, text) ← scanCallback text
  let text ← expect "\x7d" text
  if text = [] then some ⟨region, origin, callback⟩ else none

/-- Printed credentials. -/
def scanCredentialFile (text : Text) : Option StaticCredentials := do
  let text ← expect "\x7b\"region\":" text
  let (region, text) ← scanString text
  let text ← expect ",\"origin\":" text
  let (origin, text) ← scanString text
  let text ← expect ",\"credentials\":\x7b\"player_id\":" text
  let (playerId, text) ← scanString text
  let text ← expect ",\"credential\":" text
  let (credential, text) ← scanString text
  let text ← expect ",\"device_id\":" text
  let (deviceId, text) ← scanNullable text
  let text ← expect ",\"bid\":" text
  let (bid, text) ← scanNullable text
  let text ← expect "\x7d\x7d" text
  if text = [] then some ⟨region, origin, ⟨playerId, credential, deviceId, bid⟩⟩ else none

theorem scanCallback_json (c : Callback) (rest : Text) :
    scanCallback (c.json ++ rest) = some (c, rest) := by
  simp only [scanCallback, Callback.json, List.append_assoc, expect_word, scanString_string,
    scanNullable_nullable, Option.bind_eq_bind, Option.bind_some, Option.pure_def]

theorem scanPointer_json (p : Pointer) (rest : Text) :
    scanPointer (p.json ++ rest) = if rest = [] then some p else none := by
  simp only [scanPointer, Pointer.json, List.append_assoc, expect_word, scanString_string,
    Option.bind_eq_bind, Option.bind_some]

theorem scanStored_json (sdk : SdkAuthorization) (rest : Text) :
    scanStored (sdk.json ++ rest) = if rest = [] then some sdk else none := by
  simp only [scanStored, SdkAuthorization.json, List.append_assoc, expect_word, scanString_string,
    scanCallback_json, Option.bind_eq_bind, Option.bind_some]

theorem scanCredentialFile_json (s : StaticCredentials) (rest : Text) :
    scanCredentialFile (s.json ++ rest) = if rest = [] then some s else none := by
  simp only [scanCredentialFile, StaticCredentials.json, List.append_assoc, expect_word,
    scanString_string, scanNullable_nullable, Option.bind_eq_bind, Option.bind_some]

/-- A reader of the printed form. -/
def Serde.compact : Serde where
  pointer := scanPointer
  stored := scanStored
  credentialFile := scanCredentialFile
  callback text := (scanCallback text).map Prod.fst
  pointer_json p := by simpa using scanPointer_json p []
  stored_json sdk := by simpa using scanStored_json sdk []
  credentialFile_json s := by simpa using scanCredentialFile_json s []
  callback_json c := by
    have h := scanCallback_json c []
    rw [List.append_nil] at h
    rw [h, Option.map_some]

/-! ### SDK authorizations -/

namespace SdkAuthorization

/-- `SdkAuthorization::from_callback_json` after parsing. -/
def fromCallback (lib : Libraries) (config : SessionConfig) (callback : Callback) :
    Except ClientError SdkAuthorization := do
  .refuse (callback.uid = "" ∨ 256 < callback.uid.utf8ByteSize ∨ callback.accessToken = "" ∨
    16 * 1024 < callback.accessToken.utf8ByteSize ∨
    callback.idToken.any (fun v => 16 * 1024 < v.utf8ByteSize)) (.new .invalidRequest)
  .refuse (lib.headerValue callback.uid = false) (.new .invalidRequest)
  let target ← MoenotesApi.origin lib config.origin
  return ⟨config.region, target, callback⟩

/-- `SdkAuthorization::from_callback_json`. -/
def fromCallbackJson (serde : Serde) (lib : Libraries) (config : SessionConfig) (json : Text) :
    Except ClientError SdkAuthorization := do
  config.validate lib
  .refuse (config.platform ≠ "android" ∨ 64 * 1024 < byteLength json) (.new .invalidRequest)
  match serde.callback json with
  | none => .error (.new .invalidRequest)
  | some callback => fromCallback lib config callback

end SdkAuthorization

end MoenotesApi
