import MoenotesApi.Client.SdkForm
import MoenotesApi.Library.Except
import Mathlib.Data.List.DropRight

/-!
# The replies of the SDK

`sdk_http/response.rs`, and the use of the public key in `sdk_http.rs`.

* `SdkCodecs`: `serde_json`, Base64 and RSA;
* `parse`, `rsa`, `login`: the replies to the three calls;
* `parseRsaPublicKey`, `encryptPassword`: the password under the key of a challenge;
* `ChallengeValid`, `LoginValid`: what holds of the values that a reply can carry.
-/

namespace MoenotesApi.SdkHttp

open FormText

/-- `MAX_RESPONSE`. -/
def MAX_RESPONSE : ℕ := 256 * 1024

def protocolError : SdkError := ⟨.protocol, none⟩

/-! ### Values -/

/-- The JSON values that `deserialize_uid` can be given. -/
inductive UidValue
  | text (value : Bytes)
  | unsigned (value : ℕ)
  | signed (value : ℤ)
  | other

/-- `deserialize_uid`. -/
def deserializeUid : UidValue → Option Bytes
  | .text value => some value
  | .unsigned value => some (utf8 (toString value))
  | .signed value => if value < 0 then none else some (utf8 (toString value))
  | .other => none

/-- The JSON of a login, with a `uid` that has not been read yet. -/
structure LoginData where
  uid : UidValue
  accessKey : Option Bytes
  idToken : Option Bytes
  expires : Option ℤ
  refreshToken : Option Bytes

structure PendingSdkLogin where
  uid : Bytes
  accessKey : Option Bytes
  idToken : Option Bytes
  expires : Option ℤ
  refreshToken : Option Bytes
  deriving DecidableEq

/-- `access_key()`. -/
def PendingSdkLogin.key (user : PendingSdkLogin) : Bytes := user.accessKey.getD []

/-- A key and a hash from the client with this `binding`. -/
structure RsaChallenge where
  pem : String
  hash : Bytes
  binding : ℕ
  deriving DecidableEq

structure SdkRejection where
  code : ℤ
  data : Bytes
  deriving DecidableEq

inductive SdkReply (T : Type)
  | success (value : T)
  | rejected (rejection : SdkRejection)
  deriving DecidableEq

/-- Third-party code: `serde_json` at the types of the replies, `STANDARD` of Base64, and RSA with
keys in `K`; `encrypt` is given the randomness. -/
structure SdkCodecs (K : Type) where
  /-- The code and the raw text of the data. -/
  envelope : Bytes → Option (ℤ × Option Bytes)
  rsaData : Bytes → Option (String × Bytes)
  loginData : Bytes → Option LoginData
  base64Decode : List Char → Option Bytes
  base64Encode : Bytes → Bytes
  fromDer : Bytes → Option K
  bits : K → ℕ
  size : K → ℕ
  encrypt : ℕ → K → Bytes → Option Bytes
  md5 : Bytes → Bytes
  /-- `HeaderValue::from_str`. -/
  headerValue : String → Bool

variable {K : Type} (codecs : SdkCodecs K)

/-! ### The public key -/

/-- `char::is_whitespace`. -/
def isWhitespace (c : Char) : Bool :=
  (9 ≤ c.toNat && c.toNat ≤ 13) || c.toNat = 0x20 || c.toNat = 0x85 || c.toNat = 0xA0 ||
    c.toNat = 0x1680 || (0x2000 ≤ c.toNat && c.toNat ≤ 0x200A) || c.toNat = 0x2028 ||
    c.toNat = 0x2029 || c.toNat = 0x202F || c.toNat = 0x205F || c.toNat = 0x3000

/-- `char::is_ascii_whitespace`. -/
def isAsciiWhitespace (c : Char) : Bool :=
  c = ' ' || c = '\t' || c = '\n' || c.toNat = 12 || c = '\r'

/-- `str::trim`. -/
def trim (text : List Char) : List Char := (text.dropWhile isWhitespace).rdropWhile isWhitespace

/-- `strip_prefix` and then `strip_suffix`. -/
def strip (start last text : List Char) : Option (List Char) :=
  if start <+: text then
    let rest := text.drop start.length
    if last <:+ rest then some (rest.take (rest.length - last.length)) else none
  else none

def parseRsaPublicKey (pem : String) : Except SdkError K := do
  let some body := strip "-----BEGIN PUBLIC KEY-----".toList "-----END PUBLIC KEY-----".toList
      (trim pem.toList)
    | .error protocolError
  let some der := codecs.base64Decode (body.filter fun c => !isAsciiWhitespace c)
    | .error protocolError
  let some key := codecs.fromDer der
    | .error protocolError
  return key

/-- The sizes of the keys that are used. -/
def KeySize (bits : ℕ) : Prop := 1024 ≤ bits ∧ bits ≤ 4096

instance (bits : ℕ) : Decidable (KeySize bits) := inferInstanceAs (Decidable (_ ∧ _))

def encryptPassword (seed : ℕ) (challenge : RsaChallenge) (password : Bytes) :
    Except SdkError Bytes := do
  let key ← parseRsaPublicKey codecs challenge.pem
  .refuse (¬ KeySize (codecs.bits key)) protocolError
  let plaintext := challenge.hash ++ password
  .refuse (codecs.size key - 11 < plaintext.length) invalid
  let some ciphertext := codecs.encrypt seed key plaintext
    | .error protocolError
  return codecs.base64Encode ciphertext

/-! ### Replies -/

def parse {T : Type} (bytes : Bytes) (success : Bytes → Except SdkError T) :
    Except SdkError (SdkReply T) := do
  .refuse (MAX_RESPONSE < bytes.length) protocolError
  let some (code, data) := codecs.envelope bytes
    | .error protocolError
  if code ≠ 0 then return .rejected ⟨code, data.getD (utf8 "null")⟩
  let some data := data
    | .error protocolError
  return .success (← success data)

def rsa (bytes : Bytes) (binding : ℕ) : Except SdkError (SdkReply RsaChallenge) :=
  parse codecs bytes fun raw => do
    let some (rsaKey, hash) := codecs.rsaData raw
      | .error protocolError
    .refuse (8192 < (utf8 rsaKey).length ∨ 1024 < hash.length) protocolError
    let key ← parseRsaPublicKey codecs rsaKey
    .refuse (¬ KeySize (codecs.bits key)) protocolError
    return ⟨rsaKey, hash, binding⟩

/-- `serde_json::from_str` at the type `PendingSdkLogin`. -/
def pendingLogin (raw : Bytes) : Option PendingSdkLogin := do
  let data ← codecs.loginData raw
  let uid ← deserializeUid data.uid
  return ⟨uid, data.accessKey, data.idToken, data.expires, data.refreshToken⟩

/-- `map_err(|_| protocol())`. -/
def asProtocol {T : Type} (result : Except SdkError T) : Except SdkError T :=
  result.mapError fun _ => protocolError

def login (bytes : Bytes) (oldKey : Option Bytes) : Except SdkError (SdkReply PendingSdkLogin) :=
  parse codecs bytes fun raw => do
    let some user := pendingLogin codecs raw
      | .error protocolError
    let user := oldKey.elim user fun old => { user with accessKey := some old }
    asProtocol (validateSecret user.uid 256)
    asProtocol (validateSecret user.key (16 * 1024))
    .refuse ((user.idToken.any fun v => 16 * 1024 < v.length) ∨
        user.refreshToken.any fun v => 16 * 1024 < v.length) protocolError
    return user

/-! ### What the replies can carry -/

/-- The key of the challenge can be read, and it has an admitted size. -/
structure ChallengeValid (challenge : RsaChallenge) : Prop where
  key : ∃ key, parseRsaPublicKey codecs challenge.pem = .ok key ∧ KeySize (codecs.bits key)
  hash : challenge.hash.length ≤ 1024

/-- The texts of the login have admitted lengths. -/
structure LoginValid (user : PendingSdkLogin) : Prop where
  uid : user.uid ≠ [] ∧ user.uid.length ≤ 256
  key : user.key ≠ [] ∧ user.key.length ≤ 16 * 1024
  idToken : ∀ v ∈ user.idToken, v.length ≤ 16 * 1024
  refreshToken : ∀ v ∈ user.refreshToken, v.length ≤ 16 * 1024

variable {codecs} {bytes : Bytes}

theorem parse_success {T : Type} {success : Bytes → Except SdkError T} {value : T}
    (h : parse codecs bytes success = .ok (.success value)) :
    bytes.length ≤ MAX_RESPONSE ∧ ∃ data, codecs.envelope bytes = some (0, some data) ∧
      success data = .ok value := by
  simp only [parse, Except.bind_eq_ok, Except.refuse_eq_ok] at h
  obtain ⟨-, hlen, h⟩ := h
  refine ⟨Nat.not_lt.1 hlen, ?_⟩
  split at h
  · next code data henvelope =>
    split_ifs at h with hcode
    · cases h
    · obtain rfl := not_not.1 hcode
      split at h
      · next data =>
        simp only [Except.bind_eq_ok, Except.pure_eq_ok] at h
        obtain ⟨value', hvalue, heq⟩ := h
        cases heq
        exact ⟨data, henvelope, hvalue⟩
      · cases h
  · cases h

theorem rsa_success {binding : ℕ} {challenge : RsaChallenge}
    (h : rsa codecs bytes binding = .ok (.success challenge)) :
    challenge.binding = binding ∧ ChallengeValid codecs challenge := by
  obtain ⟨-, raw, -, h⟩ := parse_success h
  split at h
  · next rsaKey hash hdata =>
    simp only [Except.bind_eq_ok, Except.refuse_eq_ok, Except.pure_eq_ok, not_or, not_not] at h
    obtain ⟨-, ⟨-, hhash⟩, key, hkey, -, hsize, rfl⟩ := h
    exact ⟨rfl, ⟨key, hkey, hsize⟩, Nat.not_lt.1 hhash⟩
  · cases h

theorem asProtocol_eq_ok {T : Type} {result : Except SdkError T} {value : T} :
    asProtocol result = .ok value ↔ result = .ok value := by
  cases result with
  | error e => simp [asProtocol, Except.mapError]
  | ok v => simp [asProtocol, Except.mapError]

theorem validateSecret_eq_ok {value : Bytes} {max : ℕ} {u : Unit} :
    validateSecret value max = .ok u ↔ value ≠ [] ∧ value.length ≤ max := by
  rw [validateSecret, Except.refuse_eq_ok, not_or, Nat.not_lt]

theorem login_success {oldKey : Option Bytes} {user : PendingSdkLogin}
    (h : login codecs bytes oldKey = .ok (.success user)) :
    LoginValid user ∧ ∀ old ∈ oldKey, user.accessKey = some old := by
  obtain ⟨-, raw, -, h⟩ := parse_success h
  split at h
  · next read hread =>
    simp only [Except.bind_eq_ok, asProtocol_eq_ok, validateSecret_eq_ok, Except.refuse_eq_ok,
      Except.pure_eq_ok, not_or] at h
    obtain ⟨-, huid, -, hkey, -, ⟨hid, hrefresh⟩, rfl⟩ := h
    refine ⟨⟨huid, hkey, ?_, ?_⟩, ?_⟩
    · intro v hv
      simpa [Option.mem_def.1 hv] using hid
    · intro v hv
      simpa [Option.mem_def.1 hv] using hrefresh
    · rintro old hold
      simp [Option.mem_def.1 hold]
  · cases h

/-- The key of a challenge has been read before: what is left are the length of the password and the
encryption itself. -/
theorem encryptPassword_of_valid {challenge : RsaChallenge} (h : ChallengeValid codecs challenge)
    (seed : ℕ) (password : Bytes) :
    ∃ key, parseRsaPublicKey codecs challenge.pem = .ok key ∧ KeySize (codecs.bits key) ∧
      encryptPassword codecs seed challenge password =
        if codecs.size key - 11 < (challenge.hash ++ password).length then .error invalid
        else (codecs.encrypt seed key (challenge.hash ++ password)).elim (.error protocolError)
          fun ciphertext => .ok (codecs.base64Encode ciphertext) := by
  obtain ⟨key, hkey, hsize⟩ := h.key
  refine ⟨key, hkey, hsize, ?_⟩
  simp only [encryptPassword, hkey, bind, Except.bind, Except.refuse, hsize, not_true_eq_false,
    if_false]
  split_ifs
  · rfl
  · cases codecs.encrypt seed key (challenge.hash ++ password) with
    | none => rfl
    | some ciphertext => rfl

theorem rsa_eq_success {raw hash : Bytes} {pem : String} {binding : ℕ} {key : K}
    (henvelope : codecs.envelope bytes = some (0, some raw))
    (hdata : codecs.rsaData raw = some (pem, hash)) (hlen : bytes.length ≤ MAX_RESPONSE)
    (hpem : (utf8 pem).length ≤ 8192) (hhash : hash.length ≤ 1024)
    (hkey : parseRsaPublicKey codecs pem = .ok key) (hsize : KeySize (codecs.bits key)) :
    rsa codecs bytes binding = .ok (.success ⟨pem, hash, binding⟩) := by
  have hpair : ¬ (8192 < (utf8 pem).length ∨ 1024 < hash.length) :=
    not_or.2 ⟨Nat.not_lt.2 hpem, Nat.not_lt.2 hhash⟩
  simp [rsa, parse, henvelope, hdata, hkey, Nat.not_lt.2 hlen, hpair, hsize, Except.refuse, bind,
    Except.bind, pure, Except.pure]

theorem encryptPassword_eq_ok {challenge : RsaChallenge} {seed : ℕ} {password ciphertext : Bytes}
    {key : K} (hkey : parseRsaPublicKey codecs challenge.pem = .ok key)
    (hsize : KeySize (codecs.bits key))
    (hlen : (challenge.hash ++ password).length ≤ codecs.size key - 11)
    (hencrypt : codecs.encrypt seed key (challenge.hash ++ password) = some ciphertext) :
    encryptPassword codecs seed challenge password = .ok (codecs.base64Encode ciphertext) := by
  simp only [encryptPassword, hkey, hencrypt, bind, Except.bind, Except.refuse,
    if_neg (not_not.2 hsize), if_neg (Nat.not_lt.2 hlen)]
  rfl

end MoenotesApi.SdkHttp
