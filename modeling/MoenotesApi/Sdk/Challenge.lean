import MoenotesApi.Sdk.Replies

/-!
# Challenges and passwords

A password is only sent under a key that the same client has got.

* `request_password`: what the request of a password login is;
* `Step.finished_stays`, `Challenged`: the origin of the challenges;
* `sdk_challenge_bound`: the main result;
* `rsaCodecs`: a key of 1024 bits.
-/

namespace MoenotesApi.SdkHttp

open FormText Runs

variable {K κ ι : Type} {lib : Libraries} {codecs : SdkCodecs K}

/-- `encrypted` is the password under a key that can be used. -/
def Encrypts (codecs : SdkCodecs K) (challenge : RsaChallenge) (password encrypted : Bytes) : Prop :=
  ∃ seed key ciphertext, parseRsaPublicKey codecs challenge.pem = .ok key ∧
    KeySize (codecs.bits key) ∧
    (challenge.hash ++ password).length ≤ codecs.size key - 11 ∧
    codecs.encrypt seed key (challenge.hash ++ password) = some ciphertext ∧
    encrypted = codecs.base64Encode ciphertext

theorem encrypts_of_encryptPassword {challenge : RsaChallenge} (h : ChallengeValid codecs challenge)
    {seed : ℕ} {password encrypted : Bytes}
    (hencrypted : encryptPassword codecs seed challenge password = .ok encrypted) :
    Encrypts codecs challenge password encrypted := by
  obtain ⟨key, hkey, hsize, heq⟩ := encryptPassword_of_valid h seed password
  rw [heq] at hencrypted
  split_ifs at hencrypted with hlen
  cases hciphertext : codecs.encrypt seed key (challenge.hash ++ password) with
  | none =>
    rw [hciphertext] at hencrypted
    cases hencrypted
  | some ciphertext =>
    rw [hciphertext] at hencrypted
    cases hencrypted
    exact ⟨seed, key, ciphertext, hkey, hsize, Nat.not_lt.1 hlen, hciphertext, rfl⟩

/-- The request of a password login. -/
theorem SdkHttpClient.request_password {c : SdkHttpClient lib} {cancelled : Bool} {seed : ℕ}
    {challenge : RsaChallenge} {login : PasswordLogin} {currentUser : Option CurrentSdkUser}
    {request : SdkRequest}
    (h : c.request codecs cancelled seed (.passwordLogin challenge login currentUser) =
      .ok request) :
    challenge.binding = c.binding ∧
    ∃ encrypted, encryptPassword codecs seed challenge login.password = .ok encrypted ∧
      passwordFields login.userId login.password encrypted login.accountType login.ticket
        login.thirdPaymentVoucher = .ok request.fields := by
  simp only [SdkHttpClient.request, Except.bind_eq_ok, Except.refuse_eq_ok, Except.pure_eq_ok,
    not_not] at h
  obtain ⟨-, -, -, hbinding, -, -, -, -, encrypted, hencrypted, fields, hfields, rfl⟩ := h
  exact ⟨hbinding, encrypted, hencrypted, hfields⟩

namespace SdkCalls

variable [DecidableEq κ] [DecidableEq ι] {clients : κ → SdkHttpClient lib}
variable {s s' : SdkCalls κ ι} {e : Event κ ι} {i j : ι} {k : κ} {call : SdkCall} {stage : SdkStage}
variable {ts : List (Transition (SdkCalls κ ι) (Event κ ι))}

/-! ### The origin of a challenge -/

/-- A call that has ended stays as it is. -/
theorem Step.finished_stays {result : SdkResult} (h : Step codecs clients s e s')
    (hj : s.calls j = some (k, call, .finished result)) :
    s'.calls j = some (k, call, .finished result) := by
  refine (h.others fun howner => ?_).trans hj
  cases h with
  | refused hi hissues | admitted hi hissues =>
    obtain rfl := Option.some.inj (hissues.owner.1.symm.trans howner)
    cases hi.symm.trans hj
  | failed hi hactive hown =>
    obtain rfl := Option.some.inj (hown.symm.trans howner)
    cases hi.symm.trans hj
    cases hactive
  | dropped hi hactive =>
    cases howner
    cases hi.symm.trans hj
    cases hactive
  | advance => cases howner
  | unsent hi | posted hi | opened hi | extended hi | replied hi =>
    cases howner
    cases hi.symm.trans hj

/-- A request starts from a call that waits. -/
theorem waiting_of_send {ms : Option ℕ} (h : s.step codecs clients (.send i ms) = some s')
    (hi : s.calls i = some (k, call, stage)) :
    ∃ request deadline, stage = .waiting request deadline := by
  cases Step.of_step h with
  | refused _ hissues | admitted _ hissues => cases hissues
  | unsent hi' | posted hi' =>
    cases hi.symm.trans hi'
    exact ⟨_, _, rfl⟩
  | failed _ _ _ he => exact absurd rfl (he i ms)

/-- A call has got the challenge. -/
def Got (s : SdkCalls κ ι) (challenge : RsaChallenge) : Prop :=
  ∃ j k call, s.calls j = some (k, call, .finished (.ok (.success (.challenge challenge))))

/-- Every challenge that a call uses has been got. -/
def Challenged (s : SdkCalls κ ι) : Prop :=
  ∀ i k challenge login currentUser stage,
    s.calls i = some (k, .passwordLogin challenge login currentUser, stage) → Got s challenge

/-- The call of an event is the one before it, or a new one with a challenge that has been got. -/
theorem Step.challenge_of_call {challenge : RsaChallenge} {login : PasswordLogin}
    {currentUser : Option CurrentSdkUser} (h : Step codecs clients s e s')
    (hi : s'.calls i = some (k, .passwordLogin challenge login currentUser, stage)) :
    Got s challenge ∨
      ∃ stage, s.calls i = some (k, .passwordLogin challenge login currentUser, stage) := by
  by_cases howner : e.owner = some i
  · cases h with
    | refused _ hissues | admitted _ hissues =>
      obtain rfl := Option.some.inj (hissues.owner.1.symm.trans howner)
      rw [put_calls, Function.update_self] at hi
      cases hi
      cases hissues with
      | passwordLogin hchallenge =>
        obtain ⟨k', call', hj⟩ := challenge_eq_some.1 hchallenge
        exact .inl ⟨_, k', call', hj⟩
    | failed hi' _ hown =>
      obtain rfl := Option.some.inj (hown.symm.trans howner)
      rw [finish_calls, Function.update_self] at hi
      cases hi
      exact .inr ⟨_, hi'⟩
    | unsent hi' | replied hi' | dropped hi' =>
      cases howner
      rw [finish_calls, Function.update_self] at hi
      cases hi
      exact .inr ⟨_, hi'⟩
    | posted hi' | opened hi' | extended hi' =>
      cases howner
      rw [put_calls, Function.update_self] at hi
      cases hi
      exact .inr ⟨_, hi'⟩
    | advance => cases howner
  · rw [h.others howner] at hi
    exact .inr ⟨stage, hi⟩

theorem challenged_of_run {now : ℕ} (hrun : Run (step codecs clients) (initial now) ts s) :
    Challenged s := by
  refine hrun.invariant (fun m e m' hm he i k challenge login currentUser stage hi => ?_) ?_
  · have hstep := Step.of_step he
    have hgot : Got m challenge := by
      obtain hgot | ⟨stage, hi⟩ := hstep.challenge_of_call hi
      · exact hgot
      · exact hm i k challenge login currentUser stage hi
    obtain ⟨j, k', call, hj⟩ := hgot
    exact ⟨j, k', call, hstep.finished_stays hj⟩
  · rintro i k challenge login currentUser stage ⟨⟩

/-- A challenge that has been got is one of a call for it, and its key can be used. -/
theorem got_of_run {now : ℕ} {challenge : RsaChallenge}
    (hrun : Run (step codecs clients) (initial now) ts s) (h : Got s challenge) :
    ∃ j k currentUser, s.calls j = some (k, .fetchRsa currentUser,
      .finished (.ok (.success (.challenge challenge)))) ∧
        challenge.binding = (clients k).binding ∧ ChallengeValid codecs challenge := by
  obtain ⟨j, k, call, hj⟩ := h
  have htrace := trace_of_run hrun j
  rw [hj] at htrace
  cases htrace with
  | replied posted opened hlen hended hreply =>
    obtain ⟨⟨currentUser, rfl⟩, hbinding, hvalid⟩ :=
      (SdkHttpClient.gives_of_reply hreply).challenge challenge rfl
    exact ⟨j, k, currentUser, hj, hbinding, hvalid⟩

/-- **Challenges are bound to their clients.**  In every run of clients with different bindings: when
a request of a password login starts, its client has itself got the challenge before, by a call for
it that has ended well.  The key of the challenge can be used, and the field `pwd` is the encryption
of the hash and the password under it, which the key is long enough for. -/
theorem sdk_challenge_bound {now : ℕ} {challenge : RsaChallenge} {login : PasswordLogin}
    {currentUser : Option CurrentSdkUser} {ms : Option ℕ}
    {t : Transition (SdkCalls κ ι) (Event κ ι)}
    (hbinding : Function.Injective fun k => (clients k).binding)
    (hrun : Run (step codecs clients) (initial now) ts s) (ht : t ∈ ts) (hsend : t.event = .send i ms)
    (hi : t.before.calls i = some (k, .passwordLogin challenge login currentUser, stage)) :
    (∃ j currentUser', t.before.calls j = some (k, .fetchRsa currentUser',
      .finished (.ok (.success (.challenge challenge))))) ∧
    ∃ request deadline encrypted, stage = .waiting request deadline ∧
      request.path = PASSWORD_PATH ∧ Encrypts codecs challenge login.password encrypted ∧
      passwordFields login.userId login.password encrypted login.accountType login.ticket
        login.thirdPaymentVoucher = .ok request.fields := by
  obtain ⟨before, after, rfl⟩ := List.append_of_mem ht
  obtain ⟨hbefore, hstep, -⟩ := hrun.around
  rw [hsend] at hstep
  obtain ⟨request, deadline, rfl⟩ := waiting_of_send hstep hi
  -- the arguments of the request, checked by the client `k`
  have htrace := trace_of_run hbefore i
  rw [hi] at htrace
  cases htrace with
  | waiting requested =>
    obtain ⟨cancelled, seed, hrequest⟩ := requested
    obtain ⟨hk, encrypted, hencrypted, hfields⟩ := SdkHttpClient.request_password hrequest
    -- the challenge, made by a client with the same binding
    have hgot := challenged_of_run hbefore i k challenge login currentUser _ hi
    obtain ⟨j, k', currentUser', hj, hk', hvalid⟩ := got_of_run hbefore hgot
    obtain rfl : k' = k := hbinding (hk'.symm.trans hk)
    exact ⟨⟨j, currentUser', hj⟩, request, deadline, encrypted, rfl,
      SdkHttpClient.request_path hrequest, encrypts_of_encryptPassword hvalid hencrypted, hfields⟩

end SdkCalls

/-! ### A password login -/

/-- A public key of 1024 bits. -/
@[irreducible] def spkiDer : Bytes :=
  [48, 129, 159, 48, 13, 6, 9, 42, 134, 72, 134, 247, 13, 1, 1, 1, 5, 0, 3, 129, 141, 0, 48, 129,
    137, 2, 129, 129, 0, 209, 42, 156, 144, 99, 202, 134, 10, 54, 204, 63, 18, 57, 244, 52, 81,
    255, 25, 187, 6, 123, 183, 116, 120, 242, 251, 255, 82, 42, 211, 171, 216, 107, 110, 30, 14,
    50, 150, 184, 135, 211, 33, 215, 12, 16, 71, 188, 152, 191, 89, 215, 160, 180, 93, 25, 60, 97,
    105, 165, 149, 192, 188, 198, 220, 136, 100, 199, 123, 230, 198, 199, 30, 230, 7, 56, 220, 118,
    212, 230, 59, 54, 45, 240, 212, 74, 214, 66, 145, 98, 72, 117, 128, 195, 40, 26, 135, 123, 89,
    67, 99, 152, 192, 13, 21, 7, 249, 139, 109, 65, 42, 80, 195, 97, 110, 131, 115, 182, 54, 201,
    164, 168, 178, 123, 110, 17, 188, 99, 77, 2, 3, 1, 0, 1]

/-- The encryption of the salt and the password below, with some randomness. -/
@[irreducible] def ciphertext : Bytes :=
  [107, 204, 68, 40, 56, 189, 147, 101, 195, 160, 29, 95, 66, 238, 27, 159, 70, 68, 44, 91, 195,
    68, 238, 30, 47, 9, 186, 219, 251, 37, 108, 65, 40, 141, 93, 30, 226, 30, 3, 148, 127, 65, 23,
    4, 34, 161, 218, 161, 190, 142, 215, 5, 144, 104, 47, 171, 95, 226, 120, 148, 48, 57, 53, 120,
    13, 52, 246, 222, 98, 39, 112, 160, 140, 52, 47, 122, 181, 47, 101, 254, 216, 61, 89, 255, 163,
    191, 245, 127, 160, 165, 115, 247, 174, 213, 26, 146, 170, 79, 72, 97, 97, 192, 138, 206, 247,
    166, 45, 128, 191, 245, 206, 148, 236, 179, 44, 187, 110, 153, 110, 205, 92, 233, 82, 98, 244,
    153, 106, 123]

/-- A digit of Base64. -/
def base64Digit (n : ℕ) : UInt8 :=
  if n < 26 then UInt8.ofNat (65 + n) else if n < 52 then UInt8.ofNat (71 + n)
  else if n < 62 then UInt8.ofNat (n - 4) else if n = 62 then 43 else 47

/-- Base64 with padding. -/
def base64 : Bytes → Bytes
  | [] => []
  | [a] => [base64Digit (a.toNat / 4), base64Digit (a.toNat % 4 * 16), 61, 61]
  | [a, b] =>
    [base64Digit (a.toNat / 4), base64Digit (a.toNat % 4 * 16 + b.toNat / 16),
      base64Digit (b.toNat % 16 * 4), 61]
  | a :: b :: c :: rest =>
    base64Digit (a.toNat / 4) :: base64Digit (a.toNat % 4 * 16 + b.toNat / 16) ::
      base64Digit (b.toNat % 16 * 4 + c.toNat / 64) :: base64Digit (c.toNat % 64) :: base64 rest

def spkiText : List Char := (base64 spkiDer).map fun b => Char.ofNat b.toNat

@[irreducible] def rsaPem : String :=
  String.ofList
    ("-----BEGIN PUBLIC KEY-----".toList ++ spkiText ++ "-----END PUBLIC KEY-----".toList)

@[irreducible] def rsaRaw : Bytes :=
  utf8 "\x7b\"rsa_key\":\"" ++ utf8 rsaPem ++ utf8 "\",\"hash\":\"salt\"\x7d"

@[irreducible] def rsaReply : Bytes := utf8 "\x7b\"code\":0,\"data\":" ++ rsaRaw ++ utf8 "\x7d"

/-- The digest of the text that is signed for the password. -/
def passwordDigest : Bytes :=
  [115, 191, 16, 180, 254, 171, 40, 23, 49, 42, 182, 50, 141, 197, 201, 85]

def rsaCodecs : SdkCodecs Unit where
  envelope bytes := if bytes = rsaReply then some (0, some rsaRaw) else none
  rsaData bytes := if bytes = rsaRaw then some (rsaPem, utf8 "salt") else none
  loginData _ := none
  base64Decode text := if text = spkiText then some spkiDer else none
  base64Encode := base64
  fromDer der := if der = spkiDer then some () else none
  bits _ := 1024
  size _ := 128
  encrypt seed _ text := if seed = 0 ∧ text = utf8 "saltsecret" then some ciphertext else none
  md5 text :=
    if text = utf8 "16k" then
      [216, 182, 194, 111, 152, 113, 4, 69, 94, 251, 62, 197, 173, 220, 167, 201]
    else if text = base64 ciphertext ++ utf8 "2user6k" then passwordDigest
    else []
  headerValue _ := true

theorem rsaPem_toList : rsaPem.toList =
    "-----BEGIN PUBLIC KEY-----".toList ++ spkiText ++ "-----END PUBLIC KEY-----".toList := by
  rw [rsaPem, String.toList_ofList]

theorem length_rsaPem : (utf8 rsaPem).length = 266 := by
  rw [utf8, rsaPem_toList]
  decide +kernel

theorem length_rsaReply : rsaReply.length = 312 := by
  have hraw : rsaRaw.length = 294 := by
    rw [rsaRaw, List.length_append, List.length_append, length_rsaPem]
    rfl
  rw [rsaReply, List.length_append, List.length_append, hraw]
  rfl

theorem parse_rsaPem : parseRsaPublicKey rsaCodecs rsaPem = .ok () := by
  have hbody : strip "-----BEGIN PUBLIC KEY-----".toList "-----END PUBLIC KEY-----".toList
      (trim rsaPem.toList) = some spkiText := by
    rw [rsaPem_toList]
    decide +kernel
  have htext : spkiText.filter (fun c => !isAsciiWhitespace c) = spkiText := by decide +kernel
  rw [parseRsaPublicKey, hbody]
  dsimp only
  rw [htext]
  simp [rsaCodecs, pure, Except.pure]

def rsaChallenge : RsaChallenge := ⟨rsaPem, utf8 "salt", 3⟩

theorem rsa_rsaReply : rsa rsaCodecs rsaReply 3 = .ok (.success rsaChallenge) := by
  refine rsa_eq_success (if_pos rfl) (if_pos rfl) ?_ ?_ ?_ parse_rsaPem ?_
  · rw [length_rsaReply]
    decide
  · rw [length_rsaPem]
    decide
  · decide
  · decide

def saltedLogin : PasswordLogin := ⟨utf8 "user", utf8 "secret", .legacy, none, none⟩

theorem encrypt_salted :
    encryptPassword rsaCodecs 0 rsaChallenge (utf8 "secret") = .ok (base64 ciphertext) := by
  have hencrypt : rsaCodecs.encrypt 0 () (utf8 "salt" ++ utf8 "secret") = some ciphertext := by
    rfl
  have hlen : (utf8 "salt" ++ utf8 "secret").length ≤ 117 := by decide
  exact encryptPassword_eq_ok parse_rsaPem (by decide) hlen hencrypt

def saltedRequest : SdkRequest :=
  ⟨PASSWORD_PATH, [("user_id", utf8 "user"), ("pwd", base64 ciphertext)], false, none⟩

theorem request_salted : (loginClient 3).request rsaCodecs false 0
    (.passwordLogin rsaChallenge saltedLogin none) = .ok saltedRequest := by
  have hid : validateSecret (utf8 "user") 1024 = .ok () := rfl
  have hpassword : validateSecret (utf8 "secret") 4096 = .ok () := rfl
  simp only [SdkHttpClient.request, Except.bind_eq_ok]
  refine ⟨(), rfl, (), rfl, (), hid, (), hpassword, _, encrypt_salted, _, ?_, rfl⟩
  simp only [passwordFields, Except.bind_eq_ok]
  exact ⟨(), hid, (), hpassword, _, rfl, _, rfl, rfl⟩

namespace SdkCalls

def rsaBody : Bytes := utf8 "timestamp=1&web_code=6&sign=d8b6c26f987104455efb3ec5addca7c9"

theorem form_rsa : form rsaCodecs.md5 noParameters (utf8 "k") [] true none 1 = .ok rsaBody := by
  have htime : decoded (utf8 (toString 1)) = .ok (utf8 "1") := decoded_of_utf8 rfl
  have hcode : decoded (utf8 "6") = .ok (utf8 "6") := decoded_of_utf8 rfl
  show signForm rsaCodecs.md5 [("timestamp", utf8 (toString 1)), ("web_code", utf8 "6")] (utf8 "k") =
    _
  refine Except.bind_eq_ok.2 ⟨[("timestamp", utf8 "1"), ("web_code", utf8 "6")], ?_, ?_⟩
  · simp only [List.foldlM_cons, List.foldlM_nil, htime, hcode]
    rfl
  · rfl

def rsaPost : HttpPost := ⟨loginUrl ++ RSA_PATH, (loginClient 3).requestHeaders, rsaBody⟩

theorem post_rsa : (loginClient 3).post rsaCodecs ⟨RSA_PATH, [], true, none⟩ (some 1) =
    .ok rsaPost := by
  show (form rsaCodecs.md5 noParameters (utf8 "k") [] true none 1 >>= _) = _
  rw [form_rsa]
  rfl

@[irreducible] def passwordText : String :=
  String.ofList ((base64 ciphertext).map fun b => Char.ofNat b.toNat)

@[irreducible] def passwordBody : Bytes :=
  wire [("user_id", raw (utf8 "user")), ("pwd", raw (base64 ciphertext)), ("timestamp", utf8 "2"),
    ("web_code", utf8 "6")] ++ utf8 "&sign=" ++ hexLower passwordDigest

theorem passwordText_ascii :
    utf8 passwordText = base64 ciphertext ∧ passwordBody.length ≤ 64 * 1024 := by
  decide +kernel

theorem md5_password :
    rsaCodecs.md5 (base64 ciphertext ++ utf8 "2user6k") = passwordDigest := by
  have hne : base64 ciphertext ++ utf8 "2user6k" ≠ utf8 "16k" := by
    intro h
    have hlen := congrArg List.length h
    rw [List.length_append, show (utf8 "2user6k").length = 7 from rfl,
      show (utf8 "16k").length = 3 from rfl] at hlen
    omega
  exact (if_neg hne).trans (if_pos rfl)

theorem form_password :
    form rsaCodecs.md5 noParameters (utf8 "k") saltedRequest.fields false none 2 =
      .ok passwordBody := by
  have huser : decoded (raw (utf8 "user")) = .ok (utf8 "user") :=
    decoded_of_utf8 (decodeText_raw _)
  have hpwd : decoded (raw (base64 ciphertext)) = .ok (base64 ciphertext) := by
    rw [← passwordText_ascii.1]
    exact decoded_of_utf8 (decodeText_raw _)
  have htime : decoded (utf8 (toString 2)) = .ok (utf8 "2") := decoded_of_utf8 rfl
  have hcode : decoded (utf8 "6") = .ok (utf8 "6") := decoded_of_utf8 rfl
  have hsigned : signedText [("pwd", base64 ciphertext), ("timestamp", utf8 "2"),
      ("user_id", utf8 "user"), ("web_code", utf8 "6")] ++ utf8 "k" =
      base64 ciphertext ++ utf8 "2user6k" := by
    show (base64 ciphertext ++ utf8 "2user6") ++ utf8 "k" = _
    rw [List.append_assoc]
    rfl
  show signForm rsaCodecs.md5 [("user_id", raw (utf8 "user")), ("pwd", raw (base64 ciphertext)),
    ("timestamp", utf8 (toString 2)), ("web_code", utf8 "6")] (utf8 "k") = _
  refine Except.bind_eq_ok.2 ⟨[("pwd", base64 ciphertext), ("timestamp", utf8 "2"),
    ("user_id", utf8 "user"), ("web_code", utf8 "6")], ?_, ?_⟩
  · simp only [List.foldlM_cons, List.foldlM_nil, huser, hpwd, htime, hcode]
    rfl
  · rw [hsigned, md5_password]
    have hbody := passwordText_ascii.2
    unfold passwordBody at hbody ⊢
    exact Except.bind_eq_ok.2 ⟨(), if_neg (not_lt.2 hbody), rfl⟩

def passwordPost : HttpPost :=
  ⟨loginUrl ++ PASSWORD_PATH, (loginClient 3).requestHeaders, passwordBody⟩

theorem post_password : (loginClient 3).post rsaCodecs saltedRequest (some 2) =
    .ok passwordPost := by
  show (form rsaCodecs.md5 noParameters (utf8 "k") saltedRequest.fields false none 2 >>= _) = _
  rw [form_password]
  rfl

/-- A challenge is asked for, and the password is sent under it; `askingCalls` is the first state. -/
def askingCalls : SdkCalls ℕ ℕ :=
  (initial 0).begin rsaCodecs loginClient 0 3 (.fetchRsa none) false 0

def askedCalls : SdkCalls ℕ ℕ :=
  (askingCalls.pace 3 (10 ^ 9)).put 0 3 (.fetchRsa none) (.sent rsaPost (10 * 10 ^ 9))

def openCalls : SdkCalls ℕ ℕ :=
  askedCalls.put 0 3 (.fetchRsa none) (.reading rsaPost (10 * 10 ^ 9) [])

def wholeCalls : SdkCalls ℕ ℕ :=
  openCalls.put 0 3 (.fetchRsa none) (.reading rsaPost (10 * 10 ^ 9) rsaReply)

def challengedCalls : SdkCalls ℕ ℕ :=
  wholeCalls.finish 0 3 (.fetchRsa none) (.finished (.ok (.success (.challenge rsaChallenge))))

def passwordCalls : SdkCalls ℕ ℕ :=
  (challengedCalls.acquire 3).put 1 3 (.passwordLogin rsaChallenge saltedLogin none)
    (.waiting saltedRequest (10 * 10 ^ 9))

def laterCalls : SdkCalls ℕ ℕ := { passwordCalls with now := passwordCalls.now + 10 ^ 9 }

def postedCalls : SdkCalls ℕ ℕ :=
  (laterCalls.pace 3 (10 ^ 9)).put 1 3 (.passwordLogin rsaChallenge saltedLogin none)
    (.sent passwordPost (10 * 10 ^ 9))

def passwordRun : List (Transition (SdkCalls ℕ ℕ) (Event ℕ ℕ)) :=
  [⟨initial 0, .fetchRsa 0 3 none, askingCalls⟩, ⟨askingCalls, .send 0 (some 1), askedCalls⟩,
    ⟨askedCalls, .head 0 (.ok (200, none)), openCalls⟩,
    ⟨openCalls, .chunk 0 (.ok (some rsaReply)), wholeCalls⟩,
    ⟨wholeCalls, .chunk 0 (.ok none), challengedCalls⟩,
    ⟨challengedCalls, .passwordLogin 1 3 0 saltedLogin none false 0, passwordCalls⟩,
    ⟨passwordCalls, .advance (10 ^ 9), laterCalls⟩, ⟨laterCalls, .send 1 (some 2), postedCalls⟩]

theorem run_password : Run (step rsaCodecs loginClient) (initial 0) passwordRun postedCalls := by
  have hsend : step rsaCodecs loginClient askingCalls (.send 0 (some 1)) = some askedCalls := by
    have hi : askingCalls.calls 0 = some (3, .fetchRsa none,
        .waiting ⟨RSA_PATH, [], true, none⟩ (10 * 10 ^ 9)) := rfl
    rw [step, hi, Option.bind_some, stepCall, if_pos (by rfl), post_rsa]
    rfl
  have hchunk : step rsaCodecs loginClient openCalls (.chunk 0 (.ok (some rsaReply))) =
      some wholeCalls := by
    have hi : openCalls.calls 0 = some (3, .fetchRsa none, .reading rsaPost (10 * 10 ^ 9) []) := rfl
    have hlen : ¬ MAX_RESPONSE < ([] : Bytes).length + rsaReply.length := by
      rw [length_rsaReply]
      decide
    rw [step, hi, Option.bind_some, stepCall, if_neg hlen]
    rfl
  have hend : step rsaCodecs loginClient wholeCalls (.chunk 0 (.ok none)) =
      some challengedCalls := by
    have hi : wholeCalls.calls 0 =
      some (3, .fetchRsa none, .reading rsaPost (10 * 10 ^ 9) rsaReply) := rfl
    have hreply : (loginClient 3).reply rsaCodecs rsaReply (.fetchRsa none) =
        .ok (.success (.challenge rsaChallenge)) := by
      show (rsa rsaCodecs rsaReply 3).map (SdkReply.map SdkValue.challenge) = _
      rw [rsa_rsaReply]
      rfl
    rw [step, hi, Option.bind_some, stepCall, hreply]
    rfl
  have hbegin : step rsaCodecs loginClient challengedCalls
      (.passwordLogin 1 3 0 saltedLogin none false 0) = some passwordCalls := by
    have hchallenge : challengedCalls.challenge 0 = some rsaChallenge := rfl
    have hi : (challengedCalls.calls 1).isNone = true := rfl
    rw [step, if_pos hi, hchallenge, Option.map_some, begin, request_salted]
    rfl
  have hlast : step rsaCodecs loginClient laterCalls (.send 1 (some 2)) = some postedCalls := by
    have hi : laterCalls.calls 1 = some (3, .passwordLogin rsaChallenge saltedLogin none,
        .waiting saltedRequest (10 * 10 ^ 9)) := rfl
    rw [step, hi, Option.bind_some, stepCall, if_pos (by rfl), post_password]
    rfl
  refine Run.cons_iff.2 ⟨rfl, rfl, Run.cons_iff.2 ⟨rfl, hsend, Run.cons_iff.2 ⟨rfl, rfl,
    Run.cons_iff.2 ⟨rfl, hchunk, Run.cons_iff.2 ⟨rfl, hend, Run.cons_iff.2 ⟨rfl, hbegin,
      Run.cons_iff.2 ⟨rfl, rfl, Run.single hlast⟩⟩⟩⟩⟩⟩⟩

theorem sdk_challenge_bound_sample : ∃ encrypted,
    Encrypts rsaCodecs rsaChallenge (utf8 "secret") encrypted ∧ ∃ request : SdkRequest,
      passwordFields (utf8 "user") (utf8 "secret") encrypted .legacy none none =
        .ok request.fields := by
  have hi : laterCalls.calls 1 = some (3, .passwordLogin rsaChallenge saltedLogin none,
      .waiting saltedRequest (10 * 10 ^ 9)) := rfl
  obtain ⟨-, request, -, encrypted, -, -, hencrypts, hfields⟩ := sdk_challenge_bound
    (fun k k' h => h) run_password (t := ⟨laterCalls, .send 1 (some 2), postedCalls⟩)
    (by simp [passwordRun]) rfl hi
  exact ⟨encrypted, hencrypts, request, hfields⟩

end SdkCalls

end MoenotesApi.SdkHttp
