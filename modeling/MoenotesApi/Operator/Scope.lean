import MoenotesApi.Library.FormText
import MoenotesApi.Library.Framing
import MoenotesApi.Managed.Accounts
import MoenotesApi.Server.Config

/-!
# The directory of an account

`accounts.rs`: the state directory of an account has a name that is a digest of the user, the region
and the origin, and the supervisor compares digests of what the account directory holds.

* `hexName`, `accountDir`, `scopedState`: the directory in `scoped_login`;
* `bigEndian_injective`, `hashParts_injective`: the parts can be read off the bytes that are hashed;
* `SelectionsDiffer`: two outcomes of `select`;
* `framing_separates`.
-/

namespace MoenotesApi

open Framing

/-- A digit of `{:02x}`. -/
def hexChar (n : UInt8) : Char := Char.ofNat (if n < 10 then 48 + n.toNat else 87 + n.toNat)

/-- The bytes in `{:02x}`, one after the other. -/
def hexName (bytes : List UInt8) : String :=
  String.ofList (bytes.flatMap fun b => [hexChar (b / 16), hexChar (b % 16)])

/-- What `scoped_login` hashes. -/
def scopeParts (account : Account) (session : SessionConfig) : List (List UInt8) :=
  [bytes account.user, bytes session.region, bytes session.origin]

/-- The name of the directory of an account. -/
def accountDir (sha256 : List UInt8 → List UInt8) (account : Account) (session : SessionConfig) :
    String :=
  "account-" ++ hexName (hashParts sha256 (scopeParts account session))

/-- The state directory of `scoped_login`. -/
def scopedState (sha256 : List UInt8 → List UInt8) (stateDir : String) (account : Account)
    (session : SessionConfig) : String :=
  Path.join stateDir (accountDir sha256 account session)

/-- What `input_revision` hashes. -/
def revisionParts : Except ErrorKind Account → List (List UInt8)
  | .ok account => [bytes account.user, bytes account.password]
  | .error kind => [bytes kind.debug]

/-- Two outcomes of `select` differ: in the account, in the kind of the error, or one of them is an
account and the other is not. -/
def SelectionsDiffer : Except ErrorKind Account → Except ErrorKind Account → Prop
  | .ok a, .ok b => (a.user, a.password) ≠ (b.user, b.password)
  | .error kind, .error kind' => kind ≠ kind'
  | _, _ => True

instance : ∀ a b : Except ErrorKind Account, Decidable (SelectionsDiffer a b)
  | .ok a, .ok b => inferInstanceAs (Decidable ((a.user, a.password) ≠ (b.user, b.password)))
  | .error kind, .error kind' => inferInstanceAs (Decidable (kind ≠ kind'))
  | .ok _, .error _ => isTrue trivial
  | .error _, .ok _ => isTrue trivial

/-- The hash tells the two framed inputs apart. -/
def NoCollision {ρ : Type} (sha256 : List UInt8 → ρ) (parts parts' : List (List UInt8)) : Prop :=
  hashParts sha256 parts = hashParts sha256 parts' →
    framed bigEndian parts = framed bigEndian parts'

/-! ### Frames -/

theorem length_bigEndian (n : ℕ) : (bigEndian n).length = 8 := by
  rw [bigEndian, List.length_map, List.length_range]

/-- A byte of the encoding is a digit to the base 256. -/
theorem bigEndian_digit {m n i : ℕ} (hi : i < 8) (h : bigEndian m = bigEndian n) :
    m / 256 ^ i % 256 = n / 256 ^ i % 256 := by
  have hbyte := List.map_inj_left.1 h (7 - i) (List.mem_range.2 (by omega))
  have hexp : 8 * (7 - (7 - i)) = 8 * i := by omega
  have hnat := congrArg UInt8.toNat hbyte
  rwa [hexp, UInt8.toNat_ofNat', UInt8.toNat_ofNat', Nat.shiftRight_eq_div_pow,
    Nat.shiftRight_eq_div_pow, pow_mul] at hnat

/-- Eight bytes hold every number below `2 ^ 64`. -/
theorem bigEndian_injective {m n : ℕ} (hm : m < 2 ^ 64) (hn : n < 2 ^ 64)
    (h : bigEndian m = bigEndian n) : m = n := by
  -- the lower `i` digits agree, for every `i` up to 8
  have hlow : ∀ i ≤ 8, m % 256 ^ i = n % 256 ^ i := by
    intro i
    induction i with
    | zero => simp [Nat.mod_one]
    | succ i ih =>
      intro hi
      rw [pow_succ, Nat.mod_mul, Nat.mod_mul, ih (by omega), bigEndian_digit (by omega) h]
  have heq := hlow 8 le_rfl
  rwa [Nat.mod_eq_of_lt (by norm_num at hm ⊢; exact hm),
    Nat.mod_eq_of_lt (by norm_num at hn ⊢; exact hn)] at heq

/-- The parts can be read off the bytes that are hashed. -/
theorem hashParts_injective {ρ : Type} {sha256 : List UInt8 → ρ} {parts parts' : List (List UInt8)}
    (hparts : ∀ part ∈ parts, part.length < 2 ^ 64)
    (hparts' : ∀ part ∈ parts', part.length < 2 ^ 64) (hsha : NoCollision sha256 parts parts')
    (h : hashParts sha256 parts = hashParts sha256 parts') : parts = parts' :=
  framed_injective (by decide) length_bigEndian (fun _ _ => bigEndian_injective) hparts hparts'
    (hsha h)

/-! ### Texts -/

theorem bytes_eq_utf8 (s : String) : bytes s = FormText.utf8 s := by
  rw [bytes, String.toUTF8_eq_toByteArray, ← FormText.toByteArray_utf8, List.data_toByteArray]

theorem bytes_injective : Function.Injective bytes := by
  intro s t h
  rw [bytes_eq_utf8, bytes_eq_utf8] at h
  exact FormText.utf8_injective h

theorem length_bytes (s : String) : (bytes s).length = byteLen s.toList := by
  rw [bytes_eq_utf8, FormText.utf8, List.length_flatMap, byteLen]
  simp only [String.length_utf8EncodeChar]

theorem debug_injective {kind kind' : ErrorKind} (h : kind.debug = kind'.debug) : kind = kind' := by
  revert h
  cases kind <;> cases kind' <;> decide

/-- The value of a digit of `{:02x}`. -/
def hexCharValue (c : Char) : UInt8 :=
  UInt8.ofNat (if c.toNat < 58 then c.toNat - 48 else c.toNat - 87)

theorem hexDigits_injective : Function.Injective fun b : UInt8 =>
    [hexChar (b / 16), hexChar (b % 16)] := by
  have hvalue : ∀ b : UInt8,
      hexCharValue (hexChar (b / 16)) * 16 + hexCharValue (hexChar (b % 16)) = b := by
    decide +kernel
  intro a b h
  simp only [List.cons.injEq, and_true] at h
  rw [← hvalue a, h.1, h.2, hvalue b]

theorem hexName_injective : Function.Injective hexName := by
  intro a b h
  exact flatMap_injective (by decide : 0 < 2) (fun _ => rfl) hexDigits_injective
    (String.ofList_injective h)

/-- A name of an account directory is one component. -/
theorem slash_notMem_accountDir (sha256 : List UInt8 → List UInt8) (account : Account)
    (session : SessionConfig) : '/' ∉ (accountDir sha256 account session).toList := by
  have hchar : ∀ b : UInt8, hexChar (b / 16) ≠ '/' ∧ hexChar (b % 16) ≠ '/' := by
    decide +kernel
  simp only [accountDir, hexName, String.toList_append, String.toList_ofList, List.mem_append,
    List.mem_flatMap, not_or, not_exists, not_and]
  refine ⟨by decide, fun b _ hb => ?_⟩
  simp only [List.mem_cons, List.not_mem_nil, or_false] at hb
  rcases hb with hb | hb
  · exact (hchar b).1 hb.symm
  · exact (hchar b).2 hb.symm

/-- A name that was joined to a path stands after its last separator. -/
theorem getLast_join {base name : String} (hname : '/' ∉ name.toList) :
    ((Path.join base name).toList.splitOn '/').getLast? = some name.toList := by
  have hsplit : name.toList.splitOn '/' = [name.toList] := List.splitOn_eq_singleton hname
  have hafter : ∀ l : List Char, ((l ++ '/' :: name.toList).splitOn '/').getLast? =
    some name.toList := by
    intro l
    rw [List.splitOn_append_cons_self, hsplit, List.getLast?_concat]
  unfold Path.join
  split_ifs with habs hbase
  · have hhead : name.toList.head? = some '/' := by simpa [Path.isAbsolute] using habs
    exact absurd (List.mem_of_head? hhead) hname
  · rcases hbase with rfl | hlast
    · rw [String.toList_append, show "".toList = [] from rfl, List.nil_append, hsplit]
      rfl
    · obtain ⟨l, hl⟩ := List.getLast?_eq_some_iff.1 hlast
      rw [String.toList_append, hl, List.append_assoc]
      exact hafter l
  · rw [String.toList_append, String.toList_append, List.append_assoc]
    exact hafter base.toList

/-- The name that was joined to a path can be read off the result. -/
theorem join_injective {base base' name name' : String} (hname : '/' ∉ name.toList)
    (hname' : '/' ∉ name'.toList) (h : Path.join base name = Path.join base' name') :
    name = name' := by
  have hlast := @getLast_join base _ hname
  rw [h, getLast_join hname'] at hlast
  exact (String.toList_injective (Option.some.inj hlast)).symm

/-! ### Accounts -/

/-- Equal directories stand for equal hashes. -/
theorem hash_of_scopedState {sha256 : List UInt8 → List UInt8} {stateDir stateDir' : String}
    {account account' : Account} {session session' : SessionConfig}
    (h : scopedState sha256 stateDir account session =
      scopedState sha256 stateDir' account' session') :
    hashParts sha256 (scopeParts account session) =
      hashParts sha256 (scopeParts account' session') := by
  have hdir := join_injective (slash_notMem_accountDir sha256 account session)
    (slash_notMem_accountDir sha256 account' session') h
  have hlist := congrArg String.toList hdir
  rw [accountDir, accountDir, String.toList_append, String.toList_append] at hlist
  exact hexName_injective (String.toList_injective (List.append_cancel_left hlist))

/-- A selected account passed the checks of `select`. -/
theorem selectAccount_bounds {parse : List UInt8 → Option Account} {config : AccountsConfig}
    {files : AccountFiles} {account : Account}
    (h : selectAccount parse config files = .ok account) :
    byteLen account.user.toList ≤ 1024 ∧ byteLen account.password.toList ≤ 4096 := by
  obtain ⟨names, -, h⟩ := Except.bind_eq_ok.1 h
  split at h
  · cases h
  · split at h
    · cases h
    · split_ifs at h with hbad
      cases h
      simp only [Bool.or_eq_true, decide_eq_true_eq, not_or, not_lt] at hbad
      exact ⟨hbad.1.1.2, hbad.2⟩
  · cases h

/-- What `input_revision` hashes consists of short parts. -/
theorem revisionParts_short (parse : List UInt8 → Option Account) (config : AccountsConfig)
    (files : AccountFiles) :
    ∀ part ∈ revisionParts (selectAccount parse config files), part.length < 2 ^ 64 := by
  cases hselect : selectAccount parse config files with
  | ok account =>
    obtain ⟨huser, hpassword⟩ := selectAccount_bounds hselect
    simp only [revisionParts, List.forall_mem_cons, length_bytes]
    exact ⟨by omega, by omega, nofun⟩
  | error kind =>
    simp only [revisionParts, List.forall_mem_cons, length_bytes]
    exact ⟨by cases kind <;> decide, nofun⟩

theorem revisionParts_ne_iff (a b : Except ErrorKind Account) :
    revisionParts a ≠ revisionParts b ↔ SelectionsDiffer a b := by
  cases a with
  | ok a =>
    cases b with
    | ok b =>
      simp only [revisionParts, SelectionsDiffer, ne_eq, List.cons.injEq, and_true, Prod.mk.injEq,
        bytes_injective.eq_iff]
    | error kind => simp [revisionParts, SelectionsDiffer]
  | error kind =>
    cases b with
    | ok b => simp [revisionParts, SelectionsDiffer]
    | error kind' =>
      simp only [revisionParts, SelectionsDiffer, ne_eq, List.cons.injEq, and_true,
        bytes_injective.eq_iff]
      exact not_congr ⟨debug_injective, congrArg _⟩

theorem inputRevision_eq {ρ : Type} (sha256 : List UInt8 → ρ) (parse : List UInt8 → Option Account)
    (config : AccountsConfig) (files : AccountFiles) :
    AccountDirectoryClient.inputRevision sha256 parse config files =
      some (hashParts sha256 (revisionParts (selectAccount parse config files))) := by
  unfold AccountDirectoryClient.inputRevision
  cases selectAccount parse config files <;> rfl

/-- **The framing tells inputs apart.**  The bytes that are hashed determine the parts; so accounts
with one state directory agree in user, region and origin, and the input revision changes exactly
with the outcome of the selection. -/
theorem framing_separates (sha256 : List UInt8 → List UInt8) :
    (∀ parts parts' : List (List UInt8), (∀ part ∈ parts, part.length < 2 ^ 64) →
      (∀ part ∈ parts', part.length < 2 ^ 64) →
      framed bigEndian parts = framed bigEndian parts' → parts = parts') ∧
    (∀ stateDir stateDir' account account' session session',
      (∀ part ∈ scopeParts account session, part.length < 2 ^ 64) →
      (∀ part ∈ scopeParts account' session', part.length < 2 ^ 64) →
      NoCollision sha256 (scopeParts account session) (scopeParts account' session') →
      scopedState sha256 stateDir account session = scopedState sha256 stateDir' account' session' →
      account.user = account'.user ∧ session.region = session'.region ∧
        session.origin = session'.origin) ∧
    ∀ parse parse' config config' files files',
      NoCollision sha256 (revisionParts (selectAccount parse config files))
        (revisionParts (selectAccount parse' config' files')) →
      (AccountDirectoryClient.inputRevision sha256 parse config files ≠
          AccountDirectoryClient.inputRevision sha256 parse' config' files' ↔
        SelectionsDiffer (selectAccount parse config files)
          (selectAccount parse' config' files')) := by
  refine ⟨fun parts parts' hparts hparts' h => ?_, ?_, ?_⟩
  · exact framed_injective (by decide) length_bigEndian (fun _ _ => bigEndian_injective) hparts
      hparts' h
  · intro stateDir stateDir' account account' session session' hparts hparts' hsha h
    have heq := hashParts_injective hparts hparts' hsha (hash_of_scopedState h)
    simp only [scopeParts, List.cons.injEq, and_true, bytes_injective.eq_iff] at heq
    exact heq
  · intro parse parse' config config' files files' hsha
    rw [inputRevision_eq, inputRevision_eq, ← revisionParts_ne_iff, ne_eq, Option.some.injEq]
    refine not_congr ⟨fun h => ?_, congrArg _⟩
    exact hashParts_injective (revisionParts_short parse config files)
      (revisionParts_short parse' config' files') hsha h

section Sample

def scopeSession : SessionConfig :=
  ⟨"tw", "https://game.example.com", ["https://game.example.com"], "android", "1.0.1", none, none⟩

/-- The only account file holds one byte, for a password of that length. -/
def scopeFiles (length : UInt8) : AccountFiles where
  directory := .found
  privateDir := true
  metadata := fun _ => .missing
  readDir := some [some (some "account.json")]
  privateRead := fun _ => some [length]

def scopeParse : List UInt8 → Option Account
  | [length] => some ⟨"user", String.ofList (List.replicate length.toNat 'p')⟩
  | _ => none

def scopeAccounts : AccountsConfig := ⟨"/accounts/international", none, .single⟩

/-- A user whose name begins with the region of another account, and a password that changes. -/
theorem framing_separates_sample :
    framed bigEndian [[7], []] ≠ framed bigEndian [[7, 0]] ∧
      scopedState id "/state" ⟨"usertw", "p"⟩ { scopeSession with region := "" } ≠
        scopedState id "/state" ⟨"user", "p"⟩ scopeSession ∧
      AccountDirectoryClient.inputRevision id scopeParse scopeAccounts (scopeFiles 1) ≠
        AccountDirectoryClient.inputRevision id scopeParse scopeAccounts (scopeFiles 2) := by
  obtain ⟨hframes, hscopes, hrevisions⟩ := framing_separates id
  refine ⟨fun h => ?_, fun h => ?_, ?_⟩
  · have hparts := hframes [[7], []] [[7, 0]] (by decide) (by decide) h
    exact absurd hparts (by decide)
  · have hequal := hscopes _ _ _ _ _ _ (by decide +kernel) (by decide +kernel) (fun h => h) h
    exact absurd hequal.1 (by decide)
  · exact (hrevisions scopeParse scopeParse _ _ _ _ fun h => h).2 (by decide +kernel)

end Sample

end MoenotesApi
