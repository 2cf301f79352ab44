import Mathlib.Data.Char
import Mathlib.Data.List.Lex
import MoenotesApi.Managed.State

/-!
# The input of the account loader

`accounts.rs`: a protected query of a client without credentials makes the loader look at the account
directory, and `input_revision` is a digest of what it finds there.  The file system is read once, as
a snapshot; the JSON parser and SHA-256 are parameters.

* `fileList`: the account files of the directory;
* `select`: the account in the only file;
* `AccountDirectoryClient.inputRevision`, `JpAccountDirectoryClient.inputRevision`: the digests.
-/

namespace MoenotesApi

/-- `MAX_FILES`. -/
def maxFiles : ℕ := 128

inductive AccountStrategy
  | single
  | roundRobin
  deriving DecidableEq, Repr

structure AccountsConfig where
  directory : String
  selected : Option String
  strategy : AccountStrategy
  deriving DecidableEq, Repr

/-- `Account`: the content of an account file. -/
structure Account where
  user : String
  password : String
  deriving DecidableEq, Repr

/-- What `fs::symlink_metadata` says about a path. -/
inductive FileMetadata
  | found
  | missing
  | failed
  deriving DecidableEq, Repr

/-- What the file system answers about the account directory and the files in it.  `readDir` is
`none` when the directory cannot be read, and has `none` for an entry that cannot be read, and
`some none` for a name that is not Unicode. -/
structure AccountFiles where
  directory : FileMetadata
  privateDir : Bool
  metadata : String → FileMetadata
  readDir : Option (List (Option (Option String)))
  privateRead : String → Option (List UInt8)

/-- `char::is_control`. -/
def controlChar (c : Char) : Bool := c.toNat < 0x20 || (0x7f ≤ c.toNat && c.toNat < 0xa0)

/-- `valid_name`.  A name without separators that does not begin with a dot has one component. -/
def validName (name : String) : Bool :=
  let chars := name.toList
  chars.head? ≠ some '.' && (".json".toList).isSuffixOf chars && byteLen chars ≤ 200 &&
    !chars.any (fun c => c = '/' || c = '\\') && !chars.any controlChar

/-- `AccountsConfig::validate`. -/
def AccountsConfig.valid (config : AccountsConfig) : Bool :=
  config.directory ≠ "" && config.selected.all validName &&
    !(config.strategy = .roundRobin && config.selected.isSome)

/-- The loop of `file_list`, with the number of entries that are still allowed. -/
def collectFiles : ℕ → List (Option (Option String)) → Except ErrorKind (List String)
  | _, [] => .ok []
  | 0, _ :: _ => .error .invalidConfig
  | n + 1, some (some name) :: entries => do
    let files ← collectFiles n entries
    return if validName name then name :: files else files
  | _ + 1, _ :: _ => .error .invalidConfig

/-- `file_list`. -/
def fileList (config : AccountsConfig) (files : AccountFiles) : Except ErrorKind (List String) :=
  if !config.valid then .error .invalidConfig
  else
    match files.directory with
    | .missing => .ok []
    | .failed => .error .invalidConfig
    | .found =>
      if !files.privateDir then .error .invalidConfig
      else
        match config.selected with
        | some name =>
          match files.metadata name with
          | .found => .ok [name]
          | .missing => .ok []
          | .failed => .error .invalidConfig
        | none =>
          match files.readDir with
          | none => .error .invalidConfig
          | some entries =>
            (collectFiles maxFiles entries).map (·.insertionSort fun a b => a.toList ≤ b.toList)

/-- `select`; `parse` is `serde_json::from_slice` at the type `Account`. -/
def selectAccount (parse : List UInt8 → Option Account) (config : AccountsConfig)
    (files : AccountFiles) : Except ErrorKind Account := do
  match ← fileList config files with
  | [] => .error .authenticationRequired
  | [name] =>
    match (files.privateRead name).bind parse with
    | none => .error .invalidConfig
    | some account =>
      if trim account.user = [] || 1024 < byteLen account.user.toList ||
          account.password = "" || 4096 < byteLen account.password.toList then
        .error .invalidConfig
      else .ok account
  | _ => .error .invalidConfig

/-- A length as eight bytes, the highest first. -/
def bigEndian (n : ℕ) : List UInt8 := (List.range 8).map fun i => UInt8.ofNat (n >>> (8 * (7 - i)))

/-- `hash_parts`. -/
def hashParts {ρ : Type} (sha256 : List UInt8 → ρ) (parts : List (List UInt8)) : ρ :=
  sha256 (parts.flatMap fun part => bigEndian part.length ++ part)

/-- `str::as_bytes`. -/
def bytes (s : String) : List UInt8 := s.toUTF8.data.toList

/-- The name of the variant, which `{:?}` prints. -/
def ErrorKind.debug : ErrorKind → String
  | .invalidConfig => "InvalidConfig"
  | .invalidRequest => "InvalidRequest"
  | .authenticationRequired => "AuthenticationRequired"
  | .authentication => "Authentication"
  | .maintenance => "Maintenance"
  | .version => "Version"
  | .deviceConflict => "DeviceConflict"
  | .business => "Business"
  | .transport => "Transport"
  | .protocol => "Protocol"
  | .timeout => "Timeout"
  | .cancelled => "Cancelled"
  | .queueFull => "QueueFull"
  | .sessionChanged => "SessionChanged"

/-- `AccountDirectoryClient::input_revision`: the account, or the kind of the error. -/
def AccountDirectoryClient.inputRevision {ρ : Type} (sha256 : List UInt8 → ρ)
    (parse : List UInt8 → Option Account) (config : AccountsConfig) (files : AccountFiles) :
    Option ρ :=
  some (match selectAccount parse config files with
  | .ok account => hashParts sha256 [bytes account.user, bytes account.password]
  | .error kind => hashParts sha256 [bytes kind.debug])

/-- `JpAccountDirectoryClient::input_revision`: the bytes of the only file. -/
def JpAccountDirectoryClient.inputRevision {ρ : Type} (sha256 : List UInt8 → ρ)
    (config : AccountsConfig) (files : AccountFiles) : Option ρ :=
  some (match fileList config files with
  | .ok [name] =>
    match files.privateRead name with
    | some raw => hashParts sha256 [raw]
    | none => hashParts sha256 [bytes "invalid"]
  | _ => hashParts sha256 [bytes "missing_or_ambiguous"])

end MoenotesApi
