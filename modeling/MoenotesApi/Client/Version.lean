import Mathlib.Algebra.GroupWithZero.Nat
import Mathlib.Data.List.Basic

/-!
# Version strings

The pure parts of `versions.rs` and `jp.rs`: which strings are data versions and client releases,
the patch releases that follow one, and the resource version that a JP answer carries.

* `valid`, `patchVersion`, `patchSuccessors` (`versions.rs`);
* `validMaster`, `numericVersion`, `assetVersion` (`jp.rs`).

Strings are read as lists of characters; a Rust length is a length in UTF-8 bytes (`byteLen`).
-/

namespace MoenotesApi

/-- `str::len`: the length in UTF-8 bytes. -/
def byteLen (s : List Char) : ℕ := (s.map Char.utf8Size).sum

/-- The bytes of a version token: ASCII letters, digits and `._-`. -/
def tokenChar (c : Char) : Bool := c.isAlphanum || c = '.' || c = '_' || c = '-'

/-- A nonempty path-safe token of at most 128 bytes. -/
def validToken (s : List Char) : Bool :=
  !s.isEmpty && byteLen s ≤ 128 && s.all tokenChar && s ≠ ['.'] && s ≠ ['.', '.']

/-- `valid`: a master or resource version. -/
def valid (value : String) : Bool := validToken value.toList

/-- The value of a string of decimal digits. -/
def decimal (digits : List Char) : ℕ :=
  digits.foldl (fun n c => 10 * n + (c.toNat - '0'.toNat)) 0

/-! ### Client releases -/

/-- One part of `MAJOR.MINOR.PATCH`: one to nine digits, so that it fits `u32`. -/
def patchPart (text : List Char) : Option ℕ :=
  if text.isEmpty || 9 < text.length || !text.all Char.isDigit then none else some (decimal text)

/-- `patch_version`: the parts of `MAJOR.MINOR.PATCH`. -/
def patchVersion (value : String) : Option (ℕ × ℕ × ℕ) :=
  match value.toList.splitOn '.' with
  | [major, minor, patch] => do
    let major ← patchPart major
    let minor ← patchPart minor
    let patch ← patchPart patch
    return (major, minor, patch)
  | _ => none

/-- `patch_successors`: the next `count` patch releases after `current`.  A part is below `10 ^ 9`,
so `checked_add` fails only where the sum leaves `u32`. -/
def patchSuccessors (current : String) (count : ℕ) : List String :=
  match patchVersion current with
  | none => []
  | some (major, minor, patch) =>
    (List.range count).filterMap fun k =>
      if patch + (k + 1) < 2 ^ 32 then
        some (toString major ++ "." ++ toString minor ++ "." ++ toString (patch + (k + 1)))
      else none

example : patchSuccessors "1.0.3" 3 = ["1.0.4", "1.0.5", "1.0.6"] := by decide

/-! ### JP versions -/

/-- One part of a JP version: digits whose value is at most `i32::MAX`. -/
def numericPart (part : List Char) : Option ℕ :=
  if part.isEmpty || !part.all Char.isDigit then none
  else if decimal part ≤ 2 ^ 31 - 1 then some (decimal part) else none

/-- `numeric_version`: two to four numeric parts, padded with zeros to four. -/
def numericVersion (value : String) : Option (List ℕ) :=
  let parts := value.toList.splitOn '.'
  if 2 ≤ parts.length && parts.length ≤ 4 then do
    let numbers ← parts.mapM numericPart
    return numbers ++ List.replicate (4 - numbers.length) 0
  else none

/-- A lowercase hexadecimal digit. -/
def lowerHex (c : Char) : Bool := c.isDigit || ('a' ≤ c && c ≤ 'f')

/-- `valid_master`: a numeric release and 32 hexadecimal digits after the first slash. -/
def validMaster (value : String) : Bool :=
  let chars := value.toList
  match chars.dropWhile (· ≠ '/') with
  | [] => false
  | _ :: hash =>
    byteLen chars ≤ 128 && (numericVersion (String.ofList (chars.takeWhile (· ≠ '/')))).isSome &&
      hash.length = 32 && hash.all lowerHex

/-- `Entry` of the asset payload. -/
structure AssetEntry where
  min : String
  version : String
  android : Option String
  deriving DecidableEq, Repr

/-- `Payload`: the parsed header `x-asset-version`. -/
structure AssetPayload where
  version : Option String
  android : Option String
  live : Option (List (Option AssetEntry))
  deriving DecidableEq, Repr

/-- Unicode white space, which `str::trim` removes. -/
def whiteSpace (c : Char) : Bool :=
  (0x9 ≤ c.toNat && c.toNat ≤ 0xd) || c.toNat = 0x20 || c.toNat = 0x85 || c.toNat = 0xa0 ||
    c.toNat = 0x1680 || (0x2000 ≤ c.toNat && c.toNat ≤ 0x200a) || c.toNat = 0x2028 ||
    c.toNat = 0x2029 || c.toNat = 0x202f || c.toNat = 0x205f || c.toNat = 0x3000

/-- `str::trim`. -/
def trim (s : String) : List Char :=
  ((s.toList.dropWhile whiteSpace).reverse.dropWhile whiteSpace).reverse

/-- `min > *old` on version arrays: the order of `[u32; 4]` is lexicographic. -/
def versionLt : List ℕ → List ℕ → Bool
  | [], [] => false
  | [], _ :: _ => true
  | _ :: _, [] => false
  | a :: as, b :: bs => a < b || (a = b && versionLt as bs)

/-- One round of the loop over the live list. -/
def selectEntry (current : List ℕ) (best : Option (List ℕ × AssetEntry)) (entry : AssetEntry) :
    Option (List ℕ × AssetEntry) :=
  match numericVersion entry.min with
  | none => best
  | some min =>
    if !versionLt current min && best.all (fun old => versionLt old.1 min) then some (min, entry)
    else best

/-- The version and hash that `asset_version` goes on to check. -/
def assetCandidate (payload : AssetPayload) (client : String) : Option (String × String) :=
  match payload.live.filter (fun live => !live.isEmpty) with
  | some live => do
    let current ← numericVersion client
    let best ← (live.filterMap id).foldl (selectEntry current) none
    return (best.2.version, ← best.2.android)
  | none => do return (← payload.version, ← payload.android)

/-- An ASCII hexadecimal digit. -/
def asciiHex (c : Char) : Bool := lowerHex c || ('A' ≤ c && c ≤ 'F')

/-- `asset_version`; `parse` is `serde_json::from_str` at the type `Payload`. -/
def assetVersion (parse : String → Option AssetPayload) (raw : Option String) (client : String) :
    Option String := do
  let raw ← raw.filter fun s => byteLen s.toList ≤ 64 * 1024
  let payload ← parse raw
  let (version, hash) ← assetCandidate payload client
  if validToken (trim version) && (trim hash).length = 32 && (trim hash).all asciiHex then
    some (String.ofList (trim version))
  else none

end MoenotesApi
