import Mathlib.Algebra.GroupWithZero.Nat
import Mathlib.Algebra.Order.BigOperators.Group.List

/-!
# JSON text of records of strings

A compact JSON writer, as the usual libraries print a record whose fields are strings or absent, and
a scanner that takes such a text apart again.

* `escape`, `unescape`: one character of a string literal;
* `word`, `string`, `nullable`: fixed text, a string literal, and `null` for an absent one;
* `expect`, `scanString`, `scanNullable`: what the writer wrote, and the rest of the text;
* `byteLength`: the length of a text in UTF-8.
-/

namespace JsonText

/-- The text of a file, as its characters. -/
abbrev Text := List Char

/-- The length of a text in bytes. -/
def byteLength (text : Text) : ℕ := (text.map Char.utf8Size).sum

@[simp] theorem byteLength_nil : byteLength [] = 0 := rfl

@[simp] theorem byteLength_cons (c : Char) (text : Text) :
    byteLength (c :: text) = c.utf8Size + byteLength text := rfl

@[simp] theorem byteLength_append (a b : Text) :
    byteLength (a ++ b) = byteLength a + byteLength b := by
  simp [byteLength]

/-! ### String literals -/

/-- The hexadecimal digit of a number below sixteen. -/
def hexDigit (n : ℕ) : Char := "0123456789abcdef".toList.getD n '0'

/-- The value of a hexadecimal digit. -/
def hexValue (c : Char) : ℕ := "0123456789abcdef".toList.idxOf c

theorem hexValue_hexDigit {n : ℕ} (h : n < 16) : hexValue (hexDigit n) = n := by
  revert h
  revert n
  decide

/-- One character inside a string literal. -/
def escape (c : Char) : Text :=
  if c = '"' then ['\\', '"']
  else if c = '\\' then ['\\', '\\']
  else if c = '\x08' then ['\\', 'b']
  else if c = '\x0c' then ['\\', 'f']
  else if c = '\n' then ['\\', 'n']
  else if c = '\r' then ['\\', 'r']
  else if c = '\t' then ['\\', 't']
  else if c.toNat < 32 then ['\\', 'u', '0', '0', hexDigit (c.toNat / 16), hexDigit (c.toNat % 16)]
  else [c]

/-- The first character of the inside of a string literal. -/
def unescape : Text → Option (Char × Text)
  | [] => none
  | c :: rest =>
    if c = '\\' then
      match rest with
      | 'u' :: '0' :: '0' :: a :: b :: rest => some (.ofNat (16 * hexValue a + hexValue b), rest)
      | 'b' :: rest => some ('\x08', rest)
      | 'f' :: rest => some ('\x0c', rest)
      | 'n' :: rest => some ('\n', rest)
      | 'r' :: rest => some ('\r', rest)
      | 't' :: rest => some ('\t', rest)
      | '"' :: rest => some ('"', rest)
      | '\\' :: rest => some ('\\', rest)
      | _ => none
    else if c = '"' then none
    else some (c, rest)

theorem unescape_escape (c : Char) (rest : Text) :
    unescape (escape c ++ rest) = some (c, rest) := by
  unfold escape
  split_ifs with h1 h2 h3 h4 h5 h6 h7 h8
  all_goals try (subst c; rfl)
  · have ha := hexValue_hexDigit (show c.toNat / 16 < 16 by omega)
    have hb := hexValue_hexDigit (show c.toNat % 16 < 16 by omega)
    have hc : 16 * (c.toNat / 16) + c.toNat % 16 = c.toNat := by omega
    simp [unescape, ha, hb, hc, Char.ofNat_toNat]
  · simp [unescape, h1, h2]

/-- An escaped character does not begin with a quotation mark. -/
theorem escape_ne_quote (c : Char) (rest a : Text) : escape c ++ rest ≠ '"' :: a := by
  intro h
  have hu := unescape_escape c rest
  rw [h] at hu
  simp [unescape] at hu

/-- A string literal. -/
def string (s : String) : Text := '"' :: (s.toList.flatMap escape ++ ['"'])

/-- A string literal, or `null`. -/
def nullable : Option String → Text
  | none => ['n', 'u', 'l', 'l']
  | some s => string s

/-- Fixed text. -/
@[irreducible] def word (s : String) : Text := s.toList

/-! ### Scanning -/

/-- The inside of a string literal up to its end, of at most `n` characters. -/
def scanInside : ℕ → Text → Option (Text × Text)
  | 0, _ => none
  | _ + 1, '"' :: rest => some ([], rest)
  | n + 1, text => do
    let (c, rest) ← unescape text
    let (cs, rest) ← scanInside n rest
    return (c :: cs, rest)

theorem scanInside_escape (cs rest : Text) {n : ℕ} (h : cs.length < n) :
    scanInside n (cs.flatMap escape ++ '"' :: rest) = some (cs, rest) := by
  induction cs generalizing n with
  | nil =>
    obtain ⟨n, rfl⟩ : ∃ m, n = m + 1 := ⟨n - 1, by simp at h; omega⟩
    rfl
  | cons c cs ih =>
    obtain ⟨n, rfl⟩ : ∃ m, n = m + 1 := ⟨n - 1, by simp at h; omega⟩
    have hrest := ih (n := n) (by simpa using h)
    rw [List.flatMap_cons, List.append_assoc, scanInside]
    · rw [unescape_escape]
      simp [hrest]
    · exact fun a => escape_ne_quote c _ a

/-- A string literal and what follows it. -/
def scanString : Text → Option (String × Text)
  | '"' :: text => (scanInside (text.length + 1) text).map fun p => (.ofList p.1, p.2)
  | _ => none

theorem length_le_flatMap_escape (cs : Text) : cs.length ≤ (cs.flatMap escape).length := by
  induction cs with
  | nil => exact Nat.le_refl _
  | cons c cs ih =>
    have hc : 0 < (escape c).length := by
      unfold escape
      split_ifs <;> simp
    simp only [List.length_cons, List.flatMap_cons, List.length_append]
    omega

@[simp] theorem scanString_string (s : String) (rest : Text) :
    scanString (string s ++ rest) = some (s, rest) := by
  have hle := length_le_flatMap_escape s.toList
  simp only [string, List.cons_append, List.append_assoc, List.nil_append, scanString]
  rw [scanInside_escape _ _ (by simp only [List.length_append, List.length_cons]; omega)]
  simp

/-- A string literal or `null`, and what follows it. -/
def scanNullable : Text → Option (Option String × Text)
  | 'n' :: 'u' :: 'l' :: 'l' :: rest => some (none, rest)
  | text => (scanString text).map fun p => (some p.1, p.2)

@[simp] theorem scanNullable_nullable (s : Option String) (rest : Text) :
    scanNullable (nullable s ++ rest) = some (s, rest) := by
  cases s with
  | none => rfl
  | some s =>
    rw [nullable, scanNullable]
    · rw [scanString_string]
      rfl
    · simp [string]

/-- What follows the fixed text `s`. -/
def expect (s : String) (text : Text) : Option Text :=
  if word s <+: text then some (text.drop (word s).length) else none

@[simp] theorem expect_word (s : String) (rest : Text) : expect s (word s ++ rest) = some rest := by
  simp [expect]

/-! ### Lengths -/

/-- A literal whose characters need no escape is two quotation marks longer than its string. -/
theorem byteLength_string {s : String} (h : ∀ c ∈ s.toList, escape c = [c]) :
    byteLength (string s) = byteLength s.toList + 2 := by
  have hmap : s.toList.flatMap escape = s.toList := by
    rw [List.flatMap_congr h]
    simp
  have hquote : '"'.utf8Size = 1 := rfl
  simp only [string, hmap, byteLength_cons, byteLength_append, byteLength_nil, hquote]
  omega

end JsonText
