import Mathlib.Data.FinEnum
import Mathlib.Data.List.Forall2
import Mathlib.Tactic.SplitIfs

/-!
# Form text

The format `application/x-www-form-urlencoded` on bytes: pairs are joined by `&`, a name and its
value by `=`, and in both a space is written `+` and any byte may be written `%XX`.

* `percentDecode`, `decodeText`: a lenient decoder; a `%` without two hexadecimal digits is kept;
* `formPairs`: the decoded pairs of a body;
* `percentDecode_flatMap`, `decodeText_flatMap`: what an encoder of single bytes is decoded to;
* `formPairs_join`: the pairs of a body that was joined from encoded names and values;
* `utf8`, `ofUtf8?`: strings and their bytes.
-/

namespace FormText

abbrev Bytes := List UInt8

/-- The value of a hexadecimal digit. -/
def hexValue (b : UInt8) : Option UInt8 :=
  if 48 ≤ b ∧ b ≤ 57 then some (b - 48)
  else if 65 ≤ b ∧ b ≤ 70 then some (b - 55)
  else if 97 ≤ b ∧ b ≤ 102 then some (b - 87)
  else none

/-- The byte with these two hexadecimal digits. -/
def hexPair (h l : UInt8) : Option UInt8 :=
  match hexValue h, hexValue l with
  | some h, some l => some (h * 16 + l)
  | _, _ => none

/-- An uppercase hexadecimal digit. -/
def hexDigit (n : UInt8) : UInt8 := if n < 10 then 48 + n else 55 + n

/-- `%XX`. -/
def escape (b : UInt8) : Bytes := [37, hexDigit (b / 16), hexDigit (b % 16)]

/-- Replace every `%XX`. -/
def percentDecode : Bytes → Bytes
  | [] => []
  | [b] => [b]
  | [b, c] => [b, c]
  | b :: h :: l :: rest =>
    match if b = 37 then hexPair h l else none with
    | some c => c :: percentDecode rest
    | none => b :: percentDecode (h :: l :: rest)

/-- A `+` stands for a space. -/
def plusByte (b : UInt8) : UInt8 := if b = 43 then 32 else b

def decodeText (bs : Bytes) : Bytes := percentDecode (bs.map plusByte)

/-- The part before the first `=` and the part after it. -/
def splitPair (bs : Bytes) : Bytes × Bytes :=
  (bs.takeWhile (· ≠ 61), (bs.dropWhile (· ≠ 61)).tail)

/-- The decoded pairs of a body. -/
def formPairs (body : Bytes) : List (Bytes × Bytes) :=
  (body.splitOn 38).map fun piece => (splitPair piece).map decodeText decodeText

/-- A pair as it is written. -/
def joinPair (pair : Bytes × Bytes) : Bytes := pair.1 ++ 61 :: pair.2

/-! ### Decoding -/

@[simp] theorem percentDecode_nil : percentDecode [] = [] := rfl

theorem percentDecode_cons_of_ne {b : UInt8} (hb : b ≠ 37) (rest : Bytes) :
    percentDecode (b :: rest) = b :: percentDecode rest := by
  match rest with
  | [] => rfl
  | [c] => rfl
  | h :: l :: rest => rw [percentDecode, if_neg hb]

/-- A `%` that two hexadecimal digits do not follow is kept. -/
theorem percentDecode_percent {rest : Bytes} (h : ∀ a b t, rest = a :: b :: t → hexPair a b = none) :
    percentDecode (37 :: rest) = 37 :: percentDecode rest := by
  match rest with
  | [] => rfl
  | [c] => rfl
  | a :: b :: rest => rw [percentDecode, if_pos rfl, h a b rest rfl]

theorem percentDecode_hexPair {h l c : UInt8} (hc : hexPair h l = some c) (rest : Bytes) :
    percentDecode (37 :: h :: l :: rest) = c :: percentDecode rest := by
  rw [percentDecode, if_pos rfl, hc]

theorem hexPair_hexDigit : ∀ b : UInt8, hexPair (hexDigit (b / 16)) (hexDigit (b % 16)) = some b := by
  decide +kernel

theorem percentDecode_escape (b : UInt8) (rest : Bytes) :
    percentDecode (escape b ++ rest) = b :: percentDecode rest :=
  percentDecode_hexPair (hexPair_hexDigit b) rest

theorem plusByte_hexDigit : ∀ b : UInt8, plusByte (hexDigit (b / 16)) = hexDigit (b / 16) ∧
    plusByte (hexDigit (b % 16)) = hexDigit (b % 16) := by
  decide +kernel

theorem map_plusByte_escape (b : UInt8) : (escape b).map plusByte = escape b := by
  obtain ⟨hhi, hlo⟩ := plusByte_hexDigit b
  simp only [escape, List.map_cons, List.map_nil, hhi, hlo]
  rfl

theorem decodeText_append_escape (b : UInt8) (rest : Bytes) :
    decodeText (escape b ++ rest) = b :: decodeText rest := by
  unfold decodeText
  rw [List.map_append, map_plusByte_escape, percentDecode_escape]

/-- A byte that is neither `%` nor `+` is kept. -/
theorem decodeText_cons {b : UInt8} (hpercent : b ≠ 37) (hplus : b ≠ 43) (rest : Bytes) :
    decodeText (b :: rest) = b :: decodeText rest := by
  have hb : plusByte b = b := if_neg hplus
  unfold decodeText
  rw [List.map_cons, hb, percentDecode_cons_of_ne hpercent]

theorem decodeText_plus (rest : Bytes) : decodeText (43 :: rest) = 32 :: decodeText rest :=
  percentDecode_cons_of_ne (by decide) _

/-- An encoder of single bytes, each of which is decoded in front of anything, is inverted. -/
theorem decodeText_flatMap {f : UInt8 → Bytes}
    (hf : ∀ b rest, decodeText (f b ++ rest) = b :: decodeText rest) (bs : Bytes) :
    decodeText (bs.flatMap f) = bs := by
  induction bs with
  | nil => rfl
  | cons b bs ih => rw [List.flatMap_cons, hf, ih]

/-- Text without `%` and `+` is decoded to itself. -/
theorem decodeText_of_plain {bs : Bytes} (h : ∀ b ∈ bs, b ≠ 37 ∧ b ≠ 43) : decodeText bs = bs := by
  induction bs with
  | nil => rfl
  | cons b bs ih =>
    obtain ⟨hpercent, hplus⟩ := h b List.mem_cons_self
    rw [decodeText_cons hpercent hplus, ih fun c hc => h c (List.mem_cons_of_mem _ hc)]

/-! ### Encoders that keep `%` -/

/-- The bytes that can be part of `%XX`. -/
def escapeByte (b : UInt8) : Bool := b = 37 || (hexValue b).isSome

theorem escapeByte_hexDigit : ∀ b : UInt8, escapeByte (hexDigit (b / 16)) = true ∧
    escapeByte (hexDigit (b % 16)) = true := by
  decide +kernel

/-- An escape is made of bytes that can be part of one. -/
theorem escapeByte_of_mem {b c : UInt8} (h : c ∈ escape b) : escapeByte c = true := by
  obtain ⟨hhi, hlo⟩ := escapeByte_hexDigit b
  simp only [escape, List.mem_cons, List.not_mem_nil, or_false] at h
  rcases h with rfl | rfl | rfl
  · rfl
  · exact hhi
  · exact hlo

/-- The bytes of an escape are printable, and none of the separators. -/
theorem escapeByte_range {b : UInt8} (h : escapeByte b = true) :
    32 < b ∧ b < 127 ∧ b ≠ 38 ∧ b ≠ 43 ∧ b ≠ 61 := by
  unfold escapeByte hexValue at h
  grind

theorem hexPair_eq_none_left {a b : UInt8} (h : hexValue a = none) : hexPair a b = none := by
  rw [hexPair, h]

theorem hexPair_eq_none_right {a b : UInt8} (h : hexValue b = none) : hexPair a b = none := by
  rw [hexPair, h]
  cases hexValue a <;> rfl

/-- An encoder that writes every byte `b` as `g b` or, unless that can be part of an escape, as the
escape of `g b`, is decoded to what the bytes `g b` are decoded to: an escape that it writes never
completes a dangling `%`. -/
theorem percentDecode_flatMap {f : UInt8 → Bytes} {g : UInt8 → UInt8}
    (hf : ∀ b, f b = [g b] ∨ f b = escape (g b) ∧ escapeByte (g b) = false) (bs : Bytes) :
    percentDecode (bs.flatMap f) = percentDecode (bs.map g) := by
  -- the head of the encoded text is a hexadecimal digit only if that of the text is
  have hhead : ∀ bs a t, bs.flatMap f = a :: t → hexValue a ≠ none →
      ∃ b bs', bs = b :: bs' ∧ g b = a ∧ t = bs'.flatMap f := by
    intro bs a t h ha
    cases bs with
    | nil => cases h
    | cons b bs =>
      rw [List.flatMap_cons] at h
      rcases hf b with hb | ⟨hb, -⟩
      · rw [hb, List.singleton_append, List.cons.injEq] at h
        exact ⟨b, bs, rfl, h.1, h.2.symm⟩
      · rw [hb] at h
        obtain rfl : (37 : UInt8) = a := (List.cons.inj h).1
        exact absurd (by decide) ha
  induction hn : bs.length using Nat.strong_induction_on generalizing bs with
  | _ n ih =>
  subst hn
  cases bs with
  | nil => rfl
  | cons b bs =>
    have ihb := ih bs.length (by simp) bs rfl
    rw [List.flatMap_cons, List.map_cons]
    rcases hf b with hb | ⟨hb, hesc⟩
    · rw [hb, List.singleton_append]
      by_cases hpercent : g b = 37
      · rw [hpercent]
        by_cases hpair : ∃ h l t, bs = h :: l :: t ∧ (hexPair (g h) (g l)).isSome = true
        · obtain ⟨h, l, t, rfl, hsome⟩ := hpair
          obtain ⟨c, hc⟩ := Option.isSome_iff_exists.1 hsome
          have hkeep : ∀ x, (hexValue (g x)).isSome = true → f x = [g x] := by
            intro x hx
            rcases hf x with hx' | ⟨-, hx'⟩
            · exact hx'
            · simp [escapeByte, hx] at hx'
          have hh : (hexValue (g h)).isSome = true := by
            cases hv : hexValue (g h) with
            | none => rw [hexPair_eq_none_left hv] at hc; cases hc
            | some v => rfl
          have hl : (hexValue (g l)).isSome = true := by
            cases hv : hexValue (g l) with
            | none => rw [hexPair_eq_none_right hv] at hc; cases hc
            | some v => rfl
          rw [List.flatMap_cons, List.flatMap_cons, hkeep h hh, hkeep l hl, List.map_cons,
            List.map_cons, List.singleton_append, List.singleton_append,
            percentDecode_hexPair hc, percentDecode_hexPair hc,
            ih t.length (by simp; omega) t rfl]
        · -- no digits follow, neither in the text nor in the encoded text
          rw [percentDecode_percent, percentDecode_percent, ihb]
          · intro x y t hxy
            by_contra hne
            cases bs with
            | nil => cases hxy
            | cons h bs =>
              cases bs with
              | nil => cases hxy
              | cons l t' =>
                rw [List.map_cons, List.map_cons, List.cons.injEq, List.cons.injEq] at hxy
                refine hpair ⟨h, l, t', rfl, ?_⟩
                rw [hxy.1, hxy.2.1]
                exact Option.isSome_iff_ne_none.2 hne
          · intro x y t hxy
            by_contra hne
            obtain ⟨h, bs', rfl, rfl, ht⟩ := hhead bs x _ hxy fun hx => hne (hexPair_eq_none_left hx)
            obtain ⟨l, t', rfl, rfl, -⟩ := hhead bs' y t ht.symm fun hy =>
              hne (hexPair_eq_none_right hy)
            exact hpair ⟨h, l, t', rfl, Option.isSome_iff_ne_none.2 hne⟩
      · rw [percentDecode_cons_of_ne hpercent, percentDecode_cons_of_ne hpercent, ihb]
    · have hpercent : g b ≠ 37 := by
        rintro heq
        rw [heq] at hesc
        cases hesc
      rw [hb, percentDecode_escape, percentDecode_cons_of_ne hpercent, ihb]

/-! ### Pairs -/

theorem splitPair_joinPair {pair : Bytes × Bytes} (h : (61 : UInt8) ∉ pair.1) :
    splitPair (joinPair pair) = pair := by
  have hne : ∀ b ∈ pair.1, decide (b ≠ 61) = true := by
    intro b hb
    exact decide_eq_true (ne_of_mem_of_not_mem hb h)
  unfold splitPair joinPair
  rw [List.takeWhile_append_of_pos hne, List.dropWhile_append_of_pos hne]
  simp

/-- The pairs of a body that was joined from names without `&` and `=` and values without `&`. -/
theorem formPairs_join {pairs : List (Bytes × Bytes)} (hne : pairs ≠ [])
    (hname : ∀ pair ∈ pairs, (38 : UInt8) ∉ pair.1 ∧ (61 : UInt8) ∉ pair.1)
    (hvalue : ∀ pair ∈ pairs, (38 : UInt8) ∉ pair.2) :
    formPairs ([38].intercalate (pairs.map joinPair)) =
      pairs.map fun pair => pair.map decodeText decodeText := by
  have hsplit : ([38].intercalate (pairs.map joinPair)).splitOn 38 = pairs.map joinPair := by
    refine List.splitOn_intercalate 38 (fun piece hpiece => ?_) (by simpa using hne)
    obtain ⟨pair, hpair, rfl⟩ := List.mem_map.1 hpiece
    simp only [joinPair, List.mem_append, List.mem_cons, not_or]
    exact ⟨(hname pair hpair).1, by decide, hvalue pair hpair⟩
  unfold formPairs
  rw [hsplit, List.map_map]
  refine List.map_congr_left fun pair hpair => ?_
  rw [Function.comp_apply, splitPair_joinPair (hname pair hpair).2]

/-! ### Strings -/

/-- The UTF-8 bytes of a string. -/
def utf8 (s : String) : Bytes := s.toList.flatMap String.utf8EncodeChar

/-- The string with these bytes. -/
def ofUtf8? (bs : Bytes) : Option String := String.fromUTF8? ⟨bs.toArray⟩

theorem toByteArray_utf8 (s : String) : (utf8 s).toByteArray = s.toByteArray :=
  String.utf8Encode_toList

theorem ofUtf8?_eq_some {bs : Bytes} {s : String} : ofUtf8? bs = some s ↔ utf8 s = bs := by
  have hbytes : ByteArray.mk bs.toArray = bs.toByteArray := by
    rw [ByteArray.ext_iff, List.data_toByteArray]
  rw [← List.toByteArray_inj, toByteArray_utf8, ofUtf8?, hbytes, String.fromUTF8?]
  split_ifs with hvalid
  · rw [Option.some.injEq, ← String.toByteArray_inj, eq_comm]
    rfl
  · refine ⟨nofun, fun h => absurd (h ▸ s.isValidUTF8) hvalid⟩

theorem ofUtf8?_utf8 (s : String) : ofUtf8? (utf8 s) = some s := ofUtf8?_eq_some.2 rfl

theorem utf8_injective : Function.Injective utf8 := by
  intro s t h
  have hs := ofUtf8?_utf8 s
  rw [h, ofUtf8?_utf8] at hs
  exact (Option.some.inj hs).symm

end FormText
