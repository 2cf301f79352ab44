import MoenotesApi.Client.SdkForm

/-!
# The signature is that of the pairs on the wire

`sdk_http.rs`: what the server reads of a form, and what the signature covers.

* `decodeText_encoded`, `decodeText_raw`: what the encoded values are decoded to;
* `plainPairs`: the pairs that the caller means;
* `SignedText`: the text that a server computes from the pairs;
* `form_signed`: the main result.
-/

namespace MoenotesApi.SdkHttp

open FormText

/-! ### Values -/

/-- The value without the bytes that `encoded` leaves out. -/
def stripped (value : Bytes) : Bytes := value.filter fun b => !dropped b

theorem encoded_eq (value : Bytes) : encoded value = (stripped value).flatMap encodedByte := by
  unfold encoded stripped
  induction value with
  | nil => rfl
  | cons b value ih =>
    rw [List.flatMap_cons, ih, List.filter_cons]
    cases dropped b <;> rfl

theorem formSet_plain {c : UInt8} (h : c ∈ FORM_SET) : escapeByte c = false ∧ c ≠ 43 := by
  have hall : FORM_SET.all (fun c => !escapeByte c && c != 43) = true := by decide
  simpa using List.all_eq_true.1 hall c h

/-- A byte is written as it is, or it is neither `+` nor part of an escape. -/
theorem encodedByte_cases (b : UInt8) : encodedByte b = [b] ∧ 32 < b ∧ b ∉ FORM_SET ∨
    encodedByte b = escape b ∧ escapeByte b = false ∧ b ≠ 43 := by
  unfold encodedByte
  split_ifs with hb
  · refine .inr ⟨rfl, ?_⟩
    rcases hb with hb | hb | hb
    · constructor
      · by_contra hesc
        have := escapeByte_range (by simpa using hesc)
        grind
      · grind
    · constructor
      · by_contra hesc
        have := escapeByte_range (by simpa using hesc)
        grind
      · grind
    · exact formSet_plain hb
  · have hspace : b ≠ 32 := by
      rintro rfl
      exact hb (.inr (.inr (by decide)))
    exact .inl ⟨rfl, by grind, fun hmem => hb (.inr (.inr hmem))⟩

theorem encodedByte_of_escapeByte {b : UInt8} (h : escapeByte b = true) : encodedByte b = [b] := by
  rcases encodedByte_cases b with ⟨hb, -⟩ | ⟨-, hesc, -⟩
  · exact hb
  · rw [h] at hesc
    cases hesc

theorem encodedByte_decoded (b : UInt8) : (encodedByte b).map plusByte = [plusByte b] ∨
    (encodedByte b).map plusByte = escape (plusByte b) ∧ escapeByte (plusByte b) = false := by
  rcases encodedByte_cases b with ⟨hb, -⟩ | ⟨hb, hesc, hplus⟩
  · exact .inl (by rw [hb, List.map_singleton])
  · have hsame : plusByte b = b := if_neg hplus
    exact .inr ⟨by rw [hb, map_plusByte_escape, hsame], by rw [hsame]; exact hesc⟩

/-- An encoded value is decoded to what the value without the dropped bytes is decoded to. -/
theorem decodeText_encoded (value : Bytes) : decodeText (encoded value) =
    decodeText (stripped value) := by
  unfold decodeText
  rw [encoded_eq, List.map_flatMap]
  exact percentDecode_flatMap encodedByte_decoded (stripped value)

/-- What every byte of an encoded value is like: it is written as it is when it is encoded again, and
it is no separator. -/
theorem encodedByte_safe {b c : UInt8} (h : c ∈ encodedByte b) :
    dropped c = false ∧ encodedByte c = [c] ∧ c ≠ 38 ∧ c ≠ 61 := by
  have hdropped : ∀ {c : UInt8}, 32 < c → dropped c = false := by
    intro c hc
    unfold dropped
    grind
  rcases encodedByte_cases b with ⟨hb, hlt, hset⟩ | ⟨hb, -⟩
  · rw [hb, List.mem_singleton] at h
    subst h
    exact ⟨hdropped hlt, hb, ne_of_mem_of_not_mem (by decide) hset |>.symm,
      ne_of_mem_of_not_mem (by decide) hset |>.symm⟩
  · rw [hb] at h
    have hesc := escapeByte_of_mem h
    obtain ⟨hlt, -, hamp, -, heq⟩ := escapeByte_range hesc
    exact ⟨hdropped hlt, encodedByte_of_escapeByte hesc, hamp, heq⟩

theorem encoded_safe {value : Bytes} {c : UInt8} (h : c ∈ encoded value) :
    dropped c = false ∧ encodedByte c = [c] ∧ c ≠ 38 ∧ c ≠ 61 := by
  rw [encoded_eq] at h
  obtain ⟨b, -, hc⟩ := List.mem_flatMap.1 h
  exact encodedByte_safe hc

/-- `form::encoded` is idempotent. -/
theorem encoded_encoded (value : Bytes) : encoded (encoded value) = encoded value := by
  have hstable : ∀ bs : Bytes, (∀ c ∈ bs, dropped c = false ∧ encodedByte c = [c]) →
      encoded bs = bs := by
    intro bs
    induction bs with
    | nil => exact fun _ => rfl
    | cons b bs ih =>
      intro h
      obtain ⟨hdrop, hbyte⟩ := h b List.mem_cons_self
      have hrest := ih fun c hc => h c (List.mem_cons_of_mem b hc)
      unfold encoded at hrest ⊢
      rw [List.flatMap_cons, hrest, hdrop, hbyte]
      rfl
  exact hstable _ fun c hc => ⟨(encoded_safe hc).1, (encoded_safe hc).2.1⟩

theorem uriMarks_plain {c : UInt8} (h : c ∈ uriMarks) : c ≠ 37 ∧ c ≠ 43 ∧ 32 < c := by
  have hall : uriMarks.all (fun c => c != 37 && c != 43 && decide (32 < c)) = true := by decide
  simpa [and_assoc] using List.all_eq_true.1 hall c h

theorem uriByte_cases (b : UInt8) :
    uriByte b = escape b ∨ uriByte b = [b] ∧ b ≠ 37 ∧ b ≠ 43 ∧ 32 < b := by
  unfold uriByte
  split_ifs with hb
  · refine .inr ⟨rfl, ?_⟩
    rcases hb with hb | hb
    · unfold asciiAlphanumeric at hb
      grind
    · exact uriMarks_plain hb
  · exact .inl rfl

theorem uriByte_kept {b c : UInt8} (h : c ∈ uriByte b) : dropped c = false := by
  have hlt : 32 < c := by
    rcases uriByte_cases b with hb | ⟨hb, -, -, hlt⟩
    · rw [hb] at h
      exact (escapeByte_range (escapeByte_of_mem h)).1
    · rw [hb, List.mem_singleton] at h
      exact h ▸ hlt
  unfold dropped
  grind

/-- A raw value is decoded to itself. -/
theorem decodeText_raw (value : Bytes) : decodeText (raw value) = value := by
  have hkept : stripped (value.flatMap uriByte) = value.flatMap uriByte := by
    refine List.filter_eq_self.2 fun c hc => ?_
    obtain ⟨b, -, hc⟩ := List.mem_flatMap.1 hc
    rw [uriByte_kept hc]
    rfl
  unfold raw
  rw [decodeText_encoded, hkept]
  refine decodeText_flatMap (fun b rest => ?_) value
  rcases uriByte_cases b with hb | ⟨hb, hpercent, hplus, -⟩
  · rw [hb, decodeText_append_escape]
  · rw [hb, List.singleton_append, decodeText_cons hpercent hplus]

/-! ### The wire -/

theorem intercalate_cons (x : Bytes) (xs : List Bytes) :
    [38].intercalate (x :: xs) = x ++ xs.flatMap fun y => 38 :: y := by
  induction xs generalizing x with
  | nil => simp
  | cons y xs ih => rw [List.intercalate_cons_cons, ih, List.flatMap_cons]; simp

/-- The fields are joined by `&`. -/
theorem wire_eq_intercalate (fields : List (String × Bytes)) :
    wire fields = [38].intercalate (fields.map fun f => joinPair (utf8 f.1, f.2)) := by
  have hfold : ∀ (fields : List (String × Bytes)) (body : Bytes), body ≠ [] →
      fields.foldl (fun body f => (if body.isEmpty then body else body ++ [38]) ++ utf8 f.1 ++
        [61] ++ f.2) body = body ++ fields.flatMap fun f => 38 :: joinPair (utf8 f.1, f.2) := by
    intro fields
    induction fields with
    | nil => simp
    | cons f fields ih =>
      intro body hbody
      have hempty : body.isEmpty = false := by simpa using hbody
      rw [List.foldl_cons, hempty, ih _ (by simp), List.flatMap_cons]
      simp [joinPair]
  cases fields with
  | nil => rfl
  | cons f fields =>
    rw [wire, List.foldl_cons, hfold fields _ (by simp), List.map_cons, intercalate_cons]
    simp [joinPair, List.flatMap_map]

theorem wire_append (fields : List (String × Bytes)) (f : String × Bytes) :
    wire (fields ++ [f]) = (if (wire fields).isEmpty then wire fields else wire fields ++ [38]) ++
      utf8 f.1 ++ [61] ++ f.2 := by
  unfold wire
  rw [List.foldl_append]
  rfl

theorem wire_ne_nil {fields : List (String × Bytes)} (h : fields ≠ []) : wire fields ≠ [] := by
  cases fields with
  | nil => exact absurd rfl h
  | cons f fields =>
    rw [wire_eq_intercalate, List.map_cons, intercalate_cons]
    simp [joinPair]

/-! ### The signed text -/

/-- The text that is signed: the last value of each name, in ascending order of the names, without
`item_name` and `item_desc`. -/
def SignedText (pairs : List (String × Bytes)) (text : Bytes) : Prop :=
  ∃ values, SortedMap.Sorted values ∧
    (∀ name, SortedMap.get name values =
      (pairs.reverse.find? fun pair => pair.1 = name).map Prod.snd) ∧
    text = signedText values

theorem decoded_eq_ok {value bytes : Bytes} (h : decoded value = .ok bytes) :
    bytes = decodeText value := by
  unfold decoded at h
  dsimp only at h
  split_ifs at h
  cases h
  rfl

/-- The loop over the fields keeps the last value of each name. -/
theorem lastValues {fields : List (String × Bytes)} {values : List (String × Bytes)}
    (h : fields.foldlM (fun values f => do
      return SortedMap.insert f.1 (← decoded f.2) values) [] = .ok values) :
    SortedMap.Sorted values ∧ ∀ name, SortedMap.get name values =
      ((fields.map fun f => (f.1, decodeText f.2)).reverse.find? fun pair =>
        pair.1 = name).map Prod.snd := by
  induction fields using List.reverseRecOn generalizing values with
  | nil =>
    cases h
    exact ⟨SortedMap.sorted_nil, fun _ => rfl⟩
  | append_singleton fields f ih =>
    rw [List.foldlM_append, Except.bind_eq_ok] at h
    obtain ⟨before, hbefore, hlast⟩ := h
    obtain ⟨hsorted, hget⟩ := ih hbefore
    rw [List.foldlM_cons, Except.bind_eq_ok] at hlast
    obtain ⟨_, hlast, ⟨⟩⟩ := hlast
    obtain ⟨bytes, hbytes, hvalues⟩ := Except.bind_eq_ok.1 hlast
    obtain rfl := decoded_eq_ok hbytes
    obtain rfl := Except.pure_eq_ok.1 hvalues
    refine ⟨hsorted.insert f.1 _, fun name => ?_⟩
    rw [SortedMap.get_insert, List.map_append, List.reverse_append, List.map_singleton,
      List.reverse_singleton, List.singleton_append, List.find?_cons]
    by_cases hname : name = f.1
    · simp [hname]
    · have hne : decide (f.1 = name) = false := decide_eq_false fun h => hname h.symm
      rw [if_neg hname, hne, hget]

/-! ### Names, numbers and digests -/

/-- The names on the wire, without `sign`. -/
def wireNames : List String :=
  businessFields ++ COMMON_FIELDS ++ ["uid", "mid", "timestamp", "web_code", "sign"]

/-- Text that is written as it is: no `%` and `+`, and no separator. -/
def Literal (bs : Bytes) : Prop := ∀ b ∈ bs, b ≠ 37 ∧ b ≠ 43 ∧ b ≠ 38 ∧ b ≠ 61

theorem Literal.decodeText {bs : Bytes} (h : Literal bs) : decodeText bs = bs :=
  decodeText_of_plain fun b hb => ⟨(h b hb).1, (h b hb).2.1⟩

theorem literal_name {name : String} (h : name ∈ wireNames) : Literal (utf8 name) := by
  have hall : wireNames.all (fun name => (utf8 name).all fun b =>
      b != 37 && b != 43 && b != 38 && b != 61) = true := by decide +kernel
  have hname := List.all_eq_true.1 hall name h
  intro b hb
  simpa [and_assoc] using List.all_eq_true.1 hname b hb

theorem literal_number (n : ℕ) : Literal (utf8 (toString n)) := by
  intro b hb
  obtain ⟨c, hc, hbc⟩ := List.mem_flatMap.1 hb
  have hdigit : c.isDigit = true := by
    have hc' : c ∈ Nat.toDigits 10 n := by simpa using hc
    exact Nat.isDigit_of_mem_toDigits (by decide) (by decide) hc'
  have hrange := Char.isDigit_iff_toNat.1 hdigit
  have h0 : '0'.toNat = 48 := rfl
  have h9 : '9'.toNat = 57 := rfl
  have hle : c.val.toNat ≤ 0x7f := by
    have hc : c.val.toNat = c.toNat := rfl
    omega
  have hb' : b.toNat = c.toNat := by
    rw [String.utf8EncodeChar, if_pos hle, List.mem_singleton] at hbc
    rw [hbc, UInt8.toNat_ofNat']
    exact Nat.mod_eq_of_lt (by omega)
  have hne : ∀ m : UInt8, m.toNat < 48 ∨ 57 < m.toNat → b ≠ m := by
    rintro m hm rfl
    omega
  exact ⟨hne _ (by decide), hne _ (by decide), hne _ (by decide), hne _ (by decide)⟩

theorem literal_lowerDigit : ∀ b : UInt8,
    (lowerDigit (b / 16) ≠ 37 ∧ lowerDigit (b / 16) ≠ 43 ∧ lowerDigit (b / 16) ≠ 38 ∧
      lowerDigit (b / 16) ≠ 61) ∧
    (lowerDigit (b % 16) ≠ 37 ∧ lowerDigit (b % 16) ≠ 43 ∧ lowerDigit (b % 16) ≠ 38 ∧
      lowerDigit (b % 16) ≠ 61) := by
  decide +kernel

theorem literal_hexLower (digest : Bytes) : Literal (hexLower digest) := by
  intro b hb
  obtain ⟨c, -, hc⟩ := List.mem_flatMap.1 hb
  simp only [List.mem_cons, List.not_mem_nil, or_false] at hc
  rcases hc with rfl | rfl
  · exact (literal_lowerDigit c).1
  · exact (literal_lowerDigit c).2

/-! ### The form -/

/-- The value that a caller means: a raw value is meant literally. -/
def plainValue (alreadyEncoded : Bool) (value : Bytes) : Bytes :=
  if alreadyEncoded then decodeText (stripped value) else value

/-- The pairs that a caller means, in their order. -/
def plainPairs (parameters : CommonParameters) (fields : List (String × Bytes))
    (alreadyEncoded : Bool) (currentUser : Option CurrentSdkUser) (timestampMs : ℕ) :
    List (String × Bytes) :=
  (fields ++ userFields currentUser).map (fun f => (f.1, plainValue alreadyEncoded f.2)) ++
    parameters.values.map (fun f => (f.1, plainValue true f.2)) ++
    [("timestamp", utf8 (toString timestampMs)), ("web_code", utf8 "6")]

/-- The fields as they are written. -/
def wireFields (parameters : CommonParameters) (fields : List (String × Bytes))
    (alreadyEncoded : Bool) (currentUser : Option CurrentSdkUser) (timestampMs : ℕ) :
    List (String × Bytes) :=
  (fields ++ userFields currentUser).map
      (fun f => (f.1, if alreadyEncoded then encoded f.2 else raw f.2)) ++
    parameters.values.map (fun f => (f.1, encoded f.2)) ++
    [("timestamp", utf8 (toString timestampMs)), ("web_code", utf8 "6")]

variable {md5 : Bytes → Bytes} {parameters : CommonParameters} {key body : Bytes}
variable {fields : List (String × Bytes)} {alreadyEncoded : Bool}
variable {currentUser : Option CurrentSdkUser} {timestampMs : ℕ}

/-- What the server reads of the written fields. -/
theorem map_wireFields : (wireFields parameters fields alreadyEncoded currentUser timestampMs).map
    (fun f => (f.1, decodeText f.2)) =
      plainPairs parameters fields alreadyEncoded currentUser timestampMs := by
  have hvalue : ∀ v, decodeText (if alreadyEncoded then encoded v else raw v) =
      plainValue alreadyEncoded v := by
    intro v
    cases alreadyEncoded with
    | true => exact decodeText_encoded v
    | false => exact decodeText_raw v
  have hcommon : ∀ v, decodeText (encoded v) = plainValue true v := decodeText_encoded
  unfold wireFields plainPairs
  simp only [List.map_append, List.map_map, Function.comp_def, hvalue, hcommon, List.map_cons,
    List.map_nil, (literal_number timestampMs).decodeText]
  rfl

theorem wireFields_safe (hfields : ∀ f ∈ fields, f.1 ∈ businessFields) {f : String × Bytes}
    (hf : f ∈ wireFields parameters fields alreadyEncoded currentUser timestampMs) :
    f.1 ∈ wireNames ∧ (38 : UInt8) ∉ f.2 := by
  have hencoded : ∀ v, (38 : UInt8) ∉ encoded v := fun v hmem => (encoded_safe hmem).2.2.1 rfl
  have hvalue : ∀ v, (38 : UInt8) ∉ if alreadyEncoded then encoded v else raw v := by
    intro v
    split_ifs
    · exact hencoded v
    · exact hencoded _
  unfold wireFields at hf
  simp only [List.mem_append, List.mem_map, List.mem_cons, List.not_mem_nil, or_false] at hf
  rcases hf with (⟨e, he, rfl⟩ | ⟨e, he, rfl⟩) | rfl | rfl
  · refine ⟨?_, hvalue e.2⟩
    rcases he with he | he
    · exact List.mem_append_left _ (List.mem_append_left _ (hfields e he))
    · cases currentUser with
      | none => cases he
      | some user =>
        simp only [userFields, List.mem_cons, List.not_mem_nil, or_false] at he
        rcases he with rfl | rfl <;> exact List.mem_append_right _ (by simp)
  · exact ⟨List.mem_append_left _ (List.mem_append_right _ (parameters.known e he)),
      hencoded e.2⟩
  · exact ⟨List.mem_append_right _ (by simp), fun h => (literal_number timestampMs _ h).2.2.1 rfl⟩
  · exact ⟨List.mem_append_right _ (by simp), by decide⟩

/-- A form that is returned is the written fields, followed by the signature of their values. -/
theorem form_eq_ok (h : form md5 parameters key fields alreadyEncoded currentUser timestampMs =
    .ok body) : ∃ text,
      SignedText (plainPairs parameters fields alreadyEncoded currentUser timestampMs) text ∧
      body = wire (wireFields parameters fields alreadyEncoded currentUser timestampMs ++
        [("sign", hexLower (md5 (text ++ key)))]) := by
  unfold form at h
  obtain ⟨-, -, h⟩ := Except.bind_eq_ok.1 h
  obtain ⟨values, hvalues, h⟩ := Except.bind_eq_ok.1 h
  obtain ⟨-, -, h⟩ := Except.bind_eq_ok.1 h
  obtain rfl := Except.pure_eq_ok.1 h
  obtain ⟨hsorted, hget⟩ := lastValues hvalues
  refine ⟨signedText values, ⟨values, hsorted, fun name => ?_, rfl⟩, ?_⟩
  · rw [← map_wireFields]
    exact hget name
  · have hne : wire (wireFields parameters fields alreadyEncoded currentUser timestampMs) ≠ [] := by
      refine wire_ne_nil fun hnil => ?_
      simp [wireFields] at hnil
    have hsign : utf8 "&sign=" = [38] ++ utf8 "sign" ++ [61] := by decide
    rw [wire_append, if_neg (by simpa using hne)]
    show wire (wireFields parameters fields alreadyEncoded currentUser timestampMs) ++
      utf8 "&sign=" ++ _ = _
    rw [hsign]
    simp

/-- **The signature covers the pairs on the wire.**  A server that decodes the body reads exactly
the pairs that the caller means, in their order, followed by the signature: the digest of the last
value of each name, in ascending order of the names, and the key.  Encoding is idempotent. -/
theorem form_signed (md5 : Bytes → Bytes) (parameters : CommonParameters) (key body : Bytes)
    (fields : List (String × Bytes)) (hfields : ∀ f ∈ fields, f.1 ∈ businessFields)
    (alreadyEncoded : Bool) (currentUser : Option CurrentSdkUser) (timestampMs : ℕ)
    (h : form md5 parameters key fields alreadyEncoded currentUser timestampMs = .ok body) :
    (∃ text, SignedText (plainPairs parameters fields alreadyEncoded currentUser timestampMs) text ∧
      formPairs body =
        (plainPairs parameters fields alreadyEncoded currentUser timestampMs).map
          (fun pair => (utf8 pair.1, pair.2)) ++
        [(utf8 "sign", hexLower (md5 (text ++ key)))]) ∧
    ∀ value, encoded (encoded value) = encoded value := by
  refine ⟨?_, encoded_encoded⟩
  obtain ⟨text, htext, rfl⟩ := form_eq_ok h
  refine ⟨text, htext, ?_⟩
  generalize hsign : hexLower (md5 (text ++ key)) = signature
  have hliteral : Literal signature := hsign ▸ literal_hexLower _
  have hsignName : "sign" ∈ wireNames := by decide
  have hsafe : ∀ f ∈ wireFields parameters fields alreadyEncoded currentUser timestampMs ++
      [("sign", signature)], f.1 ∈ wireNames ∧ (38 : UInt8) ∉ f.2 := by
    intro f hf
    rcases List.mem_append.1 hf with hf | hf
    · exact wireFields_safe hfields hf
    · obtain rfl := List.mem_singleton.1 hf
      exact ⟨hsignName, fun h => (hliteral _ h).2.2.1 rfl⟩
  have hjoin : ∀ fs : List (String × Bytes), fs.map (fun f => joinPair (utf8 f.1, f.2)) =
      (fs.map fun f => (utf8 f.1, f.2)).map joinPair := by
    intro fs
    rw [List.map_map]
    rfl
  rw [wire_eq_intercalate, hjoin, formPairs_join (by simp)]
  · rw [List.map_map, List.map_append, ← map_wireFields, List.map_map]
    congr 1
    · refine List.map_congr_left fun f hf => ?_
      have hname := literal_name (hsafe f (List.mem_append_left _ hf)).1
      simp [hname.decodeText]
    · simp [(literal_name hsignName).decodeText, hliteral.decodeText]
  · intro pair hpair
    obtain ⟨f, hf, rfl⟩ := List.mem_map.1 hpair
    have hname := literal_name (hsafe f hf).1
    exact ⟨fun h => (hname _ h).2.2.1 rfl, fun h => (hname _ h).2.2.2 rfl⟩
  · intro pair hpair
    obtain ⟨f, hf, rfl⟩ := List.mem_map.1 hpair
    exact (hsafe f hf).2

/-! ### A cache login -/

theorem decoded_of_utf8 {value : Bytes} {s : String} (h : decodeText value = utf8 s) :
    decoded value = .ok (utf8 s) := by
  simp [decoded, h, ofUtf8?_utf8]

/-- MD5 on the text that is signed below. -/
def sampleMd5 (text : Bytes) : Bytes :=
  if text = utf8 "a b+16k" then
    [153, 47, 6, 79, 118, 103, 192, 189, 119, 121, 253, 68, 121, 130, 206, 71]
  else []

/-- All common parameters are null. -/
def noParameters : CommonParameters := ⟨[], SortedMap.sorted_nil, nofun⟩

def sampleBody : Bytes :=
  utf8 "access_key=a+b%2B&timestamp=1&web_code=6&sign=992f064f7667c0bd7779fd447982ce47"

theorem form_sample : form sampleMd5 noParameters (utf8 "k") [("access_key", utf8 "a+b%2B")] true
    none 1 = .ok sampleBody := by
  have hkey : decoded (encoded (utf8 "a+b%2B")) = .ok (utf8 "a b+") :=
    decoded_of_utf8 (by decide +kernel)
  have htime : decoded (utf8 (toString 1)) = .ok (utf8 "1") := decoded_of_utf8 (by decide +kernel)
  have hcode : decoded (utf8 "6") = .ok (utf8 "6") := decoded_of_utf8 (by decide +kernel)
  show signForm sampleMd5 [("access_key", encoded (utf8 "a+b%2B")), ("timestamp", utf8 (toString 1)),
    ("web_code", utf8 "6")] (utf8 "k") = _
  refine Except.bind_eq_ok.2 ⟨[("access_key", utf8 "a b+"), ("timestamp", utf8 "1"),
    ("web_code", utf8 "6")], ?_, ?_⟩
  · simp only [List.foldlM_cons, List.foldlM_nil, hkey, htime, hcode]
    decide +kernel
  · decide +kernel

theorem form_signed_sample : ∃ text,
    SignedText (plainPairs noParameters [("access_key", utf8 "a+b%2B")] true none 1) text ∧
      formPairs sampleBody =
        [(utf8 "access_key", utf8 "a b+"), (utf8 "timestamp", utf8 "1"), (utf8 "web_code", utf8 "6"),
          (utf8 "sign", hexLower (sampleMd5 (text ++ utf8 "k")))] := by
  obtain ⟨text, htext, hpairs⟩ := (form_signed sampleMd5 noParameters (utf8 "k") sampleBody
    [("access_key", utf8 "a+b%2B")] (by simp [businessFields]) true none 1 form_sample).1
  have hplain : (plainPairs noParameters [("access_key", utf8 "a+b%2B")] true none 1).map
      (fun pair => (utf8 pair.1, pair.2)) = [(utf8 "access_key", utf8 "a b+"),
        (utf8 "timestamp", utf8 "1"), (utf8 "web_code", utf8 "6")] := by
    decide +kernel
  exact ⟨text, htext, by rw [hpairs, hplain]; rfl⟩

/-! ### The callers -/

theorem optionalField_names {fields out : List (String × Bytes)} {name : String}
    {value : Option Bytes} (hfields : ∀ f ∈ fields, f.1 ∈ businessFields)
    (hname : name ∈ businessFields) (h : optionalField fields name value = .ok out) :
    ∀ f ∈ out, f.1 ∈ businessFields := by
  unfold optionalField at h
  split at h
  · cases h
    exact hfields
  · obtain ⟨-, -, h⟩ := Except.bind_eq_ok.1 h
    obtain rfl := Except.pure_eq_ok.1 h
    intro f hf
    rcases List.mem_append.1 hf with hf | hf
    · exact hfields f hf
    · obtain rfl := List.mem_singleton.1 hf
      exact hname

/-- A password login uses business fields only. -/
theorem passwordFields_names {userId password encrypted : Bytes}
    {accountType : PasswordAccountType} {ticket voucher : Option Bytes}
    {out : List (String × Bytes)}
    (h : passwordFields userId password encrypted accountType ticket voucher = .ok out) :
    ∀ f ∈ out, f.1 ∈ businessFields := by
  unfold passwordFields at h
  obtain ⟨-, -, h⟩ := Except.bind_eq_ok.1 h
  obtain ⟨-, -, h⟩ := Except.bind_eq_ok.1 h
  obtain ⟨withTicket, hticket, h⟩ := Except.bind_eq_ok.1 h
  obtain ⟨withVoucher, hvoucher, h⟩ := Except.bind_eq_ok.1 h
  have hfirst : ∀ f ∈ [("user_id", userId), ("pwd", encrypted)], f.1 ∈ businessFields := by
    simp [businessFields]
  have hnames := optionalField_names (optionalField_names hfirst (by decide) hticket) (by decide)
    hvoucher
  have hlast : ∀ countryId type : Bytes, ∀ f ∈ withVoucher ++
      [("country_id", countryId), ("user_id_type", type)], f.1 ∈ businessFields := by
    intro countryId type f hf
    rcases List.mem_append.1 hf with hf | hf
    · exact hnames f hf
    · simp only [List.mem_cons, List.not_mem_nil, or_false] at hf
      rcases hf with rfl | rfl <;> simp [businessFields]
  cases accountType with
  | legacy =>
    obtain rfl := Except.pure_eq_ok.1 h
    exact hnames
  | email countryId | phone countryId =>
    obtain rfl := Except.pure_eq_ok.1 h
    exact hlast _ _

/-- A cache login uses business fields only. -/
theorem cacheFields_names {accessKey : Bytes} {ticket voucher : Option Bytes}
    {out : List (String × Bytes)} (h : cacheFields accessKey ticket voucher = .ok out) :
    ∀ f ∈ out, f.1 ∈ businessFields := by
  unfold cacheFields at h
  obtain ⟨-, -, h⟩ := Except.bind_eq_ok.1 h
  obtain ⟨withTicket, hticket, h⟩ := Except.bind_eq_ok.1 h
  have hfirst : ∀ f ∈ [("access_key", accessKey)], f.1 ∈ businessFields := by
    simp [businessFields]
  exact optionalField_names (optionalField_names hfirst (by decide) hticket) (by decide) h

end MoenotesApi.SdkHttp
