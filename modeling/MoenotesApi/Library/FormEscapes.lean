import MoenotesApi.Library.FormText

/-!
# Well-formed form text

The text of a query string whose escapes are all complete and stand for UTF-8.

* `wellFormed`: every `%` is followed by two hexadecimal digits;
* `Valid`: the bytes are the UTF-8 bytes of some string;
* `wellFormed_split`, `percentDecode_append`, `Valid.split`: all three are compatible with cutting
  a text at a separator;
* `pieces`, `valid_of_mem_pieces`: the names and values of a well-formed text that stands for UTF-8
  are themselves UTF-8;
* `formByte`, `encodePair`, `encodePairs`: the serializer of pairs, whose output is well formed
  (`wellFormed_encodePairs`), stands for UTF-8 and is read back as the pairs.
-/

namespace FormText

/-- The next two bytes are hexadecimal digits. -/
def hexNext : Bytes → Bool
  | h :: l :: _ => (hexValue h).isSome && (hexValue l).isSome
  | _ => false

/-- Every `%` is followed by two hexadecimal digits. -/
def wellFormed : Bytes → Bool
  | [] => true
  | b :: rest => (b ≠ 37 || hexNext rest) && wellFormed rest

/-- A text made of bytes other than `%` and of escapes. -/
inductive Escaped : Bytes → Prop
  | nil : Escaped []
  | plain (b : UInt8) {rest : Bytes} (hb : b ≠ 37) (h : Escaped rest) : Escaped (b :: rest)
  | escape (h l : UInt8) {c : UInt8} {rest : Bytes} (hpair : hexPair h l = some c)
      (hrest : Escaped rest) : Escaped (37 :: h :: l :: rest)

/-- The bytes of a string. -/
def Valid (bs : Bytes) : Prop := ∃ s, utf8 s = bs

/-! ### Well-formed escapes -/

@[simp] theorem wellFormed_nil : wellFormed [] = true := rfl

theorem wellFormed_cons {b : UInt8} {rest : Bytes} :
    wellFormed (b :: rest) = true ↔ (b = 37 → hexNext rest = true) ∧ wellFormed rest = true := by
  rw [wellFormed, Bool.and_eq_true, Bool.or_eq_true, decide_eq_true_eq]
  tauto

theorem wellFormed_cons_of_ne {b : UInt8} (hb : b ≠ 37) (rest : Bytes) :
    wellFormed (b :: rest) = wellFormed rest := by
  rw [Bool.eq_iff_iff, wellFormed_cons, and_iff_right fun h => absurd h hb]

theorem hexValue_percent : hexValue 37 = none := by decide

theorem hexPair_isSome {h l : UInt8} :
    (hexPair h l).isSome = true ↔ (hexValue h).isSome = true ∧ (hexValue l).isSome = true := by
  rw [hexPair]
  cases hexValue h <;> cases hexValue l <;> simp

/-- A hexadecimal digit is not `%`. -/
theorem ne_percent_of_hexValue {b : UInt8} (h : (hexValue b).isSome = true) : b ≠ 37 := by
  rintro rfl
  rw [hexValue_percent] at h
  cases h

theorem wellFormed_escape {h l : UInt8} (hpair : (hexPair h l).isSome = true) (rest : Bytes) :
    wellFormed (37 :: h :: l :: rest) = wellFormed rest := by
  obtain ⟨hh, hl⟩ := hexPair_isSome.1 hpair
  have hnext : hexNext (h :: l :: rest) = true := by simp [hexNext, hh, hl]
  rw [Bool.eq_iff_iff, wellFormed_cons, and_iff_right fun _ => hnext,
    wellFormed_cons_of_ne (ne_percent_of_hexValue hh),
    wellFormed_cons_of_ne (ne_percent_of_hexValue hl)]

theorem Escaped.wellFormed {bs : Bytes} (h : Escaped bs) : FormText.wellFormed bs = true := by
  induction h with
  | nil => rfl
  | plain b hb _ ih => rwa [wellFormed_cons_of_ne hb]
  | escape h l hpair _ ih => rwa [wellFormed_escape (by rw [hpair]; rfl)]

theorem escaped_of_wellFormed {bs : Bytes} (hbs : wellFormed bs = true) : Escaped bs := by
  induction hn : bs.length using Nat.strong_induction_on generalizing bs with
  | _ n ih =>
  subst hn
  cases bs with
  | nil => exact .nil
  | cons b rest =>
    by_cases hb : b = 37
    · subst hb
      obtain ⟨hnext, -⟩ := wellFormed_cons.1 hbs
      match rest, hnext rfl with
      | h :: l :: rest, hnext =>
        have hpair : (hexPair h l).isSome = true := by
          rw [hexPair_isSome]
          simpa [hexNext] using hnext
        rw [wellFormed_escape hpair] at hbs
        obtain ⟨c, hc⟩ := Option.isSome_iff_exists.1 hpair
        exact .escape h l hc (ih rest.length (by simp only [List.length_cons]; omega) hbs rfl)
    · rw [wellFormed_cons_of_ne hb] at hbs
      exact .plain b hb (ih rest.length (by simp) hbs rfl)

theorem wellFormed_append {a : Bytes} (ha : wellFormed a = true) (b : Bytes) :
    wellFormed (a ++ b) = wellFormed b := by
  induction escaped_of_wellFormed ha with
  | nil => rfl
  | plain c hc hrest ih => rw [List.cons_append, wellFormed_cons_of_ne hc, ih hrest.wellFormed]
  | escape h l hc hrest ih =>
    rw [List.cons_append, List.cons_append, List.cons_append, wellFormed_escape (by rw [hc]; rfl),
      ih hrest.wellFormed]

theorem percentDecode_append {a : Bytes} (ha : wellFormed a = true) (b : Bytes) :
    percentDecode (a ++ b) = percentDecode a ++ percentDecode b := by
  induction escaped_of_wellFormed ha with
  | nil => rfl
  | plain c hc hrest ih =>
    rw [List.cons_append, percentDecode_cons_of_ne hc, percentDecode_cons_of_ne hc,
      ih hrest.wellFormed, List.cons_append]
  | escape h l hc hrest ih =>
    rw [List.cons_append, List.cons_append, List.cons_append, percentDecode_hexPair hc,
      percentDecode_hexPair hc, ih hrest.wellFormed, List.cons_append]

/-- A byte at which a text can be cut: it is not part of any escape. -/
def separator (b : UInt8) : Bool := b ≠ 37 && (hexValue b).isNone

theorem hexNext_of_append {a b : Bytes} {x : UInt8} (hx : separator x = true)
    (h : hexNext (a ++ x :: b) = true) : hexNext a = true := by
  have hnone : hexValue x = none := by simpa using (Bool.and_eq_true_iff.1 hx).2
  match a, h with
  | [], h =>
    cases b with
    | nil => cases h
    | cons y b => simp [hexNext, hnone] at h
  | [c], h => simp [hexNext, hnone] at h
  | c :: d :: a, h => exact h

/-- Both sides of a separator are well formed. -/
theorem wellFormed_split {a b : Bytes} {x : UInt8} (hx : separator x = true)
    (h : wellFormed (a ++ x :: b) = true) : wellFormed a = true ∧ wellFormed b = true := by
  induction a with
  | nil =>
    rw [List.nil_append, wellFormed_cons] at h
    exact ⟨rfl, h.2⟩
  | cons c a ih =>
    rw [List.cons_append, wellFormed_cons] at h
    obtain ⟨ha, hb⟩ := ih h.2
    exact ⟨wellFormed_cons.2 ⟨fun hc => hexNext_of_append hx (h.1 hc), ha⟩, hb⟩

theorem percentDecode_split {a b : Bytes} {x : UInt8} (hx : separator x = true)
    (h : wellFormed (a ++ x :: b) = true) :
    percentDecode (a ++ x :: b) = percentDecode a ++ x :: percentDecode b := by
  have hne : x ≠ 37 := by simpa using (Bool.and_eq_true_iff.1 hx).1
  rw [percentDecode_append (wellFormed_split hx h).1, percentDecode_cons_of_ne hne]

/-! ### UTF-8 -/

theorem utf8_ofList (cs : List Char) :
    utf8 (String.ofList cs) = cs.flatMap String.utf8EncodeChar := by
  rw [utf8, String.toList_ofList]

theorem le_or : ∀ x : UInt8,
    128 ≤ x ||| 128 ∧ 128 ≤ x ||| 192 ∧ 128 ≤ x ||| 224 ∧ 128 ≤ x ||| 240 := by
  decide +kernel

/-- A character is one ASCII byte, or it has no ASCII byte. -/
theorem utf8EncodeChar_cases (c : Char) :
    (∃ b < 128, String.utf8EncodeChar c = [b]) ∨ ∀ b ∈ String.utf8EncodeChar c, 128 ≤ b := by
  rcases c.utf8Size_eq with hsize | hsize | hsize | hsize
  · refine .inl ⟨c.val.toUInt8, ?_, String.utf8EncodeChar_eq_singleton hsize⟩
    have hval : c.val ≤ 127 := Char.utf8Size_eq_one_iff.1 hsize
    rw [UInt8.lt_iff_toNat_lt, UInt32.toNat_toUInt8]
    rw [UInt32.le_iff_toNat_le] at hval
    exact lt_of_le_of_lt (Nat.mod_le _ _) (Nat.lt_succ_of_le hval)
  all_goals right
  · rw [String.utf8EncodeChar_eq_cons_cons hsize]
    simp only [List.forall_mem_cons]
    exact ⟨(le_or _).2.1, (le_or _).1, nofun⟩
  · rw [String.utf8EncodeChar_eq_cons_cons_cons hsize]
    simp only [List.forall_mem_cons]
    exact ⟨(le_or _).2.2.1, (le_or _).1, (le_or _).1, nofun⟩
  · rw [String.utf8EncodeChar_eq_cons_cons_cons_cons hsize]
    simp only [List.forall_mem_cons]
    exact ⟨(le_or _).2.2.2, (le_or _).1, (le_or _).1, (le_or _).1, nofun⟩

/-- An ASCII byte is a character. -/
theorem exists_char_of_lt {b : UInt8} (hb : b < 128) : ∃ c, String.utf8EncodeChar c = [b] := by
  have hchar : ∀ b : UInt8, b < 128 → String.utf8EncodeChar (Char.ofNat b.toNat) = [b] := by
    decide +kernel
  exact ⟨_, hchar b hb⟩

theorem valid_iff {bs : Bytes} :
    Valid bs ↔ ∃ cs : List Char, cs.flatMap String.utf8EncodeChar = bs := by
  constructor
  · rintro ⟨s, rfl⟩
    exact ⟨s.toList, rfl⟩
  · rintro ⟨cs, rfl⟩
    exact ⟨String.ofList cs, utf8_ofList cs⟩

theorem valid_nil : Valid [] := ⟨"", rfl⟩

theorem valid_utf8 (s : String) : Valid (utf8 s) := ⟨s, rfl⟩

theorem Valid.append {a b : Bytes} (ha : Valid a) (hb : Valid b) : Valid (a ++ b) := by
  obtain ⟨cs, rfl⟩ := valid_iff.1 ha
  obtain ⟨ds, rfl⟩ := valid_iff.1 hb
  exact valid_iff.2 ⟨cs ++ ds, List.flatMap_append⟩

theorem valid_singleton {b : UInt8} (hb : b < 128) : Valid [b] := by
  obtain ⟨c, hc⟩ := exists_char_of_lt hb
  exact valid_iff.2 ⟨[c], by rw [List.flatMap_cons, hc]; rfl⟩

/-- Both sides of an ASCII byte are UTF-8. -/
theorem Valid.split {a b : Bytes} {x : UInt8} (hx : x < 128) (h : Valid (a ++ x :: b)) :
    Valid a ∧ Valid b := by
  obtain ⟨cs, hcs⟩ := valid_iff.1 h
  clear h
  induction cs generalizing a with
  | nil => simp at hcs
  | cons c cs ih =>
    rw [List.flatMap_cons] at hcs
    rcases utf8EncodeChar_cases c with ⟨y, hy, hc⟩ | hc
    · rw [hc, List.singleton_append] at hcs
      cases a with
      | nil =>
        obtain ⟨rfl, rfl⟩ := List.cons.inj hcs
        exact ⟨valid_nil, valid_iff.2 ⟨cs, rfl⟩⟩
      | cons z a =>
        obtain ⟨rfl, hrest⟩ := List.cons.inj hcs
        obtain ⟨ha, hb⟩ := ih hrest
        exact ⟨(valid_singleton hy).append ha, hb⟩
    · rcases List.append_eq_append_iff.1 hcs with ⟨a', rfl, hrest⟩ | ⟨c', hsplit, hrest⟩
      · obtain ⟨ha, hb⟩ := ih hrest
        refine ⟨Valid.append (valid_iff.2 ⟨[c], by simp⟩) ha, hb⟩
      · -- the byte `x` would be one of the character's
        cases c' with
        | nil =>
          obtain ⟨-, hb⟩ := @ih [] hrest.symm
          rw [List.append_nil] at hsplit
          exact ⟨valid_iff.2 ⟨[c], by simp [hsplit]⟩, hb⟩
        | cons y c' =>
          obtain ⟨rfl, -⟩ := List.cons.inj hrest
          have hmem := hc x (by rw [hsplit]; simp)
          exact absurd hx (UInt8.not_lt.2 hmem)

/-- Replacing ASCII bytes by ASCII bytes keeps a text UTF-8. -/
theorem Valid.of_forall₂ {a b : Bytes} (h : Valid a)
    (hba : List.Forall₂ (fun y x => y = x ∨ x < 128 ∧ y < 128) b a) : Valid b := by
  obtain ⟨cs, rfl⟩ := valid_iff.1 h
  clear h
  induction cs generalizing b with
  | nil =>
    rw [List.flatMap_nil, List.forall₂_nil_right_iff] at hba
    exact hba ▸ valid_nil
  | cons c cs ih =>
    rw [List.flatMap_cons] at hba
    have hhead := List.forall₂_take_append _ _ _ hba
    have htail := List.forall₂_drop_append _ _ _ hba
    rw [← List.take_append_drop (String.utf8EncodeChar c).length b]
    refine Valid.append ?_ (ih htail)
    rcases utf8EncodeChar_cases c with ⟨x, hx, hc⟩ | hc
    · rw [hc] at hhead ⊢
      obtain ⟨y, l, hy, hl, htake⟩ := List.forall₂_cons_right_iff.1 hhead
      rw [List.forall₂_nil_right_iff] at hl
      rw [htake, hl]
      rcases hy with rfl | ⟨-, hy⟩
      · exact valid_singleton hx
      · exact valid_singleton hy
    · -- no byte of this character is changed
      have heq : List.Forall₂ Eq (b.take (String.utf8EncodeChar c).length)
          (String.utf8EncodeChar c) := by
        refine (List.forall₂_iff_zip.2 ⟨hhead.length_eq, fun {y x} hyx => ?_⟩)
        rcases (List.forall₂_iff_zip.1 hhead).2 hyx with h | ⟨hx, -⟩
        · exact h
        · exact absurd hx (UInt8.not_lt.2 (hc x (List.of_mem_zip hyx).2))
      rw [List.forall₂_eq_eq_eq] at heq
      exact valid_iff.2 ⟨[c], by rw [heq]; simp⟩

/-! ### Decoding a well-formed text -/

theorem plusByte_of_hexValue {b : UInt8} (h : (hexValue b).isSome = true) : plusByte b = b := by
  refine if_neg ?_
  rintro rfl
  cases h

/-- With `+` read as a space, a text stands for the same bytes but for the spaces. -/
theorem decodeText_forall₂ {bs : Bytes} (h : wellFormed bs = true) :
    List.Forall₂ (fun y x => y = x ∨ x < 128 ∧ y < 128) (decodeText bs) (percentDecode bs) := by
  unfold decodeText
  induction escaped_of_wellFormed h with
  | nil => exact .nil
  | plain b hb hrest ih =>
    rw [List.map_cons, percentDecode_cons_of_ne hb]
    by_cases hplus : b = 43
    · subst hplus
      rw [show plusByte 43 = 32 from rfl, percentDecode_cons_of_ne (by decide)]
      exact .cons (.inr (by decide)) (ih hrest.wellFormed)
    · rw [show plusByte b = b from if_neg hplus, percentDecode_cons_of_ne hb]
      exact .cons (.inl rfl) (ih hrest.wellFormed)
  | escape x l hpair hrest ih =>
    obtain ⟨hx, hl⟩ := hexPair_isSome.1 (show (hexPair x l).isSome = true by rw [hpair]; rfl)
    rw [List.map_cons, List.map_cons, List.map_cons, plusByte_of_hexValue hx,
      plusByte_of_hexValue hl, show plusByte 37 = 37 from rfl, percentDecode_hexPair hpair,
      percentDecode_hexPair hpair]
    exact .cons (.inl rfl) (ih hrest.wellFormed)

/-- A text whose escapes are complete and stand for UTF-8. -/
def Readable (bs : Bytes) : Prop := wellFormed bs = true ∧ Valid (percentDecode bs)

theorem Readable.valid_decodeText {bs : Bytes} (h : Readable bs) : Valid (decodeText bs) :=
  h.2.of_forall₂ (decodeText_forall₂ h.1)

theorem readable_nil : Readable [] := ⟨rfl, valid_nil⟩

/-- A readable text is readable on both sides of a separator. -/
theorem readable_split {a b : Bytes} {x : UInt8} (hx : separator x = true) (hlt : x < 128) :
    Readable (a ++ x :: b) ↔ Readable a ∧ Readable b := by
  constructor
  · rintro ⟨hwf, hvalid⟩
    obtain ⟨ha, hb⟩ := wellFormed_split hx hwf
    rw [percentDecode_split hx hwf] at hvalid
    obtain ⟨hva, hvb⟩ := hvalid.split hlt
    exact ⟨⟨ha, hva⟩, ⟨hb, hvb⟩⟩
  · rintro ⟨⟨ha, hva⟩, ⟨hb, hvb⟩⟩
    have hne : x ≠ 37 := by simpa using (Bool.and_eq_true_iff.1 hx).1
    have hwf : wellFormed (a ++ x :: b) = true := by
      rw [wellFormed_append ha, wellFormed_cons_of_ne hne, hb]
    refine ⟨hwf, ?_⟩
    rw [percentDecode_split hx hwf]
    exact hva.append ((valid_singleton hlt).append hvb)

/-- Texts with separators between them are readable when each of them is. -/
theorem readable_intercalate {x : UInt8} (hx : separator x = true) (hlt : x < 128)
    {texts : List Bytes} : Readable ([x].intercalate texts) ↔ ∀ t ∈ texts, Readable t := by
  induction texts with
  | nil =>
    rw [List.intercalate_nil]
    exact iff_of_true readable_nil nofun
  | cons t texts ih =>
    cases texts with
    | nil => simp
    | cons t' texts =>
      rw [List.intercalate_cons_cons, List.append_assoc, List.singleton_append,
        readable_split hx hlt, ih]
      exact List.forall_mem_cons.symm

theorem readable_iff_splitOn {body : Bytes} :
    Readable body ↔ ∀ t ∈ body.splitOn 38, Readable t := by
  have hbody : [38].intercalate (body.splitOn 38) = body := List.intercalate_splitOn 38
  conv_lhs => rw [← hbody]
  exact readable_intercalate (by decide) (by decide)

/-! ### Pieces -/

/-- The parts between the `&` that are not empty. -/
def pieces (body : Bytes) : List Bytes := (body.splitOn 38).filter (· ≠ [])

theorem pieces_nil : pieces [] = [] := by
  rw [pieces, List.splitOn_nil]
  rfl

theorem pieces_append (a b : Bytes) : pieces (a ++ 38 :: b) = pieces a ++ pieces b := by
  unfold pieces
  rw [List.splitOn_append_cons_self, List.filter_append]

theorem Readable.pieces {body : Bytes} (h : Readable body) :
    ∀ piece ∈ FormText.pieces body, Readable piece := by
  intro piece hpiece
  exact readable_iff_splitOn.1 h piece (List.mem_filter.1 hpiece).1

/-- A piece is its name alone, or `=` stands between its name and its value. -/
theorem splitPair_cases (piece : Bytes) :
    piece = (splitPair piece).1 ∧ (splitPair piece).2 = [] ∨
      piece = (splitPair piece).1 ++ 61 :: (splitPair piece).2 := by
  have hsplit : piece.takeWhile (· ≠ 61) ++ piece.dropWhile (· ≠ 61) = piece :=
    List.takeWhile_append_dropWhile
  cases hdrop : piece.dropWhile (· ≠ 61) with
  | nil =>
    rw [hdrop, List.append_nil] at hsplit
    exact .inl ⟨hsplit.symm, by rw [splitPair, hdrop]; rfl⟩
  | cons x rest =>
    have hx : ¬decide (x ≠ 61) = true := by
      have hhead := List.head_dropWhile_not (fun b : UInt8 => decide (b ≠ 61)) (by rw [hdrop]; simp)
      simp only [hdrop, List.head_cons] at hhead
      simpa using hhead
    obtain rfl : x = 61 := by simpa using hx
    refine .inr ?_
    rw [splitPair, hdrop, List.tail_cons, ← hdrop, hsplit]

theorem Readable.splitPair {piece : Bytes} (h : Readable piece) :
    Readable (FormText.splitPair piece).1 ∧ Readable (FormText.splitPair piece).2 := by
  rcases splitPair_cases piece with ⟨hname, hvalue⟩ | hsplit
  · rw [hvalue, ← hname]
    exact ⟨h, readable_nil⟩
  · rw [hsplit] at h
    exact (readable_split (by decide) (by decide)).1 h

/-- **The names and values of a readable body are UTF-8.** -/
theorem Readable.valid_pair {body : Bytes} (h : Readable body) :
    ∀ piece ∈ FormText.pieces body, Valid (decodeText (FormText.splitPair piece).1) ∧
      Valid (decodeText (FormText.splitPair piece).2) := by
  intro piece hpiece
  obtain ⟨hname, hvalue⟩ := (h.pieces piece hpiece).splitPair
  exact ⟨hname.valid_decodeText, hvalue.valid_decodeText⟩

/-! ### The serializer -/

/-- The bytes of `*-._` and the ASCII letters and digits, which are written as they are. -/
def unescaped (b : UInt8) : Bool :=
  (48 ≤ b && b ≤ 57) || (65 ≤ b && b ≤ 90) || (97 ≤ b && b ≤ 122) || b = 42 || b = 45 || b = 46 ||
    b = 95

def formByte (b : UInt8) : Bytes := if unescaped b then [b] else if b = 32 then [43] else escape b

def encodePair (pair : String × String) : Bytes :=
  joinPair ((utf8 pair.1).flatMap formByte, (utf8 pair.2).flatMap formByte)

def encodePairs (pairs : List (String × String)) : Bytes := [38].intercalate (pairs.map encodePair)

theorem unescaped_ne : ∀ {b : UInt8}, unescaped b = true → b ≠ 37 ∧ b ≠ 38 ∧ b ≠ 43 ∧ b ≠ 61 := by
  decide +kernel

/-- A byte is written as itself, as `+` or as an escape. -/
theorem formByte_cases (b : UInt8) :
    unescaped b = true ∧ formByte b = [b] ∨ b = 32 ∧ formByte b = [43] ∨ formByte b = escape b := by
  unfold formByte
  split_ifs with h hspace
  · exact .inl ⟨h, rfl⟩
  · exact .inr (.inl ⟨hspace, rfl⟩)
  · exact .inr (.inr rfl)

theorem decodeText_formByte (b : UInt8) (rest : Bytes) :
    decodeText (formByte b ++ rest) = b :: decodeText rest := by
  rcases formByte_cases b with ⟨hb, heq⟩ | ⟨rfl, heq⟩ | heq
  · obtain ⟨hpercent, -, hplus, -⟩ := unescaped_ne hb
    rw [heq, List.singleton_append, decodeText_cons hpercent hplus]
  · rw [heq, List.singleton_append, decodeText_plus]
  · rw [heq, decodeText_append_escape]

/-- The encoded bytes are none of the separators. -/
theorem ne_of_mem_formByte {b c : UInt8} (h : c ∈ formByte b) : c ≠ 38 ∧ c ≠ 61 := by
  rcases formByte_cases b with ⟨hb, heq⟩ | ⟨-, heq⟩ | heq
  · obtain ⟨-, hamp, -, heq'⟩ := unescaped_ne hb
    rw [heq, List.mem_singleton] at h
    exact h ▸ ⟨hamp, heq'⟩
  · rw [heq, List.mem_singleton] at h
    exact h ▸ by decide
  · rw [heq] at h
    obtain ⟨-, -, hamp, -, heq'⟩ := escapeByte_range (escapeByte_of_mem h)
    exact ⟨hamp, heq'⟩

theorem wellFormed_flatMap_formByte (bs : Bytes) : wellFormed (bs.flatMap formByte) = true := by
  induction bs with
  | nil => rfl
  | cons b bs ih =>
    rw [List.flatMap_cons]
    rcases formByte_cases b with ⟨hb, heq⟩ | ⟨-, heq⟩ | heq
    · rw [heq, List.singleton_append, wellFormed_cons_of_ne (unescaped_ne hb).1, ih]
    · rw [heq, List.singleton_append, wellFormed_cons_of_ne (by decide), ih]
    · have hpair : (hexPair (hexDigit (b / 16)) (hexDigit (b % 16))).isSome = true := by
        rw [hexPair_hexDigit]
        rfl
      rw [heq, escape, List.cons_append, List.cons_append, List.singleton_append,
        wellFormed_escape hpair, ih]

theorem percentDecode_flatMap_formByte (bs : Bytes) :
    List.Forall₂ (fun y x => y = x ∨ x < 128 ∧ y < 128)
      (percentDecode (bs.flatMap formByte)) bs := by
  induction bs with
  | nil => exact .nil
  | cons b bs ih =>
    rw [List.flatMap_cons]
    rcases formByte_cases b with ⟨hb, heq⟩ | ⟨rfl, heq⟩ | heq
    · rw [heq, List.singleton_append, percentDecode_cons_of_ne (unescaped_ne hb).1]
      exact .cons (.inl rfl) ih
    · rw [heq, List.singleton_append, percentDecode_cons_of_ne (by decide)]
      exact .cons (.inr (by decide)) ih
    · rw [heq, percentDecode_escape]
      exact .cons (.inl rfl) ih

theorem readable_text (s : String) : Readable ((utf8 s).flatMap formByte) :=
  ⟨wellFormed_flatMap_formByte _, (valid_utf8 s).of_forall₂ (percentDecode_flatMap_formByte _)⟩

theorem readable_encodePair (pair : String × String) : Readable (encodePair pair) :=
  (readable_split (by decide) (by decide)).2 ⟨readable_text pair.1, readable_text pair.2⟩

/-- The text of some pairs is readable. -/
theorem readable_encodePairs (pairs : List (String × String)) : Readable (encodePairs pairs) := by
  refine (readable_intercalate (by decide) (by decide)).2 fun t ht => ?_
  obtain ⟨pair, -, rfl⟩ := List.mem_map.1 ht
  exact readable_encodePair pair

/-- Encoded bytes are ASCII. -/
theorem lt_of_mem_formByte {b c : UInt8} (h : c ∈ formByte b) : c < 128 := by
  have hunescaped : ∀ {b : UInt8}, unescaped b = true → b < 128 := by
    decide +kernel
  rcases formByte_cases b with ⟨hb, heq⟩ | ⟨-, heq⟩ | heq
  · rw [heq, List.mem_singleton] at h
    exact h ▸ hunescaped hb
  · rw [heq, List.mem_singleton] at h
    exact h ▸ by decide
  · rw [heq] at h
    obtain ⟨-, hlt, -⟩ := escapeByte_range (escapeByte_of_mem h)
    exact UInt8.lt_trans hlt (by decide)

theorem valid_of_ascii {bs : Bytes} (h : ∀ b ∈ bs, b < 128) : Valid bs := by
  induction bs with
  | nil => exact valid_nil
  | cons b bs ih =>
    rw [List.forall_mem_cons] at h
    exact (valid_singleton h.1).append (ih h.2)

theorem valid_encodePair (pair : String × String) : Valid (encodePair pair) := by
  have htext : ∀ s : String, Valid ((utf8 s).flatMap formByte) := by
    intro s
    refine valid_of_ascii fun b hb => ?_
    obtain ⟨c, -, hc⟩ := List.mem_flatMap.1 hb
    exact lt_of_mem_formByte hc
  exact (htext pair.1).append ((valid_singleton (by decide : (61 : UInt8) < 128)).append (htext pair.2))

/-- The text of some pairs is the text of a string. -/
theorem valid_encodePairs (pairs : List (String × String)) : Valid (encodePairs pairs) := by
  unfold encodePairs
  induction pairs with
  | nil => exact valid_nil
  | cons pair pairs ih =>
    cases pairs with
    | nil => simpa using valid_encodePair pair
    | cons pair' pairs =>
      rw [List.map_cons, List.map_cons, List.intercalate_cons_cons]
      exact ((valid_encodePair pair).append (valid_singleton (by decide))).append ih

theorem splitPair_encodePair (pair : String × String) :
    (splitPair (encodePair pair)).map decodeText decodeText = (utf8 pair.1, utf8 pair.2) := by
  have hname : (61 : UInt8) ∉ (utf8 pair.1).flatMap formByte := by
    intro hmem
    obtain ⟨b, -, hb⟩ := List.mem_flatMap.1 hmem
    exact (ne_of_mem_formByte hb).2 rfl
  rw [encodePair, splitPair_joinPair hname, Prod.map_apply,
    decodeText_flatMap decodeText_formByte, decodeText_flatMap decodeText_formByte]

/-- The pieces of the text of some pairs are the texts of the pairs. -/
theorem pieces_encodePairs (pairs : List (String × String)) :
    pieces (encodePairs pairs) = pairs.map encodePair := by
  have hmem : ∀ pair ∈ pairs, (38 : UInt8) ∉ encodePair pair := by
    intro pair _ h
    simp only [encodePair, joinPair, List.mem_append, List.mem_cons, List.mem_flatMap] at h
    rcases h with ⟨b, -, hb⟩ | h | ⟨b, -, hb⟩
    · exact (ne_of_mem_formByte hb).1 rfl
    · cases h
    · exact (ne_of_mem_formByte hb).1 rfl
  have hne : ∀ piece ∈ pairs.map encodePair, decide (piece ≠ []) = true := by
    intro piece hpiece
    obtain ⟨pair, -, rfl⟩ := List.mem_map.1 hpiece
    simp [encodePair, joinPair]
  cases pairs with
  | nil => exact pieces_nil
  | cons pair pairs =>
    rw [pieces, encodePairs, List.splitOn_intercalate 38 ?_ (by simp), List.filter_eq_self.2 hne]
    intro piece hpiece
    obtain ⟨pair', hpair', rfl⟩ := List.mem_map.1 hpiece
    exact hmem pair' hpair'

end FormText
