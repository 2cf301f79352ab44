import Mathlib
import MoenotesApi.Server.QueryObject

/-!
# The grammar of query strings

Which query strings `parse` accepts, and the requests that they stand for.

* `value`: the values of a kind; `value_eq_some`: they are what `scalar` writes and what is read
  back;
* `Accepted`: the grammar;
* `foldlM_addParameter`, `deserialize_objectOf`: the loop of `parse` and the reading of its object;
* `parse_eq_ok_iff`, `parse_congr`: `parse` accepts exactly the grammar, in any order of the names.
-/

namespace MoenotesApi.QueryParams

open FormText JsonTree

deriving instance DecidableEq for Kind, Leaf

/-! ### The grammar -/

/-- The integer that a text with digits stands for, in the range of its kind. -/
def inRange (kind : Kind Empty) (text : String) : Option Scalar :=
  match intRange kind with
  | some (least, greatest) =>
    if least ≤ integer text ∧ integer text ≤ greatest then some (.int (integer text)) else none
  | none => none

/-- The value of a text: any text, `true` or `false`, a name or a number of the enumeration, or a
decimal integer. -/
def value (kind : Kind Empty) (text : String) : Option Scalar :=
  match kind with
  | .string => some (.text text)
  | .bool =>
    if text = "true" then some (.bool true) else if text = "false" then some (.bool false) else none
  | .enum values =>
    if digits text true then inRange (.enum values) text
    else (values.find? fun v => v.1 = text).map fun v => .int v.2
  | .int64 | .sint64 | .sfixed64 | .int32 | .sint32 | .sfixed32 =>
    if digits text true then inRange kind text else none
  | .uint64 | .fixed64 | .uint32 | .fixed32 =>
    if digits text false then inRange kind text else none
  | _ => none

/-- The options of a search are always there. -/
def presence (variant : QueryVariant) (name : String) : Bool :=
  variant = .circleSearch && name = "options"

/-- The pairs of a text, with all bytes of their names and values. -/
def Decoded (raw : String) (pairs : List (String × String)) : Prop :=
  ((pieces (utf8 raw)).map fun piece => (splitPair piece).map decodeText decodeText) =
    pairs.map fun pair => (utf8 pair.1, utf8 pair.2)

/-- The values of the pairs, with the paths of their leaves. -/
def Assigned (allowed : List (String × Leaf)) (pairs : List (String × String))
    (values : List (List String × Scalar)) : Prop :=
  List.Forall₂ (fun pair v => v.1 = splitKey pair.1 ∧
    ∃ leaf, (pair.1, leaf) ∈ allowed ∧ value leaf.kind pair.2 = some v.2) pairs values

/-- A leaf that is not repeated occurs at most once. -/
def Single (allowed : List (String × Leaf)) (pairs : List (String × String)) : Prop :=
  ∀ entry ∈ allowed, entry.2.isList = false → (pairs.filter fun pair => pair.1 = entry.1).length ≤ 1

/-- The query strings of a method, with the queries that they stand for. -/
structure Accepted (variant : QueryVariant) (raw : String) (query : TypedQuery) : Prop where
  short : (utf8 raw).length ≤ MAX_QUERY_BYTES
  escapes : wellFormed (utf8 raw) = true
  utf8 : Valid (percentDecode (utf8 raw))
  few : (pieces (FormText.utf8 raw)).length ≤ MAX_PARAMETERS
  pairs : ∃ pairs values, Decoded raw pairs ∧ Single (fields variant.fields) pairs ∧
    Assigned (fields variant.fields) pairs values ∧
    query = ⟨variant, assemble (presence variant) variant.fields values⟩
  valid : query.valid = true

/-! ### Values -/

section Values

variable {kind : Kind Empty} {text : String} {v : Value} {x : Scalar} {least greatest n : ℤ}

theorem parseInt_eq_ok :
    parseInt least greatest text = .ok n ↔ least ≤ n ∧ n ≤ greatest ∧ integer text = n := by
  unfold parseInt
  split_ifs with hrange
  · constructor
    · intro h
      cases h
      exact ⟨hrange.1, hrange.2, rfl⟩
    · rintro ⟨-, -, rfl⟩
      rfl
  · constructor
    · exact nofun
    · rintro ⟨hleast, hgreatest, rfl⟩
      exact absurd ⟨hleast, hgreatest⟩ hrange

/-- A number that was written is read back. -/
theorem readInt_toString (hkind : intRange kind = some (least, greatest)) (hleast : least ≤ n)
    (hgreatest : n ≤ greatest) : readInt kind (toString n) = .ok (.int n) := by
  have hread : (toString n).toInt? = some n := Int.toInt?_repr n
  simp only [readInt, hkind, hread, hleast, hgreatest, and_self, if_true]

theorem inRange_eq_some (hkind : intRange kind = some (least, greatest)) :
    inRange kind text = some x ↔ ∃ n, parseInt least greatest text = .ok n ∧ .int n = x := by
  simp only [inRange, hkind, parseInt_eq_ok, Option.ite_none_right_eq_some, Option.some.injEq]
  constructor
  · rintro ⟨⟨hleast, hgreatest⟩, rfl⟩
    exact ⟨integer text, ⟨hleast, hgreatest, rfl⟩, rfl⟩
  · rintro ⟨n, ⟨hleast, hgreatest, rfl⟩, rfl⟩
    exact ⟨⟨hleast, hgreatest⟩, rfl⟩

/-- Writing a number and reading it back, whichever way its kind writes numbers. -/
theorem exists_written {write : ℤ → Value} {read : Value → Except Refusal Scalar} {signed : Bool}
    (hkind : intRange kind = some (least, greatest))
    (hread : ∀ n : ℤ, read (write n) = readInt kind (toString n)) :
    ((if digits text signed then inRange kind text else none) = some x ↔
      ∃ v, (if digits text signed then (parseInt least greatest text).map write
        else .error invalidRequest) = .ok v ∧ read v = .ok x) ∧
    ∀ v, (if digits text signed then (parseInt least greatest text).map write
        else .error invalidRequest) = .ok v → ∃ y, read v = .ok y := by
  split_ifs with hdigits
  · have hwritten : ∀ v, (parseInt least greatest text).map write = .ok v ↔
        ∃ n, parseInt least greatest text = .ok n ∧ write n = v :=
      fun v => Except.map_eq_ok
    have hback : ∀ n, parseInt least greatest text = .ok n → read (write n) = .ok (.int n) := by
      intro n hn
      obtain ⟨hleast, hgreatest, -⟩ := parseInt_eq_ok.1 hn
      rw [hread, readInt_toString hkind hleast hgreatest]
    simp only [hwritten, inRange_eq_some hkind]
    constructor
    · constructor
      · rintro ⟨n, hn, rfl⟩
        exact ⟨write n, ⟨n, hn, rfl⟩, hback n hn⟩
      · rintro ⟨-, ⟨n, hn, rfl⟩, hx⟩
        rw [hback n hn] at hx
        exact ⟨n, hn, Except.ok.inj hx⟩
    · rintro v ⟨n, hn, rfl⟩
      exact ⟨_, hback n hn⟩
  · simp

/-- What `scalar` writes is read back as the value, or it is an unknown name. -/
theorem scalar_spec :
    (value kind text = some x ↔ ∃ v, scalar kind text = .ok v ∧ readScalar kind v = .ok x) ∧
    ∀ v, scalar kind text = .ok v → Except.Errors (· = .unknownName) (readScalar kind v) := by
  have hint : ∀ {p : Prop} {s : Except ClientError Value},
      (p ∧ ∀ v, s = .ok v → ∃ y, readScalar kind v = .ok y) →
      p ∧ ∀ v, s = .ok v → Except.Errors (· = .unknownName) (readScalar kind v) := by
    rintro p s ⟨hp, hs⟩
    refine ⟨hp, fun v hv => ?_⟩
    obtain ⟨y, hy⟩ := hs v hv
    rw [hy]
    exact Except.errors_ok
  cases kind with
  | message desc => exact desc.elim
  | double | float | bytes => simp [value, scalar]
  | string => simp [value, scalar, readScalar]
  | bool =>
    by_cases htrue : text = "true"
    · simp [value, scalar, readScalar, htrue]
    · by_cases hfalse : text = "false"
      · simp [value, scalar, readScalar, hfalse]
      · simp [value, scalar, htrue, hfalse]
  | int64 | sint64 | sfixed64 | int32 | sint32 | sfixed32 | uint64 | fixed64 | uint32 | fixed32 =>
    exact hint (exists_written rfl fun _ => rfl)
  | enum values =>
    by_cases hdigits : digits text true = true
    · have hnumber := hint (@exists_written (.enum values) text x _ _
        (fun n => .number (toString n)) (readScalar (.enum values)) true rfl fun _ => rfl)
      simpa only [value, scalar, hdigits, if_true] using hnumber
    · simp only [value, scalar, hdigits, Bool.false_eq_true, if_false, Except.ok.injEq,
        exists_eq_left', forall_eq', readScalar]
      cases values.find? fun v => v.1 = text with
      | none => simp
      | some v => simp

/-- **Values are neither altered nor rounded.**  The values of a kind are what `scalar` writes and
what is then read back. -/
theorem value_eq_some :
    value kind text = some x ↔ ∃ v, scalar kind text = .ok v ∧ readScalar kind v = .ok x :=
  scalar_spec.1

theorem errors_readScalar (h : scalar kind text = .ok v) :
    Except.Errors (· = .unknownName) (readScalar kind v) :=
  (scalar_spec (x := .bool true)).2 v h

end Values

/-! ### Names and paths -/

/-- The requests have no two fields of one name. -/
theorem distinct_fields (variant : QueryVariant) : variant.fields.distinct = true := by
  cases variant <;> decide +kernel

/-- The dotted names are the paths of the leaves. -/
theorem leafAt_of_mem {variant : QueryVariant} {key : String} {leaf : Leaf}
    (h : (key, leaf) ∈ fields variant.fields) :
    variant.fields.leafAt (splitKey key) = some leaf := by
  have hcheck : (fields variant.fields).all (fun entry =>
      variant.fields.leafAt (splitKey entry.1) = some entry.2) = true := by
    cases variant <;> decide +kernel
  simpa only [decide_eq_true_eq] using List.all_eq_true.1 hcheck (key, leaf) h

theorem splitKey_injective : Function.Injective splitKey := by
  intro a b h
  have hparts : a.toList.splitOn '.' = b.toList.splitOn '.' :=
    List.map_injective_iff.2 (fun _ _ heq => String.ofList_injective heq) h
  have htext := congrArg (['.'].intercalate ·) hparts
  simp only [List.intercalate_splitOn] at htext
  exact String.toList_inj.1 htext

/-- A dotted name belongs to one leaf. -/
theorem leaf_unique {variant : QueryVariant} {key : String} {leaf leaf' : Leaf}
    (h : (key, leaf) ∈ fields variant.fields) (h' : (key, leaf') ∈ fields variant.fields) :
    leaf = leaf' :=
  Option.some.inj ((leafAt_of_mem h).symm.trans (leafAt_of_mem h'))

theorem find?_fields {variant : QueryVariant} {key : String} {entry : String × Leaf} :
    (fields variant.fields).find? (fun entry => entry.1 = key) = some entry ↔
      entry.1 = key ∧ entry ∈ fields variant.fields := by
  constructor
  · intro h
    exact ⟨by simpa using List.find?_some h, List.mem_of_find?_eq_some h⟩
  · rintro ⟨rfl, hmem⟩
    obtain ⟨found, hfound⟩ : ∃ found,
        (fields variant.fields).find? (fun e => e.1 = entry.1) = some found :=
      Option.isSome_iff_exists.1 (List.find?_isSome.2 ⟨entry, hmem, by simp⟩)
    have hname : found.1 = entry.1 := by simpa using List.find?_some hfound
    have hleaf : found.2 = entry.2 :=
      leaf_unique (hname ▸ List.mem_of_find?_eq_some hfound) hmem
    rw [hfound, Prod.ext hname hleaf]

/-- The loop starts from the object without values. -/
theorem startObject_eq (variant : QueryVariant) :
    startObject variant.method.name = objectOf (presence variant) variant.fields [] := by
  cases variant <;> rfl

/-! ### The loop -/

theorem exists_forall₂ {α β : Type} {R : α → β → Prop} {xs : List α}
    (h : ∀ x ∈ xs, ∃ y, R x y) : ∃ ys, List.Forall₂ R xs ys := by
  induction xs with
  | nil => exact ⟨[], .nil⟩
  | cons x xs ih =>
    obtain ⟨y, hy⟩ := h x List.mem_cons_self
    obtain ⟨ys, hys⟩ := ih fun x' hx' => h x' (List.mem_cons_of_mem _ hx')
    exact ⟨y :: ys, .cons hy hys⟩

section Loop

variable {variant : QueryVariant} {present : String → Bool} {pairs : List (String × String)}
  {pair : String × String} {items : List (List String × Value)}
  {values : List (List String × Scalar)} {object : List (String × Value)}

/-- The items that the loop inserts for the pairs. -/
def Inserted (allowed : List (String × Leaf)) (pairs : List (String × String))
    (items : List (List String × Value)) : Prop :=
  List.Forall₂ (fun pair item => item.1 = splitKey pair.1 ∧
    ∃ leaf, (pair.1, leaf) ∈ allowed ∧ scalar leaf.kind pair.2 = .ok item.2) pairs items

/-- The items at the leaf of a name are those of its pairs. -/
theorem Inserted.length_valuesAt {allowed : List (String × Leaf)}
    (h : Inserted allowed pairs items) (key : String) :
    (valuesAt (splitKey key) items).length = (pairs.filter fun pair => pair.1 = key).length := by
  unfold valuesAt
  induction h with
  | nil => rfl
  | @cons pair item pairs items hhead _ ih =>
    rw [List.filterMap_cons, List.filter_cons, hhead.1]
    by_cases hkey : pair.1 = key
    · simpa [hkey] using ih
    · have hpath : splitKey pair.1 ≠ splitKey key := fun heq => hkey (splitKey_injective heq)
      simpa [hkey, hpath] using ih

/-- One pass of the loop: there is room for one more pair, its name is that of a leaf which it may
still set, and its value is of the leaf's kind. -/
theorem addParameter_objectOf {n : ℕ} :
    addParameter (fields variant.fields) (objectOf present variant.fields items) (pair, n) =
        .ok object ↔
      n < MAX_PARAMETERS ∧ ∃ leaf v, (pair.1, leaf) ∈ fields variant.fields ∧
        scalar leaf.kind pair.2 = .ok v ∧
        (leaf.isList = true ∨ valuesAt (splitKey pair.1) items = []) ∧
        object = objectOf present variant.fields (items ++ [(splitKey pair.1, v)]) := by
  unfold addParameter
  cases hfind : (fields variant.fields).find? fun entry => entry.1 = pair.1 with
  | none =>
    have hnone : ∀ leaf, (pair.1, leaf) ∉ fields variant.fields := by
      intro leaf hmem
      rw [find?_fields.2 ⟨rfl, hmem⟩] at hfind
      cases hfind
    simp [hnone, Except.bind_eq_ok]
  | some entry =>
    obtain ⟨hname, hmem⟩ := find?_fields.1 hfind
    have hleaf : ∀ leaf, (pair.1, leaf) ∈ fields variant.fields ↔ leaf = entry.2 := by
      intro leaf
      constructor
      · intro h
        exact leaf_unique h (hname ▸ hmem)
      · rintro rfl
        exact hname ▸ hmem
    have hinsert : ∀ v, insert (objectOf present variant.fields items) (splitKey pair.1) v
        entry.2.isList = .ok object ↔
        (entry.2.isList = true ∨ valuesAt (splitKey pair.1) items = []) ∧
          object = objectOf present variant.fields (items ++ [(splitKey pair.1, v)]) := by
      intro v
      rw [insert_objectOf (leafAt_of_mem ((hleaf _).2 rfl))]
      split_ifs with hroom
      · rw [and_iff_right hroom, Except.ok.injEq, eq_comm]
      · simp [hroom]
    simp only [Except.bind_eq_ok, Except.refuse_eq_ok, hleaf, hinsert, exists_and_left,
      exists_eq_left, not_le]
    constructor
    · rintro ⟨hn, -, v, hv, hroom, hobject⟩
      exact ⟨hn, v, hv, hroom, hobject⟩
    · rintro ⟨hn, v, hv, hroom, hobject⟩
      exact ⟨hn, (), v, hv, hroom, hobject⟩

theorem forall₂_append_singleton {α β : Type} {R : α → β → Prop} {xs : List α} {x : α}
    {ys : List β} : List.Forall₂ R (xs ++ [x]) ys ↔
      ∃ ys' y, List.Forall₂ R xs ys' ∧ R x y ∧ ys = ys' ++ [y] := by
  constructor
  · intro h
    rw [← List.forall₂_reverse_iff, List.reverse_append, List.reverse_singleton,
      List.singleton_append, List.forall₂_cons_left_iff] at h
    obtain ⟨y, ys', hy, hys, heq⟩ := h
    refine ⟨ys'.reverse, y, ?_, hy, ?_⟩
    · rwa [← List.forall₂_reverse_iff, List.reverse_reverse]
    · rw [← List.reverse_reverse ys, heq, List.reverse_cons]
  · rintro ⟨ys', y, hys, hy, rfl⟩
    exact List.rel_append hys (.cons hy .nil)

theorem single_append {allowed : List (String × Leaf)} {leaf : Leaf}
    (hmem : (pair.1, leaf) ∈ allowed)
    (hunique : ∀ leaf', (pair.1, leaf') ∈ allowed → leaf' = leaf) :
    Single allowed (pairs ++ [pair]) ↔ Single allowed pairs ∧
      (leaf.isList = true ∨ pairs.filter (fun p => p.1 = pair.1) = []) := by
  constructor
  · intro h
    refine ⟨fun entry hentry hlist => ?_, ?_⟩
    · have hlength := h entry hentry hlist
      rw [List.filter_append, List.length_append] at hlength
      omega
    · by_contra hcon
      rw [not_or, Bool.not_eq_true] at hcon
      have hlength : (List.filter (fun p => p.1 = pair.1) (pairs ++ [pair])).length ≤ 1 :=
        h _ hmem hcon.1
      have hpos := List.length_pos_iff.2 hcon.2
      rw [List.filter_append, List.length_append, List.filter_singleton] at hlength
      simp only [decide_true, cond_true, List.length_singleton] at hlength
      omega
  · rintro ⟨h, hroom⟩ entry hentry hlist
    rw [List.filter_append, List.length_append]
    by_cases hkey : pair.1 = entry.1
    · have hleaf : entry.2 = leaf := hunique entry.2 (hkey ▸ hentry)
      rw [hleaf] at hlist
      rw [hlist, hkey] at hroom
      rw [hroom.resolve_left nofun, List.length_nil, Nat.zero_add]
      exact List.length_filter_le _ _
    · have hlength := h entry hentry hlist
      simpa [hkey] using hlength

/-- **The loop.**  It ends with an object exactly when there are at most 256 pairs, all of them with
the name of a leaf and a value of its kind, and no leaf has more values than it may. -/
theorem foldlM_addParameter :
    pairs.zipIdx.foldlM (addParameter (fields variant.fields))
        (objectOf present variant.fields []) = .ok object ↔
      pairs.length ≤ MAX_PARAMETERS ∧ ∃ items, Inserted (fields variant.fields) pairs items ∧
        Single (fields variant.fields) pairs ∧ object = objectOf present variant.fields items := by
  induction pairs using List.reverseRecOn generalizing object with
  | nil =>
    constructor
    · intro h
      cases h
      exact ⟨Nat.zero_le _, [], .nil, fun _ _ _ => Nat.zero_le _, rfl⟩
    · rintro ⟨-, items, hitems, -, rfl⟩
      cases hitems
      rfl
  | append_singleton pairs pair ih =>
    have hposition : [pair].zipIdx (0 + pairs.length) = [(pair, pairs.length)] := by
      rw [Nat.zero_add]
      rfl
    have hlast : ∀ object' : List (String × Value),
        [(pair, pairs.length)].foldlM (addParameter (fields variant.fields)) object' =
          addParameter (fields variant.fields) object' (pair, pairs.length) := by
      intro object'
      rw [List.foldlM_cons]
      exact bind_pure _
    rw [List.zipIdx_append, hposition, List.foldlM_append, Except.bind_eq_ok]
    simp only [ih, hlast]
    constructor
    · rintro ⟨-, ⟨-, items, hitems, hsingle, rfl⟩, hpair⟩
      obtain ⟨hfew, leaf, v, hmem, hv, hroom, rfl⟩ := addParameter_objectOf.1 hpair
      refine ⟨?_, items ++ [(splitKey pair.1, v)], ?_, ?_, rfl⟩
      · rw [List.length_append]
        exact hfew
      · exact forall₂_append_singleton.2 ⟨items, _, hitems, ⟨rfl, leaf, hmem, hv⟩, rfl⟩
      · refine (single_append hmem fun leaf' h => leaf_unique h hmem).2 ⟨hsingle, ?_⟩
        rwa [← List.length_eq_zero_iff, ← hitems.length_valuesAt, List.length_eq_zero_iff]
    · rintro ⟨hfew, items, hitems, hsingle, rfl⟩
      obtain ⟨items, ⟨path, v⟩, hinserted, ⟨rfl, leaf, hmem, hv⟩, rfl⟩ :=
        forall₂_append_singleton.1 hitems
      obtain ⟨hsingle, hroom⟩ := (single_append hmem fun leaf' h => leaf_unique h hmem).1 hsingle
      rw [List.length_append] at hfew
      refine ⟨_, ⟨Nat.le_of_succ_le hfew, items, hinserted, hsingle, rfl⟩,
        addParameter_objectOf.2 ⟨hfew, leaf, v, hmem, hv, ?_, rfl⟩⟩
      have hlength : (valuesAt (splitKey pair.1) items).length = _ :=
        Inserted.length_valuesAt hinserted pair.1
      rwa [← List.length_eq_zero_iff, hlength, List.length_eq_zero_iff]

/-! ### Reading what the loop built -/

/-- The leaf of an item is that of its pair. -/
theorem Inserted.canonical (h : Inserted (fields variant.fields) pairs items) :
    Canonical variant.fields items := by
  intro item hitem leaf hleaf
  obtain ⟨pair, hpath, leaf', hmem, hv⟩ := exists_of_forall₂ h.flip hitem
  rw [hpath, leafAt_of_mem hmem] at hleaf
  cases hleaf
  exact errors_readScalar hv

/-- Items that are read have the values of their pairs. -/
theorem Inserted.assigned (h : Inserted (fields variant.fields) pairs items)
    (hread : ReadAs variant.fields items values) :
    Assigned (fields variant.fields) pairs values := by
  induction h generalizing values with
  | nil =>
    cases hread
    exact .nil
  | @cons pair item pairs items hhead _ ih =>
    obtain ⟨hpath, leaf, hmem, hv⟩ := hhead
    cases hread with
    | @cons _ x _ values hx hread =>
      have hleaf : variant.fields.leafAt item.1 = some leaf := by rw [hpath, leafAt_of_mem hmem]
      exact .cons ⟨by rw [← hx.1, hpath], leaf, hmem, value_eq_some.2 ⟨_, hv, hx.2 leaf hleaf⟩⟩
        (ih hread)

/-- Pairs that have values have items, which are read as these values. -/
theorem exists_inserted (h : Assigned (fields variant.fields) pairs values) :
    ∃ items, Inserted (fields variant.fields) pairs items ∧
      ReadAs variant.fields items values := by
  induction h with
  | nil => exact ⟨[], .nil, .nil⟩
  | @cons pair x pairs values hhead _ ih =>
    obtain ⟨hpath, leaf, hmem, hx⟩ := hhead
    obtain ⟨v, hv, hread⟩ := value_eq_some.1 hx
    obtain ⟨items, hitems, hreads⟩ := ih
    refine ⟨(splitKey pair.1, v) :: items, .cons ⟨rfl, leaf, hmem, hv⟩ hitems,
      .cons ⟨hpath.symm, fun leaf' hleaf' => ?_⟩ hreads⟩
    rw [leafAt_of_mem hmem] at hleaf'
    cases hleaf'
    exact hread

/-- An object that is read has a value for each of its items. -/
theorem Inserted.readAs {message : RequestMessage}
    (h : Inserted (fields variant.fields) pairs items)
    (hsingle : Single (fields variant.fields) pairs)
    (hread : readFields variant.fields (objectOf present variant.fields items) = .ok message) :
    ∃ values, ReadAs variant.fields items values := by
  refine exists_forall₂ fun item hitem => ?_
  obtain ⟨pair, hpath, leaf, hmem, -⟩ := exists_of_forall₂ h.flip hitem
  have hleaf := leafAt_of_mem hmem
  obtain ⟨x, hx⟩ := readLeaf_of_readFields hread hleaf fun _ _ => get_objectOf_of_find
  have hone : leaf.cardinality = .repeated ∨ (valuesAt (splitKey pair.1) items).length ≤ 1 := by
    rw [h.length_valuesAt]
    cases hlist : leaf.isList with
    | true => exact .inl (by simpa [Leaf.isList] using hlist)
    | false => exact .inr (hsingle _ hmem hlist)
  have hvalue : item.2 ∈ valuesAt (splitKey pair.1) items := by
    rw [mem_valuesAt, ← hpath]
    exact hitem
  obtain ⟨y, hy⟩ := readScalar_of_readLeaf hx hone item.2 hvalue
  refine ⟨(item.1, y), rfl, fun leaf' hleaf' => ?_⟩
  rw [hpath, hleaf] at hleaf'
  cases hleaf'
  exact hy

/-- **The second decoding.**  The object of the loop is read exactly when all pairs have values, and
then as the request with these values. -/
theorem deserialize_objectOf {json : ProtobufJson} {message : RequestMessage}
    (h : Inserted (fields variant.fields) pairs items)
    (hsingle : Single (fields variant.fields) pairs) :
    json.deserialize variant.fields (.object (objectOf present variant.fields items)) =
        some message ↔
      ∃ values, ReadAs variant.fields items values ∧
        message = assemble present variant.fields values := by
  have hmessage : readMessage variant.fields (.object (objectOf present variant.fields items)) =
      readFields variant.fields (objectOf present variant.fields items) := by
    simp only [readMessage, declares_objectOf, Except.refuse]
    rfl
  have herrors : Except.Errors (· = .unknownName)
      (readFields variant.fields (objectOf present variant.fields items)) :=
    errors_readFields (distinct_fields variant) h.canonical fun _ _ => get_objectOf_of_find
  have hcanonical : readMessage variant.fields (.object (objectOf present variant.fields items)) ≠
      .error .notCanonical := by
    rw [hmessage]
    intro herror
    cases herrors _ herror
  rw [json.deserialize_eq _ _ hcanonical, hmessage]
  constructor
  · intro hsome
    cases hread : readFields variant.fields (objectOf present variant.fields items) with
    | error e =>
      rw [hread] at hsome
      cases hsome
    | ok message' =>
      rw [hread] at hsome
      cases hsome
      obtain ⟨values, hvalues⟩ := h.readAs hsingle hread
      rw [readFields_objectOf (distinct_fields variant) hvalues
        fun _ _ => get_objectOf_of_find] at hread
      exact ⟨values, hvalues, (Except.ok.inj hread).symm⟩
  · rintro ⟨values, hvalues, rfl⟩
    rw [readFields_objectOf (distinct_fields variant) hvalues fun _ _ => get_objectOf_of_find]
    rfl

end Loop

/-! ### Accepted query strings -/

section Parse

variable {form : FormUrlencoded} {json : ProtobufJson} {variant : QueryVariant} {name : String}
  {query : TypedQuery}

theorem errors_scalar (kind : Kind Empty) (text : String) :
    Except.Errors (· = invalidRequest) (scalar kind text) := by
  have hparse : ∀ least greatest,
      Except.Errors (· = invalidRequest) (parseInt least greatest text) :=
    fun _ _ => Except.errors_ok.ite (Except.errors_error.2 rfl)
  cases kind with
  | message desc => exact desc.elim
  | double | float | bytes => exact Except.errors_error.2 rfl
  | string => exact Except.errors_ok
  | bool => exact Except.errors_ok.ite (Except.errors_error.2 rfl)
  | enum => exact (hparse _ _).map.ite Except.errors_ok
  | int64 | sint64 | sfixed64 | int32 | sint32 | sfixed32 | uint64 | fixed64 | uint32 | fixed32 =>
    exact (hparse _ _).map.ite (Except.errors_error.2 rfl)

theorem errors_insert (object : List (String × Value)) (path : List String) (v : Value)
    (repeated : Bool) : Except.Errors (· = invalidRequest) (insert object path v repeated) := by
  induction path generalizing object with
  | nil => exact Except.errors_error.2 rfl
  | cons name path ih =>
    cases path with
    | nil =>
      have hrefused : Except.Errors (· = invalidRequest)
          (.error invalidRequest : Except ClientError (List (String × Value))) :=
        Except.errors_error.2 rfl
      rw [insert]
      refine Except.Errors.ite ?_ (hrefused.ite Except.errors_ok)
      split
      · exact Except.errors_ok
      · exact Except.errors_error.2 rfl
    | cons next path =>
      rw [insert]
      · split
        · exact (ih _).bind fun _ => Except.errors_pure
        · exact Except.errors_error.2 rfl
      · exact fun hlast => List.cons_ne_nil next path hlast

/-- There is only one error. -/
theorem errors_parse (raw : Option String) :
    Except.Errors (· = invalidRequest) (parse form json name raw) := by
  have hrefuse : ∀ (p : Prop) [Decidable p],
      Except.Errors (· = invalidRequest) (Except.refuse p invalidRequest) :=
    fun p _ => Except.errors_refuse.2 fun _ => rfl
  have hfromJson : ∀ v, Except.Errors (· = invalidRequest) (fromJson json name v) := by
    intro v
    unfold fromJson
    split
    · split
      · exact (hrefuse _).bind fun _ => Except.errors_pure
      · exact Except.errors_error.2 rfl
    · exact Except.errors_error.2 rfl
  have hadd : ∀ allowed object parameter,
      Except.Errors (· = invalidRequest) (addParameter allowed object parameter) := by
    intro allowed object parameter
    refine (hrefuse _).bind fun _ => ?_
    split
    · exact (errors_scalar _ _).bind fun _ => errors_insert _ _ _ _
    · exact Except.errors_error.2 rfl
  refine (hrefuse _).bind fun _ => (hrefuse _).bind fun _ => (hrefuse _).bind fun _ => ?_
  unfold parsePairs
  split
  · exact (Except.Errors.foldlM (hadd _) _ _).bind fun object => hfromJson _
  · exact Except.errors_error.2 rfl

/-- The pairs of a readable text are the ones that the form has. -/
theorem decoded_iff {raw : String} {pairs : List (String × String)}
    (hraw : Readable (utf8 raw)) : Decoded raw pairs ↔ pairs = form.parse (utf8 raw) := by
  have hparse : form.parse (utf8 raw) =
      ((pieces (utf8 raw)).map fun piece => (splitPair piece).map decodeText decodeText).map
        (Prod.map form.lossy form.lossy) := by
    rw [form.parse_eq, List.map_map]
    rfl
  constructor
  · intro h
    rw [hparse, h, List.map_map]
    conv_lhs => rw [← List.map_id pairs]
    refine List.map_congr_left fun pair _ => ?_
    simp only [Function.comp_apply, Prod.map_apply, form.lossy_utf8, id_eq]
  · rintro rfl
    unfold Decoded
    rw [hparse, List.map_map]
    conv_lhs => rw [← List.map_id (List.map _ _)]
    rw [List.map_map, List.map_map]
    refine List.map_congr_left fun piece hpiece => ?_
    obtain ⟨⟨s, hs⟩, ⟨t, ht⟩⟩ := hraw.valid_pair piece hpiece
    simp only [Function.comp_apply, id_eq, Prod.map_fst, Prod.map_snd, ← hs, ← ht, form.lossy_utf8]
    exact Prod.ext hs.symm ht.symm

theorem parsePairs_eq_ok {pairs : List (String × String)} :
    parsePairs json variant.method.name pairs = .ok query ↔
      pairs.length ≤ MAX_PARAMETERS ∧ Single (fields variant.fields) pairs ∧
        (∃ values, Assigned (fields variant.fields) pairs values ∧
          query = ⟨variant, assemble (presence variant) variant.fields values⟩) ∧
        query.valid = true := by
  unfold parsePairs
  simp only [QueryVariant.find_name, startObject_eq, Except.bind_eq_ok, foldlM_addParameter,
    fromJson_eq_ok]
  constructor
  · rintro ⟨-, ⟨hfew, items, hitems, hsingle, rfl⟩, message, hmessage, rfl, hvalid⟩
    obtain ⟨values, hvalues, rfl⟩ := (deserialize_objectOf hitems hsingle).1 hmessage
    exact ⟨hfew, hsingle, ⟨values, hitems.assigned hvalues, rfl⟩, hvalid⟩
  · rintro ⟨hfew, hsingle, ⟨values, hvalues, rfl⟩, hvalid⟩
    obtain ⟨items, hitems, hread⟩ := exists_inserted hvalues
    exact ⟨_, ⟨hfew, items, hitems, hsingle, rfl⟩, _,
      (deserialize_objectOf hitems hsingle).2 ⟨values, hread, rfl⟩, rfl, hvalid⟩

/-- Whatever `parse` accepts is short and readable. -/
theorem parse_eq_ok {raw : Option String} :
    parse form json name raw = .ok query ↔
      (utf8 (raw.getD "")).length ≤ MAX_QUERY_BYTES ∧ Readable (utf8 (raw.getD "")) ∧
        parsePairs json name (form.parse (utf8 (raw.getD ""))) = .ok query := by
  have hvalid : ∀ bs, ¬(ofUtf8? bs).isNone = true ↔ Valid bs := by
    intro bs
    rw [Option.isNone_iff_eq_none, ← ne_eq, Option.ne_none_iff_exists']
    exact exists_congr fun s => ofUtf8?_eq_some
  unfold parse
  simp only [Except.bind_eq_ok, Except.refuse_eq_ok, not_lt, Bool.not_eq_false, hvalid,
    exists_const]
  exact and_congr_right fun _ => and_assoc.symm

/-- **`parse` accepts exactly its grammar**, and returns the request with these values. -/
theorem parse_eq_ok_iff {raw : Option String} :
    parse form json variant.method.name raw = .ok query ↔ Accepted variant (raw.getD "") query := by
  rw [parse_eq_ok, parsePairs_eq_ok]
  have hfew : (form.parse (utf8 (raw.getD ""))).length = (pieces (utf8 (raw.getD ""))).length := by
    rw [form.parse_eq, List.length_map]
  constructor
  · rintro ⟨hshort, hraw, hlength, hsingle, ⟨values, hvalues, rfl⟩, hvalid⟩
    exact ⟨hshort, hraw.1, hraw.2, hfew ▸ hlength,
      ⟨_, values, (decoded_iff hraw).2 rfl, hsingle, hvalues, rfl⟩, hvalid⟩
  · rintro ⟨hshort, hescapes, hutf8, hlength, ⟨pairs, values, hpairs, hsingle, hvalues, rfl⟩,
      hvalid⟩
    obtain rfl : pairs = form.parse (utf8 (raw.getD "")) :=
      (decoded_iff ⟨hescapes, hutf8⟩).1 hpairs
    exact ⟨hshort, ⟨hescapes, hutf8⟩, hfew ▸ hlength, hsingle, ⟨values, hvalues, rfl⟩, hvalid⟩

/-! ### The order of the pairs -/

/-- The name of a piece. -/
def pieceName (piece : Bytes) : Bytes := decodeText (splitPair piece).1

/-- Lists with the same elements of each kind, in the same order, differ only in how the kinds are
mixed. -/
theorem perm_of_filter_eq {α κ : Type} [DecidableEq α] [DecidableEq κ] {f : α → κ} {xs ys : List α}
    (h : ∀ k, xs.filter (fun x => f x = k) = ys.filter (fun y => f y = k)) : xs.Perm ys := by
  refine List.perm_iff_count.2 fun a => ?_
  have hcount : ∀ zs : List α, (zs.filter fun z => f z = f a).count a = zs.count a :=
    fun zs => List.count_filter (by simp)
  rw [← hcount, h, hcount]

/-- The length of a text with separators, from the lengths of its parts. -/
theorem length_intercalate {x : UInt8} {texts : List Bytes} (hne : texts ≠ []) :
    ([x].intercalate texts).length + 1 = (texts.map fun t => t.length + 1).sum := by
  induction texts with
  | nil => exact absurd rfl hne
  | cons t texts ih =>
    cases texts with
    | nil => simp
    | cons t' texts =>
      rw [List.intercalate_cons_cons, List.map_cons, List.sum_cons, ← ih (by simp)]
      simp only [List.length_append, List.length_singleton]
      omega

section Order

variable {allowed : List (String × Leaf)} {pairs pairs' : List (String × String)}
  {values values' : List (List String × Scalar)}

/-- The values at the leaf of a name are those of its pairs. -/
theorem Assigned.valuesAt (h : Assigned allowed pairs values) (key : String) :
    List.Forall₂ (fun pair x => ∃ leaf, (pair.1, leaf) ∈ allowed ∧ value leaf.kind pair.2 = some x)
      (pairs.filter fun pair => pair.1 = key) (QueryParams.valuesAt (splitKey key) values) := by
  unfold QueryParams.valuesAt
  induction h with
  | nil => exact .nil
  | @cons pair v pairs values hhead _ ih =>
    rw [List.filterMap_cons, List.filter_cons, hhead.1]
    by_cases hkey : pair.1 = key
    · simp only [hkey, decide_true, if_true]
      exact .cons (by simpa [hkey] using hhead.2) ih
    · have hpath : splitKey pair.1 ≠ splitKey key := fun heq => hkey (splitKey_injective heq)
      simpa [hkey, hpath] using ih

/-- The values do not depend on how the names of the pairs are mixed. -/
theorem Assigned.congr (h : Assigned (fields variant.fields) pairs values)
    (h' : Assigned (fields variant.fields) pairs' values')
    (hsame : ∀ key, pairs.filter (fun pair => pair.1 = key) =
      pairs'.filter (fun pair => pair.1 = key)) (path : List String) :
    QueryParams.valuesAt path values = QueryParams.valuesAt path values' := by
  by_cases hpath : ∃ key, splitKey key = path
  · obtain ⟨key, rfl⟩ := hpath
    have hvalues := h.valuesAt key
    rw [hsame] at hvalues
    refine List.right_unique_forall₂' ?_ hvalues (h'.valuesAt key)
    rintro pair x y ⟨leaf, hmem, hx⟩ ⟨leaf', hmem', hy⟩
    rw [leaf_unique hmem hmem', hy] at hx
    exact (Option.some.inj hx).symm
  · have hnone : ∀ {pairs values}, Assigned (fields variant.fields) pairs values →
        QueryParams.valuesAt path values = [] := by
      intro pairs values h
      refine List.eq_nil_iff_forall_not_mem.2 fun x hx => hpath ?_
      obtain ⟨pair, hsplit, -⟩ := exists_of_forall₂ h.flip (mem_valuesAt.1 hx)
      exact ⟨pair.1, hsplit.symm⟩
    rw [hnone h, hnone h']

theorem parsePairs_congr
    (hsame : ∀ key, pairs.filter (fun pair => pair.1 = key) =
      pairs'.filter (fun pair => pair.1 = key))
    (h : parsePairs json variant.method.name pairs = .ok query) :
    parsePairs json variant.method.name pairs' = .ok query := by
  rw [parsePairs_eq_ok] at h ⊢
  obtain ⟨hfew, hsingle, ⟨values, hvalues, rfl⟩, hvalid⟩ := h
  have hperm := perm_of_filter_eq hsame
  obtain ⟨values', hvalues'⟩ : ∃ values', Assigned (fields variant.fields) pairs' values' := by
    refine exists_forall₂ fun pair hpair => ?_
    obtain ⟨v, hv⟩ := exists_of_forall₂ hvalues (hperm.mem_iff.2 hpair)
    exact ⟨v, hv⟩
  refine ⟨hperm.length_eq ▸ hfew, fun entry hentry hlist => ?_, ⟨values', hvalues', ?_⟩, hvalid⟩
  · rw [← hsame]
    exact hsingle entry hentry hlist
  · rw [assemble_congr (hvalues.congr hvalues' hsame)]

end Order

/-- The pairs of a name come from the pieces of that name. -/
theorem filter_parse {body : Bytes} (h : Readable body) (key : String) :
    (form.parse body).filter (fun pair => pair.1 = key) =
      (((body.splitOn 38).filter fun piece => pieceName piece = utf8 key).filter
        fun piece => piece ≠ []).map
        fun piece => ((splitPair piece).map decodeText decodeText).map form.lossy form.lossy := by
  rw [form.parse_eq, List.filter_map, List.filter_comm]
  refine congrArg _ (List.filter_congr fun piece hpiece => ?_)
  obtain ⟨⟨s, hs⟩, -⟩ := h.valid_pair piece hpiece
  have hname : pieceName piece = utf8 s := hs.symm
  simp only [Function.comp_apply, Prod.map_fst, ← hs, form.lossy_utf8, hname,
    utf8_injective.eq_iff]

/-- **Only the order of the values of one name matters.** -/
theorem parse_congr {raw raw' : String}
    (hsame : ∀ key, ((utf8 raw).splitOn 38).filter (fun piece => pieceName piece = key) =
      ((utf8 raw').splitOn 38).filter (fun piece => pieceName piece = key)) :
    parse form json variant.method.name (some raw) =
      parse form json variant.method.name (some raw') := by
  have himp : ∀ {raw raw' : String} {query : TypedQuery},
      (∀ key, ((utf8 raw).splitOn 38).filter (fun piece => pieceName piece = key) =
        ((utf8 raw').splitOn 38).filter (fun piece => pieceName piece = key)) →
      parse form json variant.method.name (some raw) = .ok query →
      parse form json variant.method.name (some raw') = .ok query := by
    intro raw raw' query hsame h
    rw [parse_eq_ok, Option.getD_some] at h ⊢
    obtain ⟨hshort, hraw, hpairs⟩ := h
    have hperm := perm_of_filter_eq hsame
    have hlength : (utf8 raw').length = (utf8 raw).length := by
      have htext : ∀ bs : Bytes,
          bs.length + 1 = ((bs.splitOn 38).map fun t => t.length + 1).sum := by
        intro bs
        rw [← length_intercalate (x := 38) (List.splitOn_ne_nil 38 bs), List.intercalate_splitOn]
      have hsum := (hperm.map fun t => t.length + 1).sum_eq
      rw [← htext, ← htext] at hsum
      omega
    have hraw' : Readable (utf8 raw') := by
      rw [readable_iff_splitOn] at hraw ⊢
      exact fun t ht => hraw t (hperm.mem_iff.2 ht)
    refine ⟨hlength ▸ hshort, hraw', parsePairs_congr (fun key => ?_) hpairs⟩
    rw [filter_parse hraw, filter_parse hraw', hsame]
  exact (errors_parse _).ext (errors_parse _) fun query =>
    ⟨himp hsame, himp fun key => (hsame key).symm⟩

/-- **Query strings.**  For each method, `parse` accepts exactly the grammar and returns the request
that a query string stands for, and query strings whose pieces are the same, in the same order for
each name, are parsed alike. -/
theorem parse_grammar (form : FormUrlencoded) (json : ProtobufJson) (variant : QueryVariant) :
    (∀ (raw : Option String) (query : TypedQuery),
      parse form json variant.method.name raw = .ok query ↔
        Accepted variant (raw.getD "") query) ∧
    ∀ raw raw' : String,
      (∀ key, ((utf8 raw).splitOn 38).filter (fun piece => pieceName piece = key) =
        ((utf8 raw').splitOn 38).filter (fun piece => pieceName piece = key)) →
      parse form json variant.method.name (some raw) =
        parse form json variant.method.name (some raw') :=
  ⟨fun _ _ => parse_eq_ok_iff, fun _ _ => parse_congr⟩

end Parse

section Sample

/-- Two ranks around an event, whose name and number are escaped. -/
def ranksQuery : String := "ranks=3&event%49d=%37&ranks=0001"

/-- The event comes first. -/
def eventQuery : String := "event%49d=%37&ranks=3&ranks=0001"

def ranksRequest : TypedQuery where
  variant := .eventRanking
  message :=
    .leaf "eventId" (.one (.int 7)) <| .leaf "ranks" (.many [.int 3, .int 1]) .nil

theorem accepted_ranks : Accepted .eventRanking ranksQuery ranksRequest where
  short := by decide +kernel
  escapes := by decide +kernel
  utf8 := ⟨"ranks=3&eventId=7&ranks=0001", by decide +kernel⟩
  few := by decide +kernel
  pairs := by
    refine ⟨[("ranks", "3"), ("eventId", "7"), ("ranks", "0001")],
      [(["ranks"], .int 3), (["eventId"], .int 7), (["ranks"], .int 1)], ?_, ?_, ?_, ?_⟩
    · show _ = _
      decide +kernel
    · have hall : (fields QueryVariant.eventRanking.fields).all (fun entry =>
          entry.2.isList || ([("ranks", "3"), ("eventId", "7"), ("ranks", "0001")].filter
            fun pair => pair.1 = entry.1).length ≤ 1) = true := by
        decide +kernel
      intro entry hentry hlist
      simpa [hlist] using List.all_eq_true.1 hall entry hentry
    · have hranks : ("ranks", (⟨.int32, .repeated⟩ : Leaf)) ∈
          fields QueryVariant.eventRanking.fields := by decide +kernel
      have hevent : ("eventId", (⟨.int64, .implicit⟩ : Leaf)) ∈
          fields QueryVariant.eventRanking.fields := by decide +kernel
      exact .cons ⟨by decide +kernel, _, hranks, by decide +kernel⟩ <|
        .cons ⟨by decide +kernel, _, hevent, by decide +kernel⟩ <|
        .cons ⟨by decide +kernel, _, hranks, by decide +kernel⟩ .nil
    · decide +kernel
  valid := by decide +kernel

theorem filter_ranks (key : Bytes) :
    ((utf8 ranksQuery).splitOn 38).filter (fun piece => pieceName piece = key) =
      ((utf8 eventQuery).splitOn 38).filter (fun piece => pieceName piece = key) := by
  have hranks : (utf8 ranksQuery).splitOn 38 =
      [utf8 "ranks=3", utf8 "event%49d=%37", utf8 "ranks=0001"] := by decide +kernel
  have hevent : (utf8 eventQuery).splitOn 38 =
      [utf8 "event%49d=%37", utf8 "ranks=3", utf8 "ranks=0001"] := by decide +kernel
  have hnames : pieceName (utf8 "ranks=3") = utf8 "ranks" ∧
      pieceName (utf8 "event%49d=%37") = utf8 "eventId" ∧
      pieceName (utf8 "ranks=0001") = utf8 "ranks" ∧ utf8 "ranks" ≠ utf8 "eventId" := by
    decide +kernel
  obtain ⟨hfirst, hsecond, hthird, hne⟩ := hnames
  rw [hranks, hevent]
  simp only [List.filter_cons, hfirst, hsecond, hthird, List.filter_nil]
  by_cases hkey : utf8 "eventId" = key
  · have hother : utf8 "ranks" ≠ key := fun h => hne (h.trans hkey.symm)
    simp [hkey, hother]
  · simp [hkey]

theorem parse_grammar_ranks :
    parse whatwg canonicalJson QueryVariant.eventRanking.method.name (some ranksQuery) =
      .ok ranksRequest ∧
    parse whatwg canonicalJson QueryVariant.eventRanking.method.name (some ranksQuery) =
      parse whatwg canonicalJson QueryVariant.eventRanking.method.name (some eventQuery) :=
  ⟨((parse_grammar whatwg canonicalJson .eventRanking).1 (some ranksQuery) ranksRequest).2
      accepted_ranks,
    (parse_grammar whatwg canonicalJson .eventRanking).2 ranksQuery eventQuery filter_ranks⟩

end Sample

end MoenotesApi.QueryParams
