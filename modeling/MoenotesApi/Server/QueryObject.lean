import MoenotesApi.Server.QueryParams

/-!
# The JSON object of a query

The object that the loop of `parse` builds, as a function of the values at its leaves.

* `Fields.find`, `Fields.leafAt`: the field of a name and the leaf of a path;
* `here`, `below`: the values of a leaf, and those below a nested message, out of a list of values
  with their paths;
* `objectOf`, `insert_objectOf`: the object with some values at its leaves, to which `insert` adds
  one more;
* `assemble`, `readFields_objectOf`: the request with some values at its leaves, which is what the
  object is read as;
* `errors_readFields`, `readLeaf_of_readFields`: why the object is not read, and what was read when
  it was.
-/

namespace MoenotesApi

open FormText JsonTree

/-! ### Leaves and their paths -/

/-- A field without its name. -/
inductive FieldShape
  | leaf (leaf : Leaf)
  | message (nested : Fields)

/-- The first field of this name. -/
def Fields.find (name : String) : Fields → Option FieldShape
  | .nil => none
  | .leaf name' kind cardinality rest =>
    if name = name' then some (.leaf ⟨kind, cardinality⟩) else Fields.find name rest
  | .message name' nested rest =>
    if name = name' then some (.message nested) else Fields.find name rest

/-- The leaf at the end of a path. -/
def Fields.leafAt : Fields → List String → Option Leaf
  | _, [] => none
  | fields, [name] =>
    match Fields.find name fields with
    | some (.leaf found) => some found
    | _ => none
  | fields, name :: next :: path =>
    match Fields.find name fields with
    | some (.message nested) => Fields.leafAt nested (next :: path)
    | _ => none

/-- No two fields of a message have the same name. -/
def Fields.distinct : Fields → Bool
  | .nil => true
  | .leaf name _ _ rest => !rest.names.contains name && Fields.distinct rest
  | .message name nested rest =>
    !rest.names.contains name && Fields.distinct nested && Fields.distinct rest

section Fields

variable {name : String} {shape : FieldShape} {fields rest : Fields} {leaf : Leaf}

theorem Fields.mem_names_of_find (h : fields.find name = some shape) : name ∈ fields.names := by
  induction fields with
  | nil => cases h
  | leaf name' kind cardinality rest ih =>
    rw [Fields.find] at h
    split_ifs at h with hname
    · simp [Fields.names, hname]
    · exact List.mem_cons_of_mem _ (ih h)
  | message name' nested rest _ ih =>
    rw [Fields.find] at h
    split_ifs at h with hname
    · simp [Fields.names, hname]
    · exact List.mem_cons_of_mem _ (ih h)

/-- Fields agree on the leaves of the names on which they agree. -/
theorem Fields.leafAt_of_find {path : List String}
    (hfind : ∀ name shape, rest.find name = some shape →
      fields.find name = some shape)
    (h : rest.leafAt path = some leaf) : fields.leafAt path = some leaf := by
  rcases path with _ | ⟨name, _ | ⟨next, path⟩⟩
  · cases h
  · cases hshape : rest.find name with
    | none => simp [Fields.leafAt, hshape] at h
    | some shape => simpa [Fields.leafAt, hshape, hfind _ _ hshape] using h
  · cases hshape : rest.find name with
    | none => simp [Fields.leafAt, hshape] at h
    | some shape => simpa [Fields.leafAt, hshape, hfind _ _ hshape] using h

theorem Fields.find_of_leafAt_singleton (h : fields.leafAt [name] = some leaf) :
    fields.find name = some (.leaf leaf) := by
  rw [Fields.leafAt] at h
  split at h
  · cases h
    assumption
  · cases h

theorem Fields.find_of_leafAt_cons {next : String} {path : List String}
    (h : fields.leafAt (name :: next :: path) = some leaf) :
    ∃ nested, fields.find name = some (.message nested) ∧
      nested.leafAt (next :: path) = some leaf := by
  rw [Fields.leafAt] at h
  split at h
  · exact ⟨_, by assumption, h⟩
  · cases h

/-- A further field does not hide the others when its name is new. -/
theorem Fields.find_leaf {kind : Kind Empty} {cardinality : Cardinality} (hname : name ∉ rest.names)
    {name' : String} (h : rest.find name' = some shape) :
    (Fields.leaf name kind cardinality rest).find name' = some shape := by
  rw [Fields.find, if_neg, h]
  rintro rfl
  exact hname (Fields.mem_names_of_find h)

theorem Fields.find_message {nested : Fields} (hname : name ∉ rest.names)
    {name' : String} (h : rest.find name' = some shape) :
    (Fields.message name nested rest).find name' = some shape := by
  rw [Fields.find, if_neg, h]
  rintro rfl
  exact hname (Fields.mem_names_of_find h)

end Fields

namespace QueryParams

/-! ### Values with their paths -/

section Paths

variable {α β : Type}

/-- What belongs to the leaf `name`. -/
def here (name : String) (items : List (List String × α)) : List α :=
  items.filterMap fun item => if item.1 = [name] then some item.2 else none

/-- What belongs to the leaves of the nested message `name`. -/
def below (name : String) (items : List (List String × α)) : List (List String × α) :=
  items.filterMap fun item =>
    match item.1 with
    | first :: next :: rest => if first = name then some (next :: rest, item.2) else none
    | _ => none

/-- What belongs to the leaf at the end of a path. -/
def valuesAt (path : List String) (items : List (List String × α)) : List α :=
  items.filterMap fun item => if item.1 = path then some item.2 else none

variable {name : String} {items : List (List String × α)} {values : List (List String × β)}

@[simp] theorem here_nil : here name ([] : List (List String × α)) = [] := rfl

@[simp] theorem below_nil : below name ([] : List (List String × α)) = [] := rfl

theorem here_append (items items' : List (List String × α)) :
    here name (items ++ items') = here name items ++ here name items' :=
  List.filterMap_append

theorem below_append (items items' : List (List String × α)) :
    below name (items ++ items') = below name items ++ below name items' :=
  List.filterMap_append

theorem valuesAt_singleton (name : String) (items : List (List String × α)) :
    valuesAt [name] items = here name items := rfl

/-- The values of a path are those of its rest, among the values below its first name. -/
theorem valuesAt_below (name next : String) (path : List String)
    (items : List (List String × α)) :
    valuesAt (next :: path) (below name items) = valuesAt (name :: next :: path) items := by
  unfold valuesAt below
  rw [List.filterMap_filterMap]
  refine List.filterMap_congr fun item _ => ?_
  obtain ⟨_ | ⟨first, _ | ⟨second, rest⟩⟩, x⟩ := item
  · simp
  · simp
  · by_cases hfirst : first = name <;> simp [hfirst]

theorem mem_valuesAt {path : List String} {x : α} :
    x ∈ valuesAt path items ↔ (path, x) ∈ items := by
  simp only [valuesAt, List.mem_filterMap, Option.ite_none_right_eq_some, Option.some.injEq,
    Prod.exists]
  constructor
  · rintro ⟨path', x', hmem, rfl, rfl⟩
    exact hmem
  · intro hmem
    exact ⟨path, x, hmem, rfl, rfl⟩

theorem eq_nil_iff_valuesAt : items = [] ↔ ∀ path, valuesAt path items = [] := by
  constructor
  · rintro rfl _
    rfl
  · intro h
    refine List.eq_nil_iff_forall_not_mem.2 fun item hitem => ?_
    have hmem : item.2 ∈ valuesAt item.1 items := mem_valuesAt.2 hitem
    rw [h] at hmem
    cases hmem

/-- No value below a message has an empty path. -/
theorem valuesAt_nil_below : valuesAt [] (below name items) = [] := by
  unfold valuesAt below
  rw [List.filterMap_filterMap, List.filterMap_eq_nil_iff]
  rintro ⟨_ | ⟨first, _ | ⟨second, rest⟩⟩, x⟩ _
  · rfl
  · rfl
  · by_cases hfirst : first = name <;> simp [hfirst]

theorem mem_below {path : List String} {x : α} (h : (path, x) ∈ below name items) :
    (name :: path, x) ∈ items := by
  obtain ⟨⟨path', x'⟩, hmem, heq⟩ := List.mem_filterMap.1 h
  rcases path' with _ | ⟨first, _ | ⟨second, rest⟩⟩
  · cases heq
  · cases heq
  · simp only [Option.ite_none_right_eq_some, Option.some.injEq, Prod.mk.injEq] at heq
    obtain ⟨rfl, rfl, rfl⟩ := heq
    exact hmem

theorem exists_of_forall₂ {R : α → β → Prop} {xs : List α} {ys : List β}
    (h : List.Forall₂ R xs ys) {x : α} (hx : x ∈ xs) : ∃ y, R x y := by
  induction h with
  | nil => cases hx
  | @cons x' y xs ys hhead _ ih =>
    rcases List.mem_cons.1 hx with rfl | hx
    · exact ⟨y, hhead⟩
    · exact ih hx

section Forall₂

variable {R : List String → α → β → Prop}
  (h : List.Forall₂ (fun item v => item.1 = v.1 ∧ R item.1 item.2 v.2) items values)
include h

theorem forall₂_here (name : String) :
    List.Forall₂ (R [name]) (here name items) (here name values) := by
  induction h with
  | nil => exact .nil
  | @cons item v items values hhead _ ih =>
    obtain ⟨hpath, hR⟩ := hhead
    unfold here at ih ⊢
    by_cases hname : item.1 = [name]
    · rw [List.filterMap_cons_some (b := item.2) (by simp [hname]),
        List.filterMap_cons_some (b := v.2) (by simp [← hpath, hname])]
      exact .cons (hname ▸ hR) ih
    · rw [List.filterMap_cons_none (by simp [hname]),
        List.filterMap_cons_none (by simp [← hpath, hname])]
      exact ih

theorem forall₂_below (name : String) :
    List.Forall₂ (fun item v => item.1 = v.1 ∧ R (name :: item.1) item.2 v.2) (below name items)
      (below name values) := by
  induction h with
  | nil => exact .nil
  | @cons item v items values hhead _ ih =>
    obtain ⟨path, x⟩ := item
    obtain ⟨path', y⟩ := v
    obtain ⟨rfl, hR⟩ := hhead
    unfold below at ih ⊢
    rcases path with _ | ⟨first, _ | ⟨second, rest⟩⟩
    · exact ih
    · exact ih
    · by_cases hname : first = name
      · subst hname
        simp only [List.filterMap_cons, if_pos]
        exact .cons ⟨rfl, hR⟩ ih
      · simp only [List.filterMap_cons, if_neg hname]
        exact ih

end Forall₂

end Paths

/-! ### The object -/

/-- What a leaf holds when these values were inserted. -/
def leafEntry : Cardinality → List Value → Option Value
  | .repeated, vs => if vs.isEmpty then none else some (.array vs)
  | _, vs => vs.head?

/-- The object with these values at the leaves of a message.  A nested object is there if it has a
value, or if it is `present` anyway. -/
def objectOf (present : String → Bool) :
    Fields → List (List String × Value) → List (String × Value)
  | .nil, _ => []
  | .leaf name _ cardinality rest, items =>
    SortedMap.put name (leafEntry cardinality (here name items)) (objectOf present rest items)
  | .message name nested rest, items =>
    SortedMap.put name
      (if (below name items).isEmpty && !present name then none
        else some (.object (objectOf (fun _ => false) nested (below name items))))
      (objectOf present rest items)

/-- What the object holds for a field. -/
def entryOf (present : String → Bool) (items : List (List String × Value)) (name : String) :
    FieldShape → Option Value
  | .leaf leaf => leafEntry leaf.cardinality (here name items)
  | .message nested =>
    if (below name items).isEmpty && !present name then none
    else some (.object (objectOf (fun _ => false) nested (below name items)))

section Object

variable {present : String → Bool} {fields : Fields} {items : List (List String × Value)}
  {name : String} {path : List String} {leaf : Leaf}

theorem sorted_objectOf (present : String → Bool) (fields : Fields)
    (items : List (List String × Value)) : SortedMap.Sorted (objectOf present fields items) := by
  induction fields with
  | nil => exact SortedMap.sorted_nil
  | leaf _ _ _ _ ih => exact ih.put _ _
  | message _ _ _ _ ih => exact ih.put _ _

theorem get_objectOf (name : String) :
    SortedMap.get name (objectOf present fields items) =
      (fields.find name).bind (entryOf present items name) := by
  induction fields with
  | nil => rfl
  | leaf name' kind cardinality rest ih =>
    rw [objectOf, SortedMap.get_put, Fields.find]
    split_ifs with hname
    · subst hname
      rfl
    · exact ih
  | message name' nested rest _ ih =>
    rw [objectOf, SortedMap.get_put, Fields.find]
    by_cases hname : name = name'
    · rw [if_pos hname, if_pos hname, hname]
      rfl
    · rw [if_neg hname, if_neg hname, ih]

theorem get_objectOf_of_find {shape : FieldShape} (h : fields.find name = some shape) :
    SortedMap.get name (objectOf present fields items) = entryOf present items name shape := by
  rw [get_objectOf, h, Option.bind_some]

/-- Without values there are no entries. -/
theorem objectOf_nil (fields : Fields) : objectOf (fun _ => false) fields [] = [] := by
  induction fields with
  | nil => rfl
  | leaf name kind cardinality rest ih =>
    rw [objectOf, ih, here_nil]
    cases cardinality <;> rfl
  | message name nested rest _ ih =>
    rw [objectOf, ih]
    rfl

theorem leafEntry_isSome {cardinality : Cardinality} (hc : cardinality ≠ .repeated)
    (vs : List Value) : (leafEntry cardinality vs).isSome = !vs.isEmpty := by
  cases cardinality with
  | repeated => exact absurd rfl hc
  | implicit => cases vs <;> rfl
  | optional => cases vs <;> rfl

/-- The nested object of a message, which is empty when it is not there. -/
theorem get_objectOf_message {nested : Fields} (h : fields.find name = some (.message nested)) :
    (SortedMap.get name (objectOf present fields items)).getD (.object []) =
      .object (objectOf (fun _ => false) nested (below name items)) := by
  rw [get_objectOf_of_find h, entryOf]
  split_ifs with hempty
  · have hbelow : below name items = [] := by simp_all
    rw [hbelow, objectOf_nil]
    rfl
  · rfl

/-- The entry of a field that the path of a value does not start with. -/
theorem entryOf_append {shape : FieldShape} {v : Value} (hname : path.head? ≠ some name) :
    entryOf present (items ++ [(path, v)]) name shape = entryOf present items name shape := by
  have hhere : here name [(path, v)] = [] := by
    have hpath : path ≠ [name] := by
      rintro rfl
      exact hname rfl
    simp [here, hpath]
  have hbelow : below name [(path, v)] = [] := by
    rcases path with _ | ⟨first, _ | ⟨second, rest⟩⟩
    · rfl
    · rfl
    · have hfirst : first ≠ name := by simpa using hname
      simp [below, hfirst]
  cases shape with
  | leaf leaf => rw [entryOf, entryOf, here_append, hhere, List.append_nil]
  | message nested => rw [entryOf, entryOf, below_append, hbelow, List.append_nil]

/-- Putting the new entry of a field under its name. -/
theorem insert_objectOf_eq {shape : FieldShape} {v entry : Value}
    (hshape : fields.find name = some shape) (hname : path.head? = some name)
    (hentry : entryOf present (items ++ [(path, v)]) name shape = some entry) :
    SortedMap.insert name entry (objectOf present fields items) =
      objectOf present fields (items ++ [(path, v)]) := by
  refine ((sorted_objectOf _ _ _).insert _ _).ext (sorted_objectOf _ _ _) fun name' => ?_
  rw [SortedMap.get_insert, get_objectOf, get_objectOf]
  split_ifs with hname'
  · rw [hname', hshape, Option.bind_some, hentry]
  · have hne : path.head? ≠ some name' := by
      rw [hname]
      exact fun heq => hname' (Option.some.inj heq).symm
    cases fields.find name' with
    | none => rfl
    | some shape' => exact (entryOf_append hne).symm

/-- **`insert` adds one value.**  It refuses a second value of a leaf that is not repeated. -/
theorem insert_objectOf {v : Value} (hleaf : fields.leafAt path = some leaf) :
    insert (objectOf present fields items) path v leaf.isList =
      if leaf.isList ∨ valuesAt path items = [] then
        .ok (objectOf present fields (items ++ [(path, v)]))
      else .error invalidRequest := by
  induction path generalizing fields present items with
  | nil => cases hleaf
  | cons name path ih =>
    cases path with
    | nil =>
      have hfind := Fields.find_of_leafAt_singleton hleaf
      have hget : SortedMap.get name (objectOf present fields items) =
          leafEntry leaf.cardinality (here name items) := by
        rw [get_objectOf, hfind]
        rfl
      have hhere : here name (items ++ [([name], v)]) = here name items ++ [v] := by
        rw [here_append]
        simp [here]
      rw [insert, hget, valuesAt_singleton]
      by_cases hlist : leaf.isList = true
      · have hrepeated : leaf.cardinality = .repeated := by simpa [Leaf.isList] using hlist
        have harray : (leafEntry leaf.cardinality (here name items)).getD (.array []) =
            .array (here name items) := by
          rw [hrepeated]
          cases here name items <;> rfl
        rw [if_pos hlist, if_pos (.inl hlist), harray]
        refine congrArg Except.ok (insert_objectOf_eq hfind rfl ?_)
        rw [entryOf, hhere, hrepeated]
        cases here name items <;> rfl
      · have hsingle : leaf.cardinality ≠ .repeated := by simpa [Leaf.isList] using hlist
        rw [if_neg hlist, leafEntry_isSome hsingle]
        cases hempty : here name items with
        | cons x xs => simp [hlist]
        | nil =>
          simp only [List.isEmpty_nil, Bool.not_true, Bool.false_eq_true, if_false, or_true,
            if_true]
          refine congrArg Except.ok (insert_objectOf_eq hfind rfl ?_)
          rw [entryOf, hhere, hempty]
          cases hc : leaf.cardinality with
          | repeated => exact absurd hc hsingle
          | implicit => rfl
          | optional => rfl
    | cons next path =>
      obtain ⟨nested, hfind, hnested⟩ := Fields.find_of_leafAt_cons hleaf
      have hbelow : below name (items ++ [(name :: next :: path, v)]) =
          below name items ++ [(next :: path, v)] := by
        rw [below_append]
        simp [below]
      rw [insert, get_objectOf_message hfind]
      · simp only [ih hnested, valuesAt_below]
        split_ifs
        · refine congrArg Except.ok (insert_objectOf_eq hfind rfl ?_)
          rw [entryOf, hbelow]
          simp
        · rfl
      · simp

end Object

/-! ### Reading the object -/

/-- The value of a leaf for which these values were given, in their order. -/
def leafValue (kind : Kind Empty) : Cardinality → List Scalar → LeafValue
  | .implicit, vs => .one (vs.head?.getD (defaultScalar kind))
  | .optional, vs => .maybe vs.head?
  | .repeated, vs => .many vs

/-- The message with these values at its leaves.  A nested message is there if it has a value, or if
it is `present` anyway. -/
def assemble (present : String → Bool) :
    Fields → List (List String × Scalar) → RequestMessage
  | .nil, _ => .nil
  | .leaf name kind cardinality rest, values =>
    .leaf name (leafValue kind cardinality (here name values)) (assemble present rest values)
  | .message name nested rest, values =>
    if (below name values).isEmpty && !present name then
      .unset name (assemble present rest values)
    else
      .message name (assemble (fun _ => false) nested (below name values))
        (assemble present rest values)

/-- What a value is read as by the leaf of a path, if there is one. -/
def ReadAt (fields : Fields) (path : List String) (v : Value) (x : Scalar) : Prop :=
  ∀ leaf, fields.leafAt path = some leaf → readScalar leaf.kind v = .ok x

/-- Each value is what its item is read as. -/
def ReadAs (fields : Fields) (items : List (List String × Value))
    (values : List (List String × Scalar)) : Prop :=
  List.Forall₂ (fun item v => item.1 = v.1 ∧ ReadAt fields item.1 item.2 v.2) items values

/-- The values of each leaf are as before, in the same order. -/
theorem assemble_congr {present : String → Bool} {fields : Fields}
    {values values' : List (List String × Scalar)}
    (h : ∀ path, valuesAt path values = valuesAt path values') :
    assemble present fields values = assemble present fields values' := by
  induction fields generalizing present values values' with
  | nil => rfl
  | leaf name kind cardinality rest ih =>
    rw [assemble, assemble, ih h, ← valuesAt_singleton, ← valuesAt_singleton, h]
  | message name nested rest ihnested ih =>
    have hbelow : ∀ path,
        valuesAt path (below name values) = valuesAt path (below name values') := by
      intro path
      cases path with
      | nil => rw [valuesAt_nil_below, valuesAt_nil_below]
      | cons next path => rw [valuesAt_below, valuesAt_below, h]
    have hempty : (below name values).isEmpty = (below name values').isEmpty := by
      rw [Bool.eq_iff_iff, List.isEmpty_iff, List.isEmpty_iff, eq_nil_iff_valuesAt,
        eq_nil_iff_valuesAt]
      exact forall_congr' fun path => by rw [hbelow]
    rw [assemble, assemble, hempty, ih h, ihnested hbelow]

section Reading

variable {present : String → Bool} {fields rest : Fields} {items : List (List String × Value)}
  {values : List (List String × Scalar)} {name : String} {m : List (String × Value)}
  {kind : Kind Empty} {cardinality : Cardinality}

theorem ReadAs.mono (h : ReadAs fields items values)
    (hfind : ∀ name shape, rest.find name = some shape → fields.find name = some shape) :
    ReadAs rest items values :=
  h.imp fun _ _ hv => ⟨hv.1, fun leaf hleaf => hv.2 leaf (Fields.leafAt_of_find hfind hleaf)⟩

theorem ReadAs.below {nested : Fields} (h : ReadAs fields items values)
    (hfind : fields.find name = some (.message nested)) :
    ReadAs nested (below name items) (QueryParams.below name values) := by
  refine (forall₂_below (R := ReadAt fields) h name).imp fun item v hv =>
    ⟨hv.1, fun leaf hleaf => hv.2 leaf ?_⟩
  rcases hpath : item.1 with _ | ⟨next, path⟩
  · rw [hpath] at hleaf
    cases hleaf
  · rw [hpath] at hleaf
    rw [Fields.leafAt, hfind, ← hleaf]

theorem readLeaf_leafEntry {vs : List Value} {xs : List Scalar}
    (h : List.Forall₂ (fun v x => readScalar kind v = .ok x) vs xs) :
    readLeaf kind cardinality (leafEntry cardinality vs) =
      .ok (leafValue kind cardinality xs) := by
  cases cardinality with
  | implicit =>
    cases h with
    | nil => rfl
    | cons hv _ =>
      simp only [leafEntry, List.head?_cons, readLeaf, hv]
      rfl
  | optional =>
    cases h with
    | nil => rfl
    | cons hv _ =>
      simp only [leafEntry, List.head?_cons, readLeaf, hv]
      rfl
  | repeated =>
    have hmap : vs.mapM (readScalar kind) = .ok xs := Except.mapM_eq_ok.2 h
    cases vs with
    | nil =>
      cases h
      rfl
    | cons v vs =>
      simp only [leafEntry, List.isEmpty_cons, Bool.false_eq_true, if_false, readLeaf, hmap]
      rfl

/-- The object has keys of its message only. -/
theorem declares_objectOf : fields.declares (objectOf present fields items) = true := by
  refine List.all_eq_true.2 fun name hname => decide_eq_true ?_
  obtain ⟨v, hv⟩ := SortedMap.exists_get hname
  rw [get_objectOf] at hv
  obtain ⟨shape, hshape, -⟩ := Option.bind_eq_some_iff.1 hv
  exact Fields.mem_names_of_find hshape

/-- The first field is found under its name, and the others under theirs. -/
theorem distinct_leaf (h : (Fields.leaf name kind cardinality rest).distinct = true) :
    name ∉ rest.names ∧ rest.distinct = true := by
  simpa [Fields.distinct] using h

theorem distinct_message {nested : Fields}
    (h : (Fields.message name nested rest).distinct = true) :
    name ∉ rest.names ∧ nested.distinct = true ∧ rest.distinct = true := by
  simpa [Fields.distinct, and_assoc] using h

/-- **The object is read as the request with the values of its items.** -/
theorem readFields_objectOf (hdistinct : fields.distinct = true) (h : ReadAs fields items values)
    (hm : ∀ name shape, fields.find name = some shape →
      SortedMap.get name m = entryOf present items name shape) :
    readFields fields m = .ok (assemble present fields values) := by
  induction fields generalizing present items values m with
  | nil => rfl
  | leaf name kind cardinality rest ih =>
    obtain ⟨hname, hrest⟩ := distinct_leaf hdistinct
    have hfind : (Fields.leaf name kind cardinality rest).find name =
        some (.leaf ⟨kind, cardinality⟩) := by
      rw [Fields.find, if_pos rfl]
    have hhere : List.Forall₂ (fun v x => readScalar kind v = .ok x) (here name items)
        (here name values) :=
      (forall₂_here (R := ReadAt _) h name).imp fun v x hv =>
        hv ⟨kind, cardinality⟩ (by rw [Fields.leafAt, hfind])
    have hothers := ih hrest (h.mono fun _ _ => Fields.find_leaf hname)
      fun name' shape hshape => hm name' shape (Fields.find_leaf hname hshape)
    rw [readFields, hm name _ hfind, entryOf, readLeaf_leafEntry hhere, hothers]
    rfl
  | message name nested rest ihnested ih =>
    obtain ⟨hname, hnested, hrest⟩ := distinct_message hdistinct
    have hfind : (Fields.message name nested rest).find name = some (.message nested) := by
      rw [Fields.find, if_pos rfl]
    have hbelow := h.below hfind
    have hempty : (below name items).isEmpty = (below name values).isEmpty := by
      rw [Bool.eq_iff_iff, List.isEmpty_iff_length_eq_zero, List.isEmpty_iff_length_eq_zero,
        List.Forall₂.length_eq hbelow]
    have hothers := ih hrest (h.mono fun _ _ => Fields.find_message hname)
      fun name' shape hshape => hm name' shape (Fields.find_message hname hshape)
    have hinner : readFields nested (objectOf (fun _ => false) nested (below name items)) =
        .ok (assemble (fun _ => false) nested (below name values)) :=
      ihnested hnested hbelow fun _ _ => get_objectOf_of_find
    rw [readFields, hm name _ hfind, entryOf, assemble, hempty]
    split_ifs with habsent
    · rw [hothers]
      rfl
    · simp only [Except.refuse, declares_objectOf, hinner, hothers]
      rfl

/-! ### When the object is not read -/

/-- Every item is canonical for the leaf of its path. -/
def Canonical (fields : Fields) (items : List (List String × Value)) : Prop :=
  ∀ item ∈ items, ∀ leaf, fields.leafAt item.1 = some leaf →
    Except.Errors (· = .unknownName) (readScalar leaf.kind item.2)

theorem Canonical.mono (h : Canonical fields items)
    (hfind : ∀ name shape, rest.find name = some shape → fields.find name = some shape) :
    Canonical rest items :=
  fun item hitem leaf hleaf => h item hitem leaf (Fields.leafAt_of_find hfind hleaf)

theorem Canonical.below {nested : Fields} (h : Canonical fields items)
    (hfind : fields.find name = some (.message nested)) :
    Canonical nested (below name items) := by
  rintro ⟨path, v⟩ hitem leaf hleaf
  refine h (name :: path, v) (mem_below hitem) leaf ?_
  cases path with
  | nil => cases hleaf
  | cons next path => rw [Fields.leafAt, hfind, ← hleaf]

theorem errors_readLeaf {vs : List Value}
    (h : ∀ v ∈ vs, Except.Errors (· = .unknownName) (readScalar kind v)) :
    Except.Errors (· = .unknownName)
      (readLeaf kind cardinality (leafEntry cardinality vs)) := by
  cases vs with
  | nil => cases cardinality <;> exact Except.errors_ok
  | cons v vs =>
    cases cardinality with
    | implicit => exact (h v List.mem_cons_self).bind fun _ => Except.errors_pure
    | optional => exact (h v List.mem_cons_self).bind fun _ => Except.errors_pure
    | repeated => exact (Except.Errors.mapM h).bind fun _ => Except.errors_pure

/-- Canonical items are refused for an unknown name only. -/
theorem errors_readFields (hdistinct : fields.distinct = true) (h : Canonical fields items)
    (hm : ∀ name shape, fields.find name = some shape →
      SortedMap.get name m = entryOf present items name shape) :
    Except.Errors (· = .unknownName) (readFields fields m) := by
  induction fields generalizing present items m with
  | nil => exact Except.errors_ok
  | leaf name kind cardinality rest ih =>
    obtain ⟨hname, hrest⟩ := distinct_leaf hdistinct
    have hfind : (Fields.leaf name kind cardinality rest).find name =
        some (.leaf ⟨kind, cardinality⟩) := by
      rw [Fields.find, if_pos rfl]
    have hhere : ∀ v ∈ here name items,
        Except.Errors (· = .unknownName) (readScalar kind v) := by
      intro v hv
      rw [← valuesAt_singleton, mem_valuesAt] at hv
      exact h _ hv ⟨kind, cardinality⟩ (by rw [Fields.leafAt, hfind])
    have hothers := ih hrest (h.mono fun _ _ => Fields.find_leaf hname)
      fun name' shape hshape => hm name' shape (Fields.find_leaf hname hshape)
    rw [readFields, hm name _ hfind, entryOf]
    exact (errors_readLeaf hhere).bind fun _ => hothers.bind fun _ => Except.errors_pure
  | message name nested rest ihnested ih =>
    obtain ⟨hname, hnested, hrest⟩ := distinct_message hdistinct
    have hfind : (Fields.message name nested rest).find name = some (.message nested) := by
      rw [Fields.find, if_pos rfl]
    have hothers := ih hrest (h.mono fun _ _ => Fields.find_message hname)
      fun name' shape hshape => hm name' shape (Fields.find_message hname hshape)
    have hinner : Except.Errors (· = .unknownName)
        (readFields nested (objectOf (fun _ => false) nested (below name items))) :=
      ihnested hnested (h.below hfind) fun _ _ => get_objectOf_of_find
    rw [readFields, hm name _ hfind, entryOf]
    split_ifs
    · exact hothers.bind fun _ => Except.errors_pure
    · refine Except.Errors.bind (Except.errors_refuse.2 ?_) fun _ =>
        hinner.bind fun _ => hothers.bind fun _ => Except.errors_pure
      rw [declares_objectOf]
      exact nofun

theorem readFields_rest {message : RequestMessage} {nested : Fields}
    (h : readFields (.message name nested rest) m = .ok message) :
    ∃ others, readFields rest m = .ok others := by
  rw [readFields] at h
  split at h
  · obtain ⟨others, hothers, -⟩ := Except.bind_eq_ok.1 h
    exact ⟨others, hothers⟩
  · simp only [Except.bind_eq_ok] at h
    obtain ⟨-, -, -, -, others, hothers, -⟩ := h
    exact ⟨others, hothers⟩
  · cases h

theorem readLeaf_of_find {message : RequestMessage} {leaf : Leaf}
    (h : readFields fields m = .ok message) (hfind : fields.find name = some (.leaf leaf)) :
    ∃ x, readLeaf leaf.kind leaf.cardinality (SortedMap.get name m) = .ok x := by
  induction fields generalizing message with
  | nil => cases hfind
  | leaf name' kind cardinality rest ih =>
    simp only [readFields, Except.bind_eq_ok] at h
    obtain ⟨x, hx, others, hothers, -⟩ := h
    rw [Fields.find] at hfind
    split_ifs at hfind with hname
    · cases hfind
      exact ⟨x, hname ▸ hx⟩
    · exact ih hothers hfind
  | message name' nested rest _ ih =>
    obtain ⟨others, hothers⟩ := readFields_rest h
    rw [Fields.find] at hfind
    split_ifs at hfind
    · cases hfind
    · exact ih hothers hfind

theorem readFields_of_find {message : RequestMessage} {nested : Fields}
    {m' : List (String × Value)} (h : readFields fields m = .ok message)
    (hfind : fields.find name = some (.message nested))
    (hget : SortedMap.get name m = some (.object m')) :
    ∃ inner, readFields nested m' = .ok inner := by
  induction fields generalizing message with
  | nil => cases hfind
  | leaf name' kind cardinality rest ih =>
    simp only [readFields, Except.bind_eq_ok] at h
    obtain ⟨-, -, others, hothers, -⟩ := h
    rw [Fields.find] at hfind
    split_ifs at hfind
    · cases hfind
    · exact ih hothers hfind
  | message name' nested' rest _ ih =>
    rw [Fields.find] at hfind
    by_cases hname : name = name'
    · rw [if_pos hname] at hfind
      cases hfind
      rw [readFields, ← hname, hget] at h
      simp only [Except.bind_eq_ok] at h
      obtain ⟨-, -, inner, hinner, -⟩ := h
      exact ⟨inner, hinner⟩
    · rw [if_neg hname] at hfind
      obtain ⟨others, hothers⟩ := readFields_rest h
      exact ih hothers hfind

/-- An object that is read is read at every leaf. -/
theorem readLeaf_of_readFields {message : RequestMessage} {path : List String} {leaf : Leaf}
    (h : readFields fields m = .ok message) (hleaf : fields.leafAt path = some leaf)
    (hm : ∀ name shape, fields.find name = some shape →
      SortedMap.get name m = entryOf present items name shape) :
    ∃ x, readLeaf leaf.kind leaf.cardinality (leafEntry leaf.cardinality (valuesAt path items)) =
      .ok x := by
  induction path generalizing fields present items m message with
  | nil => cases hleaf
  | cons name path ih =>
    cases path with
    | nil =>
      have hfind := Fields.find_of_leafAt_singleton hleaf
      have hread := readLeaf_of_find h hfind
      rwa [hm name _ hfind] at hread
    | cons next path =>
      obtain ⟨nested, hfind, hnested⟩ := Fields.find_of_leafAt_cons hleaf
      have hget := hm name _ hfind
      rw [entryOf] at hget
      rw [← valuesAt_below]
      split_ifs at hget with hempty
      · have hbelow : below name items = [] := by simp_all
        rw [hbelow]
        cases leaf.cardinality with
        | implicit => exact ⟨_, rfl⟩
        | optional => exact ⟨_, rfl⟩
        | repeated => exact ⟨_, rfl⟩
      · obtain ⟨inner, hinner⟩ := readFields_of_find h hfind hget
        exact ih hinner hnested fun _ _ => get_objectOf_of_find

/-- A leaf that is read is read at each of its values, if it is repeated or has only one. -/
theorem readScalar_of_readLeaf {vs : List Value} {x : LeafValue}
    (h : readLeaf kind cardinality (leafEntry cardinality vs) = .ok x)
    (hsingle : cardinality = .repeated ∨ vs.length ≤ 1) :
    ∀ v ∈ vs, ∃ y, readScalar kind v = .ok y := by
  rcases vs with _ | ⟨v, vs⟩
  · exact nofun
  cases cardinality with
  | repeated =>
    obtain ⟨ys, hys, -⟩ := Except.bind_eq_ok.1 h
    exact fun v hv => exists_of_forall₂ (Except.mapM_eq_ok.1 hys) hv
  | implicit =>
    obtain ⟨y, hy, -⟩ := Except.bind_eq_ok.1 h
    have hvs : vs = [] := by simpa using hsingle
    simpa [hvs] using ⟨y, hy⟩
  | optional =>
    obtain ⟨y, hy, -⟩ := Except.bind_eq_ok.1 h
    have hvs : vs = [] := by simpa using hsingle
    simpa [hvs] using ⟨y, hy⟩

end Reading

end QueryParams

end MoenotesApi
