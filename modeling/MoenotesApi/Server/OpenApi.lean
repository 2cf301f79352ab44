import Mathlib.Data.Set.Card
import MoenotesApi.Library.JsonTree
import MoenotesApi.Server.Descriptors

/-!
# Schemas of the OpenAPI document

`openapi.rs`: the component schemas, which `schema` collects by a depth-first search that marks a
message with an empty object before it visits its fields.

* `schema`, `fieldSchema`, `kind`: the code; `schema` counts how deep the calls may nest;
* `Edge`, `Reachable`: the messages that the fields of a message lead to;
* `Extends`: what a call does to the map, whatever marks of outer calls are in it
  (`extends_of_schema`);
* `exists_schema`: the calls do not nest deeper than there are messages without an entry;
* `schema_covers`.

The map is a sorted list; names in JSON objects are in their order.
-/

namespace MoenotesApi.OpenApi

open JsonTree (Value)

/-- `BTreeMap<String, Value>`. -/
abbrev Schemas := List (String × Value)

/-- A call panics, or the calls nest deeper than the given number. -/
inductive Halt
  | panic
  | depth
  deriving DecidableEq, Repr

/-- `format!("#/components/schemas/{name}")`. -/
def reference (name : String) : String := "#/components/schemas/" ++ name

section Code

variable {M : Type} (pool : DescriptorPool M)

/-- `kind`, which calls `schema`. -/
def kind (schema : M → Schemas → Except Halt Schemas) :
    Kind M → Schemas → Except Halt (Value × Schemas)
  | .message message, schemas => do
    let schemas ← schema message schemas
    return (.object [("$ref", .string (reference (pool.fullName message)))], schemas)
  | .enum values, schemas =>
    .ok (.object [("oneOf", .array
      [.object [("enum", .array (values.map fun v => .string v.1)), ("type", .string "string")],
        .object [("format", .string "int32"), ("type", .string "integer")]])], schemas)
  | .int64, schemas | .sint64, schemas | .sfixed64, schemas =>
    .ok (.object [("pattern", .string "^-?[0-9]+$"), ("type", .string "string")], schemas)
  | .uint64, schemas | .fixed64, schemas =>
    .ok (.object [("pattern", .string "^[0-9]+$"), ("type", .string "string")], schemas)
  | .bool, schemas => .ok (.object [("type", .string "boolean")], schemas)
  | .string, schemas => .ok (.object [("type", .string "string")], schemas)
  | .bytes, schemas =>
    .ok (.object [("contentEncoding", .string "base64"), ("type", .string "string")], schemas)
  | .float, schemas | .double, schemas =>
    .ok (.object [("oneOf", .array
      [.object [("type", .string "number")],
        .object [("enum", .array [.string "NaN", .string "Infinity", .string "-Infinity"]),
          ("type", .string "string")]])], schemas)
  | .int32, schemas | .uint32, schemas | .sint32, schemas | .fixed32, schemas
  | .sfixed32, schemas => .ok (.object [("type", .string "integer")], schemas)

/-- The schema of a field in the loop of `schema`. -/
def fieldSchema (schema : M → Schemas → Except Halt Schemas) (field : FieldDescriptor M)
    (schemas : Schemas) : Except Halt (Value × Schemas) :=
  if field.isMap then
    match field.kind with
    | .message entry =>
      match pool.getFieldByName entry "value" with
      | none => .error .panic
      | some value => do
        let (value, schemas) ← kind pool schema value.kind schemas
        return (.object [("additionalProperties", value), ("type", .string "object")], schemas)
    | _ => .error .panic
  else if field.isList then do
    let (value, schemas) ← kind pool schema field.kind schemas
    return (.object [("items", value), ("type", .string "array")], schemas)
  else kind pool schema field.kind schemas

/-- The body of the loop of `schema`. -/
def addProperty (schema : M → Schemas → Except Halt Schemas) (done : Schemas × Schemas)
    (field : FieldDescriptor M) : Except Halt (Schemas × Schemas) := do
  let (value, schemas) ← fieldSchema pool schema field done.2
  return (SortedMap.insert field.jsonName value done.1, schemas)

/-- The schema of a message with these properties. -/
def objectSchema (properties : Schemas) : Value :=
  .object [("additionalProperties", .bool false), ("properties", .object properties),
    ("type", .string "object")]

/-- `schema`, with the number of calls that may nest. -/
def schema : ℕ → M → Schemas → Except Halt Schemas
  | 0, _, _ => .error .depth
  | depth + 1, message, schemas => do
    let name := pool.fullName message
    if (SortedMap.get name schemas).isSome then return schemas
    let (properties, schemas) ← (pool.fields message).foldlM (addProperty pool (schema depth))
      ([], SortedMap.insert name (.object []) schemas)
    return SortedMap.insert name (objectSchema properties) schemas

/-- The maps that calls of `schema` produce, one after the other. -/
inductive Produced : Schemas → Prop
  | empty : Produced []
  | call {depth : ℕ} {message : M} {before after : Schemas} (hbefore : Produced before)
      (hcall : schema pool depth message before = .ok after) : Produced after

/-- A field of a map has an entry message with a value, as `prost_reflect` builds it. -/
def MapsHaveValues : Prop :=
  ∀ message, ∀ field ∈ pool.fields message, field.isMap = true →
    ∃ entry value, field.kind = .message entry ∧ pool.getFieldByName entry "value" = some value

/-- The message in a field: of the values of a map, the items of a list or the field itself. -/
inductive Target (field : FieldDescriptor M) : M → Prop
  | field {message : M} (hmap : field.isMap = false) (hkind : field.kind = .message message) :
    Target field message
  | mapValue {entry message : M} {value : FieldDescriptor M} (hmap : field.isMap = true)
      (hentry : field.kind = .message entry)
      (hvalue : pool.getFieldByName entry "value" = some value)
      (hkind : value.kind = .message message) : Target field message

/-- A field of the first message leads to the second. -/
def Edge (a b : M) : Prop := ∃ field ∈ pool.fields a, Target pool field b

def Reachable : M → M → Prop := Relation.ReflTransGen (Edge pool)

end Code

/-- A reference somewhere in a schema. -/
inductive Refers : Value → String → Prop
  | here {m : List (String × Value)} {r : String} (h : SortedMap.get "$ref" m = some (.string r)) :
    Refers (.object m) r
  | entry {m : List (String × Value)} {e : String × Value} {r : String} (he : e ∈ m)
      (h : Refers e.2 r) : Refers (.object m) r
  | item {items : List Value} {v : Value} {r : String} (hv : v ∈ items) (h : Refers v r) :
    Refers (.array items) r

variable {M : Type} {pool : DescriptorPool M}

/-- Every reference in the value names a key of the map. -/
def Resolves (schemas : Schemas) (value : Value) : Prop :=
  ∀ r, Refers value r → ∃ name ∈ SortedMap.keys schemas, r = reference name

/-- The entry is the complete schema of a message: its references and the messages that its fields
lead to are in the map. -/
def Finished (pool : DescriptorPool M) (P : M → Prop) (schemas : Schemas) (name : String)
    (value : Value) : Prop :=
  (∃ message, pool.fullName message = name ∧ P message ∧
    ∀ next, Edge pool message next → pool.fullName next ∈ SortedMap.keys schemas) ∧
  Resolves schemas value ∧ value ≠ .object []

/-- What a call does to the map: entries stay as they are, also the marks of outer calls, and new
entries are complete schemas of messages with `P`. -/
structure Extends (pool : DescriptorPool M) (P : M → Prop) (before after : Schemas) : Prop where
  kept : ∀ k v, SortedMap.get k before = some v → SortedMap.get k after = some v
  fresh : ∀ k v, SortedMap.get k before = none → SortedMap.get k after = some v →
    Finished pool P after k v

/-! ### References -/

theorem not_refers_string (text r : String) : ¬ Refers (.string text) r := nofun

theorem not_refers_bool (b : Bool) (r : String) : ¬ Refers (.bool b) r := nofun

/-- The references of an object, unless its own entry `$ref` is one. -/
theorem refers_object {m : List (String × Value)} {r : String} :
    Refers (.object m) r ↔
      SortedMap.get "$ref" m = some (.string r) ∨ ∃ e ∈ m, Refers e.2 r := by
  constructor
  · intro h
    cases h with
    | here h => exact .inl h
    | entry he h => exact .inr ⟨_, he, h⟩
  · rintro (h | ⟨e, he, h⟩)
    · exact .here h
    · exact .entry he h

theorem refers_array {items : List Value} {r : String} :
    Refers (.array items) r ↔ ∃ v ∈ items, Refers v r := by
  constructor
  · intro h
    cases h with
    | item hv h => exact ⟨_, hv, h⟩
  · rintro ⟨v, hv, h⟩
    exact .item hv h

/-- An object with a schema under another name than `$ref`, next to a text. -/
theorem refers_pair {k k' text : String} {v : Value} {r : String} (hk : "$ref" ≠ k)
    (hk' : "$ref" ≠ k') :
    Refers (.object [(k, v), (k', .string text)]) r ↔ Refers v r := by
  rw [refers_object]
  simp [SortedMap.get_cons, hk, hk', not_refers_string]

theorem refers_reference {name r : String} :
    Refers (.object [("$ref", .string name)]) r ↔ r = name := by
  rw [refers_object]
  simp [SortedMap.get_cons, not_refers_string, eq_comm]

theorem refers_objectSchema {properties : Schemas} {r : String} :
    Refers (objectSchema properties) r ↔ Refers (.object properties) r := by
  rw [objectSchema, refers_object]
  simp [SortedMap.get_cons, not_refers_string, not_refers_bool]

theorem Resolves.mono {before after : Schemas} {value : Value} (h : Resolves before value)
    (hkeys : ∀ k ∈ SortedMap.keys before, k ∈ SortedMap.keys after) : Resolves after value := by
  intro r hr
  obtain ⟨name, hname, rfl⟩ := h r hr
  exact ⟨name, hkeys name hname, rfl⟩

/-! ### Extensions -/

section Extends

variable {P Q : M → Prop} {before middle after : Schemas} {name : String} {value : Value}

theorem Extends.refl (schemas : Schemas) : Extends pool P schemas schemas :=
  ⟨fun _ _ h => h, fun k v hnone hsome => by rw [hnone] at hsome; cases hsome⟩

theorem Extends.keys (h : Extends pool P before after) :
    ∀ k ∈ SortedMap.keys before, k ∈ SortedMap.keys after := by
  intro k hk
  obtain ⟨v, hv⟩ := SortedMap.exists_get hk
  exact SortedMap.mem_keys_of_get (h.kept k v hv)

theorem Finished.mono (h : Finished pool P before name value) (hPQ : ∀ m, P m → Q m)
    (hkeys : ∀ k ∈ SortedMap.keys before, k ∈ SortedMap.keys after) :
    Finished pool Q after name value := by
  obtain ⟨⟨message, hname, hP, hedges⟩, hrefs, hne⟩ := h
  exact ⟨⟨message, hname, hPQ message hP, fun next hnext => hkeys _ (hedges next hnext)⟩,
    hrefs.mono hkeys, hne⟩

theorem Extends.mono (h : Extends pool P before after) (hPQ : ∀ m, P m → Q m) :
    Extends pool Q before after :=
  ⟨h.kept, fun k v hnone hsome => (h.fresh k v hnone hsome).mono hPQ fun _ hk => hk⟩

theorem Extends.trans (h : Extends pool P before middle) (h' : Extends pool P middle after) :
    Extends pool P before after := by
  refine ⟨fun k v hv => h'.kept k v (h.kept k v hv), fun k v hnone hsome => ?_⟩
  cases hmiddle : SortedMap.get k middle with
  | none => exact h'.fresh k v hmiddle hsome
  | some w =>
    have hw := h'.kept k w hmiddle
    rw [hsome] at hw
    cases hw
    exact (h.fresh k v hnone hmiddle).mono (fun _ hP => hP) h'.keys

end Extends

/-! ### One call -/

section Call

variable {call call' : M → Schemas → Except Halt Schemas} {k : Kind M} {field : FieldDescriptor M}
variable {before after : Schemas} {value : Value} {message : M}

/-- What a call of `schema` does. -/
def Collects (pool : DescriptorPool M) (call : M → Schemas → Except Halt Schemas) : Prop :=
  ∀ message before after, call message before = .ok after →
    Extends pool (Reachable pool message) before after ∧
      pool.fullName message ∈ SortedMap.keys after

/-- What a call of `kind` or `fieldSchema` does, where the messages in the field have `Next`. -/
structure Described (pool : DescriptorPool M) (Next : M → Prop) (before after : Schemas)
    (value : Value) : Prop where
  grown : Extends pool (fun m => ∃ message, Next message ∧ Reachable pool message m) before after
  keys : ∀ message, Next message → pool.fullName message ∈ SortedMap.keys after
  resolves : Resolves after value
  isObject : ∃ m, value = .object m

/-- A schema without references, for a kind without messages. -/
theorem described_leaf {Next : M → Prop} {m : List (String × Value)}
    (hnext : ∀ message, ¬ Next message) (hrefs : ∀ r, ¬ Refers (.object m) r) :
    Described pool Next before before (.object m) :=
  ⟨.refl before, fun message h => absurd h (hnext message), fun r hr => absurd hr (hrefs r), m, rfl⟩

theorem described_of_kind (hcall : Collects pool call)
    (h : kind pool call k before = .ok (value, after)) :
    Described pool (fun message => k = .message message) before after value := by
  cases k with
  | message message =>
    obtain ⟨schemas, hschema, h⟩ := Except.bind_eq_ok.1 h
    cases h
    obtain ⟨hgrown, hkey⟩ := hcall message before after hschema
    refine ⟨hgrown.mono fun m hm => ⟨message, rfl, hm⟩, ?_, ?_, ⟨_, rfl⟩⟩
    · rintro message' heq
      cases heq
      exact hkey
    · intro r hr
      exact ⟨_, hkey, refers_reference.1 hr⟩
  | enum values =>
    cases h
    exact described_leaf nofun fun r => by
      simp [refers_object, refers_array, SortedMap.get_cons, not_refers_string]
  | _ =>
    cases h
    exact described_leaf nofun fun r => by
      simp [refers_object, refers_array, SortedMap.get_cons, not_refers_string]

/-- The schema of a list or a map has the references of the schema in it. -/
theorem Described.wrap {Next : M → Prop} (h : Described pool Next before after value)
    {name name' text : String} (hname : "$ref" ≠ name) (hname' : "$ref" ≠ name') :
    Described pool Next before after (.object [(name, value), (name', .string text)]) :=
  ⟨h.grown, h.keys, fun r hr => h.resolves r ((refers_pair hname hname').1 hr), _, rfl⟩

theorem Described.congr {Next Next' : M → Prop} (h : Described pool Next before after value)
    (hnext : ∀ message, Next' message ↔ Next message) :
    Described pool Next' before after value := by
  obtain rfl : Next' = Next := funext fun message => propext (hnext message)
  exact h

theorem described_of_fieldSchema (hcall : Collects pool call)
    (h : fieldSchema pool call field before = .ok (value, after)) :
    Described pool (Target pool field) before after value := by
  unfold fieldSchema at h
  split_ifs at h with hmap hlist
  · split at h
    · rename_i entry hentry
      split at h
      · cases h
      · rename_i item hitem
        obtain ⟨⟨schema, schemas⟩, hkind, h⟩ := Except.bind_eq_ok.1 h
        cases h
        have hitemSchema := described_of_kind hcall hkind
        refine (hitemSchema.wrap (by decide) (by decide)).congr fun message => ?_
        constructor
        · rintro (⟨hno, -⟩ | ⟨-, hentry', hitem', hmessage⟩)
          · rw [hmap] at hno
            cases hno
          · rw [hentry] at hentry'
            cases hentry'
            rw [hitem] at hitem'
            cases hitem'
            exact hmessage
        · exact fun hmessage => .mapValue hmap hentry hitem hmessage
    · cases h
  all_goals
    have htarget : ∀ message, Target pool field message ↔ field.kind = .message message := by
      refine fun message => ⟨?_, .field (by simpa using hmap)⟩
      rintro (⟨-, hkind⟩ | ⟨hyes, -, -, -⟩)
      · exact hkind
      · exact absurd hyes hmap
  · obtain ⟨⟨schema, schemas⟩, hkind, h⟩ := Except.bind_eq_ok.1 h
    cases h
    exact ((described_of_kind hcall hkind).wrap (by decide) (by decide)).congr htarget
  · exact (described_of_kind hcall h).congr htarget

/-- What the loop of `schema` has collected after some of the fields. -/
structure Collected (pool : DescriptorPool M) (message : M) (before : Schemas)
    (done : List (FieldDescriptor M)) (state : Schemas × Schemas) : Prop where
  grown : Extends pool (Reachable pool message) before state.2
  keys : ∀ field ∈ done, ∀ next, Target pool field next →
    pool.fullName next ∈ SortedMap.keys state.2
  resolves : Resolves state.2 (.object state.1)
  isObject : ∀ name v, SortedMap.get name state.1 = some v → ∃ m, v = .object m

theorem Collected.start (message : M) (before : Schemas) :
    Collected pool message before [] ([], before) :=
  ⟨.refl before, nofun, fun r hr => by simp [refers_object] at hr, nofun⟩

/-- One more field. -/
theorem Collected.step {done : List (FieldDescriptor M)} {state state' : Schemas × Schemas}
    (hcall : Collects pool call) (hfield : field ∈ pool.fields message)
    (h : Collected pool message before done state)
    (hstep : addProperty pool call state field = .ok state') :
    Collected pool message before (done ++ [field]) state' := by
  obtain ⟨⟨value, schemas⟩, hvalue, hstep⟩ := Except.bind_eq_ok.1 hstep
  cases hstep
  have hdescribed := described_of_fieldSchema hcall hvalue
  have hgrown : Extends pool (Reachable pool message) state.2 schemas :=
    hdescribed.grown.mono fun m ⟨next, hnext, hm⟩ => .head ⟨field, hfield, hnext⟩ hm
  refine ⟨h.grown.trans hgrown, ?_, ?_, ?_⟩
  · intro field' hfield' next hnext
    rcases List.mem_append.1 hfield' with hdone | hlast
    · exact hgrown.keys _ (h.keys field' hdone next hnext)
    · rw [List.mem_singleton.1 hlast] at hnext
      exact hdescribed.keys next hnext
  · intro r hr
    rcases refers_object.1 hr with hget | ⟨e, he, hr⟩
    · -- a property is an object, also one with the name `$ref`
      rw [SortedMap.get_insert] at hget
      split_ifs at hget
      · obtain ⟨m, hm⟩ := hdescribed.isObject
        rw [hm] at hget
        cases hget
      · obtain ⟨m, hm⟩ := h.isObject _ _ hget
        cases hm
    · rcases SortedMap.mem_insert he with rfl | he
      · exact hdescribed.resolves r hr
      · exact (h.resolves.mono hgrown.keys) r (.entry he hr)
  · intro name v hv
    rw [SortedMap.get_insert] at hv
    split_ifs at hv
    · cases hv
      exact hdescribed.isObject
    · exact h.isObject name v hv

end Call

/-- **What a call of `schema` does**, by the depth of the calls in it. -/
theorem collects_schema (depth : ℕ) : Collects pool (schema pool depth) := by
  induction depth with
  | zero => exact fun message before after h => by cases h
  | succ depth ih =>
    intro message before after h
    simp only [schema] at h
    split_ifs at h with hmem
    · cases h
      exact ⟨.refl before, SortedMap.get_isSome.1 hmem⟩
    obtain ⟨⟨properties, schemas⟩, hloop, h⟩ := Except.bind_eq_ok.1 h
    cases h
    have hnone : SortedMap.get (pool.fullName message) before = none := by simpa using hmem
    -- the loop starts with the mark of the message in the map
    have hcollected : Collected pool message
        (SortedMap.insert (pool.fullName message) (.object []) before) (pool.fields message)
        (properties, schemas) := by
      refine Except.foldlM_induction (.start message _)
        (fun done field state state' hprefix => ?_) hloop
      have hfield : field ∈ pool.fields message := hprefix.subset (by simp)
      exact fun hdone hstep => hdone.step ih hfield hstep
    have hkeys : ∀ k ∈ SortedMap.keys schemas, k ∈ SortedMap.keys
        (SortedMap.insert (pool.fullName message) (objectSchema properties) schemas) := by
      intro k hk
      obtain ⟨v, hv⟩ := SortedMap.exists_get hk
      rw [← SortedMap.get_isSome, SortedMap.get_insert]
      split_ifs
      · rfl
      · rw [hv]
        rfl
    have hname : pool.fullName message ∈ SortedMap.keys
        (SortedMap.insert (pool.fullName message) (objectSchema properties) schemas) := by
      rw [← SortedMap.get_isSome, SortedMap.get_insert, if_pos rfl]
      rfl
    refine ⟨⟨fun k v hv => ?_, fun k v hbefore hv => ?_⟩, hname⟩
    · have hne : k ≠ pool.fullName message := by
        rintro rfl
        rw [hnone] at hv
        cases hv
      rw [SortedMap.get_insert, if_neg hne]
      exact hcollected.grown.kept k v (by rw [SortedMap.get_insert, if_neg hne, hv])
    · rw [SortedMap.get_insert] at hv
      split_ifs at hv with hk
      · -- the mark is replaced by the complete schema
        cases hv
        subst hk
        refine ⟨⟨message, rfl, .refl, ?_⟩, ?_, by simp [objectSchema]⟩
        · rintro next ⟨field, hfield, hnext⟩
          exact hkeys _ (hcollected.keys field hfield next hnext)
        · intro r hr
          exact (hcollected.resolves.mono hkeys) r (refers_objectSchema.1 hr)
      · have hmarked : SortedMap.get k
            (SortedMap.insert (pool.fullName message) (.object []) before) = none := by
          rw [SortedMap.get_insert, if_neg hk, hbefore]
        exact (hcollected.grown.fresh k v hmarked hv).mono (fun _ h => h) hkeys

/-! ### Depth -/

section Depth

/-- The second function returns whatever the first one does. -/
def Refines (call call' : M → Schemas → Except Halt Schemas) : Prop :=
  ∀ message before after, call message before = .ok after → call' message before = .ok after

theorem kind_mono {call call' : M → Schemas → Except Halt Schemas} {k : Kind M}
    (hcall : Refines call call') {before : Schemas} {r : Value × Schemas}
    (h : kind pool call k before = .ok r) :
    kind pool call' k before = .ok r := by
  cases k with
  | message message =>
    obtain ⟨schemas, hschema, h⟩ := Except.bind_eq_ok.1 h
    exact Except.bind_eq_ok.2 ⟨schemas, hcall _ _ _ hschema, h⟩
  | _ => exact h

theorem fieldSchema_mono {call call' : M → Schemas → Except Halt Schemas}
    {field : FieldDescriptor M} (hcall : Refines call call') {before : Schemas}
    {r : Value × Schemas} (h : fieldSchema pool call field before = .ok r) :
    fieldSchema pool call' field before = .ok r := by
  unfold fieldSchema at h ⊢
  split_ifs at h ⊢
  · split at h
    · split at h
      · cases h
      · obtain ⟨r', hkind, h⟩ := Except.bind_eq_ok.1 h
        exact Except.bind_eq_ok.2 ⟨r', kind_mono hcall hkind, h⟩
    · cases h
  · obtain ⟨r', hkind, h⟩ := Except.bind_eq_ok.1 h
    exact Except.bind_eq_ok.2 ⟨r', kind_mono hcall hkind, h⟩
  · exact kind_mono hcall h

theorem foldlM_mono {call call' : M → Schemas → Except Halt Schemas}
    (hcall : Refines call call') (fields : List (FieldDescriptor M)) {state r : Schemas × Schemas}
    (h : fields.foldlM (addProperty pool call) state = .ok r) :
    fields.foldlM (addProperty pool call') state = .ok r := by
  induction fields generalizing state with
  | nil => exact h
  | cons field fields ih =>
    rw [List.foldlM_cons, Except.bind_eq_ok] at h ⊢
    obtain ⟨state', hstep, h⟩ := h
    obtain ⟨r', hfield, hstep⟩ := Except.bind_eq_ok.1 hstep
    exact ⟨state', Except.bind_eq_ok.2 ⟨r', fieldSchema_mono hcall hfield, hstep⟩, ih h⟩

theorem schema_succ (depth : ℕ) (message : M) (before after : Schemas)
    (h : schema pool depth message before = .ok after) :
    schema pool (depth + 1) message before = .ok after := by
  induction depth generalizing message before after with
  | zero => cases h
  | succ depth ih =>
    rw [schema] at h ⊢
    simp only at h ⊢
    split_ifs at h ⊢
    · exact h
    · obtain ⟨r, hloop, h⟩ := Except.bind_eq_ok.1 h
      exact Except.bind_eq_ok.2 ⟨r, foldlM_mono ih _ hloop, h⟩

theorem schema_mono {depth depth' : ℕ} (hle : depth ≤ depth') {message : M} {before after : Schemas}
    (h : schema pool depth message before = .ok after) :
    schema pool depth' message before = .ok after := by
  induction hle with
  | refl => exact h
  | step _ ih => exact schema_succ _ _ _ _ ih

end Depth

/-! ### Termination -/

section Termination

theorem exists_fieldSchema (hmaps : MapsHaveValues pool) {depth : ℕ} {message : M}
    {field : FieldDescriptor M} (hfield : field ∈ pool.fields message) {before : Schemas}
    (hcall : ∀ message, ∃ after, schema pool depth message before = .ok after) :
    ∃ r, fieldSchema pool (schema pool depth) field before = .ok r := by
  have hkind : ∀ k, ∃ r, kind pool (schema pool depth) k before = .ok r := by
    intro k
    cases k with
    | message message =>
      obtain ⟨after, hafter⟩ := hcall message
      exact ⟨_, Except.bind_eq_ok.2 ⟨after, hafter, rfl⟩⟩
    | _ => exact ⟨_, rfl⟩
  unfold fieldSchema
  split_ifs with hmap hlist
  · obtain ⟨entry, value, hentry, hvalue⟩ := hmaps message field hfield hmap
    obtain ⟨r, hr⟩ := hkind value.kind
    rw [hentry]
    simp only [hvalue]
    exact ⟨_, Except.bind_eq_ok.2 ⟨r, hr, rfl⟩⟩
  · obtain ⟨r, hr⟩ := hkind field.kind
    exact ⟨_, Except.bind_eq_ok.2 ⟨r, hr, rfl⟩⟩
  · exact hkind field.kind

variable [Finite M]

/-- How many messages have no entry. -/
noncomputable def missing (pool : DescriptorPool M) (schemas : Schemas) : ℕ :=
  {message | pool.fullName message ∉ SortedMap.keys schemas}.ncard

theorem missing_le {before after : Schemas}
    (hkeys : ∀ k ∈ SortedMap.keys before, k ∈ SortedMap.keys after) :
    missing pool after ≤ missing pool before :=
  Set.ncard_le_ncard (fun _ hm hk => hm (hkeys _ hk)) (Set.toFinite _)

/-- The mark of a message is an entry. -/
theorem missing_insert_lt {message : M} {schemas : Schemas} {value : Value}
    (hnone : SortedMap.get (pool.fullName message) schemas = none) :
    missing pool (SortedMap.insert (pool.fullName message) value schemas) <
      missing pool schemas := by
  refine Set.ncard_lt_ncard ⟨fun m hm hk => hm ?_, fun hsub => ?_⟩ (Set.toFinite _)
  · rw [← SortedMap.get_isSome] at hk ⊢
    rw [SortedMap.get_insert]
    split_ifs
    · rfl
    · exact hk
  · refine hsub (SortedMap.get_eq_none.1 hnone) ?_
    rw [← SortedMap.get_isSome, SortedMap.get_insert, if_pos rfl]
    rfl

/-- The loop ends if every call in it does; it leaves no fewer entries than it found. -/
theorem exists_loop (hmaps : MapsHaveValues pool) {depth : ℕ} {message : M}
    (hcall : ∀ message before, missing pool before < depth →
      ∃ after, schema pool depth message before = .ok after)
    (fields : List (FieldDescriptor M)) (hfields : ∀ field ∈ fields, field ∈ pool.fields message)
    (state : Schemas × Schemas) (hstate : missing pool state.2 < depth) :
    ∃ r, fields.foldlM (addProperty pool (schema pool depth)) state = .ok r := by
  induction fields generalizing state with
  | nil => exact ⟨state, rfl⟩
  | cons field fields ih =>
    rw [List.forall_mem_cons] at hfields
    obtain ⟨⟨value, schemas⟩, hvalue⟩ := exists_fieldSchema hmaps hfields.1
      fun message => hcall message state.2 hstate
    have hgrown := (described_of_fieldSchema (collects_schema depth) hvalue).grown
    obtain ⟨r, hr⟩ := ih hfields.2 (SortedMap.insert field.jsonName value state.1, schemas)
      (lt_of_le_of_lt (missing_le hgrown.keys) hstate)
    refine ⟨r, ?_⟩
    rw [List.foldlM_cons]
    exact Except.bind_eq_ok.2 ⟨_, Except.bind_eq_ok.2 ⟨_, hvalue, rfl⟩, hr⟩

/-- The calls nest no deeper than there are messages without an entry. -/
theorem exists_schema (hmaps : MapsHaveValues pool) (depth : ℕ) (message : M) (before : Schemas)
    (hdepth : missing pool before < depth) :
    ∃ after, schema pool depth message before = .ok after := by
  induction depth generalizing message before with
  | zero => cases hdepth
  | succ depth ih =>
    rw [schema]
    simp only
    split_ifs with hmem
    · exact ⟨before, rfl⟩
    have hnone : SortedMap.get (pool.fullName message) before = none := by simpa using hmem
    have hmarked : missing pool (SortedMap.insert (pool.fullName message) (.object []) before) <
        missing pool before := missing_insert_lt hnone
    obtain ⟨r, hr⟩ := exists_loop hmaps ih (pool.fields message) (fun _ h => h)
      ([], SortedMap.insert (pool.fullName message) (.object []) before) (by simp only; omega)
    exact ⟨_, Except.bind_eq_ok.2 ⟨r, hr, rfl⟩⟩

end Termination

/-! ### Maps that calls produce -/

/-- Every entry of the map is the complete schema of a message. -/
def Complete (pool : DescriptorPool M) (schemas : Schemas) : Prop :=
  ∀ k v, SortedMap.get k schemas = some v → Finished pool (fun _ => True) schemas k v

theorem Complete.of_extends {P : M → Prop} {before after : Schemas} (h : Complete pool before)
    (hgrown : Extends pool P before after) : Complete pool after := by
  intro k v hv
  cases hbefore : SortedMap.get k before with
  | none => exact (hgrown.fresh k v hbefore hv).mono (fun _ _ => trivial) fun _ hk => hk
  | some w =>
    have hw := hgrown.kept k w hbefore
    rw [hv] at hw
    cases hw
    exact (h k v hbefore).mono (fun _ _ => trivial) hgrown.keys

theorem Produced.complete {schemas : Schemas} (h : Produced pool schemas) :
    Complete pool schemas := by
  induction h with
  | empty => exact nofun
  | call _ hcall ih => exact ih.of_extends (collects_schema _ _ _ _ hcall).1

/-- In a complete map the keys are closed under the fields of messages. -/
theorem Complete.reachable {schemas : Schemas} (h : Complete pool schemas)
    (hname : Function.Injective pool.fullName) {message next : M}
    (hmessage : pool.fullName message ∈ SortedMap.keys schemas)
    (hreach : Reachable pool message next) :
    pool.fullName next ∈ SortedMap.keys schemas := by
  induction hreach with
  | refl => exact hmessage
  | tail _ hedge ih =>
    obtain ⟨v, hv⟩ := SortedMap.exists_get ih
    obtain ⟨⟨m, hm, -, hedges⟩, -⟩ := h _ v hv
    rw [hname hm] at hedges
    exact hedges _ hedge

/-- **The schemas cover the reachable messages.**  From a map that earlier calls produced, a call
ends; it adds exactly the messages that are reachable from its message, every reference is to a key
of the map, and no mark is left. -/
theorem schema_covers [Finite M] (pool : DescriptorPool M)
    (hname : Function.Injective pool.fullName)
    (hmaps : MapsHaveValues pool) {before : Schemas} (hbefore : Produced pool before)
    (message : M) :
    ∃ after, (∃ depth₀, ∀ depth ≥ depth₀, schema pool depth message before = .ok after) ∧
      (∀ name, name ∈ SortedMap.keys after ↔
        name ∈ SortedMap.keys before ∨ ∃ m, Reachable pool message m ∧ pool.fullName m = name) ∧
      (∀ k v, SortedMap.get k after = some v →
        ∀ r, Refers v r → ∃ name ∈ SortedMap.keys after, r = reference name) ∧
      ∀ k, SortedMap.get k after ≠ some (.object []) := by
  obtain ⟨after, hafter⟩ := exists_schema hmaps (missing pool before + 1) message before (by omega)
  obtain ⟨hgrown, hkey⟩ := collects_schema _ _ _ _ hafter
  have hcomplete : Complete pool after := hbefore.complete.of_extends hgrown
  refine ⟨after, ⟨_, fun depth hdepth => schema_mono hdepth hafter⟩, fun name =>
    ⟨fun hmem => ?_, ?_⟩,
    fun k v hv => (hcomplete k v hv).2.1, fun k hk => (hcomplete k _ hk).2.2 rfl⟩
  · by_cases hold : name ∈ SortedMap.keys before
    · exact .inl hold
    · obtain ⟨v, hv⟩ := SortedMap.exists_get hmem
      obtain ⟨⟨m, hm, hreach, -⟩, -⟩ := hgrown.fresh name v (SortedMap.get_eq_none.2 hold) hv
      exact .inr ⟨m, hreach, hm⟩
  · rintro (hold | ⟨m, hreach, rfl⟩)
    · exact hgrown.keys name hold
    · exact hcomplete.reachable hname hkey hreach

section Sample

/-- Messages in a cycle: a circle has its master and a map of its players, and a player has a list of
circles. -/
inductive CircleMessage
  | circle
  | player
  | playersEntry
  deriving DecidableEq

namespace CircleMessage

instance : Finite CircleMessage := by
  refine Finite.of_injective (fun m => (decide (m = circle), decide (m = player))) fun a b h => ?_
  cases a <;> cases b <;> first | rfl | exact absurd h (by decide)

def descriptors : DescriptorPool CircleMessage where
  fullName
    | circle => "entity.Circle"
    | player => "entity.Player"
    | playersEntry => "entity.Circle.PlayersEntry"
  fields
    | circle => [⟨"master", "master", .message player, false, false⟩,
        ⟨"players", "players", .message playersEntry, true, false⟩]
    | player => [⟨"circles", "circles", .message circle, false, true⟩,
        ⟨"id", "id", .int64, false, false⟩]
    | playersEntry => [⟨"key", "key", .string, false, false⟩,
        ⟨"value", "value", .message player, false, false⟩]
  getMessageByName _ := none

end CircleMessage

/-- Both messages get a schema, their map entry does not. -/
theorem schema_covers_circle :
    ∃ after, (∃ depth₀, ∀ depth ≥ depth₀,
      schema CircleMessage.descriptors depth .circle [] = .ok after) ∧
      (∀ name, name ∈ SortedMap.keys after ↔ name ∈ SortedMap.keys ([] : Schemas) ∨
        ∃ m, Reachable CircleMessage.descriptors .circle m ∧ CircleMessage.descriptors.fullName m =
          name) ∧
      (∀ k v, SortedMap.get k after = some v →
        ∀ r, Refers v r → ∃ name ∈ SortedMap.keys after, r = reference name) ∧
      ∀ k, SortedMap.get k after ≠ some (.object []) := by
  refine schema_covers CircleMessage.descriptors (fun a b h => ?_)
    (fun message field hfield hmap => ?_)
    .empty .circle
  · cases a <;> cases b <;> first | rfl | exact absurd h (by decide)
  · -- the only map is the one of the players
    have hentry : CircleMessage.descriptors.getFieldByName .playersEntry "value" =
        some ⟨"value", "value", .message .player, false, false⟩ := rfl
    cases message <;>
      simp only [CircleMessage.descriptors, List.mem_cons, List.not_mem_nil, or_false] at hfield <;>
      rcases hfield with rfl | rfl <;> first | exact ⟨_, _, rfl, hentry⟩ | cases hmap

example : (schema CircleMessage.descriptors 3 .circle []).toOption.map SortedMap.keys =
    some ["entity.Circle", "entity.Player"] := by
  decide +kernel

end Sample

end MoenotesApi.OpenApi
