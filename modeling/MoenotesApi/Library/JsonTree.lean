import Mathlib.Data.String.Basic
import MoenotesApi.Library.SortedMap

/-!
# JSON values

JSON values as trees; an object is a sorted map.

* `Value`, `Value.Sorted`, `Json`: a value in which every object is sorted by its keys;
* `Value.induction`: what holds of a value if it holds of its elements and entries.
-/

namespace JsonTree

/-- A JSON value; a number is kept as its text. -/
inductive Value
  | null
  | bool (b : Bool)
  | number (text : String)
  | string (text : String)
  | array (items : List Value)
  | object (entries : List (String × Value))

namespace Value

/-- Every object in the value is sorted by its keys. -/
inductive Sorted : Value → Prop
  | null : Sorted .null
  | bool (b : Bool) : Sorted (.bool b)
  | number (text : String) : Sorted (.number text)
  | string (text : String) : Sorted (.string text)
  | array {items : List Value} (h : ∀ v ∈ items, Sorted v) : Sorted (.array items)
  | object {entries : List (String × Value)} (hkeys : SortedMap.Sorted entries)
      (h : ∀ e ∈ entries, Sorted e.2) : Sorted (.object entries)

theorem Sorted.items {items : List Value} (h : (Value.array items).Sorted) :
    ∀ v ∈ items, v.Sorted := by
  cases h with
  | array h => exact h

theorem Sorted.keys {entries : List (String × Value)} (h : (Value.object entries).Sorted) :
    SortedMap.Sorted entries := by
  cases h with
  | object hkeys h => exact hkeys

theorem Sorted.get {entries : List (String × Value)} (h : (Value.object entries).Sorted) {k : String}
    {v : Value} (hv : SortedMap.get k entries = some v) : v.Sorted := by
  cases h with
  | object hkeys h => exact h _ (SortedMap.mem_of_get hv)

/-- An object is sorted if its keys are and its values are. -/
theorem sorted_object {entries : List (String × Value)} (hkeys : SortedMap.Sorted entries)
    (h : ∀ k v, SortedMap.get k entries = some v → v.Sorted) : (Value.object entries).Sorted :=
  .object hkeys fun e he => h e.1 e.2 (hkeys.get_of_mem he)

/-- An object stays sorted when a sorted value is put under a key, or none. -/
theorem Sorted.put {entries : List (String × Value)} (h : (Value.object entries).Sorted) (k : String)
    {o : Option Value} (ho : ∀ v, o = some v → v.Sorted) :
    (Value.object (SortedMap.put k o entries)).Sorted := by
  refine sorted_object (h.keys.put k o) fun k' v hv => ?_
  rw [SortedMap.get_put] at hv
  split_ifs at hv with hk
  · exact ho v hv
  · exact h.get hv

theorem Sorted.insert {entries : List (String × Value)} (h : (Value.object entries).Sorted)
    (k : String) {v : Value} (hv : v.Sorted) :
    (Value.object (SortedMap.insert k v entries)).Sorted := by
  refine h.put k (o := some v) ?_
  rintro _ ⟨⟩
  exact hv

theorem sizeOf_item {items : List Value} {v : Value} (hv : v ∈ items) :
    sizeOf v < sizeOf (Value.array items) := by
  have hlt := List.sizeOf_lt_of_mem hv
  simp only [Value.array.sizeOf_spec]
  omega

theorem sizeOf_entry {entries : List (String × Value)} {e : String × Value} (he : e ∈ entries) :
    sizeOf e.2 < sizeOf (Value.object entries) := by
  have hlt := List.sizeOf_lt_of_mem he
  obtain ⟨k, v⟩ := e
  simp only [Value.object.sizeOf_spec, Prod.mk.sizeOf_spec] at hlt ⊢
  omega

theorem sizeOf_get {entries : List (String × Value)} {k : String} {v : Value}
    (h : SortedMap.get k entries = some v) : sizeOf v < sizeOf (Value.object entries) :=
  sizeOf_entry (SortedMap.mem_of_get h)

@[elab_as_elim]
theorem induction {P : Value → Prop} (null : P .null) (bool : ∀ b, P (.bool b))
    (number : ∀ text, P (.number text)) (string : ∀ text, P (.string text))
    (array : ∀ items, (∀ v ∈ items, P v) → P (.array items))
    (object : ∀ entries, (∀ e ∈ entries, P e.2) → P (.object entries)) : ∀ v, P v
  | .null => null
  | .bool b => bool b
  | .number text => number text
  | .string text => string text
  | .array items => array items fun v _hv => induction null bool number string array object v
  | .object entries =>
    object entries fun e _he => induction null bool number string array object e.2
termination_by v => sizeOf v
decreasing_by
  · exact sizeOf_item _hv
  · exact sizeOf_entry _he

end Value

/-- A JSON value in which every object is sorted by its keys. -/
structure Json where
  value : Value
  sorted : value.Sorted

end JsonTree
