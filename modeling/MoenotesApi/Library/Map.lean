import Mathlib.Data.List.AList

/-!
# Finite maps

`Map κ ν` is a hash map: an association list without duplicate keys.  Mathlib's `AList` has lookup,
insertion and removal; here are the two bulk operations of a hash map.

* `Map.retain`: the entries that satisfy a predicate;
* `Map.adjust`: an update in place.
-/

/-- A finite map from `κ` to `ν`. -/
abbrev Map (κ ν : Type) := AList fun _ : κ => ν

namespace Map

variable {κ ν : Type} [DecidableEq κ]

/-- Keep the entries that satisfy `p`. -/
def retain (s : Map κ ν) (p : κ → ν → Bool) : Map κ ν :=
  ⟨s.entries.filter fun e => p e.1 e.2, s.nodupKeys.sublist List.filter_sublist⟩

theorem lookup_eq_some {s : Map κ ν} {k : κ} {v : ν} :
    s.lookup k = some v ↔ ⟨k, v⟩ ∈ s.entries := AList.mem_lookup_iff

theorem lookup_retain (s : Map κ ν) (p : κ → ν → Bool) (k : κ) :
    (s.retain p).lookup k = (s.lookup k).filter (p k) := by
  ext v
  simp only [Option.filter_eq_some_iff, lookup_eq_some, retain, List.mem_filter]

/-- Change the value of `k`, if there is one. -/
def adjust (s : Map κ ν) (k : κ) (f : ν → ν) : Map κ ν :=
  ⟨s.entries.map (Sigma.map id fun k' v => if k' = k then f v else v), s.nodupKeys.map₂ _⟩

theorem lookup_adjust (s : Map κ ν) (k : κ) (f : ν → ν) (k' : κ) :
    (s.adjust k f).lookup k' = (s.lookup k').map fun v => if k' = k then f v else v :=
  List.dlookup_map₂ k'

theorem length_erase_le (s : Map κ ν) (k : κ) : (s.erase k).entries.length ≤ s.entries.length :=
  (List.kerase_sublist k s.entries).length_le

end Map
