import Mathlib.Data.List.Forall2
import Mathlib.Data.List.Sort
import Mathlib.Logic.Relation
import Mathlib.Order.Lattice
import MoenotesApi.Library.Except

/-!
# Maps as sorted lists

A finite map over ordered keys is the list of its entries in strictly increasing order of the keys,
as one iterates over a B-tree.

* `Sorted`, `get`, `insert`, `erase`, `keys`: maps are equal when their lookups are (`Sorted.ext`);
* `collect`: a map with an entry for each of some keys, where computing an entry can fail;
* `mapValues`: a map with the same keys, where computing a value can fail;
* `reach_of_put`: one map becomes another, entry by entry.
-/

namespace SortedMap

universe u w

variable {κ α β : Type u} {ε : Type w} [LinearOrder κ]
variable {k k' : κ} {x y : α} {m m' : List (κ × α)}

/-- The keys increase strictly. -/
def Sorted (m : List (κ × α)) : Prop := m.Pairwise fun a b => a.1 < b.1

/-- The keys, in their order. -/
def keys (m : List (κ × α)) : List κ := m.map Prod.fst

/-- The value under `k`. -/
def get (k : κ) : List (κ × α) → Option α
  | [] => none
  | (k', x) :: m => if k = k' then some x else get k m

/-- Put `x` under `k`. -/
def insert (k : κ) (x : α) : List (κ × α) → List (κ × α)
  | [] => [(k, x)]
  | (k', x') :: m =>
    if k < k' then (k, x) :: (k', x') :: m
    else if k = k' then (k, x) :: m
    else (k', x') :: insert k x m

/-- Remove the entry of `k`. -/
def erase (k : κ) (m : List (κ × α)) : List (κ × α) := m.filter fun e => e.1 ≠ k

/-! ### Lookups -/

@[simp] theorem get_nil (k : κ) : get k ([] : List (κ × α)) = none := rfl

theorem get_cons (e : κ × α) (m : List (κ × α)) :
    get k (e :: m) = if k = e.1 then some e.2 else get k m := rfl

theorem get_insert (k k' : κ) (x : α) (m : List (κ × α)) :
    get k' (insert k x m) = if k' = k then some x else get k' m := by
  induction m with
  | nil => simp [insert, get_cons]
  | cons e m ih =>
    rw [insert]
    split_ifs <;> grind [get_cons]

theorem get_erase (k k' : κ) (m : List (κ × α)) :
    get k' (erase k m) = if k' = k then none else get k' m := by
  induction m with
  | nil => simp [erase]
  | cons e m ih =>
    rw [erase] at ih ⊢
    rw [List.filter_cons]
    split_ifs <;> grind [get_cons]

theorem mem_of_get (h : get k m = some x) : (k, x) ∈ m := by
  induction m with
  | nil => cases h
  | cons e m ih =>
    rw [get_cons] at h
    split_ifs at h with hk
    · cases h
      subst hk
      exact List.mem_cons_self
    · exact List.mem_cons_of_mem _ (ih h)

theorem get_eq_none : get k m = none ↔ k ∉ keys m := by
  induction m with
  | nil => simp [keys]
  | cons e m ih =>
    rw [get_cons, keys, List.map_cons, List.mem_cons, not_or]
    split_ifs with hk
    · simp [hk]
    · rw [ih]
      exact (and_iff_right hk).symm

/-! ### Sorted maps -/

theorem sorted_nil : Sorted ([] : List (κ × α)) := .nil

theorem Sorted.get_of_mem (h : Sorted m) (hx : (k, x) ∈ m) : get k m = some x := by
  induction m with
  | nil => cases hx
  | cons e m ih =>
    obtain ⟨hlt, hm⟩ := List.pairwise_cons.1 h
    rw [get_cons]
    rcases List.mem_cons.1 hx with rfl | hx
    · rw [if_pos rfl]
    · rw [if_neg (hlt _ hx).ne', ih hm hx]

theorem mem_insert {e : κ × α} (h : e ∈ insert k x m) : e = (k, x) ∨ e ∈ m := by
  induction m with
  | nil => simpa [insert] using h
  | cons e' m ih =>
    rw [insert] at h
    split_ifs at h with hlt heq
    · simpa using h
    · rcases List.mem_cons.1 h with rfl | h
      · exact .inl rfl
      · exact .inr (List.mem_cons_of_mem _ h)
    · rcases List.mem_cons.1 h with rfl | h
      · exact .inr List.mem_cons_self
      · exact (ih h).imp_right (List.mem_cons_of_mem _)

theorem Sorted.insert (h : Sorted m) (k : κ) (x : α) : Sorted (SortedMap.insert k x m) := by
  induction m with
  | nil => exact List.pairwise_singleton _ _
  | cons e m ih =>
    obtain ⟨hlt, hm⟩ := List.pairwise_cons.1 h
    simp only [SortedMap.insert]
    split_ifs with hk hk'
    · refine List.pairwise_cons.2 ⟨fun a ha => ?_, h⟩
      rcases List.mem_cons.1 ha with rfl | ha
      · exact hk
      · exact hk.trans (hlt a ha)
    · subst hk'
      exact List.pairwise_cons.2 ⟨hlt, hm⟩
    · refine List.pairwise_cons.2 ⟨fun a ha => ?_, ih hm⟩
      rcases mem_insert ha with rfl | ha
      · exact lt_of_le_of_ne (not_lt.1 hk) (Ne.symm hk')
      · exact hlt a ha

/-- A key above all others goes to the end. -/
theorem insert_of_lt (h : ∀ k' ∈ keys m, k' < k) : insert k x m = m ++ [(k, x)] := by
  induction m with
  | nil => rfl
  | cons e m ih =>
    have he : e.1 < k := h e.1 List.mem_cons_self
    rw [insert, if_neg he.not_gt, if_neg he.ne', List.cons_append,
      ih fun k' hk' => h k' (List.mem_cons_of_mem _ hk')]

theorem Sorted.erase (h : Sorted m) (k : κ) : Sorted (SortedMap.erase k m) :=
  h.sublist List.filter_sublist

/-- Maps with the same lookups are equal. -/
theorem Sorted.ext (h : Sorted m) (h' : Sorted m')
    (hget : ∀ k, get k m = get k m') : m = m' := by
  have hmem : ∀ e, e ∈ m ↔ e ∈ m' := by
    rintro ⟨k, x⟩
    constructor
    · intro he
      exact mem_of_get ((hget k).symm.trans (h.get_of_mem he))
    · intro he
      exact mem_of_get ((hget k).trans (h'.get_of_mem he))
  have hnodup : ∀ {m : List (κ × α)}, Sorted m → m.Nodup :=
    fun h => h.imp fun hlt heq => absurd (congrArg Prod.fst heq) hlt.ne
  refine List.Perm.eq_of_pairwise ?_ h h' ((List.perm_ext_iff_of_nodup (hnodup h) (hnodup h')).2 hmem)
  intro a b _ _ hab hba
  exact absurd hab hba.not_gt

theorem get_isSome : (get k m).isSome ↔ k ∈ keys m := by
  rw [← not_iff_not, ← get_eq_none, Option.not_isSome_iff_eq_none]

theorem Sorted.pairwise_keys (h : Sorted m) : (keys m).Pairwise (· < ·) := List.pairwise_map.2 h

theorem mem_keys_of_get (h : get k m = some x) : k ∈ keys m := get_isSome.1 (by rw [h]; rfl)

theorem exists_get (h : k ∈ keys m) : ∃ x, get k m = some x :=
  Option.isSome_iff_exists.1 (get_isSome.2 h)

/-- Sorted maps with entries for the same keys have the same list of keys. -/
theorem Sorted.keys_eq {m' : List (κ × β)} (h : Sorted m) (h' : Sorted m')
    (hget : ∀ k, (get k m).isSome = (get k m').isSome) : keys m = keys m' :=
  h.pairwise_keys.eq_of_mem_iff h'.pairwise_keys fun k => by
    rw [← get_isSome, ← get_isSome, hget]

/-- Replacing a value by itself. -/
theorem Sorted.insert_of_get (h : Sorted m) (hx : get k m = some x) :
    SortedMap.insert k x m = m := by
  refine (h.insert k x).ext h fun k' => ?_
  rw [get_insert]
  split_ifs with hk
  · rw [hk, hx]
  · rfl

theorem Sorted.insert_insert (h : Sorted m) (k : κ) (x y : α) :
    SortedMap.insert k y (SortedMap.insert k x m) = SortedMap.insert k y m := by
  refine ((h.insert k x).insert k y).ext (h.insert k y) fun k' => ?_
  simp only [get_insert]
  split_ifs <;> rfl

/-! ### Entries for some keys -/

/-- An entry for each of the given keys for which `f` computes one. -/
def collect (f : κ → Option (Except ε α)) (ks : List κ) : Except ε (List (κ × α)) :=
  ks.foldlM (fun out k =>
    match f k with
    | none => pure out
    | some r => do return insert k (← r) out) []

/-- What `collect` has to find under a key. -/
def Collected (f : κ → Option (Except ε α)) (m : List (κ × α)) (k : κ) : Prop :=
  (f k = none ∧ get k m = none) ∨ ∃ x, f k = some (.ok x) ∧ get k m = some x

theorem collect_aux {f : κ → Option (Except ε α)} {ks : List κ} {m out : List (κ × α)}
    (hm : Sorted m) (h : ks.foldlM (fun out k =>
      match f k with
      | none => pure out
      | some r => do return insert k (← r) out) m = .ok out) :
    Sorted out ∧ (∀ k ∈ ks, ∀ r, f k = some r → ∃ x, r = .ok x ∧ get k out = some x) ∧
      ∀ k, (k ∉ ks ∨ f k = none) → get k out = get k m := by
  induction ks generalizing m with
  | nil =>
    cases h
    exact ⟨hm, by simp, fun _ _ => rfl⟩
  | cons k ks ih =>
    rw [List.foldlM_cons, Except.bind_eq_ok] at h
    obtain ⟨m', hstep, hrest⟩ := h
    cases hf : f k with
    | none =>
      rw [hf] at hstep
      cases hstep
      obtain ⟨hsorted, hin, hout⟩ := ih hm hrest
      refine ⟨hsorted, ?_, fun k' hk' => hout k' ?_⟩
      · intro k' hk' r hr
        rcases List.mem_cons.1 hk' with rfl | hk'
        · rw [hf] at hr
          cases hr
        · exact hin k' hk' r hr
      · exact hk'.imp_left fun hn => mt (List.mem_cons_of_mem k) hn
    | some r =>
      rw [hf] at hstep
      obtain ⟨x, rfl, hx⟩ := Except.bind_eq_ok.1 hstep
      cases hx
      obtain ⟨hsorted, hin, hout⟩ := ih (hm.insert k x) hrest
      refine ⟨hsorted, ?_, ?_⟩
      · intro k' hk' r' hr'
        by_cases hmem : k' ∈ ks
        · exact hin k' hmem r' hr'
        · obtain rfl := (List.mem_cons.1 hk').resolve_right hmem
          rw [hf] at hr'
          cases hr'
          exact ⟨x, rfl, by rw [hout k' (.inl hmem), get_insert, if_pos rfl]⟩
      · intro k' hk'
        have hne : k' ≠ k := by
          rintro rfl
          rcases hk' with hn | hn
          · exact hn List.mem_cons_self
          · rw [hf] at hn
            cases hn
        rw [hout k' (hk'.imp_left fun hn => mt (List.mem_cons_of_mem k) hn), get_insert, if_neg hne]

theorem exists_collect {f : κ → Option (Except ε α)} {ks : List κ}
    (h : ∀ k ∈ ks, ∀ r, f k = some r → ∃ x, r = .ok x) : ∃ out, collect f ks = .ok out := by
  unfold collect
  generalize ([] : List (κ × α)) = m
  induction ks generalizing m with
  | nil => exact ⟨m, rfl⟩
  | cons k ks ih =>
    rw [List.foldlM_cons]
    have hrest := ih fun k' hk' => h k' (List.mem_cons_of_mem k hk')
    cases hf : f k with
    | none => exact hrest m
    | some r =>
      obtain ⟨x, rfl⟩ := h k List.mem_cons_self r hf
      exact hrest (insert k x m)

/-- `collect` returns the sorted map with exactly the entries that `f` computes. -/
theorem collect_eq_ok {f : κ → Option (Except ε α)} {ks : List κ} {out : List (κ × α)} :
    collect f ks = .ok out ↔
      Sorted out ∧ (∀ k ∈ ks, Collected f out k) ∧ ∀ k ∉ ks, get k out = none := by
  constructor
  · intro h
    obtain ⟨hsorted, hin, hout⟩ := collect_aux sorted_nil h
    refine ⟨hsorted, fun k hk => ?_, fun k hk => hout k (.inl hk)⟩
    cases hf : f k with
    | none => exact .inl ⟨hf, hout k (.inr hf)⟩
    | some r =>
      obtain ⟨x, rfl, hx⟩ := hin k hk r hf
      exact .inr ⟨x, hf, hx⟩
  · rintro ⟨hsorted, hin, hout⟩
    obtain ⟨out', h⟩ : ∃ out', collect f ks = .ok out' := by
      refine exists_collect fun k hk r hr => ?_
      rcases hin k hk with ⟨hn, -⟩ | ⟨x, hx, -⟩
      · rw [hn] at hr
        cases hr
      · rw [hx] at hr
        cases hr
        exact ⟨x, rfl⟩
    rw [h]
    obtain ⟨hsorted', hin', hout'⟩ := collect_aux sorted_nil h
    congr 1
    refine hsorted'.ext hsorted fun k => ?_
    by_cases hk : k ∈ ks
    · rcases hin k hk with ⟨hn, hx⟩ | ⟨x, hx, hget⟩
      · rw [hout' k (.inr hn), hx]
        rfl
      · obtain ⟨y, hy, hget'⟩ := hin' k hk _ hx
        cases hy
        rw [hget, hget']
    · rw [hout' k (.inl hk), hout k hk]
      rfl

theorem collect_congr {f g : κ → Option (Except ε α)} {ks : List κ} (h : ∀ k ∈ ks, f k = g k) :
    collect f ks = collect g ks := by
  unfold collect
  generalize ([] : List (κ × α)) = m
  induction ks generalizing m with
  | nil => rfl
  | cons k ks ih =>
    have hrest := ih fun k' hk' => h k' (List.mem_cons_of_mem k hk')
    rw [List.foldlM_cons, List.foldlM_cons, h k List.mem_cons_self]
    cases g k with
    | none => exact hrest m
    | some r =>
      cases r with
      | error e => rfl
      | ok x => exact hrest (insert k x m)

/-! ### A map with the same keys -/

/-- The map with `g x` for each value `x`. -/
def mapValues (g : α → Except ε β) (m : List (κ × α)) : Except ε (List (κ × β)) :=
  m.foldlM (fun out e => do return insert e.1 (← g e.2) out) []

theorem mapValues_eq_collect (h : Sorted m) (g : α → Except ε β) :
    mapValues g m = collect (fun k => (get k m).map g) (keys m) := by
  have hget : ∀ e ∈ m, get e.1 m = some e.2 := fun e he => h.get_of_mem he
  unfold mapValues collect keys
  generalize hf : (fun k => (get k m).map g) = f
  replace hget : ∀ e ∈ m, f e.1 = some (g e.2) := by
    intro e he
    simp [← hf, hget e he]
  clear hf h
  generalize ([] : List (κ × β)) = out
  induction m generalizing out with
  | nil => rfl
  | cons e m ih =>
    have hrest := ih fun e' he' => hget e' (List.mem_cons_of_mem e he')
    rw [List.map_cons, List.foldlM_cons, List.foldlM_cons, hget e List.mem_cons_self]
    cases g e.2 with
    | error error => rfl
    | ok y => exact hrest (insert e.1 y out)

theorem exists_mapValues (h : Sorted m) {g : α → Except ε β}
    (hg : ∀ k x, get k m = some x → ∃ y, g x = .ok y) : ∃ out, mapValues g m = .ok out := by
  rw [mapValues_eq_collect h]
  refine exists_collect fun k _ r hr => ?_
  obtain ⟨x, hx, rfl⟩ := Option.map_eq_some_iff.1 hr
  exact hg k x hx

theorem mapValues_eq_ok (h : Sorted m) {g : α → Except ε β} {out : List (κ × β)} :
    mapValues g m = .ok out ↔
      Sorted out ∧ ∀ k, Collected (fun k => (get k m).map g) out k := by
  rw [mapValues_eq_collect h, collect_eq_ok]
  refine and_congr_right fun _ => ⟨fun ⟨hin, hout⟩ k => ?_, fun hall => ⟨fun k _ => hall k, ?_⟩⟩
  · by_cases hk : k ∈ keys m
    · exact hin k hk
    · exact .inl ⟨by simp [get_eq_none.2 hk], hout k hk⟩
  · intro k hk
    rcases hall k with ⟨-, hnone⟩ | ⟨x, hx, -⟩
    · exact hnone
    · simp [get_eq_none.2 hk] at hx

theorem mapValues_congr {m' : List (κ × α)} (h : Sorted m) (h' : Sorted m')
    {g : α → Except ε β} (hg : ∀ k, (get k m).map g = (get k m').map g) :
    mapValues g m = mapValues g m' := by
  have hkeys : keys m = keys m' := Sorted.keys_eq h h' fun k => by
    have := congrArg Option.isSome (hg k)
    simpa using this
  rw [mapValues_eq_collect h, mapValues_eq_collect h', hkeys]
  exact collect_congr fun k _ => hg k

/-! ### From one map to another -/

/-- The map with `x` under `k`, or without an entry for it. -/
def put (k : κ) : Option α → List (κ × α) → List (κ × α)
  | none, m => erase k m
  | some x, m => insert k x m

theorem get_put (k k' : κ) (o : Option α) (m : List (κ × α)) :
    get k' (put k o m) = if k' = k then o else get k' m := by
  cases o with
  | none => exact get_erase k k' m
  | some x => exact get_insert k k' x m

theorem Sorted.put (h : Sorted m) (k : κ) (o : Option α) : Sorted (SortedMap.put k o m) := by
  cases o with
  | none => exact h.erase k
  | some x => exact h.insert k x

theorem Sorted.nodup_keys (h : Sorted m) : (keys m).Nodup :=
  h.pairwise_keys.nodup

/-- Changes of one value lift to changes of the map, whatever the map holds elsewhere. -/
theorem reach_insert {R : α → α → Prop} {T : List (κ × α) → List (κ × α) → Prop}
    (hm : Sorted m) (hx : get k m = some x) (hreach : Relation.ReflTransGen R x y)
    (hlift : ∀ m x y, get k m = some x → R x y → T m (insert k y m)) :
    Relation.ReflTransGen T m (insert k y m) := by
  induction hreach with
  | refl => rw [hm.insert_of_get hx]
  | @tail y z _ hstep ih =>
    have hy : get k (insert k y m) = some y := by
      rw [get_insert, if_pos rfl]
    refine ih.tail ?_
    rw [← hm.insert_insert k y z]
    exact hlift _ y z hy hstep

/-- If every change of one entry of `m` to that of `out` is reachable, then so is `out`. -/
theorem reach_of_put {T : List (κ × α) → List (κ × α) → Prop} {out : List (κ × α)}
    (hm : Sorted m) (hout : Sorted out) (hsub : ∀ k, get k m = none → get k out = none)
    (hstep : ∀ a k x, Sorted a → get k a = some x → get k m = some x →
      Relation.ReflTransGen T a (put k (get k out) a)) :
    Relation.ReflTransGen T m out := by
  have hkeys : ∀ ks : List κ, ks.Nodup → (∀ k ∈ ks, k ∈ keys m) → ∃ a, Sorted a ∧
      Relation.ReflTransGen T m a ∧ ∀ k, get k a = if k ∈ ks then get k out else get k m := by
    intro ks
    induction ks with
    | nil => exact fun _ _ => ⟨m, hm, .refl, by simp⟩
    | cons k ks ih =>
      intro hnodup hmem
      obtain ⟨hk, hks⟩ := List.nodup_cons.1 hnodup
      obtain ⟨a, ha, hreach, hget⟩ := ih hks fun k' hk' => hmem k' (List.mem_cons_of_mem k hk')
      obtain ⟨x, hx⟩ := exists_get (hmem k List.mem_cons_self)
      have hxa : get k a = some x := by rw [hget k, if_neg hk, hx]
      refine ⟨_, ha.put k (get k out), hreach.trans (hstep a k x ha hxa hx), fun k' => ?_⟩
      rw [get_put, hget k']
      by_cases hk' : k' = k
      · simp [hk']
      · simp [hk']
  obtain ⟨a, ha, hreach, hget⟩ := hkeys (keys m) hm.nodup_keys fun _ hk => hk
  have heq : a = out := ha.ext hout fun k => by
    rw [hget k]
    split_ifs with hk
    · rfl
    · rw [get_eq_none.2 hk, hsub k (get_eq_none.2 hk)]
  exact heq ▸ hreach

end SortedMap
