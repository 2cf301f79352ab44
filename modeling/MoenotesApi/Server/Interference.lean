import MoenotesApi.Server.Projection

/-!
# The projection does not depend on private keys

`projection.rs`: what is stored under keys outside the allowlist has no influence on the projection,
and the projection is the input without such keys.

* `Inside T`: change the entries of one message, at any depth, in a way that `T` permits;
* `Edit`, `Erasure`: put anything under a private key, and remove a private key;
* `Pruned`: the output has the allowed keys of each message, the keys of each map and the elements
  of each list of the input;
* `projection_noninterference`: the main result.
-/

namespace MoenotesApi.Projection

open JsonTree (Value Json)
open Relation (ReflTransGen)

variable {M : Type} {policy : String → List String} {pool : DescriptorPool M}
variable {desc : M} {kind : Kind M} {s : Shape M} {u v w : Value}

/-- The entries of one message in the value change from some `a` to some `b` with `T desc a b`. -/
inductive Inside (pool : DescriptorPool M)
    (T : M → List (String × Value) → List (String × Value) → Prop) : Shape M → Value → Value → Prop
  | message {desc : M} {a b : List (String × Value)} (h : T desc a b) :
    Inside pool T (.single (.message desc)) (.object a) (.object b)
  | field {desc : M} {m : List (String × Value)} {k : String} {s : Shape M} {x y : Value}
      (hs : shape pool desc k = .ok s) (hx : SortedMap.get k m = some x)
      (h : Inside pool T s x y) :
    Inside pool T (.single (.message desc)) (.object m) (.object (SortedMap.insert k y m))
  | item {kind : Kind M} {l r : List Value} {x y : Value} (h : Inside pool T (.single kind) x y) :
    Inside pool T (.list kind) (.array (l ++ x :: r)) (.array (l ++ y :: r))
  | entry {kind : Kind M} {m : List (String × Value)} {k : String} {x y : Value}
      (hx : SortedMap.get k m = some x) (h : Inside pool T (.single kind) x y) :
    Inside pool T (.map kind) (.object m) (.object (SortedMap.insert k y m))

/-- Add, remove or change one key of one message that is not in the allowlist of that message. -/
def Edit (policy : String → List String) (pool : DescriptorPool M) : Shape M → Value → Value → Prop :=
  Inside pool fun desc a b => ∃ k o, k ∉ policy (pool.fullName desc) ∧
    (∀ x, o = some x → x.Sorted) ∧ b = SortedMap.put k o a

/-- Remove one key of one message that is not in the allowlist of that message. -/
def Erasure (policy : String → List String) (pool : DescriptorPool M) :
    Shape M → Value → Value → Prop :=
  Inside pool fun desc a b => ∃ k, k ∉ policy (pool.fullName desc) ∧ b = SortedMap.erase k a

/-- `w` is `v` with only the allowed keys in every message. -/
inductive Pruned (policy : String → List String) (pool : DescriptorPool M) :
    Shape M → Value → Value → Prop
  | scalar {kind : Kind M} {v : Value} (h : ∀ desc, kind ≠ .message desc) :
    Pruned policy pool (.single kind) v v
  | message {desc : M} {a b : List (String × Value)}
      (hkeys : SortedMap.keys b =
        (SortedMap.keys a).filter (· ∈ policy (pool.fullName desc)))
      (hshape : ∀ k ∈ SortedMap.keys b, ∃ s, shape pool desc k = .ok s)
      (h : ∀ k s x y, shape pool desc k = .ok s → SortedMap.get k a = some x →
        SortedMap.get k b = some y → Pruned policy pool s x y) :
    Pruned policy pool (.single (.message desc)) (.object a) (.object b)
  | list {kind : Kind M} {xs ys : List Value} (hlen : xs.length = ys.length)
      (h : ∀ e ∈ xs.zip ys, Pruned policy pool (.single kind) e.1 e.2) :
    Pruned policy pool (.list kind) (.array xs) (.array ys)
  | map {kind : Kind M} {a b : List (String × Value)} (hkeys : SortedMap.keys b = SortedMap.keys a)
      (h : ∀ k x y, SortedMap.get k a = some x → SortedMap.get k b = some y →
        Pruned policy pool (.single kind) x y) :
    Pruned policy pool (.map kind) (.object a) (.object b)

/-! ### Changes inside a value -/

section Inside

variable {T T' : M → List (String × Value) → List (String × Value) → Prop}

theorem Inside.mono (hT : ∀ desc a b, T desc a b → T' desc a b) (h : Inside pool T s v w) :
    Inside pool T' s v w := by
  induction h with
  | message h => exact .message (hT _ _ _ h)
  | field hs hx _ ih => exact .field hs hx ih
  | item _ ih => exact .item ih
  | entry hx _ ih => exact .entry hx ih

/-- Changes of each element make a change of the list. -/
theorem reach_items {xs ys : List Value}
    (h : List.Forall₂ (fun x y => ReflTransGen (Inside pool T (.single kind)) x y) xs ys) :
    ReflTransGen (Inside pool T (.list kind)) (.array xs) (.array ys) := by
  suffices hl : ∀ l, ReflTransGen (Inside pool T (.list kind)) (.array (l ++ xs))
      (.array (l ++ ys)) from hl []
  induction h with
  | nil => exact fun l => .refl
  | @cons x y xs ys hxy _ ih =>
    intro l
    have hhead : ReflTransGen (Inside pool T (.list kind)) (.array (l ++ x :: xs))
        (.array (l ++ y :: xs)) :=
      hxy.lift (fun z => Value.array (l ++ z :: xs)) fun _ _ hstep => Inside.item hstep
    refine hhead.trans ?_
    simpa using ih (l ++ [y])

end Inside

/-! ### Private keys have no influence -/

theorem Edit.sorted (h : Edit policy pool s v w) (hv : v.Sorted) : w.Sorted := by
  induction h with
  | message h =>
    obtain ⟨k, o, -, ho, rfl⟩ := h
    exact hv.put k ho
  | field _ hx _ ih | entry hx _ ih => exact hv.insert _ (ih (hv.get hx))
  | item _ ih =>
    refine .array fun z hz => ?_
    have hitems := hv.items
    simp only [List.mem_append, List.mem_cons] at hz hitems
    rcases hz with hz | rfl | hz
    · exact hitems z (.inl hz)
    · exact ih (hitems _ (.inr (.inl rfl)))
    · exact hitems z (.inr (.inr hz))

/-- One change of a private key does not change the projection. -/
theorem Edit.projected_eq (h : Edit policy pool s v w) (hv : v.Sorted) :
    projected policy pool s w = projected policy pool s v := by
  induction h with
  | @message desc a b h =>
    obtain ⟨k, o, hk, -, rfl⟩ := h
    simp only [projected_single, scalar_message, object_object]
    refine congrArg _ (SortedMap.collect_congr fun name hname => ?_)
    rw [SortedMap.get_put, if_neg (ne_of_mem_of_not_mem hname hk)]
  | @field desc m k s x y hs hx _ ih =>
    simp only [projected_single, scalar_message, object_object]
    refine congrArg _ (SortedMap.collect_congr fun name _ => ?_)
    rw [SortedMap.get_insert]
    split_ifs with hname
    · have hkeep : keep policy pool desc k y = keep policy pool desc k x := by
        unfold keep
        rw [hs]
        exact ih (hv.get hx)
      rw [hname, hx, Option.map_some, Option.map_some, hkeep]
    · rfl
  | @item kind l r x y _ ih =>
    have hx := ih (hv.items x (by simp))
    simp only [projected_single] at hx
    simp only [projected_list, List.mapM_append, List.mapM_cons, hx]
  | @entry kind m k x y hx h ih =>
    have hxy := ih (hv.get hx)
    simp only [projected_single] at hxy
    have hsorted : (Value.object (SortedMap.insert k y m)).Sorted := Edit.sorted (.entry hx h) hv
    simp only [projected_map]
    refine congrArg _ (SortedMap.mapValues_congr hsorted.keys hv.keys fun name => ?_)
    rw [SortedMap.get_insert]
    split_ifs with hname
    · rw [hname, hx, Option.map_some, Option.map_some, hxy]
    · rfl

/-- Changes of private keys, in any number, do not change the projection. -/
theorem projected_eq_of_edits (h : ReflTransGen (Edit policy pool s) v w) (hv : v.Sorted) :
    w.Sorted ∧ projected policy pool s w = projected policy pool s v := by
  induction h with
  | refl => exact ⟨hv, rfl⟩
  | tail _ hstep ih =>
    obtain ⟨hsorted, heq⟩ := ih
    exact ⟨hstep.sorted hsorted, (hstep.projected_eq hsorted).trans heq⟩

theorem Erasure.edit (h : Erasure policy pool s v w) : Edit policy pool s v w := by
  refine Inside.mono (fun desc a b hab => ?_) h
  obtain ⟨k, hk, rfl⟩ := hab
  exact ⟨k, none, hk, nofun, rfl⟩

/-! ### The projection is the input without its private keys -/

/-- The kinds whose values are copied. -/
theorem message_or (kind : Kind M) :
    (∃ desc, kind = .message desc) ∨ ∀ desc, kind ≠ .message desc := by
  by_cases h : ∃ desc, kind = .message desc
  · exact .inl h
  · exact .inr fun desc heq => h ⟨desc, heq⟩

/-- The output comes from the input by removing private keys. -/
theorem erasures_of_projected (hv : v.Sorted) (h : projected policy pool s v = .ok w) :
    ReflTransGen (Erasure policy pool s) v w := by
  -- by induction on the size of the input
  induction hn : sizeOf v using Nat.strong_induction_on generalizing v w s with
  | _ n ih =>
  subst hn
  cases s with
  | map kind =>
    obtain ⟨input, output, rfl, rfl, hsorted, hall⟩ := map_output hv h
    have hmap : ReflTransGen
        (fun a b => Erasure policy pool (.map kind) (Value.object a) (Value.object b))
        input output := by
      refine SortedMap.reach_of_put hv.keys hsorted (fun k hk => ?_) fun a k x ha hxa hx => ?_
      · rcases hall k with ⟨x, -, hx, -⟩ | ⟨-, hout⟩
        · simp [hk] at hx
        · exact hout
      · rcases hall k with ⟨x', y, hx', hy, hxy⟩ | ⟨hnone, -⟩
        · obtain rfl : x = x' := Option.some.inj (hx.symm.trans hx')
          have hreach := ih _ (JsonTree.Value.sizeOf_get hx) (hv.get hx)
            (projected_single.trans hxy) rfl
          rw [hy]
          exact SortedMap.reach_insert ha hxa hreach fun _ _ _ hx hstep => .entry hx hstep
        · simp [hx] at hnone
    exact hmap.lift Value.object fun _ _ hstep => hstep
  | list kind =>
    obtain ⟨items, output, rfl, rfl, hall⟩ := projected_list_eq_ok.1 h
    obtain ⟨hlen, hzip⟩ := List.forall₂_iff_zip.1 hall
    refine reach_items (List.forall₂_iff_zip.2 ⟨hlen, fun {x y} hmem => ?_⟩)
    have hx := (List.of_mem_zip hmem).1
    exact ih _ (JsonTree.Value.sizeOf_item hx) (hv.items x hx)
      (projected_single.trans (hzip hmem)) rfl
  | single kind =>
    rw [projected_single] at h
    rcases message_or kind with ⟨desc, rfl⟩ | hkind
    · rw [scalar_message] at h
      obtain ⟨input, output, rfl, rfl, hsorted, hall⟩ := object_output h
      have hmap : ReflTransGen (fun a b =>
          Erasure policy pool (.single (.message desc)) (Value.object a) (Value.object b))
          input output := by
        refine SortedMap.reach_of_put hv.keys hsorted (fun k hk => ?_) fun a k x ha hxa hx => ?_
        · rcases hall k with ⟨-, s, x, y, -, hx, -⟩ | ⟨-, hout⟩
          · simp [hk] at hx
          · exact hout
        · rcases hall k with ⟨-, s, x', y, hs, hx', hy, hxy⟩ | ⟨hk, hout⟩
          · obtain rfl : x = x' := Option.some.inj (hx.symm.trans hx')
            have hreach := ih _ (JsonTree.Value.sizeOf_get hx) (hv.get hx) hxy rfl
            rw [hy]
            exact SortedMap.reach_insert ha hxa hreach fun _ _ _ hx hstep => .field hs hx hstep
          · have hmem := hk.resolve_right (by simp [hx])
            rw [hout]
            exact .single (.message ⟨k, hmem, rfl⟩)
      exact hmap.lift Value.object fun _ _ hstep => hstep
    · rw [scalar_of_ne hkind] at h
      cases h
      exact .refl

/-- The output has the allowed keys, the map keys and the elements of the input. -/
theorem pruned_of_projected (hv : v.Sorted) (h : projected policy pool s v = .ok w) :
    Pruned policy pool s v w := by
  induction hn : sizeOf v using Nat.strong_induction_on generalizing v w s with
  | _ n ih =>
  subst hn
  cases s with
  | map kind =>
    obtain ⟨input, output, rfl, rfl, hsorted, hall⟩ := map_output hv h
    refine .map (hsorted.keys_eq hv.keys fun k => ?_) fun k x y hx hy => ?_
    · rcases hall k with ⟨x, y, hx, hy, -⟩ | ⟨hx, hy⟩ <;> rw [hx, hy]
      rfl
    · rcases hall k with ⟨x', y', hx', hy', hxy⟩ | ⟨hnone, -⟩
      · obtain rfl : x = x' := Option.some.inj (hx.symm.trans hx')
        obtain rfl : y = y' := Option.some.inj (hy.symm.trans hy')
        exact ih _ (JsonTree.Value.sizeOf_get hx) (hv.get hx) (projected_single.trans hxy) rfl
      · simp [hx] at hnone
  | list kind =>
    obtain ⟨items, output, rfl, rfl, hall⟩ := projected_list_eq_ok.1 h
    obtain ⟨hlen, hzip⟩ := List.forall₂_iff_zip.1 hall
    refine .list hlen fun ⟨x, y⟩ hmem => ?_
    have hx := (List.of_mem_zip hmem).1
    exact ih _ (JsonTree.Value.sizeOf_item hx) (hv.items x hx)
      (projected_single.trans (hzip hmem)) rfl
  | single kind =>
    rw [projected_single] at h
    rcases message_or kind with ⟨desc, rfl⟩ | hkind
    · rw [scalar_message] at h
      obtain ⟨input, output, rfl, rfl, hsorted, hall⟩ := object_output h
      refine .message ?_ (fun k hk => ?_) fun k s x y hs hx hy => ?_
      · refine hsorted.pairwise_keys.eq_of_mem_iff (hv.keys.pairwise_keys.filter _) fun k => ?_
        rw [List.mem_filter, ← SortedMap.get_isSome, ← SortedMap.get_isSome, decide_eq_true_iff]
        rcases hall k with ⟨hk, s, x, y, -, hx, hy, -⟩ | ⟨hk, hy⟩
        · simp [hk, hx, hy]
        · rcases hk with hk | hx
          · simp [hk, hy]
          · simp [hx, hy]
      · rcases hall k with ⟨-, s, x, y, hs, -⟩ | ⟨-, hy⟩
        · exact ⟨s, hs⟩
        · exact absurd hk (SortedMap.get_eq_none.1 hy)
      · rcases hall k with ⟨-, s', x', y', hs', hx', hy', hxy⟩ | ⟨-, hnone⟩
        · obtain rfl : s = s' := Except.ok.inj (hs.symm.trans hs')
          obtain rfl : x = x' := Option.some.inj (hx.symm.trans hx')
          obtain rfl : y = y' := Option.some.inj (hy.symm.trans hy')
          exact ih _ (JsonTree.Value.sizeOf_get hx) (hv.get hx) hxy rfl
        · simp [hy] at hnone
    · rw [scalar_of_ne hkind] at h
      cases h
      exact .scalar hkind

/-- **The projection depends on the allowed keys only.**  Whatever is put under keys outside the
allowlists, in any message of the value, the result is the same.  A successful projection returns
the value without such keys, and is projected to itself. -/
theorem projection_noninterference (policy : String → List String) (pool : DescriptorPool M)
    (desc : M) (v : Json) :
    (∀ u, ReflTransGen (Edit policy pool (.single (.message desc))) v.value u →
      object policy pool desc u = object policy pool desc v.value) ∧
    ∀ w, object policy pool desc v.value = .ok w →
      object policy pool desc w = .ok w ∧
      ReflTransGen (Erasure policy pool (.single (.message desc))) v.value w ∧
      Pruned policy pool (.single (.message desc)) v.value w := by
  have hedits : ∀ u, ReflTransGen (Edit policy pool (.single (.message desc))) v.value u →
      object policy pool desc u = object policy pool desc v.value := by
    intro u hu
    have heq := (projected_eq_of_edits hu v.sorted).2
    rwa [projected_single, projected_single, scalar_message, scalar_message] at heq
  refine ⟨hedits, fun w hw => ?_⟩
  have hprojected : projected policy pool (.single (.message desc)) v.value = .ok w :=
    projected_single.trans (scalar_message.trans hw)
  have herase := erasures_of_projected v.sorted hprojected
  refine ⟨?_, herase, pruned_of_projected v.sorted hprojected⟩
  exact (hedits w (ReflTransGen.mono (fun _ _ hstep => hstep.edit) _ _ herase)).trans hw

end MoenotesApi.Projection
