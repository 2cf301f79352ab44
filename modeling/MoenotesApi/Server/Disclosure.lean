import MoenotesApi.Server.Interference

/-!
# What a public response can disclose

`projection.rs` is a fail-closed policy: an object in a public response should be a message, with
allowed keys only, or a map.  `object` rejects a value that is not an object where the descriptor has
a message, and one that is not an object or array where it has a map or list, but `scalar` copies
whatever it finds where the descriptor has any other kind.

* `Public`: every object is a message with allowed keys or a map;
* `Conforms`: the input is rejected if it does not have this (`conforms_iff`);
* `Bare`: the scalars of the input hold no object;
* `failsClosed_iff`: the main result; `private_key_published` is a leak.
-/

namespace MoenotesApi.Projection

open JsonTree (Value Json)

variable {M : Type} {policy : String → List String} {pool : DescriptorPool M}
variable {desc : M} {kind : Kind M} {s : Shape M} {v w : Value}

/-- The value holds no object. -/
inductive Plain : Value → Prop
  | null : Plain .null
  | bool (b : Bool) : Plain (.bool b)
  | number (text : String) : Plain (.number text)
  | string (text : String) : Plain (.string text)
  | array {items : List Value} (h : ∀ v ∈ items, Plain v) : Plain (.array items)

/-- Every object in the value is where the descriptor has a message, and then has allowed keys only,
or where it has a map. -/
inductive Public (policy : String → List String) (pool : DescriptorPool M) : Shape M → Value → Prop
  | scalar {kind : Kind M} {v : Value} (h : ∀ desc, kind ≠ .message desc) (hv : Plain v) :
    Public policy pool (.single kind) v
  | message {desc : M} {m : List (String × Value)}
      (hkeys : ∀ k ∈ SortedMap.keys m,
        k ∈ policy (pool.fullName desc) ∧ ∃ s, shape pool desc k = .ok s)
      (h : ∀ k s x, shape pool desc k = .ok s → SortedMap.get k m = some x →
        Public policy pool s x) :
    Public policy pool (.single (.message desc)) (.object m)
  | list {kind : Kind M} {items : List Value} (h : ∀ v ∈ items, Public policy pool (.single kind) v) :
    Public policy pool (.list kind) (.array items)
  | map {kind : Kind M} {m : List (String × Value)}
      (h : ∀ k x, SortedMap.get k m = some x → Public policy pool (.single kind) x) :
    Public policy pool (.map kind) (.object m)

/-- There are objects and arrays under the allowed keys where the descriptor has messages, maps and
lists, and it has a field for each of these keys. -/
inductive Conforms (policy : String → List String) (pool : DescriptorPool M) :
    Shape M → Value → Prop
  | scalar {kind : Kind M} {v : Value} (h : ∀ desc, kind ≠ .message desc) :
    Conforms policy pool (.single kind) v
  | message {desc : M} {m : List (String × Value)}
      (hshape : ∀ k ∈ policy (pool.fullName desc), k ∈ SortedMap.keys m →
        ∃ s, shape pool desc k = .ok s)
      (h : ∀ k s x, k ∈ policy (pool.fullName desc) → shape pool desc k = .ok s →
        SortedMap.get k m = some x → Conforms policy pool s x) :
    Conforms policy pool (.single (.message desc)) (.object m)
  | list {kind : Kind M} {items : List Value}
      (h : ∀ v ∈ items, Conforms policy pool (.single kind) v) :
    Conforms policy pool (.list kind) (.array items)
  | map {kind : Kind M} {m : List (String × Value)}
      (h : ∀ k x, SortedMap.get k m = some x → Conforms policy pool (.single kind) x) :
    Conforms policy pool (.map kind) (.object m)

/-- Under the allowed keys there is no object where the descriptor has a scalar. -/
inductive Bare (policy : String → List String) (pool : DescriptorPool M) : Shape M → Value → Prop
  | scalar {kind : Kind M} {v : Value} (h : ∀ desc, kind ≠ .message desc) (hv : Plain v) :
    Bare policy pool (.single kind) v
  | message {desc : M} {m : List (String × Value)}
      (h : ∀ k s x, k ∈ policy (pool.fullName desc) → shape pool desc k = .ok s →
        SortedMap.get k m = some x → Bare policy pool s x) :
    Bare policy pool (.single (.message desc)) (.object m)
  | list {kind : Kind M} {items : List Value} (h : ∀ v ∈ items, Bare policy pool (.single kind) v) :
    Bare policy pool (.list kind) (.array items)
  | map {kind : Kind M} {m : List (String × Value)}
      (h : ∀ k x, SortedMap.get k m = some x → Bare policy pool (.single kind) x) :
    Bare policy pool (.map kind) (.object m)

/-! ### Which values are accepted -/

theorem exists_zip_of_mem {xs ys : List Value} (hlen : xs.length = ys.length) {x : Value}
    (hx : x ∈ xs) : ∃ y, (x, y) ∈ xs.zip ys := by
  obtain ⟨i, hi, rfl⟩ := List.mem_iff_getElem.1 hx
  exact ⟨ys[i], List.mem_iff_getElem.2 ⟨i, by simp [← hlen, hi], by simp⟩⟩

theorem exists_zip_of_mem' {xs ys : List Value} (hlen : xs.length = ys.length) {y : Value}
    (hy : y ∈ ys) : ∃ x, (x, y) ∈ xs.zip ys := by
  obtain ⟨i, hi, rfl⟩ := List.mem_iff_getElem.1 hy
  exact ⟨xs[i], List.mem_iff_getElem.2 ⟨i, by simp [hlen, hi], by simp⟩⟩

theorem conforms_of_projected (hv : v.Sorted) (h : projected policy pool s v = .ok w) :
    Conforms policy pool s v := by
  have hpruned := pruned_of_projected hv h
  clear h
  induction hpruned with
  | scalar h => exact .scalar h
  | @message desc a b hkeys hshape _ ih =>
    have hmem : ∀ k, k ∈ policy (pool.fullName desc) → k ∈ SortedMap.keys a →
        k ∈ SortedMap.keys b := by
      intro k hk hka
      rw [hkeys, List.mem_filter]
      exact ⟨hka, by simpa using hk⟩
    refine .message (fun k hk hka => hshape k (hmem k hk hka)) fun k s x hk hs hx => ?_
    obtain ⟨y, hy⟩ := SortedMap.exists_get (hmem k hk (SortedMap.mem_keys_of_get hx))
    exact ih k s x y hs hx hy (hv.get hx)
  | @list kind xs ys hlen _ ih =>
    refine .list fun x hx => ?_
    obtain ⟨y, hzip⟩ := exists_zip_of_mem hlen hx
    exact ih _ hzip (hv.items _ hx)
  | @map kind a b hkeys _ ih =>
    refine .map fun k x hx => ?_
    have hk := SortedMap.mem_keys_of_get hx
    rw [← hkeys] at hk
    obtain ⟨y, hy⟩ := SortedMap.exists_get hk
    exact ih k x y hx hy (hv.get hx)

theorem exists_projected (hv : v.Sorted) (h : Conforms policy pool s v) :
    ∃ w, projected policy pool s v = .ok w := by
  induction h with
  | @scalar kind v h => exact ⟨v, projected_single.trans (scalar_of_ne h)⟩
  | @message desc m hshape _ ih =>
    rw [projected_single, scalar_message, object_object]
    have hkeep : ∀ k ∈ policy (pool.fullName desc), ∀ r,
        (SortedMap.get k m).map (keep policy pool desc k) = some r → ∃ y, r = .ok y := by
      intro k hk r hr
      obtain ⟨x, hx, rfl⟩ := Option.map_eq_some_iff.1 hr
      obtain ⟨s, hs⟩ := hshape k hk (SortedMap.mem_keys_of_get hx)
      obtain ⟨y, hy⟩ := ih k s x hk hs hx (hv.get hx)
      exact ⟨y, keep_eq_ok.2 ⟨s, hs, hy⟩⟩
    obtain ⟨out, hout⟩ := SortedMap.exists_collect hkeep
    exact ⟨_, Except.map_eq_ok.2 ⟨out, hout, rfl⟩⟩
  | @list kind items _ ih =>
    rw [projected_list]
    obtain ⟨ys, hys⟩ := Except.exists_mapM fun x hx => by
      obtain ⟨y, hy⟩ := ih x hx (hv.items x hx)
      exact ⟨y, projected_single.symm.trans hy⟩
    exact ⟨_, Except.map_eq_ok.2 ⟨ys, hys, rfl⟩⟩
  | @map kind m _ ih =>
    rw [projected_map]
    obtain ⟨out, hout⟩ := SortedMap.exists_mapValues hv.keys fun k x hx => by
      obtain ⟨y, hy⟩ := ih k x hx (hv.get hx)
      exact ⟨y, projected_single.symm.trans hy⟩
    exact ⟨_, Except.map_eq_ok.2 ⟨out, hout, rfl⟩⟩

/-! ### Which outputs are public -/

/-- Nothing but the scalars of the input decides whether the output is public. -/
theorem public_iff_bare (h : Pruned policy pool s v w) :
    Public policy pool s w ↔ Bare policy pool s v := by
  induction h with
  | scalar hkind =>
    constructor
    · rintro (⟨_, hplain⟩ | _)
      · exact .scalar hkind hplain
      · exact absurd rfl (hkind _)
    · rintro (⟨_, hplain⟩ | _)
      · exact .scalar hkind hplain
      · exact absurd rfl (hkind _)
  | @message desc a b hkeys hshape _ ih =>
    have hmem : ∀ k, k ∈ SortedMap.keys b ↔
        k ∈ SortedMap.keys a ∧ k ∈ policy (pool.fullName desc) := by
      intro k
      rw [hkeys, List.mem_filter, decide_eq_true_iff]
    constructor
    · intro hpublic
      cases hpublic with
      | scalar hkind _ => exact absurd rfl (hkind desc)
      | message _ h =>
        refine .message fun k s x hk hs hx => ?_
        obtain ⟨y, hy⟩ := SortedMap.exists_get ((hmem k).2 ⟨SortedMap.mem_keys_of_get hx, hk⟩)
        exact (ih k s x y hs hx hy).1 (h k s y hs hy)
    · intro hbare
      cases hbare with
      | scalar hkind _ => exact absurd rfl (hkind desc)
      | message h =>
        refine .message (fun k hk => ⟨((hmem k).1 hk).2, hshape k hk⟩) fun k s y hs hy => ?_
        obtain ⟨hka, hk⟩ := (hmem k).1 (SortedMap.mem_keys_of_get hy)
        obtain ⟨x, hx⟩ := SortedMap.exists_get hka
        exact (ih k s x y hs hx hy).2 (h k s x hk hs hx)
  | @list kind xs ys hlen _ ih =>
    constructor
    · intro hpublic
      cases hpublic with
      | list h =>
        refine .list fun x hx => ?_
        obtain ⟨y, hzip⟩ := exists_zip_of_mem hlen hx
        exact (ih _ hzip).1 (h y (List.of_mem_zip hzip).2)
    · intro hbare
      cases hbare with
      | list h =>
        refine .list fun y hy => ?_
        obtain ⟨x, hzip⟩ := exists_zip_of_mem' hlen hy
        exact (ih _ hzip).2 (h x (List.of_mem_zip hzip).1)
  | @map kind a b hkeys _ ih =>
    constructor
    · intro hpublic
      cases hpublic with
      | map h =>
        refine .map fun k x hx => ?_
        obtain ⟨y, hy⟩ := SortedMap.exists_get (hkeys ▸ SortedMap.mem_keys_of_get hx)
        exact (ih k x y hx hy).1 (h k y hy)
    · intro hbare
      cases hbare with
      | map h =>
        refine .map fun k y hy => ?_
        obtain ⟨x, hx⟩ := SortedMap.exists_get (hkeys ▸ SortedMap.mem_keys_of_get hy)
        exact (ih k x y hx hy).2 (h k x hx)

/-! ### Whole responses -/

/-- The descriptor that `project` consults. -/
def outputDescriptor (pool : DescriptorPool M) (method : String) : Option M := do
  let method ← methods.find? fun m => m.name = method
  pool.getMessageByName method.output

theorem project_eq_ok {method : String} : project pool method v = .ok w ↔
    ∃ desc, outputDescriptor pool method = some desc ∧ object allowed pool desc v = .ok w := by
  unfold project outputDescriptor
  cases methods.find? fun m => m.name = method with
  | none => simp
  | some method =>
    cases hdesc : pool.getMessageByName method.output with
    | none => simp [hdesc]
    | some desc => simp [hdesc]

/-- `project` reports an error or returns a public value. -/
def FailsClosed (pool : DescriptorPool M) (method : String) (v : Value) : Prop :=
  ∀ w, project pool method v = .ok w → ∃ desc, outputDescriptor pool method = some desc ∧
    Public allowed pool (.single (.message desc)) w

/-- **When the projection fails closed.**  It does so exactly for the values that it rejects and
those with no object under an allowed key where the descriptor has a scalar. -/
theorem failsClosed_iff (pool : DescriptorPool M) (method : String) (v : Json) :
    FailsClosed pool method v.value ↔
      ∀ desc, outputDescriptor pool method = some desc →
        ¬ Conforms allowed pool (.single (.message desc)) v.value ∨
          Bare allowed pool (.single (.message desc)) v.value := by
  have hobject : ∀ desc w, projected allowed pool (.single (.message desc)) v.value = .ok w ↔
      object allowed pool desc v.value = .ok w := by
    intro desc w
    rw [projected_single, scalar_message]
  constructor
  · intro h desc hdesc
    by_cases hconforms : Conforms allowed pool (.single (.message desc)) v.value
    · obtain ⟨w, hw⟩ := exists_projected v.sorted hconforms
      obtain ⟨desc', hdesc', hpublic⟩ :=
        h w (project_eq_ok.2 ⟨desc, hdesc, (hobject desc w).1 hw⟩)
      obtain rfl : desc = desc' := Option.some.inj (hdesc.symm.trans hdesc')
      exact .inr ((public_iff_bare (pruned_of_projected v.sorted hw)).1 hpublic)
    · exact .inl hconforms
  · intro h w hw
    obtain ⟨desc, hdesc, hw⟩ := project_eq_ok.1 hw
    have hprojected := (hobject desc w).2 hw
    refine ⟨desc, hdesc, ?_⟩
    rcases h desc hdesc with hconforms | hbare
    · exact absurd (conforms_of_projected v.sorted hprojected) hconforms
    · exact (public_iff_bare (pruned_of_projected v.sorted hprojected)).2 hbare

/-- The descriptor of the answer to `favorite-status`. -/
def favoriteStatusPool : DescriptorPool Unit where
  fullName _ := "app.player.GetPlayerFavoriteStatusResponse"
  fields _ :=
    [⟨"total_favorite", "totalFavorite", .int64, false, false⟩,
      ⟨"is_sent_favorite", "isSentFavorite", .bool, false, false⟩]
  getMessageByName name :=
    if name = "app.player.GetPlayerFavoriteStatusResponse" then some () else none

/-- A response of another schema, where `totalFavorite` is a message. -/
def nestedFavorite : Json where
  value := .object [("totalFavorite", .object [("credential", .string "no")])]
  sorted := by
    refine .object (List.pairwise_singleton _ _) fun e he => ?_
    obtain rfl := List.mem_singleton.1 he
    refine .object (List.pairwise_singleton _ _) fun e he => ?_
    obtain rfl := List.mem_singleton.1 he
    exact .string "no"

theorem shape_totalFavorite :
    shape favoriteStatusPool () "totalFavorite" = .ok (.single .int64) := rfl

/-- The private key of `nestedFavorite` is in the public response. -/
theorem private_key_published :
    project favoriteStatusPool "favorite-status" nestedFavorite.value = .ok nestedFavorite.value ∧
      ¬ FailsClosed favoriteStatusPool "favorite-status" nestedFavorite.value := by
  have hproject : project favoriteStatusPool "favorite-status" nestedFavorite.value =
      .ok nestedFavorite.value := by
    have hallowed : allowed (favoriteStatusPool.fullName ()) = ["totalFavorite"] := rfl
    have hkeep : ∀ x, keep allowed favoriteStatusPool () "totalFavorite" x = .ok x :=
      fun x => keep_eq_ok.2 ⟨_, shape_totalFavorite, projected_single.trans (scalar_of_ne nofun)⟩
    refine project_eq_ok.2 ⟨(), rfl, ?_⟩
    rw [nestedFavorite, object_object, hallowed]
    simp [SortedMap.collect, SortedMap.get, SortedMap.insert, hkeep]
  refine ⟨hproject, fun h => ?_⟩
  obtain ⟨⟨⟩, -, hpublic⟩ := h _ hproject
  cases hpublic with
  | scalar hkind _ => exact hkind () rfl
  | message _ h =>
    cases h "totalFavorite" _ _ shape_totalFavorite rfl with
    | scalar _ hplain => cases hplain

end MoenotesApi.Projection
