import Mathlib.Data.List.Forall2
import Mathlib.Data.Set.Card
import Mathlib.Logic.Function.Basic

/-!
# Counting the members of a class

A counter of a system says how many of its objects are in some class: how many requests are open, how
many permits are out.  The objects are given by a function that only finitely many updates have
changed.

* `Counts p f n`: exactly `n` indices have a value in the class `p`;
* `Counts.update`: an update changes the count by what it changes at its index;
* `Counts.card_le`, `Counts.mono`, `Counts.add_le`, `Counts.unique`;
* `exists_makers`: things of which nobody makes two have as many different makers.
-/

/-- Exactly `n` indices have a value with `p`. -/
def Counts {ι α : Type*} (p : α → Bool) (f : ι → α) (n : ℕ) : Prop :=
  {i | p (f i) = true}.encard = n

namespace Counts

variable {ι α : Type*} {p q : α → Bool} {f : ι → α} {n m : ℕ} {i : ι} {a : α}

theorem zero (h : ∀ i, p (f i) = false) : Counts p f 0 := by
  have hempty : {i | p (f i) = true} = ∅ := by
    ext i
    simp [h i]
  rw [Counts, hempty, Set.encard_empty, Nat.cast_zero]

theorem unique (hn : Counts p f n) (hm : Counts p f m) : n = m := by
  unfold Counts at hn hm
  rw [hn] at hm
  exact_mod_cast hm

/-- A smaller class has no more members. -/
theorem mono (hn : Counts p f n) (hm : Counts q f m) (h : ∀ i, p (f i) = true → q (f i) = true) :
    n ≤ m := by
  have hle := Set.encard_le_encard (show {i | p (f i) = true} ⊆ {i | q (f i) = true} from h)
  rw [hn, hm] at hle
  exact_mod_cast hle

/-- Finitely many members are at most as many as there are. -/
theorem card_le (hn : Counts p f n) (s : Finset ι) (hs : ∀ i ∈ s, p (f i) = true) : s.card ≤ n := by
  have hle := Set.encard_le_encard (show (s : Set ι) ⊆ {i | p (f i) = true} from hs)
  rw [hn, Set.encard_coe_eq_coe_finsetCard] at hle
  exact_mod_cast hle

/-- Two classes without a member in common, within a third. -/
theorem add_le {r : α → Bool} {k : ℕ} (hn : Counts p f n) (hm : Counts q f m) (hk : Counts r f k)
    (hdisjoint : ∀ a, p a = true → q a = false) (hp : ∀ a, p a = true → r a = true)
    (hq : ∀ a, q a = true → r a = true) : n + m ≤ k := by
  have hunion : Disjoint {i | p (f i) = true} {i | q (f i) = true} := by
    rw [Set.disjoint_left]
    intro i hi hi'
    rw [Set.mem_ofPred_eq, hdisjoint _ hi] at hi'
    cases hi'
  have hsub : {i | p (f i) = true} ∪ {i | q (f i) = true} ⊆ {i | r (f i) = true} := by
    rintro i (hi | hi)
    · exact hp _ hi
    · exact hq _ hi
  have hle := Set.encard_le_encard hsub
  rw [Set.encard_union_eq hunion, hn, hm, hk] at hle
  exact_mod_cast hle

theorem pos (hn : Counts p f n) (hi : p (f i) = true) : 0 < n := by
  have hle := hn.card_le {i} (by simpa using hi)
  rw [Finset.card_singleton] at hle
  omega

variable [DecidableEq ι]

private theorem update_insert (hn : Counts p f n) (hi : p (f i) = false) (ha : p a = true) :
    Counts p (Function.update f i a) (n + 1) := by
  have hset : {j | p (Function.update f i a j) = true} = insert i {j | p (f j) = true} := by
    ext j
    by_cases hj : j = i
    · subst hj
      simp [ha]
    · simp [hj]
  rw [Counts, hset, Set.encard_insert_of_notMem (by simp [hi]), hn]
  rfl

private theorem update_keep (hn : Counts p f n) (ha : p a = p (f i)) :
    Counts p (Function.update f i a) n := by
  have hset : {j | p (Function.update f i a j) = true} = {j | p (f j) = true} := by
    ext j
    by_cases hj : j = i
    · subst hj
      simp [ha]
    · simp [hj]
  rw [Counts, hset]
  exact hn

/-- An update counts for what it changes at its own index. -/
theorem update (hn : Counts p f n) (h : n + (p a).toNat = m + (p (f i)).toNat) :
    Counts p (Function.update f i a) m := by
  cases ha : p a with
  | true =>
    cases hi : p (f i) with
    | true =>
      obtain rfl : n = m := by simpa [ha, hi] using h
      exact hn.update_keep (by rw [ha, hi])
    | false =>
      obtain rfl : n + 1 = m := by simpa [ha, hi] using h
      exact hn.update_insert hi ha
  | false =>
    cases hi : p (f i) with
    | true =>
      obtain rfl : n = m + 1 := by simpa [ha, hi] using h
      -- undoing the update adds the index again
      have hfin : {j | p (Function.update f i a j) = true}.Finite := by
        refine (Set.finite_of_encard_eq_coe hn).subset fun j hj => ?_
        by_cases hji : j = i
        · subst hji
          simp [ha] at hj
        · simpa [hji] using hj
      obtain ⟨k, hk⟩ : ∃ k : ℕ, Counts p (Function.update f i a) k :=
        ⟨_, (hfin.cast_ncard_eq).symm⟩
      have hback := hk.update_insert (i := i) (a := f i) (by simpa using ha) hi
      rw [Function.update_idem, Function.update_eq_self] at hback
      obtain rfl : m = k := by
        have := hback.unique hn
        omega
      exact hk
    | false =>
      obtain rfl : n = m := by simpa [ha, hi] using h
      exact hn.update_keep (by rw [ha, hi])

end Counts

theorem exists_of_forall₂ {α β : Type*} {R : α → β → Prop} {as : List α} {bs : List β}
    (h : List.Forall₂ R as bs) {a : α} (ha : a ∈ as) : ∃ b ∈ bs, R a b := by
  induction h with
  | nil => cases ha
  | @cons a' b _ _ hab _ ih =>
    rcases List.mem_cons.1 ha with rfl | ha
    · exact ⟨b, List.mem_cons_self, hab⟩
    · obtain ⟨b, hb, hab⟩ := ih ha
      exact ⟨b, List.mem_cons_of_mem _ hb, hab⟩

/-- Different things of which nobody makes two have been made by different ones. -/
theorem exists_makers {α β : Type*} {R : α → β → Prop} {l : List β} (hl : l.Nodup)
    (hmade : ∀ b ∈ l, ∃ a, R a b) (hone : ∀ a b b', R a b → R a b' → b = b') :
    ∃ makers : List α, makers.Nodup ∧ List.Forall₂ R makers l := by
  induction l with
  | nil => exact ⟨[], List.nodup_nil, .nil⟩
  | cons b l ih =>
    obtain ⟨hb, hl⟩ := List.nodup_cons.1 hl
    obtain ⟨a, ha⟩ := hmade b List.mem_cons_self
    obtain ⟨makers, hnodup, hmakers⟩ := ih hl fun b hb => hmade b (List.mem_cons_of_mem _ hb)
    refine ⟨a :: makers, List.nodup_cons.2 ⟨fun hmem => ?_, hnodup⟩, .cons ha hmakers⟩
    obtain ⟨b', hb', ha'⟩ := exists_of_forall₂ hmakers hmem
    exact hb (hone a b b' ha ha' ▸ hb')
