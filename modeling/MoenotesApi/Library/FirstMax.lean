import Mathlib.Data.List.Induction
import Mathlib.Order.Lattice

/-!
# The first greatest element

A loop over a list keeps the element with the greatest key so far; elements without a key are
skipped, and of those with the same key the first one stays.

* `firstMax`: the loop;
* `FirstMax`: the elements before have smaller keys, those after have no greater ones;
* `firstMax_eq_some`, `firstMax_eq_none`: the loop finds exactly this element.
-/

namespace Selection

universe u v

variable {α : Type u} {κ : Type v} [LinearOrder κ] {key : α → Option κ} {xs : List α} {x y : α}
variable {k l : κ}

/-- One round of the loop. -/
def round (key : α → Option κ) (best : Option (κ × α)) (x : α) : Option (κ × α) :=
  match key x with
  | none => best
  | some k => if ∀ old ∈ best, old.1 < k then some (k, x) else best

def firstMax (key : α → Option κ) (xs : List α) : Option (κ × α) := xs.foldl (round key) none

/-- `x` is the first element of `xs` with the greatest key, which is `k`. -/
def FirstMax (key : α → Option κ) (xs : List α) (k : κ) (x : α) : Prop :=
  key x = some k ∧ ∃ before after, xs = before ++ x :: after ∧
    (∀ y ∈ before, ∀ l, key y = some l → l < k) ∧ ∀ y ∈ after, ∀ l, key y = some l → l ≤ k

theorem FirstMax.key_eq (h : FirstMax key xs k x) : key x = some k := h.1

theorem FirstMax.mem (h : FirstMax key xs k x) : x ∈ xs := by
  obtain ⟨-, before, after, rfl, -⟩ := h
  simp

theorem FirstMax.le (h : FirstMax key xs k x) (hy : y ∈ xs) (hl : key y = some l) : l ≤ k := by
  obtain ⟨hk, before, after, rfl, hbefore, hafter⟩ := h
  rcases List.mem_append.1 hy with hy | hy
  · exact (hbefore y hy l hl).le
  · rcases List.mem_cons.1 hy with rfl | hy
    · rw [hk, Option.some.injEq] at hl
      exact hl.ge
    · exact hafter y hy l hl

theorem FirstMax.unique (hx : FirstMax key xs k x) (hy : FirstMax key xs l y) : k = l ∧ x = y := by
  have hkl : k = l := le_antisymm (hy.le hx.mem hx.key_eq) (hx.le hy.mem hy.key_eq)
  subst hkl
  refine ⟨rfl, ?_⟩
  obtain ⟨hkx, before, after, rfl, hbefore, -⟩ := hx
  obtain ⟨hky, before', after', heq, hbefore', -⟩ := hy
  rcases List.append_eq_append_iff.1 heq with ⟨gap, rfl, hgap⟩ | ⟨gap, rfl, hgap⟩
  · cases gap with
    | nil => exact (List.cons.inj hgap).1
    | cons z gap =>
      obtain rfl := (List.cons.inj hgap).1
      exact absurd (hbefore' x (by simp) k hkx) (lt_irrefl k)
  · cases gap with
    | nil => exact (List.cons.inj hgap).1.symm
    | cons z gap =>
      obtain rfl := (List.cons.inj hgap).1
      exact absurd (hbefore y (by simp) k hky) (lt_irrefl k)

theorem firstMax_append (key : α → Option κ) (xs : List α) (x : α) :
    firstMax key (xs ++ [x]) = round key (firstMax key xs) x := by
  simp [firstMax]

/-- What the loop has found: the first greatest element, or nothing if there is no key. -/
theorem firstMax_spec (key : α → Option κ) (xs : List α) :
    (firstMax key xs = none ∧ ∀ x ∈ xs, key x = none) ∨
      ∃ k x, firstMax key xs = some (k, x) ∧ FirstMax key xs k x := by
  induction xs using List.reverseRecOn with
  | nil => exact .inl ⟨rfl, nofun⟩
  | append_singleton xs y ih =>
    rw [firstMax_append, round]
    rcases ih with ⟨hnone, hkeys⟩ | ⟨k, x, hsome, hk, before, after, rfl, hbefore, hafter⟩
    · rw [hnone]
      cases hy : key y with
      | none => exact .inl ⟨rfl, by simpa [or_imp, forall_and, hy] using hkeys⟩
      | some l =>
        refine .inr ⟨l, y, by simp, hy, xs, [], rfl, fun z hz l' hl' => ?_, nofun⟩
        rw [hkeys z hz] at hl'
        cases hl'
    · rw [hsome]
      cases hy : key y with
      | none =>
        refine .inr ⟨k, x, rfl, hk, before, after ++ [y], by simp, hbefore, fun z hz l hl => ?_⟩
        rcases List.mem_append.1 hz with hz | hz
        · exact hafter z hz l hl
        · rw [List.mem_singleton.1 hz, hy] at hl
          cases hl
      | some l =>
        by_cases hlt : k < l
        · refine .inr ⟨l, y, by simp [hlt], hy, before ++ x :: after, [], by simp,
            fun z hz l' hl' => ?_, nofun⟩
          exact (FirstMax.le ⟨hk, before, after, rfl, hbefore, hafter⟩ hz hl').trans_lt hlt
        · refine .inr ⟨k, x, by simp [hlt], hk, before, after ++ [y], by simp, hbefore,
            fun z hz l' hl' => ?_⟩
          rcases List.mem_append.1 hz with hz | hz
          · exact hafter z hz l' hl'
          · rw [List.mem_singleton.1 hz, hy, Option.some.injEq] at hl'
            exact hl' ▸ not_lt.1 hlt

theorem firstMax_eq_some : firstMax key xs = some (k, x) ↔ FirstMax key xs k x := by
  rcases firstMax_spec key xs with ⟨hnone, hkeys⟩ | ⟨l, y, hsome, hy⟩
  · rw [hnone]
    refine ⟨nofun, fun h => ?_⟩
    have hkey := h.key_eq
    rw [hkeys x h.mem] at hkey
    cases hkey
  · rw [hsome]
    constructor
    · intro h
      cases h
      exact hy
    · intro h
      obtain ⟨rfl, rfl⟩ := hy.unique h
      rfl

theorem firstMax_eq_none : firstMax key xs = none ↔ ∀ x ∈ xs, key x = none := by
  rcases firstMax_spec key xs with ⟨hnone, hkeys⟩ | ⟨k, x, hsome, hx⟩
  · exact ⟨fun _ => hkeys, fun _ => hnone⟩
  · rw [hsome]
    refine ⟨nofun, fun h => ?_⟩
    have hkey := hx.key_eq
    rw [h x hx.mem] at hkey
    cases hkey

/-- Where more elements have keys, the greatest key is not smaller. -/
theorem FirstMax.le_of_imp {key' : α → Option κ} (h : FirstMax key xs k x)
    (h' : FirstMax key' xs l y) (himp : ∀ z m, key z = some m → key' z = some m) : k ≤ l :=
  h'.le h.mem (himp x k h.key_eq)

end Selection
