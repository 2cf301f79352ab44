import Mathlib.Algebra.BigOperators.Group.Finset.Piecewise
import Mathlib.Algebra.Order.BigOperators.Group.Finset
import MoenotesApi.Library.Run

/-!
# Weights and termination

How much work is left in a system.  The objects of a system are given by a function that only finitely
many updates have changed; each weighs as much as it still has to do.

* `Weighs w f n`: all values of `f` together weigh `n`; `Weighs.update`: an update changes the weight by
  what it changes at its index;
* `Runs.Run.accounting`: where a step that works takes from the weight, and others add only what they
  bring, the work of a run is bounded by what was brought;
* `length_le_of_count_le`: what is bounded key by key is bounded.
-/

/-- All values of `f` together weigh `n`. -/
def Weighs {ι α : Type*} (w : α → ℕ) (f : ι → α) (n : ℕ) : Prop :=
  ∃ s : Finset ι, (∀ i, i ∉ s → w (f i) = 0) ∧ ∑ i ∈ s, w (f i) = n

namespace Weighs

variable {ι α : Type*} {w : α → ℕ} {f : ι → α} {n m : ℕ} {i : ι} {a : α}

theorem zero (h : ∀ i, w (f i) = 0) : Weighs w f 0 := ⟨∅, fun i _ => h i, Finset.sum_empty⟩

/-- No value weighs more than all together. -/
theorem le (h : Weighs w f n) (i : ι) : w (f i) ≤ n := by
  obtain ⟨s, hs, rfl⟩ := h
  by_cases hi : i ∈ s
  · exact Finset.single_le_sum (f := fun i => w (f i)) (fun _ _ => Nat.zero_le _) hi
  · rw [hs i hi]
    exact Nat.zero_le _

variable [DecidableEq ι]

/-- An update weighs what it changes at its own index. -/
theorem update (h : Weighs w f n) (hm : n + w a = m + w (f i)) :
    Weighs w (Function.update f i a) m := by
  obtain ⟨s, hs, rfl⟩ := h
  have hweights : (fun j => w (Function.update f i a j)) =
      Function.update (fun j => w (f j)) i (w a) := by
    funext j
    by_cases hj : j = i
    · subst hj
      rw [Function.update_self, Function.update_self]
    · rw [Function.update_of_ne hj, Function.update_of_ne hj]
  refine ⟨insert i s, fun j hj => ?_, ?_⟩
  · rw [Finset.mem_insert, not_or] at hj
    rw [Function.update_of_ne hj.1]
    exact hs j hj.2
  · have hnew : ∑ j ∈ insert i s, w (Function.update f i a j) =
        w a + ∑ j ∈ insert i s \ {i}, w (f j) := by
      rw [hweights, Finset.sum_update_of_mem (Finset.mem_insert_self i s)]
    have hold : ∑ j ∈ insert i s, w (f j) = w (f i) + ∑ j ∈ insert i s \ {i}, w (f j) := by
      rw [Finset.sdiff_singleton_eq_erase, Finset.add_sum_erase _ (fun j => w (f j)) (Finset.mem_insert_self i s)]
    have hsum : ∑ j ∈ insert i s, w (f j) = ∑ j ∈ s, w (f j) := by
      by_cases hi : i ∈ s
      · rw [Finset.insert_eq_of_mem hi]
      · rw [Finset.sum_insert hi, hs i hi, Nat.zero_add]
    rw [hnew]
    omega

end Weighs

/-! ### The accounting of a run -/

namespace Runs

variable {σ ε : Type*} {step : σ → ε → Option σ} {s u : σ} {ts : List (Transition σ ε)}

/-- If every step keeps an account of the work that is left, where each unit that is brought adds `k` to
it and each unit of work takes one away, then a run works no more than was left and brought. -/
theorem Run.accounting {P : σ → ℕ → Prop} {works brings : Transition σ ε → Bool} {k n : ℕ}
    (hrun : Run step s ts u) (hstart : P s n)
    (hstep : ∀ ts m e m' n, Run step s ts m → P m n → step m e = some m' →
      ∃ n', P m' n' ∧ n' + (works ⟨m, e, m'⟩).toNat ≤ n + k * (brings ⟨m, e, m'⟩).toNat) :
    ∃ n', P u n' ∧ ts.countP works + n' ≤ n + k * ts.countP brings := by
  induction hrun with
  | nil => exact ⟨n, hstart, by simp⟩
  | @snoc ts m e m' hrun he ih =>
    obtain ⟨a, ha, hle⟩ := ih
    obtain ⟨b, hb, hle'⟩ := hstep ts m e m' a hrun ha he
    refine ⟨b, hb, ?_⟩
    simp only [Bool.toNat, Bool.cond_eq_ite] at hle'
    rw [List.countP_append, List.countP_singleton, List.countP_append, List.countP_singleton,
      Nat.mul_add]
    omega

end Runs

/-! ### Bounds key by key -/

theorem count_flatMap_replicate {κ : Type*} [BEq κ] [LawfulBEq κ] (k : ℕ) (x : κ) (bs : List κ) :
    (bs.flatMap (List.replicate k)).count x = k * bs.count x := by
  induction bs with
  | nil => rfl
  | cons b bs ih =>
    rw [List.flatMap_cons, List.count_append, List.count_replicate, ih, List.count_cons, Nat.mul_add]
    split_ifs <;> omega

theorem length_flatMap_replicate {κ : Type*} (k : ℕ) (bs : List κ) :
    (bs.flatMap (List.replicate k)).length = k * bs.length := by
  induction bs with
  | nil => rfl
  | cons b bs ih =>
    rw [List.flatMap_cons, List.length_append, List.length_replicate, ih, List.length_cons,
      Nat.mul_add, Nat.mul_one, Nat.add_comm]

/-- A list in which every key has at most `k` times as many entries as in another is at most `k` times
as long. -/
theorem length_le_of_count_le {κ : Type*} [BEq κ] [LawfulBEq κ] {as bs : List κ} {k : ℕ}
    (h : ∀ x, as.count x ≤ k * bs.count x) : as.length ≤ k * bs.length := by
  rw [← length_flatMap_replicate]
  refine (List.subperm_ext_iff.2 fun x _ => ?_).length_le
  rw [count_flatMap_replicate]
  exact h x
