import Mathlib.Data.Int.CardIntervalMod
import Mathlib.Tactic

/-!
# Round robin

A cursor goes around `n` places.  A turn passes over some places, from the cursor on, takes the next
one and leaves the cursor just behind it; which places it passes over is up to somebody else.

* `Turn`, `Turn.From`: one turn, from a given cursor;
* `Turns`: turns that follow one another;
* `Turns.mem_taken`: a place that `n` turns do not pass over is taken by one of them;
* `Turns.count_taken`: turns that pass over nothing take all places evenly.
-/

namespace RoundRobin

/-- One turn of the cursor: the places that it passes over, and the one that it takes. -/
structure Turn where
  passed : List ℕ
  taken : ℕ

/-- The turn begins with the cursor at `c`. -/
def Turn.From (n c : ℕ) (t : Turn) : Prop :=
  ∃ o < n, t.passed = (List.range o).map (fun j => (c + j) % n) ∧ t.taken = (c + o) % n

/-- `Turns n c ts d`: the turns `ts`, one after the other, take the cursor from `c` to `d`. -/
inductive Turns (n c : ℕ) : List Turn → ℕ → Prop
  | nil : Turns n c [] c
  | snoc {ts d t} (h : Turns n c ts d) (ht : t.From n d) :
      Turns n c (ts ++ [t]) ((t.taken + 1) % n)

variable {n c d i : ℕ} {t : Turn} {ts : List Turn}

/-! ### No place starves -/

/-- How far the place `i` is ahead of the cursor. -/
def distance (n c i : ℕ) : ℕ := if c ≤ i then i - c else i + n - c

theorem distance_lt (hc : c < n) (hi : i < n) : distance n c i < n := by
  unfold distance
  split_ifs <;> omega

theorem add_distance (hc : c < n) (hi : i < n) : (c + distance n c i) % n = i := by
  unfold distance
  split_ifs with h
  · rw [Nat.add_sub_cancel' h, Nat.mod_eq_of_lt hi]
  · rw [show c + (i + n - c) = i + n by omega, Nat.add_mod_right, Nat.mod_eq_of_lt hi]

theorem distance_next {o : ℕ} (hc : c < n) (hi : i < n) (ho : o < distance n c i) :
    distance n ((c + o + 1) % n) i = distance n c i - (o + 1) := by
  have hlt := distance_lt hc hi
  rcases Nat.lt_or_ge (c + o + 1) n with h | h
  · rw [Nat.mod_eq_of_lt h]
    unfold distance at *
    split_ifs at * <;> omega
  · rw [show c + o + 1 = (c + o + 1 - n) + n by omega, Nat.add_mod_right,
      Nat.mod_eq_of_lt (by omega)]
    unfold distance at *
    split_ifs at * <;> omega

/-- A turn that neither passes over `i` nor takes it comes nearer to it. -/
theorem Turn.From.distance_lt (h : t.From n c) (hc : c < n) (hi : i < n) (hpassed : i ∉ t.passed)
    (htaken : t.taken ≠ i) : distance n ((t.taken + 1) % n) i < distance n c i := by
  obtain ⟨o, -, hp, ht⟩ := h
  have hlt : o < distance n c i := by
    by_contra hle
    have hat := add_distance hc hi
    rcases Nat.lt_or_eq_of_le (Nat.not_lt.1 hle) with hlt | heq
    · rw [hp] at hpassed
      exact hpassed (List.mem_map.2 ⟨_, List.mem_range.2 hlt, hat⟩)
    · rw [heq] at hat
      exact htaken (ht.trans hat)
  have hnext := distance_next hc hi hlt
  rw [ht, Nat.mod_add_mod, hnext]
  omega

theorem Turns.cursor_lt (h : Turns n c ts d) (hc : c < n) : d < n := by
  cases h with
  | nil => exact hc
  | snoc => exact Nat.mod_lt _ (by omega)

/-- While turns neither pass over `i` nor take it, there are at most as many as `i` is ahead. -/
theorem Turns.length_le (h : Turns n c ts d) (hc : c < n) (hi : i < n)
    (hpassed : ∀ t ∈ ts, i ∉ t.passed) (htaken : ∀ t ∈ ts, t.taken ≠ i) :
    ts.length + distance n d i ≤ distance n c i := by
  induction h with
  | nil => simp
  | @snoc ts d t h ht ih =>
    have := ih (fun u hu => hpassed u (by simp [hu])) fun u hu => htaken u (by simp [hu])
    have := ht.distance_lt (h.cursor_lt hc) hi (hpassed t (by simp)) (htaken t (by simp))
    rw [List.length_append, List.length_singleton]
    omega

/-- A place that is passed over by none of `n` turns is taken by one of them. -/
theorem Turns.mem_taken (h : Turns n c ts d) (hc : c < n) (hi : i < n) (hlength : n ≤ ts.length)
    (hpassed : ∀ t ∈ ts, i ∉ t.passed) : i ∈ ts.map Turn.taken := by
  by_contra hno
  have hle := h.length_le hc hi hpassed fun t ht htaken => hno (List.mem_map.2 ⟨t, ht, htaken⟩)
  have := RoundRobin.distance_lt hc hi
  omega

/-! ### Turns that pass over nothing -/

theorem Turns.taken_eq (h : Turns n c ts d) (hc : c < n) (hpassed : ∀ t ∈ ts, t.passed = []) :
    ts.map Turn.taken = (List.range ts.length).map (fun j => (c + j) % n) ∧
      d = (c + ts.length) % n := by
  induction h with
  | nil => exact ⟨rfl, (Nat.mod_eq_of_lt hc).symm⟩
  | @snoc ts d t h ht ih =>
    obtain ⟨hts, rfl⟩ := ih fun u hu => hpassed u (by simp [hu])
    obtain ⟨o, -, hp, htaken⟩ := ht
    obtain rfl : o = 0 := by simpa [hpassed t (by simp)] using hp.symm
    rw [Nat.add_zero, Nat.mod_mod] at htaken
    refine ⟨?_, ?_⟩
    · rw [List.map_append, hts, List.length_append, List.length_singleton, List.range_succ,
        List.map_append, List.map_singleton, List.map_singleton, htaken]
    · rw [htaken, Nat.mod_add_mod, List.length_append, List.length_singleton, Nat.add_assoc]

theorem count_range (hc : c < n) (hi : i < n) (k : ℕ) :
    ((List.range k).map fun j => (c + j) % n).count i =
      k.count fun j => j ≡ distance n c i [MOD n] := by
  rw [List.count, List.countP_map, Nat.count]
  refine List.countP_congr fun j _ => ?_
  simp only [Function.comp_apply, beq_iff_eq, decide_eq_true_eq]
  have hi' : i = (c + distance n c i) % n := (add_distance hc hi).symm
  constructor
  · intro h
    exact Nat.ModEq.add_left_cancel' c (h.trans hi')
  · intro h
    have hmod : (c + j) % n = (c + distance n c i) % n := h.add_left c
    exact hmod.trans hi'.symm

theorem ceil_div {k : ℕ} (hn : 0 < n) (hk : 0 < k % n) : (k + n - 1) / n = k / n + 1 := by
  have hdiv := Nat.div_add_mod k n
  have hlt := Nat.mod_lt k hn
  rw [show k + n - 1 = (k % n - 1) + n * (k / n + 1) by rw [Nat.mul_add]; omega,
    Nat.add_mul_div_left _ _ hn, Nat.div_eq_of_lt (by omega), Nat.zero_add]

/-- Turns that pass over nothing take every place `⌊k / n⌋` or `⌈k / n⌉` times. -/
theorem Turns.count_taken (h : Turns n c ts d) (hc : c < n) (hi : i < n)
    (hpassed : ∀ t ∈ ts, t.passed = []) :
    (ts.map Turn.taken).count i = ts.length / n ∨
      (ts.map Turn.taken).count i = (ts.length + n - 1) / n := by
  have hn : 0 < n := by omega
  rw [(h.taken_eq hc hpassed).1, count_range hc hi, Nat.count_modEq_card _ hn]
  split_ifs with hlt
  · exact .inr (ceil_div hn (Nat.zero_lt_of_lt hlt)).symm
  · exact .inl (Nat.add_zero _)

end RoundRobin
