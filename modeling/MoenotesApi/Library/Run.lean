import Mathlib.Logic.Relation
import Mathlib.Data.List.Basic

/-!
# Runs of a partial step function

A system is a partial function `step : σ → ε → Option σ`: `step s e = some s'` says that the event
`e` can happen in `s` and then leads to `s'`.  A run is the list of its transitions, each with the
state before and after it, so that a property of a whole history is a property of that list.

* `Run step s ts u`: the transitions `ts` lead from `s` to `u`;
* `Run.append`, `Run.split`, `Run.around`: runs compose and can be cut at any transition;
* `Run.invariant`, `Run.mem_invariant`, `Run.preorder`: what one step keeps, a run keeps;
* `Descends`: the ancestry of the objects that transitions create from one another;
  `Descends.exists_link`: an ancestry of numbered objects passes through all numbers in between;
* `transitions`, `transitionOf`, `run_transitions`: the run of a given list of events, by evaluation.
-/

namespace Runs

/-- One transition of a run. -/
structure Transition (σ ε : Type*) where
  before : σ
  event : ε
  after : σ

variable {σ ε : Type*} {step : σ → ε → Option σ} {s m u : σ}
variable {ts us : List (Transition σ ε)}

/-- `Run step s ts u`: the transitions `ts`, in this order, lead from `s` to `u`. -/
inductive Run (step : σ → ε → Option σ) (s : σ) : List (Transition σ ε) → σ → Prop
  | nil : Run step s [] s
  | snoc {ts : List (Transition σ ε)} {m : σ} {e : ε} {m' : σ} (h : Run step s ts m)
      (he : step m e = some m') : Run step s (ts ++ [⟨m, e, m'⟩]) m'

/-! ### Composing and cutting runs -/

theorem Run.append (h : Run step s ts m) (h' : Run step m us u) : Run step s (ts ++ us) u := by
  induction h' with
  | nil => simpa using h
  | snoc _ he ih => rw [← List.append_assoc]; exact ih.snoc he

theorem Run.single {e : ε} {m' : σ} (he : step m e = some m') : Run step m [⟨m, e, m'⟩] m' :=
  Run.nil.snoc he

theorem Run.nil_eq (h : Run step s [] u) : u = s := by
  generalize hl : ([] : List (Transition σ ε)) = l at h
  cases h with
  | nil => rfl
  | snoc _ _ => simp at hl

/-- A run of `ts ++ us` passes through a state between `ts` and `us`. -/
theorem Run.split (h : Run step s (ts ++ us) u) :
    ∃ m, Run step s ts m ∧ Run step m us u := by
  generalize hl : ts ++ us = l at h
  induction h generalizing us with
  | nil =>
    obtain ⟨rfl, rfl⟩ := List.append_eq_nil_iff.1 hl
    exact ⟨s, .nil, .nil⟩
  | @snoc l m e m' h he ih =>
    rcases List.eq_nil_or_concat us with rfl | ⟨us', t, rfl⟩
    · rw [List.append_nil] at hl
      subst hl
      exact ⟨m', h.snoc he, .nil⟩
    · rw [List.concat_eq_append, ← List.append_assoc] at hl
      obtain ⟨rfl, ht⟩ := List.append_inj' hl rfl
      obtain ⟨k, hk, hk'⟩ := ih rfl
      obtain rfl : t = ⟨m, e, m'⟩ := by simpa using ht
      exact ⟨k, hk, by simpa using hk'.snoc he⟩

theorem Run.cons_iff {t : Transition σ ε} :
    Run step s (t :: ts) u ↔
      t.before = s ∧ step t.before t.event = some t.after ∧ Run step t.after ts u := by
  constructor
  · intro h
    obtain ⟨m, h1, h2⟩ := Run.split (show Run step s ([t] ++ ts) u from h)
    generalize hl : [t] = l at h1
    cases h1 with
    | nil => simp at hl
    | @snoc l k e k' hk he =>
      obtain rfl : l = [] := by
        cases l with
        | nil => rfl
        | cons a l => simp at hl
      obtain rfl := hk.nil_eq
      obtain rfl : t = ⟨k, e, m⟩ := by simpa using hl
      exact ⟨rfl, he, h2⟩
  · rintro ⟨rfl, he, h⟩
    exact (Run.single he).append h

/-- Cutting a run at one of its transitions. -/
theorem Run.around {t : Transition σ ε} (h : Run step s (ts ++ t :: us) u) :
    Run step s ts t.before ∧ step t.before t.event = some t.after ∧ Run step t.after us u := by
  obtain ⟨m, h1, h2⟩ := h.split
  obtain ⟨rfl, he, h3⟩ := Run.cons_iff.1 h2
  exact ⟨h1, he, h3⟩

theorem Run.step_of_mem (h : Run step s ts u) {t : Transition σ ε} (ht : t ∈ ts) :
    step t.before t.event = some t.after := by
  obtain ⟨a, b, rfl⟩ := List.append_of_mem ht
  exact h.around.2.1

/-! ### What one step keeps, a run keeps -/

theorem Run.invariant {I : σ → Prop} (hI : ∀ m e m', I m → step m e = some m' → I m')
    (h : Run step s ts u) (hs : I s) : I u := by
  induction h with
  | nil => exact hs
  | snoc _ he ih => exact hI _ _ _ ih he

/-- An invariant holds before and after every transition of a run. -/
theorem Run.mem_invariant {I : σ → Prop} (hI : ∀ m e m', I m → step m e = some m' → I m')
    (h : Run step s ts u) (hs : I s) {t : Transition σ ε} (ht : t ∈ ts) :
    I t.before ∧ I t.after := by
  obtain ⟨a, b, rfl⟩ := List.append_of_mem ht
  obtain ⟨h1, he, -⟩ := h.around
  have hb := h1.invariant hI hs
  exact ⟨hb, hI _ _ _ hb he⟩

/-- A preorder that every step respects relates the two ends of a run. -/
theorem Run.preorder {R : σ → σ → Prop} (hrefl : ∀ m, R m m)
    (htrans : ∀ a b c, R a b → R b c → R a c) (hR : ∀ m e m', step m e = some m' → R m m')
    (h : Run step s ts u) : R s u := by
  induction h with
  | nil => exact hrefl s
  | snoc _ he ih => exact htrans _ _ _ ih (hR _ _ _ he)

/-- The states some run from `s` ends in. -/
def Reachable (step : σ → ε → Option σ) (s u : σ) : Prop := ∃ ts, Run step s ts u

theorem Reachable.invariant {I : σ → Prop} (hI : ∀ m e m', I m → step m e = some m' → I m')
    (h : Reachable step s u) (hs : I s) : I u := by
  obtain ⟨ts, h⟩ := h
  exact h.invariant hI hs

/-! ### Ancestry -/

/-- `Descends E ts a b`: `b` is reached from `a` by links that transitions of `ts` made, where
`E t a b` says that `t` links `a` to `b`. -/
def Descends {α : Type*} (E : Transition σ ε → α → α → Prop) (ts : List (Transition σ ε)) :
    α → α → Prop :=
  Relation.ReflTransGen fun a b => ∃ t ∈ ts, E t a b

section Descends

variable {α : Type*} {E : Transition σ ε → α → α → Prop} {a b : α}

theorem Descends.refl : Descends E ts a a := Relation.ReflTransGen.refl

theorem Descends.mono (h : Descends E ts a b) (hsub : ∀ t ∈ ts, t ∈ us) : Descends E us a b := by
  refine Relation.ReflTransGen.mono ?_ _ _ h
  rintro x y ⟨t, ht, hE⟩
  exact ⟨t, hsub t ht, hE⟩

/-- No link leaves `a`, so nothing but `a` descends from it. -/
theorem Descends.eq_of_no_link (h : Descends E ts a b) (ha : ∀ t ∈ ts, ∀ c, ¬ E t a c) :
    b = a := by
  induction h using Relation.ReflTransGen.head_induction_on with
  | refl => rfl
  | head hlink _ _ =>
    obtain ⟨t, ht, hE⟩ := hlink
    exact absurd hE (ha t ht _)

end Descends

section Successive

variable {E : Transition σ ε → ℕ → ℕ → Prop} {a b c : ℕ}

/-- Links from each number to the next one only. -/
theorem Descends.le (h : Descends E ts a b) (hE : ∀ t ∈ ts, ∀ x y, E t x y → y = x + 1) :
    a ≤ b := by
  induction h with
  | refl => exact Nat.le_refl _
  | tail _ hlink ih =>
    obtain ⟨t, ht, hxy⟩ := hlink
    have := hE t ht _ _ hxy
    omega

/-- The predecessor of a number in its descent, and the link that leads to it. -/
theorem Descends.pred (h : Descends E ts a (c + 1)) (hE : ∀ t ∈ ts, ∀ x y, E t x y → y = x + 1)
    (hac : a ≤ c) : Descends E ts a c ∧ ∃ t ∈ ts, E t c (c + 1) := by
  rcases Relation.ReflTransGen.cases_tail h with heq | ⟨d, hd, t, ht, hxy⟩
  · omega
  · have := hE t ht _ _ hxy
    obtain rfl : d = c := by omega
    exact ⟨hd, t, ht, hxy⟩

/-- A descent passes through every number in between. -/
theorem Descends.exists_link (h : Descends E ts a b)
    (hE : ∀ t ∈ ts, ∀ x y, E t x y → y = x + 1) (hac : a ≤ c) (hcb : c < b) :
    ∃ t ∈ ts, E t c (c + 1) := by
  induction h with
  | refl => omega
  | @tail x y hx hlink ih =>
    obtain ⟨t, ht, hxy⟩ := hlink
    obtain rfl := hE t ht _ _ hxy
    rcases Nat.lt_succ_iff_lt_or_eq.1 hcb with hlt | rfl
    · exact ih hlt
    · exact ⟨t, ht, hxy⟩

end Successive

/-! ### Evaluating a list of events -/

/-- The transitions made by the events `es` from `s`, as far as each of them can happen. -/
def transitions (step : σ → ε → Option σ) : σ → List ε → List (Transition σ ε)
  | _, [] => []
  | s, e :: es =>
    match step s e with
    | none => []
    | some s' => ⟨s, e, s'⟩ :: transitions step s' es

theorem event_mem_of_transitions {es : List ε} {t : Transition σ ε}
    (h : t ∈ transitions step s es) : t.event ∈ es := by
  induction es generalizing s with
  | nil => cases h
  | cons e es ih =>
    simp only [transitions] at h
    split at h
    · cases h
    · rcases List.mem_cons.1 h with rfl | h
      · exact List.mem_cons_self
      · exact List.mem_cons_of_mem _ (ih h)

/-- The state after the events `es`. -/
def exec (step : σ → ε → Option σ) (s : σ) (es : List ε) : Option σ := es.foldlM step s

theorem exec_append {es fs : List ε} (h : exec step s es = some m) :
    exec step s (es ++ fs) = exec step m fs := by
  have hes : es.foldlM step s = some m := h
  rw [exec, List.foldlM_append, hes]
  rfl

theorem run_transitions {es : List ε} (h : exec step s es = some u) :
    Run step s (transitions step s es) u := by
  induction es generalizing s with
  | nil =>
    obtain rfl : s = u := by simpa [exec] using h
    exact .nil
  | cons e es ih =>
    obtain ⟨s', hs', hu⟩ : ∃ s', step s e = some s' ∧ exec step s' es = some u := by
      simpa [exec, List.foldlM_cons, Option.bind_eq_some_iff] using h
    simp only [transitions, hs']
    exact Run.cons_iff.2 ⟨rfl, hs', ih hu⟩

theorem run_get (es : List ε) (h : (exec step s es).isSome = true) :
    Run step s (transitions step s es) ((exec step s es).get h) :=
  run_transitions (Option.some_get h).symm

/-- The transition made by the event `e` from `s`. -/
def transitionOf (step : σ → ε → Option σ) (s : σ) (e : ε) (h : (step s e).isSome = true) :
    Transition σ ε :=
  ⟨s, e, (step s e).get h⟩

theorem run_transitionOf {e : ε} {h : (step s e).isSome = true}
    (hrun : Run step (transitionOf step s e h).after ts u) :
    Run step s (transitionOf step s e h :: ts) u :=
  Run.cons_iff.2 ⟨rfl, (Option.some_get h).symm, hrun⟩

end Runs
