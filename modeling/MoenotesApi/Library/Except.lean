import Mathlib.Data.List.Forall2
import Mathlib.Tactic.SplitIfs

/-!
# Successful fallible computations

What a computation in `Except ε` that returned `ok` went through: every bind succeeded, and no guard
refused.  A computation that returned an error got it from one of its parts: `Errors P x` says that
every error of `x` satisfies `P`, with one rule for each way to build a computation.
-/

namespace Except

universe u v

variable {ε : Type u} {α β : Type v} {e : ε} {x : Except ε α} {f : α → Except ε β} {a : α} {b : β}

/-- Return early with the error `e` if `p` holds. -/
def refuse (p : Prop) [Decidable p] (e : ε) : Except ε Unit := if p then .error e else .ok ()

theorem bind_eq_ok : x >>= f = .ok b ↔ ∃ a, x = .ok a ∧ f a = .ok b := by
  cases x <;> simp [bind, Except.bind]

@[simp] theorem refuse_eq_ok {p : Prop} [Decidable p] {u : Unit} :
    refuse p e = .ok u ↔ ¬ p := by
  unfold refuse
  split_ifs with hp <;> simp [hp]

@[simp] theorem pure_eq_ok {a' : α} : (pure a' : Except ε α) = .ok a ↔ a' = a := by
  simp [pure, Except.pure]

theorem map_eq_ok {g : α → β} : g <$> x = .ok b ↔ ∃ a, x = .ok a ∧ g a = b := by
  cases x <;> simp [Functor.map, Except.map]

/-- A successful `mapM` succeeded at every element. -/
theorem mapM_eq_ok {γ : Type*} {g : γ → Except ε α} {xs : List γ} {ys : List α} :
    xs.mapM g = .ok ys ↔ List.Forall₂ (fun x y => g x = .ok y) xs ys := by
  induction xs generalizing ys with
  | nil => rw [List.mapM_nil, pure_eq_ok, List.forall₂_nil_left_iff, eq_comm]
  | cons x xs ih =>
    rw [List.mapM_cons, bind_eq_ok, List.forall₂_cons_left_iff]
    refine exists_congr fun y => ?_
    rw [bind_eq_ok, ← exists_and_left]
    refine exists_congr fun ys' => and_congr_right fun _ => and_congr ih ?_
    rw [pure_eq_ok, eq_comm]

theorem exists_mapM {γ : Type*} {g : γ → Except ε α} {xs : List γ}
    (h : ∀ x ∈ xs, ∃ y, g x = .ok y) : ∃ ys, xs.mapM g = .ok ys := by
  induction xs with
  | nil => exact ⟨[], rfl⟩
  | cons x xs ih =>
    obtain ⟨y, hy⟩ := h x List.mem_cons_self
    obtain ⟨ys, hys⟩ := ih fun x' hx' => h x' (List.mem_cons_of_mem x hx')
    exact ⟨y :: ys, mapM_eq_ok.2 (.cons hy (mapM_eq_ok.1 hys))⟩

/-- A loop that ended well satisfies at its end what each step preserves; `P done b` is about the
elements that the loop went through. -/
theorem foldlM_induction {γ : Type*} {g : β → γ → Except ε β} {xs : List γ} {b b' : β}
    {P : List γ → β → Prop} (init : P [] b)
    (step : ∀ done x b b', done ++ [x] <+: xs → P done b → g b x = .ok b' → P (done ++ [x]) b')
    (h : xs.foldlM g b = .ok b') : P xs b' := by
  suffices hgen : ∀ done rest b, done ++ rest = xs → P done b → rest.foldlM g b = .ok b' → P xs b'
    from hgen [] xs b rfl init h
  intro done rest
  induction rest generalizing done with
  | nil =>
    intro b hxs hP hb
    rw [List.foldlM_nil, pure_eq_ok] at hb
    rwa [← hxs, List.append_nil, ← hb]
  | cons x rest ih =>
    intro b hxs hP hb
    rw [List.foldlM_cons, bind_eq_ok] at hb
    obtain ⟨b₁, hstep, hb⟩ := hb
    have hxs' : done ++ [x] ++ rest = xs := by rw [List.append_assoc, ← hxs]; rfl
    exact ih (done ++ [x]) b₁ hxs' (step done x b b₁ ⟨rest, hxs'⟩ hP hstep) hb

/-- Every error of `x` satisfies `P`. -/
def Errors (P : ε → Prop) (x : Except ε α) : Prop := ∀ e, x = .error e → P e

section Errors

variable {P : ε → Prop}

@[simp] theorem errors_ok : Errors P (.ok a) := nofun

@[simp] theorem errors_pure : Errors P (pure a : Except ε α) := nofun

@[simp] theorem errors_error : Errors P (.error e : Except ε α) ↔ P e :=
  ⟨fun h => h e rfl, fun h e' he => by cases he; exact h⟩

theorem Errors.bind (hx : Errors P x) (hf : ∀ a, Errors P (f a)) : Errors P (x >>= f) := by
  cases x with
  | error e => exact errors_error.2 (hx e rfl)
  | ok a => exact hf a

@[simp] theorem errors_refuse {p : Prop} [Decidable p] : Errors P (refuse p e) ↔ (p → P e) := by
  unfold refuse
  split_ifs with hp <;> simp [hp]

theorem Errors.mapM {γ : Type*} {g : γ → Except ε α} {xs : List γ}
    (h : ∀ x ∈ xs, Errors P (g x)) : Errors P (xs.mapM g) := by
  induction xs with
  | nil => exact errors_pure
  | cons x xs ih =>
    rw [List.mapM_cons]
    have hxs := ih fun x' hx' => h x' (List.mem_cons_of_mem x hx')
    exact (h x List.mem_cons_self).bind fun _ => hxs.bind fun _ => errors_pure

theorem Errors.foldlM {γ : Type*} {g : β → γ → Except ε β} (h : ∀ b x, Errors P (g b x))
    (xs : List γ) (b : β) : Errors P (xs.foldlM g b) := by
  induction xs generalizing b with
  | nil => exact errors_pure
  | cons x xs ih =>
    rw [List.foldlM_cons]
    exact (h b x).bind ih

theorem Errors.map {g : α → β} (hx : Errors P x) : Errors P (x.map g) := by
  cases x with
  | error e => exact errors_error.2 (hx e rfl)
  | ok a => exact errors_ok

/-- Computations with the same results and the same only error are equal. -/
theorem Errors.ext {y : Except ε α} (hx : Errors (· = e) x) (hy : Errors (· = e) y)
    (h : ∀ a, x = .ok a ↔ y = .ok a) : x = y := by
  cases x with
  | ok a => exact ((h a).1 rfl).symm
  | error ex =>
    cases y with
    | ok a => exact (h a).2 rfl
    | error ey => rw [hx ex rfl, hy ey rfl]

theorem Errors.ite {p : Prop} [Decidable p] {y : Except ε α} (hx : Errors P x) (hy : Errors P y) :
    Errors P (if p then x else y) := by
  split_ifs
  · exact hx
  · exact hy

end Errors

end Except
