import MoenotesApi.Library.Run

/-!
# Parts of a system

A system is often built of machines that have a life of their own.  What a run of the system is for one
of these machines:

* `Part`: the state of the machine within a state of the system, and the event of the machine that an
  event of the system stands for, if it stands for one;
* `Part.Moves`: a transition of the system is one step of the machine, or none;
* `Part.run_project`: then a run of the system is a run of the machine.
-/

namespace Runs

/-- A machine within a system. -/
structure Part (σ ε τ δ : Type*) where
  view : σ → τ
  own : σ → ε → Option δ

namespace Part

variable {σ ε τ δ : Type*} (P : Part σ ε τ δ) {step : σ → ε → Option σ}
variable {inner : τ → δ → Option τ} {s u : σ} {ts us : List (Transition σ ε)}

/-- The transition of the machine within a transition of the system. -/
def transition (t : Transition σ ε) : Option (Transition τ δ) :=
  (P.own t.before t.event).map fun d => ⟨P.view t.before, d, P.view t.after⟩

/-- What the machine does in a run of the system. -/
def project (ts : List (Transition σ ε)) : List (Transition τ δ) := ts.filterMap P.transition

/-- A transition of the system is one step of the machine, or leaves the machine alone. -/
structure Moves (inner : τ → δ → Option τ) (s : σ) (e : ε) (s' : σ) : Prop where
  stays : P.own s e = none → P.view s' = P.view s
  moves : ∀ d, P.own s e = some d → inner (P.view s) d = some (P.view s')

theorem project_append : P.project (ts ++ us) = P.project ts ++ P.project us :=
  List.filterMap_append

theorem mem_project {t' : Transition τ δ} : t' ∈ P.project ts ↔
    ∃ t ∈ ts, P.own t.before t.event = some t'.event ∧ P.view t.before = t'.before ∧
      P.view t.after = t'.after := by
  unfold project
  rw [List.mem_filterMap]
  refine exists_congr fun t => and_congr_right fun _ => ?_
  constructor
  · intro h
    obtain ⟨d, hd, rfl⟩ := Option.map_eq_some_iff.1 h
    exact ⟨hd, rfl, rfl⟩
  · rintro ⟨hd, hbefore, hafter⟩
    refine Option.map_eq_some_iff.2 ⟨t'.event, hd, ?_⟩
    rw [hbefore, hafter]

/-- Where the machine makes a transition, the system makes one. -/
theorem split_project {as bs : List (Transition τ δ)} {t' : Transition τ δ}
    (h : P.project ts = as ++ t' :: bs) :
    ∃ a t b, ts = a ++ t :: b ∧ P.project a = as ∧ P.project b = bs ∧
      P.own t.before t.event = some t'.event ∧ P.view t.before = t'.before ∧
      P.view t.after = t'.after := by
  obtain ⟨a, l, rfl, ha, hl⟩ := List.filterMap_eq_append_iff.1 h
  obtain ⟨skipped, t, b, rfl, hskipped, ht, hb⟩ := List.filterMap_eq_cons_iff.1 hl
  obtain ⟨d, hd, rfl⟩ := Option.map_eq_some_iff.1 ht
  refine ⟨a ++ skipped, t, b, (List.append_assoc _ _ _).symm, ?_, hb, hd, rfl, rfl⟩
  rw [project_append, project, project, ha, List.filterMap_eq_nil_iff.2 hskipped, List.append_nil]

/-- A count of what the machine does is a count in the run of the system. -/
theorem countP_project (p : Transition τ δ → Bool) :
    (P.project ts).countP p = ts.countP fun t => (P.transition t).any p := by
  rw [project, List.countP_filterMap]
  congr 1
  funext t
  cases P.transition t <;> rfl

/-- A run of the system is a run of each machine in it. -/
theorem run_project (h : Run step s ts u)
    (hP : ∀ t ∈ ts, P.Moves inner t.before t.event t.after) :
    Run inner (P.view s) (P.project ts) (P.view u) := by
  induction h with
  | nil => exact .nil
  | @snoc ts m e m' _ he ih =>
    have ih := ih fun t ht => hP t (List.mem_append_left _ ht)
    have hlast : P.Moves inner m e m' := hP ⟨m, e, m'⟩ (by simp)
    rw [project_append]
    cases hown : P.own m e with
    | none =>
      have hskip : P.project [⟨m, e, m'⟩] = [] := by simp [project, transition, hown]
      rw [hskip, List.append_nil, hlast.stays hown]
      exact ih
    | some d =>
      have hstep : P.project [⟨m, e, m'⟩] = [⟨P.view m, d, P.view m'⟩] := by
        simp [project, transition, hown]
      rw [hstep]
      exact ih.snoc (hlast.moves d hown)

end Part

end Runs
