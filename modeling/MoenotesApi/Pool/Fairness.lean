import MoenotesApi.Pool.Step
import MoenotesApi.Library.RoundRobin

/-!
# The pool is fair

The selection loop of a query, over whole runs: the members that it examines are the next ones from
the cursor on, and the cursor goes around them in turns.

* `examined`: the members that a query has examined, with the results of their checks;
* `Selection`: what they are while the loop runs; `selection_of_run`: this holds in every run;
* `turns_of_run`: the choices of a run are turns of a round robin;
* `round_robin`: what follows for the members.
-/

namespace MoenotesApi.SessionPool

open Runs RoundRobin

variable {ι σ α : Type} [DecidableEq ι] {p p' : SessionPool ι σ α} {e : Event ι σ α} {i : ι}
variable {ts before window : List (Transition (SessionPool ι σ α) (Event ι σ α))}
variable {seen : List (ℕ × Option ClientError)}

/-! ### Members that are examined -/

/-- The member that the query `i` examines in a transition, with the result of its check. -/
def examines (i : ι) (t : Transition (SessionPool ι σ α) (Event ι σ α)) :
    List (ℕ × Option ClientError) :=
  match t.event, t.before.queries i with
  | .examine k, some (.selecting query offset _) =>
    if k = i ∧ offset < t.before.size then
      let index := (t.before.next + offset) % t.before.size
      [(index, (t.before.preflight index query.method.anonymous).1)]
    else []
  | _, _ => []

/-- The members that the query `i` has examined. -/
def examined (ts : List (Transition (SessionPool ι σ α) (Event ι σ α))) (i : ι) :
    List (ℕ × Option ClientError) :=
  ts.flatMap (examines i)

/-- The member that is chosen in a transition. -/
def picks (t : Transition (SessionPool ι σ α) (Event ι σ α)) : Option ℕ :=
  match t.event with
  | .examine i =>
    match t.after.queries i with
    | some (.chosen _ index) => some index
    | _ => none
  | _ => none

/-- The members from the cursor `c` on, refused with `errors`. -/
def refusals (n c : ℕ) (errors : List ClientError) : List (ℕ × Option ClientError) :=
  errors.mapIdx fun k error => ((c + k) % n, some error)

theorem refusals_concat (n c : ℕ) (errors : List ClientError) (error : ClientError) :
    refusals n c (errors ++ [error]) =
      refusals n c errors ++ [((c + errors.length) % n, some error)] :=
  List.mapIdx_concat

theorem map_fst_refusals (n c : ℕ) (errors : List ClientError) :
    (refusals n c errors).map Prod.fst =
      (List.range errors.length).map fun k => (c + k) % n := by
  induction errors using List.reverseRecOn with
  | nil => rfl
  | append_singleton errors error ih =>
    rw [refusals_concat, List.map_append, ih, List.length_append, List.length_singleton,
      List.range_succ, List.map_append]
    rfl

theorem isSome_of_mem_refusals {n c : ℕ} {errors : List ClientError} {x : ℕ × Option ClientError}
    (h : x ∈ refusals n c errors) : ∃ error, x = (x.1, some error) := by
  obtain ⟨k, hk, rfl⟩ := List.mem_mapIdx.1 h
  exact ⟨_, rfl⟩

/-! ### The selection loop -/

/-- What the query `i` has examined: nothing yet, the members from the cursor on, which were refused,
or its selection is over. -/
inductive Selection (p : SessionPool ι σ α) (i : ι) : List (ℕ × Option ClientError) → Prop
  | before (hi : p.queries i = none ∨ ∃ q, p.queries i = some (.waiting q)) : Selection p i []
  | during {q offset firstError} (errors : List ClientError)
      (hi : p.queries i = some (.selecting q offset firstError)) (hl : p.holder = some i)
      (ho : errors.length = offset) (hle : offset ≤ p.size) (hfirst : firstError = errors.head?) :
      Selection p i (refusals p.size p.next errors)
  | after {seen stage} (hi : p.queries i = some stage) (hs : stage.selected = true) :
      Selection p i seen

omit [DecidableEq ι] in
/-- What a query in the selection loop has examined. -/
theorem Selection.of_selecting (h : Selection p i seen) {q : Query} {offset : ℕ}
    {firstError : Option ClientError} (hi : p.queries i = some (.selecting q offset firstError)) :
    ∃ errors : List ClientError, seen = refusals p.size p.next errors ∧ p.holder = some i ∧
      errors.length = offset ∧ offset ≤ p.size ∧ firstError = errors.head? := by
  cases h with
  | before hi' =>
    rcases hi' with hi' | ⟨_, hi'⟩ <;> rw [hi] at hi' <;> cases hi'
  | during errors hi' hl ho hle hfirst =>
    rw [hi] at hi'
    cases hi'
    exact ⟨errors, rfl, hl, ho, hle, hfirst⟩
  | after hi' hs =>
    rw [hi] at hi'
    cases hi'
    cases hs

omit [DecidableEq ι] in
/-- A query that has not been admitted yet has examined nothing. -/
theorem Selection.of_waiting (h : Selection p i seen)
    (hi : p.queries i = none ∨ ∃ q, p.queries i = some (.waiting q)) : seen = [] := by
  cases h with
  | before => rfl
  | during _ hi' =>
    rcases hi with hi | ⟨_, hi⟩ <;> rw [hi] at hi' <;> cases hi'
  | after hi' hs =>
    rcases hi with hi | ⟨_, hi⟩ <;> rw [hi] at hi' <;> cases hi'
    cases hs

omit [DecidableEq ι] in
/-- An event of another query, or of nobody. -/
theorem Selection.congr (h : Selection p i seen) (hi : p'.queries i = p.queries i)
    (hsize : p'.size = p.size)
    (hheld : p.holder = some i → p'.holder = p.holder ∧ p'.next = p.next) :
    Selection p' i seen := by
  cases h with
  | before hi' => exact .before (by rwa [hi])
  | during errors hi' hl ho hle hfirst =>
    obtain ⟨hl', hnext⟩ := hheld hl
    rw [← hsize, ← hnext]
    exact .during errors (hi.trans hi') (hl'.trans hl) ho (hsize ▸ hle) hfirst
  | after hi' hs => exact .after (hi.trans hi') hs

theorem examines_eq_nil (h : e ≠ .examine i) :
    examines i (⟨p, e, p'⟩ : Transition (SessionPool ι σ α) (Event ι σ α)) = [] := by
  unfold examines
  split
  · next k q offset first he _ =>
    dsimp only at he
    subst he
    rw [if_neg]
    rintro ⟨rfl, -⟩
    exact h rfl
  · rfl

theorem examines_eq {q : Query} {offset : ℕ} {firstError : Option ClientError}
    (hi : p.queries i = some (.selecting q offset firstError)) (ho : offset < p.size) :
    examines i (⟨p, .examine i, p'⟩ : Transition (SessionPool ι σ α) (Event ι σ α)) =
      [((p.next + offset) % p.size,
        (p.preflight ((p.next + offset) % p.size) q.method.anonymous).1)] := by
  simp [examines, hi, ho]

/-- What one event does to the selection. -/
theorem Selection.step (h : ∀ k, ∃ seen, Selection p k seen) (hi : Selection p i seen)
    (hstep : Step p e p') : Selection p' i (seen ++ examines i ⟨p, e, p'⟩) := by
  -- an event of the query `k`
  have other : ∀ {k stage}, i ≠ k → e ≠ .examine i →
      p'.queries = Function.update p.queries k stage → p'.size = p.size →
      (p.holder = some i → p'.holder = p.holder ∧ p'.next = p.next) →
      Selection p' i (seen ++ examines i ⟨p, e, p'⟩) := by
    intro k stage hik he hq hsize hheld
    rw [examines_eq_nil he, List.append_nil]
    exact hi.congr (by rw [hq, Function.update_of_ne hik]) hsize hheld
  -- the query has come to a stage behind the selection
  have past : ∀ {k stage}, i = k → p'.queries = Function.update p.queries k (some stage) →
      stage.selected = true → Selection p' i (seen ++ examines i ⟨p, e, p'⟩) := by
    rintro k stage rfl hq hs
    exact .after (by rw [hq, Function.update_self]) hs
  -- another query holds the lock of the cursor
  have unlocked : ∀ {k q offset firstError},
      p.queries k = some (.selecting q offset firstError) → i ≠ k → p.holder ≠ some i := by
    intro k q offset first hk hik hl
    obtain ⟨seen', h'⟩ := h k
    obtain ⟨-, -, hl', -⟩ := h'.of_selecting hk
    rw [hl'] at hl
    exact hik (Option.some.inj hl).symm
  cases hstep with
  | @query k q hk =>
    by_cases hik : i = k
    · subst hik
      obtain rfl := hi.of_waiting (.inl hk)
      rw [examines_eq_nil (by simp)]
      cases ha : p.arrive q with
      | waiting q' => exact .before (.inr ⟨q', by simp⟩)
      | returned => exact .after (by simp; rfl) rfl
      | _ =>
        unfold arrive at ha
        split_ifs at ha
    · exact other hik (by simp) rfl rfl fun _ => ⟨rfl, rfl⟩
  | @lock k q hk hl =>
    by_cases hik : i = k
    · subst hik
      obtain rfl := hi.of_waiting (.inr ⟨q, hk⟩)
      rw [examines_eq_nil (by simp)]
      exact .during [] (by simp; rfl) rfl rfl (Nat.zero_le _) rfl
    · exact other hik (by simp) rfl rfl fun hl' => by rw [hl] at hl'; cases hl'
  | @examineRefused k q offset first error hk ho hp =>
    by_cases hik : i = k
    · subst hik
      obtain ⟨errors, rfl, hl, rfl, -, rfl⟩ := hi.of_selecting hk
      rw [examines_eq hk ho, hp, ← refusals_concat]
      have := @Selection.during _ _ _
        ((p.preflight ((p.next + errors.length) % p.size) q.method.anonymous).2.setQuery i
          (.selecting q (errors.length + 1) (errors.head?.or (some error))))
        i q (errors.length + 1) _ (errors ++ [error]) (Function.update_self _ _ _) (by simpa using hl) (by simp)
        (by simpa using Nat.succ_le_of_lt ho) (by rw [List.head?_append]; rfl)
      simpa using this
    · exact other hik (by simpa using Ne.symm hik) (by simp; rfl) (by simp)
        fun hl' => absurd hl' (unlocked hk hik)
  | @examinePicked k q offset first hk ho hp =>
    by_cases hik : i = k
    · exact past hik (by simp; rfl) rfl
    · exact other hik (by simpa using Ne.symm hik) (by simp; rfl) (by simp)
        fun hl' => absurd hl' (unlocked hk hik)
  | @examineEnd k q offset first hk ho =>
    by_cases hik : i = k
    · exact past hik rfl rfl
    · exact other hik (by simpa using Ne.symm hik) rfl rfl fun hl' => absurd hl' (unlocked hk hik)
  | @enter k _ _ hk | @checkFailed k _ _ _ hk | @check k _ _ _ hk | @stamp k _ _ _ hk
  | @write k _ _ _ _ hk | @drop k _ _ hk =>
    by_cases hik : i = k
    · exact past hik rfl rfl
    · exact other hik (by simp) rfl rfl fun _ => ⟨rfl, rfl⟩
  | @answer k j g result n hk =>
    by_cases hik : i = k
    · refine past hik rfl ?_
      unfold answered
      split
      · rfl
      · split_ifs <;> rfl
    · exact other hik (by simp) rfl rfl fun _ => ⟨rfl, rfl⟩
  | inspect | session | client | stop | advance =>
    rw [examines_eq_nil (by simp), List.append_nil]
    exact hi.congr rfl rfl fun _ => ⟨rfl, rfl⟩

theorem selection_of_run (hrun : Run step p ts p')
    (h : ∀ k, Selection p k (examined before k)) (k : ι) :
    Selection p' k (examined (before ++ ts) k) := by
  induction hrun generalizing k with
  | nil => simpa using h k
  | @snoc ts d e d' hrun hstep ih =>
    have := (ih k).step (fun k => ⟨_, ih k⟩) (Step.of_step hstep)
    simpa [examined] using this

/-! ### Turns of the cursor -/

/-- A choice is made by the selection loop of a query. -/
theorem picks_eq_some (hstep : Step p e p') {j : ℕ}
    (h : picks (⟨p, e, p'⟩ : Transition (SessionPool ι σ α) (Event ι σ α)) = some j) :
    ∃ i q offset firstError, e = .examine i ∧
      p.queries i = some (.selecting q offset firstError) ∧ offset < p.size ∧
      (p.preflight ((p.next + offset) % p.size) q.method.anonymous).1 = none ∧
      j = (p.next + offset) % p.size ∧ p'.next = (j + 1) % p.size := by
  unfold picks at h
  split at h
  · next i he =>
    dsimp only at he h
    subst he
    cases hstep with
    | examineRefused hi => simp at h
    | examineEnd hi => simp at h
    | examinePicked hi ho hp =>
      simp only [setQuery_queries, Function.update_self, Option.some.injEq] at h
      subst h
      exact ⟨i, _, _, _, rfl, hi, ho, hp, rfl, rfl⟩
  · cases h

/-- The cursor moves only when a member is chosen. -/
theorem next_eq_of_picks (hstep : Step p e p')
    (h : picks (⟨p, e, p'⟩ : Transition (SessionPool ι σ α) (Event ι σ α)) = none) :
    p'.next = p.next := by
  cases hstep with
  | examinePicked => simp [picks] at h
  | examineRefused => simp
  | _ => rfl

theorem size_of_run (hrun : Run step p ts p') : p'.size = p.size := by
  induction hrun with
  | nil => rfl
  | snoc _ hstep ih => exact (Step.of_step hstep).size_eq.trans ih

/-- **The choices of a run are turns of a round robin.**  Each turn passes over the members that the
query has examined before. -/
theorem turns_of_run (hrun : Run step p window p')
    (h : ∀ k, Selection p k (examined before k)) :
    ∃ turns : List Turn, Turns p.size p.next turns p'.next ∧
      turns.map Turn.taken = window.filterMap picks ∧
      ∀ turn ∈ turns, ∃ w₁ t w₂ i, window = w₁ ++ t :: w₂ ∧ t.event = .examine i ∧
        picks t = some turn.taken ∧
        turn.passed = (examined (before ++ w₁) i).map Prod.fst := by
  induction hrun with
  | nil => exact ⟨[], .nil, rfl, by simp⟩
  | @snoc ts d e d' hrun hstep ih =>
    obtain ⟨turns, hturns, htaken, hpassed⟩ := ih
    have hsize := size_of_run hrun
    -- the turns so far
    have hpassed' : ∀ turn ∈ turns, ∃ w₁ t w₂ i, ts ++ [⟨d, e, d'⟩] = w₁ ++ t :: w₂ ∧
        t.event = .examine i ∧ picks t = some turn.taken ∧
        turn.passed = (examined (before ++ w₁) i).map Prod.fst := by
      intro turn hturn
      obtain ⟨w₁, t, w₂, i, rfl, he, hp, hpass⟩ := hpassed turn hturn
      exact ⟨w₁, t, w₂ ++ [⟨d, e, d'⟩], i, by simp, he, hp, hpass⟩
    cases hp : picks (⟨d, e, d'⟩ : Transition (SessionPool ι σ α) (Event ι σ α)) with
    | none =>
      refine ⟨turns, ?_, ?_, hpassed'⟩
      · rw [next_eq_of_picks (Step.of_step hstep) hp]
        exact hturns
      · rw [List.filterMap_append, htaken]
        simp [hp]
    | some j =>
      obtain ⟨i, q, offset, first, rfl, hi, ho, -, rfl, hcursor⟩ :=
        picks_eq_some (Step.of_step hstep) hp
      obtain ⟨errors, hseen, -, rfl, -⟩ := (selection_of_run hrun h i).of_selecting hi
      refine ⟨turns ++ [⟨(examined (before ++ ts) i).map Prod.fst,
        (d.next + errors.length) % d.size⟩], ?_, ?_, ?_⟩
      · rw [hcursor, hsize]
        refine hturns.snoc ⟨errors.length, hsize ▸ ho, ?_, rfl⟩
        rw [hseen, map_fst_refusals, hsize]
      · rw [List.map_append, List.filterMap_append, htaken]
        simp [hp]
      · intro turn hturn
        rcases List.mem_append.1 hturn with hturn | hturn
        · exact hpassed' turn hturn
        · obtain rfl := List.mem_singleton.1 hturn
          exact ⟨ts, _, [], i, rfl, rfl, hp, rfl⟩

/-! ### The members -/

omit [DecidableEq ι] in
theorem new_ok {opt : CacheOptions} {members : List (SessionMember σ)} {now : ℕ}
    (h : new opt members now = .ok p) : p = initial members now := by
  simp only [new, Except.bind_eq_ok, Except.pure_eq_ok] at h
  obtain ⟨-, -, -, -, h⟩ := h
  exact h.symm

/-- A selection that chooses a member has examined those before it, and they were refused. -/
theorem picks_cases (hsel : Selection p i (examined before i)) (hstep : Step p (.examine i) p')
    {j : ℕ} (hp : picks (⟨p, .examine i, p'⟩ : Transition (SessionPool ι σ α) (Event ι σ α)) =
      some j) : ∃ errors : List ClientError, errors.length < p.size ∧
        examined before i = refusals p.size p.next errors ∧
        examines i (⟨p, .examine i, p'⟩ : Transition (SessionPool ι σ α) (Event ι σ α)) =
          [(j, none)] ∧
        j = (p.next + errors.length) % p.size ∧ p'.next = (j + 1) % p.size := by
  obtain ⟨k, q, offset, first, he, hi, ho, hpass, rfl, hcursor⟩ := picks_eq_some hstep hp
  cases he
  obtain ⟨errors, hseen, -, rfl, -⟩ := hsel.of_selecting hi
  exact ⟨errors, ho, hseen, by rw [examines_eq hi ho, hpass], rfl, hcursor⟩

/-- A selection that fails has examined all members, and the first error is returned. -/
theorem refused_cases (hsel : Selection p i (examined before i)) (hstep : Step p (.examine i) p')
    (hsize : 0 < p.size) {error : ClientError}
    (hr : p'.queries i = some (.returned (.error error))) :
    ∃ errors : List ClientError, errors.length = p.size ∧
      examined before i = refusals p.size p.next errors ∧ errors.head? = some error ∧
      p'.next = p.next := by
  cases hstep with
  | examineRefused | examinePicked => simp at hr
  | examineEnd hi ho =>
    obtain ⟨errors, hseen, -, rfl, hle, rfl⟩ := hsel.of_selecting hi
    have hlen : errors.length = p.size := le_antisymm hle ho
    cases errors with
    | nil => exact absurd hlen hsize.ne
    | cons first errors =>
      refine ⟨first :: errors, hlen, hseen, ?_, rfl⟩
      simpa using hr

/-- **Round robin.**  In every run of a pool of two or more members: a query takes the first member
from the cursor on that passes, and leaves the cursor behind it; if none passes, the first error is
returned and the cursor stays; nothing else moves the cursor.  A member that was refused in none of `n`
choices in a row is among those chosen, and in choices without any refusal all members are chosen
evenly. -/
theorem round_robin {opt : CacheOptions} {members : List (SessionMember σ)} {now : ℕ}
    {p₀ : SessionPool ι σ α} (hnew : new opt members now = .ok p₀) (hn : 2 ≤ members.length)
    (hrun : Run step p₀ ts p) :
    (∀ before t after i j, ts = before ++ t :: after → t.event = .examine i → picks t = some j →
      ∃ errors : List ClientError, errors.length < members.length ∧
        examined before i = refusals members.length t.before.next errors ∧
        examines i t = [(j, none)] ∧ j = (t.before.next + errors.length) % members.length ∧
        t.after.next = (j + 1) % members.length) ∧
    (∀ before t after i error, ts = before ++ t :: after → t.event = .examine i →
      t.after.queries i = some (.returned (.error error)) →
      ∃ errors : List ClientError, errors.length = members.length ∧
        examined before i = refusals members.length t.before.next errors ∧
        errors.head? = some error ∧ t.after.next = t.before.next) ∧
    (∀ t ∈ ts, picks t = none → t.after.next = t.before.next) ∧
    (∀ q : SessionPool ι σ α, q.ready.2.next = q.next ∧ q.status.2.next = q.next) ∧
    (∀ before window after j, ts = before ++ window ++ after → j < members.length →
      members.length ≤ (window.filterMap picks).length →
      (∀ w₁ t w₂ i error, window = w₁ ++ t :: w₂ → t.event = .examine i →
        (picks t).isSome = true → (j, some error) ∉ examined (before ++ w₁) i) →
      j ∈ window.filterMap picks) ∧
    ∀ before window after j, ts = before ++ window ++ after → j < members.length →
      (∀ w₁ t w₂ i, window = w₁ ++ t :: w₂ → t.event = .examine i → (picks t).isSome = true →
        examined (before ++ w₁) i = []) →
      (window.filterMap picks).count j = (window.filterMap picks).length / members.length ∨
      (window.filterMap picks).count j =
        ((window.filterMap picks).length + members.length - 1) / members.length := by
  obtain rfl := new_ok hnew
  have hpos : 0 < members.length := by omega
  -- what has been examined, and where the cursor is, at any point of the run
  have at_point : ∀ {before : List (Transition (SessionPool ι σ α) (Event ι σ α))}
      {m : SessionPool ι σ α}, Run step (initial members now) before m → m.size = members.length ∧
        m.next < members.length ∧ ∀ k, Selection m k (examined before k) := by
    intro before m hbefore
    have hsel : ∀ k, Selection (initial members now : SessionPool ι σ α) k
        (examined ([] : List (Transition (SessionPool ι σ α) (Event ι σ α))) k) :=
      fun k => .before (.inl rfl)
    obtain ⟨turns, hturns, -⟩ := turns_of_run hbefore hsel
    refine ⟨size_of_run hbefore, hturns.cursor_lt hpos, fun k => ?_⟩
    simpa using selection_of_run hbefore hsel k
  -- the turns of a window of the run
  have turns_of : ∀ {before window after : List (Transition (SessionPool ι σ α) (Event ι σ α))},
      ts = before ++ window ++ after → ∃ c < members.length, ∃ d turns,
        Turns members.length c turns d ∧ turns.map Turn.taken = window.filterMap picks ∧
        ∀ turn ∈ turns, ∃ w₁ t w₂ i, window = w₁ ++ t :: w₂ ∧ t.event = .examine i ∧
          picks t = some turn.taken ∧
          turn.passed = (examined (before ++ w₁) i).map Prod.fst := by
    rintro before window after rfl
    obtain ⟨m, hbw, -⟩ := hrun.split
    obtain ⟨d, hbefore, hwindow⟩ := hbw.split
    obtain ⟨hd, hlt, hsel⟩ := at_point hbefore
    obtain ⟨turns, hturns, h⟩ := turns_of_run hwindow hsel
    rw [hd] at hturns
    exact ⟨d.next, hlt, m.next, turns, hturns, h⟩
  have choices : ∀ before t after i j, ts = before ++ t :: after → t.event = .examine i →
      picks t = some j → ∃ errors : List ClientError, errors.length < members.length ∧
        examined before i = refusals members.length t.before.next errors ∧
        examines i t = [(j, none)] ∧ j = (t.before.next + errors.length) % members.length ∧
        t.after.next = (j + 1) % members.length := by
    rintro before t after i j rfl he hp
    obtain ⟨hbefore, hstep, -⟩ := hrun.around
    obtain ⟨hd, -, hsel⟩ := at_point hbefore
    obtain ⟨d, e, d'⟩ := t
    dsimp only at he hstep hd hsel ⊢
    subst he
    rw [← hd]
    exact picks_cases (hsel i) (Step.of_step hstep) hp
  refine ⟨choices, ?_, ?_, ?_, ?_, ?_⟩
  · rintro before t after i error rfl he hr
    obtain ⟨hbefore, hstep, -⟩ := hrun.around
    obtain ⟨hd, -, hsel⟩ := at_point hbefore
    rw [he] at hstep
    rw [← hd]
    exact refused_cases (hsel i) (Step.of_step hstep) (by omega) hr
  · intro t ht hp
    exact next_eq_of_picks (Step.of_step (hrun.step_of_mem ht)) hp
  · exact fun q => ⟨(inspects_ready q).next_eq.1, (inspects_status q).next_eq.1⟩
  · intro before window after j hts hj hlength hpass
    obtain ⟨c, hc, d, turns, hturns, htaken, hpassed⟩ := turns_of hts
    rw [← htaken] at hlength ⊢
    refine hturns.mem_taken hc hj (by simpa using hlength) fun turn hturn hmem => ?_
    obtain ⟨w₁, t, w₂, i, rfl, he, hp, hpass'⟩ := hpassed turn hturn
    rw [hpass'] at hmem
    obtain ⟨x, hx, rfl⟩ := List.mem_map.1 hmem
    obtain ⟨errors, -, hseen, -⟩ := choices (before ++ w₁) t (w₂ ++ after) i _ (by simp [hts]) he hp
    obtain ⟨error, herror⟩ := isSome_of_mem_refusals (hseen ▸ hx)
    exact hpass w₁ t w₂ i error rfl he (by simp [hp]) (herror ▸ hx)
  · intro before window after j hts hj hpass
    obtain ⟨c, hc, d, turns, hturns, htaken, hpassed⟩ := turns_of hts
    have hnone : ∀ turn ∈ turns, turn.passed = [] := by
      intro turn hturn
      obtain ⟨w₁, t, w₂, i, rfl, he, hp, hpass'⟩ := hpassed turn hturn
      rw [hpass', hpass w₁ t w₂ i rfl he (by simp [hp])]
      rfl
    have := hturns.count_taken hc hj hnone
    rwa [htaken, ← List.length_map (f := Turn.taken), htaken] at this

/-! ### A sample pool -/

/-- Two members, of which the first refuses protected queries. -/
def sampleMembers : List (SessionMember Unit) :=
  [⟨0, fun anonymous => if anonymous then none else some (.new .authentication), none⟩,
    ⟨0, fun _ => none, none⟩]

abbrev samplePool : SessionPool ℕ Unit Unit := initial sampleMembers 0

/-- A query that has passed over the first member. -/
def selectEvents : List (Event ℕ Unit Unit) := [.query 0 ⟨.profile, [], true⟩, .lock 0, .examine 0]

def selectPool : SessionPool ℕ Unit Unit :=
  (exec step samplePool selectEvents).get (by decide +kernel)

/-- The query takes the second member. -/
def selectSecond : Transition (SessionPool ℕ Unit Unit) (Event ℕ Unit Unit) :=
  transitionOf step selectPool (.examine 0) (by decide +kernel)

theorem round_robin_select : selectSecond.after.next = (1 + 1) % 2 := by
  have hrun : Run step samplePool _ selectPool := run_get selectEvents (by decide +kernel)
  obtain ⟨_, -, -, -, -, hnext⟩ := (@round_robin _ _ _ _ _ _ ⟨0, 0, 0, 0⟩ sampleMembers 0 _ rfl
    (by decide) (hrun.append (run_transitionOf .nil))).1 _ selectSecond [] 0 1 rfl rfl
    (by decide +kernel)
  exact hnext

end MoenotesApi.SessionPool
