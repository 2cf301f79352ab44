import MoenotesApi.Pool.Machine
import MoenotesApi.Library.Run

/-!
# What one event does to the session pool

`SessionPool.Step p e p'` lists the ways in which an event can happen; `Step.of_step` is the inversion
lemma of `SessionPool.step`.

* `SlotEffect`: what happens to the cooldown of a member;
* `inspects_ready`, `inspects_status`: `ready` and `status` are runs of `inspect` events.
-/

namespace MoenotesApi

open Runs

namespace PoolMember

variable {σ : Type} (m : PoolMember σ) (now : ℕ)

/-- The cooldown of the member keeps queries away. -/
def CoolingDown : Prop := ∃ expires kind, m.cooldown = some (expires, m.generation, kind) ∧ now < expires

@[simp] theorem cooldownError_generation : (m.cooldownError now).2.generation = m.generation := by
  unfold cooldownError
  split
  · split_ifs <;> rfl
  · rfl

@[simp] theorem cooldownError_queryError : (m.cooldownError now).2.queryError = m.queryError := by
  unfold cooldownError
  split
  · split_ifs <;> rfl
  · rfl

/-- A cooldown is in force: the slot stays as it is, and the error is of its kind. -/
theorem cooldownError_of_coolingDown {expires : ℕ} {kind : ErrorKind}
    (hc : m.cooldown = some (expires, m.generation, kind)) (hlt : now < expires) :
    m.cooldownError now = (some (.new kind), m) := by
  unfold cooldownError
  rw [hc]
  exact if_pos ⟨rfl, hlt⟩

/-- No cooldown is in force: the slot is empty afterwards. -/
theorem cooldownError_of_not_coolingDown (h : ¬ m.CoolingDown now) :
    m.cooldownError now = (none, { m with cooldown := none }) := by
  unfold cooldownError
  split
  · next expires g kind hc =>
    refine if_neg ?_
    rintro ⟨rfl, hlt⟩
    exact h ⟨expires, kind, hc, hlt⟩
  · next hc => rw [← hc]

/-- The cooldown error comes from a cooldown in force. -/
theorem cooldownError_eq_some {error : ClientError} (h : (m.cooldownError now).1 = some error) :
    ∃ expires kind, m.cooldown = some (expires, m.generation, kind) ∧ now < expires ∧
      error = .new kind := by
  by_cases hc : m.CoolingDown now
  · obtain ⟨expires, kind, hslot, hlt⟩ := hc
    rw [m.cooldownError_of_coolingDown now hslot hlt] at h
    exact ⟨expires, kind, hslot, hlt, (Option.some.inj h).symm⟩
  · rw [m.cooldownError_of_not_coolingDown now hc] at h
    cases h

end PoolMember

/-- The selection of the query is over. -/
def PoolStage.selected {α : Type} : PoolStage α → Bool
  | .waiting _ | .selecting _ _ _ => false
  | _ => true

namespace SessionPool

variable {ι σ α : Type}

/-! ### Updates -/

section Updates

variable (p : SessionPool ι σ α) (j : ℕ) (m : PoolMember σ) (anonymous : Bool)

@[simp] theorem setMember_size : (p.setMember j m).size = p.size := rfl
@[simp] theorem setMember_next : (p.setMember j m).next = p.next := rfl
@[simp] theorem setMember_holder : (p.setMember j m).holder = p.holder := rfl
@[simp] theorem setMember_now : (p.setMember j m).now = p.now := rfl
@[simp] theorem setMember_queries : (p.setMember j m).queries = p.queries := rfl
@[simp] theorem setMember_members :
    (p.setMember j m).members = Function.update p.members j m := rfl

@[simp] theorem preflight_size : (p.preflight j anonymous).2.size = p.size := by
  unfold preflight
  split_ifs <;> rfl

@[simp] theorem preflight_next : (p.preflight j anonymous).2.next = p.next := by
  unfold preflight
  split_ifs <;> rfl

@[simp] theorem preflight_holder : (p.preflight j anonymous).2.holder = p.holder := by
  unfold preflight
  split_ifs <;> rfl

@[simp] theorem preflight_now : (p.preflight j anonymous).2.now = p.now := by
  unfold preflight
  split_ifs <;> rfl

@[simp] theorem preflight_queries : (p.preflight j anonymous).2.queries = p.queries := by
  unfold preflight
  split_ifs <;> rfl

/-- The checks of a member touch no other member. -/
theorem preflight_members {k : ℕ} (hk : k ≠ j) :
    (p.preflight j anonymous).2.members k = p.members k := by
  unfold preflight
  split_ifs
  · simp [cooldownError, hk]
  · rfl

theorem preflight_member : (p.preflight j anonymous).2.members j = p.members j ∨
    (p.preflight j anonymous).2.members j = ((p.members j).cooldownError p.now).2 := by
  unfold preflight
  split_ifs
  · exact .inr (by simp [cooldownError])
  · exact .inl rfl

variable [DecidableEq ι] (i : ι) (stage : PoolStage α)

@[simp] theorem setQuery_size : (p.setQuery i stage).size = p.size := rfl
@[simp] theorem setQuery_next : (p.setQuery i stage).next = p.next := rfl
@[simp] theorem setQuery_holder : (p.setQuery i stage).holder = p.holder := rfl
@[simp] theorem setQuery_now : (p.setQuery i stage).now = p.now := rfl
@[simp] theorem setQuery_members : (p.setQuery i stage).members = p.members := rfl
@[simp] theorem setQuery_queries :
    (p.setQuery i stage).queries = Function.update p.queries i (some stage) := rfl

end Updates

/-! ### Inversion -/

variable [DecidableEq ι]

/-- `p.step e` can lead to `p'`, by the named branch. -/
inductive Step : SessionPool ι σ α → Event ι σ α → SessionPool ι σ α → Prop
  | query {p i q} (hi : p.queries i = none) : Step p (.query i q) (p.setQuery i (p.arrive q))
  | lock {p i q} (hi : p.queries i = some (.waiting q)) (hl : p.holder = none) :
      Step p (.lock i) { p.setQuery i (.selecting q 0 none) with holder := some i }
  | examineRefused {p i q offset firstError error}
      (hi : p.queries i = some (.selecting q offset firstError)) (ho : offset < p.size)
      (hp : (p.preflight ((p.next + offset) % p.size) q.method.anonymous).1 = some error) :
      Step p (.examine i)
        ((p.preflight ((p.next + offset) % p.size) q.method.anonymous).2.setQuery i
          (.selecting q (offset + 1) (firstError.or (some error))))
  | examinePicked {p i q offset firstError}
      (hi : p.queries i = some (.selecting q offset firstError)) (ho : offset < p.size)
      (hp : (p.preflight ((p.next + offset) % p.size) q.method.anonymous).1 = none) :
      Step p (.examine i)
        { (p.preflight ((p.next + offset) % p.size) q.method.anonymous).2.setQuery i
            (.chosen q ((p.next + offset) % p.size)) with
          next := ((p.next + offset) % p.size + 1) % p.size
          holder := none }
  | examineEnd {p i q offset firstError}
      (hi : p.queries i = some (.selecting q offset firstError)) (ho : p.size ≤ offset) :
      Step p (.examine i)
        { p.setQuery i (.returned (.error (firstError.getD (.new .authenticationRequired)))) with
          holder := none }
  | enter {p i q j} (hi : p.queries i = some (.chosen q j)) :
      Step p (.enter i)
        ((p.setMember j { p.members j with requests := (p.members j).requests + 1 }).setQuery i
          (.running j (p.members j).generation))
  | answer {p i j g result n} (hi : p.queries i = some (.running j g)) :
      Step p (.answer i result)
        ((p.setMember j { p.members j with errors := n }).setQuery i (p.answered j g result))
  | checkFailed {p i j g error} (hi : p.queries i = some (.failed j g error))
      (hg : (p.members j).generation ≠ g) :
      Step p (.check i) (p.setQuery i (.returned (.error error)))
  | check {p i j g error} (hi : p.queries i = some (.failed j g error))
      (hg : (p.members j).generation = g) :
      Step p (.check i) (p.setQuery i (.checked j g error))
  | stamp {p i j g error} (hi : p.queries i = some (.checked j g error)) :
      Step p (.stamp i) (p.setQuery i (.stamped j g error (p.now + transientCooldown)))
  | write {p i j g error expires} (hi : p.queries i = some (.stamped j g error expires)) :
      Step p (.write i)
        ((p.setMember j { p.members j with cooldown := some (expires, g, error.kind) }).setQuery i
          (.returned (.error error)))
  | drop {p i j g} (hi : p.queries i = some (.running j g)) :
      Step p (.drop i) (p.setQuery i .dropped)
  | inspect {p j} (hj : j < p.size) : Step p (.inspect j) (p.cooldownError j).2
  | session {p j queryError} :
      Step p (.session j queryError)
        (p.setMember j { p.members j with
          generation := (p.members j).generation + 1, queryError := queryError })
  | client {p j queryError managed} :
      Step p (.client j queryError managed)
        (p.setMember j { p.members j with queryError := queryError, managed := managed })
  | stop {p} : Step p .stop { p with stopped := true }
  | advance {p duration} : Step p (.advance duration) { p with now := p.now + duration }

variable {p p' : SessionPool ι σ α} {e : Event ι σ α} {i : ι}

theorem Step.of_examine {q : Query} {offset : ℕ} {firstError : Option ClientError}
    (hi : p.queries i = some (.selecting q offset firstError)) :
    Step p (.examine i) (p.examine i q offset firstError) := by
  unfold examine
  split_ifs with ho
  · rcases hp : p.preflight ((p.next + offset) % p.size) q.method.anonymous with ⟨error | error, p₁⟩
    · have h := Step.examinePicked hi ho (by rw [hp])
      have hsize := p.preflight_size ((p.next + offset) % p.size) q.method.anonymous
      rw [hp] at h hsize
      simp only [hp]
      dsimp only at h hsize ⊢
      rw [hsize]
      exact h
    · have h := @Step.examineRefused _ _ _ _ _ _ _ _ _ error hi ho (by rw [hp])
      rw [hp] at h
      simp only [hp]
      exact h
  · exact .examineEnd hi (Nat.not_lt.1 ho)

theorem Step.of_stepQuery {stage : PoolStage α} (hi : p.queries i = some stage)
    (he : e.owner = some i) (h : p.stepQuery i stage e = some p') : Step p e p' := by
  cases e <;> simp only [Event.owner, Option.some.injEq, reduceCtorEq] at he <;> subst he <;>
    simp only [stepQuery] at h
  case lock =>
    split at h
    · next hl =>
      obtain rfl := Option.some.inj h
      exact .lock hi hl
    · cases h
  case examine =>
    split at h
    · obtain rfl := Option.some.inj h
      exact .of_examine hi
    · cases h
  case check =>
    split at h
    · split_ifs at h with hg <;> obtain rfl := Option.some.inj h
      · exact .check hi hg
      · exact .checkFailed hi hg
    · cases h
  all_goals
    split at h
    · obtain rfl := Option.some.inj h
      constructor
      exact hi
    · cases h

theorem Step.of_step (h : p.step e = some p') : Step p e p' := by
  cases e <;> simp only [step] at h
  case query i q =>
    split at h
    · cases h
    · next hi =>
      obtain rfl := Option.some.inj h
      exact .query hi
  case inspect j =>
    split_ifs at h with hj
    obtain rfl := Option.some.inj h
    exact .inspect hj
  case session | client | stop | advance =>
    obtain rfl := Option.some.inj h
    constructor
  all_goals
    obtain ⟨stage, hi, h⟩ := Option.bind_eq_some_iff.1 h
    exact .of_stepQuery hi rfl h

/-! ### The members -/

/-- What an event does to the cooldown of the member `j`. -/
inductive SlotEffect (p : SessionPool ι σ α) (e : Event ι σ α) (p' : SessionPool ι σ α) (j : ℕ) :
    Prop
  | kept (h : (p'.members j).cooldown = (p.members j).cooldown)
  | cleared (hstale : ¬ (p.members j).CoolingDown p.now) (h : (p'.members j).cooldown = none)
  | written {i g error expires} (he : e = .write i)
      (hi : p.queries i = some (.stamped j g error expires))
      (h : (p'.members j).cooldown = some (expires, g, error.kind))

omit [DecidableEq ι] in
/-- A check of the cooldown clears it or leaves it alone. -/
theorem slotEffect_of_check {j k : ℕ}
    (hj : p'.members j = p.members j ∨ p'.members j = ((p.members j).cooldownError p.now).2)
    (hk : k ≠ j → p'.members k = p.members k) : SlotEffect p e p' k := by
  by_cases hkj : k = j
  · subst hkj
    rcases hj with hj | hj
    · exact .kept (by rw [hj])
    · by_cases hc : (p.members k).CoolingDown p.now
      · obtain ⟨expires, kind, hslot, hlt⟩ := hc
        rw [PoolMember.cooldownError_of_coolingDown _ _ hslot hlt] at hj
        exact .kept (by rw [hj])
      · rw [PoolMember.cooldownError_of_not_coolingDown _ _ hc] at hj
        exact .cleared hc (by rw [hj])
  · exact .kept (by rw [hk hkj])

theorem Step.slot (h : Step p e p') (j : ℕ) : SlotEffect p e p' j := by
  cases h with
  | @examineRefused i q offset | @examinePicked i q offset =>
    exact slotEffect_of_check (p.preflight_member ((p.next + offset) % p.size) q.method.anonymous)
      fun hk => p.preflight_members _ _ hk
  | @inspect k =>
    refine slotEffect_of_check (j := k) (.inr (by simp [cooldownError])) fun hk => ?_
    simp [cooldownError, hk]
  | @write i k g error expires hi =>
    by_cases hjk : j = k
    · subst hjk
      exact .written rfl hi (by simp)
    · exact .kept (by simp [hjk])
  | @enter _ _ k | @answer _ k | @session k | @client k =>
    refine .kept ?_
    by_cases hjk : j = k
    · subst hjk
      simp
    · simp [hjk]
  | _ => exact .kept rfl

/-- Sessions of a member are only replaced by new ones. -/
theorem Step.generation_le (h : Step p e p') (j : ℕ) :
    (p.members j).generation ≤ (p'.members j).generation := by
  cases h with
  | @examineRefused i q offset | @examinePicked i q offset =>
    refine le_of_eq ?_
    by_cases hj : j = (p.next + offset) % p.size
    · subst hj
      rcases p.preflight_member ((p.next + offset) % p.size) q.method.anonymous with h | h
      · simp only [setQuery_members, h]
      · simp only [setQuery_members, h, PoolMember.cooldownError_generation]
    · simp only [setQuery_members, p.preflight_members _ _ hj]
  | @inspect k | @enter _ _ k | @answer _ k | @write _ k | @session k | @client k =>
    by_cases hjk : j = k
    · subst hjk
      simp [cooldownError]
    · simp [cooldownError, hjk]
  | _ => exact le_rfl

theorem Step.now_le (h : Step p e p') : p.now ≤ p'.now := by
  cases h with
  | advance => exact Nat.le_add_right _ _
  | examineRefused | examinePicked => simp
  | _ => exact le_rfl

theorem Step.size_eq (h : Step p e p') : p'.size = p.size := by
  cases h with
  | examineRefused | examinePicked => simp
  | _ => rfl

/-! ### `ready` and `status` -/

/-- The events `es` are calls of `cooldown_error` that lead from `p` to `p'`. -/
def Inspects (p p' : SessionPool ι σ α) : Prop :=
  ∃ js : List ℕ, exec step p (js.map Event.inspect) = some p'

theorem Inspects.refl (p : SessionPool ι σ α) : Inspects p p := ⟨[], rfl⟩

theorem Inspects.head {j : ℕ} (hj : j < p.size) (h : Inspects (p.cooldownError j).2 p') :
    Inspects p p' := by
  obtain ⟨js, h⟩ := h
  refine ⟨j :: js, ?_⟩
  rw [exec, List.map_cons, List.foldlM_cons]
  simpa [step, hj, exec] using h

theorem Inspects.trans {p₁ : SessionPool ι σ α} (h : Inspects p p₁) (h' : Inspects p₁ p') :
    Inspects p p' := by
  obtain ⟨js, h⟩ := h
  obtain ⟨ks, h'⟩ := h'
  refine ⟨js ++ ks, ?_⟩
  rw [exec] at h h' ⊢
  rw [List.map_append, List.foldlM_append, h]
  exact h'

theorem inspects_readyAmong (js : List ℕ) (p : SessionPool ι σ α) (h : ∀ j ∈ js, j < p.size) :
    Inspects p (readyAmong js p).2 := by
  induction js generalizing p with
  | nil => exact .refl p
  | cons j js ih =>
    refine .head (h j (by simp)) ?_
    simp only [readyAmong]
    split_ifs
    · exact .refl _
    · exact ih _ fun k hk => h k (by simp [hk])

theorem inspects_countReady (js : List ℕ) (p : SessionPool ι σ α) (h : ∀ j ∈ js, j < p.size) :
    Inspects p (countReady js p).2 := by
  induction js generalizing p with
  | nil => exact .refl p
  | cons j js ih => exact .head (h j (by simp)) (ih _ fun k hk => h k (by simp [hk]))

theorem inspects_memberStatuses (js : List ℕ) (p : SessionPool ι σ α) (h : ∀ j ∈ js, j < p.size) :
    Inspects p (memberStatuses js p).2 := by
  induction js generalizing p with
  | nil => exact .refl p
  | cons j js ih => exact .head (h j (by simp)) (ih _ fun k hk => h k (by simp [hk]))

/-- An inspection leaves the cursor and the queries alone. -/
theorem Inspects.next_eq (h : Inspects p p') :
    p'.next = p.next ∧ p'.queries = p.queries ∧ p'.size = p.size := by
  obtain ⟨js, h⟩ := h
  induction js generalizing p with
  | nil =>
    obtain rfl : p = p' := by simpa [exec] using h
    exact ⟨rfl, rfl, rfl⟩
  | cons j js ih =>
    rw [exec, List.map_cons, List.foldlM_cons] at h
    simp only [step] at h
    split_ifs at h
    · have hrest := ih (show exec step (p.cooldownError j).2 (js.map Event.inspect) = some p' from h)
      exact hrest
    · cases h

/-- `ready` does nothing but to check cooldowns. -/
theorem inspects_ready (p : SessionPool ι σ α) : Inspects p p.ready.2 :=
  inspects_readyAmong _ p fun _ => List.mem_range.1

/-- `status` does nothing but to check cooldowns. -/
theorem inspects_status (p : SessionPool ι σ α) : Inspects p p.status.2 := by
  have h := inspects_countReady (List.range p.size) p fun _ => List.mem_range.1
  exact h.trans (inspects_memberStatuses _ _ fun _ => List.mem_range.1)

end SessionPool

end MoenotesApi
