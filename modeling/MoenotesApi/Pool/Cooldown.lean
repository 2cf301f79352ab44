import MoenotesApi.Pool.Fairness

/-!
# Cooldowns and what becomes of a query

Every query goes through one cache at most, and a cooldown is the trace of a failed one.  A cooldown
in force keeps queries away until it expires, unless an older query overwrites it: the generation is
compared before the slot is locked, and the clock is read before.

* `Stamped`: where a cooldown comes from;
* `Trace`: what has happened to a query so far; `trace_of_run`: this holds in every run;
* `Harmless`: no write of a weaker cooldown over the one that is to be kept; `Guarded`: what such
  writes keep;
* `cooldown_protects`: the cooldown, under that condition, and that no query is ever replayed;
  `cooldown_lost`: without it, a cooldown can be lost.
-/

namespace MoenotesApi.SessionPool

open Runs

variable {ι σ α : Type} {p p' : SessionPool ι σ α} {e : Event ι σ α} {i : ι}
variable {ts us : List (Transition (SessionPool ι σ α) (Event ι σ α))}

/-! ### Where a cooldown comes from -/

/-- The query has been handed to the cache of `j`, and has then read the generation `g`. -/
def Assigned (ts : List (Transition (SessionPool ι σ α) (Event ι σ α))) (i : ι) (j g : ℕ) : Prop :=
  ∃ t ∈ ts, t.event = .enter i ∧ (∃ q, t.before.queries i = some (.chosen q j)) ∧
    (t.before.members j).generation = g

/-- After that the cache has returned a transient error. -/
def Failed (ts : List (Transition (SessionPool ι σ α) (Event ι σ α))) (i : ι) (j g : ℕ)
    (error : ClientError) : Prop :=
  ∃ a t b, ts = a ++ t :: b ∧ t.event = .answer i (.error error) ∧ transient error.kind = true ∧
    Assigned a i j g

/-- After that the member was still at the generation `g`. -/
def Confirmed (ts : List (Transition (SessionPool ι σ α) (Event ι σ α))) (i : ι) (j g : ℕ)
    (error : ClientError) : Prop :=
  ∃ a t b, ts = a ++ t :: b ∧ t.event = .check i ∧ (t.before.members j).generation = g ∧
    Failed a i j g error

/-- After that the query has read the clock. -/
def Stamped (ts : List (Transition (SessionPool ι σ α) (Event ι σ α))) (i : ι) (j g : ℕ)
    (error : ClientError) (expires : ℕ) : Prop :=
  ∃ a t b, ts = a ++ t :: b ∧ t.event = .stamp i ∧ expires = t.before.now + transientCooldown ∧
    Confirmed a i j g error

/-- The cache has returned this result for the query. -/
def Answered (ts : List (Transition (SessionPool ι σ α) (Event ι σ α))) (i : ι)
    (result : Except ClientError α) : Prop :=
  ∃ t ∈ ts, t.event = .answer i result

section Traces

variable {j g expires : ℕ} {error : ClientError}

theorem Assigned.append (h : Assigned ts i j g) : Assigned (ts ++ us) i j g := by
  obtain ⟨t, ht, h⟩ := h
  exact ⟨t, List.mem_append_left _ ht, h⟩

theorem Failed.append (h : Failed ts i j g error) : Failed (ts ++ us) i j g error := by
  obtain ⟨a, t, b, rfl, h⟩ := h
  exact ⟨a, t, b ++ us, by simp, h⟩

theorem Confirmed.append (h : Confirmed ts i j g error) : Confirmed (ts ++ us) i j g error := by
  obtain ⟨a, t, b, rfl, h⟩ := h
  exact ⟨a, t, b ++ us, by simp, h⟩

theorem Stamped.append (h : Stamped ts i j g error expires) :
    Stamped (ts ++ us) i j g error expires := by
  obtain ⟨a, t, b, rfl, h⟩ := h
  exact ⟨a, t, b ++ us, by simp, h⟩

theorem Failed.answered (h : Failed ts i j g error) : Answered ts i (.error error) := by
  obtain ⟨a, t, b, rfl, he, -⟩ := h
  exact ⟨t, by simp, he⟩

theorem Confirmed.answered (h : Confirmed ts i j g error) : Answered ts i (.error error) := by
  obtain ⟨a, t, b, rfl, -, -, h⟩ := h
  obtain ⟨u, hu, he⟩ := h.answered
  exact ⟨u, by simp [hu], he⟩

theorem Stamped.answered (h : Stamped ts i j g error expires) : Answered ts i (.error error) := by
  obtain ⟨a, t, b, rfl, -, -, h⟩ := h
  obtain ⟨u, hu, he⟩ := h.answered
  exact ⟨u, by simp [hu], he⟩

end Traces

/-! ### The trace of a query -/

variable [DecidableEq ι]

/-- The member to whose cache the query `i` is handed in a transition. -/
def hands (i : ι) (t : Transition (SessionPool ι σ α) (Event ι σ α)) : Option ℕ :=
  match t.event, t.before.queries i with
  | .enter k, some (.chosen _ j) => if k = i then some j else none
  | _, _ => none

/-- The members to whose caches the query `i` was handed. -/
def handed (ts : List (Transition (SessionPool ι σ α) (Event ι σ α))) (i : ι) : List ℕ :=
  ts.filterMap (hands i)

/-- What has happened to the query `i`, by the stage that it has come to. -/
inductive Trace (ts : List (Transition (SessionPool ι σ α) (Event ι σ α))) (i : ι) :
    Option (PoolStage α) → Prop
  | unseen (hh : handed ts i = []) : Trace ts i none
  | waiting {q} (hh : handed ts i = []) : Trace ts i (some (.waiting q))
  | selecting {q offset firstError} (hh : handed ts i = []) :
      Trace ts i (some (.selecting q offset firstError))
  | chosen {q j} (hh : handed ts i = []) : Trace ts i (some (.chosen q j))
  | running {j g} (hh : handed ts i = [j]) (h : Assigned ts i j g) :
      Trace ts i (some (.running j g))
  | failed {j g error} (hh : handed ts i = [j]) (h : Failed ts i j g error) :
      Trace ts i (some (.failed j g error))
  | checked {j g error} (hh : handed ts i = [j]) (h : Confirmed ts i j g error) :
      Trace ts i (some (.checked j g error))
  | stamped {j g error expires} (hh : handed ts i = [j]) (h : Stamped ts i j g error expires) :
      Trace ts i (some (.stamped j g error expires))
  | refused {error} (hh : handed ts i = []) : Trace ts i (some (.returned (.error error)))
  | returned {j result} (hh : handed ts i = [j]) (h : Answered ts i result) :
      Trace ts i (some (.returned result))
  | dropped {j} (hh : handed ts i = [j]) : Trace ts i (some .dropped)

/-- A transition that hands the query to no cache and leaves its stage alone. -/
theorem Trace.append {stage : Option (PoolStage α)}
    {t : Transition (SessionPool ι σ α) (Event ι σ α)} (h : Trace ts i stage)
    (ht : hands i t = none) : Trace (ts ++ [t]) i stage := by
  have hh : ∀ {l}, handed ts i = l → handed (ts ++ [t]) i = l := by
    rintro l rfl
    simp [handed, ht]
  cases h with
  | unseen h => exact .unseen (hh h)
  | waiting h => exact .waiting (hh h)
  | selecting h => exact .selecting (hh h)
  | chosen h => exact .chosen (hh h)
  | running h ha => exact .running (hh h) ha.append
  | failed h hf => exact .failed (hh h) hf.append
  | checked h hc => exact .checked (hh h) hc.append
  | stamped h hs => exact .stamped (hh h) hs.append
  | refused h => exact .refused (hh h)
  | returned h ha =>
    obtain ⟨u, hu, he⟩ := ha
    exact .returned (hh h) ⟨u, List.mem_append_left _ hu, he⟩
  | dropped h => exact .dropped (hh h)

theorem hands_eq_none (he : e ≠ .enter i) :
    hands i (⟨p, e, p'⟩ : Transition (SessionPool ι σ α) (Event ι σ α)) = none := by
  unfold hands
  split
  · next k q j hk _ =>
    dsimp only at hk
    subst hk
    rw [if_neg]
    rintro rfl
    exact he rfl
  · rfl

omit [DecidableEq ι] in
theorem arrive_cases (p : SessionPool ι σ α) (q : Query) :
    p.arrive q = .waiting q ∨ ∃ error, p.arrive q = .returned (.error error) := by
  unfold arrive
  split_ifs
  · exact .inr ⟨_, rfl⟩
  · exact .inr ⟨_, rfl⟩
  · exact .inl rfl

omit [DecidableEq ι] in
theorem answered_cases (p : SessionPool ι σ α) (j g : ℕ) (result : Except ClientError α) :
    p.answered j g result = .returned result ∨ ∃ error, result = .error error ∧
      transient error.kind = true ∧ p.answered j g result = .failed j g error := by
  cases result with
  | ok response => exact .inl rfl
  | error error =>
    by_cases hc : (1 < p.size && transient error.kind) = true
    · refine .inr ⟨error, rfl, ?_, ?_⟩
      · simp only [Bool.and_eq_true] at hc
        exact hc.2
      · simp only [answered, if_pos hc]
    · exact .inl (by simp only [answered, if_neg hc])

/-- What one event does to the trace of a query. -/
theorem Trace.step (h : Trace ts i (p.queries i)) (hstep : Step p e p') :
    Trace (ts ++ [⟨p, e, p'⟩]) i (p'.queries i) := by
  -- an event of the query `k`
  have other : ∀ {k stage}, i ≠ k → e ≠ .enter i →
      p'.queries = Function.update p.queries k stage →
      Trace (ts ++ [⟨p, e, p'⟩]) i (p'.queries i) := by
    intro k stage hik he hq
    rw [hq, Function.update_of_ne hik]
    exact h.append (hands_eq_none he)
  -- an event of the query `i` itself, before or after which it is handed to no cache
  have own : e ≠ .enter i → ∀ {l}, handed ts i = l → handed (ts ++ [⟨p, e, p'⟩]) i = l := by
    rintro he l rfl
    simp [handed, hands_eq_none he]
  cases hstep with
  | @query k q hk =>
    by_cases hik : i = k
    · subst hik
      rw [hk] at h
      cases h with
      | unseen hh =>
        rw [setQuery_queries, Function.update_self]
        rcases p.arrive_cases q with harrive | ⟨error, harrive⟩ <;> rw [harrive] at own ⊢
        · exact .waiting (own (by simp) hh)
        · exact .refused (own (by simp) hh)
    · exact other hik (by simp) rfl
  | @lock k q hk hl =>
    by_cases hik : i = k
    · subst hik
      rw [hk] at h
      cases h with
      | waiting hh =>
        dsimp only
        rw [setQuery_queries, Function.update_self]
        exact .selecting (own (by simp) hh)
    · exact other hik (by simp) rfl
  | @examineRefused k q offset first error hk =>
    by_cases hik : i = k
    · subst hik
      rw [hk] at h
      cases h with
      | selecting hh =>
        rw [setQuery_queries, Function.update_self]
        exact .selecting (own (by simp) hh)
    · exact other hik (by simp) (by simp; rfl)
  | @examinePicked k q offset first hk =>
    by_cases hik : i = k
    · subst hik
      rw [hk] at h
      cases h with
      | selecting hh =>
        dsimp only
        rw [setQuery_queries, Function.update_self]
        exact .chosen (own (by simp) hh)
    · exact other hik (by simp) (by simp; rfl)
  | @examineEnd k q offset first hk =>
    by_cases hik : i = k
    · subst hik
      rw [hk] at h
      cases h with
      | selecting hh =>
        dsimp only
        rw [setQuery_queries, Function.update_self]
        exact .refused (own (by simp) hh)
    · exact other hik (by simp) rfl
  | @enter k q j hk =>
    by_cases hik : i = k
    · subst hik
      rw [hk] at h
      cases h with
      | chosen hh =>
        rw [setQuery_queries, Function.update_self]
        refine .running ?_ ⟨_, List.mem_append_right _ (List.mem_singleton_self _), rfl, ⟨q, hk⟩, rfl⟩
        rw [handed, List.filterMap_append, show List.filterMap (hands i) ts = [] from hh]
        simp [hands, hk]
    · exact other hik (by simpa using Ne.symm hik) rfl
  | @answer k j g result n hk =>
    by_cases hik : i = k
    · subst hik
      rw [hk] at h
      cases h with
      | running hh ha =>
        rw [setQuery_queries, Function.update_self]
        rcases p.answered_cases j g result with hans | ⟨error, rfl, ht, hans⟩ <;> rw [hans] at own ⊢
        · exact .returned (own (by simp) hh)
            ⟨_, List.mem_append_right _ (List.mem_singleton_self _), rfl⟩
        · exact .failed (own (by simp) hh) ⟨ts, _, [], rfl, rfl, ht, ha⟩
    · exact other hik (by simp) rfl
  | @checkFailed k j g error hk =>
    by_cases hik : i = k
    · subst hik
      rw [hk] at h
      cases h with
      | failed hh hf =>
        rw [setQuery_queries, Function.update_self]
        exact .returned (own (by simp) hh) hf.append.answered
    · exact other hik (by simp) rfl
  | @check k j g error hk hg =>
    by_cases hik : i = k
    · subst hik
      rw [hk] at h
      cases h with
      | failed hh hf =>
        rw [setQuery_queries, Function.update_self]
        exact .checked (own (by simp) hh) ⟨ts, _, [], rfl, rfl, hg, hf⟩
    · exact other hik (by simp) rfl
  | @stamp k j g error hk =>
    by_cases hik : i = k
    · subst hik
      rw [hk] at h
      cases h with
      | checked hh hc =>
        rw [setQuery_queries, Function.update_self]
        exact .stamped (own (by simp) hh) ⟨ts, _, [], rfl, rfl, rfl, hc⟩
    · exact other hik (by simp) rfl
  | @write k j g error expires hk =>
    by_cases hik : i = k
    · subst hik
      rw [hk] at h
      cases h with
      | stamped hh hs =>
        rw [setQuery_queries, Function.update_self]
        exact .returned (own (by simp) hh) hs.append.answered
    · exact other hik (by simp) rfl
  | @drop k j g hk =>
    by_cases hik : i = k
    · subst hik
      rw [hk] at h
      cases h with
      | running hh =>
        rw [setQuery_queries, Function.update_self]
        exact .dropped (own (by simp) hh)
    · exact other hik (by simp) rfl
  | inspect | session | client | stop | advance => exact h.append (hands_eq_none (by simp))

theorem trace_of_run (hrun : Run step p ts p') (h : ∀ i, p.queries i = none) (i : ι) :
    Trace ts i (p'.queries i) := by
  induction hrun with
  | nil =>
    rw [h]
    exact .unseen rfl
  | snoc _ hstep ih => exact ih.step (Step.of_step hstep)

/-- A query is handed to one cache at most. -/
theorem Trace.handed_cases {stage : Option (PoolStage α)} (h : Trace ts i stage) :
    handed ts i = [] ∨ ∃ j, handed ts i = [j] := by
  cases h with
  | unseen hh | waiting hh | selecting hh | chosen hh | refused hh => exact .inl hh
  | running hh | failed hh | checked hh | stamped hh | returned hh | dropped hh =>
    exact .inr ⟨_, hh⟩

/-- A query that has returned was refused by the pool, or returns what the one cache has returned. -/
theorem Trace.of_returned {result : Except ClientError α}
    (h : Trace ts i (some (.returned result))) :
    (∃ error, result = .error error) ∧ handed ts i = [] ∨
      ∃ j, handed ts i = [j] ∧ Answered ts i result := by
  cases h with
  | refused hh => exact .inl ⟨⟨_, rfl⟩, hh⟩
  | returned hh ha => exact .inr ⟨_, hh, ha⟩

/-! ### Cooldowns in force -/

omit [DecidableEq ι] in
/-- A query that writes a cooldown has failed in the cache of that member. -/
theorem stamped_transient {j g expires : ℕ} {error : ClientError}
    (h : Stamped ts i j g error expires) : transient error.kind = true := by
  obtain ⟨_, _, _, -, -, -, _, _, _, -, -, -, _, _, _, -, -, ht, -⟩ := h
  exact ht

/-- The query `i` writes the cooldown of the member `j`. -/
def Records (t : Transition (SessionPool ι σ α) (Event ι σ α)) (j g : ℕ) (kind : ErrorKind)
    (expires : ℕ) : Prop :=
  ∃ i error, t.event = .write i ∧ t.before.queries i = some (.stamped j g error expires) ∧
    error.kind = kind

/-- As long as the generation `g` of the member `j` is current and the clock has not come to
`expires`, the transition does not write a cooldown of another generation, or with an earlier expiry,
for this member. -/
def Harmless (j g expires : ℕ) (t : Transition (SessionPool ι σ α) (Event ι σ α)) : Prop :=
  ∀ g' kind expires', Records t j g' kind expires' → (t.before.members j).generation = g →
    t.before.now < expires → g' = g ∧ expires ≤ expires'

/-- As long as the generation `g` of the member `j` is current, a cooldown is in force until `expires`
at least. -/
structure Guarded (p : SessionPool ι σ α) (j g expires : ℕ) : Prop where
  le : g ≤ (p.members j).generation
  slot : (p.members j).generation = g → p.now < expires →
    ∃ expires' kind, (p.members j).cooldown = some (expires', g, kind) ∧ expires ≤ expires'

theorem Guarded.step {j g expires : ℕ} (h : Guarded p j g expires) (hstep : Step p e p')
    (hharmless : Harmless j g expires (⟨p, e, p'⟩ : Transition (SessionPool ι σ α) (Event ι σ α))) :
    Guarded p' j g expires := by
  refine ⟨h.le.trans (hstep.generation_le j), fun hg hlt => ?_⟩
  have hg' : (p.members j).generation = g :=
    le_antisymm (hg ▸ hstep.generation_le j) h.le
  have hlt' : p.now < expires := hstep.now_le.trans_lt hlt
  obtain ⟨expires', kind, hslot, hle⟩ := h.slot hg' hlt'
  have hforce : p.now < expires' := hlt'.trans_le hle
  cases hstep.slot j with
  | kept hkept => exact ⟨expires', kind, hkept.trans hslot, hle⟩
  | cleared hstale =>
    refine absurd ⟨expires', kind, ?_, hforce⟩ hstale
    rw [hslot, hg']
  | @written i g₁ error expires₁ he hi hnew =>
    obtain ⟨rfl, hexp⟩ := hharmless g₁ _ expires₁ ⟨i, error, he, hi, rfl⟩ hg' hlt'
    exact ⟨expires₁, _, hnew, hexp⟩

theorem guarded_of_run {j g expires : ℕ} (hrun : Run step p ts p') (h : Guarded p j g expires)
    (hharmless : ∀ t ∈ ts, Harmless j g expires t) : Guarded p' j g expires := by
  induction hrun with
  | nil => exact h
  | snoc _ hstep ih =>
    exact (ih fun t ht => hharmless t (List.mem_append_left _ ht)).step (Step.of_step hstep)
      (hharmless _ (List.mem_append_right _ (List.mem_singleton_self _)))

/-- A query that writes a cooldown under the current generation guards the member. -/
theorem guarded_of_records {j g expires : ℕ} {kind : ErrorKind} (hstep : Step p e p')
    (h : Records (⟨p, e, p'⟩ : Transition (SessionPool ι σ α) (Event ι σ α)) j g kind expires)
    (hg : (p'.members j).generation = g) : Guarded p' j g expires := by
  obtain ⟨i, error, he, hi, rfl⟩ := h
  dsimp only at he hi
  subst he
  cases hstep with
  | write hi' =>
    rw [hi] at hi'
    cases hi'
    exact ⟨hg.ge, fun _ _ => ⟨expires, error.kind, by simp, le_rfl⟩⟩

omit [DecidableEq ι] in
/-- No query of a pool of two or more members is sent to a member whose cooldown is in force. -/
theorem preflight_of_cooldown {j expires : ℕ} {kind : ErrorKind} (hsize : 1 < p.size)
    (hslot : (p.members j).cooldown = some (expires, (p.members j).generation, kind))
    (hlt : p.now < expires) (anonymous : Bool) :
    (p.preflight j anonymous).1 = some (.new kind) := by
  simp only [preflight, if_pos hsize, cooldownError,
    PoolMember.cooldownError_of_coolingDown _ _ hslot hlt]
  rfl

theorem Guarded.not_picks {j g expires : ℕ} (h : Guarded p j g expires) (hsize : 1 < p.size)
    (hg : (p.members j).generation = g) (hlt : p.now < expires) (hstep : Step p e p') :
    picks (⟨p, e, p'⟩ : Transition (SessionPool ι σ α) (Event ι σ α)) ≠ some j := by
  intro hp
  obtain ⟨i, q, offset, first, rfl, hi, ho, hpass, rfl, -⟩ := picks_eq_some hstep hp
  obtain ⟨expires', kind, hslot, hle⟩ := h.slot hg hlt
  rw [← hg] at hslot
  rw [preflight_of_cooldown hsize hslot (hlt.trans_le hle)] at hpass
  cases hpass

omit [DecidableEq ι] in
/-- A member is refused for its cooldown only while it is in force, under the current generation. -/
theorem preflight_cases {j : ℕ} {anonymous : Bool} {error : ClientError}
    (h : (p.preflight j anonymous).1 = some error) : 1 < p.size ∧
      ((p.members j).queryError anonymous = some error ∨
      ∃ expires kind, (p.members j).cooldown = some (expires, (p.members j).generation, kind) ∧
        p.now < expires ∧ error = .new kind) := by
  unfold preflight at h
  split_ifs at h with hsize
  refine ⟨hsize, ?_⟩
  simp only [cooldownError, setMember_members, Function.update_self,
    PoolMember.cooldownError_queryError] at h
  cases hc : ((p.members j).cooldownError p.now).1 with
  | none =>
    rw [hc] at h
    exact .inl h
  | some error' =>
    rw [hc] at h
    obtain rfl := Option.some.inj h
    exact .inr (PoolMember.cooldownError_eq_some _ _ hc)

theorem preflight_of_examines {j : ℕ} {error : ClientError}
    {t : Transition (SessionPool ι σ α) (Event ι σ α)} (h : (j, some error) ∈ examines i t) :
    ∃ anonymous, (t.before.preflight j anonymous).1 = some error := by
  unfold examines at h
  split at h
  · next k q offset first _ _ =>
    split_ifs at h
    · simp only [List.mem_singleton, Prod.mk.injEq] at h
      obtain ⟨rfl, h⟩ := h
      exact ⟨q.method.anonymous, h.symm⟩
    · cases h
  · cases h

/-- A cooldown is recorded by a query that has failed. -/
theorem records_of_slot (hstep : Step p e p') (htrace : ∀ i, Trace ts i (p.queries i))
    {j g expires : ℕ} {kind : ErrorKind} (hnew : (p'.members j).cooldown = some (expires, g, kind))
    (hold : (p.members j).cooldown ≠ some (expires, g, kind)) :
    ∃ i error, e = .write i ∧ error.kind = kind ∧ transient kind = true ∧
      Stamped ts i j g error expires := by
  cases hstep.slot j with
  | kept hkept => exact absurd (hkept.symm.trans hnew) hold
  | cleared _ hnone =>
    rw [hnone] at hnew
    cases hnew
  | @written i g' error expires' he hi h =>
    rw [h] at hnew
    cases hnew
    have htrace := htrace i
    rw [hi] at htrace
    cases htrace with
    | stamped _ hs => exact ⟨i, error, he, rfl, stamped_transient hs, hs⟩

/-- The only member of a pool is always chosen. -/
theorem picks_single (hstep : Step p (.examine i) p') (hsize : p.size = 1)
    (hsel : Selection p i (examined ts i)) (hsizes : ∀ t ∈ ts, t.before.size = 1) :
    picks (⟨p, .examine i, p'⟩ : Transition (SessionPool ι σ α) (Event ι σ α)) = some 0 := by
  cases hstep with
  | examineRefused hi ho hp =>
    have := (preflight_cases hp).1
    omega
  | examinePicked => simp [picks, hsize, Nat.mod_one]
  | examineEnd hi ho =>
    obtain ⟨errors, hseen, -, hlen, -⟩ := hsel.of_selecting hi
    -- the member has been examined and refused
    cases errors with
    | nil =>
      simp only [List.length_nil] at hlen
      omega
    | cons first errors =>
      have hmem : ((p.next + 0) % p.size, some first) ∈ examined ts i := by
        rw [hseen, refusals, List.mapIdx_cons]
        exact List.mem_cons_self
      obtain ⟨t, ht, hex⟩ := List.mem_flatMap.1 hmem
      obtain ⟨anonymous, hpre⟩ := preflight_of_examines hex
      have := (preflight_cases hpre).1
      have := hsizes t ht
      omega

/-- **Cooldowns and no replay.**  In every run of a pool: a cooldown is recorded only by a query that
has failed in that member's cache, with the generation that was current at its check; a recorded
cooldown keeps all queries away until it expires, as long as its generation is current and the writes
for this member in between are harmless; a member is refused for a cooldown of the current generation
only; a query is handed to one cache at most and returns what that cache has returned; and the only
member of a pool is always chosen. -/
theorem cooldown_protects {opt : CacheOptions} {members : List (SessionMember σ)} {now : ℕ}
    {p₀ : SessionPool ι σ α} (hnew : new opt members now = .ok p₀) (hrun : Run step p₀ ts p) :
    (∀ before t after j g kind expires, ts = before ++ t :: after →
      (t.after.members j).cooldown = some (expires, g, kind) →
      (t.before.members j).cooldown ≠ some (expires, g, kind) →
      ∃ i error, t.event = .write i ∧ error.kind = kind ∧ transient kind = true ∧
        Stamped before i j g error expires) ∧
    (2 ≤ members.length → ∀ before w between x after j g kind expires,
      ts = before ++ w :: between ++ x :: after → Records w j g kind expires →
      (w.after.members j).generation = g → (∀ t ∈ between, Harmless j g expires t) →
      (x.before.members j).generation = g → x.before.now < expires → picks x ≠ some j) ∧
    (∀ t ∈ ts, ∀ i j error, (j, some error) ∈ examines i t →
      (∃ anonymous, (t.before.members j).queryError anonymous = some error) ∨
      ∃ expires kind,
        (t.before.members j).cooldown = some (expires, (t.before.members j).generation, kind) ∧
        t.before.now < expires ∧ error = .new kind) ∧
    (∀ i, handed ts i = [] ∨ ∃ j, handed ts i = [j]) ∧
    (∀ i result, p.queries i = some (.returned result) →
      (∃ error, result = .error error) ∧ handed ts i = [] ∨
      ∃ j, handed ts i = [j] ∧ Answered ts i result) ∧
    (members.length = 1 → ∀ t ∈ ts, ∀ i, t.event = .examine i → picks t = some 0) := by
  obtain rfl := new_ok hnew
  have hstart : ∀ i, (initial members now : SessionPool ι σ α).queries i = none := fun _ => rfl
  have htrace := trace_of_run hrun hstart
  refine ⟨?_, ?_, ?_, fun i => (htrace i).handed_cases, ?_, ?_⟩
  · rintro before t after j g kind expires rfl hslot hold
    obtain ⟨hbefore, hstep, -⟩ := hrun.around
    exact records_of_slot (Step.of_step hstep) (trace_of_run hbefore hstart) hslot hold
  · rintro hn before w between x after j g kind expires rfl hrecords hg hharmless hgx hlt
    obtain ⟨hbefore, hx, -⟩ := hrun.around
    obtain ⟨-, hw, hbetween⟩ := hbefore.around
    have hguarded := guarded_of_run hbetween (guarded_of_records (Step.of_step hw) hrecords hg)
      hharmless
    have hsize : x.before.size = members.length := size_of_run hbefore
    exact hguarded.not_picks (by omega) hgx hlt (Step.of_step hx)
  · intro t ht i j error hmem
    obtain ⟨anonymous, hp⟩ := preflight_of_examines hmem
    exact (preflight_cases hp).2.imp_left fun h => ⟨anonymous, h⟩
  · intro i result hi
    have h := htrace i
    rw [hi] at h
    exact h.of_returned
  · intro hone t ht i he
    obtain ⟨before, after, rfl⟩ := List.append_of_mem ht
    obtain ⟨hbefore, hstep, -⟩ := hrun.around
    obtain ⟨d, e, d'⟩ := t
    dsimp only at he hstep hbefore
    subst he
    have hsel : Selection d i (examined before i) := by
      simpa using @selection_of_run _ _ _ _ _ _ _ [] hbefore (fun k => .before (.inl rfl)) i
    refine picks_single (Step.of_step hstep) ((size_of_run hbefore).trans hone) hsel fun u hu => ?_
    obtain ⟨a, b, rfl⟩ := List.append_of_mem hu
    exact (size_of_run hbefore.around.1).trans hone

/-! ### Sample runs -/

/-- Two members without any error. -/
def idleMembers : List (SessionMember Unit) := [⟨0, fun _ => none, none⟩, ⟨0, fun _ => none, none⟩]

abbrev idlePool : SessionPool ℕ Unit Unit := initial idleMembers 0

/-- The query `i` chooses a member. -/
def chooseEvents (i : ℕ) : List (Event ℕ Unit Unit) :=
  [.query i ⟨.profile, [], true⟩, .lock i, .examine i]

/-- It fails in the member's cache, and goes on until it has read the clock. -/
def failEvents (i : ℕ) : List (Event ℕ Unit Unit) :=
  [.enter i, .answer i (.error (.new .transport)), .check i, .stamp i]

/-- The query 0 fails under the first session of the member 0, and the query 2 under the second. -/
def failedEvents : List (Event ℕ Unit Unit) :=
  chooseEvents 0 ++ failEvents 0 ++ .session 0 (fun _ => none) :: chooseEvents 1 ++
    chooseEvents 2 ++ failEvents 2

def failedPool : SessionPool ℕ Unit Unit := (exec step idlePool failedEvents).get (by decide +kernel)

/-- The query 2 records its cooldown. -/
def recorded : Transition (SessionPool ℕ Unit Unit) (Event ℕ Unit Unit) :=
  transitionOf step failedPool (.write 2) (by decide +kernel)

theorem records_recorded : Records recorded 0 1 .transport transientCooldown :=
  ⟨2, .new .transport, rfl, rfl, rfl⟩

/-- The query 3 takes the other member, and the query 4 is next. -/
def nextEvents : List (Event ℕ Unit Unit) := chooseEvents 3 ++ (chooseEvents 4).take 2

def guardedPool : SessionPool ℕ Unit Unit :=
  (exec step recorded.after nextEvents).get (by decide +kernel)

/-- The query 4 is refused by the member 0. -/
def guardedChoice : Transition (SessionPool ℕ Unit Unit) (Event ℕ Unit Unit) :=
  transitionOf step guardedPool (.examine 4) (by decide +kernel)

theorem cooldown_protects_guarded : picks guardedChoice ≠ some 0 := by
  have h₁ : Run step idlePool _ failedPool := run_get failedEvents (by decide +kernel)
  have h₂ : Run step recorded.after _ guardedPool := run_get nextEvents (by decide +kernel)
  have h₃ : Run step guardedPool [guardedChoice] guardedChoice.after := run_transitionOf .nil
  have hrun := (h₁.append (run_transitionOf h₂)).append h₃
  refine (@cooldown_protects _ _ _ _ _ _ ⟨0, 0, 0, 0⟩ idleMembers 0 _ rfl hrun).2.1 (by decide) _ recorded _ guardedChoice [] 0 1 .transport _ rfl records_recorded
    (by decide +kernel) ?_ (by decide +kernel) (by decide +kernel)
  -- no query writes a cooldown meanwhile
  rintro t ht g kind expires ⟨i, error, he, -⟩
  have := event_mem_of_transitions ht
  rw [he] at this
  simp [nextEvents, chooseEvents] at this

/-- The query 0 writes its cooldown, of the session that is gone, and then the others come. -/
def overwriteEvents : List (Event ℕ Unit Unit) := .write 0 :: nextEvents

def overwrittenPool : SessionPool ℕ Unit Unit :=
  (exec step recorded.after overwriteEvents).get (by decide +kernel)

/-- The query 4 is sent to the member 0, although its cooldown has not expired. -/
def overwrittenChoice : Transition (SessionPool ℕ Unit Unit) (Event ℕ Unit Unit) :=
  transitionOf step overwrittenPool (.examine 4) (by decide +kernel)

/-- A cooldown is lost: an older query replaces it by one of the session before. -/
theorem cooldown_lost : ∃ (before between : List (Transition (SessionPool ℕ Unit Unit)
      (Event ℕ Unit Unit))) (w x : Transition (SessionPool ℕ Unit Unit) (Event ℕ Unit Unit))
      (expires : ℕ),
    new ⟨0, 0, 0, 0⟩ idleMembers 0 = .ok idlePool ∧
    Run step idlePool (before ++ w :: between ++ x :: []) x.after ∧
    Records w 0 1 .transport expires ∧ (w.after.members 0).generation = 1 ∧
    (x.before.members 0).generation = 1 ∧ x.before.now < expires ∧ picks x = some 0 := by
  have h₁ : Run step idlePool _ failedPool := run_get failedEvents (by decide +kernel)
  have h₂ : Run step recorded.after _ overwrittenPool := run_get overwriteEvents (by decide +kernel)
  exact ⟨_, _, recorded, overwrittenChoice, transientCooldown, rfl,
    (h₁.append (run_transitionOf h₂)).append (run_transitionOf .nil), records_recorded,
    by decide +kernel, by decide +kernel, by decide +kernel, by decide +kernel⟩

end MoenotesApi.SessionPool
