import MoenotesApi.Gateway.Step
import MoenotesApi.Library.Census

/-!
# The counters of the HTTP server

The semaphore and the diagnostics count the requests that are in some stage.

* `Balanced`, `Step.balanced`: every step keeps the counts;
* `admission_exact`, `diagnostics_exact`: the counts in every run.
-/

namespace MoenotesApi.Gateway

open Runs

variable {ι σ M ρ : Type}

/-- The request holds a permit. -/
def holds (stage : Option RequestStage) : Bool := stage.any RequestStage.permitted

/-- The request is in flight. -/
def unanswered (stage : Option RequestStage) : Bool := stage.any RequestStage.inflight

/-- The request has ended with an error. -/
def failed (stage : Option RequestStage) : Bool := stage.any RequestStage.failed

/-- The counters agree with the stages of the requests. -/
structure Balanced (g : Gateway ι σ) : Prop where
  permits : ∃ n, Counts holds g.requests n ∧ g.permits + n = admissionLimit
  started : Counts Option.isSome g.requests g.started
  inflight : Counts unanswered g.requests g.inflight
  errors : Counts failed g.requests g.errors

theorem balanced_initial (pools : ℕ → SessionPool ι σ PoolAnswer) : Balanced (initial pools) where
  permits := ⟨0, .zero fun _ => rfl, rfl⟩
  started := .zero fun _ => rfl
  inflight := .zero fun _ => rfl
  errors := .zero fun _ => rfl

variable [DecidableEq ι]

/-- One request comes to a new stage, and each counter changes by what the stage changes. -/
theorem Balanced.update {g g' : Gateway ι σ} {i : ι} {old : Option RequestStage}
    {stage : RequestStage} (h : Balanced g) (hi : g.requests i = old)
    (hrequests : g'.requests = Function.update g.requests i (some stage))
    (hpermits : g'.permits + stage.permitted.toNat = g.permits + (holds old).toNat)
    (hstarted : g'.started + old.isSome.toNat = g.started + 1)
    (hinflight : g'.inflight + (unanswered old).toNat = g.inflight + stage.inflight.toNat)
    (herrors : g'.errors + (failed old).toNat = g.errors + stage.failed.toNat) : Balanced g' := by
  subst hi
  obtain ⟨n, hn, hlimit⟩ := h.permits
  have hpos : (holds (g.requests i)).toNat ≤ n := by
    cases hold : holds (g.requests i) with
    | false => exact Nat.zero_le _
    | true => exact hn.pos hold
  constructor
  · refine ⟨n + stage.permitted.toNat - (holds (g.requests i)).toNat, ?_, by omega⟩
    rw [hrequests]
    refine hn.update ?_
    show n + stage.permitted.toNat = _
    omega
  · rw [hrequests]
    refine h.started.update ?_
    show g.started + 1 = _
    omega
  · rw [hrequests]
    refine h.inflight.update ?_
    show g.inflight + stage.inflight.toNat = _
    omega
  · rw [hrequests]
    refine h.errors.update ?_
    show g.errors + stage.failed.toNat = _
    omega

variable [DecidableEq ρ] {lib : HttpLibraries M ρ} {state : ApiState ρ} {g g' : Gateway ι σ}
variable {e : Event ι σ} {ts : List (Transition (Gateway ι σ) (Event ι σ))}

theorem Step.balanced (h : Step lib state g e g') (hg : Balanced g) : Balanced g' := by
  have hopen {i : ι} {stage : RequestStage} (hi : g.requests i = some stage)
      (hstage : stage.inflight = true) : 0 < g.inflight :=
    hg.inflight.pos (i := i) (by rw [hi]; exact hstage)
  cases h with
  | arrive hi => exact hg.update hi rfl rfl rfl rfl rfl
  | refuse hi => exact hg.update hi rfl rfl rfl rfl rfl
  | letIn hi h hpermits =>
    refine hg.update hi rfl ?_ rfl rfl rfl
    show g.permits - 1 + 1 = g.permits + 0
    omega
  | read hi => exact hg.update hi rfl rfl rfl rfl rfl
  | reply hi => exact hg.update hi rfl rfl rfl rfl rfl
  | reject hi => exact hg.update hi rfl rfl rfl rfl rfl
  | query hi => exact hg.update hi rfl rfl rfl rfl rfl
  | respond hi => exact hg.update hi rfl rfl rfl rfl rfl
  | finish hi =>
    have hpos := hopen hi rfl
    refine hg.update hi rfl rfl rfl ?_ rfl
    show g.inflight - 1 + 1 = g.inflight + 0
    omega
  | leave hi =>
    have hpos := hopen hi rfl
    refine hg.update hi rfl rfl rfl ?_ rfl
    show g.inflight - 1 + 1 = g.inflight + 0
    omega
  | quit hi =>
    have hpos := hopen hi rfl
    refine hg.update hi rfl rfl rfl ?_ rfl
    show g.inflight - 1 + 1 = g.inflight + 0
    omega
  | pool | advance => exact ⟨hg.permits, hg.started, hg.inflight, hg.errors⟩

theorem balanced_of_run {pools : ℕ → SessionPool ι σ PoolAnswer}
    (hrun : Run (step lib state) (initial pools) ts g) : Balanced g :=
  hrun.invariant (fun _ _ _ hg h => (Step.of_step h).balanced hg) (balanced_initial pools)

/-- **Admission.**  At any moment the permits and the requests that hold one make up the limit, so at
most 64 requests are behind the check of the key.  A request with the key is turned away if and only if
as many hold a permit at that moment. -/
theorem admission_exact {pools : ℕ → SessionPool ι σ PoolAnswer}
    (hrun : Run (step lib state) (initial pools) ts g) :
    (∃ n, Counts holds g.requests n ∧ g.permits + n = admissionLimit) ∧
    ∀ t ∈ ts, ∀ i, t.event = .authenticate i →
      ∀ request handler params, t.before.requests i = some (.begun request) →
        Admitted lib state request handler params →
        ∃ n, Counts holds t.before.requests n ∧
          (n = admissionLimit ∧
              t.after.requests i = some (.answered request (httpError (.new .queueFull))) ∨
            n < admissionLimit ∧ t.after.requests i = some (.admitted request handler params)) := by
  refine ⟨(balanced_of_run hrun).permits, ?_⟩
  rintro t ht i he request handler params hi hadmitted
  obtain ⟨a, b, rfl⟩ := List.append_of_mem ht
  obtain ⟨hbefore, hstep, -⟩ := hrun.around
  obtain ⟨n, hn, hlimit⟩ := (balanced_of_run hbefore).permits
  refine ⟨n, hn, ?_⟩
  obtain ⟨pattern, hfind, hhandler⟩ := hadmitted.routed
  have hafter : t.after = t.before.letIn lib state i request handler params := by
    rw [he] at hstep
    simp only [step, hi, authenticate, hfind, hhandler, if_neg hadmitted.guarded] at hstep
    exact (Option.some.inj hstep).symm
  rw [hafter]
  unfold Gateway.letIn
  rw [if_neg (by simp [hadmitted.key])]
  split_ifs with hpermits
  · exact .inl ⟨by omega, by simp⟩
  · exact .inr ⟨by omega, by simp⟩

/-- **Diagnostics.**  The counters of the diagnostics are the numbers of the requests that have arrived,
of those that have neither been answered nor been dropped, and of those that were answered with an
error, in every run. -/
theorem diagnostics_exact {pools : ℕ → SessionPool ι σ PoolAnswer}
    (hrun : Run (step lib state) (initial pools) ts g) :
    Counts Option.isSome g.requests g.started ∧ Counts unanswered g.requests g.inflight ∧
      Counts failed g.requests g.errors ∧ g.inflight + g.errors ≤ g.started := by
  have hg := balanced_of_run hrun
  refine ⟨hg.started, hg.inflight, hg.errors, hg.inflight.add_le hg.errors hg.started ?_ ?_ ?_⟩
  · rintro (_ | _ | _) h <;> first | rfl | cases h
  · rintro (_ | _) h <;> first | rfl | cases h
  · rintro (_ | _) h <;> first | rfl | cases h

section Sample

open FormText (utf8)

/-- Two pools with one member each. -/
def idlePools (_ : ℕ) : SessionPool ℕ Unit PoolAnswer :=
  SessionPool.initial [⟨0, fun _ => none, none⟩] 0

def announcementsRequest : HttpRequest :=
  ⟨.get, "/v1/announcements", none, [utf8 "Bearer key"]⟩

/-- A request up to the query, and one without the key. -/
def openingEvents : List (Event ℕ Unit) :=
  [.arrive 0 announcementsRequest, .authenticate 0, .handle 0 false, .body 0 (some []),
    .arrive 1 { announcementsRequest with authorization := [] }, .authenticate 1]

/-- The pool answers, and both requests end. -/
def closingEvents : List (Event ℕ Unit) :=
  [.pool 0 (.lock 0), .pool 0 (.examine 0), .pool 0 (.enter 0),
    .pool 0 (.answer 0 (.ok (⟨.null, 0, 4⟩, .miss))), .respond 0, .finish 0 "a", .finish 1 "b"]

def servedEvents : List (Event ℕ Unit) := openingEvents ++ closingEvents

theorem served_isSome :
    (exec (step plainLibraries twoRegions) (initial idlePools) servedEvents).isSome = true := by
  decide +kernel

def servedGateway : Gateway ℕ Unit :=
  (exec (step plainLibraries twoRegions) (initial idlePools) servedEvents).get served_isSome

def servedRun : List (Transition (Gateway ℕ Unit) (Event ℕ Unit)) :=
  transitions (step plainLibraries twoRegions) (initial idlePools) servedEvents

theorem run_served :
    Run (step plainLibraries twoRegions) (initial idlePools) servedRun servedGateway :=
  run_get _ _

theorem admission_exact_served :
    ∃ n, Counts holds servedGateway.requests n ∧ servedGateway.permits + n = admissionLimit :=
  (admission_exact run_served).1

theorem diagnostics_exact_served :
    Counts unanswered servedGateway.requests servedGateway.inflight ∧
      Counts failed servedGateway.requests servedGateway.errors :=
  ⟨(diagnostics_exact run_served).2.1, (diagnostics_exact run_served).2.2.1⟩

end Sample

end MoenotesApi.Gateway
