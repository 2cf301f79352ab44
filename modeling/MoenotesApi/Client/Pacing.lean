import MoenotesApi.Client.Slot

/-!
# Pacing and bounded admission

The semaphore bounds the operations that wait, the serial slot lets one of them call the transport,
and `next`, which the holder of the slot writes as its call starts, keeps any two starts apart.

* `Permits`: the permits that are held and the available ones add up to the capacity;
* `next_le_of_step`: the next start instant does not move back;
* `not_running_of_run`: an operation that is over stays so until it is submitted again;
* `calls_serial_paced`: what a run of calls looks like from the transport.
-/

namespace MoenotesApi

/-- Stages in which an operation holds a permit of the semaphore. -/
def Stage.hasPermit : Stage → Bool
  | .prepared => false
  | _ => true

/-- The stages before the transport call starts, in which an operation can be given up. -/
def Stage.waiting : Stage → Bool
  | .queued | .slot => true
  | _ => false

namespace Client

open Runs

variable {ι : Type} {lib : Libraries} {opt : ClientOptions} {c c' : Client ι} {e : Event ι}
variable {ts : List (Transition (Client ι) (Event ι))}

/-! ### Permits -/

/-- The operation `i` is admitted: it holds a permit. -/
def HasPermit (c : Client ι) (i : ι) : Prop :=
  ∃ op, c.ops i = some (.running op) ∧ op.stage.hasPermit = true

/-- The admitted operations and the available permits add up to `total`. -/
def Permits (total : ℕ) (c : Client ι) : Prop :=
  ∃ s : Finset ι, (∀ i, i ∈ s ↔ HasPermit c i) ∧ s.card + c.available = total

theorem permits_initial (session : Session) (now : ℕ) :
    Permits (opt.queueCapacity + 1) (initial opt session now : Client ι) :=
  ⟨∅, by simp [HasPermit, initial], by simp [initial]⟩

theorem Permits.card_le {total : ℕ} (h : Permits total c) {s : Finset ι}
    (hs : ∀ i ∈ s, HasPermit c i) : s.card + c.available ≤ total := by
  obtain ⟨all, hall, hcard⟩ := h
  have hsub : s ⊆ all := fun i hi => (hall i).2 (hs i hi)
  have := Finset.card_le_card hsub
  omega

theorem hasPermit_congr {i : ι} (h : c'.ops i = c.ops i) : HasPermit c' i ↔ HasPermit c i := by
  unfold HasPermit
  rw [h]

/-- An event that only touches the operation `i`, and neither takes a permit nor gives one back. -/
theorem Permits.of_kept {total : ℕ} (h : Permits total c) {i : ι}
    (hops : ∀ j, j ≠ i → c'.ops j = c.ops j) (hi : HasPermit c' i ↔ HasPermit c i)
    (ha : c'.available = c.available) : Permits total c' := by
  obtain ⟨s, hs, hcard⟩ := h
  refine ⟨s, fun j => ?_, ha ▸ hcard⟩
  by_cases hji : j = i
  · rw [hji, hs, hi]
  · rw [hs, hasPermit_congr (hops j hji)]

variable [DecidableEq ι]

/-- The operation `i` takes a permit. -/
theorem Permits.of_taken {total : ℕ} (h : Permits total c) {i : ι}
    (hops : ∀ j, j ≠ i → c'.ops j = c.ops j) (hbefore : ¬ HasPermit c i) (hafter : HasPermit c' i)
    (ha : c'.available + 1 = c.available) : Permits total c' := by
  obtain ⟨s, hs, hcard⟩ := h
  refine ⟨insert i s, fun j => ?_, ?_⟩
  · by_cases hji : j = i
    · simp [hji, hafter]
    · rw [Finset.mem_insert, hs, hasPermit_congr (hops j hji), or_iff_right hji]
  · rw [Finset.card_insert_of_notMem (by rw [hs]; exact hbefore)]
    omega

/-- The operation `i` gives its permit back. -/
theorem Permits.of_returned {total : ℕ} (h : Permits total c) {i : ι}
    (hops : ∀ j, j ≠ i → c'.ops j = c.ops j) (hbefore : HasPermit c i) (hafter : ¬ HasPermit c' i)
    (ha : c'.available = c.available + 1) : Permits total c' := by
  obtain ⟨s, hs, hcard⟩ := h
  refine ⟨s.erase i, fun j => ?_, ?_⟩
  · by_cases hji : j = i
    · simp [hji, hafter]
    · rw [Finset.mem_erase, hs, hasPermit_congr (hops j hji), and_iff_right hji]
  · have hmem := (hs i).2 hbefore
    have := Finset.card_erase_add_one hmem
    omega

theorem Permits.step {total : ℕ} (h : Permits total c) (hstep : step lib opt c e = some c') :
    Permits total c' := by
  have running : ∀ {i : ι} {op : Op}, c.ops i = some (.running op) →
      (HasPermit c i ↔ op.stage.hasPermit = true) := by
    intro i op hi
    simp [HasPermit, hi]
  cases Step.of_step hstep with
  | @submitError i _ _ _ hi =>
    exact h.of_kept (i := i) (by simp +contextual) (by simp [HasPermit, hi]) rfl
  | @submit i _ _ _ hi hp =>
    refine h.of_kept (i := i) (by simp +contextual) ?_ rfl
    simp [HasPermit, hi, hp.stage, Stage.hasPermit]
  | @take i _ hi =>
    exact h.of_kept (i := i) (by simp +contextual) (by simp [HasPermit, hi]) rfl
  | @acquireFull i op hi hs =>
    refine h.of_kept (i := i) (by simp +contextual) ?_ rfl
    simp [HasPermit, hi, hs, Stage.hasPermit]
  | @acquire i op hi hs ha =>
    refine h.of_taken (i := i) (by simp +contextual) ?_ (by simp [HasPermit, Stage.hasPermit]) ?_
    · rw [running hi, hs]
      simp [Stage.hasPermit]
    · show c.available - 1 + 1 = c.available
      omega
  | @enter i op hi hs | @start i op hi hs | @answer i op _ _ hi hs | @check i op _ hi hs =>
    refine h.of_kept (i := i) (by simp +contextual) ?_ rfl
    rw [running hi, hs]
    simp [HasPermit, Stage.hasPermit]
  | @cancel i op hi =>
    refine h.of_kept (i := i) (by simp +contextual) ?_ rfl
    rw [running hi]
    simp [HasPermit]
  | @enterRefused i op _ hi hs | @answerError i op _ _ hi hs | @checkFailed i op _ _ hi hs
  | @finishError i op _ _ _ hi hs | @finishKeep i op _ _ _ hi hs
  | @finishInstall i op _ _ _ _ hi hs =>
    refine h.of_returned (i := i) (by simp +contextual) ?_ (by simp [HasPermit]) rfl
    rw [running hi, hs]
    rfl
  | @abort i op _ hi hs | @drop i op hi hs =>
    refine h.of_returned (i := i) (by simp +contextual) ?_ (by simp [HasPermit]) rfl
    rw [running hi]
    revert hs
    cases op.stage <;> simp [Stage.awaits, Stage.hasPermit]
  | importRefused | replaceRefused => exact h
  | imported | replaced | advance => exact h

theorem permits_of_run {total : ℕ} (hrun : Run (step lib opt) c ts c') (h : Permits total c) :
    Permits total c' :=
  hrun.invariant (fun _ _ _ h hstep => h.step hstep) h

/-! ### The next start instant -/

/-- The next start instant does not move back, and only the start of a call moves it. -/
theorem next_of_step (hstep : step lib opt c e = some c') :
    c'.next = c.next ∨ ∃ i, e = .start i ∧ c.next ≤ c.now ∧
      c'.next = c.now + opt.minimumInterval := by
  cases Step.of_step hstep with
  | @start i _ _ _ ht => exact .inr ⟨i, rfl, ht, rfl⟩
  | _ => exact .inl rfl

theorem next_le_of_run (hrun : Run (step lib opt) c ts c') : c.next ≤ c'.next := by
  refine hrun.preorder (R := fun c c' => c.next ≤ c'.next) (fun _ => le_rfl)
    (fun _ _ _ => le_trans) fun m e m' hstep => ?_
  rcases next_of_step hstep with h | ⟨-, -, hle, h⟩ <;> omega

/-- A call starts at the next start instant or later, and moves it on by the minimum interval. -/
theorem next_of_start {i : ι} (hstep : step lib opt c (.start i) = some c') :
    c.next ≤ c.now ∧ c'.next = c.now + opt.minimumInterval ∧
      ∃ op, c.ops i = some (.running op) := by
  cases Step.of_step hstep with
  | start hi _ ht => exact ⟨ht, rfl, _, hi⟩

/-! ### Operations that are over -/

/-- An operation that is not under way does not come back without being submitted. -/
theorem not_running_of_run {i : ι} (hrun : Run (step lib opt) c ts c')
    (hi : ∀ op, c.ops i ≠ some (.running op))
    (hno : ∀ t ∈ ts, ∀ request id, t.event ≠ .submit i request id) :
    ∀ op, c'.ops i ≠ some (.running op) := by
  induction hrun with
  | nil => exact hi
  | snoc hrun hstep ih =>
    intro op hop
    rcases (Step.of_step hstep).running hop with ⟨op', hop', -⟩ | ⟨request, id, he, -⟩
    · exact ih (fun t ht => hno t (List.mem_append_left _ ht)) op' hop'
    · exact hno _ (List.mem_append_right _ (List.mem_singleton_self _)) request id he

/-- An operation that is given up while it waits: the start instant and the sessions stay as they
are, and the slot is free if the operation held it. -/
theorem given_up {i : ι} (he : (∃ kind, e = .abort i kind) ∨ e = .drop i)
    (hstep : step lib opt c e = some c') :
    c'.next = c.next ∧ c'.serial = (if c.serial = some i then none else c.serial) ∧
      c'.arena = c.arena ∧ c'.current = c.current ∧ ∀ op, c'.ops i ≠ some (.running op) := by
  rcases he with ⟨kind, rfl⟩ | rfl
  · cases Step.of_step hstep with
    | abort => exact ⟨rfl, rfl, rfl, rfl, by simp⟩
  · cases Step.of_step hstep with
    | drop => exact ⟨rfl, rfl, rfl, rfl, by simp⟩

/-- **Calls are serial and paced, and admission is bounded.**  In every run of a client: at most one
transport call is awaited; two calls start at least the minimum interval apart, whatever became of
the first; at most `queue_capacity + 1` operations are admitted, and a further one only gets
`QueueFull`; and an operation that is given up before its call starts never starts it, leaves the
next start instant as it is and frees the slot. -/
theorem calls_serial_paced {config : SessionConfig} {provider : Option StaticCredentials}
    {transport : Transport} {now : ℕ} {start : Client ι}
    (hstart : withTransport lib opt config provider transport now = .ok start)
    (hrun : Run (step lib opt) start ts c) :
    (∀ i j op op' b b', c.ops i = some (.running op) → op.stage = .calling b →
      c.ops j = some (.running op') → op'.stage = .calling b' → i = j) ∧
    (∀ (before between after : List (Transition (Client ι) (Event ι)))
      (s t : Transition (Client ι) (Event ι)) (i j : ι),
      ts = before ++ s :: between ++ t :: after → s.event = .start i → t.event = .start j →
        s.before.now + opt.minimumInterval ≤ t.before.now) ∧
    (∀ admitted : Finset ι, (∀ i ∈ admitted, HasPermit c i) →
      admitted.card ≤ opt.queueCapacity + 1) ∧
    (∀ t ∈ ts, ∀ i, t.event = .acquire i → (∃ admitted : Finset ι,
      (∀ j ∈ admitted, HasPermit t.before j) ∧ admitted.card = opt.queueCapacity + 1) →
        t.after = t.before.setOp i (.done (.error (.new .queueFull)))) ∧
    (∀ (before after : List (Transition (Client ι) (Event ι)))
      (t : Transition (Client ι) (Event ι)) (i : ι) (op : Op), ts = before ++ t :: after →
      ((∃ kind, t.event = .abort i kind) ∨ t.event = .drop i) →
      t.before.ops i = some (.running op) → op.stage.waiting = true →
        t.after.next = t.before.next ∧ t.after.arena = t.before.arena ∧
        t.after.serial = (if t.before.serial = some i then none else t.before.serial) ∧
        ∀ mid s rest, after = mid ++ s :: rest → s.event = .start i →
          ∃ r ∈ mid, ∃ request id, r.event = .submit i request id) := by
  obtain ⟨session, -, rfl⟩ := withTransport_ok hstart
  have hslot := slotInv_of_run hrun (slotInv_initial session now)
  have hpermits : Permits (opt.queueCapacity + 1) (initial opt session now : Client ι) :=
    permits_initial session now
  refine ⟨fun i j op op' b b' hi hs hj hs' => ?_, ?_, fun admitted hadmitted => ?_, ?_, ?_⟩
  · exact hslot.unique hi (by rw [hs]; rfl) hj (by rw [hs']; rfl)
  · rintro before between after s t i j rfl hs ht
    obtain ⟨hhead, hstep', -⟩ := hrun.around
    obtain ⟨-, hstep, hbetween⟩ := hhead.around
    rw [hs] at hstep
    rw [ht] at hstep'
    calc s.before.now + opt.minimumInterval = s.after.next := (next_of_start hstep).2.1.symm
      _ ≤ t.before.next := next_le_of_run hbetween
      _ ≤ t.before.now := (next_of_start hstep').1
  · have := (permits_of_run hrun hpermits).card_le hadmitted
    omega
  · rintro t ht i he ⟨admitted, hadmitted, hcard⟩
    obtain ⟨before, after, rfl⟩ := List.append_of_mem ht
    obtain ⟨hbefore, hstep, -⟩ := hrun.around
    have hle := (permits_of_run hbefore hpermits).card_le hadmitted
    obtain ⟨d, f, d'⟩ := t
    dsimp only at *
    subst he
    cases Step.of_step hstep with
    | acquireFull => rfl
    | acquire _ _ ha => omega
  · rintro before after t i op rfl he hi hs
    obtain ⟨-, hstep, hafter⟩ := hrun.around
    obtain ⟨hnext, hserial, harena, -, hover⟩ := given_up he hstep
    refine ⟨hnext, harena, hserial, ?_⟩
    rintro mid s rest rfl hstart
    by_contra hno
    obtain ⟨hmid, hsstep, -⟩ := hafter.around
    have hover' := not_running_of_run hmid hover fun r hr request id hsubmit =>
      hno ⟨r, hr, request, id, hsubmit⟩
    rw [hstart] at hsstep
    obtain ⟨-, -, op', hi'⟩ := next_of_start hsstep
    exact hover' op' hi'

section Sample

/-- The operation `i` of the sample, until it may start its call. -/
def waitEvents (i : ℕ) : List (Event ℕ) :=
  [.submit i (.execute 0 ⟨.profile, [], true⟩) "request", .acquire i, .enter i]

def waitingClient : Client ℕ := (exec sampleStep sampleClient (waitEvents 0)).get (by decide +kernel)

def firstCall : Transition (Client ℕ) (Event ℕ) :=
  transitionOf sampleStep waitingClient (.start 0) (by decide +kernel)

/-- The first call times out, and another operation waits for its start instant. -/
def timeoutEvents : List (Event ℕ) := [.abort 0 .timeout, .advance 1] ++ waitEvents 1

def timeoutClient : Client ℕ :=
  (exec sampleStep firstCall.after timeoutEvents).get (by decide +kernel)

def secondCall : Transition (Client ℕ) (Event ℕ) :=
  transitionOf sampleStep timeoutClient (.start 1) (by decide +kernel)

theorem calls_serial_paced_timeout : firstCall.before.now + 1 ≤ secondCall.before.now := by
  have hstart : withTransport sampleLibraries sampleOptions sampleConfig (some sampleProvider)
      sampleTransport 0 = .ok sampleClient := rfl
  have h₁ : Run sampleStep sampleClient _ waitingClient := run_get (waitEvents 0) (by decide +kernel)
  have h₂ : Run sampleStep firstCall.after _ timeoutClient :=
    run_get timeoutEvents (by decide +kernel)
  have hrun : Run sampleStep sampleClient (transitions sampleStep sampleClient (waitEvents 0) ++
      firstCall :: transitions sampleStep firstCall.after timeoutEvents ++ secondCall :: [])
      secondCall.after := (h₁.append (run_transitionOf h₂)).append (run_transitionOf .nil)
  exact (calls_serial_paced hstart hrun).2.1 _ _ _ firstCall secondCall 0 1 rfl rfl rfl

end Sample

end Client

end MoenotesApi
