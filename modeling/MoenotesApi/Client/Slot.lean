import MoenotesApi.Client.Step
import MoenotesApi.Library.Run
import Mathlib.Tactic

/-!
# The serial slot

One operation at a time holds the serial slot, from the block check to the end of its closure.  A
block is recorded only by the holder, so the check that a call has passed still holds when the call
begins and until its answer arrives.

* `Installs`, `Step.sessions`: what an event does to the sessions of the client;
* `SlotInv`, `slotInv_of_run`: the invariant of the slot, in every state that a run reaches.
-/

namespace MoenotesApi.Client

open Runs

variable {ι : Type} [DecidableEq ι] {lib : Libraries} {opt : ClientOptions} {c c' : Client ι}
variable {e : Event ι}

/-! ### Sessions -/

/-- The ways in which an event installs the session `new`. -/
inductive Installs (lib : Libraries) (c : Client ι) : Event ι → Session → Prop
  | finish {i op response files outcome new} (hi : c.ops i = some (.running op))
      (hs : op.stage = .checked response)
      (hf : Concludes lib c op response files outcome (some new)) :
      Installs lib c (.finish i files) new
  | imported {provider new}
      (hn : makeSession lib c.session.config (some provider) c.session.transport = .ok new) :
      Installs lib c (.importCredentials c.current provider) new
  | replaced {config provider transport new} (ht : grpcTransport lib config = .ok transport)
      (hn : makeSession lib config provider transport = .ok new) :
      Installs lib c (.replaceSession config provider) new

/-- What an event does to the sessions: nothing, an answer processed in the session of its
operation, or an installation. -/
inductive SessionEffect (lib : Libraries) (c : Client ι) (e : Event ι) (c' : Client ι) : Prop
  | unchanged (he : ∀ i result, e ≠ .answer i result) (hc : c'.current = c.current)
      (ha : c'.arena = c.arena)
  | rejected {i op overrideSent error} (he : e = .answer i (.error error))
      (hi : c.ops i = some (.running op)) (hs : op.stage = .calling overrideSent)
      (hc : c'.current = c.current)
      (ha : c'.arena = Function.update c.arena op.generation
        (record (c.arena op.generation) op.method error))
  | answered {i op overrideSent response} (he : e = .answer i (.ok response))
      (hi : c.ops i = some (.running op)) (hs : op.stage = .calling overrideSent)
      (hc : c'.current = c.current)
      (ha : c'.arena = Function.update c.arena op.generation
        (clearOverride (c.arena op.generation) overrideSent))
  | installed {new} (how : Installs lib c e new) (hc : c'.current = c.current + 1)
      (ha : c'.arena = (c.install new).arena)

theorem Step.sessions (h : Step lib opt c e c') : SessionEffect lib c e c' := by
  cases h with
  | answerError hi hs => exact .rejected rfl hi hs rfl rfl
  | answer hi hs => exact .answered rfl hi hs rfl rfl
  | finishInstall hi hs hf => exact .installed (.finish hi hs hf) rfl rfl
  | imported hg hn => subst hg; exact .installed (.imported hn) rfl rfl
  | replaced ht hn => exact .installed (.replaced ht hn) rfl rfl
  | _ => exact .unchanged (by simp) rfl rfl

theorem current_le_of_step (h : step lib opt c e = some c') : c.current ≤ c'.current := by
  cases (Step.of_step h).sessions with
  | installed _ hc _ => omega
  | unchanged _ hc _ => omega
  | rejected _ _ _ hc _ => omega
  | answered _ _ _ hc _ => omega

theorem current_le_of_run {ts : List (Transition (Client ι) (Event ι))}
    (h : Run (step lib opt) c ts c') : c.current ≤ c'.current :=
  h.preorder (R := fun c c' => c.current ≤ c'.current) (fun _ => le_rfl)
    (fun _ _ _ => le_trans) fun _ _ _ => current_le_of_step

/-- Time does not run back. -/
theorem now_le_of_step (h : step lib opt c e = some c') : c.now ≤ c'.now := by
  cases Step.of_step h with
  | advance => exact Nat.le_add_right _ _
  | _ => exact le_rfl

theorem record_identity (s : Session) (method : Method) (error : ClientError) :
    (record s method error).config = s.config ∧
      (record s method error).credentials = s.credentials := by
  unfold record
  split_ifs <;> exact ⟨rfl, rfl⟩

theorem clearOverride_identity (s : Session) (b : Bool) :
    (clearOverride s b).config = s.config ∧ (clearOverride s b).credentials = s.credentials := by
  cases b <;> exact ⟨rfl, rfl⟩

/-- A session keeps its configuration and its credentials for ever. -/
theorem identity_of_step (h : step lib opt c e = some c') {g : ℕ} (hg : g ≤ c.current) :
    (c'.arena g).config = (c.arena g).config ∧
      (c'.arena g).credentials = (c.arena g).credentials := by
  cases (Step.of_step h).sessions with
  | unchanged _ hc ha => rw [ha]; exact ⟨rfl, rfl⟩
  | @rejected _ op _ _ _ _ _ _ ha =>
    rw [ha]
    by_cases hgo : g = op.generation
    · subst hgo
      simpa using record_identity _ _ _
    · simp [hgo]
  | @answered _ op _ _ _ _ _ _ ha =>
    rw [ha]
    by_cases hgo : g = op.generation
    · subst hgo
      simpa using clearOverride_identity _ _
    · simp [hgo]
  | @installed new _ _ ha =>
    rw [ha]
    rcases install_arena_of_le c new hg with hi | hi <;> rw [hi] <;> exact ⟨rfl, rfl⟩

omit [DecidableEq ι] in
/-- The current session stays the current one unless another is installed. -/
theorem session_update {g : ℕ} {s : Session} (hc : c'.current = c.current)
    (ha : c'.arena = Function.update c.arena g s) :
    c'.session = if g = c.current then s else c.session := by
  unfold session
  rw [hc, ha]
  by_cases hg : g = c.current
  · subst hg
    simp
  · simp [hg, Ne.symm hg]

/-! ### The holder of the slot -/

/-- The invariant of the serial slot. -/
structure SlotInv (c : Client ι) : Prop where
  captured : ∀ i op, c.ops i = some (.running op) → op.generation ≤ c.current
  holder : ∀ i op, c.ops i = some (.running op) → op.stage.holdsSlot → c.serial = some i
  passed : ∀ i op, c.ops i = some (.running op) → op.stage.admitted →
    gate (c.arena op.generation) op.method = none

omit [DecidableEq ι] in
theorem slotInv_initial (session : Session) (now : ℕ) :
    SlotInv (initial opt session now : Client ι) :=
  ⟨by simp [initial], by simp [initial], by simp [initial]⟩

omit [DecidableEq ι] in
/-- An installation lets no call of an older session through that was kept out before. -/
theorem gate_install {g : ℕ} (hg : g ≤ c.current) (new : Session) (method : Method) :
    gate ((c.install new).arena g) method = gate (c.arena g) method := by
  rcases install_arena_of_le c new hg with h | h <;> rw [h]
  rfl

omit [DecidableEq ι] in
/-- An event that only touches the operation `i` keeps the invariant of the others. -/
theorem SlotInv.of_frame (h : SlotInv c) {i : ι} (hcur : c.current ≤ c'.current)
    (hops : ∀ j, j ≠ i → c'.ops j = c.ops j)
    (hserial : ∀ j, j ≠ i → c.serial = some j → c'.serial = some j)
    (hgate : ∀ j op, j ≠ i → c.ops j = some (.running op) → op.stage.admitted →
      gate (c'.arena op.generation) op.method = gate (c.arena op.generation) op.method)
    (hi : ∀ op, c'.ops i = some (.running op) → op.generation ≤ c'.current ∧
      (op.stage.holdsSlot → c'.serial = some i) ∧
      (op.stage.admitted → gate (c'.arena op.generation) op.method = none)) : SlotInv c' where
  captured j op hj := by
    by_cases hji : j = i
    · subst hji; exact (hi op hj).1
    · rw [hops j hji] at hj; exact (h.captured j op hj).trans hcur
  holder j op hj hs := by
    by_cases hji : j = i
    · subst hji; exact (hi op hj).2.1 hs
    · rw [hops j hji] at hj; exact hserial j hji (h.holder j op hj hs)
  passed j op hj hs := by
    by_cases hji : j = i
    · subst hji; exact (hi op hj).2.2 hs
    · rw [hops j hji] at hj
      rw [hgate j op hji hj hs]
      exact h.passed j op hj hs

theorem Stage.holdsSlot_of_admitted {stage : Stage} (h : stage.admitted = true) :
    stage.holdsSlot = true := by
  cases stage <;> first | rfl | cases h

omit [DecidableEq ι] in
theorem SlotInv.install (h : SlotInv c) (new : Session) : SlotInv (c.install new) where
  captured i op hi := (h.captured i op hi).trans (by simp)
  holder := h.holder
  passed i op hi hs := by
    rw [gate_install (h.captured i op hi)]
    exact h.passed i op hi hs

omit [DecidableEq ι] in
/-- Two operations that have passed the block check are the same one. -/
theorem SlotInv.unique (h : SlotInv c) {i j : ι} {op op' : Op}
    (hi : c.ops i = some (.running op)) (hs : op.stage.holdsSlot = true)
    (hj : c.ops j = some (.running op')) (hs' : op'.stage.holdsSlot = true) : i = j := by
  have h1 := h.holder i op hi hs
  have h2 := h.holder j op' hj hs'
  rw [h1] at h2
  exact Option.some.inj h2

theorem SlotInv.step (h : SlotInv c) (hstep : step lib opt c e = some c') : SlotInv c' := by
  cases Step.of_step hstep with
  | @submitError i =>
    exact h.of_frame (i := i) le_rfl (by simp +contextual) (by simp) (by simp) (by simp)
  | @submit i _ _ op _ hp =>
    refine h.of_frame (i := i) le_rfl (by simp +contextual) (by simp) (by simp) ?_
    simp [hp.generation, hp.stage, Stage.holdsSlot, Stage.admitted]
  | @acquireFull i =>
    exact h.of_frame (i := i) le_rfl (by simp +contextual) (by simp) (by simp) (by simp)
  | @acquire i op hi _ _ =>
    refine h.of_frame (i := i) le_rfl (by simp +contextual) (by simp) (by simp) ?_
    simpa [Stage.holdsSlot, Stage.admitted] using h.captured i op hi
  | @enterRefused i _ _ _ _ hserial =>
    exact h.of_frame (i := i) le_rfl (by simp +contextual) (by simp [hserial]) (by simp) (by simp)
  | @enter i op hi _ hserial hg =>
    refine h.of_frame (i := i) le_rfl (by simp +contextual) (by simp [hserial]) (by simp) ?_
    simpa [hg] using h.captured i op hi
  | @start i op hi hs _ =>
    refine h.of_frame (i := i) le_rfl (by simp +contextual) (by simp) (by simp) ?_
    have hh := h.holder i op hi (by rw [hs]; rfl)
    have hp := h.passed i op hi (by rw [hs]; rfl)
    simpa [hh, hp] using h.captured i op hi
  | @answerError i op _ _ hi hs =>
    have hh := h.holder i op hi (by rw [hs]; rfl)
    refine h.of_frame (i := i) le_rfl (by simp +contextual)
      (fun j hji hj => absurd (Option.some.inj (hj.symm.trans hh)) hji)
      (fun j op' hji hj hs' => ?_) (by simp)
    -- another admitted operation would hold the slot as well
    exact absurd (h.unique hj (Stage.holdsSlot_of_admitted hs') hi (by rw [hs]; rfl)) hji
  | @answer i op _ _ hi hs =>
    have hh := h.holder i op hi (by rw [hs]; rfl)
    refine h.of_frame (i := i) le_rfl (by simp +contextual) (by simp)
      (fun j op' hji hj hs' => ?_) ?_
    · exact absurd (h.unique hj (Stage.holdsSlot_of_admitted hs') hi (by rw [hs]; rfl)) hji
    · simpa [hh, Stage.admitted] using h.captured i op hi
  | @checkFailed i =>
    refine h.of_frame (i := i) le_rfl (by simp +contextual) (fun j hji hj => ?_) (by simp) (by simp)
    simp [hj, hji]
  | @check i op _ hi hs _ =>
    refine h.of_frame (i := i) le_rfl (by simp +contextual) (by simp) (by simp) ?_
    have hh := h.holder i op hi (by rw [hs]; rfl)
    simpa [hh, Stage.admitted] using h.captured i op hi
  | @finishError i =>
    refine h.of_frame (i := i) le_rfl (by simp +contextual) (fun j hji hj => ?_) (by simp) (by simp)
    simp [hj, hji]
  | @finishKeep i =>
    refine h.of_frame (i := i) le_rfl (by simp +contextual) (fun j hji hj => ?_) (by simp) (by simp)
    simp [hj, hji]
  | @finishInstall i =>
    refine h.of_frame (i := i) (by simp) (by simp +contextual) (fun j hji hj => ?_)
      (fun j op' _ hj _ => gate_install (h.captured j op' hj) _ _) (by simp)
    simp [hj, hji]
  | @abort i =>
    refine h.of_frame (i := i) le_rfl (by simp +contextual) (fun j hji hj => ?_) (by simp) (by simp)
    simp [hj, hji]
  | @drop i =>
    refine h.of_frame (i := i) le_rfl (by simp +contextual) (fun j hji hj => ?_) (by simp) (by simp)
    simp [hj, hji]
  | @cancel i op hi =>
    refine h.of_frame (i := i) le_rfl (by simp +contextual) (by simp) (by simp) ?_
    simpa using ⟨h.captured i op hi, h.holder i op hi, h.passed i op hi⟩
  | @take i _ hi =>
    exact h.of_frame (i := i) le_rfl (by simp +contextual) (by simp) (by simp) (by simp)
  | imported | replaced => exact h.install _
  | importRefused | replaceRefused => exact h
  | advance => exact ⟨h.captured, h.holder, h.passed⟩

/-- **The invariant of the slot holds in every state that a run reaches.** -/
theorem slotInv_of_run {ts : List (Transition (Client ι) (Event ι))}
    (hrun : Run (step lib opt) c ts c') (h : SlotInv c) : SlotInv c' :=
  hrun.invariant (fun _ _ _ h hs => h.step hs) h

/-- A call that starts is one that the block of its session lets through. -/
theorem gate_of_start (h : SlotInv c) {i : ι} {op : Op}
    (hstep : step lib opt c (.start i) = some c') (hi : c.ops i = some (.running op)) :
    gate (c.arena op.generation) op.method = none := by
  cases Step.of_step hstep with
  | start hi' hs _ =>
    rw [hi] at hi'
    cases hi'
    exact h.passed i op hi (by rw [hs]; rfl)

end MoenotesApi.Client
