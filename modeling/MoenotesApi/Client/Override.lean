import MoenotesApi.Client.Headers
import MoenotesApi.Client.Install

/-!
# The one-shot override header

The session that a JP registration installs owes one `x-override-device-id`: its next protected call
that succeeds overrides the device.  A version update passes the debt on to its new session.

* `Registers`, `Updates`, `Lineage`: a registered session and its successors by version update;
* `Succeeds`: the successful result of a protected call is processed;
* `Owed`: a session has a registered ancestor, and no call of that lineage has succeeded yet;
* `Timely`: no protected call starts in a session whose flag a version update has copied;
* `OverrideInv`: the flag of a session that no version update has replaced says whether it owes the
  header;
* `override_owed`: a call carries the header exactly when it is owed, in every run that is `Timely`;
* `override_copied`: a run that is not, in which a call carries the header of a debt already paid.

An operation polls the token of its session (`select!` with `biased`) before it polls the work, but
not between the serial slot and the call: a version update may come in between.
-/

namespace MoenotesApi.Client

open Runs

variable {ι : Type} {lib : Libraries} {opt : ClientOptions} {c c' : Client ι} {e : Event ι}
variable {ts us : List (Transition (Client ι) (Event ι))}

/-! ### Lineages of a registration -/

/-- A registration installs the session `g`. -/
def Registers (t : Transition (Client ι) (Event ι)) (g : ℕ) : Prop :=
  Installed t ∧ t.after.current = g ∧ ∃ i files op, t.event = .finish i files ∧
    t.before.ops i = some (.running op) ∧ op.call = .register

/-- A version update replaces the session `a` by the session `b`. -/
def Updates (t : Transition (Client ι) (Event ι)) (a b : ℕ) : Prop :=
  Installed t ∧ t.before.current = a ∧ t.after.current = b ∧ ∃ i files op presented,
    t.event = .finish i files ∧ t.before.ops i = some (.running op) ∧
      op.call = .version presented

/-- `b` is `a` or was obtained from it by version updates only. -/
def Lineage (ts : List (Transition (Client ι) (Event ι))) : ℕ → ℕ → Prop := Descends Updates ts

/-- A protected call in the session `g` has succeeded, and its result is processed. -/
def Succeeds (t : Transition (Client ι) (Event ι)) (g : ℕ) : Prop :=
  ∃ i response op, t.event = .answer i (.ok response) ∧ t.before.ops i = some (.running op) ∧
    op.method.anonymous = false ∧ op.generation = g

/-- The session `g` descends from a registered one, and no protected call of that lineage has
succeeded. -/
def Owed (ts : List (Transition (Client ι) (Event ι))) (g : ℕ) : Prop :=
  ∃ root, (∃ r ∈ ts, Registers r root) ∧ Lineage ts root g ∧
    ∀ t ∈ ts, ∀ h, Succeeds t h → ¬ Lineage ts root h

/-- A version update has replaced the session `g`. -/
def Outdated (ts : List (Transition (Client ι) (Event ι))) (g : ℕ) : Prop :=
  ∃ t ∈ ts, ∃ b, Updates t g b

/-- No protected call starts in a session that a version update has replaced, while the flag of that
session is still set. -/
def Timely (ts : List (Transition (Client ι) (Event ι))) : Prop :=
  ∀ (before after : List (Transition (Client ι) (Event ι))) (t : Transition (Client ι) (Event ι))
    (i : ι) (op : Op), ts = before ++ t :: after → t.event = .start i →
    t.before.ops i = some (.running op) → op.method.anonymous = false →
    (t.before.arena op.generation).jpOverridePending = true → ¬ Outdated before op.generation

theorem Timely.left (h : Timely (ts ++ us)) : Timely ts := by
  rintro before after t i op rfl
  exact h before (after ++ us) t i op (by simp)

theorem Outdated.mono {g : ℕ} (h : Outdated ts g) : Outdated (ts ++ us) g := by
  obtain ⟨t, ht, hu⟩ := h
  exact ⟨t, List.mem_append_left _ ht, hu⟩

variable [DecidableEq ι]

theorem after_le_of_mem (hrun : Run (step lib opt) c ts c')
    {t : Transition (Client ι) (Event ι)} (ht : t ∈ ts) : t.after.current ≤ c'.current := by
  obtain ⟨x, y, rfl⟩ := List.append_of_mem ht
  exact current_le_of_run hrun.around.2.2

theorem installed_succ {t : Transition (Client ι) (Event ι)}
    (hstep : step lib opt t.before t.event = some t.after) (h : Installed t) :
    t.after.current = t.before.current + 1 :=
  (install_cases hstep h).2

theorem updates_succ (hrun : Run (step lib opt) c ts c') :
    ∀ t ∈ ts, ∀ a b, Updates t a b → b = a + 1 := by
  rintro t ht a b ⟨hnew, rfl, rfl, -⟩
  exact installed_succ (hrun.step_of_mem ht) hnew

/-- A session is installed once. -/
theorem installed_unique (hrun : Run (step lib opt) c ts c')
    {s t : Transition (Client ι) (Event ι)} (hs : s ∈ ts) (ht : t ∈ ts) (hsnew : Installed s)
    (htnew : Installed t) (heq : s.after.current = t.after.current) : s = t := by
  obtain ⟨x, y, rfl⟩ := List.append_of_mem hs
  obtain ⟨hx, hstep, hy⟩ := hrun.around
  have hsucc := installed_succ hstep hsnew
  have htsucc := installed_succ (hrun.step_of_mem ht) htnew
  rcases List.mem_append.1 ht with ht | ht
  · have := after_le_of_mem hx ht
    omega
  · rcases List.mem_cons.1 ht with rfl | ht
    · rfl
    · obtain ⟨x', y', rfl⟩ := List.append_of_mem ht
      have := current_le_of_run hy.around.1
      omega

theorem Outdated.lt (hrun : Run (step lib opt) c ts c') {g : ℕ} (h : Outdated ts g) :
    g < c'.current := by
  obtain ⟨t, ht, b, hu⟩ := h
  have hnext := updates_succ hrun t ht g b hu
  have hafter := after_le_of_mem hrun ht
  have hb := hu.2.2.1
  omega

/-- A session is not installed both by a registration and by a version update. -/
theorem not_registers_of_updates (hrun : Run (step lib opt) c ts c')
    {r t : Transition (Client ι) (Event ι)} (hr : r ∈ ts) (ht : t ∈ ts) {a b : ℕ}
    (hup : Updates t a b) : ¬ Registers r b := by
  intro hreg
  obtain rfl := installed_unique hrun hr ht hreg.1 hup.1 (hreg.2.1.trans hup.2.2.1.symm)
  obtain ⟨-, -, i, files, op, he, hi, hcall⟩ := hreg
  obtain ⟨-, -, -, j, files', op', presented, he', hi', hcall'⟩ := hup
  rw [he] at he'
  cases he'
  rw [hi] at hi'
  cases hi'
  rw [hcall] at hcall'
  cases hcall'

omit [DecidableEq ι] in
/-- A protected call that succeeds belongs to a session that has been installed. -/
theorem Succeeds.le {t : Transition (Client ι) (Event ι)} {g : ℕ} (h : Succeeds t g)
    (hs : SlotInv t.before) : g ≤ t.before.current := by
  obtain ⟨i, response, op, -, hi, -, rfl⟩ := h
  exact hs.captured i op hi

theorem succeeds_le_of_run (hrun : Run (step lib opt) c ts c') (hs : SlotInv c)
    {t : Transition (Client ι) (Event ι)} (ht : t ∈ ts) {g : ℕ} (h : Succeeds t g) :
    g ≤ c'.current := by
  obtain ⟨x, y, rfl⟩ := List.append_of_mem ht
  obtain ⟨hx, hstep, hy⟩ := hrun.around
  calc
    g ≤ t.before.current := h.le (slotInv_of_run hx hs)
    _ ≤ t.after.current := current_le_of_step hstep
    _ ≤ c'.current := current_le_of_run hy

/-- A session that neither a registration nor a version update has installed owes nothing. -/
theorem not_owed_of_install (hrun : Run (step lib opt) c ts c')
    {s : Transition (Client ι) (Event ι)} (hmem : s ∈ ts) (hnew : Installed s)
    (hreg : ∀ g, ¬ Registers s g) (hup : ∀ a b, ¬ Updates s a b) : ¬ Owed ts s.after.current := by
  rintro ⟨root, ⟨r, hr, hroot⟩, hline, -⟩
  have hnext := installed_succ (hrun.step_of_mem hmem) hnew
  rw [hnext] at hline
  rcases (hline.le (updates_succ hrun)).lt_or_eq with hlt | heq
  · obtain ⟨-, t, ht, hu⟩ := hline.pred (updates_succ hrun) (Nat.lt_succ_iff.1 hlt)
    obtain rfl := installed_unique hrun ht hmem hu.1 hnew (hu.2.2.1.trans hnext.symm)
    exact hup _ _ hu
  · obtain rfl := installed_unique hrun hr hmem hroot.1 hnew (by rw [hroot.2.1, heq, hnext])
    exact hreg _ hroot

/-! ### The debt after one more event -/

section Snoc

variable {d : Client ι} (hrun : Run (step lib opt) c ts d) (hstep : step lib opt d e = some c')

include hrun hstep

/-- The lineages of the sessions that were there before an event. -/
theorem lineage_snoc {a g : ℕ} (h : Lineage (ts ++ [⟨d, e, c'⟩]) a g) (hg : g ≤ d.current) :
    Lineage ts a g := by
  induction h with
  | refl => exact .refl
  | @tail x y _ hlink ih =>
    obtain ⟨t, ht, hu⟩ := hlink
    have hsucc := updates_succ (hrun.snoc hstep) t ht x y hu
    rcases List.mem_append.1 ht with ht | ht
    · exact (ih (by omega)).tail ⟨t, ht, hu⟩
    · obtain rfl := List.mem_singleton.1 ht
      have hnext := installed_succ hstep hu.1
      have hy := hu.2.2.1
      simp only at hnext hy
      omega

omit hrun in
/-- A registration that happened before an event. -/
theorem registers_snoc {g : ℕ} (h : ∃ r ∈ ts ++ [⟨d, e, c'⟩], Registers r g)
    (hg : g ≤ d.current) : ∃ r ∈ ts, Registers r g := by
  obtain ⟨r, hr, hreg⟩ := h
  rcases List.mem_append.1 hr with hr | hr
  · exact ⟨r, hr, hreg⟩
  · obtain rfl := List.mem_singleton.1 hr
    have hnext := installed_succ hstep hreg.1
    have hy := hreg.2.1
    simp only at hnext hy
    omega

/-- A success before an event concerns no lineage that the event has extended. -/
theorem succeeds_snoc (hs : SlotInv c) {root : ℕ}
    (h : ∀ t ∈ ts, ∀ g, Succeeds t g → ¬ Lineage ts root g) :
    ∀ t ∈ ts, ∀ g, Succeeds t g → ¬ Lineage (ts ++ [⟨d, e, c'⟩]) root g := by
  intro t ht g hsucc hline
  exact h t ht g hsucc (lineage_snoc hrun hstep hline (succeeds_le_of_run hrun hs ht hsucc))

/-- What an older session owes after an event it owed before. -/
theorem owed_of_snoc {g : ℕ} (hg : g ≤ d.current) (h : Owed (ts ++ [⟨d, e, c'⟩]) g) : Owed ts g := by
  have hmono : ∀ {a b}, Lineage ts a b → Lineage (ts ++ [⟨d, e, c'⟩]) a b :=
    fun h => h.mono fun t => List.mem_append_left _
  obtain ⟨root, hroot, hline, hsucc⟩ := h
  have hle := hline.le (updates_succ (hrun.snoc hstep))
  exact ⟨root, registers_snoc hstep hroot (hle.trans hg), lineage_snoc hrun hstep hline hg,
    fun t ht h hs hl => hsucc t (List.mem_append_left _ ht) h hs (hmono hl)⟩

/-- An older session still owes the header after an event, unless a call has just succeeded in a
session that owed it too. -/
theorem owed_snoc (hs : SlotInv c) {g : ℕ} (h : Owed ts g)
    (hno : ∀ root k, Succeeds ⟨d, e, c'⟩ k → Owed ts k → Lineage ts root g → ¬ Lineage ts root k) :
    Owed (ts ++ [⟨d, e, c'⟩]) g := by
  obtain ⟨root, ⟨r, hr, hreg⟩, hline, hsucc⟩ := h
  have hmono : ∀ {a b}, Lineage ts a b → Lineage (ts ++ [⟨d, e, c'⟩]) a b :=
    fun h => h.mono fun t => List.mem_append_left _
  refine ⟨root, ⟨r, List.mem_append_left _ hr, hreg⟩, hmono hline, fun t ht k hs' hk => ?_⟩
  rcases List.mem_append.1 ht with ht | ht
  · exact succeeds_snoc hrun hstep hs hsucc t ht k hs' hk
  · obtain rfl := List.mem_singleton.1 ht
    have hk' := lineage_snoc hrun hstep hk (hs'.le (slotInv_of_run hrun hs))
    exact hno root k hs' ⟨root, ⟨r, hr, hreg⟩, hk', hsucc⟩ hline hk'

/-- A session that a registration has just installed owes the header. -/
theorem owed_of_registers (hs : SlotInv c) (hreg : Registers ⟨d, e, c'⟩ c'.current) :
    Owed (ts ++ [⟨d, e, c'⟩]) c'.current := by
  refine ⟨c'.current, ⟨_, List.mem_append_right _ (List.mem_singleton_self _), hreg⟩, .refl,
    fun t ht h hsucc hline => ?_⟩
  have hnext : c'.current = d.current + 1 := installed_succ hstep hreg.1
  have hle := hline.le (updates_succ (hrun.snoc hstep))
  rcases List.mem_append.1 ht with ht | ht
  · have := succeeds_le_of_run hrun hs ht hsucc
    omega
  · obtain rfl := List.mem_singleton.1 ht
    obtain ⟨-, -, i, files, op, he, -⟩ := hreg
    obtain ⟨j, response, op', he', -⟩ := hsucc
    simp only at he he'
    rw [he] at he'
    cases he'

/-- A version update passes the debt on. -/
theorem owed_of_updates (hs : SlotInv c) (hup : Updates ⟨d, e, c'⟩ d.current c'.current) :
    Owed (ts ++ [⟨d, e, c'⟩]) c'.current ↔ Owed ts d.current := by
  have hrun' := hrun.snoc hstep
  have hnext : c'.current = d.current + 1 := installed_succ hstep hup.1
  have hmem : (⟨d, e, c'⟩ : Transition (Client ι) (Event ι)) ∈ ts ++ [⟨d, e, c'⟩] :=
    List.mem_append_right _ (List.mem_singleton_self _)
  have hanswer : ∀ k, ¬ Succeeds (⟨d, e, c'⟩ : Transition (Client ι) (Event ι)) k := by
    rintro k ⟨j, response, op', he', -⟩
    obtain ⟨-, -, -, i, files, op, presented, he, -⟩ := hup
    simp only at he he'
    rw [he] at he'
    cases he'
  constructor
  · rintro ⟨root, ⟨r, hr, hroot⟩, hline, hsucc⟩
    refine owed_of_snoc hrun hstep le_rfl ⟨root, ⟨r, hr, hroot⟩, ?_, hsucc⟩
    rw [hnext] at hline
    rcases (hline.le (updates_succ hrun')).lt_or_eq with hlt | heq
    · exact (hline.pred (updates_succ hrun') (Nat.lt_succ_iff.1 hlt)).1
    · rw [heq, ← hnext] at hroot
      exact absurd hroot (not_registers_of_updates hrun' hr hmem hup)
  · intro h
    obtain ⟨root, hroot, hline, hsucc⟩ := owed_snoc hrun hstep hs h fun _ k hk => absurd hk (hanswer k)
    exact ⟨root, hroot, hline.tail ⟨_, hmem, hup⟩, hsucc⟩

end Snoc

/-! ### The flag -/

/-- An event clears the flag of a session only as the successful result of a protected call that
carried the header. -/
theorem pending_of_step (h : step lib opt c e = some c') {g : ℕ} (hg : g ≤ c.current) :
    (c'.arena g).jpOverridePending = (c.arena g).jpOverridePending ∨
      (c'.arena g).jpOverridePending = false ∧ ∃ i response op, e = .answer i (.ok response) ∧
        c.ops i = some (.running op) ∧ op.stage = .calling true ∧ op.generation = g := by
  cases (Step.of_step h).sessions with
  | unchanged _ _ ha => exact .inl (by rw [ha])
  | @rejected _ op _ _ _ _ _ _ ha =>
    left
    rw [ha]
    by_cases hgo : g = op.generation
    · subst hgo
      rw [Function.update_self]
      unfold record
      split_ifs <;> rfl
    · rw [Function.update_of_ne hgo]
  | @answered i op overrideSent response he hi hs _ ha =>
    rw [ha]
    by_cases hgo : g = op.generation
    · subst hgo
      rw [Function.update_self]
      cases overrideSent with
      | false => exact .inl rfl
      | true => exact .inr ⟨rfl, i, response, op, he, hi, hs, rfl⟩
    · exact .inl (by rw [Function.update_of_ne hgo])
  | @installed new _ _ ha =>
    left
    rw [ha]
    rcases install_arena_of_le c new hg with hi | hi <;> rw [hi]

/-- An operation that awaits its answer has just called, or awaited it before. -/
theorem Step.calling (h : Step lib opt c e c') {i : ι} {op : Op} {b : Bool}
    (hi : c'.ops i = some (.running op)) (hs : op.stage = .calling b) :
    (∃ op₀, e = .start i ∧ c.ops i = some (.running op₀) ∧ c'.current = c.current ∧
      c'.arena = c.arena ∧ op = called (c.arena op₀.generation) op₀) ∨
    (∃ op₀, c.ops i = some (.running op₀) ∧ op₀.stage = .calling b ∧
      op₀.generation = op.generation ∧ op₀.method = op.method) ∧
      ∀ response, e ≠ .answer i response := by
  cases h with
  | @submit j request requestId op₀ hj hp =>
    by_cases hij : i = j
    · subst hij
      obtain rfl : op₀ = op := by simpa using hi
      rw [hp.stage] at hs
      cases hs
    · exact .inr ⟨⟨op, by simpa [hij] using hi, hs, rfl, rfl⟩, by simp⟩
  | imported | replaced | importRefused | replaceRefused | advance =>
    exact .inr ⟨⟨op, hi, hs, rfl, rfl⟩, by simp⟩
  | @acquire j | @enter j | @check j =>
    by_cases hij : i = j
    · subst hij
      obtain rfl : _ = op := by simpa using hi
      cases hs
    · exact .inr ⟨⟨op, by simpa [hij] using hi, hs, rfl, rfl⟩, by simp⟩
  | @answer j =>
    by_cases hij : i = j
    · subst hij
      obtain rfl : _ = op := by simpa using hi
      cases hs
    · refine .inr ⟨⟨op, by simpa [hij] using hi, hs, rfl, rfl⟩, fun response he => ?_⟩
      cases he
      exact hij rfl
  | @cancel j op₀ hj =>
    by_cases hij : i = j
    · subst hij
      obtain rfl : _ = op := by simpa using hi
      exact .inr ⟨⟨op₀, hj, hs, rfl, rfl⟩, by simp⟩
    · exact .inr ⟨⟨op, by simpa [hij] using hi, hs, rfl, rfl⟩, by simp⟩
  | @start j op₀ hj =>
    by_cases hij : i = j
    · subst hij
      obtain rfl : _ = op := by simpa using hi
      exact .inl ⟨op₀, rfl, hj, rfl, rfl, rfl⟩
    · exact .inr ⟨⟨op, by simpa [hij] using hi, hs, rfl, rfl⟩, by simp⟩
  | @answerError j =>
    have hij : i ≠ j := by
      rintro rfl
      simp at hi
    refine .inr ⟨⟨op, by simpa [hij] using hi, hs, rfl, rfl⟩, fun response he => ?_⟩
    cases he
    exact hij rfl
  | @submitError j | @take j | @acquireFull j | @enterRefused j | @checkFailed j
  | @finishError j | @finishKeep j | @finishInstall j | @abort j | @drop j =>
    have hij : i ≠ j := by
      rintro rfl
      simp at hi
    exact .inr ⟨⟨op, by simpa [hij] using hi, hs, rfl, rfl⟩, by simp⟩

/-- An operation that finishes holds the slot. -/
theorem holdsSlot_of_finish {i : ι} {files : RegisterFiles} {op : Op}
    (h : step lib opt c (.finish i files) = some c') (hi : c.ops i = some (.running op)) :
    op.stage.holdsSlot = true ∧ c'.running i = none := by
  cases Step.of_step h with
  | finishError hj hs | finishKeep hj hs | finishInstall hj hs =>
    rw [hi] at hj
    cases hj
    exact ⟨by rw [hs]; rfl, by simp [running]⟩

/-! ### The invariant -/

omit [DecidableEq ι] in
/-- The flag of a session that an event installs. -/
theorem pending_of_installs {new : Session} (how : Installs lib c e new) :
    (new.jpOverridePending = false ∧ (∀ i files op, e = .finish i files →
        c.ops i = some (.running op) → ∃ uid, op.call = .login uid)) ∨
      (∃ i files op, e = .finish i files ∧ c.ops i = some (.running op) ∧ op.call = .register ∧
        new.jpOverridePending = true ∧ new.config = c.session.config ∧
        c.current = op.generation) ∨
      ∃ i files op presented, e = .finish i files ∧ c.ops i = some (.running op) ∧
        op.call = .version presented ∧ new.jpOverridePending = c.session.jpOverridePending ∧
        new.config.region = c.session.config.region := by
  cases how with
  | @finish i op response files outcome new hi hs hf =>
    cases hf with
    | @login uid id credential isNewUser hcall =>
      refine .inl ⟨rfl, fun j files' op' he hj => ?_⟩
      cases he
      rw [hi] at hj
      cases hj
      exact ⟨uid, hcall⟩
    | register hcall _ hg => exact .inr (.inl ⟨i, files, op, rfl, hi, hcall, rfl, rfl, hg⟩)
    | @version presented master answered hcall =>
      exact .inr (.inr ⟨i, files, op, presented, rfl, hi, hcall, rfl, rfl⟩)
  | imported hn | replaced _ hn =>
    refine .inl ⟨by rw [makeSession_eq hn]; rfl, fun i files op he => ?_⟩
    cases he

/-- A session that owes the header has its flag set, and of those that no version update has replaced
no other session has; a call under way has read the flag of its session as it still is. -/
structure OverrideInv (ts : List (Transition (Client ι) (Event ι))) (c : Client ι) : Prop where
  region : ∀ g ≤ c.current, (c.arena g).jpOverridePending = true →
    (c.arena g).config.region = "jp"
  registering : ∀ i op, c.ops i = some (.running op) → op.call = .register →
    (c.arena op.generation).config.region = "jp"
  calling : ∀ i op b, c.ops i = some (.running op) → op.stage = .calling b →
    b = overrides (c.arena op.generation) op.method ∧ (b = true → ¬ Outdated ts op.generation)
  pending : ∀ g ≤ c.current, Owed ts g → (c.arena g).jpOverridePending = true
  owed : ∀ g ≤ c.current, ¬ Outdated ts g → (c.arena g).jpOverridePending = true → Owed ts g

section Step

variable {d : Client ι} (h : OverrideInv ts d) (hslot : SlotInv d)
variable (hstep : step lib opt d e = some c')

include h hslot hstep

/-- A registration under way has captured a session of the JP region. -/
theorem OverrideInv.registering_step {i : ι} {op : Op} (hi : c'.ops i = some (.running op))
    (hcall : op.call = .register) : (c'.arena op.generation).config.region = "jp" := by
  rcases (Step.of_step hstep).running hi with ⟨op₀, hop, hf⟩ | ⟨request, id, -, -, hp⟩
  · rw [hf.generation, (identity_of_step hstep (hslot.captured i op₀ hop)).1]
    exact h.registering i op₀ hop (hf.call ▸ hcall)
  · rw [hp.generation, (identity_of_step hstep le_rfl).1]
    cases hp with
    | register hr => exact hr
    | execute | selfData | preLogin | login | version => cases hcall

omit hslot in
theorem OverrideInv.region_step {g : ℕ} (hg : g ≤ c'.current)
    (hp : (c'.arena g).jpOverridePending = true) : (c'.arena g).config.region = "jp" := by
  rcases Nat.lt_or_ge d.current g with hlt | hle
  · cases (Step.of_step hstep).sessions with
    | unchanged _ hc | rejected _ _ _ hc | answered _ _ _ hc => omega
    | @installed new how hc ha =>
      obtain rfl : g = d.current + 1 := by omega
      have hnew : c'.arena (d.current + 1) = new := by rw [ha]; simp [install]
      rw [hnew] at hp ⊢
      rcases pending_of_installs how with ⟨hno, -⟩ | ⟨i, files, op, -, hi, hcall, -, hcfg, hgen⟩ |
        ⟨i, files, op, presented, -, -, -, hkeep, hreg⟩
      · rw [hno] at hp
        cases hp
      · rw [hcfg, session, hgen]
        exact h.registering i op hi hcall
      · rw [hreg]
        exact h.region d.current le_rfl (hkeep ▸ hp)
  · rw [(identity_of_step hstep hle).1]
    refine h.region g hle ?_
    rcases pending_of_step hstep hle with hk | ⟨hk, -⟩
    · rwa [← hk]
    · rw [hk] at hp
      cases hp

theorem OverrideInv.calling_step (htimely : Timely (ts ++ [⟨d, e, c'⟩])) {i : ι} {op : Op} {b : Bool}
    (hi : c'.ops i = some (.running op)) (hs : op.stage = .calling b) :
    b = overrides (c'.arena op.generation) op.method ∧
      (b = true → ¬ Outdated (ts ++ [⟨d, e, c'⟩]) op.generation) := by
  rcases (Step.of_step hstep).calling hi hs with
    ⟨op₀, he, hop, hcur, harena, rfl⟩ | ⟨⟨op₀, hop, hs₀, hgen, hmethod⟩, hanswer⟩
  · rw [called_stage] at hs
    cases hs
    refine ⟨by rw [harena]; rfl, fun hb => ?_⟩
    obtain ⟨⟨-, hanon⟩, hpending⟩ : ((d.arena op₀.generation).config.region = "jp" ∧
        op₀.method.anonymous = false) ∧ (d.arena op₀.generation).jpOverridePending = true := by
      simpa [overrides] using hb
    rintro ⟨t, ht, k, hu⟩
    rcases List.mem_append.1 ht with ht | ht
    · exact htimely ts [] ⟨d, e, c'⟩ i op₀ rfl he hop hanon hpending ⟨t, ht, k, hu⟩
    · obtain rfl := List.mem_singleton.1 ht
      exact hu.1 hcur
  · obtain ⟨hb, hline⟩ := h.calling i op₀ b hop hs₀
    have hholds : op₀.stage.holdsSlot = true := by rw [hs₀]; rfl
    have hle := hslot.captured i op₀ hop
    rw [← hgen, ← hmethod]
    refine ⟨?_, ?_⟩
    · -- only the holder of the slot could clear the flag
      rcases pending_of_step hstep hle with hk | ⟨-, j, response, op', he, hj, hs', -⟩
      · rw [hb, overrides, overrides, hk, (identity_of_step hstep hle).1]
      · obtain rfl := hslot.unique hj (by rw [hs']; rfl) hop hholds
        exact absurd he (hanswer _)
    · rintro hsent ⟨t, ht, k, hu⟩
      rcases List.mem_append.1 ht with ht | ht
      · exact hline hsent ⟨t, ht, k, hu⟩
      · -- a version update would have to hold the slot
        obtain rfl := List.mem_singleton.1 ht
        obtain ⟨-, -, -, j, files, op', presented, he, hj, -⟩ := hu
        simp only at he hj
        subst he
        obtain ⟨hj', hover⟩ := holdsSlot_of_finish hstep hj
        obtain rfl := hslot.unique hj hj' hop hholds
        rw [running_eq_some.2 hi] at hover
        cases hover

omit hslot in
/-- An event after which the older sessions have the flags they had, and no call succeeds. -/
theorem OverrideInv.owed_of_kept (hrun : Run (step lib opt) c ts d) (hs : SlotInv c)
    (hno : ∀ k, ¬ Succeeds ⟨d, e, c'⟩ k) {g : ℕ} (hg : g ≤ d.current)
    (hp : (c'.arena g).jpOverridePending = (d.arena g).jpOverridePending) :
    (Owed (ts ++ [⟨d, e, c'⟩]) g → (c'.arena g).jpOverridePending = true) ∧
      (¬ Outdated (ts ++ [⟨d, e, c'⟩]) g → (c'.arena g).jpOverridePending = true →
        Owed (ts ++ [⟨d, e, c'⟩]) g) := by
  rw [hp]
  refine ⟨fun howed => h.pending g hg (owed_of_snoc hrun hstep hg howed), fun hlast hpending => ?_⟩
  exact owed_snoc hrun hstep hs (h.owed g hg (fun hout => hlast hout.mono) hpending)
    fun _ k hk => absurd hk (hno k)

/-- The successful result of a protected call is processed. -/
theorem OverrideInv.owed_of_succeeds (hrun : Run (step lib opt) c ts d) (hs : SlotInv c) {i : ι}
    {op : Op} {b : Bool} {response : TransportResponse} (he : e = .answer i (.ok response))
    (hi : d.ops i = some (.running op)) (hcalling : op.stage = .calling b)
    (ha : op.method.anonymous = false)
    (harena : c'.arena = Function.update d.arena op.generation
      (clearOverride (d.arena op.generation) b)) {g : ℕ} (hg : g ≤ d.current) :
    (Owed (ts ++ [⟨d, e, c'⟩]) g → (c'.arena g).jpOverridePending = true) ∧
      (¬ Outdated (ts ++ [⟨d, e, c'⟩]) g → (c'.arena g).jpOverridePending = true →
        Owed (ts ++ [⟨d, e, c'⟩]) g) := by
  obtain ⟨hb, hline⟩ := h.calling i op b hi hcalling
  have hle := hslot.captured i op hi
  have hsucc : Succeeds ⟨d, e, c'⟩ op.generation := ⟨i, response, op, he, hi, ha, rfl⟩
  -- the call has carried the header if its session owes it
  have hsent (hk : Owed ts op.generation) : b = true := by
    have hp := h.pending _ hle hk
    rw [hb, overrides, h.region _ hle hp, ha, hp]
    rfl
  have hother (hne : g ≠ op.generation) : c'.arena g = d.arena g := by
    rw [harena, Function.update_of_ne hne]
  refine ⟨fun howed => ?_, fun hlast hpending => ?_⟩
  · have hne : g ≠ op.generation := by
      rintro rfl
      obtain ⟨root, -, hroot, hnone⟩ := howed
      exact hnone _ (List.mem_append_right _ (List.mem_singleton_self _)) _ hsucc hroot
    rw [hother hne]
    exact h.pending g hg (owed_of_snoc hrun hstep hg howed)
  · have hne (hk : Owed ts op.generation) : g ≠ op.generation := by
      rintro rfl
      rw [harena, Function.update_self, hsent hk] at hpending
      cases hpending
    have hbefore : (d.arena g).jpOverridePending = true := by
      by_cases hgo : g = op.generation
      · subst hgo
        rw [harena, Function.update_self] at hpending
        cases b with
        | true => cases hpending
        | false => exact hpending
      · rwa [← hother hgo]
    refine owed_snoc hrun hstep hs (h.owed g hg (fun hout => hlast hout.mono) hbefore) ?_
    rintro root k ⟨j, response', op', he', hj, -, rfl⟩ hk hroot hroot'
    simp only at he' hj
    rw [he] at he'
    cases he'
    rw [hi] at hj
    cases hj
    -- both sessions are of one lineage, and a version update has replaced the older of them
    rcases lt_or_gt_of_ne (hne hk) with hlt | hgt
    · obtain ⟨t, ht, hu⟩ := hroot'.exists_link (updates_succ hrun) (hroot.le (updates_succ hrun)) hlt
      exact hlast (Outdated.mono ⟨t, ht, _, hu⟩)
    · obtain ⟨t, ht, hu⟩ := hroot.exists_link (updates_succ hrun) (hroot'.le (updates_succ hrun)) hgt
      exact hline (hsent hk) ⟨t, ht, _, hu⟩

omit hslot in
/-- The session that an event has installed. -/
theorem OverrideInv.owed_of_installed (hrun : Run (step lib opt) c ts d) (hs : SlotInv c)
    {new : Session} (how : Installs lib d e new) (hc : c'.current = d.current + 1)
    (ha : c'.arena (d.current + 1) = new) :
    (Owed (ts ++ [⟨d, e, c'⟩]) c'.current ↔ (c'.arena c'.current).jpOverridePending = true) := by
  have hnew : Installed (⟨d, e, c'⟩ : Transition (Client ι) (Event ι)) := by
    show c'.current ≠ d.current
    omega
  rw [hc, ha, ← hc]
  rcases pending_of_installs how with ⟨hno, hlogin⟩ | ⟨i, files, op, he, hi, hcall, hp, -⟩ |
    ⟨i, files, op, presented, he, hi, hcall, hp, -⟩
  · rw [hno]
    refine iff_of_false (not_owed_of_install (hrun.snoc hstep)
      (List.mem_append_right _ (List.mem_singleton_self _)) hnew ?_ ?_) Bool.false_ne_true
    · rintro g ⟨-, -, i, files, op, he, hi, hcall⟩
      obtain ⟨uid, hcall'⟩ := hlogin i files op he hi
      rw [hcall] at hcall'
      cases hcall'
    · rintro a b ⟨-, -, -, i, files, op, presented, he, hi, hcall⟩
      obtain ⟨uid, hcall'⟩ := hlogin i files op he hi
      rw [hcall] at hcall'
      cases hcall'
  · rw [hp]
    exact iff_of_true (owed_of_registers hrun hstep hs ⟨hnew, rfl, i, files, op, he, hi, hcall⟩) rfl
  · rw [hp, owed_of_updates hrun hstep hs
      ⟨hnew, rfl, rfl, i, files, op, presented, he, hi, hcall⟩]
    -- the session that is replaced here was current, so it had not been replaced before
    exact ⟨h.pending _ le_rfl, h.owed _ le_rfl fun hout => Nat.lt_irrefl _ (hout.lt hrun)⟩

theorem OverrideInv.owed_step (hrun : Run (step lib opt) c ts d) (hs : SlotInv c) {g : ℕ}
    (hg : g ≤ c'.current) :
    (Owed (ts ++ [⟨d, e, c'⟩]) g → (c'.arena g).jpOverridePending = true) ∧
      (¬ Outdated (ts ++ [⟨d, e, c'⟩]) g → (c'.arena g).jpOverridePending = true →
        Owed (ts ++ [⟨d, e, c'⟩]) g) := by
  cases (Step.of_step hstep).sessions with
  | unchanged hno hc ha =>
    refine h.owed_of_kept hstep hrun hs ?_ (hc ▸ hg) (by rw [ha])
    rintro k ⟨i, response, op, he, -⟩
    exact absurd he (hno _ _)
  | @rejected i op b error he hi hcalling hc ha =>
    refine h.owed_of_kept hstep hrun hs ?_ (hc ▸ hg) ?_
    · rintro k ⟨i, response, op, he', -⟩
      simp only at he'
      rw [he] at he'
      cases he'
    · rw [ha]
      by_cases hgo : g = op.generation
      · subst hgo
        rw [Function.update_self, record]
        split_ifs <;> rfl
      · rw [Function.update_of_ne hgo]
  | @answered i op b response he hi hcalling hc ha =>
    cases hanon : op.method.anonymous with
    | false => exact h.owed_of_succeeds hslot hstep hrun hs he hi hcalling hanon ha (hc ▸ hg)
    | true =>
      have hb : b = false := by
        rw [(h.calling i op b hi hcalling).1]
        simp [overrides, hanon]
      refine h.owed_of_kept hstep hrun hs ?_ (hc ▸ hg) ?_
      · rintro k ⟨j, response', op', he', hi', hfalse, -⟩
        simp only at he' hi'
        rw [he] at he'
        cases he'
        rw [hi] at hi'
        cases hi'
        rw [hanon] at hfalse
        cases hfalse
      · rw [ha, hb]
        by_cases hgo : g = op.generation
        · subst hgo
          rw [Function.update_self]
          rfl
        · rw [Function.update_of_ne hgo]
  | @installed new how hc ha =>
    rcases Nat.lt_or_ge d.current g with hlt | hle
    · have hnew : c'.arena (d.current + 1) = new := by
        rw [ha]
        simp [install]
      obtain rfl : g = c'.current := by omega
      have hiff := h.owed_of_installed hstep hrun hs how hc hnew
      exact ⟨hiff.1, fun _ => hiff.2⟩
    · refine h.owed_of_kept hstep hrun hs ?_ hle ?_
      · rintro k ⟨i, response, op, he, -⟩
        simp only at he
        subst he
        cases how
      · rw [ha]
        rcases install_arena_of_le d new hle with hi | hi <;> rw [hi]

end Step

/-! ### Runs -/

omit [DecidableEq ι] in
theorem overrideInv_initial {config : SessionConfig} {provider : Option StaticCredentials}
    {transport : Transport} {session : Session} {now : ℕ}
    (hn : makeSession lib config provider transport = .ok session) :
    OverrideInv [] (initial opt session now : Client ι) := by
  have hpending : session.jpOverridePending = false := by
    rw [makeSession_eq hn]
    rfl
  have hclear (g : ℕ) : ((initial opt session now : Client ι).arena g).jpOverridePending ≠ true := by
    rw [show (initial opt session now : Client ι).arena g = session from rfl, hpending]
    exact Bool.false_ne_true
  refine ⟨fun g _ hp => absurd hp (hclear g), fun i op hi => ?_, fun i op b hi => ?_,
    fun g _ howed => ?_, fun g _ _ hp => absurd hp (hclear g)⟩
  · cases hi
  · cases hi
  · obtain ⟨root, ⟨r, hr, -⟩, -⟩ := howed
    cases hr

theorem overrideInv_of_run (hrun : Run (step lib opt) c ts c') (hs : SlotInv c)
    (h : OverrideInv [] c) (htimely : Timely ts) : OverrideInv ts c' := by
  induction hrun with
  | nil => exact h
  | @snoc ts d e d' hrun hstep ih =>
    have hd := ih htimely.left
    have hslot := slotInv_of_run hrun hs
    exact ⟨fun g => hd.region_step hstep, fun i op => hd.registering_step hslot hstep,
      fun i op b => hd.calling_step hslot hstep htimely,
      fun g hg => (hd.owed_step hslot hstep hrun hs hg).1,
      fun g hg => (hd.owed_step hslot hstep hrun hs hg).2⟩

/-- A call carries the header when the flag of its session is set. -/
theorem header_of_calls {t : Transition (Client ι) (Event ι)} {i : ι} {op' : Op}
    (hheaders : HeadersInv t.before) (hstep : step lib opt t.before t.event = some t.after)
    (h : Calls t i op') :
    op'.metadata.get "x-override-device-id" =
      if overrides (t.before.arena op'.generation) op'.method then some "1" else none := by
  obtain ⟨op, hi, hs, rfl, -⟩ := called_of_calls hstep h
  have hnone := (hheaders i op hi).uncalled (by rw [hs]; rfl)
  rw [called_generation, called_method]
  by_cases hb : overrides (t.before.arena op.generation) op.method = true
  · rw [if_pos hb, called, if_pos hb]
    exact Metadata.get_put _ _ _
  · rw [if_neg hb, called, if_neg hb]
    exact hnone

/-- The transition installs a session by import, replacement or login. -/
def SignsIn (t : Transition (Client ι) (Event ι)) : Prop :=
  Installed t ∧ ((∃ g provider, t.event = .importCredentials g provider) ∨
    (∃ config provider, t.event = .replaceSession config provider) ∨
    ∃ i files op uid, t.event = .finish i files ∧ t.before.ops i = some (.running op) ∧
      op.call = .login uid)

omit [DecidableEq ι] in
theorem SignsIn.call {t : Transition (Client ι) (Event ι)} (h : SignsIn t) {i : ι}
    {files : RegisterFiles} {op : Op} (he : t.event = .finish i files)
    (hi : t.before.ops i = some (.running op)) : ∃ uid, op.call = .login uid := by
  rcases h.2 with ⟨g, provider, he'⟩ | ⟨config, provider, he'⟩ |
    ⟨j, files', op', uid, he', hj, hcall⟩ <;> rw [he] at he' <;> cases he'
  rw [hi] at hj
  cases hj
  exact ⟨uid, hcall⟩

/-- A session that an import, a replacement or a login has installed never owes the header. -/
theorem not_owed_of_signsIn (hrun : Run (step lib opt) c ts c')
    {s : Transition (Client ι) (Event ι)} (hmem : s ∈ ts) (hs : SignsIn s) :
    ¬ Owed ts s.after.current := by
  refine not_owed_of_install hrun hmem hs.1 ?_ ?_
  · rintro g ⟨-, -, i, files, op, he, hi, hcall⟩
    obtain ⟨uid, hlogin⟩ := hs.call he hi
    rw [hcall] at hlogin
    cases hlogin
  · rintro a b ⟨-, -, -, i, files, op, presented, he, hi, hcall⟩
    obtain ⟨uid, hlogin⟩ := hs.call he hi
    rw [hcall] at hlogin
    cases hlogin

/-- **The one-shot override header.**  In every run of a client in which no protected call starts in a
session that a version update has replaced while its flag is still set: a call carries
`x-override-device-id` if and only if it is a protected call in the JP region, its session descends by
version updates from one that a registration has installed, and no protected call of that lineage has
succeeded before; only the processing of such a success clears the flag of a session, so a call that
fails, times out or is cancelled does not use it up; and no call of a session that an import, a
replacement or a login has installed carries the header. -/
theorem override_owed {config : SessionConfig} {provider : Option StaticCredentials}
    {transport : Transport} {now : ℕ} {start : Client ι}
    (hstart : withTransport lib opt config provider transport now = .ok start)
    (hrun : Run (step lib opt) start ts c) (htimely : Timely ts) :
    (∀ (before after : List (Transition (Client ι) (Event ι)))
      (t : Transition (Client ι) (Event ι)) (i : ι) (op : Op), ts = before ++ t :: after →
      Calls t i op →
        ((op.metadata.get "x-override-device-id").isSome = true ↔
          op.method.anonymous = false ∧
          (t.before.arena op.generation).config.region = "jp" ∧ Owed before op.generation)) ∧
    (∀ t ∈ ts, ∀ g ≤ t.before.current, (t.before.arena g).jpOverridePending = true →
      (t.after.arena g).jpOverridePending = false → Succeeds t g) ∧
    (∀ (before after : List (Transition (Client ι) (Event ι)))
      (s t : Transition (Client ι) (Event ι)) (i : ι) (op : Op), ts = before ++ t :: after →
      s ∈ before → SignsIn s → Calls t i op → op.generation = s.after.current →
        op.metadata.get "x-override-device-id" = none) := by
  obtain ⟨session, hn, rfl⟩ := withTransport_ok hstart
  have hslot : SlotInv (initial opt session now : Client ι) := slotInv_initial session now
  have hheaders : HeadersInv (initial opt session now : Client ι) :=
    headersInv_initial session now
  have hinv : OverrideInv [] (initial opt session now : Client ι) := overrideInv_initial hn
  have hcalls : ∀ (before after : List (Transition (Client ι) (Event ι)))
      (t : Transition (Client ι) (Event ι)) (i : ι) (op : Op), ts = before ++ t :: after →
      Calls t i op →
        ((op.metadata.get "x-override-device-id").isSome = true ↔
          op.method.anonymous = false ∧
          (t.before.arena op.generation).config.region = "jp" ∧ Owed before op.generation) := by
    rintro before after t i op rfl hcall
    obtain ⟨hbefore, hstep, -⟩ := hrun.around
    have hinv' := overrideInv_of_run hbefore hslot hinv htimely.left
    have hheaders' := headersInv_of_run hbefore hslot hheaders
    obtain ⟨op₀, hi, -, hop, -⟩ := called_of_calls hstep hcall
    have hle₀ := (slotInv_of_run hbefore hslot).captured i op₀ hi
    have hle : op.generation ≤ t.before.current := by rwa [hop]
    have howed (hanon : op.method.anonymous = false)
        (hp : (t.before.arena op.generation).jpOverridePending = true) : Owed before op.generation := by
      refine hinv'.owed _ hle ?_ hp
      rw [hop] at hanon hp ⊢
      exact htimely before after t i op₀ rfl hcall.1 hi hanon hp
    rw [header_of_calls hheaders' hstep hcall]
    constructor
    · intro hsent
      obtain ⟨⟨hjp, hanon⟩, hp⟩ : ((t.before.arena op.generation).config.region = "jp" ∧
          op.method.anonymous = false) ∧
          (t.before.arena op.generation).jpOverridePending = true := by
        by_contra hno
        rw [if_neg (by simpa [overrides] using hno)] at hsent
        cases hsent
      exact ⟨hanon, hjp, howed hanon hp⟩
    · rintro ⟨hanon, hjp, hdebt⟩
      rw [if_pos (by simp [overrides, hanon, hjp, hinv'.pending _ hle hdebt])]
      rfl
  refine ⟨hcalls, fun t ht g hg hp hp' => ?_, fun before after s t i op hts hs hsign hcall hg => ?_⟩
  · obtain ⟨before, after, rfl⟩ := List.append_of_mem ht
    obtain ⟨hbefore, hstep, -⟩ := hrun.around
    have hinv' := overrideInv_of_run hbefore hslot hinv htimely.left
    rcases pending_of_step hstep hg with hk | ⟨-, i, response, op, he, hi, hcalling, hgen⟩
    · rw [hk, hp] at hp'
      cases hp'
    · have hover := (hinv'.calling i op true hi hcalling).1
      have hprotected : op.method.anonymous = false := by
        cases ha : op.method.anonymous with
        | false => rfl
        | true => simp [overrides, ha] at hover
      exact ⟨i, response, op, he, hi, hprotected, hgen⟩
  · rw [← Option.not_isSome_iff_eq_none, hcalls before after t i op hts hcall]
    rintro ⟨-, -, howed⟩
    subst hts
    rw [hg] at howed
    exact not_owed_of_signsIn hrun.around.1 hs hsign howed

/-! ### Sample runs -/

/-- The call that starts, if there is one, belongs to the current session. -/
def startsCurrent (t : Transition (Client ι) (Event ι)) : Bool :=
  match t.event with
  | .start i =>
    match t.before.running i with
    | some op => op.generation = t.before.current
    | none => true
  | _ => true

theorem timely_of_check (hrun : Run (step lib opt) c ts c') (h : ts.all startsCurrent = true) :
    Timely ts := by
  rintro before after t i op rfl he hi - - hout
  have hcur := List.all_eq_true.1 h t (List.mem_append_right _ List.mem_cons_self)
  simp only [startsCurrent, he, running_eq_some.2 hi, decide_eq_true_eq] at hcur
  exact (hout.lt hrun.around.1).ne hcur

/-- A session whose predecessor in the lineage has had a call that succeeded owes nothing, whenever
that call was made. -/
theorem not_owed_of_updates (hrun : Run (step lib opt) c ts c')
    {t u : Transition (Client ι) (Event ι)} {a b : ℕ} (ht : t ∈ ts) (hsucc : Succeeds t a)
    (hu : u ∈ ts) (hup : Updates u a b) : ¬ Owed ts b := by
  rintro ⟨root, ⟨r, hr, hroot⟩, hline, hnone⟩
  obtain rfl := updates_succ hrun u hu a b hup
  rcases (hline.le (updates_succ hrun)).lt_or_eq with hlt | rfl
  · exact hnone t ht a hsucc (hline.pred (updates_succ hrun) (Nat.lt_succ_iff.1 hlt)).1
  · exact not_registers_of_updates hrun hr hu hup hroot

section Sample

def jpConfig : SessionConfig := { sampleConfig with region := "jp" }

def jpTransport : Transport := ⟨"https://game.example", "jp"⟩

/-- A JP client without credentials. -/
def jpClient : Client ℕ := initial sampleOptions (.fresh jpConfig none jpTransport) 0

/-- A registration, and a version update up to its closure. -/
def updateEvents : List (Event ℕ) :=
  callEvents 0 (.register 0 true) ++
    [.answer 0 (.ok ⟨.register "player" "token" "device", none⟩), .check 0, .finish 0 ⟨true, true⟩,
      .advance 1] ++
    callEvents 1 (.version 1 none) ++
    [.answer 1 (.ok ⟨.version "1.0/0123456789abcdef0123456789abcdef" "", none⟩), .check 1]

/-- The version update is over, and an operation waits for its start instant. -/
def registrationEvents : List (Event ℕ) :=
  updateEvents ++ [.finish 1 ⟨true, true⟩, .advance 1,
    .submit 2 (.execute 2 ⟨.profile, [], true⟩) "request", .acquire 2, .enter 2]

def registeredClient : Client ℕ :=
  (exec sampleStep jpClient registrationEvents).get (by decide +kernel)

def firstProtectedCall : Transition (Client ℕ) (Event ℕ) :=
  transitionOf sampleStep registeredClient (.start 2) (by decide +kernel)

def firstProtectedOp : Op := (firstProtectedCall.after.running 2).get (by decide +kernel)

theorem override_owed_registration :
    Owed (transitions sampleStep jpClient registrationEvents) 2 := by
  have hstart : withTransport sampleLibraries sampleOptions jpConfig none jpTransport 0 =
      .ok jpClient := rfl
  have h₁ : Run sampleStep jpClient _ registeredClient :=
    run_get registrationEvents (by decide +kernel)
  have hrun : Run sampleStep jpClient
      (transitions sampleStep jpClient registrationEvents ++ [firstProtectedCall])
      firstProtectedCall.after := h₁.append (run_transitionOf .nil)
  have htimely : Timely (transitions sampleStep jpClient registrationEvents ++
      [firstProtectedCall]) := timely_of_check hrun (by decide +kernel)
  have hcall : Calls firstProtectedCall 2 firstProtectedOp :=
    ⟨rfl, running_eq_some.1 (Option.some_get _).symm⟩
  have hheader : (firstProtectedOp.metadata.get "x-override-device-id").isSome = true := by
    decide +kernel
  have hgen : firstProtectedOp.generation = 2 := by decide +kernel
  have howed := ((override_owed hstart hrun htimely).1 _ [] firstProtectedCall 2 _ rfl hcall).1
    hheader
  rw [← hgen]
  exact howed.2.2

/-- A query that has passed the token check before the version update installs its session. -/
def polledEvents : List (Event ℕ) :=
  updateEvents ++ [.advance 1, .submit 2 (.execute 1 ⟨.profile, [], true⟩) "request", .acquire 2]

def polledClient : Client ℕ := (exec sampleStep jpClient polledEvents).get (by decide +kernel)

def copyingUpdate : Transition (Client ℕ) (Event ℕ) :=
  transitionOf sampleStep polledClient (.finish 1 ⟨true, true⟩) (by decide +kernel)

def lateClient : Client ℕ :=
  (exec sampleStep copyingUpdate.after [.enter 2, .start 2]).get (by decide +kernel)

def lateSuccess : Transition (Client ℕ) (Event ℕ) :=
  transitionOf sampleStep lateClient (.answer 2 (.ok ⟨.plain "profile" [], none⟩)) (by decide +kernel)

/-- The query is refused after its answer, and another one is made in the new session. -/
def nextEvents : List (Event ℕ) :=
  [.check 2, .advance 1, .submit 3 (.execute 2 ⟨.profile, [], true⟩) "request", .acquire 3, .enter 3]

def nextClient : Client ℕ := (exec sampleStep lateSuccess.after nextEvents).get (by decide +kernel)

def copiedCall : Transition (Client ℕ) (Event ℕ) :=
  transitionOf sampleStep nextClient (.start 3) (by decide +kernel)

def copiedOp : Op := (copiedCall.after.running 3).get (by decide +kernel)

/-- The run up to the call of the new session. -/
def copiedRun : List (Transition (Client ℕ) (Event ℕ)) :=
  transitions sampleStep jpClient polledEvents ++ copyingUpdate ::
    (transitions sampleStep copyingUpdate.after [.enter 2, .start 2] ++ lateSuccess ::
      transitions sampleStep lateSuccess.after nextEvents)

theorem run_copied : Run sampleStep jpClient copiedRun nextClient :=
  (run_get polledEvents _).append <| run_transitionOf <|
    (run_get [.enter 2, .start 2] _).append <| run_transitionOf <| run_get nextEvents _

/-- Two calls of one lineage carry the header, and the first of them has succeeded before the second
one starts. -/
theorem override_copied :
    withTransport sampleLibraries sampleOptions jpConfig none jpTransport 0 = .ok jpClient ∧
      Run sampleStep jpClient (copiedRun ++ [copiedCall]) copiedCall.after ∧
      Calls copiedCall 3 copiedOp ∧
      (copiedOp.metadata.get "x-override-device-id").isSome = true ∧
      ¬ Owed copiedRun copiedOp.generation := by
  have hup : Updates copyingUpdate 1 2 := by
    refine ⟨by show _ ≠ _; decide +kernel, by decide +kernel, by decide +kernel, 1, ⟨true, true⟩, ?_⟩
    obtain ⟨op, hop⟩ := Option.isSome_iff_exists.1
      (show (copyingUpdate.before.running 1).isSome = true by decide +kernel)
    have hcall : (copyingUpdate.before.running 1).map Op.call =
        some (.version { jpConfig with clientVersion := "1.0.0" }) := by decide +kernel
    rw [hop] at hcall
    exact ⟨op, _, rfl, running_eq_some.1 hop, Option.some.inj hcall⟩
  have hsucc : Succeeds lateSuccess 1 := by
    obtain ⟨op, hop⟩ := Option.isSome_iff_exists.1
      (show (lateSuccess.before.running 2).isSome = true by decide +kernel)
    have hcall : (lateSuccess.before.running 2).map (fun op => (op.method.anonymous, op.generation)) =
        some (false, 1) := by decide +kernel
    rw [hop] at hcall
    exact ⟨2, _, op, rfl, running_eq_some.1 hop, congrArg Prod.fst (Option.some.inj hcall),
      congrArg Prod.snd (Option.some.inj hcall)⟩
  have hgen : copiedOp.generation = 2 := by decide +kernel
  refine ⟨rfl, run_copied.append (run_transitionOf .nil),
    ⟨rfl, running_eq_some.1 (Option.some_get _).symm⟩, by decide +kernel, ?_⟩
  rw [hgen]
  exact not_owed_of_updates run_copied (by simp [copiedRun]) hsucc (by simp [copiedRun]) hup

end Sample

end MoenotesApi.Client
