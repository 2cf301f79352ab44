import Mathlib.Logic.Function.Basic
import Mathlib.Tactic.SplitIfs

/-!
# Writing files atomically

A directory and the usual way to write a file of it in one piece: write a temporary file, flush it,
and move it to its name.  Either the name must be free, or a file of that name is replaced.

* `Directory`, `Entry`: names and what stands under them; an `isHidden` name begins with a dot;
* `Job`, `Writing`, `Action`, `Job.step`: the system calls of one write, each of which can fail;
* `Job.Holds`: what the temporary file holds so far;
* `Job.step_spec`: before the move nothing but temporary files changes, and the move brings the
  whole content;
* `Job.step_keeps`: a write that replaces nothing keeps every file that is there;
* `Job.step_names`: the names that a write brings.
-/

namespace Files

universe u

/-- What stands under a name: a regular file, readable by others or not, or something else. -/
inductive Entry (κ : Type u)
  | file (isPrivate : Bool) (content : κ)
  | other

/-- A directory whose files have contents in `κ`. -/
structure Directory (κ : Type u) where
  isPrivate : Bool
  entries : String → Option (Entry κ)

variable {κ α : Type u}

/-- Hidden names are those of temporary files. -/
def isHidden (name : String) : Bool := name.toList.head? = some '.'

namespace Directory

/-- The directory with `entry` under `name`. -/
def set (d : Directory κ) (name : String) (entry : Option (Entry κ)) :
    Directory κ :=
  { d with entries := Function.update d.entries name entry }

/-- `rename`: what stands under `source` stands under `target` instead. -/
def rename (d : Directory κ) (source target : String) : Directory κ :=
  (d.set source none).set target (d.entries source)

@[simp] theorem set_isPrivate (d : Directory κ) (name : String)
    (entry : Option (Entry κ)) : (d.set name entry).isPrivate = d.isPrivate := rfl

@[simp] theorem rename_isPrivate (d : Directory κ) (source target : String) :
    (d.rename source target).isPrivate = d.isPrivate := rfl

@[simp] theorem set_self (d : Directory κ) (name : String)
    (entry : Option (Entry κ)) : (d.set name entry).entries name = entry := by
  simp [set]

theorem set_of_ne (d : Directory κ) {name other : String}
    (entry : Option (Entry κ)) (h : other ≠ name) :
    (d.set name entry).entries other = d.entries other := by
  simp [set, h]

@[simp] theorem set_set (d : Directory κ) (name : String) (a b : Option (Entry κ)) :
    (d.set name a).set name b = d.set name b := by
  simp [set]

/-- A temporary file that did not exist before leaves no trace when it is moved. -/
theorem rename_set (d : Directory κ) {source : String} (target : String) (entry : Option (Entry κ))
    (h : d.entries source = none) : (d.set source entry).rename source target = d.set target entry := by
  simp [rename, set, ← h]

@[simp] theorem rename_target (d : Directory κ) (source target : String) :
    (d.rename source target).entries target = d.entries source := by
  simp [rename]

theorem rename_of_ne (d : Directory κ) {source target other : String}
    (hs : other ≠ source) (ht : other ≠ target) :
    (d.rename source target).entries other = d.entries other := by
  rw [rename, set_of_ne _ _ ht, set_of_ne _ _ hs]

/-- The two directories agree on all names that are not hidden. -/
def Agrees (d d' : Directory κ) : Prop :=
  ∀ name, isHidden name = false → d'.entries name = d.entries name

theorem Agrees.refl (d : Directory κ) : d.Agrees d := fun _ _ => rfl

theorem agrees_set (d : Directory κ) {temp : String} (entry : Option (Entry κ))
    (h : isHidden temp = true) : d.Agrees (d.set temp entry) := by
  intro name hname
  apply set_of_ne
  rintro rfl
  rw [h] at hname
  cases hname

end Directory

/-- A file to write; `replace` says whether an existing file gives way. -/
structure Job (α : Type u) where
  target : String
  content : List α
  replace : Bool

/-- How far a write has come: no temporary file yet, one that holds `written`, one that is flushed
to the disk. -/
inductive Writing (α : Type u)
  | unopened
  | opened (temp : String) (written : List α)
  | synced (temp : String)

/-- The system calls of a write.  `discard` stands for each that fails: the temporary file is removed
then. -/
inductive Action (α : Type u)
  | create (temp : String)
  | write (part : List α)
  | sync
  | move
  | discard

/-- What a system call leads to. -/
inductive Progress (α : Type u)
  | writing (w : Writing α)
  | moved
  | failed

/-- The temporary file of a write. -/
def Writing.temp : Writing α → Option String
  | .unopened => none
  | .opened temp _ | .synced temp => some temp

/-- The directory without the temporary file of a write. -/
def Writing.clear (d : Directory (List α)) : Writing α → Directory (List α)
  | .unopened => d
  | .opened temp _ | .synced temp => d.set temp none

namespace Job

variable [DecidableEq α]

/-- One system call of a write: the directory afterwards, and how far the write has come. -/
def step (job : Job α) (d : Directory (List α)) :
    Writing α → Action α → Option (Directory (List α) × Progress α)
  | .unopened, .create temp =>
    if isHidden temp ∧ (d.entries temp).isNone then
      some (d.set temp (some (.file true [])), .writing (.opened temp []))
    else none
  | .opened temp written, .write part =>
    if written ++ part <+: job.content then
      some (d.set temp (some (.file true (written ++ part))), .writing (.opened temp (written ++ part)))
    else none
  | .opened temp written, .sync =>
    if written = job.content then some (d, .writing (.synced temp)) else none
  | .synced temp, .move =>
    if job.replace ∨ (d.entries job.target).isNone then some (d.rename temp job.target, .moved)
    else some (d.set temp none, .failed)
  | w, .discard => some (w.clear d, .failed)
  | _, _ => none

omit [DecidableEq α] in
/-- The temporary file of a write holds what has been written so far. -/
def Holds (job : Job α) (d : Directory (List α)) : Writing α → Prop
  | .unopened => True
  | .opened temp written => isHidden temp ∧ d.entries temp = some (.file true written)
  | .synced temp => isHidden temp ∧ d.entries temp = some (.file true job.content)

omit [DecidableEq α] in
theorem agrees_clear {job : Job α} {d : Directory (List α)} {w : Writing α} (h : job.Holds d w) :
    d.Agrees (w.clear d) := by
  cases w with
  | unopened => exact .refl d
  | opened temp written => exact d.agrees_set none h.1
  | synced temp => exact d.agrees_set none h.1

/-- What one system call does: the temporary file keeps up with the write, nothing else changes
before the move, and the move puts the whole content under the name. -/
inductive Effect (job : Job α) (d d' : Directory (List α)) : Progress α → Prop
  | writing {w : Writing α} (holds : job.Holds d' w) (agrees : d.Agrees d') :
      Effect job d d' (.writing w)
  | failed (agrees : d.Agrees d') : Effect job d d' .failed
  | moved (content : d'.entries job.target = some (.file true job.content))
      (free : job.replace = false → d.entries job.target = none)
      (others : ∀ name, isHidden name = false → name ≠ job.target →
        d'.entries name = d.entries name) :
      Effect job d d' .moved

theorem step_spec {job : Job α} {d d' : Directory (List α)} {w : Writing α} {a : Action α}
    {p : Progress α} (hw : job.Holds d w) (h : job.step d w a = some (d', p)) :
    job.Effect d d' p := by
  have hdiscard : ∀ w : Writing α, job.Holds d w → (w.clear d, Progress.failed) = (d', p) →
      job.Effect d d' p := by
    rintro w hw ⟨⟩
    exact .failed (agrees_clear hw)
  cases w with
  | unopened =>
    cases a with
    | create temp =>
      simp only [step, Option.ite_none_right_eq_some, Option.some.injEq, Prod.mk.injEq] at h
      obtain ⟨⟨htemp, -⟩, rfl, rfl⟩ := h
      exact .writing ⟨htemp, by simp⟩ (d.agrees_set _ htemp)
    | discard => exact hdiscard _ hw (Option.some.inj h)
    | _ => cases h
  | opened temp written =>
    cases a with
    | write part =>
      simp only [step, Option.ite_none_right_eq_some, Option.some.injEq, Prod.mk.injEq] at h
      obtain ⟨-, rfl, rfl⟩ := h
      exact .writing ⟨hw.1, by simp⟩ (d.agrees_set _ hw.1)
    | sync =>
      simp only [step, Option.ite_none_right_eq_some, Option.some.injEq, Prod.mk.injEq] at h
      obtain ⟨rfl, rfl, rfl⟩ := h
      exact .writing hw (.refl d)
    | discard => exact hdiscard _ hw (Option.some.inj h)
    | _ => cases h
  | synced temp =>
    cases a with
    | move =>
      simp only [step] at h
      split_ifs at h with hfree
      · cases h
        refine .moved (by rw [Directory.rename_target, hw.2]) ?_ ?_
        · intro hr
          simpa [hr] using hfree
        · intro name hname hne
          refine d.rename_of_ne ?_ hne
          rintro rfl
          rw [hw.1] at hname
          cases hname
      · cases h
        exact .failed (d.agrees_set none hw.1)
    | discard => exact hdiscard _ hw (Option.some.inj h)
    | _ => cases h

/-- The temporary file has a hidden name. -/
example : (step ⟨"a", [1], true⟩ ⟨true, fun _ => none⟩ .unopened
    (.create "a" : Action Nat)).isNone = true := by decide +kernel

omit [DecidableEq α] in
theorem clear_of_ne {d : Directory (List α)} {w : Writing α} {name : String}
    (hw : w.temp ≠ some name) : (w.clear d).entries name = d.entries name := by
  cases w with
  | unopened => rfl
  | opened temp written => exact d.set_of_ne none fun h => hw (by rw [h]; rfl)
  | synced temp => exact d.set_of_ne none fun h => hw (by rw [h]; rfl)

/-- A write that replaces nothing keeps a file that is not its own temporary one. -/
theorem step_keeps {job : Job α} {d d' : Directory (List α)} {w : Writing α} {a : Action α}
    {p : Progress α} {name : String} {entry : Entry (List α)} (hreplace : job.replace = false)
    (hname : d.entries name = some entry) (hw : w.temp ≠ some name)
    (h : job.step d w a = some (d', p)) :
    d'.entries name = some entry ∧ ∀ w', p = .writing w' → w'.temp ≠ some name := by
  have hdiscard : (w.clear d, Progress.failed) = (d', p) →
      d'.entries name = some entry ∧ ∀ w', p = .writing w' → w'.temp ≠ some name := by
    rintro ⟨⟩
    exact ⟨(clear_of_ne hw).trans hname, nofun⟩
  cases w with
  | unopened =>
    cases a with
    | create temp =>
      simp only [step, Option.ite_none_right_eq_some, Option.some.injEq, Prod.mk.injEq] at h
      obtain ⟨⟨-, hfree⟩, rfl, rfl⟩ := h
      have hne : name ≠ temp := by
        rintro rfl
        simp [hname] at hfree
      refine ⟨(d.set_of_ne _ hne).trans hname, ?_⟩
      rintro w' ⟨⟩ heq
      exact hne (Option.some.inj heq).symm
    | discard => exact hdiscard (Option.some.inj h)
    | _ => cases h
  | opened temp written =>
    have hne : name ≠ temp := fun heq => hw (by rw [heq]; rfl)
    cases a with
    | write part =>
      simp only [step, Option.ite_none_right_eq_some, Option.some.injEq, Prod.mk.injEq] at h
      obtain ⟨-, rfl, rfl⟩ := h
      refine ⟨(d.set_of_ne _ hne).trans hname, ?_⟩
      rintro w' ⟨⟩
      exact hw
    | sync =>
      simp only [step, Option.ite_none_right_eq_some, Option.some.injEq, Prod.mk.injEq] at h
      obtain ⟨-, rfl, rfl⟩ := h
      refine ⟨hname, ?_⟩
      rintro w' ⟨⟩
      exact hw
    | discard => exact hdiscard (Option.some.inj h)
    | _ => cases h
  | synced temp =>
    have hne : name ≠ temp := fun heq => hw (by rw [heq]; rfl)
    cases a with
    | move =>
      simp only [step, hreplace, Bool.false_eq_true, false_or] at h
      split_ifs at h with hfree
      · cases h
        have htarget : name ≠ job.target := by
          rintro rfl
          simp [hname] at hfree
        exact ⟨(d.rename_of_ne hne htarget).trans hname, nofun⟩
      · cases h
        exact ⟨(d.set_of_ne none hne).trans hname, nofun⟩
    | discard => exact hdiscard (Option.some.inj h)
    | _ => cases h

example : ((step ⟨"a", [1], false⟩ ⟨true, fun _ => some .other⟩ (.synced ".a")
    (.move : Action Nat)).map fun r => (r.1.entries ".a").isNone) = some true := by decide +kernel

/-- The system calls that give no new file its name leave the directory with the names it had. -/
theorem step_names {job : Job α} {d d' : Directory (List α)} {w : Writing α} {a : Action α}
    {p : Progress α} (hw : job.Holds d w) (h : job.step d w a = some (d', p)) {name : String}
    (hname : d'.entries name ≠ none) :
    d.entries name ≠ none ∨ a = .create name ∨ (∀ temp, a ≠ .create temp) ∧ name = job.target := by
  have hset {temp : String} {entry : Option (Entry (List α))} (hne : name ≠ temp)
      (hd : d' = d.set temp entry) : d.entries name ≠ none := by
    rwa [hd, d.set_of_ne _ hne] at hname
  have hdiscard : (w.clear d, Progress.failed) = (d', p) → d.entries name ≠ none := by
    rintro ⟨⟩ hnone
    cases w with
    | unopened => exact hname hnone
    | opened temp written | synced temp =>
      by_cases hne : name = temp
      · subst hne
        exact hname (by simp [Writing.clear])
      · exact hset hne rfl hnone
  cases w with
  | unopened =>
    cases a with
    | create temp =>
      simp only [step, Option.ite_none_right_eq_some, Option.some.injEq, Prod.mk.injEq] at h
      obtain ⟨-, rfl, -⟩ := h
      by_cases hne : name = temp
      · exact .inr (.inl (by rw [hne]))
      · exact .inl (hset hne rfl)
    | discard => exact .inl (hdiscard (Option.some.inj h))
    | _ => cases h
  | opened temp written =>
    cases a with
    | write part =>
      simp only [step, Option.ite_none_right_eq_some, Option.some.injEq, Prod.mk.injEq] at h
      obtain ⟨-, rfl, -⟩ := h
      by_cases hne : name = temp
      · exact .inl (by simp [hne, hw.2])
      · exact .inl (hset hne rfl)
    | sync =>
      simp only [step, Option.ite_none_right_eq_some, Option.some.injEq, Prod.mk.injEq] at h
      obtain ⟨-, rfl, -⟩ := h
      exact .inl hname
    | discard => exact .inl (hdiscard (Option.some.inj h))
    | _ => cases h
  | synced temp =>
    cases a with
    | move =>
      simp only [step] at h
      split_ifs at h
      · cases h
        by_cases htarget : name = job.target
        · exact .inr (.inr ⟨by simp, htarget⟩)
        · rw [Directory.rename, Directory.set_of_ne _ _ htarget] at hname
          by_cases hne : name = temp
          · exact absurd (by simp [hne]) hname
          · rw [d.set_of_ne _ hne] at hname
            exact .inl hname
      · cases h
        by_cases hne : name = temp
        · exact absurd (by simp [hne]) hname
        · exact .inl (hset hne rfl)
    | discard => exact .inl (hdiscard (Option.some.inj h))
    | _ => cases h

theorem step_isPrivate {job : Job α} {d d' : Directory (List α)} {w : Writing α} {a : Action α}
    {p : Progress α} (h : job.step d w a = some (d', p)) : d'.isPrivate = d.isPrivate := by
  have hdiscard : (w.clear d, Progress.failed) = (d', p) → d'.isPrivate = d.isPrivate := by
    rintro ⟨⟩
    cases w <;> rfl
  cases w with
  | unopened =>
    cases a with
    | create temp =>
      simp only [step, Option.ite_none_right_eq_some, Option.some.injEq, Prod.mk.injEq] at h
      obtain ⟨-, rfl, -⟩ := h
      rfl
    | discard => exact hdiscard (Option.some.inj h)
    | _ => cases h
  | opened temp written =>
    cases a with
    | write part =>
      simp only [step, Option.ite_none_right_eq_some, Option.some.injEq, Prod.mk.injEq] at h
      obtain ⟨-, rfl, -⟩ := h
      rfl
    | sync =>
      simp only [step, Option.ite_none_right_eq_some, Option.some.injEq, Prod.mk.injEq] at h
      obtain ⟨-, rfl, -⟩ := h
      rfl
    | discard => exact hdiscard (Option.some.inj h)
    | _ => cases h
  | synced temp =>
    cases a with
    | move =>
      simp only [step] at h
      split_ifs at h <;> cases h <;> rfl
    | discard => exact hdiscard (Option.some.inj h)
    | _ => cases h

end Job

end Files
