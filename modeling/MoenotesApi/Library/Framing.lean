import Mathlib.Data.List.Basic

/-!
# Length-prefixed framing

A list of texts is written as one text: each part is preceded by its length, in an encoding of fixed
width.

* `flatMap_injective`: codes of one width in a row determine what they stand for;
* `framed`: the text of some parts;
* `framed_cons_injective`: before a common rest it determines the first part;
* `framed_injective`: it determines the parts, as long as the encoding tells their lengths apart.
-/

namespace Framing

universe u v

variable {α : Type u} {β : Type v}

theorem flatMap_injective {code : β → List α} {width : ℕ} (hpos : 0 < width)
    (hwidth : ∀ b, (code b).length = width) (hcode : Function.Injective code) {xs ys : List β}
    (h : xs.flatMap code = ys.flatMap code) : xs = ys := by
  have hne : ∀ b rest, code b ++ rest ≠ [] := by
    intro b rest hnil
    have hlen := congrArg List.length hnil
    rw [List.length_append, hwidth, List.length_nil] at hlen
    omega
  induction xs generalizing ys with
  | nil =>
    cases ys with
    | nil => rfl
    | cons y ys => exact absurd h.symm (hne y _)
  | cons x xs ih =>
    cases ys with
    | nil => exact absurd h (hne x _)
    | cons y ys =>
      rw [List.flatMap_cons, List.flatMap_cons] at h
      obtain ⟨hcodes, hrest⟩ := List.append_inj h (by rw [hwidth, hwidth])
      rw [hcode hcodes, ih hrest]

/-- The parts in a row, each after its length. -/
def framed (length : ℕ → List α) (parts : List (List α)) : List α :=
  parts.flatMap fun part => length part.length ++ part

section Injective

variable {length : ℕ → List α} {width bound : ℕ}

/-- A first frame determines its part and what follows it. -/
theorem frame_append (hwidth : ∀ n, (length n).length = width)
    (hinj : ∀ m n, m < bound → n < bound → length m = length n → m = n)
    {part part' rest rest' : List α}
    (hpart : part.length < bound) (hpart' : part'.length < bound)
    (h : length part.length ++ part ++ rest = length part'.length ++ part' ++ rest') :
    part = part' ∧ rest = rest' := by
  rw [List.append_assoc, List.append_assoc] at h
  obtain ⟨hlength, hrest⟩ := List.append_inj h (by rw [hwidth, hwidth])
  exact List.append_inj hrest (hinj _ _ hpart hpart' hlength)

/-- Before a common rest, a part of any length can be read off. -/
theorem framed_cons_injective (hwidth : ∀ n, (length n).length = width) {part part' : List α}
    {rest : List (List α)} (h : framed length (part :: rest) = framed length (part' :: rest)) :
    part = part' := by
  simp only [framed, List.flatMap_cons] at h
  have hframe := List.append_cancel_right h
  exact List.append_inj_right hframe (by rw [hwidth, hwidth])

/-- **The text of some parts determines them.** -/
theorem framed_injective (hpos : 0 < width) (hwidth : ∀ n, (length n).length = width)
    (hinj : ∀ m n, m < bound → n < bound → length m = length n → m = n)
    {parts parts' : List (List α)}
    (hparts : ∀ part ∈ parts, part.length < bound) (hparts' : ∀ part ∈ parts', part.length < bound)
    (h : framed length parts = framed length parts') : parts = parts' := by
  have hne : ∀ part parts, framed length (part :: parts) ≠ [] := by
    intro part parts hnil
    have hlen := congrArg List.length hnil
    simp only [framed, List.flatMap_cons, List.length_append, hwidth, List.length_nil] at hlen
    omega
  induction parts generalizing parts' with
  | nil =>
    cases parts' with
    | nil => rfl
    | cons part' parts' => exact absurd h.symm (hne part' parts')
  | cons part parts ih =>
    cases parts' with
    | nil => exact absurd h (hne part parts)
    | cons part' parts' =>
      rw [List.forall_mem_cons] at hparts hparts'
      simp only [framed, List.flatMap_cons] at h
      obtain ⟨rfl, hrest⟩ := frame_append hwidth hinj hparts.1 hparts'.1 h
      rw [ih hparts.2 hparts'.2 hrest]

end Injective

end Framing
