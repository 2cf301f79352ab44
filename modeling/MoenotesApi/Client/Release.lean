import MoenotesApi.Client.Version
import Mathlib.Tactic

/-!
# Patch releases

`patch_successors` writes the releases that `patch_version` reads.

* `release`: the text of a release;
* `patchSuccessors_eq`: the successors are the next patch releases, in order;
* `patchVersion_release`: the text of a release is read back as the same numbers;
* `successors_presentable_iff`: when every proposed release is read back, the main result;
* `Advances`: the release has the same major and minor number, and its patch number is not smaller.
-/

namespace MoenotesApi

/-- `format!("{major}.{minor}.{patch}")`. -/
def release (major minor patch : ℕ) : String :=
  toString major ++ "." ++ toString minor ++ "." ++ toString patch

/-! ### Decimal numbers -/

theorem decimal_lt {digits : List Char} (h : ∀ c ∈ digits, c.isDigit = true) :
    decimal digits < 10 ^ digits.length := by
  induction digits using List.reverseRecOn with
  | nil => simp [decimal]
  | append_singleton digits c ih =>
    have hc : c.toNat - '0'.toNat < 10 := by
      have := Char.isDigit_iff_toNat.1 (h c (by simp))
      have h9 : '9'.toNat = 57 := rfl
      have h0 : '0'.toNat = 48 := rfl
      omega
    have hrest := ih fun d hd => h d (by simp [hd])
    simp only [decimal, List.foldl_append, List.foldl_cons, List.foldl_nil, List.length_append,
      List.length_singleton, pow_succ] at hrest ⊢
    omega

theorem decimal_toDigits (n : ℕ) : decimal (Nat.toDigits 10 n) = n :=
  Nat.ofDigitChars_ten_toDigits

theorem patchPart_eq_some {text : List Char} {n : ℕ} :
    patchPart text = some n ↔
      text ≠ [] ∧ text.length ≤ 9 ∧ (∀ c ∈ text, c.isDigit = true) ∧ decimal text = n := by
  unfold patchPart
  split_ifs with hbad
  · simp only [Bool.or_eq_true, List.isEmpty_iff, decide_eq_true_eq, Bool.not_eq_true',
      List.all_eq_false] at hbad
    simp only [false_iff, not_and]
    rintro hne hlen hdigits
    rcases hbad with (rfl | hlt) | ⟨c, hc, hno⟩
    · exact absurd rfl hne
    · omega
    · exact absurd (hdigits c hc) hno
  · simp only [Bool.or_eq_true, List.isEmpty_iff, decide_eq_true_eq, Bool.not_eq_true',
      List.all_eq_false, not_or, not_exists, not_and, not_lt, Decidable.not_not] at hbad
    simp only [Option.some.injEq]
    exact ⟨fun h => ⟨hbad.1.1, hbad.1.2, hbad.2, h⟩, fun h => h.2.2.2⟩

theorem patchPart_lt {text : List Char} {n : ℕ} (h : patchPart text = some n) : n < 10 ^ 9 := by
  obtain ⟨-, hlen, hdigits, rfl⟩ := patchPart_eq_some.1 h
  exact (decimal_lt hdigits).trans_le (Nat.pow_le_pow_right (by decide) hlen)

/-! ### Releases -/

theorem patchVersion_eq_some {value : String} {major minor patch : ℕ} :
    patchVersion value = some (major, minor, patch) ↔ ∃ a b c,
      value.toList.splitOn '.' = [a, b, c] ∧ patchPart a = some major ∧
        patchPart b = some minor ∧ patchPart c = some patch := by
  unfold patchVersion
  split
  · next a b c hsplit =>
    simp only [Option.bind_eq_bind, Option.bind_eq_some_iff, Option.pure_def, Option.some.injEq,
      Prod.mk.injEq]
    constructor
    · rintro ⟨x, hx, y, hy, z, hz, rfl, rfl, rfl⟩
      exact ⟨a, b, c, hsplit, hx, hy, hz⟩
    · rintro ⟨a', b', c', hsplit', hx, hy, hz⟩
      rw [hsplit] at hsplit'
      cases hsplit'
      exact ⟨_, hx, _, hy, _, hz, rfl, rfl, rfl⟩
  · next hno =>
    simp only [reduceCtorEq, false_iff]
    rintro ⟨a, b, c, hsplit, -⟩
    exact hno a b c hsplit

theorem dot_not_mem_toDigits (n : ℕ) : '.' ∉ Nat.toDigits 10 n := by
  intro h
  have := Nat.isDigit_of_mem_toDigits (by decide) (by decide) h
  cases this

theorem toList_release (major minor patch : ℕ) : (release major minor patch).toList =
    Nat.toDigits 10 major ++ '.' :: (Nat.toDigits 10 minor ++ '.' :: Nat.toDigits 10 patch) := by
  simp [release]

theorem splitOn_release (major minor patch : ℕ) : (release major minor patch).toList.splitOn '.' =
    [Nat.toDigits 10 major, Nat.toDigits 10 minor, Nat.toDigits 10 patch] := by
  rw [toList_release, List.splitOn_append_cons_self_of_not_mem (dot_not_mem_toDigits major),
    List.splitOn_append_cons_self_of_not_mem (dot_not_mem_toDigits minor),
    List.splitOn_eq_singleton (dot_not_mem_toDigits patch)]

/-- A release that is read back is read back as its own numbers. -/
theorem patchVersion_release {major minor patch : ℕ}
    (h : (patchVersion (release major minor patch)).isSome = true) :
    patchVersion (release major minor patch) = some (major, minor, patch) := by
  obtain ⟨⟨x, y, z⟩, hv⟩ := Option.isSome_iff_exists.1 h
  have hv' := hv
  obtain ⟨a, b, c, hsplit, ha, hb, hc⟩ := patchVersion_eq_some.1 hv
  rw [splitOn_release] at hsplit
  cases hsplit
  rw [hv', ← (patchPart_eq_some.1 ha).2.2.2, ← (patchPart_eq_some.1 hb).2.2.2,
    ← (patchPart_eq_some.1 hc).2.2.2]
  simp only [decimal_toDigits]

theorem patch_lt {value : String} {major minor patch : ℕ}
    (h : patchVersion value = some (major, minor, patch)) : patch < 10 ^ 9 := by
  obtain ⟨a, b, c, -, -, -, hc⟩ := patchVersion_eq_some.1 h
  exact patchPart_lt hc

/-- The successors of a release are the next patch releases, in order, while they fit `u32`. -/
theorem patchSuccessors_eq_of_lt {current : String} {major minor patch count : ℕ}
    (h : patchVersion current = some (major, minor, patch)) (hcount : patch + count < 2 ^ 32) :
    patchSuccessors current count =
      (List.range count).map fun k => release major minor (patch + (k + 1)) := by
  simp only [patchSuccessors, h]
  rw [← List.filterMap_eq_map]
  refine List.filterMap_congr fun k hk => ?_
  have hk' := List.mem_range.1 hk
  rw [if_pos (by omega)]
  rfl

theorem patchSuccessors_eq {current : String} {major minor patch count : ℕ}
    (h : patchVersion current = some (major, minor, patch)) (hcount : count ≤ 3) :
    patchSuccessors current count =
      (List.range count).map fun k => release major minor (patch + (k + 1)) := by
  have hlt := patch_lt h
  exact patchSuccessors_eq_of_lt h (by omega)

/-- What is not a release has no successors. -/
theorem patchSuccessors_of_none {current : String} {count : ℕ} (h : patchVersion current = none) :
    patchSuccessors current count = [] := by
  simp [patchSuccessors, h]

/-! ### Which proposed releases are read back -/

/-- A number is read back if it has at most nine digits. -/
theorem patchPart_toDigits {n : ℕ} : patchPart (Nat.toDigits 10 n) = some n ↔ n < 10 ^ 9 := by
  constructor
  · exact patchPart_lt
  · intro hlt
    refine patchPart_eq_some.2 ⟨Nat.toDigits_ne_nil, Nat.toDigits_length 10 n 9 (by decide) hlt,
      fun c hc => ?_, decimal_toDigits n⟩
    exact Nat.isDigit_of_mem_toDigits (by decide) (by decide) hc

theorem patchVersion_release_iff {major minor patch : ℕ} :
    patchVersion (release major minor patch) = some (major, minor, patch) ↔
      major < 10 ^ 9 ∧ minor < 10 ^ 9 ∧ patch < 10 ^ 9 := by
  rw [patchVersion_eq_some, splitOn_release]
  constructor
  · rintro ⟨a, b, c, hsplit, ha, hb, hc⟩
    cases hsplit
    exact ⟨patchPart_toDigits.1 ha, patchPart_toDigits.1 hb, patchPart_toDigits.1 hc⟩
  · rintro ⟨ha, hb, hc⟩
    exact ⟨_, _, _, rfl, patchPart_toDigits.2 ha, patchPart_toDigits.2 hb, patchPart_toDigits.2 hc⟩

theorem parts_lt {value : String} {major minor patch : ℕ}
    (h : patchVersion value = some (major, minor, patch)) :
    major < 10 ^ 9 ∧ minor < 10 ^ 9 ∧ patch < 10 ^ 9 := by
  obtain ⟨a, b, c, -, ha, hb, hc⟩ := patchVersion_eq_some.1 h
  exact ⟨patchPart_lt ha, patchPart_lt hb, patchPart_lt hc⟩

/-- What `patch_successors` should propose: the next `count` patch releases of a release, each of
which `patch_version` reads back, and nothing for another string. -/
structure SuccessorsPresentable (current : String) (count : ℕ) : Prop where
  none : patchVersion current = none → patchSuccessors current count = []
  successors : ∀ major minor patch, patchVersion current = some (major, minor, patch) →
    patchSuccessors current count =
      (List.range count).map fun k => release major minor (patch + (k + 1))
  readback : ∀ major minor patch, patchVersion current = some (major, minor, patch) →
    ∀ k < count, patchVersion (release major minor (patch + (k + 1))) =
      some (major, minor, patch + (k + 1))
  accepted : ∀ candidate ∈ patchSuccessors current count, (patchVersion candidate).isSome = true

/-- **When every proposed release is presentable.**  Exactly when the last of them still has at most
nine digits in its patch number. -/
theorem successors_presentable_iff (current : String) (count : ℕ) :
    SuccessorsPresentable current count ↔
      ∀ major minor patch, patchVersion current = some (major, minor, patch) →
        count = 0 ∨ patch + count ≤ 999999999 := by
  constructor
  · intro h major minor patch hcurrent
    rcases Nat.eq_zero_or_pos count with hzero | hpos
    · exact .inl hzero
    · have hlast := h.readback major minor patch hcurrent (count - 1) (by omega)
      have hlt := (patchVersion_release_iff.1 hlast).2.2
      exact .inr (by omega)
  · intro h
    have hread : ∀ major minor patch, patchVersion current = some (major, minor, patch) →
        ∀ k < count, patchVersion (release major minor (patch + (k + 1))) =
          some (major, minor, patch + (k + 1)) := by
      intro major minor patch hcurrent k hk
      obtain ⟨hmajor, hminor, -⟩ := parts_lt hcurrent
      have hbound := (h major minor patch hcurrent).resolve_left (by omega)
      exact patchVersion_release_iff.2 ⟨hmajor, hminor, by omega⟩
    have hsuccessors : ∀ major minor patch, patchVersion current = some (major, minor, patch) →
        patchSuccessors current count =
          (List.range count).map fun k => release major minor (patch + (k + 1)) := by
      intro major minor patch hcurrent
      have hlt := patch_lt hcurrent
      refine patchSuccessors_eq_of_lt hcurrent ?_
      rcases h major minor patch hcurrent with hzero | hbound <;> omega
    refine ⟨patchSuccessors_of_none, hsuccessors, hread, fun candidate hcandidate => ?_⟩
    cases hcurrent : patchVersion current with
    | none =>
      rw [patchSuccessors_of_none hcurrent] at hcandidate
      cases hcandidate
    | some parts =>
      obtain ⟨major, minor, patch⟩ := parts
      rw [hsuccessors major minor patch hcurrent] at hcandidate
      obtain ⟨k, hk, rfl⟩ := List.mem_map.1 hcandidate
      rw [hread major minor patch hcurrent k (List.mem_range.1 hk)]
      rfl

/-- The successor of the last release with nine digits is not read back. -/
theorem successor_not_presentable :
    patchSuccessors "1.0.999999999" 1 = ["1.0.1000000000"] ∧
      patchVersion "1.0.1000000000" = none ∧ ¬ SuccessorsPresentable "1.0.999999999" 1 := by
  have hsuccessors : patchSuccessors "1.0.999999999" 1 = ["1.0.1000000000"] := by decide
  have hnone : patchVersion "1.0.1000000000" = none := by decide
  refine ⟨hsuccessors, hnone, fun h => ?_⟩
  have haccepted := h.accepted "1.0.1000000000" (by rw [hsuccessors]; exact List.mem_singleton_self _)
  rw [hnone] at haccepted
  cases haccepted

/-- `b` is the release `a`, or one of the same major and minor number with a patch number that is
not smaller. -/
def Advances (a b : String) : Prop :=
  a = b ∨ ∃ major minor patch patch', patchVersion a = some (major, minor, patch) ∧
    patchVersion b = some (major, minor, patch') ∧ patch ≤ patch'

theorem Advances.refl (a : String) : Advances a a := .inl rfl

theorem Advances.trans {a b c : String} (h : Advances a b) (h' : Advances b c) : Advances a c := by
  rcases h with rfl | ⟨major, minor, x, y, ha, hb, hxy⟩
  · exact h'
  · rcases h' with rfl | ⟨major', minor', y', z, hb', hc, hyz⟩
    · exact .inr ⟨major, minor, x, y, ha, hb, hxy⟩
    · rw [hb] at hb'
      cases hb'
      exact .inr ⟨major, minor, x, z, ha, hc, hxy.trans hyz⟩

end MoenotesApi
