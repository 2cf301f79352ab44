import MoenotesApi.Server.Config
import MoenotesApi.Server.QueryParams

/-!
# Regions of the server

`regions.rs`: which pool answers for a region.

* `Region.asStr`, `Region.fromProfileId`, and `parseI64` for `str::parse`;
* `RegionClients`, `RegionClients.withPools`: the pools of the regions, which are given by their numbers;
* `fromProfileId_eq_ok`, `withPools_eq_ok`: what they accept.
-/

namespace MoenotesApi

open FormText (utf8)

/-- `id.parse::<i64>()`: a sign may stand before the digits. -/
def parseI64 (text : String) : Option ℤ :=
  let (negative, digits) :=
    match text.toList with
    | '-' :: rest => (true, rest)
    | '+' :: rest => (false, rest)
    | chars => (false, chars)
  let n : ℤ := if negative then -QueryParams.decimal digits else QueryParams.decimal digits
  if digits ≠ [] ∧ digits.all Char.isDigit ∧ -2 ^ 63 ≤ n ∧ n < 2 ^ 63 then some n else none

namespace Region

/-- `Region::as_str`. -/
def asStr : Region → String
  | tw => "tw"
  | en => "en"
  | kr => "kr"
  | jp => "jp"

/-- The region of a profile number by its first digit. -/
def ofDigit (c : Char) : Option Region :=
  if c = '2' then some tw else if c = '3' then some en else if c = '4' then some kr else none

/-- `Region::from_profile_id`. -/
def fromProfileId (id : String) : Except String (Region × ℤ) :=
  if (utf8 id).length ≠ 11 ∨ id.toList.all Char.isDigit = false then .error "invalid_profile_id"
  else
    match id.toList.head?.bind ofDigit with
    | none => .error "unsupported_profile_region"
    | some region =>
      match parseI64 id with
      | none => .error "invalid_profile_id"
      | some n => .ok (region, n)

theorem asStr_injective : Function.Injective asStr := by
  intro a b h
  cases a <;> cases b <;> first | rfl | exact absurd h (by decide)

/-- The name of a region is the name of a session of that region. -/
theorem fromSession_asStr (region : Region) : fromSession region.asStr = some region := by
  cases region <;> rfl

end Region

/-! ### Profile numbers -/

/-- Digits after which there is a non-digit are not all digits. -/
theorem toList_ne_sign {id : String} {c : Char} (hc : c.isDigit = false)
    (hdigits : id.toList.all Char.isDigit = true) : ∀ rest, id.toList ≠ c :: rest := by
  intro rest h
  rw [h, List.all_cons, hc] at hdigits
  cases hdigits

/-- What `parse` makes of a text of digits only. -/
theorem parseI64_of_digits {id : String} (hdigits : id.toList.all Char.isDigit = true) {n : ℤ} :
    parseI64 id = some n ↔ id.toList ≠ [] ∧ n = QueryParams.decimal id.toList ∧ n < 2 ^ 63 := by
  have hminus := toList_ne_sign (c := '-') (by decide) hdigits
  have hplus := toList_ne_sign (c := '+') (by decide) hdigits
  have hsign : (match id.toList with
      | '-' :: rest => (true, rest)
      | '+' :: rest => (false, rest)
      | chars => (false, chars)) = (false, id.toList) := by
    split
    · next rest h => exact absurd h (hminus rest)
    · next rest h => exact absurd h (hplus rest)
    · rfl
  unfold parseI64
  rw [hsign]
  simp only [Bool.false_eq_true, if_false, hdigits, true_and]
  constructor
  · intro h
    split_ifs at h with hcond
    cases h
    exact ⟨hcond.1, rfl, hcond.2.2⟩
  · rintro ⟨hne, rfl, hlt⟩
    have hnonneg : (0 : ℤ) ≤ QueryParams.decimal id.toList := Int.natCast_nonneg _
    exact if_pos ⟨hne, by omega, hlt⟩

/-- No digit stands for Japan. -/
theorem Region.ofDigit_ne_jp {c : Char} {region : Region} (h : ofDigit c = some region) :
    region ≠ .jp := by
  unfold ofDigit at h
  split_ifs at h <;> cases h <;> exact Region.noConfusion

/-- A profile number has eleven digits, and the first of them tells the region. -/
theorem Region.fromProfileId_eq_ok {id : String} {region : Region} {n : ℤ}
    (h : Region.fromProfileId id = .ok (region, n)) :
    (utf8 id).length = 11 ∧ id.toList.all Char.isDigit = true ∧
      id.toList.head?.bind ofDigit = some region ∧ n = QueryParams.decimal id.toList := by
  unfold Region.fromProfileId at h
  split_ifs at h with hform
  rw [not_or, not_not, Bool.not_eq_false] at hform
  obtain ⟨hlength, hdigits⟩ := hform
  cases hregion : id.toList.head?.bind ofDigit with
  | none =>
    rw [hregion] at h
    cases h
  | some inferred =>
    cases hn : parseI64 id with
    | none =>
      rw [hregion, hn] at h
      cases h
    | some m =>
      rw [hregion, hn] at h
      cases h
      exact ⟨hlength, hdigits, rfl, ((parseI64_of_digits hdigits).1 hn).2.1⟩

/-! ### The pools of the regions -/

/-- `RegionClients`: the number of the pool of each region that is configured. -/
structure RegionClients where
  backends : Region → Option ℕ
  defaultRegion : Option Region

namespace RegionClients

/-- The body of the loop of `with_pools`. -/
def addPool (backends : Region → Option ℕ) (entry : Region × ℕ) :
    Except ClientError (Region → Option ℕ) := do
  .refuse (backends entry.1).isSome badConfig
  return Function.update backends entry.1 (some entry.2)

def withPools (defaultRegion : Option Region) (pools : List (Region × ℕ)) :
    Except ClientError RegionClients := do
  let backends ← pools.foldlM addPool fun _ => none
  .refuse (defaultRegion.any fun region => (backends region).isNone) badConfig
  return ⟨backends, defaultRegion⟩

def cache (clients : RegionClients) (region : Region) : Option ℕ := clients.backends region

def defaultCache (clients : RegionClients) : Option ℕ := clients.defaultRegion.bind clients.cache

/-- Pools without a region in common. -/
theorem foldlM_addPool {pools : List (Region × ℕ)} {backends backends' : Region → Option ℕ}
    (h : pools.foldlM addPool backends = .ok backends') :
    (pools.map Prod.fst).Nodup ∧ (∀ region ∈ pools.map Prod.fst, backends region = none) ∧
      ∀ region, backends' region = ((pools.find? fun entry => entry.1 = region).map Prod.snd).or
        (backends region) := by
  induction pools generalizing backends with
  | nil =>
    cases h
    simp
  | cons entry pools ih =>
    rw [List.foldlM_cons, Except.bind_eq_ok] at h
    obtain ⟨middle, hmiddle, h⟩ := h
    simp only [addPool, Except.bind_eq_ok, Except.refuse_eq_ok, Except.pure_eq_ok] at hmiddle
    obtain ⟨-, hfree, rfl⟩ := hmiddle
    obtain ⟨hnodup, hnone, hbackends⟩ := ih h
    have hfree : backends entry.1 = none := by simpa using hfree
    have hnew : entry.1 ∉ pools.map Prod.fst := fun hmem => by
      have := hnone entry.1 hmem
      simp at this
    refine ⟨by simpa [hnew] using hnodup, fun region hregion => ?_, fun region => ?_⟩
    · rcases List.mem_cons.1 hregion with rfl | hregion
      · exact hfree
      · have hne : region ≠ entry.1 := fun heq => hnew (heq ▸ hregion)
        simpa [hne] using hnone region hregion
    · rw [hbackends, List.find?_cons]
      by_cases hregion : entry.1 = region
      · subst hregion
        have hfind : pools.find? (fun e => e.1 = entry.1) = none := by
          rw [List.find?_eq_none]
          intro e he heq
          exact hnew (List.mem_map.2 ⟨e, he, by simpa using heq⟩)
        simp [hfind]
      · simp [hregion, Ne.symm hregion]

/-- What `with_pools` accepts: each region once, and among them the default region. -/
theorem withPools_eq_ok {defaultRegion : Option Region} {pools : List (Region × ℕ)}
    {clients : RegionClients} (h : withPools defaultRegion pools = .ok clients) :
    (pools.map Prod.fst).Nodup ∧
      (∀ region, clients.cache region =
        (pools.find? fun entry => entry.1 = region).map Prod.snd) ∧
      clients.defaultRegion = defaultRegion ∧
      ∀ region ∈ defaultRegion, clients.defaultCache = clients.cache region ∧
        (clients.cache region).isSome = true := by
  simp only [withPools, Except.bind_eq_ok, Except.refuse_eq_ok, Except.pure_eq_ok] at h
  obtain ⟨backends, hbackends, -, hdefault, rfl⟩ := h
  obtain ⟨hnodup, -, hfind⟩ := foldlM_addPool hbackends
  refine ⟨hnodup, fun region => by simp [cache, hfind], rfl, fun region hregion => ?_⟩
  rw [Option.mem_def] at hregion
  subst hregion
  refine ⟨rfl, ?_⟩
  have hsome : ¬(backends region).isNone = true := hdefault
  cases hbackend : backends region with
  | none => simp [hbackend] at hsome
  | some n => simp [cache, hbackend]

end RegionClients

end MoenotesApi
