import Mathlib.Data.List.Lex
import MoenotesApi.Client.Version
import MoenotesApi.Library.FirstMax

/-!
# The resource version of a JP answer

`asset_version` of `jp.rs`: the entry of the live list with the greatest minimum that the client
version meets decides, and its version is used only if it and its Android hash are well formed.

* `eligible`: the minimum of an entry that the client version meets;
* `Selected`: the first entry with the greatest such minimum;
* `Published`: what `asset_version` checks of a version and hash;
* `assetVersion_selected`: the main result.
-/

namespace MoenotesApi

open Selection (FirstMax firstMax)

/-- The order on version arrays is the lexicographic one. -/
theorem versionLt_iff {a b : List ℕ} : versionLt a b = true ↔ a < b := by
  induction a generalizing b with
  | nil => cases b <;> simp [versionLt]
  | cons x a ih =>
    cases b with
    | nil => simp [versionLt]
    | cons y b => simp [versionLt, ih, List.cons_lt_cons_iff]

/-- The minimum of an entry, if there is an entry and its minimum is a version that the client
version meets. -/
def eligible (current : List ℕ) (entry : Option AssetEntry) : Option (List ℕ) := do
  let entry ← entry
  (numericVersion entry.min).filter (· ≤ current)

theorem eligible_eq_some {current min : List ℕ} {entry : Option AssetEntry} :
    eligible current entry = some min ↔
      ∃ e, entry = some e ∧ numericVersion e.min = some min ∧ min ≤ current := by
  cases entry with
  | none => simp [eligible]
  | some e => simp [eligible, Option.filter_eq_some_iff]

/-- The first entry, in list order, with the greatest minimum that the client version meets. -/
def Selected (live : List (Option AssetEntry)) (current min : List ℕ) (entry : AssetEntry) : Prop :=
  FirstMax (eligible current) live min (some entry)

/-- The loop over the live list. -/
def selectLive (live : List (Option AssetEntry)) (current : List ℕ) :
    Option (List ℕ × AssetEntry) :=
  (live.filterMap id).foldl (selectEntry current) none

/-- The loop keeps the entry that the loop over all elements of the list keeps. -/
theorem map_selectEntry (current : List ℕ) (best : Option (List ℕ × AssetEntry))
    (entry : AssetEntry) : (selectEntry current best entry).map (Prod.map id some) =
      Selection.round (eligible current) (best.map (Prod.map id some)) (some entry) := by
  have heligible : eligible current (some entry) =
      (numericVersion entry.min).filter (· ≤ current) := rfl
  rw [selectEntry, Selection.round, heligible]
  cases numericVersion entry.min with
  | none => rfl
  | some min =>
    have hle : (!versionLt current min) = decide (min ≤ current) := by
      rw [Bool.eq_iff_iff, Bool.not_eq_true', ← Bool.not_eq_true, versionLt_iff, not_lt,
        decide_eq_true_iff]
    by_cases hmin : min ≤ current
    · cases best with
      | none => simp [hle, hmin, Option.filter_some]
      | some old =>
        have hold : versionLt old.1 min = decide (old.1 < min) := by
          rw [Bool.eq_iff_iff, versionLt_iff, decide_eq_true_iff]
        by_cases hlt : old.1 < min <;> simp [hle, hmin, hold, hlt, Option.filter_some]
    · simp [hle, hmin, Option.filter_some]

theorem map_selectLive (live : List (Option AssetEntry)) (current : List ℕ) :
    (selectLive live current).map (Prod.map id some) = firstMax (eligible current) live := by
  unfold selectLive firstMax
  suffices hfold : ∀ best, ((live.filterMap id).foldl (selectEntry current) best).map
      (Prod.map id some) = live.foldl (Selection.round (eligible current))
        (best.map (Prod.map id some)) from hfold none
  intro best
  induction live generalizing best with
  | nil => rfl
  | cons entry live ih =>
    cases entry with
    | none => exact ih best
    | some entry =>
      have hstep := ih (selectEntry current best entry)
      rw [map_selectEntry] at hstep
      exact hstep

theorem selectLive_eq_some {live : List (Option AssetEntry)} {current min : List ℕ}
    {entry : AssetEntry} :
    selectLive live current = some (min, entry) ↔ Selected live current min entry := by
  rw [Selected, ← Selection.firstMax_eq_some, ← map_selectLive]
  cases selectLive live current with
  | none => simp
  | some best => simp [Prod.ext_iff]

theorem Selected.unique {live : List (Option AssetEntry)} {current min min' : List ℕ}
    {entry entry' : AssetEntry} (h : Selected live current min entry)
    (h' : Selected live current min' entry') : min = min' ∧ entry = entry' := by
  obtain ⟨hmin, hentry⟩ := Selection.FirstMax.unique h h'
  exact ⟨hmin, Option.some.inj hentry⟩

/-- A newer client version selects a minimum that is not smaller. -/
theorem Selected.mono {live : List (Option AssetEntry)} {current current' min : List ℕ}
    {entry : AssetEntry} (h : Selected live current min entry) (hle : current ≤ current') :
    ∃ min' entry', Selected live current' min' entry' ∧ min ≤ min' := by
  have himp : ∀ e m, eligible current e = some m → eligible current' e = some m := by
    intro e m he
    obtain ⟨e', he', hm, hcurrent⟩ := eligible_eq_some.1 he
    exact eligible_eq_some.2 ⟨e', he', hm, hcurrent.trans hle⟩
  cases hselect : selectLive live current' with
  | none =>
    have hnone : firstMax (eligible current') live = none := by
      rw [← map_selectLive, hselect]
      rfl
    have hkey := himp _ _ h.key_eq
    rw [Selection.firstMax_eq_none.1 hnone _ h.mem] at hkey
    cases hkey
  | some best =>
    have hbest : Selected live current' best.1 best.2 := selectLive_eq_some.1 hselect
    exact ⟨best.1, best.2, hbest, Selection.FirstMax.le_of_imp h hbest himp⟩

/-! ### What is published -/

/-- The version that is used of a pair: the trimmed version, if it is a path-safe token of 1 to 128
bytes and the hash is 32 hexadecimal digits after trimming. -/
def Published (version : String) (android : Option String) (v : String) : Prop :=
  ∃ hash, android = some hash ∧ validToken (trim version) = true ∧ (trim hash).length = 32 ∧
    (trim hash).all asciiHex = true ∧ v = String.ofList (trim version)

variable {parse : String → Option AssetPayload} {raw client : String} {payload : AssetPayload}

theorem assetVersion_eq_some (hraw : byteLen raw.toList ≤ 64 * 1024)
    (hparse : parse raw = some payload) {v : String} :
    assetVersion parse (some raw) client = some v ↔
      ∃ version hash, assetCandidate payload client = some (version, hash) ∧
        Published version (some hash) v := by
  have hfilter : (some raw).filter (fun s => decide (byteLen s.toList ≤ 64 * 1024)) = some raw := by
    simp [Option.filter_some, hraw]
  unfold assetVersion Published
  rw [hfilter]
  simp only [Option.bind_eq_bind, Option.bind_some, hparse]
  cases assetCandidate payload client with
  | none => simp
  | some pair =>
    obtain ⟨version, hash⟩ := pair
    simp only [Option.bind_some, Option.some.injEq, Prod.mk.injEq]
    split_ifs with hvalid
    · simp only [Bool.and_eq_true, decide_eq_true_eq] at hvalid
      constructor
      · rintro ⟨⟩
        exact ⟨version, hash, ⟨rfl, rfl⟩, hash, rfl, hvalid.1.1, hvalid.1.2, hvalid.2, rfl⟩
      · rintro ⟨_, _, ⟨rfl, rfl⟩, _, rfl, -, -, -, rfl⟩
        rfl
    · refine ⟨nofun, ?_⟩
      rintro ⟨_, _, ⟨rfl, rfl⟩, _, rfl, htoken, hlen, hhex, -⟩
      exact absurd (by simp [htoken, hlen, hhex]) hvalid

/-- With a nonempty live list only its selected entry counts. -/
theorem assetCandidate_live {live : List (Option AssetEntry)} {current : List ℕ}
    (hlive : payload.live = some live) (hne : live ≠ [])
    (hclient : numericVersion client = some current) {version hash : String} :
    assetCandidate payload client = some (version, hash) ↔
      ∃ min entry, Selected live current min entry ∧ version = entry.version ∧
        entry.android = some hash := by
  have hfilter : payload.live.filter (fun live => !live.isEmpty) = some live := by
    simp [hlive, Option.filter_some, hne]
  have hcandidate : assetCandidate payload client =
      (selectLive live current).bind fun best =>
        best.2.android.bind fun hash => some (best.2.version, hash) := by
    unfold assetCandidate selectLive
    rw [hfilter, hclient]
    rfl
  rw [hcandidate, Option.bind_eq_some_iff]
  constructor
  · rintro ⟨⟨min, entry⟩, hbest, h⟩
    obtain ⟨hash', hash_eq, h⟩ := Option.bind_eq_some_iff.1 h
    cases h
    exact ⟨min, entry, selectLive_eq_some.1 hbest, rfl, hash_eq⟩
  · rintro ⟨min, entry, hbest, rfl, hash_eq⟩
    exact ⟨(min, entry), selectLive_eq_some.2 hbest, by simp [hash_eq]⟩

/-- Without a live list the top-level pair counts. -/
theorem assetCandidate_top (hlive : payload.live = none ∨ payload.live = some [])
    {version hash : String} : assetCandidate payload client = some (version, hash) ↔
      payload.version = some version ∧ payload.android = some hash := by
  have hfilter : payload.live.filter (fun live => !live.isEmpty) = none := by
    rcases hlive with hlive | hlive <;> simp [hlive, Option.filter_some]
  unfold assetCandidate
  rw [hfilter]
  cases payload.version with
  | none => simp
  | some version' => cases payload.android <;> simp

/-- **Selection of the resource version.**  With a nonempty live list the version is published
exactly if there is a selected entry and its version and hash are well formed: there is one selected
entry at most, and a newer client version selects a minimum that is not smaller.  Otherwise the
top-level version is published under the same conditions. -/
theorem assetVersion_selected (parse : String → Option AssetPayload) (raw client : String)
    (payload : AssetPayload) (hraw : byteLen raw.toList ≤ 64 * 1024)
    (hparse : parse raw = some payload) :
    (∀ live current, payload.live = some live → live ≠ [] →
      numericVersion client = some current →
      (∀ v, assetVersion parse (some raw) client = some v ↔
        ∃ min entry, Selected live current min entry ∧ Published entry.version entry.android v) ∧
      (∀ min min' entry entry', Selected live current min entry →
        Selected live current min' entry' → min = min' ∧ entry = entry') ∧
      ∀ current' min entry, current ≤ current' → Selected live current min entry →
        ∃ min' entry', Selected live current' min' entry' ∧ min ≤ min') ∧
    (payload.live = none ∨ payload.live = some [] →
      ∀ v, assetVersion parse (some raw) client = some v ↔
        ∃ version, payload.version = some version ∧ Published version payload.android v) := by
  constructor
  · intro live current hlive hne hclient
    refine ⟨fun v => ?_, fun _ _ _ _ => Selected.unique, fun _ _ _ hle h => h.mono hle⟩
    rw [assetVersion_eq_some hraw hparse]
    constructor
    · rintro ⟨version, hash, hcandidate, hv⟩
      obtain ⟨min, entry, hselected, rfl, hash_eq⟩ :=
        (assetCandidate_live hlive hne hclient).1 hcandidate
      exact ⟨min, entry, hselected, hash_eq ▸ hv⟩
    · rintro ⟨min, entry, hselected, hv⟩
      obtain ⟨hash, hash_eq, -⟩ := id hv
      exact ⟨entry.version, hash,
        (assetCandidate_live hlive hne hclient).2 ⟨min, entry, hselected, rfl, hash_eq⟩,
        hash_eq ▸ hv⟩
  · intro hlive v
    rw [assetVersion_eq_some hraw hparse]
    constructor
    · rintro ⟨version, hash, hcandidate, hv⟩
      obtain ⟨hversion, hash_eq⟩ := (assetCandidate_top hlive).1 hcandidate
      exact ⟨version, hversion, hash_eq ▸ hv⟩
    · rintro ⟨version, hversion, hv⟩
      obtain ⟨hash, hash_eq, -⟩ := id hv
      exact ⟨version, hash, (assetCandidate_top hlive).2 ⟨hversion, hash_eq⟩, hash_eq ▸ hv⟩

/-- A live list with two entries of the same minimum. -/
def tiedRaw : String :=
  "\x7b\"live\":[\x7b\"minClientVersion\":\"1.0\",\"version\":\"first\"," ++
    "\"Android\":\"aaaaaaaaaaaaaaaaaaaaaaaaaaaaaaaa\"\x7d," ++
    "\x7b\"minClientVersion\":\"1.0.0\",\"version\":\"second\"," ++
    "\"Android\":\"aaaaaaaaaaaaaaaaaaaaaaaaaaaaaaaa\"\x7d]\x7d"

def tiedLive : List (Option AssetEntry) :=
  [some ⟨"1.0", "first", some "aaaaaaaaaaaaaaaaaaaaaaaaaaaaaaaa"⟩,
    some ⟨"1.0.0", "second", some "aaaaaaaaaaaaaaaaaaaaaaaaaaaaaaaa"⟩]

/-- The first of the tied entries is published. -/
theorem assetVersion_selected_tied :
    assetVersion (fun text => if text = tiedRaw then some ⟨none, none, some tiedLive⟩ else none)
      (some tiedRaw) "1.0.3" = some "first" := by
  have hselected : Selected tiedLive [1, 0, 3, 0] [1, 0, 0, 0]
      ⟨"1.0", "first", some "aaaaaaaaaaaaaaaaaaaaaaaaaaaaaaaa"⟩ :=
    selectLive_eq_some.1 (by decide)
  refine (((assetVersion_selected _ tiedRaw "1.0.3" ⟨none, none, some tiedLive⟩
    (by decide +kernel) (if_pos rfl)).1 tiedLive [1, 0, 3, 0] rfl (by decide) (by decide)).1 "first").2 ?_
  exact ⟨_, _, hselected, _, rfl, by decide, by decide, by decide, by decide⟩

end MoenotesApi
