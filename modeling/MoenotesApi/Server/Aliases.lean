import MoenotesApi.Server.Handlers
import MoenotesApi.Server.QueryGrammar

/-!
# Paths and regions

What the routes of `path_routes.rs` mean: a path makes the query of a query string, and the number of a
profile decides in which region it is looked for.

* `alias_agrees`: a path and the query string of its region make the same query;
* `profile_routed`: the number that selects the region is the number that is looked for.
-/

namespace MoenotesApi

open FormText
open PathRoutes (Route)
open QueryParams

variable {M ρ : Type} {lib : HttpLibraries M ρ} {state : ApiState ρ} {request : HttpRequest}
variable {call : HttpCall} {route : Route} {region : Option Region}

/-- A query string that is accepted is readable in each of its parts. -/
theorem readable_of_pathQuery {form : FormUrlencoded} {params : String → Option String}
    {raw : Option String} {s : String} (h : PathRoutes.pathQuery form route params raw = .ok s)
    (hs : Readable (utf8 s)) : Readable (utf8 (raw.getD "")) := by
  obtain ⟨-, -, heq⟩ := PathRoutes.pathQuery_eq_ok h
  split_ifs at heq with hempty
  · rw [hempty]
    exact readable_nil
  · have hamp : utf8 s = utf8 (form.serialize (route.bound params)) ++ 38 :: utf8 (raw.getD "") := by
      rw [heq, PathRoutes.utf8_append, PathRoutes.utf8_append, List.append_assoc]
      rfl
    rw [hamp] at hs
    exact ((readable_split (by decide) (by decide)).1 hs).2

/-- **Paths agree with query strings.**  When a path makes a query, then the parameters after it bind
none of its fields, and the route of the same method with a query string, in the region that the path
selects, makes the same query of the same pool for every query string with the pairs of the path
followed by those after it that is not too long and can be read; there is one. -/
theorem alias_agrees {params : String → Option String} {body : Option Bytes}
    (h : (Handler.path route region).call lib state request (some params) body = .ok call) :
    (∀ pair ∈ lib.form.parse (utf8 (request.query.getD "")), ∀ field ∈ route.fields,
      pair.1 ≠ field.2.1) ∧
    (∃ t, (utf8 t).length ≤ MAX_QUERY_BYTES ∧ Readable (utf8 t) ∧ lib.form.parse (utf8 t) =
      route.bound params ++ lib.form.parse (utf8 (request.query.getD ""))) ∧
    ∀ (request' : HttpRequest) (params' : Option (String → Option String)) (t : String),
      request'.query = some t → (utf8 t).length ≤ MAX_QUERY_BYTES → Readable (utf8 t) →
      lib.form.parse (utf8 t) =
        route.bound params ++ lib.form.parse (utf8 (request.query.getD "")) →
      ∃ headers, (Handler.query route.method call.region).call lib state request' params' (some []) =
        .ok { call with headers := headers } := by
  obtain ⟨-, -, params₀, s, selected, hparams, hs, -, hcall⟩ := call_alias_eq_ok h
  cases hparams
  obtain ⟨hkeys, hpairs, hagree⟩ :=
    PathRoutes.path_query_agrees lib.form lib.json route params request.query s hs
  obtain ⟨hshort, hreadable, -⟩ := parse_eq_ok.1 hcall.parsed
  refine ⟨hkeys, ⟨s, hshort, hreadable, hpairs⟩, ?_⟩
  intro request' params' t ht hlength htreadable htpairs
  have hraw := readable_of_pathQuery hs hreadable
  have hparsed : parse lib.form lib.json route.method (some t) = .ok call.query := by
    rw [← hagree hraw route.method t hlength htreadable htpairs]
    exact hcall.parsed
  have hexecuted : Executed lib state route.method request'.query call.region call := by
    refine ⟨hcall.permitted, ?_, hcall.method_eq, rfl, hcall.pool_eq⟩
    rw [ht]
    exact hparsed
  exact exists_call_query hexecuted

/-! ### Profiles -/

/-- The only leaf of a request for a profile. -/
theorem fields_profile :
    fields QueryVariant.profile.fields = [("playerProfileId", ⟨.int64, .implicit⟩)] := by
  rfl

/-- The queries for a profile that a list of pairs stands for. -/
theorem parsePairs_profile {json : ProtobufJson} {id : String} {rest : List (String × String)}
    {query : TypedQuery} (hrest : ∀ pair ∈ rest, pair.1 ≠ "playerProfileId")
    (h : parsePairs json QueryVariant.profile.method.name (("playerProfileId", id) :: rest) =
      .ok query) :
    rest = [] ∧ digits id true = true ∧ 0 < integer id ∧
      query = ⟨.profile, .leaf "playerProfileId" (.one (.int (integer id))) .nil⟩ := by
  obtain ⟨-, -, ⟨values, hassigned, rfl⟩, hvalid⟩ := parsePairs_eq_ok.1 h
  rw [fields_profile] at hassigned
  cases hassigned with
  | @cons _ v _ vs hfirst htail =>
    obtain rfl : rest = [] := by
      cases htail with
      | nil => rfl
      | @cons pair _ _ _ hpair _ =>
        obtain ⟨-, leaf, hleaf, -⟩ := hpair
        have hname : pair.1 = "playerProfileId" := congrArg Prod.fst (List.mem_singleton.1 hleaf)
        exact absurd hname (hrest pair List.mem_cons_self)
    cases htail
    obtain ⟨hpath, leaf, hleaf, hvalue⟩ := hfirst
    cases List.mem_singleton.1 hleaf
    have hdigits : digits id true = true ∧ v.2 = .int (integer id) := by
      simp only [value, inRange, intRange] at hvalue
      split_ifs at hvalue with hdigits
      exact ⟨hdigits, (Option.some.inj hvalue).symm⟩
    obtain rfl : v = (["playerProfileId"], .int (integer id)) := by
      rw [show splitKey "playerProfileId" = ["playerProfileId"] by rfl] at hpath
      exact Prod.ext hpath hdigits.2
    -- the request is valid if its number is positive
    exact ⟨rfl, hdigits.1, of_decide_eq_true hvalid, rfl⟩

/-- The routes for a profile are one route. -/
theorem route_profile (hroute : route ∈ PathRoutes.ROUTES) (hmethod : route.method = "profile") :
    route.fields = [("profileId", "playerProfileId", false)] := by
  have hcheck : PathRoutes.ROUTES.all (fun route => route.method ≠ "profile" ||
      route.fields = [("profileId", "playerProfileId", false)]) = true := by
    rfl
  simpa [hmethod] using List.all_eq_true.1 hcheck route hroute

/-- What decides the region of a profile. -/
theorem selectedRegion_profile {params : String → Option String} {id : String}
    {selected : Option Region} (hmethod : route.method = "profile") (hid : params "profileId" = some id)
    (h : selectedRegion route region params = .ok selected) :
    region = some .jp ∧ selected = some .jp ∧ (∃ n, parseI64 id = some n ∧ 0 < n) ∨
      region ≠ some .jp ∧ ∃ r, selected = some r ∧ (∀ r' ∈ region, r' = r) ∧
        (utf8 id).length = 11 ∧ id.toList.head?.bind Region.ofDigit = some r := by
  unfold selectedRegion at h
  rw [if_pos hmethod, hid] at h
  dsimp only at h
  split_ifs at h with hjp hpositive
  · cases h
    obtain ⟨n, hn, hlt⟩ := (Option.any_eq_true _ _).1 hpositive
    exact .inl ⟨hjp, rfl, n, hn, by simpa using hlt⟩
  · refine .inr ⟨hjp, ?_⟩
    cases hinferred : Region.fromProfileId id with
    | error kind =>
      rw [hinferred] at h
      cases h
    | ok inferred =>
      obtain ⟨r, n⟩ := inferred
      rw [hinferred] at h
      dsimp only at h
      split_ifs at h with hmismatch
      cases h
      obtain ⟨hlength, -, hdigit, -⟩ := Region.fromProfileId_eq_ok hinferred
      refine ⟨r, rfl, fun r' hr' => ?_, hlength, hdigit⟩
      rw [Option.mem_def] at hr'
      subst hr'
      simpa using hmismatch

/-- **The region of a profile.**  When the route of a profile makes a query, nothing but the number in
the path is asked for, the pool is the one of the region that the query is for, and outside Japan that
is the region of the first of the eleven digits, which no explicit region can change. -/
theorem profile_routed {params : String → Option String} {body : Option Bytes}
    (hroute : route ∈ PathRoutes.ROUTES) (hmethod : route.method = "profile")
    (h : (Handler.path route region).call lib state request (some params) body = .ok call) :
    lib.form.parse (utf8 (request.query.getD "")) = [] ∧
    ∃ id r, params "profileId" = some id ∧ digits id true = true ∧ 0 < integer id ∧
      call.query = ⟨.profile, .leaf "playerProfileId" (.one (.int (integer id))) .nil⟩ ∧
      call.region = some r ∧ state.profiles.cache r = some call.pool ∧
      (region = some .jp ∧ r = .jp ∨
        region ≠ some .jp ∧ (∀ r' ∈ region, r' = r) ∧ (utf8 id).length = 11 ∧
          id.toList.head?.bind Region.ofDigit = some r) := by
  obtain ⟨-, -, params₀, s, selected, hparams, hs, hselected, hcall⟩ := call_alias_eq_ok h
  cases hparams
  have hfields := route_profile hroute hmethod
  obtain ⟨id, hid⟩ : ∃ id, params "profileId" = some id := by
    cases hid : params "profileId" with
    | none => simp [selectedRegion, hmethod, hid] at hselected
    | some id => exact ⟨id, rfl⟩
  obtain ⟨hkeys, hpairs, -⟩ :=
    PathRoutes.path_query_agrees lib.form lib.json route params request.query s hs
  have hbound : route.bound params = [("playerProfileId", id)] := by
    simp [Route.bound, hfields, PathRoutes.boundField, hid]
  have hparsed := (parse_eq_ok.1 hcall.parsed).2.2
  rw [Option.getD_some, hpairs, hbound, hmethod] at hparsed
  have hrest : ∀ pair ∈ lib.form.parse (utf8 (request.query.getD "")),
      pair.1 ≠ "playerProfileId" := fun pair hpair =>
    hkeys pair hpair ("profileId", "playerProfileId", false) (by simp [hfields])
  obtain ⟨hnil, hdigits, hpos, hquery⟩ := parsePairs_profile hrest hparsed
  have hregion := hcall.region_eq
  have hpool := hcall.pool_eq
  rcases selectedRegion_profile hmethod hid hselected with
    ⟨hjp, rfl, -⟩ | ⟨hjp, r, rfl, hexplicit, hlength, hdigit⟩
  · rw [hregion] at hpool
    exact ⟨hnil, id, .jp, hid, hdigits, hpos, hquery, hregion, hpool.symm, .inl ⟨hjp, rfl⟩⟩
  · rw [hregion] at hpool
    exact ⟨hnil, id, r, hid, hdigits, hpos, hquery, hregion, hpool.symm,
      .inr ⟨hjp, hexplicit, hlength, hdigit⟩⟩

section Sample

def profileRoute : Route where
  path := "/v1/profile/{profileId}"
  method := "profile"
  fields := [("profileId", "playerProfileId", false)]

def profileRequest : HttpRequest := ⟨.get, "/v1/profile/20000000007", none, []⟩

def profileParams (name : String) : Option String :=
  if name = "profileId" then some "20000000007" else none

def profileQuery : String := "playerProfileId=20000000007"

def profileMessage : TypedQuery :=
  ⟨.profile, .leaf "playerProfileId" (.one (.int 20000000007)) .nil⟩

theorem accepted_profile : Accepted .profile profileQuery profileMessage where
  short := by decide +kernel
  escapes := rfl
  utf8 := ⟨profileQuery, rfl⟩
  few := by decide +kernel
  pairs := by
    refine ⟨[("playerProfileId", "20000000007")], [(["playerProfileId"], .int 20000000007)],
      rfl, ?_, ?_, rfl⟩
    · rw [fields_profile]
      intro entry hentry _
      rw [List.mem_singleton.1 hentry]
      rfl
    · rw [fields_profile]
      exact .cons ⟨rfl, _, List.mem_singleton_self _, rfl⟩ .nil
  valid := rfl

theorem ok_of_toOption {ε α : Type} {x : Except ε α} {a : α} (h : x.toOption = some a) :
    x = .ok a := by
  cases x with
  | error e => cases h
  | ok b => exact congrArg Except.ok (Option.some.inj h)

def profileCall : HttpCall :=
  ⟨"profile", profileMessage, some .tw, 0, [("x-moenotes-region", "tw")]⟩

theorem call_profile : (Handler.path profileRoute none).call plainLibraries twoRegions profileRequest
    (some profileParams) (some []) = .ok profileCall := by
  have hpath : validPath profileRequest.path = true := rfl
  have hquery : PathRoutes.pathQuery plainLibraries.form profileRoute profileParams none =
      .ok profileQuery := ok_of_toOption rfl
  have hregion : selectedRegion profileRoute none profileParams = .ok (some .tw) :=
    ok_of_toOption rfl
  have hparse : parse plainLibraries.form plainLibraries.json QueryVariant.profile.method.name
      (some profileQuery) = .ok profileMessage := parse_eq_ok_iff.2 accepted_profile
  have hexecute : execute plainLibraries twoRegions "profile" (some profileQuery) (some .tw) =
      .ok profileCall := by
    unfold execute
    rw [show "profile" = QueryVariant.profile.method.name from rfl, hparse]
    rfl
  simp only [Handler.call, hpath, Except.bind_eq_ok, Except.refuse_eq_ok, mapError_eq_ok]
  exact ⟨(), by decide, (), by decide, profileQuery, hquery, some .tw, hregion, hexecute⟩

theorem alias_agrees_profile : ∃ headers, (Handler.query "profile" (some .tw)).call plainLibraries
    twoRegions { profileRequest with query := some "playerProfileId=2000000000%37" } none (some []) =
      .ok { profileCall with headers := headers } :=
  (alias_agrees call_profile).2.2 _ none "playerProfileId=2000000000%37" rfl (by decide +kernel)
    ⟨rfl, profileQuery, rfl⟩ rfl

theorem profile_routed_profile : ∃ id r, profileParams "profileId" = some id ∧
    profileMessage = ⟨.profile, .leaf "playerProfileId" (.one (.int (integer id))) .nil⟩ ∧
    twoRegions.profiles.cache r = some 0 ∧ id.toList.head?.bind Region.ofDigit = some r := by
  obtain ⟨-, id, r, hid, -, -, hquery, -, hpool, ⟨hjp, -⟩ | ⟨-, -, -, hdigit⟩⟩ :=
    profile_routed (by decide) rfl call_profile
  · cases hjp
  · exact ⟨id, r, hid, hquery, hpool, hdigit⟩

end Sample

end MoenotesApi
