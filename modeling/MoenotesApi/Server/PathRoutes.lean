import MoenotesApi.Managed.Accounts
import MoenotesApi.Server.QueryParams

/-!
# Path routes

`path_routes.rs`: a route with parameters in its path is an alias of the route with a query string.

* `Route`, `ROUTES`, `pathQuery`: the code; `bindField` is the body of its loop;
* `Route.bound`: the pairs that a path stands for, with a list taken apart at its commas;
* `routes_bind`: every route binds leaves of the request of its method;
* `path_query_agrees`.
-/

namespace MoenotesApi.PathRoutes

open FormText QueryParams

structure Route where
  path : String
  method : String
  /-- The path parameter, the query field, and whether it is a list with commas. -/
  fields : List (String × String × Bool)
  deriving DecidableEq, Repr

def ROUTES : List Route :=
  [{ path := "/v1/profile/{profileId}"
     method := "profile"
     fields := [("profileId", "playerProfileId", false)] },
   { path := "/v1/profiles/{accountIds}"
     method := "profiles"
     fields := [("accountIds", "accountIds", true)] },
   { path := "/v1/player/{playerId}/favorites"
     method := "favorite-status"
     fields := [("playerId", "playerId", false)] },
   { path := "/v1/announcements/{selectedTab}"
     method := "announcements"
     fields := [("selectedTab", "selectedTab", false)] },
   { path := "/v1/announcement/{id}"
     method := "announcement"
     fields := [("id", "id", false)] },
   { path := "/v1/gacha/{gachaId}/rates"
     method := "probability"
     fields := [("gachaId", "gachaId", false)] },
   { path := "/v1/gacha/{gachaId}/rates/{selectedPickUp}"
     method := "probability"
     fields := [("gachaId", "gachaId", false), ("selectedPickUp", "selectedPickUp", true)] },
   { path := "/v1/music/{musicId}/ranking"
     method := "music-ranking"
     fields := [("musicId", "musicId", false)] },
   { path := "/v1/event/{eventId}/ranking/{ranks}"
     method := "event-ranking"
     fields := [("eventId", "eventId", false), ("ranks", "ranks", true)] },
   { path := "/v1/event/challenge/{challengeMusicId}/ranking"
     method := "challenge-ranking"
     fields := [("challengeMusicId", "challengeMusicId", false)] },
   { path := "/v1/event/{eventId}/deck/{playerId}"
     method := "event-deck"
     fields := [("eventId", "eventId", false), ("playerId", "playerId", false)] },
   { path := "/v1/arena/{arenaSeasonId}/ranking/{rankingStart}/{rankingEnd}"
     method := "arena-ranking"
     fields := [("arenaSeasonId", "arenaSeasonId", false), ("rankingStart", "rankingStart", false),
       ("rankingEnd", "rankingEnd", false)] },
   { path := "/v1/arena/{arenaSeasonId}/ranking/{rankingStart}/{rankingEnd}/band/{bandId}"
     method := "arena-ranking"
     fields := [("arenaSeasonId", "arenaSeasonId", false), ("rankingStart", "rankingStart", false),
       ("rankingEnd", "rankingEnd", false), ("bandId", "bandId", false)] },
   { path := "/v1/arena/{arenaSeasonId}/music/{musicId}/deck-trend"
     method := "deck-trend"
     fields := [("arenaSeasonId", "arenaSeasonId", false), ("musicId", "musicId", false)] },
   { path := "/v1/circle/{circleId}"
     method := "circle"
     fields := [("circleId", "circleId", false)] },
   { path := "/v1/circles/search/{name}"
     method := "circle-search"
     fields := [("name", "options.name", false)] }]

/-- `value.split(',')`. -/
def splitList (value : String) : List String := (value.toList.splitOn ',').map String.ofList

/-- The body of the loop of `path_query`, with the pairs that were appended so far. -/
def bindField (params : String → Option String) (pairs : List (String × String))
    (field : String × String × Bool) : Except ClientError (List (String × String)) := do
  let some value := params field.1
    | .error invalidRequest
  .refuse (value = "" ∨ 8192 < (utf8 value).length ∨ value.toList.any controlChar) invalidRequest
  if field.2.2 then
    let values := splitList value
    .refuse (100 < values.length ∨ "" ∈ values) invalidRequest
    return pairs ++ values.map fun value => (field.2.1, value)
  else return pairs ++ [(field.2.1, value)]

/-- `path_query`. -/
def pathQuery (form : FormUrlencoded) (route : Route) (params : String → Option String)
    (raw : Option String) : Except ClientError String := do
  let raw := raw.getD ""
  .refuse (8192 < (utf8 raw).length) invalidRequest
  .refuse ((form.parse (utf8 raw)).any fun pair => route.fields.any fun field => field.2.1 = pair.1)
    invalidRequest
  let pairs ← route.fields.foldlM (bindField params) []
  let result := form.serialize pairs
  let result := if raw = "" then result else result ++ "&" ++ raw
  .refuse (8192 < (utf8 result).length) invalidRequest
  return result

/-- The pairs of a path parameter. -/
def boundField (params : String → Option String) (field : String × String × Bool) :
    List (String × String) :=
  match params field.1 with
  | none => []
  | some value =>
    (if field.2.2 then splitList value else [value]).map fun value => (field.2.1, value)

/-- The pairs that a path stands for, in the order of the route's fields. -/
def Route.bound (route : Route) (params : String → Option String) : List (String × String) :=
  route.fields.flatMap (boundField params)

/-- Every route binds leaves of the request of its method, and lists to repeated leaves. -/
theorem routes_bind : ∀ route ∈ ROUTES, ∃ variant, QueryVariant.find route.method = some variant ∧
    ∀ field ∈ route.fields, ∃ leaf ∈ fields variant.fields,
      leaf.1 = field.2.1 ∧ leaf.2.isList = field.2.2 := by
  have hcheck : ROUTES.all (fun route => (QueryVariant.find route.method).any fun variant =>
      route.fields.all fun field => (fields variant.fields).any fun leaf =>
        leaf.1 = field.2.1 && leaf.2.isList = field.2.2) = true := by
    decide +kernel
  intro route hroute
  obtain ⟨variant, hvariant, hfields⟩ := (Option.any_eq_true _ _).1
    (List.all_eq_true.1 hcheck route hroute)
  refine ⟨variant, hvariant, fun field hfield => ?_⟩
  obtain ⟨leaf, hleaf, heq⟩ := List.any_eq_true.1 (List.all_eq_true.1 hfields field hfield)
  exact ⟨leaf, hleaf, by simpa using heq⟩

section Bound

variable {params : String → Option String} {pairs pairs' : List (String × String)}

theorem bindField_eq_ok {field : String × String × Bool}
    (h : bindField params pairs field = .ok pairs') :
    pairs' = pairs ++ boundField params field := by
  unfold bindField at h
  unfold boundField
  cases hvalue : params field.1 with
  | none =>
    rw [hvalue] at h
    cases h
  | some value =>
    rw [hvalue] at h
    simp only [Except.bind_eq_ok, Except.refuse_eq_ok] at h
    obtain ⟨-, -, h⟩ := h
    split_ifs at h with hlist
    · simp only [Except.bind_eq_ok, Except.refuse_eq_ok, Except.pure_eq_ok] at h
      obtain ⟨-, -, rfl⟩ := h
      simp [hlist]
    · cases h
      simp [hlist]

theorem bound_of_foldlM {fields : List (String × String × Bool)}
    (h : fields.foldlM (bindField params) pairs = .ok pairs') :
    pairs' = pairs ++ fields.flatMap (boundField params) := by
  induction fields generalizing pairs with
  | nil =>
    cases h
    simp
  | cons field fields ih =>
    rw [List.foldlM_cons, Except.bind_eq_ok] at h
    obtain ⟨middle, hfield, h⟩ := h
    rw [ih h, bindField_eq_ok hfield, List.flatMap_cons, List.append_assoc]

end Bound

/-- What `path_query` returns: the text of the bound pairs, in front of the text after the path. -/
theorem pathQuery_eq_ok {form : FormUrlencoded} {route : Route} {params : String → Option String}
    {raw : Option String} {s : String} (h : pathQuery form route params raw = .ok s) :
    (∀ pair ∈ form.parse (utf8 (raw.getD "")), ∀ field ∈ route.fields, pair.1 ≠ field.2.1) ∧
      (utf8 s).length ≤ 8192 ∧
      s = if raw.getD "" = "" then form.serialize (route.bound params)
        else form.serialize (route.bound params) ++ "&" ++ raw.getD "" := by
  simp only [pathQuery, Except.bind_eq_ok, Except.refuse_eq_ok, Except.pure_eq_ok] at h
  obtain ⟨-, -, -, hkeys, pairs, hpairs, -, hlen, hs⟩ := h
  have hbound : pairs = route.bound params := bound_of_foldlM hpairs
  rw [hbound] at hs hlen
  refine ⟨fun pair hpair field hfield heq => hkeys ?_, ?_, hs.symm⟩
  · exact List.any_eq_true.2 ⟨pair, hpair, List.any_eq_true.2 ⟨field, hfield, by simp [heq]⟩⟩
  · rw [← hs]
    exact not_lt.1 hlen

theorem utf8_append (a b : String) : utf8 (a ++ b) = utf8 a ++ utf8 b := by
  rw [utf8, String.toList_append, List.flatMap_append]
  rfl

/-- **Path aliases agree with query strings.**  When a path and the text after it make a query
string, that text has none of the bound fields, the pairs of the query string are those of the path
followed by those of the text, and any other query string with these pairs is parsed alike. -/
theorem path_query_agrees (form : FormUrlencoded) (json : ProtobufJson) (route : Route)
    (params : String → Option String) (raw : Option String) (s : String)
    (h : pathQuery form route params raw = .ok s) :
    (∀ pair ∈ form.parse (utf8 (raw.getD "")), ∀ field ∈ route.fields, pair.1 ≠ field.2.1) ∧
    form.parse (utf8 s) = route.bound params ++ form.parse (utf8 (raw.getD "")) ∧
    (Readable (utf8 (raw.getD "")) → ∀ (method t : String),
      (utf8 t).length ≤ MAX_QUERY_BYTES → Readable (utf8 t) →
      form.parse (utf8 t) = route.bound params ++ form.parse (utf8 (raw.getD "")) →
      parse form json method (some s) = parse form json method (some t)) := by
  obtain ⟨hkeys, hlen, hs⟩ := pathQuery_eq_ok h
  have hserialized : Readable (utf8 (form.serialize (route.bound params))) := by
    rw [form.utf8_serialize]
    exact readable_encodePairs _
  have hamp : ∀ a b : String, utf8 (a ++ "&" ++ b) = utf8 a ++ 38 :: utf8 b := by
    intro a b
    rw [utf8_append, utf8_append, List.append_assoc]
    rfl
  have hpairs : form.parse (utf8 s) = route.bound params ++ form.parse (utf8 (raw.getD "")) := by
    rw [hs]
    split_ifs with hempty
    · rw [hempty, parse_serialize, show utf8 "" = [] from rfl, parse_nil, List.append_nil]
    · rw [hamp, parse_append, parse_serialize]
  refine ⟨hkeys, hpairs, fun hraw method t htlen ht hpairs' => ?_⟩
  have hreadable : Readable (utf8 s) := by
    rw [hs]
    split_ifs with hempty
    · exact hserialized
    · rw [hamp, readable_split (by decide) (by decide)]
      exact ⟨hserialized, hraw⟩
  rw [parse_of_readable hlen hreadable, parse_of_readable htlen ht, hpairs, hpairs']

section Sample

def circleSearch : Route where
  path := "/v1/circles/search/{name}"
  method := "circle-search"
  fields := [("name", "options.name", false)]

/-- A name that looks like a query string of its own. -/
def circleName : String → Option String
  | "name" => some "a&options.joinRule=1, b+%"
  | _ => none

example : circleSearch ∈ ROUTES := by decide

/-- The query string of the path, with a filter after it. -/
def circleQuery : String :=
  "options.name=a%26options.joinRule%3D1%2C+b%2B%25&options.playStyle=2"

theorem pathQuery_circle :
    pathQuery whatwg circleSearch circleName (some "options.playStyle=2") = .ok circleQuery := by
  have hsome : (pathQuery whatwg circleSearch circleName (some "options.playStyle=2")).toOption =
      some circleQuery := by
    decide +kernel
  cases hquery : pathQuery whatwg circleSearch circleName (some "options.playStyle=2") with
  | error e =>
    rw [hquery] at hsome
    cases hsome
  | ok s =>
    rw [hquery] at hsome
    exact congrArg Except.ok (Option.some.inj hsome)

theorem path_query_agrees_circle :
    (∀ pair ∈ whatwg.parse (utf8 "options.playStyle=2"), ∀ field ∈ circleSearch.fields,
      pair.1 ≠ field.2.1) ∧
    whatwg.parse (utf8 circleQuery) =
      circleSearch.bound circleName ++ whatwg.parse (utf8 "options.playStyle=2") ∧
    (Readable (utf8 "options.playStyle=2") → ∀ (method t : String),
      (utf8 t).length ≤ MAX_QUERY_BYTES → Readable (utf8 t) →
      whatwg.parse (utf8 t) =
        circleSearch.bound circleName ++ whatwg.parse (utf8 "options.playStyle=2") →
      parse whatwg canonicalJson method (some circleQuery) =
        parse whatwg canonicalJson method (some t)) :=
  path_query_agrees whatwg canonicalJson circleSearch circleName (some "options.playStyle=2")
    circleQuery pathQuery_circle

end Sample

end MoenotesApi.PathRoutes
