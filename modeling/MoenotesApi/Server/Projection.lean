import MoenotesApi.Client.Operation
import MoenotesApi.Library.JsonTree
import MoenotesApi.Server.Descriptors

/-!
# Projection of public responses

`projection.rs`: the keys of a response that the server shows.

* `allowed`, `object`, `projected`, `scalar`, `project`: the code; the loop body of `object` that
  projects one field is `shape` (how the field is stored) and `projected`, and the table of allowed
  keys is a parameter of `object`, to which `project` gives `allowed`;
* `object_object`, `projected_map`, `projected_list`: the loops as `collect`, `mapValues`, `mapM`;
* `object_output`, `map_output`, `projected_list_eq_ok`: what a projection returns.
-/

namespace MoenotesApi.Projection

open JsonTree (Value Json)

/-- The public keys of a message. -/
def allowed : String → List String
  | "app.announcement.GetResponse" => ["announcement"]
  | "app.announcement.GetListResponse" => ["announcements", "externalContents"]
  | "entity.Announcement" =>
      ["id", "category", "title", "bannerPath", "bannerUrl", "body", "startAt", "endAt",
        "sortOrder", "pickupBannerPath", "pickupBannerUrl", "pickupStartAt", "pickupEndAt",
        "lastUpdatedAt", "stylesheetId"]
  | "entity.AnnouncementExternalContent" => ["id", "bannerPath"]
  | "app.arena.ArenaRankingResponse" => ["ranking", "maxRank"]
  | "entity.ArenaRankingEntry" => ["profile", "deck", "rank", "point"]
  | "entity.PlayerSimpleProfile" =>
      ["id", "name", "rankExp", "lastUpdatedAt", "favoriteMemberCard", "profileId",
        "favoriteMemberCardMasterId", "profileCard"]
  | "entity.DeckMemberCardDetail" =>
      ["cardId", "exp", "awakeCount", "cardRank", "liveSkillLevel", "performanceSkillLevel"]
  | "entity.SimpleProfileCard" => ["slot", "name", "thumbnailUrl"]
  | "entity.DeckDetail" => ["id", "name", "cards", "totalPower"]
  | "entity.DeckCardDetail" => ["slotIndex", "performanceOrderIndex", "memberCard", "supportCard"]
  | "entity.DeckSupportCardDetail" => ["cardId", "exp", "rank"]
  | "app.arena.DeckTrendResponse" => ["leaders", "members", "supports"]
  | "entity.ArenaDeckTrendMemberCard" => ["memberCardId"]
  | "entity.ArenaDeckTrendSupportCard" => ["supportCardId"]
  | "app.circle.GetCircleResponse" => ["circle"]
  | "entity.CircleDetailWithPlayerList" => ["detail", "players", "circleRanking"]
  | "entity.Circle" =>
      ["id", "name", "description", "joinRule", "playStyle", "totalPoint", "weeklyTotalPoint",
        "memberCount", "masterLastLoginAt", "currentRank", "nextRankPoint"]
  | "entity.CirclePlayer" =>
      ["playerId", "circleId", "auth", "point", "weeklyTotalPoint", "profile"]
  | "app.circle.SearchResponse" => ["circles"]
  | "entity.CircleWithMasterPlayer" => ["circle", "profile"]
  | "app.event.GetChallengeMusicRankingResponse" | "app.livemusic.GetRankingResponse" => ["players"]
  | "app.event.ChallengeLiveRankingPlayer" | "app.livemusic.LiveRankingPlayer" =>
      ["playerData", "score", "highScoreDeck"]
  | "app.event.GetDeckResponse" => ["deck"]
  | "app.event.GetRankingListResponse" => ["ranking"]
  | "app.event.EventRankingEntry" => ["profile", "rank", "point"]
  | "app.friend.FindByProfileIDResponse" => ["playerProfile"]
  | "app.gacha.ProbabilityResponse" =>
      ["lot", "prize", "ensuredLot", "ensuredPrize", "probabilities", "products", "ensuredProducts"]
  | "entity.LotProbability" => ["lotId", "probabilityPercent"]
  | "entity.PrizeProbability" => ["prizeId", "probabilityPercent"]
  | "entity.Probability" => ["lot", "prize"]
  | "app.player.GetPlayerFavoriteStatusResponse" => ["totalFavorite"]
  | "app.playerext.GetPlayerListResponse" => ["players"]
  | "entity.PlayerBriefInfo" =>
      ["accountId", "playerId", "nickname", "level", "chatFrameId", "chatBubbleId", "chatThemeId",
        "avatarId"]
  | _ => []

inductive ResponseMode
  | disabled
  | publicOnly
  | raw
  deriving DecidableEq, Repr

def permitted (mode : ResponseMode) (method : String) : Bool :=
  mode ≠ .publicOnly || method ≠ "circle-recommendations"

def invalid : ClientError := .new .protocol

/-- How a field is stored: a map with values of a kind, a list with elements of a kind or a single
value. -/
inductive Shape (M : Type)
  | map (kind : Kind M)
  | list (kind : Kind M)
  | single (kind : Kind M)

variable {M : Type} (policy : String → List String) (pool : DescriptorPool M)

/-- How the field with the JSON name `name` is stored. -/
def shape (desc : M) (name : String) : Except ClientError (Shape M) := do
  let some field := (pool.fields desc).find? fun field => field.jsonName = name
    | .error invalid
  if field.isMap then
    let .message entry := field.kind
      | .error invalid
    let some value := pool.getFieldByName entry "value"
      | .error invalid
    return .map value.kind
  else if field.isList then return .list field.kind
  else return .single field.kind

mutual

def object (desc : M) : Value → Except ClientError Value
  | .object input => do
    let out ← (policy (pool.fullName desc)).foldlM (fun out name =>
      match _h : SortedMap.get name input with
      | none => pure out
      | some value => do
        let projected ← projected (← shape pool desc name) value
        return SortedMap.insert name projected out) []
    return .object out
  | _ => .error invalid
termination_by value => (sizeOf value, 0)
decreasing_by
  exact Prod.Lex.left _ _ (JsonTree.Value.sizeOf_get _h)

/-- The projection of one field. -/
def projected : Shape M → Value → Except ClientError Value
  | .map kind, .object map => do
    let map ← map.foldlM (fun out e => do return SortedMap.insert e.1 (← scalar kind e.2) out) []
    return .object map
  | .map _, _ => .error invalid
  | .list kind, .array items => do return .array (← items.mapM fun v => scalar kind v)
  | .list _, _ => .error invalid
  | .single kind, value => scalar kind value
termination_by _ value => (sizeOf value, 2)
decreasing_by
  · rename_i he
    exact Prod.Lex.left _ _ (JsonTree.Value.sizeOf_entry he)
  · rename_i hv
    exact Prod.Lex.left _ _ (JsonTree.Value.sizeOf_item hv)
  · exact Prod.Lex.right _ (by decide)

def scalar : Kind M → Value → Except ClientError Value
  | .message desc, value => object desc value
  | _, value => .ok value
termination_by _ value => (sizeOf value, 1)

end

/-- What `object` keeps of the value under an allowed name. -/
def keep (desc : M) (name : String) (value : Value) : Except ClientError Value := do
  projected policy pool (← shape pool desc name) value

def project (method : String) (value : Value) : Except ClientError Value := do
  let some method := methods.find? fun m => m.name = method
    | .error invalid
  let some desc := pool.getMessageByName method.output
    | .error invalid
  object allowed pool desc value

variable {policy pool} {desc : M} {kind : Kind M} {value out : Value}

/-! ### What a projection returns -/

theorem object_object (input : List (String × Value)) :
    object policy pool desc (.object input) = Value.object <$> SortedMap.collect
      (fun name => (SortedMap.get name input).map (keep policy pool desc name))
      (policy (pool.fullName desc)) := by
  rw [object, SortedMap.collect, map_eq_pure_bind]
  congr 2
  funext out name
  cases hget : SortedMap.get name input with
  | none => rfl
  | some value => simp [keep]

theorem projected_map (map : List (String × Value)) :
    projected policy pool (.map kind) (.object map) =
      Value.object <$> SortedMap.mapValues (scalar policy pool kind) map := by
  rw [projected, SortedMap.mapValues, map_eq_pure_bind]

theorem projected_list (items : List Value) :
    projected policy pool (.list kind) (.array items) =
      Value.array <$> items.mapM (scalar policy pool kind) := by
  rw [projected, map_eq_pure_bind]

theorem projected_single :
    projected policy pool (.single kind) value = scalar policy pool kind value := by
  rw [projected]

theorem scalar_message :
    scalar policy pool (.message desc) value = object policy pool desc value := by
  rw [scalar]

theorem scalar_of_ne (h : ∀ desc, kind ≠ .message desc) :
    scalar policy pool kind value = .ok value := by
  rw [scalar]
  exact h

theorem keep_eq_ok {name : String} : keep policy pool desc name value = .ok out ↔
    ∃ s, shape pool desc name = .ok s ∧ projected policy pool s value = .ok out :=
  Except.bind_eq_ok

/-- The output of `object` is a sorted object with the projections of the allowed entries. -/
theorem object_eq_ok : object policy pool desc value = .ok out ↔
    ∃ input output, value = .object input ∧ out = .object output ∧ SortedMap.Sorted output ∧
      (∀ name ∈ policy (pool.fullName desc), SortedMap.Collected
        (fun name => (SortedMap.get name input).map (keep policy pool desc name)) output name) ∧
      ∀ name ∉ policy (pool.fullName desc), SortedMap.get name output = none := by
  cases value with
  | object input =>
    rw [object_object, Except.map_eq_ok]
    constructor
    · rintro ⟨output, h, rfl⟩
      exact ⟨input, output, rfl, rfl, SortedMap.collect_eq_ok.1 h⟩
    · rintro ⟨_, output, h, rfl, hout⟩
      cases h
      exact ⟨output, SortedMap.collect_eq_ok.2 hout, rfl⟩
  | _ => simp [object]

/-- An entry of the output of `object` is the projection of an allowed entry; nothing else is left
out. -/
theorem object_output (h : object policy pool desc value = .ok out) :
    ∃ input output, value = .object input ∧ out = .object output ∧ SortedMap.Sorted output ∧
      ∀ name,
        (name ∈ policy (pool.fullName desc) ∧ ∃ s x y, shape pool desc name = .ok s ∧
          SortedMap.get name input = some x ∧ SortedMap.get name output = some y ∧
          projected policy pool s x = .ok y) ∨
        ((name ∉ policy (pool.fullName desc) ∨ SortedMap.get name input = none) ∧
          SortedMap.get name output = none) := by
  obtain ⟨input, output, rfl, rfl, hsorted, hin, hout⟩ := object_eq_ok.1 h
  refine ⟨input, output, rfl, rfl, hsorted, fun name => ?_⟩
  by_cases hname : name ∈ policy (pool.fullName desc)
  · rcases hin name hname with ⟨hnone, hget⟩ | ⟨y, hy, hget⟩
    · exact .inr ⟨.inr (Option.map_eq_none_iff.1 hnone), hget⟩
    · obtain ⟨x, hx, hkeep⟩ := Option.map_eq_some_iff.1 hy
      obtain ⟨s, hs, hxy⟩ := keep_eq_ok.1 hkeep
      exact .inl ⟨hname, s, x, y, hs, hx, hget, hxy⟩
  · exact .inr ⟨.inl hname, hout name hname⟩

/-- An entry of the projection of a map is the projection of its entry. -/
theorem map_output (hvalue : value.Sorted)
    (h : projected policy pool (.map kind) value = .ok out) :
    ∃ input output, value = .object input ∧ out = .object output ∧ SortedMap.Sorted output ∧
      ∀ name,
        (∃ x y, SortedMap.get name input = some x ∧ SortedMap.get name output = some y ∧
          scalar policy pool kind x = .ok y) ∨
        (SortedMap.get name input = none ∧ SortedMap.get name output = none) := by
  cases value with
  | object input =>
    rw [projected_map, Except.map_eq_ok] at h
    obtain ⟨output, h, rfl⟩ := h
    obtain ⟨hsorted, hall⟩ := (SortedMap.mapValues_eq_ok hvalue.keys).1 h
    refine ⟨input, output, rfl, rfl, hsorted, fun name => ?_⟩
    rcases hall name with ⟨hnone, hget⟩ | ⟨y, hy, hget⟩
    · exact .inr ⟨Option.map_eq_none_iff.1 hnone, hget⟩
    · obtain ⟨x, hx, hxy⟩ := Option.map_eq_some_iff.1 hy
      exact .inl ⟨x, y, hx, hget, hxy⟩
  | _ => simp [projected] at h

theorem projected_list_eq_ok : projected policy pool (.list kind) value = .ok out ↔
    ∃ items output, value = .array items ∧ out = .array output ∧
      List.Forall₂ (fun v w => scalar policy pool kind v = .ok w) items output := by
  cases value with
  | array items =>
    rw [projected_list, Except.map_eq_ok]
    constructor
    · rintro ⟨output, h, rfl⟩
      exact ⟨items, output, rfl, rfl, Except.mapM_eq_ok.1 h⟩
    · rintro ⟨_, output, h, rfl, hout⟩
      cases h
      exact ⟨output, Except.mapM_eq_ok.2 hout, rfl⟩
  | _ => simp [projected]

end MoenotesApi.Projection
