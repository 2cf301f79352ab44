import MoenotesApi.Client.Operation
import MoenotesApi.Library.FormText
import MoenotesApi.Library.JsonTree
import MoenotesApi.Server.Descriptors

/-!
# Requests of the typed queries

`query.rs`: the request messages, how they are read from JSON and what makes them valid.  Fields go
by their JSON names.

* `Fields`, `requestFields`: the descriptors of the inputs in `METHODS`;
* `RequestMessage`, `TypedQuery`, `TypedQuery.valid`: a request with the values of all its fields;
* `readMessage`: the protobuf JSON mapping, on the JSON that the server writes;
* `ProtobufJson`: `prost_reflect`, which reads JSON, with `prost`, which decodes what it encodes;
* `fromJson`: `Query::from_json`.
-/

namespace MoenotesApi

open FormText JsonTree

/-! ### Descriptors -/

/-- Whether a leaf occurs often, and whether its absence shows. -/
inductive Cardinality
  | implicit
  | optional
  | repeated
  deriving DecidableEq, Repr

/-- The fields of a message: leaves and singular messages. -/
inductive Fields
  | nil
  | leaf (name : String) (kind : Kind Empty) (cardinality : Cardinality) (rest : Fields)
  | message (name : String) (nested rest : Fields)

/-- The descriptor of a leaf. -/
structure Leaf where
  kind : Kind Empty
  cardinality : Cardinality

/-- `FieldDescriptor::is_list`. -/
def Leaf.isList (leaf : Leaf) : Bool := leaf.cardinality = .repeated

/-- `app.announcement.Tab`. -/
def announcementTab : List (String × ℤ) := [("ALL", 0), ("OPENING_EVENTS", 1), ("BUG", 2)]

/-- `entity.MemberRange`. -/
def memberRange : List (String × ℤ) :=
  [("MEMBER_RANGE_UNSPECIFIED", 0), ("MEMBER_RANGE_1", 1), ("MEMBER_RANGE_2", 2),
    ("MEMBER_RANGE_3", 3)]

/-- `entity.JoinRule`. -/
def joinRule : List (String × ℤ) :=
  [("JOIN_RULE_UNSPECIFIED", 0), ("AUTO", 1), ("REQUEST", 2), ("INVITE", 3)]

/-- `entity.PlayStyle`. -/
def playStyle : List (String × ℤ) :=
  [("PLAY_STYLE_UNSPECIFIED", 0), ("FREE", 1), ("CASUAL", 2), ("HARD", 3), ("BEGINNER", 4)]

/-- `entity.SearchOptions`. -/
def searchOptions : Fields :=
  .leaf "name" .string .implicit <|
  .leaf "memberRange" (.enum memberRange) .implicit <|
  .leaf "joinRule" (.enum joinRule) .implicit <|
  .leaf "playStyle" (.enum playStyle) .implicit .nil

/-- The messages that `pool().get_message_by_name` finds for the inputs of `METHODS`. -/
def requestFields : String → Fields
  | "app.announcement.GetRequest" => .leaf "id" .int64 .implicit .nil
  | "app.announcement.GetListRequest" =>
    .leaf "selectedTab" (.enum announcementTab) .implicit .nil
  | "app.arena.ArenaRankingRequest" =>
    .leaf "arenaSeasonId" .int64 .implicit <| .leaf "bandId" .int64 .optional <|
      .leaf "rankingStart" .int64 .implicit <| .leaf "rankingEnd" .int64 .implicit .nil
  | "app.arena.DeckTrendRequest" =>
    .leaf "musicId" .int64 .implicit <| .leaf "arenaSeasonId" .int64 .implicit .nil
  | "app.circle.GetCircleRequest" => .leaf "circleId" .uint64 .implicit .nil
  | "app.circle.SearchRequest" => .message "options" searchOptions .nil
  | "app.event.GetChallengeMusicRankingRequest" => .leaf "challengeMusicId" .int64 .implicit .nil
  | "app.event.GetDeckRequest" =>
    .leaf "playerId" .string .implicit <| .leaf "eventId" .int64 .implicit .nil
  | "app.event.GetRankingListRequest" =>
    .leaf "eventId" .int64 .implicit <| .leaf "ranks" .int32 .repeated .nil
  | "app.friend.FindByProfileIDRequest" => .leaf "playerProfileId" .int64 .implicit .nil
  | "app.gacha.ProbabilityRequest" =>
    .leaf "gachaId" .int64 .implicit <| .leaf "productId" .int64 .implicit <|
      .leaf "selectedPickUp" .int64 .repeated .nil
  | "app.livemusic.GetRankingRequest" => .leaf "musicId" .int64 .implicit .nil
  | "app.player.GetPlayerFavoriteStatusRequest" => .leaf "playerId" .string .implicit .nil
  | "app.playerext.GetPlayerListRequest" => .leaf "accountIds" .int64 .repeated .nil
  -- the inputs of the other methods have no fields
  | _ => .nil

/-! ### Messages -/

inductive Scalar
  | int (n : ℤ)
  | text (s : String)
  | bool (b : Bool)
  deriving DecidableEq, Repr

/-- The value of a leaf, by its cardinality. -/
inductive LeafValue
  | one (v : Scalar)
  | maybe (v : Option Scalar)
  | many (vs : List Scalar)
  deriving DecidableEq, Repr

/-- A message with the values of all its fields; `unset` is a nested message that is not there. -/
inductive RequestMessage
  | nil
  | leaf (name : String) (v : LeafValue) (rest : RequestMessage)
  | unset (name : String) (rest : RequestMessage)
  | message (name : String) (nested rest : RequestMessage)
  deriving DecidableEq, Repr

namespace RequestMessage

def leafAt (name : String) : RequestMessage → Option LeafValue
  | .nil => none
  | .leaf name' v rest => if name = name' then some v else leafAt name rest
  | .unset _ rest | .message _ _ rest => leafAt name rest

def nestedAt (name : String) : RequestMessage → Option RequestMessage
  | .nil => none
  | .message name' nested rest => if name = name' then some nested else nestedAt name rest
  | .unset _ rest | .leaf _ _ rest => nestedAt name rest

def int (r : RequestMessage) (name : String) : ℤ :=
  match r.leafAt name with
  | some (.one (.int n)) => n
  | _ => 0

def maybeInt (r : RequestMessage) (name : String) : Option ℤ :=
  match r.leafAt name with
  | some (.maybe (some (.int n))) => some n
  | _ => none

def ints (r : RequestMessage) (name : String) : List ℤ :=
  match r.leafAt name with
  | some (.many vs) => vs.filterMap fun v => match v with
    | .int n => some n
    | _ => none
  | _ => []

def text (r : RequestMessage) (name : String) : String :=
  match r.leafAt name with
  | some (.one (.text s)) => s
  | _ => ""

end RequestMessage

/-- `valid_player`. -/
def validPlayer (value : String) : Bool := value ≠ "" && (utf8 value).length ≤ 256

/-- `Query`: the variant with its request. -/
structure TypedQuery where
  variant : QueryVariant
  message : RequestMessage
  deriving DecidableEq, Repr

/-- `Query::validate`. -/
def TypedQuery.valid (query : TypedQuery) : Bool :=
  let r := query.message
  match query.variant with
  | .announcement => 0 < r.int "id"
  | .announcements => 0 ≤ r.int "selectedTab" && r.int "selectedTab" ≤ 2
  | .arenaRanking =>
    0 < r.int "arenaSeasonId" && (r.maybeInt "bandId").all (fun v => 0 ≤ v) &&
      0 < r.int "rankingStart" && r.int "rankingStart" ≤ r.int "rankingEnd" &&
      r.int "rankingEnd" - r.int "rankingStart" < 100
  | .deckTrend => 0 < r.int "musicId" && 0 < r.int "arenaSeasonId"
  | .circle => 0 < r.int "circleId"
  | .circleSearch => (r.nestedAt "options").any fun o => (utf8 (o.text "name")).length ≤ 256
  | .challengeRanking => 0 < r.int "challengeMusicId"
  | .eventDeck => 0 < r.int "eventId" && validPlayer (r.text "playerId")
  | .eventRanking =>
    0 < r.int "eventId" && r.ints "ranks" ≠ [] && (r.ints "ranks").length ≤ 100 &&
      (r.ints "ranks").all fun v => 0 < v
  | .profile => 0 < r.int "playerProfileId"
  | .probability =>
    0 < r.int "gachaId" && r.int "productId" = 0 && (r.ints "selectedPickUp").length ≤ 100 &&
      (r.ints "selectedPickUp").all fun v => 0 < v
  | .musicRanking => 0 < r.int "musicId"
  | .favoriteStatus => validPlayer (r.text "playerId")
  | .profiles =>
    r.ints "accountIds" ≠ [] && (r.ints "accountIds").length ≤ 100 &&
      (r.ints "accountIds").all fun v => 0 < v
  | .circleRecommendations | .serverList | .version | .whoami => true

/-! ### The JSON mapping -/

/-- The least and the greatest value of an integer kind. -/
def intRange : Kind Empty → Option (ℤ × ℤ)
  | .int64 | .sint64 | .sfixed64 => some (-2 ^ 63, 2 ^ 63 - 1)
  | .uint64 | .fixed64 => some (0, 2 ^ 64 - 1)
  | .int32 | .sint32 | .sfixed32 | .enum _ => some (-2 ^ 31, 2 ^ 31 - 1)
  | .uint32 | .fixed32 => some (0, 2 ^ 32 - 1)
  | _ => none

/-- Why a value is not read: it has an unknown name of an enumeration, or it is not of the form that
the server writes. -/
inductive Refusal
  | unknownName
  | notCanonical
  deriving DecidableEq, Repr

/-- An integer in canonical decimal notation, in the range of its kind. -/
def readInt (kind : Kind Empty) (text : String) : Except Refusal Scalar :=
  match intRange kind, text.toInt? with
  | some (least, greatest), some n =>
    if least ≤ n ∧ n ≤ greatest ∧ toString n = text then .ok (.int n) else .error .notCanonical
  | _, _ => .error .notCanonical

/-- 64-bit integers are strings, other integers are numbers, and an enumeration is either its name or
its number. -/
def readScalar : Kind Empty → Value → Except Refusal Scalar
  | .string, .string text => .ok (.text text)
  | .bool, .bool b => .ok (.bool b)
  | .enum values, .string text =>
    match values.find? fun v => v.1 = text with
    | some v => .ok (.int v.2)
    | none => .error .unknownName
  | .enum values, .number text => readInt (.enum values) text
  | .int64, .string text => readInt .int64 text
  | .sint64, .string text => readInt .sint64 text
  | .sfixed64, .string text => readInt .sfixed64 text
  | .uint64, .string text => readInt .uint64 text
  | .fixed64, .string text => readInt .fixed64 text
  | .int32, .number text => readInt .int32 text
  | .sint32, .number text => readInt .sint32 text
  | .sfixed32, .number text => readInt .sfixed32 text
  | .uint32, .number text => readInt .uint32 text
  | .fixed32, .number text => readInt .fixed32 text
  | _, _ => .error .notCanonical

/-- What a leaf without presence holds when it is not set. -/
def defaultScalar : Kind Empty → Scalar
  | .string | .bytes => .text ""
  | .bool => .bool false
  | _ => .int 0

def readLeaf (kind : Kind Empty) : Cardinality → Option Value → Except Refusal LeafValue
  | .implicit, none => .ok (.one (defaultScalar kind))
  | .implicit, some v => return .one (← readScalar kind v)
  | .optional, none => .ok (.maybe none)
  | .optional, some v => return .maybe (some (← readScalar kind v))
  | .repeated, none => .ok (.many [])
  | .repeated, some (.array items) => return .many (← items.mapM (readScalar kind))
  | .repeated, some _ => .error .notCanonical

def Fields.names : Fields → List String
  | .nil => []
  | .leaf name _ _ rest | .message name _ rest => name :: rest.names

/-- The object has no other keys than the names of the fields. -/
def Fields.declares (fields : Fields) (m : List (String × Value)) : Bool :=
  (SortedMap.keys m).all fun k => k ∈ fields.names

def readFields : Fields → List (String × Value) → Except Refusal RequestMessage
  | .nil, _ => .ok .nil
  | .leaf name kind cardinality rest, m => do
    let v ← readLeaf kind cardinality (SortedMap.get name m)
    return .leaf name v (← readFields rest m)
  | .message name nested rest, m =>
    match SortedMap.get name m with
    | none => do return .unset name (← readFields rest m)
    | some (.object m') => do
      .refuse (nested.declares m' = false) .notCanonical
      let inner ← readFields nested m'
      return .message name inner (← readFields rest m)
    | some _ => .error .notCanonical

/-- The message that an object stands for. -/
def readMessage (fields : Fields) : Value → Except Refusal RequestMessage
  | .object m => do
    .refuse (fields.declares m = false) .notCanonical
    readFields fields m
  | _ => .error .notCanonical

/-- `DynamicMessage::deserialize`, and decoding what `encode_to_vec` returns. -/
structure ProtobufJson where
  deserialize : Fields → Value → Option RequestMessage
  /-- Canonical JSON is read by the protobuf JSON mapping, and an unknown name of an enumeration is
  refused. -/
  deserialize_eq : ∀ fields v, readMessage fields v ≠ .error .notCanonical →
    deserialize fields v = (readMessage fields v).toOption

/-- A reader of canonical JSON only. -/
def canonicalJson : ProtobufJson where
  deserialize fields v := (readMessage fields v).toOption
  deserialize_eq _ _ _ := rfl

/-! ### Queries from JSON -/

def invalidRequest : ClientError := .new .invalidRequest

/-- The variants in the order of `METHODS`. -/
def QueryVariant.all : List QueryVariant :=
  [.announcement, .announcements, .arenaRanking, .deckTrend, .circle, .circleRecommendations,
    .circleSearch, .challengeRanking, .eventDeck, .eventRanking, .profile, .probability,
    .musicRanking, .favoriteStatus, .profiles, .serverList, .version, .whoami]

/-- `METHODS.iter().find(|m| m.name == name)`. -/
def QueryVariant.find (name : String) : Option QueryVariant :=
  QueryVariant.all.find? fun variant => variant.method.name = name

/-- `pool().get_message_by_name(method.input)`. -/
def QueryVariant.fields (variant : QueryVariant) : Fields := requestFields variant.method.input

/-- `Query::from_json`. -/
def fromJson (json : ProtobufJson) (name : String) (v : Value) : Except ClientError TypedQuery := do
  let some variant := QueryVariant.find name
    | .error invalidRequest
  let some message := json.deserialize variant.fields v
    | .error invalidRequest
  let query : TypedQuery := ⟨variant, message⟩
  .refuse (query.valid = false) invalidRequest
  return query

theorem QueryVariant.find_name (variant : QueryVariant) :
    QueryVariant.find variant.method.name = some variant := by
  cases variant <;> decide +kernel

theorem fromJson_eq_ok {json : ProtobufJson} {variant : QueryVariant} {v : Value} {q : TypedQuery} :
    fromJson json variant.method.name v = .ok q ↔
      ∃ message, json.deserialize variant.fields v = some message ∧ q = ⟨variant, message⟩ ∧
        q.valid = true := by
  unfold fromJson
  simp only [QueryVariant.find_name]
  cases json.deserialize variant.fields v with
  | none => simp
  | some message =>
    simp only [Except.bind_eq_ok, Except.refuse_eq_ok, Except.pure_eq_ok, Option.some.injEq]
    constructor
    · rintro ⟨-, hvalid, rfl⟩
      exact ⟨message, rfl, rfl, by simpa using hvalid⟩
    · rintro ⟨_, rfl, rfl, hvalid⟩
      exact ⟨(), by simpa using hvalid, rfl⟩

end MoenotesApi
