import MoenotesApi.Library.FormEscapes
import MoenotesApi.Server.Request

/-!
# Query parameters

`query_params.rs`: a query string becomes a JSON object, which is read as a request.

* `fields`, `scalar`, `insert`, `parse`: the code; `addParameter` is the body of its loop;
* `FormUrlencoded`: `url::form_urlencoded`.

A JSON object is a sorted map, and a field path is split at its dots.
-/

namespace MoenotesApi.QueryParams

open FormText JsonTree

def MAX_QUERY_BYTES : ℕ := 8192

def MAX_PARAMETERS : ℕ := 256

/-- `url::form_urlencoded`. -/
structure FormUrlencoded where
  parse : Bytes → List (String × String)
  /-- `Serializer::append_pair` for each of the pairs, and `finish`. -/
  serialize : List (String × String) → String
  /-- Bytes as a string, where bytes that are not UTF-8 are replaced. -/
  lossy : Bytes → String
  lossy_utf8 : ∀ s, lossy (utf8 s) = s
  /-- The pieces between the `&` that are not empty, taken apart at their first `=` and decoded. -/
  parse_eq : ∀ body, parse body = (pieces body).map fun piece =>
    ((splitPair piece).map decodeText decodeText).map lossy lossy
  utf8_serialize : ∀ pairs, utf8 (serialize pairs) = encodePairs pairs

/-- The format as the WHATWG describes it, with one mark for a text that is not UTF-8. -/
def whatwg : FormUrlencoded where
  parse body := (pieces body).map fun piece =>
    ((splitPair piece).map decodeText decodeText).map (fun bs => (ofUtf8? bs).getD "\uFFFD")
      fun bs => (ofUtf8? bs).getD "\uFFFD"
  serialize pairs := (ofUtf8? (encodePairs pairs)).getD ""
  lossy bs := (ofUtf8? bs).getD "\uFFFD"
  lossy_utf8 s := by rw [ofUtf8?_utf8, Option.getD_some]
  parse_eq _ := rfl
  utf8_serialize pairs := by
    obtain ⟨s, hs⟩ := valid_encodePairs pairs
    rw [ofUtf8?_eq_some.2 hs, Option.getD_some, hs]

/-- The loop of `collect` in `fields`. -/
def collect : Fields → String → List (String × Leaf)
  | .nil, _ => []
  | .leaf name kind cardinality rest, path =>
    (path ++ name, ⟨kind, cardinality⟩) :: collect rest path
  | .message name nested rest, path => collect nested (path ++ name ++ ".") ++ collect rest path

/-- The leaves of a message with their dotted names. -/
def fields (message : Fields) : List (String × Leaf) := collect message ""

/-- `key.split('.')`. -/
def splitKey (key : String) : List String := (key.toList.splitOn '.').map String.ofList

def insert : List (String × Value) → List String → Value → Bool →
    Except ClientError (List (String × Value))
  | object, [name], value, repeated =>
    if repeated then
      match (SortedMap.get name object).getD (.array []) with
      | .array items => .ok (SortedMap.insert name (.array (items ++ [value])) object)
      | _ => .error invalidRequest
    else if (SortedMap.get name object).isSome then .error invalidRequest
    else .ok (SortedMap.insert name value object)
  | object, name :: path, value, repeated =>
    match (SortedMap.get name object).getD (.object []) with
    | .object nested => do
      let nested ← insert nested path value repeated
      return SortedMap.insert name (.object nested) object
    | _ => .error invalidRequest
  -- `split` always returns at least one part
  | _, [], _, _ => .error invalidRequest

/-- `digits` in `scalar`. -/
def digits (text : String) (signed : Bool) : Bool :=
  let value :=
    match signed, text.toList with
    | true, '-' :: rest => rest
    | _, chars => chars
  value ≠ [] && value.all Char.isDigit

/-- The number that decimal digits stand for. -/
def decimal (chars : List Char) : ℕ := chars.foldl (fun n c => 10 * n + (c.toNat - 48)) 0

/-- The number that decimal digits, after a minus or not, stand for. -/
def integer (text : String) : ℤ :=
  match text.toList with
  | '-' :: rest => -decimal rest
  | chars => decimal chars

/-- `text.parse()` at an integer type with these bounds, on a text with `digits`. -/
def parseInt (least greatest : ℤ) (text : String) : Except ClientError ℤ :=
  if least ≤ integer text ∧ integer text ≤ greatest then .ok (integer text)
  else .error invalidRequest

def scalar (kind : Kind Empty) (text : String) : Except ClientError Value :=
  match kind with
  | .string => .ok (.string text)
  | .int64 | .sint64 | .sfixed64 =>
    if digits text true then
      (parseInt (-2 ^ 63) (2 ^ 63 - 1) text).map fun v => .string (toString v)
    else .error invalidRequest
  | .uint64 | .fixed64 =>
    if digits text false then (parseInt 0 (2 ^ 64 - 1) text).map fun v => .string (toString v)
    else .error invalidRequest
  | .int32 | .sint32 | .sfixed32 =>
    if digits text true then
      (parseInt (-2 ^ 31) (2 ^ 31 - 1) text).map fun v => .number (toString v)
    else .error invalidRequest
  | .uint32 | .fixed32 =>
    if digits text false then (parseInt 0 (2 ^ 32 - 1) text).map fun v => .number (toString v)
    else .error invalidRequest
  | .enum _ =>
    if digits text true then
      (parseInt (-2 ^ 31) (2 ^ 31 - 1) text).map fun v => .number (toString v)
    else .ok (.string text)
  | .bool =>
    if text = "true" ∨ text = "false" then .ok (.bool (text = "true")) else .error invalidRequest
  | _ => .error invalidRequest

/-- The body of the loop of `parse`, for a pair with its position. -/
def addParameter (allowed : List (String × Leaf)) (object : List (String × Value))
    (parameter : (String × String) × ℕ) : Except ClientError (List (String × Value)) := do
  .refuse (MAX_PARAMETERS ≤ parameter.2) invalidRequest
  let some (_, field) := allowed.find? fun entry => entry.1 = parameter.1.1
    | .error invalidRequest
  let value ← scalar field.kind parameter.1.2
  insert object (splitKey parameter.1.1) value field.isList

/-- The object that the loop starts from: a search always has `options`. -/
def startObject (name : String) : List (String × Value) :=
  if name = "circle-search" then SortedMap.insert "options" (.object []) [] else []

/-- `parse` once the text has passed the checks. -/
def parsePairs (json : ProtobufJson) (name : String) (pairs : List (String × String)) :
    Except ClientError TypedQuery := do
  let some variant := QueryVariant.find name
    | .error invalidRequest
  let object ← pairs.zipIdx.foldlM (addParameter (fields variant.fields)) (startObject name)
  fromJson json name (.object object)

def parse (form : FormUrlencoded) (json : ProtobufJson) (name : String) (raw : Option String) :
    Except ClientError TypedQuery := do
  let raw := utf8 (raw.getD "")
  .refuse (MAX_QUERY_BYTES < raw.length) invalidRequest
  .refuse (wellFormed raw = false) invalidRequest
  .refuse ((ofUtf8? (percentDecode raw)).isNone) invalidRequest
  parsePairs json name (form.parse raw)

section Form

variable (form : FormUrlencoded)

/-- Pairs are read back as they were written. -/
theorem parse_serialize (pairs : List (String × String)) :
    form.parse (utf8 (form.serialize pairs)) = pairs := by
  rw [form.parse_eq, form.utf8_serialize, pieces_encodePairs, List.map_map]
  conv_rhs => rw [← List.map_id pairs]
  refine List.map_congr_left fun pair _ => ?_
  rw [Function.comp_apply, splitPair_encodePair, Prod.map_apply, form.lossy_utf8, form.lossy_utf8]
  rfl

/-- Texts with an `&` between them have the pairs of both. -/
theorem parse_append (a b : Bytes) : form.parse (a ++ 38 :: b) = form.parse a ++ form.parse b := by
  rw [form.parse_eq, form.parse_eq, form.parse_eq, pieces_append, List.map_append]

theorem parse_nil : form.parse [] = [] := by
  rw [form.parse_eq, pieces_nil]
  rfl

end Form

/-- What `parse` does with a text that passes its checks. -/
theorem parse_of_readable {form : FormUrlencoded} {json : ProtobufJson} {name raw : String}
    (hlen : (utf8 raw).length ≤ MAX_QUERY_BYTES) (hraw : Readable (utf8 raw)) :
    parse form json name (some raw) = parsePairs json name (form.parse (utf8 raw)) := by
  obtain ⟨hwf, s, hs⟩ := hraw
  have hsome : ofUtf8? (percentDecode (utf8 raw)) = some s := ofUtf8?_eq_some.2 hs
  unfold parse
  simp [Except.refuse, hwf, hsome, Nat.not_lt.2 hlen, bind, Except.bind]

end MoenotesApi.QueryParams
