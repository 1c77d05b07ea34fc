import ProvenoZk.Foundation.Serde
import ProvenoZk.Policy.Codec

/-! A policy as JSON: what the derived serializer writes, what the derived reader makes of
a document, and which policies keep their hash on the way there and back. -/
namespace ProvenoZk.Policy
open Foundation Proveno

variable {N : Type} (serde : SerdeJson N)

namespace TlsRequirement

def variant : TlsRequirement → String
  | .requiredAttested => "RequiredAttested"
  | .preferredAttested => "PreferredAttested"
  | .unattestedPermitted => "UnattestedPermitted"

def ofVariant : String → Option TlsRequirement
  | "RequiredAttested" => some .requiredAttested
  | "PreferredAttested" => some .preferredAttested
  | "UnattestedPermitted" => some .unattestedPermitted
  | _ => none

theorem unitVariant_variant (tls : TlsRequirement) :
    De.unitVariant ofVariant (.string tls.variant : Json N) = .ok tls := by
  cases tls <;> rfl

end TlsRequirement

namespace OraclePolicy

def serialize (policy : OraclePolicy N) : Json N :=
  .object
    [("allowed_domains", .array (policy.allowedDomains.map .string)),
      ("allowed_http_methods", .array (policy.allowedHttpMethods.map .string)),
      ("max_tool_calls", .number (serde.ofU64 policy.maxToolCalls)),
      ("max_payload_bytes_per_call", .number (serde.ofU64 policy.maxPayloadBytesPerCall)),
      ("tls_requirement", .string policy.tlsRequirement.variant),
      ("required_output_schema", policy.requiredOutputSchema.getD .null),
      ("schema_versions", .object policy.schemaVersions)]

def ofFields (allowedDomains allowedHttpMethods : List String)
    (maxToolCalls maxPayloadBytesPerCall : UInt64) (tlsRequirement : TlsRequirement)
    (requiredOutputSchema : Option { v : Json N // v.DistinctKeys })
    (schemaVersions : { entries : List (String × Json N) // (Json.object entries).DistinctKeys }) :
    OraclePolicy N where
  allowedDomains := allowedDomains
  allowedHttpMethods := allowedHttpMethods
  maxToolCalls := maxToolCalls
  maxPayloadBytesPerCall := maxPayloadBytesPerCall
  tlsRequirement := tlsRequirement
  requiredOutputSchema := requiredOutputSchema.map Subtype.val
  schemaVersions := schemaVersions.val
  outputSchema_distinctKeys := by
    intro v hv
    obtain ⟨schema, _, rfl⟩ := Option.map_eq_some_iff.mp hv
    exact schema.property
  schemaVersions_distinctKeys := schemaVersions.property

abbrev noVersions : { entries : List (String × Json N) // (Json.object entries).DistinctKeys } :=
  ⟨[], Json.distinctKeys_empty⟩

/-- What the reader has met so far of each field. -/
structure Slots (N : Type) where
  allowedDomains : Option (List String) := none
  allowedHttpMethods : Option (List String) := none
  maxToolCalls : Option UInt64 := none
  maxPayloadBytesPerCall : Option UInt64 := none
  tlsRequirement : Option TlsRequirement := none
  requiredOutputSchema : Option (Option { v : Json N // v.DistinctKeys }) := none
  schemaVersions :
    Option { entries : List (String × Json N) // (Json.object entries).DistinctKeys } := none

def readSchema : Json N → Except DeError (Option { v : Json N // v.DistinctKeys }) :=
  De.option fun v => .ok v.read

/-- A name that is no field is passed over. -/
def Slots.visit (slots : Slots N) (e : String × Json N) : Except DeError (Slots N) :=
  match e.1 with
  | "allowed_domains" => do
    let slot ← De.visitField e.1 (De.vec De.string) slots.allowedDomains e.2
    return { slots with allowedDomains := slot }
  | "allowed_http_methods" => do
    let slot ← De.visitField e.1 (De.vec De.string) slots.allowedHttpMethods e.2
    return { slots with allowedHttpMethods := slot }
  | "max_tool_calls" => do
    let slot ← De.visitField e.1 (De.usize serde) slots.maxToolCalls e.2
    return { slots with maxToolCalls := slot }
  | "max_payload_bytes_per_call" => do
    let slot ← De.visitField e.1 (De.usize serde) slots.maxPayloadBytesPerCall e.2
    return { slots with maxPayloadBytesPerCall := slot }
  | "tls_requirement" => do
    let slot ← De.visitField e.1 (De.unitVariant TlsRequirement.ofVariant) slots.tlsRequirement e.2
    return { slots with tlsRequirement := slot }
  | "required_output_schema" => do
    let slot ← De.visitField e.1 readSchema slots.requiredOutputSchema e.2
    return { slots with requiredOutputSchema := slot }
  | "schema_versions" => do
    let slot ← De.visitField e.1 De.map slots.schemaVersions e.2
    return { slots with schemaVersions := slot }
  | _ => return slots

/-- Only the limits and the requirement have no default. -/
def Slots.finish (slots : Slots N) : Except DeError (OraclePolicy N) := do
  let allowedDomains ← De.endField "allowed_domains" (some []) slots.allowedDomains
  let allowedHttpMethods ← De.endField "allowed_http_methods" (some []) slots.allowedHttpMethods
  let maxToolCalls ← De.endField "max_tool_calls" none slots.maxToolCalls
  let maxPayloadBytesPerCall ←
    De.endField "max_payload_bytes_per_call" none slots.maxPayloadBytesPerCall
  let tlsRequirement ← De.endField "tls_requirement" none slots.tlsRequirement
  let requiredOutputSchema ←
    De.endField "required_output_schema" (some none) slots.requiredOutputSchema
  let schemaVersions ← De.endField "schema_versions" (some noVersions) slots.schemaVersions
  return ofFields allowedDomains allowedHttpMethods maxToolCalls maxPayloadBytesPerCall
    tlsRequirement requiredOutputSchema schemaVersions

/-- A struct may also be written as the array of its fields. -/
def ofItems (items : List (Json N)) : Except DeError (OraclePolicy N) := do
  let allowedDomains ← De.element items 0 (De.vec De.string) (some [])
  let allowedHttpMethods ← De.element items 1 (De.vec De.string) (some [])
  let maxToolCalls ← De.element items 2 (De.usize serde) none
  let maxPayloadBytesPerCall ← De.element items 3 (De.usize serde) none
  let tlsRequirement ← De.element items 4 (De.unitVariant TlsRequirement.ofVariant) none
  let requiredOutputSchema ← De.element items 5 readSchema (some none)
  let schemaVersions ← De.element items 6 De.map (some noVersions)
  if items.length > 7 then throw .trailingItems
  return ofFields allowedDomains allowedHttpMethods maxToolCalls maxPayloadBytesPerCall
    tlsRequirement requiredOutputSchema schemaVersions

def deserialize : Json N → Except DeError (OraclePolicy N)
  | .object entries => do
    let slots ← entries.foldlM (Slots.visit serde) {}
    slots.finish
  | .array items => ofItems serde items
  | _ => .error (.invalidType "struct OraclePolicy")

def fromJson (src : String) : Except String (OraclePolicy N) :=
  match serde.fromStr src with
  | .error e => .error s!"invalid policy JSON: {e}"
  | .ok document => match deserialize serde document with
    | .error e => .error s!"invalid policy JSON: {serde.describe src e}"
    | .ok policy => .ok policy

def toJson (policy : OraclePolicy N) : String :=
  serde.toStringPretty (policy.serialize serde)

/-! There and back, a `null` schema has become no schema. -/

def nullAsNone : Option (Json N) → Option (Json N)
  | some .null => none
  | schema => schema

theorem nullAsNone_eq_self {schema : Option (Json N)} (h : schema ≠ some .null) :
    nullAsNone schema = schema := by
  unfold nullAsNone
  split
  · contradiction
  · rfl

theorem nullAsNone_mem {schema : Option (Json N)} {v : Json N} (hv : v ∈ nullAsNone schema) :
    v ∈ schema := by
  unfold nullAsNone at hv
  split at hv
  · cases hv
  · exact hv

def readBack (policy : OraclePolicy N) : OraclePolicy N :=
  { policy with
    requiredOutputSchema := nullAsNone policy.requiredOutputSchema
    outputSchema_distinctKeys := by
      intro v hv
      exact policy.outputSchema_distinctKeys v (nullAsNone_mem hv) }

theorem readSchema_getD {schema : Option (Json N)} (h : ∀ v ∈ schema, v.DistinctKeys) :
    ∃ read, readSchema (schema.getD .null) = .ok read ∧
      read.map Subtype.val = nullAsNone schema := by
  cases schema with
  | none => exact ⟨none, rfl, rfl⟩
  | some v =>
    have hvalue := Json.toValue_of_distinctKeys (h v rfl)
    cases v with
    | null => exact ⟨none, rfl, rfl⟩
    | bool b => exact ⟨some (Json.read (.bool b)), rfl, rfl⟩
    | number n => exact ⟨some (Json.read (.number n)), rfl, rfl⟩
    | string s => exact ⟨some (Json.read (.string s)), rfl, rfl⟩
    | array items => exact ⟨some (Json.read (.array items)), rfl, congrArg some hvalue⟩
    | object entries => exact ⟨some (Json.read (.object entries)), rfl, congrArg some hvalue⟩

theorem deserialize_serialize (policy : OraclePolicy N) :
    deserialize serde (policy.serialize serde) = .ok policy.readBack := by
  obtain ⟨schema, hschema, hread⟩ := readSchema_getD policy.outputSchema_distinctKeys
  have hversions := De.map_object policy.schemaVersions_distinctKeys
  have hfields : ofFields policy.allowedDomains policy.allowedHttpMethods policy.maxToolCalls
      policy.maxPayloadBytesPerCall policy.tlsRequirement schema
      ⟨policy.schemaVersions, policy.schemaVersions_distinctKeys⟩ = policy.readBack := by
    simp only [ofFields, hread, readBack]
  rw [← hfields, serialize, deserialize]
  simp only [List.foldlM_cons, List.foldlM_nil, Slots.visit, bind_assoc, pure_bind,
    De.visitField_none (De.vec_string policy.allowedDomains),
    De.visitField_none (De.vec_string policy.allowedHttpMethods),
    De.visitField_none (De.usize_ofU64 serde policy.maxToolCalls),
    De.visitField_none (De.usize_ofU64 serde policy.maxPayloadBytesPerCall),
    De.visitField_none (TlsRequirement.unitVariant_variant policy.tlsRequirement),
    De.visitField_none hschema, De.visitField_none hversions]
  rfl

theorem fromJson_toJson {policy : OraclePolicy N}
    (hreads : serde.ReadsBack (policy.serialize serde)) :
    fromJson serde (policy.toJson serde) = .ok policy.readBack := by
  unfold SerdeJson.ReadsBack at hreads
  unfold fromJson toJson
  simp only [hreads, deserialize_serialize]

theorem readBack_eq_self {policy : OraclePolicy N} (h : policy.requiredOutputSchema ≠ some .null) :
    policy.readBack = policy := by
  cases policy
  simp only [readBack, nullAsNone_eq_self h]

theorem canonicalBytes_readBack_ne (R : JsonRenderer N) {policy : OraclePolicy N}
    (h : policy.requiredOutputSchema = some .null) :
    policy.readBack.canonicalBytes R ≠ policy.canonicalBytes R := by
  intro heq
  have hlength := congrArg List.length heq
  rw [← bytes_document, ← bytes_document] at hlength
  have hnull : (canonicalJsonBytes R .null).length = 4 := by
    rw [canonicalJsonBytes, canonicalJsonWrite]
    decide
  simp only [Document.bytes, document, readBack, nullAsNone, h, Document.blobBytes, Option.map_none,
    Option.map_some, Option.getD_none, Option.getD_some, List.length_append, length_leBytes,
    List.length_nil, hnull] at hlength
  omega

/-- The document and its hash survive the text exactly when the output schema is not a bare
`null`, which the reader takes for a schema that is not there. -/
theorem fromJson_toJson_iff (R : JsonRenderer N) (sha256 : List UInt8 → Bytes32)
    (policy : OraclePolicy N) (hreads : serde.ReadsBack (policy.serialize serde)) :
    (∃ policy', fromJson serde (policy.toJson serde) = .ok policy' ∧
      policy'.canonicalBytes R = policy.canonicalBytes R ∧
      policy'.policyHash R sha256 = policy.policyHash R sha256) ↔
    policy.requiredOutputSchema ≠ some .null := by
  rw [fromJson_toJson serde hreads]
  constructor
  · rintro ⟨policy', hpolicy, hbytes, _⟩ hnull
    cases hpolicy
    exact canonicalBytes_readBack_ne R hnull hbytes
  · intro hschema
    rw [readBack_eq_self hschema]
    exact ⟨policy, rfl, rfl, rfl⟩

/-! The price feed, with its output schema and with a bare `null` in its place. -/

def priceFeedDocument (schema : Json Int) : Json Int :=
  .object
    [("allowed_domains", .array [.string "b.example", .string "a.example"]),
      ("allowed_http_methods", .array [.string "http_get"]),
      ("max_tool_calls", .number 4),
      ("max_payload_bytes_per_call", .number 1024),
      ("tls_requirement", .string "PreferredAttested"),
      ("required_output_schema", schema),
      ("schema_versions", .object [("a.example", .object [("price", .number 0)])])]

def priceFeedText (schema : String) : String :=
  "\x7b\n  \"allowed_domains\": [\n    \"b.example\",\n    \"a.example\"\n  ],\n" ++
  "  \"allowed_http_methods\": [\n    \"http_get\"\n  ],\n" ++
  "  \"max_tool_calls\": 4,\n  \"max_payload_bytes_per_call\": 1024,\n" ++
  "  \"tls_requirement\": \"PreferredAttested\",\n" ++
  "  \"required_output_schema\": " ++ schema ++ ",\n" ++
  "  \"schema_versions\": \x7b\n    \"a.example\": \x7b\n      \"price\": 0\n    \x7d\n  \x7d\n\x7d"

def priceFeedSerde (schema : Json Int) (text : String) : SerdeJson Int where
  toStringPretty := fun _ => priceFeedText text
  fromStr := fun s =>
    if s = priceFeedText text then .ok (priceFeedDocument schema)
    else .error "expected value at line 1 column 1"
  ofU64 := fun n => n.toNat
  asU64 := fun n => if 0 ≤ n ∧ n < 2 ^ 64 then some (.ofNat n.toNat) else none
  asU64_ofU64 := by
    intro n
    have hn := n.toNat_lt
    rw [if_pos ⟨by omega, by omega⟩, Int.toNat_natCast, UInt64.ofNat_toNat]
  describe := fun _ _ => "invalid policy"

theorem priceFeedSerde_readsBack {policy : OraclePolicy Int} {schema : Json Int} {text : String}
    (h : policy.serialize (priceFeedSerde schema text) = priceFeedDocument schema) :
    (priceFeedSerde schema text).ReadsBack (policy.serialize (priceFeedSerde schema text)) := by
  rw [SerdeJson.ReadsBack, h]
  simp only [priceFeedSerde, if_true]

def leadingBytes (bytes : List UInt8) : Bytes32 := Vector.ofFn fun i => bytes.getD i 0

def okSerde : SerdeJson Int :=
  priceFeedSerde (.object [("ok", .bool true)]) "\x7b\n    \"ok\": true\n  \x7d"

theorem fromJson_toJson_iff_priceFeed :
    ∃ policy', fromJson okSerde (priceFeed.toJson okSerde) = .ok policy' ∧
      policy'.canonicalBytes integerRenderer = priceFeed.canonicalBytes integerRenderer ∧
      policy'.policyHash integerRenderer leadingBytes =
        priceFeed.policyHash integerRenderer leadingBytes :=
  (fromJson_toJson_iff okSerde integerRenderer leadingBytes priceFeed
    (priceFeedSerde_readsBack rfl)).mpr nofun

def anyOutput : OraclePolicy Int :=
  { priceFeed with
    requiredOutputSchema := some .null
    outputSchema_distinctKeys := by
      rintro v ⟨⟩
      exact .null }

def nullSerde : SerdeJson Int := priceFeedSerde .null "null"

/-- The policy that accepts any output reads back as another document. -/
theorem anyOutput_not_preserved :
    nullSerde.ReadsBack (anyOutput.serialize nullSerde) ∧
    ¬ ∃ policy', fromJson nullSerde (anyOutput.toJson nullSerde) = .ok policy' ∧
      policy'.canonicalBytes integerRenderer = anyOutput.canonicalBytes integerRenderer := by
  have hreads : nullSerde.ReadsBack (anyOutput.serialize nullSerde) := priceFeedSerde_readsBack rfl
  refine ⟨hreads, ?_⟩
  rintro ⟨policy', hpolicy, hbytes⟩
  rw [fromJson_toJson nullSerde hreads] at hpolicy
  cases hpolicy
  exact canonicalBytes_readBack_ne integerRenderer rfl hbytes

end OraclePolicy

end ProvenoZk.Policy
