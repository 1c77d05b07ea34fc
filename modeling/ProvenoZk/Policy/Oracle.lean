import ProvenoZk.Policy.Canonical
import ProvenoZk.Policy.CanonicalJson

/-! `OraclePolicy`, the host's own form of a policy: its canonical bytes, the hash
over them, and the checks the host makes with it. JSON text and SHA-256 come
from libraries and are parameters. -/
namespace ProvenoZk.Policy
open Foundation Proveno

variable {N : Type}

/-- Defines admissibility for one oracle execution. The schemas are JSON values and
`schemaVersions` is a map, so no key occurs twice in any of them. -/
structure OraclePolicy (N : Type) where
  allowedDomains : List String
  allowedHttpMethods : List String
  maxToolCalls : UInt64
  maxPayloadBytesPerCall : UInt64
  tlsRequirement : TlsRequirement
  requiredOutputSchema : Option (Json N)
  schemaVersions : List (String × Json N)
  outputSchema_distinctKeys : ∀ v ∈ requiredOutputSchema, v.DistinctKeys
  schemaVersions_distinctKeys : (Json.object schemaVersions).DistinctKeys

mutual
/-- A `null` schema accepts anything, and extra keys of `actual` are permitted. -/
def schemaMatches : Json N → Json N → Bool
  | .null, _ => true
  | .bool _, actual => match actual with | .bool _ => true | _ => false
  | .number _, actual => match actual with | .number _ => true | _ => false
  | .string _, actual => match actual with | .string _ => true | _ => false
  | .array items, actual => match actual with
    | .array actualItems => schemaMatchesFirst items actualItems
    | _ => false
  | .object entries, actual => match actual with
    | .object actualEntries => schemaMatchesEntries entries actualEntries
    | _ => false

/-- The first item of an array schema is the schema of every item. -/
def schemaMatchesFirst : List (Json N) → List (Json N) → Bool
  | [], _ => true
  | itemSchema :: _, actualItems => actualItems.all fun v => schemaMatches itemSchema v

def schemaMatchesEntries : List (String × Json N) → List (String × Json N) → Bool
  | [], _ => true
  | (key, schema) :: entries, actual =>
    (match actual.lookup key with
      | some v => schemaMatches schema v
      | none => false) && schemaMatchesEntries entries actual
end

namespace OraclePolicy

variable (policy : OraclePolicy N)

def stringListBytes (strings : List String) : List UInt8 :=
  leBytes 4 strings.length ++ strings.flatMap fun s => leBytes 4 (utf8 s).length ++ utf8 s

def canonicalBytes (R : JsonRenderer N) : List UInt8 :=
  let domains := sortStrings policy.allowedDomains
  let methods := sortStrings policy.allowedHttpMethods
  let schemaBytes := (policy.requiredOutputSchema.map (canonicalJsonBytes R)).getD []
  let pairs := sortByKey policy.schemaVersions
  stringListBytes domains ++ stringListBytes methods ++
    leBytes 8 policy.maxToolCalls.toNat ++
    leBytes 8 policy.maxPayloadBytesPerCall.toNat ++
    [match policy.tlsRequirement with
      | .unattestedPermitted => (0 : UInt8)
      | .preferredAttested => 1
      | .requiredAttested => 2] ++
    leBytes 4 schemaBytes.length ++ schemaBytes ++
    leBytes 4 pairs.length ++ pairs.flatMap fun (domain, schema) =>
      leBytes 4 (utf8 domain).length ++ utf8 domain ++
        leBytes 4 (canonicalJsonBytes R schema).length ++ canonicalJsonBytes R schema

def policyHash (R : JsonRenderer N) (sha256 : List UInt8 → Bytes32) : Bytes32 :=
  sha256 (policy.canonicalBytes R)

def checkHttpCall (toolName url : String) : Except String Unit :=
  if ¬ policy.allowedHttpMethods.isEmpty ∧ ¬ policy.allowedHttpMethods.any (· = toolName) then
    .error s!"policy: HTTP method '{toolName}' is not in allowed_http_methods"
  else if ¬ policy.allowedDomains.isEmpty then
    let domain := (extractDomain url).getD ""
    if ¬ policy.allowedDomains.any (· = domain) then
      .error s!"policy: domain '{domain}' is not in allowed_domains"
    else .ok ()
  else .ok ()

/-- Validates a response, given as JSON bytes, against the schema registered for its
domain. `fromSlice` is the JSON library's reader. -/
def checkResponseSchema (fromSlice : List UInt8 → Except String (Json N)) (url : String)
    (responseBytes : List UInt8) : Except String Unit :=
  let domain := (extractDomain url).getD ""
  match policy.schemaVersions.lookup domain with
  | none => .ok ()
  | some schema =>
    match fromSlice responseBytes with
    | .error e => .error s!"policy: response is not valid JSON: {e}"
    | .ok actual =>
      if ¬ schemaMatches schema actual then
        .error s!"policy: response from '{domain}' does not match registered schema"
      else .ok ()

theorem checkResponseSchema_ok {policy : OraclePolicy N}
    {fromSlice : List UInt8 → Except String (Json N)} {url : String} {bytes : List UInt8} :
    policy.checkResponseSchema fromSlice url bytes = .ok () ↔
      ∀ schema, policy.schemaVersions.lookup ((extractDomain url).getD "") = some schema →
        ∃ actual, fromSlice bytes = .ok actual ∧ schemaMatches schema actual = true := by
  unfold checkResponseSchema
  dsimp only
  cases policy.schemaVersions.lookup ((extractDomain url).getD "") with
  | none => simp
  | some schema =>
    cases fromSlice bytes with
    | error e => simp
    | ok actual => cases hmatches : schemaMatches schema actual <;> simp [hmatches]

end OraclePolicy

end ProvenoZk.Policy
