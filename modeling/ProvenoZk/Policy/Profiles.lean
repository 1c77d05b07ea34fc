import ProvenoZk.Policy.PolicyJson

/-! The built-in profiles, and how a command line names a policy. -/
namespace ProvenoZk.Policy
open Foundation Proveno

variable {N : Type}

def constrainedHttpV1 : OraclePolicy N where
  allowedDomains := []
  allowedHttpMethods := ["http_get"]
  maxToolCalls := 16
  maxPayloadBytesPerCall := 64 * 1024
  tlsRequirement := .unattestedPermitted
  requiredOutputSchema := none
  schemaVersions := []
  outputSchema_distinctKeys := Json.distinctKeys_none
  schemaVersions_distinctKeys := Json.distinctKeys_empty

/-- Its domains and schemas are still to come. -/
def templatePriceFeedV1 : OraclePolicy N where
  allowedDomains := []
  allowedHttpMethods := ["http_get"]
  maxToolCalls := 5
  maxPayloadBytesPerCall := 64 * 1024
  tlsRequirement := .requiredAttested
  requiredOutputSchema := none
  schemaVersions := []
  outputSchema_distinctKeys := Json.distinctKeys_none
  schemaVersions_distinctKeys := Json.distinctKeys_empty

namespace OraclePolicy

/-- The name of a profile, or else the path of a file. -/
def loadSpec (serde : SerdeJson N) (readToString : String → Except String String)
    (spec : String) : Except String (OraclePolicy N) :=
  match spec with
  | "constrained_http_v1" => .ok constrainedHttpV1
  | "template_price_feed_v1" => .ok templatePriceFeedV1
  | path => do
    let src ← (readToString path).mapError fun e =>
      s!"policy '{path}' is not a built-in profile (constrained_http_v1, template_price_feed_v1) and could not be read as a file: {e}"
    (fromJson serde src).mapError fun e => s!"{path}: {e}"

variable {serde : SerdeJson N} {readToString : String → Except String String}

theorem loadSpec_of_path {path src : String} {policy : OraclePolicy N}
    (hconstrained : path ≠ "constrained_http_v1") (htemplate : path ≠ "template_price_feed_v1")
    (hread : readToString path = .ok src) (hparse : fromJson serde src = .ok policy) :
    loadSpec serde readToString path = .ok policy := by
  unfold loadSpec
  split
  · contradiction
  · contradiction
  · rw [hread]
    change (fromJson serde src).mapError _ = _
    rw [hparse]
    rfl

/-- A file that was written out is read back, unless it has the name of a profile. -/
theorem loadSpec_toJson {path : String} {policy : OraclePolicy N}
    (hjson : path.toList.getLast? = some 'n') (hreads : serde.ReadsBack (policy.serialize serde))
    (hschema : policy.requiredOutputSchema ≠ some .null)
    (hwritten : readToString path = .ok (policy.toJson serde)) :
    loadSpec serde readToString path = .ok policy := by
  have hparse := fromJson_toJson serde hreads
  rw [readBack_eq_self hschema] at hparse
  apply loadSpec_of_path ?_ ?_ hwritten hparse
  · rintro rfl
    exact absurd hjson (by decide)
  · rintro rfl
    exact absurd hjson (by decide)

end OraclePolicy

end ProvenoZk.Policy
