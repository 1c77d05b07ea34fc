import ProvenoZk.Policy.Allowlist
import ProvenoZk.Policy.Host

/-! Response schemas. The check looks a schema up under the text that is cut out of the
URL, and passes any response if there is none, so it enforces what is registered for
the addressed host only where that text is the host. -/
namespace ProvenoZk.Policy
open Foundation Proveno

variable {I N : Type}

def Conforms (core : Core I) (fromSlice : List UInt8 → Except String (Json N)) (schema : Json N)
    (resp : LuaTable) : Prop :=
  ∃ bytes actual, core.canonicalSerializeTable resp = .ok bytes ∧ fromSlice bytes = .ok actual ∧
    schemaMatches schema actual = true

/-- An HTTP call for an absolute URL, given with what stands behind its `scheme://`. -/
structure Requests (call : ToolCall) (url : String) (rest : List Char) : Prop where
  http : isHttpTool call.name = true
  named : getUrlFromArgs call.args = some url
  absolute : Url.afterScheme url.toList = some rest

/-- No host behind the policy can answer the call with a response the schema refuses. -/
def Validated (core : Core I) (fromSlice : List UInt8 → Except String (Json N))
    (policy : OraclePolicy N) (call : ToolCall) (schema : Json N) : Prop :=
  ∀ (σ : Type) (serve : Service σ ToolCall Reply) (host host' : σ) (resp : LuaTable),
    OraclePolicyHost.callTool core fromSlice serve policy call host = (.ok resp, host') →
    Conforms core fromSlice schema resp

section

variable {core : Core I} {fromSlice : List UInt8 → Except String (Json N)}
  {policy : OraclePolicy N} {call : ToolCall} {url : String} {rest : List Char} {schema : Json N}

theorem OraclePolicy.checkResponseSchema_eq_ok {bytes : List UInt8} {resp : LuaTable}
    (hbytes : core.canonicalSerializeTable resp = .ok bytes) :
    policy.checkResponseSchema fromSlice url bytes = .ok () ↔
      ∀ s ∈ policy.schemaVersions.lookup ((extractDomain url).getD ""),
        Conforms core fromSlice s resp := by
  rw [checkResponseSchema_ok]
  simp [Conforms, hbytes]

theorem validated_of_found (hrequest : Requests call url rest)
    (hfound : policy.schemaVersions.lookup ((extractDomain url).getD "") = some schema) :
    Validated core fromSlice policy call schema := by
  intro σ serve host host' resp hcall
  cases hdenial : policy.denial call with
  | some message =>
    rw [OraclePolicyHost.callTool_of_denial hdenial] at hcall
    cases hcall
  | none =>
    rw [OraclePolicyHost.callTool_of_pass hdenial] at hcall
    have hanswer := (OraclePolicy.answer_eq_ok hrequest.http).mp (congrArg Prod.fst hcall)
    rw [hrequest.named] at hanswer
    obtain ⟨-, bytes, hbytes, hcheck⟩ := hanswer
    exact (OraclePolicy.checkResponseSchema_eq_ok hbytes).mp hcheck schema hfound

theorem callTool_of_not_found (hrequest : Requests call url rest)
    (hdenial : policy.denial call = none)
    (hfound : policy.schemaVersions.lookup ((extractDomain url).getD "") = none)
    {resp : LuaTable} {bytes : List UInt8} (hbytes : core.canonicalSerializeTable resp = .ok bytes) :
    OraclePolicyHost.callTool core fromSlice (fun _ s => (.ok resp, s)) policy call () =
      (.ok resp, ()) := by
  have hanswer : policy.answer core fromSlice call (.ok resp) = .ok resp := by
    apply (OraclePolicy.answer_eq_ok hrequest.http).mpr
    refine ⟨rfl, bytes, hbytes, (OraclePolicy.checkResponseSchema_eq_ok hbytes).mpr ?_⟩
    rw [hrequest.named, Option.getD_some, hfound]
    exact nofun
  rw [OraclePolicyHost.callTool_of_pass hdenial, hanswer]

theorem exists_refusing_schema (core : Core I) (fromSlice : List UInt8 → Except String (Json N))
    (resp : LuaTable) : ∃ schema : Json N, schema.DistinctKeys ∧
      ¬ Conforms core fromSlice schema resp := by
  by_cases hbool : Conforms core fromSlice (.bool true) resp
  · refine ⟨.string "", .string "", ?_⟩
    rintro ⟨bytes, actual, hbytes, hread, hmatches⟩
    obtain ⟨_, _, hbytes', hread', hmatches'⟩ := hbool
    rw [hbytes] at hbytes'
    cases hbytes'
    rw [hread] at hread'
    cases hread'
    cases actual <;> simp [schemaMatches] at hmatches hmatches'
  · exact ⟨.bool true, .bool true, hbool⟩

end

def requiring (host : String) (schema : Json N) (hkeys : schema.DistinctKeys) : OraclePolicy N where
  allowedDomains := []
  allowedHttpMethods := []
  maxToolCalls := 1
  maxPayloadBytesPerCall := 1024
  tlsRequirement := .unattestedPermitted
  requiredOutputSchema := none
  schemaVersions := [(host, schema)]
  outputSchema_distinctKeys := Json.distinctKeys_none
  schemaVersions_distinctKeys := .object (by simp) (by simpa using hkeys)

theorem requiring_denial (host : String) {schema : Json N} (hkeys : schema.DistinctKeys)
    (call : ToolCall) : (requiring host schema hkeys).denial call = none := by
  unfold OraclePolicy.denial
  split_ifs with hhttp
  · rfl
  · rw [(OraclePolicy.checkHttpCall_eq_ok _ _ _).mpr ⟨.inl rfl, .inl rfl⟩]

/-- What a call for a URL is answered is held to every schema registered for the addressed
host exactly when the URL does not mislead: the text that stands first in it, which the
schema is looked up under, is that host. -/
theorem response_schema_enforced_iff (core : Core I)
    (fromSlice : List UInt8 → Except String (Json N)) (call : ToolCall) (url : String)
    (rest : List Char) (hrequest : Requests call url rest)
    (hserializes : ∃ resp bytes, core.canonicalSerializeTable resp = .ok bytes) :
    (∀ (policy : OraclePolicy N) (schema : Json N),
      policy.schemaVersions.lookup (String.ofList (Url.host rest)) = some schema →
      Validated core fromSlice policy call schema) ↔
    ¬ (Misleads ((extractDomain url).getD "") rest ∧
      (extractDomain url).getD "" ≠ String.ofList (Url.host rest)) := by
  have hfirst : StandsFirst ((extractDomain url).getD "") rest :=
    (extractDomain_eq_iff hrequest.absolute _).mp rfl
  constructor
  · rintro hall ⟨-, hother⟩
    obtain ⟨resp, bytes, hbytes⟩ := hserializes
    obtain ⟨schema, hkeys, hrefuses⟩ := exists_refusing_schema core fromSlice resp
    have hregistered : (requiring (String.ofList (Url.host rest)) schema hkeys).schemaVersions.lookup
        (String.ofList (Url.host rest)) = some schema := List.lookup_cons_self
    have hmissing : (requiring (String.ofList (Url.host rest)) schema hkeys).schemaVersions.lookup
        ((extractDomain url).getD "") = none := by
      rw [requiring, List.lookup_cons, beq_false_of_ne hother]
      rfl
    exact hrefuses (hall _ schema hregistered Unit _ () () resp
      (callTool_of_not_found hrequest (requiring_denial _ hkeys call) hmissing hbytes))
  · intro hleads policy schema hschema
    have hhost : (extractDomain url).getD "" = String.ofList (Url.host rest) := by
      by_cases hmisleads : Misleads ((extractDomain url).getD "") rest
      · by_contra hother
        exact hleads ⟨hmisleads, hother⟩
      · exact (host_of_standsFirst hfirst hmisleads).symm
    exact validated_of_found hrequest (hhost ▸ hschema)

def readEmptyObject : List UInt8 → Except String (Json Int) := fun bytes =>
  if bytes = utf8 "\x7b\x7d" then .ok (.object []) else .error "unsupported"

/-- A response that is asked to be an object, and is one. -/
theorem response_schema_enforced_priceFeed :
    OraclePolicyHost.callTool plainCore readEmptyObject (fun _ s => (.ok .new, s))
        (requiring "a.example" (.object []) Json.distinctKeys_empty)
        ⟨"http_get", urlArgs "https://a.example/v1"⟩ () = (.ok .new, ()) ∧
      Conforms plainCore readEmptyObject (.object []) .new := by
  have hserved : OraclePolicyHost.callTool plainCore readEmptyObject (fun _ s => (.ok .new, s))
      (requiring "a.example" (.object []) Json.distinctKeys_empty)
      ⟨"http_get", urlArgs "https://a.example/v1"⟩ () = (.ok .new, ()) := rfl
  refine ⟨hserved, ?_⟩
  exact (response_schema_enforced_iff plainCore readEmptyObject
    ⟨"http_get", urlArgs "https://a.example/v1"⟩ "https://a.example/v1" "a.example/v1".toList
    ⟨by decide, by decide, by decide⟩ ⟨.new, _, rfl⟩).mpr (fun h => absurd h.2 (by decide))
    _ _ rfl Unit _ () () .new hserved

/-- A query behind the bare domain: the text that is looked up is not the domain. -/
theorem response_schema_dodged :
    ¬ ∀ (policy : OraclePolicy Int) (call : ToolCall) (url : String) (rest : List Char)
      (schema : Json Int), Requests call url rest →
      policy.schemaVersions.lookup (String.ofList (Url.host rest)) = some schema →
      Validated plainCore readEmptyObject policy call schema := by
  intro hall
  have hkeys : (Json.object [("price", Json.number (0 : Int))]).DistinctKeys :=
    .object (by decide) (List.forall_mem_singleton.mpr (.number 0))
  have hvalidated := hall (requiring "a.example" _ hkeys)
    ⟨"http_get", urlArgs "https://a.example?pair=x"⟩ "https://a.example?pair=x"
    "a.example?pair=x".toList _ ⟨by decide, by decide, by decide⟩ rfl
  obtain ⟨bytes, actual, hbytes, hread, hmatches⟩ :=
    hvalidated Unit (fun _ s => (.ok .new, s)) () () .new rfl
  cases hbytes
  cases hread
  exact absurd hmatches (by decide)

end ProvenoZk.Policy
