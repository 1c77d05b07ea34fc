import ProvenoZk.Policy.Allowlist
import ProvenoZk.Policy.Host

/-! Wider policies. What a policy lets pass and hands on as it is, any wider policy does. -/
namespace ProvenoZk.Policy
open Foundation Proveno

variable {I N : Type}

def Extends (listed listed' : List String) : Prop :=
  listed' = [] ∨ listed ≠ [] ∧ listed ⊆ listed'

def Implies (schema schema' : Json N) : Prop :=
  ∀ actual, schemaMatches schema actual = true → schemaMatches schema' actual = true

/-- The second policy lets pass what the first does, and asks no more of a response. Its limits
and its output schema may be any. -/
structure OraclePolicy.Widens (policy policy' : OraclePolicy N) : Prop where
  methods : Extends policy.allowedHttpMethods policy'.allowedHttpMethods
  domains : Extends policy.allowedDomains policy'.allowedDomains
  schemas : ∀ domain schema', policy'.schemaVersions.lookup domain = some schema' →
    ∃ schema, policy.schemaVersions.lookup domain = some schema ∧ Implies schema schema'

structure OraclePolicy.Accepts (core : Core I) (fromSlice : List UInt8 → Except String (Json N))
    (policy : OraclePolicy N) (call : ToolCall) (reply : Reply) : Prop where
  passes : policy.denial call = none
  answer : policy.answer core fromSlice call reply = reply

section

variable {core : Core I} {fromSlice : List UInt8 → Except String (Json N)}
  {policy policy' : OraclePolicy N} {call : ToolCall} {reply : Reply}

theorem Extends.admits {listed listed' : List String} (h : Extends listed listed') {s : String}
    (hs : listed = [] ∨ s ∈ listed) : listed' = [] ∨ s ∈ listed' := by
  cases h with
  | inl hnone => exact Or.inl hnone
  | inr hlonger =>
    cases hs with
    | inl hnone => exact absurd hnone hlonger.1
    | inr hmem => exact Or.inr (hlonger.2 hmem)

theorem OraclePolicy.denial_eq_none : policy.denial call = none ↔ isHttpTool call.name = true →
    Permits policy.allowedHttpMethods policy.allowedDomains call.name
      ((getUrlFromArgs call.args).getD "") := by
  rw [← policy.checkHttpCall_eq_ok]
  unfold denial
  cases isHttpTool call.name with
  | false => simp
  | true => cases policy.checkHttpCall call.name ((getUrlFromArgs call.args).getD "") <;> simp

theorem OraclePolicy.Widens.denial (h : policy.Widens policy')
    (hpasses : policy.denial call = none) : policy'.denial call = none := by
  rw [OraclePolicy.denial_eq_none] at hpasses ⊢
  intro hhttp
  exact ⟨h.methods.admits (hpasses hhttp).1, h.domains.admits (hpasses hhttp).2⟩

theorem OraclePolicy.Widens.checkResponseSchema (h : policy.Widens policy') {url : String}
    {bytes : List UInt8} (hcheck : policy.checkResponseSchema fromSlice url bytes = .ok ()) :
    policy'.checkResponseSchema fromSlice url bytes = .ok () := by
  rw [OraclePolicy.checkResponseSchema_ok] at hcheck ⊢
  intro schema' hschema'
  obtain ⟨schema, hschema, himplies⟩ := h.schemas _ schema' hschema'
  obtain ⟨actual, hactual, hmatches⟩ := hcheck schema hschema
  exact ⟨actual, hactual, himplies actual hmatches⟩

theorem OraclePolicy.answer_of_not_http (hhttp : isHttpTool call.name = false) :
    policy.answer core fromSlice call reply = reply := by
  cases reply with
  | error e => rfl
  | ok resp => rw [answer, if_pos hhttp]

theorem OraclePolicy.Widens.accepts (h : policy.Widens policy')
    (haccepts : policy.Accepts core fromSlice call reply) :
    policy'.Accepts core fromSlice call reply := by
  refine ⟨h.denial haccepts.passes, ?_⟩
  cases hhttp : isHttpTool call.name with
  | false => exact OraclePolicy.answer_of_not_http hhttp
  | true =>
    cases reply with
    | error e => rfl
    | ok resp =>
      obtain ⟨-, bytes, hbytes, hcheck⟩ := (OraclePolicy.answer_eq_ok hhttp).mp haccepts.answer
      apply (OraclePolicy.answer_eq_ok hhttp).mpr
      exact ⟨rfl, bytes, hbytes, h.checkResponseSchema hcheck⟩

theorem OraclePolicy.Accepts.callTool {σ : Type} {serve : Service σ ToolCall Reply} {host : σ}
    (h : policy.Accepts core fromSlice call (serve call host).1) :
    OraclePolicyHost.callTool core fromSlice serve policy call host = serve call host := by
  rw [OraclePolicyHost.callTool_of_pass h.passes, h.answer]

end

end ProvenoZk.Policy
