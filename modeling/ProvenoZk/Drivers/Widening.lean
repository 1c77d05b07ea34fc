import ProvenoZk.Drivers.Attestations
import ProvenoZk.Drivers.NoirArtifacts
import ProvenoZk.Policy.Schemas
import ProvenoZk.Policy.Widening

/-! A policy that interferes with nothing. The run under it is the run under any wider policy,
and the run under none. -/
namespace ProvenoZk.Drivers
open Foundation Proveno Policy Zkvm Noir

variable {I N σ : Type}

section

variable {prover : Prover σ} {core : Core I} {vm : Vm I} {program : CompiledProgram I}
  {input : LuaValue}

theorem Prover.record_congr {config : VmConfig} {host host' : LiveHost σ} {state : σ}
    (htake : host'.takeAttestation = host.takeAttestation)
    (hcalls : ∀ e ∈ (vm.execute config program input).exchanges (host.serve core) state,
      host'.callTool e.query e.before = host.callTool e.query e.before) :
    Prover.record ⟨config, host', state⟩ core vm program input =
      Prover.record ⟨config, host, state⟩ core vm program input := by
  have hserve : ∀ e ∈ (vm.execute config program input).exchanges (host.serve core) state,
      host'.serve core e.query e.before = host.serve core e.query e.before := by
    intro e he
    unfold LiveHost.serve LiveHost.exchange
    rw [hcalls e he, htake]
  have hattestation : ∀ e ∈ (vm.execute config program input).exchanges (host.serve core) state,
      host'.attestation core e.query e.before = host.attestation core e.query e.before := by
    intro e he
    unfold LiveHost.attestation LiveHost.exchange
    rw [hcalls e he, htake]
  obtain ⟨hrun, hexchanges⟩ := Client.run_congr _ hserve
  unfold Prover.record
  dsimp only
  rw [hrun, hexchanges, List.map_congr_left hattestation]

variable {fromSlice : List UInt8 → Except String (Json N)} {policy policy' : OraclePolicy N}

/-- The run asks for nothing that the policy turns down, and hears nothing that it refuses. -/
def KeepsTo (prover : Prover σ) (core : Core I) (fromSlice : List UInt8 → Except String (Json N))
    (policy : OraclePolicy N) (client : Client ToolCall Reply (Except VmError VmOutput)) : Prop :=
  ∀ e ∈ client.exchanges ((prover.underPolicy core fromSlice policy).host.serve core) prover.state,
    policy.Accepts core fromSlice e.query (prover.host.callTool e.query e.before).1

theorem KeepsTo.callTool {client : Client ToolCall Reply (Except VmError VmOutput)}
    (h : KeepsTo prover core fromSlice policy client) :
    ∀ e ∈ client.exchanges ((prover.underPolicy core fromSlice policy).host.serve core) prover.state,
      prover.host.callTool e.query e.before =
        (prover.underPolicy core fromSlice policy).host.callTool e.query e.before :=
  fun e he => (h e he).callTool.symm

theorem KeepsTo.record (h : KeepsTo prover core fromSlice policy
    (vm.execute prover.config program input)) :
    prover.record core vm program input =
      (prover.underPolicy core fromSlice policy).record core vm program input :=
  Prover.record_congr rfl h.callTool

theorem KeepsTo.record_of_widens (h : KeepsTo prover core fromSlice policy
    (vm.execute prover.config program input)) (hwidens : policy.Widens policy') :
    (prover.underPolicy core fromSlice policy').record core vm program input =
      (prover.underPolicy core fromSlice policy).record core vm program input := by
  refine Prover.record_congr rfl ?_
  intro e he
  have hwider := (hwidens.accepts (h e he)).callTool
  exact hwider.trans (h.callTool e he)

end

def DryRunResult.withPolicyHash (result : DryRunResult) (policyHash : Bytes32) : DryRunResult :=
  { result with publicInputs := { result.publicInputs with policyHash } }

/-- Widening a policy changes no run that kept to the narrower one: the output, the calls with
their answers and attestations, or the error stay, and so does everything public but the
policy hash. The run without any policy is the same again. -/
theorem kept_run_under_wider_policy (core : Core I) (R : JsonRenderer N)
    (fromSlice : List UInt8 → Except String (Json N)) (H : Hashes)
    (attestationLeaf : List UInt8 → Fr) (policy policy' : OraclePolicy N)
    (hwidens : policy.Widens policy') (prover : Prover σ) (vm : Vm I) (program : CompiledProgram I)
    (input : LuaValue) (attestations : List (List UInt8))
    (hkeeps : KeepsTo prover core fromSlice policy (vm.execute prover.config program input))
    (result : Except VmError DryRunResult)
    (hresult : prover.dryRunWithPolicy core vm program input R fromSlice H attestationLeaf
      attestations policy = result) :
    prover.dryRunWithPolicy core vm program input R fromSlice H attestationLeaf attestations
        policy' = result.map (·.withPolicyHash (policy'.policyHash R core.sha256)) ∧
    prover.dryRun core vm program input H attestationLeaf attestations =
      result.map (·.withPolicyHash (.replicate 32 0)) := by
  have hwider := hkeeps.record_of_widens hwidens
  have hplain := hkeeps.record
  unfold Prover.underPolicy at hwider hplain
  subst hresult
  unfold Prover.dryRunWithPolicy Prover.dryRun
  dsimp only
  rw [hwider, hplain]
  cases Prover.record { prover with host := prover.host.underPolicy core fromSlice policy } core vm
    program input with
  | error e => exact ⟨rfl, rfl⟩
  | ok recorded => exact ⟨rfl, rfl⟩

/-! A second method, any domain, and no more than some JSON for a response. -/

def emptyObjects : OraclePolicy Int :=
  { OraclePolicy.priceFeed with
    schemaVersions := [("b.example", .object [])]
    schemaVersions_distinctKeys := .object (by decide) (List.forall_mem_singleton.mpr
      (.object (by decide) nofun)) }

def anyJson : OraclePolicy Int :=
  { OraclePolicy.priceFeed with
    allowedDomains := []
    allowedHttpMethods := ["http_post", "http_get"]
    schemaVersions := [("b.example", .null)]
    schemaVersions_distinctKeys := .object (by decide) (List.forall_mem_singleton.mpr .null) }

theorem emptyObjects_widens : emptyObjects.Widens anyJson where
  methods := Or.inr ⟨by decide, by decide⟩
  domains := Or.inl rfl
  schemas := by
    intro domain schema' hschema'
    obtain ⟨before, after, hentries, -⟩ := List.lookup_eq_some_iff.mp hschema'
    have hmem : (domain, schema') ∈ anyJson.schemaVersions := by
      rw [hentries]
      simp
    cases List.mem_singleton.mp hmem
    exact ⟨.object [], rfl, fun actual _ => rfl⟩

theorem kept_run_under_wider_policy_anyJson : ∃ result,
    Prover.dryRunWithPolicy ⟨idleProver.config, notary, none⟩ plainCore (callsOnce allowedCall)
      ⟨[], .replicate 32 0⟩ .nil integerRenderer readEmptyObject rollingHashes (fun _ => 0) []
      anyJson = .ok result ∧ result.oracleTape = ⟨[.ok (utf8 "\x7b\x7d")], [[1]]⟩ := by
  have hwider := kept_run_under_wider_policy plainCore integerRenderer readEmptyObject
    rollingHashes (fun _ => 0) emptyObjects anyJson emptyObjects_widens
    ⟨idleProver.config, notary, none⟩ (callsOnce allowedCall) ⟨[], .replicate 32 0⟩ .nil []
    (List.forall_mem_singleton.mpr ⟨rfl, rfl⟩) _ rfl
  exact ⟨_, hwider.1, rfl⟩

end ProvenoZk.Drivers
