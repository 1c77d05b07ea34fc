import ProvenoZk.Drivers.DryRun
import ProvenoZk.Policy.PolicyJson
import ProvenoZk.Zkvm.Replay

/-! The schema a policy registers for the output of a run. It is part of the canonical
bytes, so a proof commits it, but no step of a dry run compares it with anything. Any
value may come out, so only a schema that accepts every value is kept. -/
namespace ProvenoZk.Drivers
open Foundation Proveno Policy Zkvm Noir

variable {I N σ : Type}

/-- The canonical JSON of a return value, if it has any, matches the schema. -/
def OutputConforms (core : Core I) (fromSlice : List UInt8 → Except String (Json N))
    (schema : Json N) (v : LuaValue) : Prop :=
  ∀ bytes, core.canonicalSerialize v = .ok bytes →
    ∃ actual, fromSlice bytes = .ok actual ∧ schemaMatches schema actual = true

/-- What is serialized is JSON, and nil is `null`. -/
structure WritesJson (core : Core I) (fromSlice : List UInt8 → Except String (Json N)) : Prop where
  reads : ∀ v bytes, core.canonicalSerialize v = .ok bytes → ∃ actual, fromSlice bytes = .ok actual
  nil : ∃ bytes, core.canonicalSerialize .nil = .ok bytes ∧ fromSlice bytes = .ok .null

theorem schemaMatches_null_iff (schema : Json N) :
    schemaMatches schema .null = true ↔ schema = .null := by
  cases schema <;> simp [schemaMatches]

theorem WritesJson.accepts_all_iff {core : Core I}
    {fromSlice : List UInt8 → Except String (Json N)} (h : WritesJson core fromSlice)
    (schema : Json N) : (∀ v, OutputConforms core fromSlice schema v) ↔ schema = .null := by
  constructor
  · intro hall
    obtain ⟨bytes, hbytes, hnull⟩ := h.nil
    obtain ⟨actual, hactual, hmatches⟩ := hall .nil bytes hbytes
    rw [hnull] at hactual
    cases hactual
    exact (schemaMatches_null_iff schema).mp hmatches
  · rintro rfl v bytes hbytes
    obtain ⟨actual, hactual⟩ := h.reads v bytes hbytes
    exact ⟨actual, hactual, by simp [schemaMatches]⟩

def returns (v : LuaValue) : Vm I where
  execute := fun _ _ _ => .done (.ok { GuestInput.zeroOutput with returnValue := v })
  execute_asksAtMost := fun _ _ _ => trivial

theorem dryRunWithPolicy_returns (core : Core I) (R : JsonRenderer N)
    (fromSlice : List UInt8 → Except String (Json N)) (H : Hashes)
    (attestationLeaf : List UInt8 → Fr) (prover : Prover σ) (program : CompiledProgram I)
    (input v : LuaValue) (attestations : List (List UInt8)) (policy : OraclePolicy N) :
    ∃ result, prover.dryRunWithPolicy core (returns v) program input R fromSlice H attestationLeaf
        attestations policy = .ok result ∧ result.output.returnValue = v :=
  ⟨_, Prover.dryRunWithPolicy_eq_ok.mpr ⟨_, ⟨[], []⟩, rfl, rfl⟩, rfl⟩

def withoutOutputSchema (policy : OraclePolicy N) : OraclePolicy N :=
  { policy with
    requiredOutputSchema := none
    outputSchema_distinctKeys := Json.distinctKeys_none }

/-- A policy holds the outputs of all dry runs to its schema exactly when it has none, or
`null`, which any value matches. The schema decides nothing but the policy hash. -/
theorem output_schema_enforced_iff (R : JsonRenderer N) (core : Core I)
    (fromSlice : List UInt8 → Except String (Json N)) (hjson : WritesJson core fromSlice)
    (H : Hashes) (attestationLeaf : List UInt8 → Fr) (policy : OraclePolicy N) :
    ((∀ (σ : Type) (prover : Prover σ) (vm : Vm I) (program : CompiledProgram I) (input : LuaValue)
        attestations result, prover.dryRunWithPolicy core vm program input R fromSlice H
          attestationLeaf attestations policy = .ok result →
        result.publicInputs.policyHash = policy.policyHash R core.sha256 ∧
        ∀ schema ∈ policy.requiredOutputSchema,
          OutputConforms core fromSlice schema result.output.returnValue) ↔
      policy.requiredOutputSchema = none ∨ policy.requiredOutputSchema = some .null) ∧
    ∀ (σ : Type) (prover : Prover σ) (vm : Vm I) (program : CompiledProgram I) (input : LuaValue)
        attestations,
      (prover.dryRunWithPolicy core vm program input R fromSlice H attestationLeaf attestations
          (withoutOutputSchema policy)).map (fun r => (r.output, r.oracleTape)) =
        (prover.dryRunWithPolicy core vm program input R fromSlice H attestationLeaf attestations
          policy).map fun r => (r.output, r.oracleTape) := by
  refine ⟨?_, ?_⟩
  · constructor
    · intro hall
      cases hschema : policy.requiredOutputSchema with
      | none => exact Or.inl rfl
      | some schema =>
        refine Or.inr (congrArg some ((hjson.accepts_all_iff schema).mp ?_))
        intro v
        obtain ⟨result, hdry, hvalue⟩ := dryRunWithPolicy_returns core R fromSlice H
          attestationLeaf idleProver ⟨[], .replicate 32 0⟩ .nil v [] policy
        have hconforms := (hall Unit idleProver (returns v) _ _ _ result hdry).2 schema hschema
        rwa [hvalue] at hconforms
    · intro hschema σ prover vm program input attestations result hdry
      obtain ⟨output, tape, -, rfl⟩ := Prover.dryRunWithPolicy_eq_ok.mp hdry
      refine ⟨rfl, ?_⟩
      intro schema hmem
      obtain hnone | hnull := hschema
      · rw [hnone] at hmem
        cases hmem
      · rw [hnull] at hmem
        obtain rfl : Json.null = schema := Option.some.inj hmem
        exact (hjson.accepts_all_iff .null).mpr rfl _
  · intro σ prover vm program input attestations
    have hmap (p : OraclePolicy N) :
        (prover.dryRunWithPolicy core vm program input R fromSlice H attestationLeaf attestations
          p).map (fun r => (r.output, r.oracleTape)) =
          (prover.underPolicy core fromSlice p).record core vm program input := by
      change (Except.bind ((prover.underPolicy core fromSlice p).record core vm program input)
        _).map _ = _
      cases (prover.underPolicy core fromSlice p).record core vm program input with
      | error e => rfl
      | ok recorded => rfl
    rw [hmap, hmap]
    rfl

def readNull : List UInt8 → Except String (Json Int) := fun bytes =>
  if bytes = utf8 "null" then .ok .null else .error "unsupported"

theorem plainCore_writesJson : WritesJson plainCore readNull where
  reads := by
    intro v bytes h
    cases h
    exact ⟨.null, rfl⟩
  nil := ⟨_, rfl, rfl⟩

theorem output_schema_enforced_anyOutput :
    ∃ result, idleProver.dryRunWithPolicy plainCore (returns .nil) ⟨[], .replicate 32 0⟩ .nil
        integerRenderer readNull rollingHashes (fun _ => 0) [] OraclePolicy.anyOutput =
          .ok result ∧
      OraclePolicy.anyOutput.requiredOutputSchema = some .null ∧
      OutputConforms plainCore readNull .null result.output.returnValue := by
  obtain ⟨result, hdry, -⟩ := dryRunWithPolicy_returns plainCore integerRenderer readNull
    rollingHashes (fun _ => 0) idleProver ⟨[], .replicate 32 0⟩ .nil .nil [] OraclePolicy.anyOutput
  have henforced := (output_schema_enforced_iff integerRenderer plainCore readNull
    plainCore_writesJson rollingHashes (fun _ => 0) OraclePolicy.anyOutput).1.mpr (Or.inr rfl)
  exact ⟨result, hdry, rfl, (henforced _ _ _ _ _ _ result hdry).2 _ rfl⟩

/-- The policy requires an object, the program returns nothing, and the dry run is fine. -/
theorem output_schema_not_enforced :
    ¬ ∀ (policy : OraclePolicy Int) (vm : Vm Instruction) (program : CompiledProgram Instruction)
      (input : LuaValue) (prover : Prover Unit) attestations result,
      prover.dryRunWithPolicy plainCore vm program input integerRenderer readNull rollingHashes
        (fun _ => 0) attestations policy = .ok result →
      ∀ schema ∈ policy.requiredOutputSchema,
        OutputConforms plainCore readNull schema result.output.returnValue := by
  intro hall
  obtain ⟨result, hdry, hvalue⟩ := dryRunWithPolicy_returns plainCore integerRenderer readNull
    rollingHashes (fun _ => 0) idleProver ⟨[], .replicate 32 0⟩ .nil .nil [] OraclePolicy.priceFeed
  have hconforms := hall _ _ _ _ _ _ result hdry _ rfl
  rw [hvalue] at hconforms
  obtain ⟨actual, hread, hmatches⟩ := hconforms (utf8 "null") rfl
  cases hread
  exact absurd hmatches (by decide)

end ProvenoZk.Drivers
