import ProvenoZk.Drivers.HonestProof

/-! What provers can bring the contracts to. The circuit accepts a trace of no steps, for any
table and with any return value. So what a payment says of the program is that its hash is a
table's, and what is stored as a result can be any 64-bit integer. -/
namespace ProvenoZk.Contracts
open Foundation Proveno Noir
open Drivers (Complete)

def IsTableHash (H : Hashes) (hash : Bytes32) : Prop :=
  ∃ opcodes operands instrCount, assertBytecode H opcodes operands instrCount hash = some ()

def noSteps (H : Hashes) (code : Code) (instrCount : UInt32)
    (programHash policyHash inputHash : Bytes32) (returnValue : Int64) : NoirWitness :=
  { runWitness H code instrCount [] returnValue with programHash, policyHash, inputHash }

section

variable {H : Hashes} {code : Code} {instrCount : UInt32}
  {programHash policyHash inputHash : Bytes32} {returnValue : Int64}

theorem main_noSteps
    (hhash : assertBytecode H code.opcodes code.operands instrCount programHash = some ()) :
    main H (noSteps H code instrCount programHash policyHash inputHash returnValue) =
      some () := by
  have hinstr : instrCount.toNat * 2 < 2 ^ 32 :=
    (NoirWitness.assertBytecode_eq_some
      { NoirWitness.zeroed with
        bytecodeOpcodes := code.opcodes
        bytecodeOperands := code.operands
        instrCount := instrCount
        programHash := programHash } H).mp hhash |>.1
  have hrun := main_runWitness H code instrCount hinstr [] (Nat.zero_le _) ⟨0, .done 0⟩ nofun
    returnValue nofun
  have hsat := (NoirWitness.main_eq_some_iff _ H).mp hrun
  rw [NoirWitness.main_eq_some_iff]
  exact ⟨hhash, ⟨hsat.trace.start, hsat.trace.step, hsat.trace.continuity⟩, hsat.returned,
    hsat.toolCalls, hsat.tape, hsat.output⟩

theorem isTableHash_of_satisfied {w : NoirWitness} (hmain : main H w = some ()) :
    IsTableHash H w.programHash :=
  ⟨_, _, _, ((w.main_eq_some_iff H).mp hmain).bytecode⟩

theorem exists_isTableHash (H : Hashes) : ∃ hash, IsTableHash H hash :=
  ⟨_, isTableHash_of_satisfied (main_runWitness H ⟨.replicate _ 0, .replicate _ 0⟩ 0 (by decide) []
    (Nat.zero_le _) ⟨0, .done 0⟩ nofun 0 nofun)⟩

variable {verifier : ProvenoVerifier}

/-- A proof for a hash under the verifier's policy, that of a trace of no steps. -/
theorem exists_proven (hcomplete : Complete H verifier.honkVerifier)
    (hhash : IsTableHash H programHash) (returnValue : Int64) (inputHash : Bytes32) :
    ∃ w proof, main H w = some () ∧ w.numSteps = 0 ∧ w.programHash = programHash ∧
      w.returnValue = returnValue ∧ w.inputHash = inputHash ∧
      w.policyHash = verifier.expectedPolicyHash ∧
      verifier.honkVerifier proof (publicInputs w).words = some true := by
  obtain ⟨opcodes, operands, instrCount, hassert⟩ := hhash
  let w := noSteps H ⟨opcodes, operands⟩ instrCount programHash verifier.expectedPolicyHash
    inputHash returnValue
  have hmain : main H w = some () := main_noSteps hassert
  obtain ⟨proof, hproof⟩ := hcomplete w hmain
  rw [← words_publicInputs] at hproof
  exact ⟨w, proof, hmain, rfl, rfl, rfl, rfl, rfl, hproof⟩

end

/-- When an open bounty can be paid at all: in every state callers can bring about, exactly if
its hash is that of some table. It is paid then to whoever ran nothing, for any return value
and any input hash. -/
theorem open_bounty_claimable_iff (H : Hashes) (verifier : ProvenoVerifier)
    (hsound : Sound H verifier.honkVerifier) (hcomplete : Complete H verifier.honkVerifier)
    (initial : Nat) (labels : List (Nested.Label Action Call)) (c : Nested World)
    (hrun : Run (BoardStep verifier) ⟨deployed initial, []⟩ labels c) (id : Nat)
    (hopen : (c.world.contract.bounties id).claimed = false) :
    ((∃ sender proof inputs after, c.world.contract.claim verifier.verify sender id proof inputs =
        .ok (after, (c.world.contract.bounties id).reward)) ↔
      IsTableHash H (c.world.contract.bounties id).programHash) ∧
    (IsTableHash H (c.world.contract.bounties id).programHash → ∀ returnValue inputHash,
      ∃ proof inputs, inputs.numSteps = 0 ∧ inputs.returnValue = returnValue ∧
        inputs.inputHash = inputHash ∧
        ∀ sender, ∃ after, c.world.contract.claim verifier.verify sender id proof inputs =
          .ok (after, (c.world.contract.bounties id).reward)) := by
  have hpays : IsTableHash H (c.world.contract.bounties id).programHash →
      ∀ returnValue inputHash, ∃ proof inputs, inputs.numSteps = 0 ∧
        inputs.returnValue = returnValue ∧ inputs.inputHash = inputHash ∧
        ∀ sender, ∃ after, c.world.contract.claim verifier.verify sender id proof inputs =
          .ok (after, (c.world.contract.bounties id).reward) := by
    intro hhash returnValue inputHash
    obtain ⟨w, proof, -, hsteps, htask, hreturn, hinput, hpolicy, hproven⟩ :=
      exists_proven hcomplete hhash returnValue inputHash
    exact ⟨proof, publicInputs w, hsteps, hreturn, hinput,
      board_claim hrun hopen htask hpolicy hproven⟩
  refine ⟨⟨?_, ?_⟩, hpays⟩
  · intro h
    obtain ⟨sender, proof, inputs, after, hclaim⟩ := h
    obtain ⟨⟨verdict, hverdict⟩, -, hclaims⟩ := Bounty.claim_eq_ok hclaim
    have hverified := (verifier.verify_eq_ok_iff proof inputs verdict).mp hverdict
    obtain ⟨w, hmain, hinputs⟩ := hsound.satisfied hverified.2.1
    have htask : w.programHash = (c.world.contract.bounties id).programHash :=
      (congrArg PublicInputs.programHash hinputs).trans hclaims.task
    rw [← htask]
    exact isTableHash_of_satisfied hmain
  · intro hhash
    obtain ⟨proof, inputs, -, -, -, hclaim⟩ := hpays hhash 0 (.replicate _ 0)
    obtain ⟨after, hclaim⟩ := hclaim 0
    exact ⟨0, proof, inputs, after, hclaim⟩

namespace ProvenoConsumer

theorem exists_accepts {H : Hashes} {verifier : ProvenoVerifier}
    (hcomplete : Complete H verifier.honkVerifier) (value : Int64) :
    ∃ call, call.inputs.returnValue = value ∧ call.outputPayload = call.inputs.outputPayload ∧
      Accepts H.keccak256 verifier call := by
  obtain ⟨hash, hhash⟩ := exists_isTableHash H
  obtain ⟨w, proof, hmain, -, -, hreturn, -, hpolicy, hproven⟩ :=
    exists_proven hcomplete hhash value (.replicate _ 0)
  refine ⟨⟨proof, publicInputs w, (publicInputs w).outputPayload⟩, hreturn, rfl, hpolicy, hproven,
    ?_, ?_⟩
  · exact (outputHash_of_satisfied hmain).symm
  · exact Option.isSome_of_eq_some (abiDecodeInt256_outputPayload _)

/-- The results that a consumer can be brought to have, in any number of transactions: exactly
the lists of 64-bit integers. -/
theorem reachable_results_iff (H : Hashes) (verifier : ProvenoVerifier)
    (hsound : Sound H verifier.honkVerifier) (hcomplete : Complete H verifier.honkVerifier)
    (results : List Int) :
    (∃ calls : List ConsumeCall,
      (∀ call ∈ calls, ¬ PayloadsCollide H call.outputPayload call.inputs.outputPayload) ∧
      (calls.foldl (consume H.keccak256) (deploy verifier)).resultConsumed = results) ↔
    ∃ values : List Int64, results = values.map (·.toInt) := by
  constructor
  · intro h
    obtain ⟨calls, hfree, hresults⟩ := h
    rw [foldl_consume_eq hsound hfree rfl, foldl_record] at hresults
    refine ⟨(calls.filter fun call => Accepts H.keccak256 verifier call).map
      (·.inputs.returnValue), ?_⟩
    rw [← hresults, List.map_map]
    exact List.nil_append _
  · intro h
    obtain ⟨values, rfl⟩ := h
    choose call hreturn hpayload haccepts using exists_accepts hcomplete
    have hfree : ∀ c ∈ values.map call, ¬ PayloadsCollide H c.outputPayload
        c.inputs.outputPayload := by
      intro c hc
      obtain ⟨value, -, rfl⟩ := List.mem_map.mp hc
      exact fun hcollide => hcollide.1 (hpayload value)
    have hresults : acceptedResults H.keccak256 verifier (values.map call) =
        values.map (·.toInt) := by
      unfold acceptedResults
      rw [List.filter_eq_self.mpr, List.map_map]
      · exact List.map_congr_left fun value _ => congrArg Int64.toInt (hreturn value)
      · intro c hc
        obtain ⟨value, -, rfl⟩ := List.mem_map.mp hc
        exact decide_eq_true (haccepts value)
    refine ⟨values.map call, hfree, ?_⟩
    rw [foldl_consume_eq hsound hfree rfl, foldl_record, hresults]
    exact List.nil_append _

end ProvenoConsumer

/-! The verifier that is sound and complete, and turns down nothing but what is not so. -/

open Classical in
noncomputable def idealVerifier (H : Hashes) : IHonkVerifier := fun _ words =>
  some (decide (∃ w, main H w = some () ∧ publicWords w = words))

theorem idealVerifier_eq_true {H : Hashes} {proof : List UInt8} {words : List Bytes32} :
    idealVerifier H proof words = some true ↔ ∃ w, main H w = some () ∧ publicWords w = words := by
  simp [idealVerifier]

theorem sound_idealVerifier (H : Hashes) : Sound H (idealVerifier H) :=
  fun _ _ haccepted => idealVerifier_eq_true.mp haccepted

theorem complete_idealVerifier (H : Hashes) : Complete H (idealVerifier H) :=
  fun w hmain => ⟨[], idealVerifier_eq_true.mpr ⟨w, hmain, rfl⟩⟩

noncomputable def idealContract : ProvenoVerifier := ⟨.replicate 32 0, idealVerifier rollingHashes⟩

theorem open_bounty_claimable_minusOne : ∃ labels c proof inputs after,
    Run (BoardStep idealContract) ⟨deployed 0, []⟩ labels c ∧
    inputs.numSteps = 0 ∧ inputs.returnValue = 42 ∧
    c.world.contract.claim idealContract.verify 9 0 proof inputs = .ok (after, 5) := by
  have hrun : Run (BoardStep idealContract) ⟨deployed 0, []⟩
      [.act (.postBounty 3 5 minusOneWitness.programHash)] _ :=
    .next (.act (Acts.posted rfl)) (.done _)
  obtain ⟨proof, inputs, hsteps, hreturn, -, hclaim⟩ :=
    (open_bounty_claimable_iff rollingHashes idealContract (sound_idealVerifier _)
      (complete_idealVerifier _) 0 _ _ hrun 0 rfl).2
      (isTableHash_of_satisfied main_minusOneWitness) 42 (.replicate _ 0)
  obtain ⟨after, hclaim⟩ := hclaim 9
  exact ⟨_, _, proof, inputs, after, hrun, hsteps, hreturn, hclaim⟩

theorem reachable_results_sevenMinusOne : ∃ calls : List ConsumeCall,
    (calls.foldl (ProvenoConsumer.consume rollingHashes.keccak256)
      (ProvenoConsumer.deploy idealContract)).resultConsumed = [7, -1] := by
  obtain ⟨calls, -, hresults⟩ := (ProvenoConsumer.reachable_results_iff rollingHashes idealContract
    (sound_idealVerifier _) (complete_idealVerifier _) [7, -1]).mpr ⟨[7, -1], rfl⟩
  exact ⟨calls, hresults⟩

end ProvenoZk.Contracts
