import ProvenoZk.Drivers.HonestProof
import ProvenoZk.Drivers.VerifyingKey

/-! `proveno-noir --json`: from the artifacts of a dry run to the text that is handed to the
contracts. Only what `bb verify` has accepted is printed. -/
namespace ProvenoZk.Drivers
open Foundation Proveno Zkvm Noir Contracts

variable {I : Type}

/-- What happens outside during one command: `Prover.toml` is written, then come the calls of
`prove` and `verify`. -/
structure CommandRun where
  writeToml : Except String Unit
  prove : ProveRun
  verify : VerifyRun

/-- `NoirProver` on a circuit's directory, which each proof takes along as it left it. -/
def circuitBackend (check : Check) (display : ProveError → String) (run : CommandRun)
    (dir : CircuitDir) : Backend (NoirProof × CircuitDir) where
  writeProverToml := fun _ => run.writeToml
  prove := fun w =>
    match (NoirProver.prove run.prove w).run.run
        { dir with proverToml := some (writeProverToml w) } with
    | (.ok proof, after) => .ok (proof, after)
    | (.error e, _) => .error (display e)
  verify := fun proved => (NoirProver.verify check run.verify proved.2 proved.1).mapError display

structure Printed where
  returnValue : Int64
  proofBytesHex : String
  publicInputs : List String
  proveDurationMs : UInt64
  verified : Bool

inductive CommandError where
  | prove (error : ProveOutputError)
  /-- `Proof verification failed.` -/
  | verificationFailed

section

variable [InstructionSet I] (core : Core I) (H : Hashes) (attestationLeaf : List UInt8 → Fr)
  (vm : Vm I) (defaultConfig : VmConfig) (compiled : CompiledProgram I) (check : Check)
  (display : ProveError → String) (run : CommandRun) (dir : CircuitDir) (dryResult : DryRunResult)

def noirJson : Outcome CommandError Printed := do
  let result ← (proveFromArtifacts core H attestationLeaf vm defaultConfig compiled
    (circuitBackend check display run dir) dryResult true).mapErr .prove
  if ¬ result.verified then .error (.failed .verificationFailed)
  else
    let w := result.witness
    let proof := result.proof.1
    .ok {
      returnValue := w.returnValue
      proofBytesHex := bytesTo0xHex proof.proofBytes
      publicInputs := jsonPublicInputs w
      proveDurationMs := .ofNat (proof.proveDuration / 1000000)
      verified := result.verified }

end

def readBytes (text : String) : Option (List UInt8) :=
  match text.toList with
  | '0' :: 'x' :: digits => readHex digits
  | _ => none

theorem readBytes_bytesTo0xHex (bytes : List UInt8) :
    readBytes (bytesTo0xHex bytes) = some bytes := by
  have htext : (bytesTo0xHex bytes).toList = '0' :: 'x' :: bytes.flatMap hexByte :=
    String.toList_ofList
  unfold readBytes
  rw [htext]
  exact readHex_flatMap bytes

/-- The contract was generated from the key, and accepts what `bb verify` accepts under it. -/
def Deployed (check : Check) (vk : List UInt8) (honk : IHonkVerifier) : Prop :=
  ∀ proof inputs, check vk proof (NoirProver.publicInputsFile inputs) = true →
    honk proof inputs.words = some true

section

variable {core : Core I} {H : Hashes} {attestationLeaf : List UInt8 → Fr} {vm : Vm I}
  {defaultConfig : VmConfig} {compiled : CompiledProgram I} {check : Check}
  {display : ProveError → String} {run : CommandRun} {dir : CircuitDir} {dryResult : DryRunResult}
  {derive : List UInt8 → List UInt8}

theorem circuitBackend_prove {w : NoirWitness} {proof : NoirProof} {after : CircuitDir}
    (h : (circuitBackend check display run dir).prove w = .ok (proof, after)) :
    (NoirProver.prove run.prove w).run.run { dir with proverToml := some (writeProverToml w) } =
      (.ok proof, after) := by
  unfold circuitBackend at h
  dsimp only at h
  split at h
  · rename_i hprove
    cases h
    exact hprove
  · cases h

variable [InstructionSet I]

theorem proveFromArtifacts_verified {π : Type} {backend : Backend π} {result : ProveOutput π}
    (h : proveFromArtifacts core H attestationLeaf vm defaultConfig compiled backend dryResult true =
      .ok result) (hverified : result.verified = true) :
    backend.prove result.witness = .ok result.proof ∧
      backend.verify result.proof = .ok true := by
  unfold proveFromArtifacts at h
  obtain ⟨witness, -, h⟩ := Outcome.bind_eq_ok.mp h
  obtain ⟨_, -, h⟩ := Outcome.bind_eq_ok.mp h
  obtain ⟨proof, hproof, h⟩ := Outcome.bind_eq_ok.mp h
  obtain ⟨verified, hverify, h⟩ := Outcome.bind_eq_ok.mp h
  cases h
  cases hverified
  exact ⟨Outcome.ofExcept_eq_ok.mp (Outcome.mapErr_eq_ok.mp hproof),
    Outcome.ofExcept_eq_ok.mp (Outcome.mapErr_eq_ok.mp hverify)⟩

theorem noirJson_eq_ok {printed : Printed}
    (h : noirJson core H attestationLeaf vm defaultConfig compiled check display run dir dryResult =
      .ok printed) :
    ∃ w proof after,
      witnessFromArtifacts core H attestationLeaf vm defaultConfig compiled dryResult = .ok w ∧
      (NoirProver.prove run.prove w).run.run { dir with proverToml := some (writeProverToml w) } =
        (.ok proof, after) ∧
      NoirProver.verify check run.verify after proof = .ok true ∧
      printed.returnValue = w.returnValue ∧
      printed.proofBytesHex = bytesTo0xHex proof.proofBytes ∧
      printed.publicInputs = jsonPublicInputs w := by
  unfold noirJson at h
  obtain ⟨result, hresult, h⟩ := Outcome.bind_eq_ok.mp h
  have hproved := Outcome.mapErr_eq_ok.mp hresult
  split_ifs at h with hverified
  cases h
  obtain ⟨hprove, hverify⟩ := proveFromArtifacts_verified hproved hverified
  exact ⟨result.witness, result.proof.1, result.proof.2, proveFromArtifacts_eq_ok hproved,
    circuitBackend_prove hprove, mapError_eq_ok.mp hverify, rfl, rfl, rfl⟩

theorem consumeResult_of_witness {w : NoirWitness}
    (hbuilt : witnessFromArtifacts core H attestationLeaf vm defaultConfig compiled dryResult =
      .ok w) {consumer : ProvenoConsumer} {proof : List UInt8}
    (hpolicy : w.policyHash = consumer.provenoVerifier.expectedPolicyHash)
    (hproven : consumer.provenoVerifier.honkVerifier proof (publicInputs w).words = some true) :
    consumer.consumeResult core.keccak256 proof (publicInputs w) (abiEncodeInt256 w.returnValue) =
      .ok (consumer.record w.returnValue.toInt) := by
  obtain ⟨-, output, -, hbuild⟩ := witnessFromArtifacts_eq_ok_iff.mp hbuilt
  have hpayload : abiEncodeInt256 w.returnValue = (publicInputs w).outputPayload :=
    abiEncodeInt256_eq w.returnValue
  have hcommitted : core.keccak256 (abiEncodeInt256 w.returnValue) = w.outputHash := by
    unfold buildWitness at hbuild
    split_ifs at hbuild
    cases hbuild
    rfl
  rw [ProvenoConsumer.consumeResult_eq_ok_iff]
  refine ⟨hpolicy, hproven, hcommitted, ?_, rfl⟩
  rw [hpayload]
  exact abiDecodeInt256_outputPayload (publicInputs w)

theorem proven_of_noirJson {w : NoirWitness} {proof : NoirProof} {after : CircuitDir}
    (hkeyed : NoirProver.Keyed derive dir) (horderly : NoirProver.Orderly derive dir run.prove)
    (hprove : (NoirProver.prove run.prove w).run.run
      { dir with proverToml := some (writeProverToml w) } = (.ok proof, after))
    (hverify : NoirProver.verify check run.verify after proof = .ok true)
    (hfile : run.prove.proveLeaves.2 = some (NoirProver.publicInputsFile (publicInputs w)))
    {bytecode : File} (hbytecode : run.prove.executeLeaves.1 = some bytecode)
    {honk : IHonkVerifier} (hdeployed : Deployed check (derive bytecode.bytes) honk) :
    honk proof.proofBytes (publicInputs w).words = some true := by
  let written : CircuitDir := { dir with proverToml := some (writeProverToml w) }
  have hkeyed' : NoirProver.Keyed derive written := hkeyed
  have hwritten : NoirProver.Orderly derive written run.prove :=
    ⟨horderly.execute, horderly.writeVk⟩
  have hspec := NoirProver.prove_spec hkeyed' hwritten w
  have hmatches := (NoirProver.run_of_triple hspec rfl hprove).1 proof rfl
  obtain ⟨-, hchecked⟩ := NoirProver.verify_eq_ok_true.mp hverify
  obtain ⟨vk, bytes, file, hvk, hbytes, hpublic, hcheck⟩ := NoirProver.bbVerify_eq_true.mp hchecked
  obtain ⟨hproof, hinputs, -⟩ := NoirProver.prove_eq_ok hprove
  rw [hproof] at hbytes
  rw [hinputs, hfile] at hpublic
  cases hbytes
  cases hpublic
  rw [hmatches.derived vk hvk bytecode hbytecode] at hcheck
  exact hdeployed _ _ hcheck

end

/-- What the command prints can be handed in as it stands. Read back, the proof and the words
are accepted by a contract that was generated from the circuit's key for the policy of the
run; a consumer of that contract stores the printed return value, and any open bounty for
the program pays. -/
theorem printed_proof_settles [InstructionSet I] (core : Core I) (H : Hashes)
    (attestationLeaf : List UInt8 → Fr) (vm : Vm I) (defaultConfig : VmConfig)
    (compiled : CompiledProgram I) (check : Check)
    (derive : List UInt8 → List UInt8) (display : ProveError → String) (run : CommandRun)
    (dir : CircuitDir) (dryResult : DryRunResult) (printed : Printed)
    (hprinted : noirJson core H attestationLeaf vm defaultConfig compiled check display run dir
      dryResult = .ok printed)
    (hkeyed : NoirProver.Keyed derive dir) (horderly : NoirProver.Orderly derive dir run.prove)
    (hfile : ∀ w,
      witnessFromArtifacts core H attestationLeaf vm defaultConfig compiled dryResult = .ok w →
      run.prove.proveLeaves.2 = some (NoirProver.publicInputsFile (publicInputs w)))
    (bytecode : File) (hbytecode : run.prove.executeLeaves.1 = some bytecode)
    (verifier : ProvenoVerifier)
    (hdeployed : Deployed check (derive bytecode.bytes) verifier.honkVerifier)
    (hpolicy : verifier.expectedPolicyHash = dryResult.publicInputs.policyHash) :
    ∃ proof words inputs, readBytes printed.proofBytesHex = some proof ∧
      printed.publicInputs.mapM readWord = some words ∧
      abiDecodePublicInputs words = some inputs ∧
      verifier.verify proof inputs = .ok true ∧
      (∀ consumer : ProvenoConsumer, consumer.provenoVerifier = verifier →
        consumer.consumeResult core.keccak256 proof inputs (abiEncodeInt256 printed.returnValue) =
          .ok (consumer.record printed.returnValue.toInt)) ∧
      ∀ initial labels c, Run (BoardStep verifier) ⟨deployed initial, []⟩ labels c →
        ∀ id, (c.world.contract.bounties id).claimed = false →
          (c.world.contract.bounties id).programHash = compiled.programHash →
          ∀ sender, ∃ after, c.world.contract.claim verifier.verify sender id proof inputs =
            .ok (after, (c.world.contract.bounties id).reward) := by
  obtain ⟨w, proof, after, hbuilt, hprove, hverify, hreturned, hhex, hinputs⟩ :=
    noirJson_eq_ok hprinted
  have hproven := proven_of_noirJson hkeyed horderly hprove hverify (hfile w hbuilt) hbytecode
    hdeployed
  obtain ⟨words, hwords, hdecoded⟩ := readWords_jsonPublicInputs w
  obtain ⟨output, -, hbuilds⟩ := witnessFromArtifacts_eq_ok hbuilt
  have hasked : (publicInputs w).policyHash = verifier.expectedPolicyHash :=
    hbuilds.policyHash.trans hpolicy.symm
  rw [hhex, hinputs, hreturned]
  refine ⟨proof.proofBytes, words, publicInputs w, readBytes_bytesTo0xHex _, hwords, hdecoded, ?_,
    ?_, ?_⟩
  · exact (verifier.verify_eq_ok_iff _ _ _).mpr ⟨hasked, hproven, rfl⟩
  · intro consumer hconsumer
    subst hconsumer
    exact consumeResult_of_witness hbuilt hasked hproven
  · intro initial labels c hboard id hopen htask sender
    exact board_claim hboard hopen (hbuilds.programHash.trans htask.symm) hasked hproven sender

/-! The call and the Ret, proved in a directory that is new. -/

def callAndRetOutput : VmOutput := { GuestInput.zeroOutput with trace := callAndRetRows }

def callAndRetWitness : NoirWitness :=
  { ((NoirWitness.zeroed.writeBytecode (layout callAndRet)).writeTrace callAndRetRows).writeTape
      rollingHashes (fun _ => 0) recordedCall with
    returnValue := 0
    inputHash := hashInput callAndRetCore .nil
    outputHash := hashOutput callAndRetCore callAndRetOutput
    policyHash := .replicate 32 0 }

theorem witnessFromArtifacts_callAndRet :
    witnessFromArtifacts callAndRetCore rollingHashes (fun _ => 0) callAndRetVm idleProver.config
      callAndRet callAndRetRun = .ok callAndRetWitness := by
  refine witnessFromArtifacts_eq_ok_iff.mpr ⟨by decide, callAndRetOutput, rfl, ?_⟩
  exact if_neg (by decide)

def callAndRetFile : List UInt8 := NoirProver.publicInputsFile (publicInputs callAndRetWitness)

def smoothRun : CommandRun where
  writeToml := .ok ()
  prove := { NoirProver.smoothProve with proveLeaves := (some [4], some callAndRetFile) }
  verify := NoirProver.smoothVerify

def callAndRetProof : NoirProof where
  proofBytes := [4]
  publicInputs := NoirProver.sixHashes (publicInputs callAndRetWitness)
  proveDuration := 1000

def callAndRetDir : CircuitDir where
  proverToml := some (writeProverToml callAndRetWitness)
  bytecode := some ⟨[1], some 1⟩
  witness := some [2]
  vk := some ⟨[3], some 2⟩
  proof := some [4]
  publicInputs := some callAndRetFile

def callAndRetBackend : Backend (NoirProof × CircuitDir) :=
  circuitBackend (NoirProver.only [3] [4] callAndRetFile) (fun _ => "") smoothRun {}

theorem callAndRet_proves :
    callAndRetBackend.prove callAndRetWitness = .ok (callAndRetProof, callAndRetDir) := rfl

theorem callAndRet_verifies :
    callAndRetBackend.verify (callAndRetProof, callAndRetDir) = .ok true := by
  have hchecked : NoirProver.bbVerify (NoirProver.only [3] [4] callAndRetFile) callAndRetDir =
      true := NoirProver.bbVerify_eq_true.mpr
    ⟨⟨[3], some 2⟩, [4], callAndRetFile, rfl, rfl, rfl, decide_eq_true ⟨rfl, rfl, rfl⟩⟩
  have hreaches : NoirProver.Reaches NoirProver.smoothVerify := ⟨rfl, rfl⟩
  unfold callAndRetBackend circuitBackend
  rw [mapError_eq_ok, NoirProver.verify_eq_ok_true]
  exact ⟨hreaches, hchecked⟩

theorem noirJson_callAndRet :
    noirJson callAndRetCore rollingHashes (fun _ => 0) callAndRetVm idleProver.config callAndRet
      (NoirProver.only [3] [4] callAndRetFile) (fun _ => "") smoothRun {} callAndRetRun =
        .ok ⟨0, "0x04", jsonPublicInputs callAndRetWitness, 0, true⟩ := by
  have hproved : proveFromArtifacts callAndRetCore rollingHashes (fun _ => 0) callAndRetVm
      idleProver.config callAndRet callAndRetBackend callAndRetRun true =
        .ok ⟨(callAndRetProof, callAndRetDir), callAndRetWitness, true⟩ := by
    refine Outcome.bind_eq_ok.mpr ⟨_, witnessFromArtifacts_callAndRet, ?_⟩
    refine Outcome.bind_eq_ok.mpr ⟨(), rfl, ?_⟩
    refine Outcome.bind_eq_ok.mpr ⟨(callAndRetProof, callAndRetDir), ?_, ?_⟩
    · exact Outcome.mapErr_eq_ok.mpr (Outcome.ofExcept_eq_ok.mpr callAndRet_proves)
    · refine Outcome.bind_eq_ok.mpr ⟨true, ?_, rfl⟩
      exact Outcome.mapErr_eq_ok.mpr (Outcome.ofExcept_eq_ok.mpr callAndRet_verifies)
  exact Outcome.bind_eq_ok.mpr ⟨_, Outcome.mapErr_eq_ok.mpr hproved, rfl⟩

theorem printed_proof_settles_callAndRet : ∃ proof words inputs,
    readBytes "0x04" = some proof ∧
    (jsonPublicInputs callAndRetWitness).mapM readWord = some words ∧
    abiDecodePublicInputs words = some inputs ∧ lenient.verify proof inputs = .ok true := by
  have hkeyed : NoirProver.Keyed NoirProver.addTwo {} := fun _ h => nomatch h
  have horderly : NoirProver.Orderly NoirProver.addTwo {} smoothRun.prove :=
    ⟨Or.inr nofun, fun exit _ => Or.inr (by rintro _ ⟨⟩ _ ⟨⟩; rfl)⟩
  have hfile (w : NoirWitness) (hbuilt : witnessFromArtifacts callAndRetCore rollingHashes
      (fun _ => 0) callAndRetVm idleProver.config callAndRet callAndRetRun = .ok w) :
      smoothRun.prove.proveLeaves.2 = some (NoirProver.publicInputsFile (publicInputs w)) := by
    rw [witnessFromArtifacts_callAndRet] at hbuilt
    cases hbuilt
    rfl
  obtain ⟨proof, words, inputs, hproof, hwords, hinputs, hverified, -⟩ :=
    printed_proof_settles _ _ _ _ _ _ _ NoirProver.addTwo _ _ _ _ _ noirJson_callAndRet hkeyed
      horderly hfile ⟨[1], some 1⟩ rfl lenient (fun _ _ _ => rfl) rfl
  exact ⟨proof, words, inputs, hproof, hwords, hinputs, hverified⟩

end ProvenoZk.Drivers
