import ProvenoZk.Contracts.Layout
import ProvenoZk.Contracts.Verifier
import ProvenoZk.Noir.Paths

/-! `ProvenoConsumer.sol`: the result a consumer decodes from the payload it is
handed, against the return value that was proven. -/
namespace ProvenoZk.Contracts
open Foundation Proveno Noir

inductive ConsumerError where
  | verifier (error : VerifierError)
  | outputPayloadMismatch
  | abiDecode
  deriving DecidableEq

structure ProvenoConsumer where
  provenoVerifier : ProvenoVerifier
  lastResult : Int
  resultConsumed : List Int

/-- `abi.decode(payload, (int256))`: the first word, whatever follows it. -/
def abiDecodeInt256 (payload : List UInt8) : Option Int :=
  if payload.length < 32 then none else some (signed (fill 32 0 payload))

namespace ProvenoConsumer

variable (keccak256 : List UInt8 → Bytes32) (consumer : ProvenoConsumer) (proof : List UInt8)
  (inputs : PublicInputs) (outputPayload : List UInt8)

def consumeResult : Outcome ConsumerError ProvenoConsumer := do
  let _ ← (consumer.provenoVerifier.verify proof inputs).mapErr .verifier
  if keccak256 outputPayload ≠ inputs.outputHash then .error (.failed .outputPayloadMismatch)
  else
    match abiDecodeInt256 outputPayload with
    | none => .error (.failed .abiDecode)
    | some result =>
      .ok { consumer with
        lastResult := result
        resultConsumed := consumer.resultConsumed ++ [result] }

structure Consumes (after : ProvenoConsumer) : Prop where
  policy : inputs.policyHash = consumer.provenoVerifier.expectedPolicyHash
  proven : consumer.provenoVerifier.honkVerifier proof inputs.words = some true
  committed : keccak256 outputPayload = inputs.outputHash
  decoded : abiDecodeInt256 outputPayload = some after.lastResult
  stored : after = { consumer with
    lastResult := after.lastResult
    resultConsumed := consumer.resultConsumed ++ [after.lastResult] }

theorem consumeResult_eq_ok_iff (after : ProvenoConsumer) :
    consumer.consumeResult keccak256 proof inputs outputPayload = .ok after ↔
      consumer.Consumes keccak256 proof inputs outputPayload after := by
  unfold consumeResult
  rw [Outcome.bind_eq_ok]
  simp only [Outcome.mapErr_eq_ok, ProvenoVerifier.verify_eq_ok_iff]
  constructor
  · rintro ⟨_, ⟨hpolicy, hproven, -⟩, hrest⟩
    split_ifs at hrest with hcommitted
    cases hdecode : abiDecodeInt256 outputPayload with
    | none => simp [hdecode] at hrest
    | some result =>
      simp only [hdecode, Except.ok.injEq] at hrest
      subst hrest
      exact ⟨hpolicy, hproven, not_not.mp hcommitted, hdecode, rfl⟩
  · rintro ⟨hpolicy, hproven, hcommitted, hdecode, hstored⟩
    refine ⟨true, ⟨hpolicy, hproven, rfl⟩, ?_⟩
    rw [if_neg (not_not.mpr hcommitted), hdecode]
    exact congrArg Except.ok hstored.symm

end ProvenoConsumer

/-- The verifier accepts no public words but those of a satisfying assignment. -/
def Sound (H : Hashes) (honk : IHonkVerifier) : Prop :=
  ∀ proof words, honk proof words = some true → ∃ w, main H w = some () ∧ publicWords w = words

def PayloadsCollide (H : Hashes) (p q : List UInt8) : Prop :=
  p ≠ q ∧ H.keccak256 p = H.keccak256 q

def PublicInputs.outputPayload (inputs : PublicInputs) : List UInt8 :=
  (twosComplement inputs.returnValue.toInt).toList

theorem abiDecodeInt256_outputPayload (inputs : PublicInputs) :
    abiDecodeInt256 inputs.outputPayload = some inputs.returnValue.toInt := by
  have hlow : -2 ^ 63 ≤ inputs.returnValue.toInt := inputs.returnValue.le_toInt
  have hhigh : inputs.returnValue.toInt < 2 ^ 63 := inputs.returnValue.toInt_lt
  have hword : fill 32 0 inputs.outputPayload = twosComplement inputs.returnValue.toInt := by
    apply Vector.toList_inj.mp
    exact toList_fill _ _ (by simp [PublicInputs.outputPayload])
  unfold abiDecodeInt256
  rw [if_neg (by simp [PublicInputs.outputPayload]), hword,
    signed_twosComplement (by omega) (by omega)]

theorem outputHash_of_satisfied {H : Hashes} {w : NoirWitness} (hmain : main H w = some ()) :
    (publicInputs w).outputHash = H.keccak256 (publicInputs w).outputPayload := by
  have houtput := ((w.main_eq_some_iff H).mp hmain).output
  rw [outputPayloadKeccak, outputPayload_eq] at houtput
  exact houtput.symm

theorem Sound.satisfied {H : Hashes} {honk : IHonkVerifier} (hsound : Sound H honk)
    {proof : List UInt8} {inputs : PublicInputs} (hproven : honk proof inputs.words = some true) :
    ∃ w, main H w = some () ∧ publicInputs w = inputs := by
  obtain ⟨w, hmain, hwords⟩ := hsound proof _ hproven
  rw [← words_publicInputs] at hwords
  exact ⟨w, hmain, PublicInputs.words_injective hwords⟩

theorem consumeResult_of_satisfied {H : Hashes} {w : NoirWitness} (hmain : main H w = some ())
    {consumer : ProvenoConsumer} {proof : List UInt8}
    (hpolicy : w.policyHash = consumer.provenoVerifier.expectedPolicyHash)
    (hproven : consumer.provenoVerifier.honkVerifier proof (publicWords w) = some true) :
    consumer.consumeResult H.keccak256 proof (publicInputs w) (publicInputs w).outputPayload =
      .ok { consumer with
        lastResult := w.returnValue.toInt
        resultConsumed := consumer.resultConsumed ++ [w.returnValue.toInt] } := by
  rw [ProvenoConsumer.consumeResult_eq_ok_iff]
  refine ⟨hpolicy, ?_, (outputHash_of_satisfied hmain).symm, abiDecodeInt256_outputPayload _, rfl⟩
  rwa [words_publicInputs]

/-- A call that does not revert stores the return value that was proven, from a payload
that is its canonical encoding. -/
theorem consumeResult_stores_proven_result (H : Hashes) (consumer after : ProvenoConsumer)
    (proof : List UInt8) (inputs : PublicInputs) (outputPayload : List UInt8)
    (hsound : Sound H consumer.provenoVerifier.honkVerifier)
    (hkeccak : ¬ PayloadsCollide H outputPayload inputs.outputPayload)
    (hcall : consumer.consumeResult H.keccak256 proof inputs outputPayload = .ok after) :
    inputs.policyHash = consumer.provenoVerifier.expectedPolicyHash ∧
      outputPayload = (twosComplement inputs.returnValue.toInt).toList ∧
      after.lastResult = inputs.returnValue.toInt ∧
      ∃ w, main H w = some () ∧ publicInputs w = inputs := by
  have hcalled := (consumer.consumeResult_eq_ok_iff H.keccak256 proof inputs outputPayload after).mp
    hcall
  obtain ⟨w, hmain, rfl⟩ := hsound.satisfied hcalled.proven
  have hpayload : outputPayload = (publicInputs w).outputPayload := by
    by_contra hdiffer
    apply hkeccak
    exact ⟨hdiffer, hcalled.committed.trans (outputHash_of_satisfied hmain)⟩
  have hdecoded := hcalled.decoded
  rw [hpayload, abiDecodeInt256_outputPayload, Option.some_inj] at hdecoded
  exact ⟨hcalled.policy, hpayload, hdecoded.symm, w, hmain, rfl⟩

def minusOneWitness : NoirWitness :=
  runWitness rollingHashes ⟨fill _ 0 [], fill _ 0 []⟩ 0 [] (-1)

def minusOneConsumer : ProvenoConsumer where
  provenoVerifier :=
    { expectedPolicyHash := minusOneWitness.policyHash
      honkVerifier := fun _ words => some (decide (words = publicWords minusOneWitness)) }
  lastResult := 0
  resultConsumed := []

theorem main_minusOneWitness : main rollingHashes minusOneWitness = some () :=
  main_runWitness rollingHashes _ 0 (by decide) [] (by decide) ⟨0, .done 0⟩ (by decide) (-1)
    (by decide)

theorem sound_minusOneConsumer :
    Sound rollingHashes minusOneConsumer.provenoVerifier.honkVerifier := by
  intro proof words haccepted
  have hwords := of_decide_eq_true (Option.some_inj.mp haccepted)
  exact ⟨minusOneWitness, main_minusOneWitness, hwords.symm⟩

theorem consumeResult_stores_minusOne :
    ∃ after, minusOneConsumer.consumeResult rollingHashes.keccak256 []
        (publicInputs minusOneWitness) (publicInputs minusOneWitness).outputPayload = .ok after ∧
      after.lastResult = -1 := by
  have hproven : minusOneConsumer.provenoVerifier.honkVerifier [] (publicWords minusOneWitness) =
      some true := congrArg some (decide_eq_true rfl)
  have hcall := consumeResult_of_satisfied main_minusOneWitness rfl hproven
  have hstored := consumeResult_stores_proven_result rollingHashes minusOneConsumer _ _ _ _
    sound_minusOneConsumer (fun hcollide => hcollide.1 rfl) hcall
  exact ⟨_, hcall, hstored.2.2.1.trans rfl⟩

end ProvenoZk.Contracts
