import ProvenoZk.Contracts.Consumer

/-! Runs of the consumer. Nothing that it stores decides what it accepts next, so a run
leaves it with the results of the calls it would have accepted at first, in order. -/
namespace ProvenoZk.Contracts
open Foundation Proveno Noir

structure ConsumeCall where
  proof : List UInt8
  inputs : PublicInputs
  outputPayload : List UInt8

namespace ProvenoConsumer

def deploy (provenoVerifier : ProvenoVerifier) : ProvenoConsumer := ⟨provenoVerifier, 0, []⟩

section

variable (keccak256 : List UInt8 → Bytes32)

/-- A transaction: a call that reverts leaves everything as it was. -/
def consume (consumer : ProvenoConsumer) (call : ConsumeCall) : ProvenoConsumer :=
  match consumer.consumeResult keccak256 call.proof call.inputs call.outputPayload with
  | .ok after => after
  | .error _ => consumer

def record (consumer : ProvenoConsumer) (result : Int) : ProvenoConsumer :=
  { consumer with
    lastResult := result
    resultConsumed := consumer.resultConsumed ++ [result] }

def Accepts (verifier : ProvenoVerifier) (call : ConsumeCall) : Prop :=
  call.inputs.policyHash = verifier.expectedPolicyHash ∧
    verifier.honkVerifier call.proof call.inputs.words = some true ∧
    keccak256 call.outputPayload = call.inputs.outputHash ∧
    (abiDecodeInt256 call.outputPayload).isSome

instance (verifier : ProvenoVerifier) (call : ConsumeCall) :
    Decidable (Accepts keccak256 verifier call) :=
  inferInstanceAs (Decidable (_ ∧ _ ∧ _ ∧ _))

end

section

variable {H : Hashes} {verifier : ProvenoVerifier} {call : ConsumeCall} {consumer : ProvenoConsumer}

theorem Accepts.satisfied (h : Accepts H.keccak256 verifier call)
    (hsound : Sound H verifier.honkVerifier)
    (hfree : ¬ PayloadsCollide H call.outputPayload call.inputs.outputPayload) :
    (∃ w, main H w = some () ∧ publicInputs w = call.inputs) ∧
      abiDecodeInt256 call.outputPayload = some call.inputs.returnValue.toInt := by
  obtain ⟨w, hmain, hinputs⟩ := hsound.satisfied h.2.1
  have houtput := outputHash_of_satisfied hmain
  rw [hinputs, ← h.2.2.1] at houtput
  have hpayload : call.outputPayload = call.inputs.outputPayload := by
    by_contra hdiffer
    exact hfree ⟨hdiffer, houtput⟩
  refine ⟨⟨w, hmain, hinputs⟩, ?_⟩
  rw [hpayload]
  exact abiDecodeInt256_outputPayload call.inputs

theorem consumeResult_of_accepts (hsound : Sound H verifier.honkVerifier)
    (hfree : ¬ PayloadsCollide H call.outputPayload call.inputs.outputPayload)
    (hverifier : consumer.provenoVerifier = verifier) (h : Accepts H.keccak256 verifier call) :
    consumer.consumeResult H.keccak256 call.proof call.inputs call.outputPayload =
      .ok (consumer.record call.inputs.returnValue.toInt) := by
  have hdecoded := (h.satisfied hsound hfree).2
  subst hverifier
  rw [consumeResult_eq_ok_iff]
  exact ⟨h.1, h.2.1, h.2.2.1, hdecoded, rfl⟩

theorem consume_eq (hsound : Sound H verifier.honkVerifier)
    (hfree : ¬ PayloadsCollide H call.outputPayload call.inputs.outputPayload)
    (hverifier : consumer.provenoVerifier = verifier) :
    consumer.consume H.keccak256 call =
      if Accepts H.keccak256 verifier call then consumer.record call.inputs.returnValue.toInt
      else consumer := by
  unfold consume
  split_ifs with haccepts
  · rw [consumeResult_of_accepts hsound hfree hverifier haccepts]
  · cases hcall : consumer.consumeResult H.keccak256 call.proof call.inputs call.outputPayload with
    | error fault => rfl
    | ok after =>
      have hcalled := (consumeResult_eq_ok_iff H.keccak256 consumer _ _ _ after).mp hcall
      subst hverifier
      exact absurd ⟨hcalled.policy, hcalled.proven, hcalled.committed, by
        rw [hcalled.decoded]; rfl⟩ haccepts

def acceptedResults (keccak256 : List UInt8 → Bytes32) (verifier : ProvenoVerifier)
    (calls : List ConsumeCall) : List Int :=
  (calls.filter (fun call => Accepts keccak256 verifier call)).map (·.inputs.returnValue.toInt)

theorem foldl_consume_eq (hsound : Sound H verifier.honkVerifier) {calls : List ConsumeCall}
    (hfree : ∀ call ∈ calls, ¬ PayloadsCollide H call.outputPayload call.inputs.outputPayload)
    (hverifier : consumer.provenoVerifier = verifier) :
    calls.foldl (consume H.keccak256) consumer =
      (acceptedResults H.keccak256 verifier calls).foldl record consumer := by
  induction calls generalizing consumer with
  | nil => rfl
  | cons call calls ih =>
    have hcall := consume_eq hsound (hfree call List.mem_cons_self) hverifier
    have hrest : ∀ other ∈ calls, ¬ PayloadsCollide H other.outputPayload _ := fun other hother =>
      hfree other (List.mem_cons_of_mem call hother)
    rw [List.foldl_cons, hcall]
    unfold acceptedResults
    split_ifs with haccepts
    · rw [List.filter_cons_of_pos (by simpa using haccepts)]
      exact ih hrest hverifier
    · rw [List.filter_cons_of_neg (by simpa using haccepts)]
      exact ih hrest hverifier

theorem foldl_record (results : List Int) (consumer : ProvenoConsumer) :
    results.foldl record consumer =
      { consumer with
        lastResult := results.getLastD consumer.lastResult
        resultConsumed := consumer.resultConsumed ++ results } := by
  induction results generalizing consumer with
  | nil => simp
  | cons result results ih =>
    rw [List.foldl_cons, ih, List.getLastD_cons, record]
    simp

end

/-- After any transactions the consumer's results are the proven return values of those a new
contract would accept, in order, and the last of them is stored. Each was returned by a run
that satisfies the circuit under the policy. No call is used up: what was accepted once is
accepted again at any later time, and puts its result back. -/
theorem consumer_run_results (H : Hashes) (verifier : ProvenoVerifier)
    (hsound : Sound H verifier.honkVerifier) (calls : List ConsumeCall)
    (hfree : ∀ call ∈ calls, ¬ PayloadsCollide H call.outputPayload call.inputs.outputPayload)
    (final : ProvenoConsumer)
    (hfinal : calls.foldl (consume H.keccak256) (deploy verifier) = final) :
    final.resultConsumed = acceptedResults H.keccak256 verifier calls ∧
    final.lastResult = final.resultConsumed.getLastD 0 ∧
    (∀ result ∈ final.resultConsumed, ∃ w, main H w = some () ∧
      w.policyHash = verifier.expectedPolicyHash ∧ w.returnValue.toInt = result) ∧
    ∀ call ∈ calls, Accepts H.keccak256 verifier call →
      final.consumeResult H.keccak256 call.proof call.inputs call.outputPayload =
        .ok (final.record call.inputs.returnValue.toInt) := by
  rw [foldl_consume_eq hsound hfree rfl, foldl_record] at hfinal
  subst hfinal
  refine ⟨List.nil_append _, ?_, ?_, ?_⟩
  · change _ = List.getLastD ([] ++ _) 0
    rw [List.nil_append]
    rfl
  · intro result hresult
    change result ∈ [] ++ acceptedResults H.keccak256 verifier calls at hresult
    rw [List.nil_append] at hresult
    obtain ⟨call, hmem, rfl⟩ := List.mem_map.mp hresult
    obtain ⟨hcall, haccepts⟩ := List.mem_filter.mp hmem
    have haccepts : Accepts H.keccak256 verifier call := of_decide_eq_true haccepts
    obtain ⟨⟨w, hmain, hinputs⟩, -⟩ := haccepts.satisfied hsound (hfree call hcall)
    refine ⟨w, hmain, ?_, ?_⟩
    · exact (congrArg PublicInputs.policyHash hinputs).trans haccepts.1
    · rw [← hinputs]
      rfl
  · intro call hcall haccepts
    exact consumeResult_of_accepts hsound (hfree call hcall) rfl haccepts

/-! The run that returns `-1`, consumed twice. -/

def consumeMinusOne : ConsumeCall where
  proof := []
  inputs := publicInputs minusOneWitness
  outputPayload := (publicInputs minusOneWitness).outputPayload

theorem proven_minusOne : minusOneConsumer.provenoVerifier.honkVerifier []
    (publicInputs minusOneWitness).words = some true := by
  rw [words_publicInputs]
  exact congrArg some (decide_eq_true rfl)

theorem accepts_minusOne :
    Accepts rollingHashes.keccak256 minusOneConsumer.provenoVerifier consumeMinusOne := by
  have hdecoded := abiDecodeInt256_outputPayload (publicInputs minusOneWitness)
  have hcommitted := outputHash_of_satisfied main_minusOneWitness
  exact ⟨rfl, proven_minusOne, hcommitted.symm, Option.isSome_of_eq_some hdecoded⟩

theorem consumer_run_results_minusOne :
    ([consumeMinusOne, consumeMinusOne].foldl (consume rollingHashes.keccak256)
      (deploy minusOneConsumer.provenoVerifier)).resultConsumed = [-1, -1] := by
  have hrun := (consumer_run_results rollingHashes minusOneConsumer.provenoVerifier
    sound_minusOneConsumer [consumeMinusOne, consumeMinusOne]
    (by simp [PayloadsCollide, consumeMinusOne]) _ rfl).1
  rw [hrun, acceptedResults, List.filter_eq_self.mpr]
  · rfl
  · simp [accepts_minusOne]

end ProvenoConsumer

end ProvenoZk.Contracts
