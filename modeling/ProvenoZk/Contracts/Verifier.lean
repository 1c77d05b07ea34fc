import ProvenoZk.Contracts.Types

/-! `ProvenoVerifier.sol`. A call that reverts gives an error. -/
namespace ProvenoZk.Contracts
open Foundation

/-- `IHonkVerifier.verify`, which reverts where this is `none`. -/
abbrev IHonkVerifier := List UInt8 → List Bytes32 → Option Bool

inductive VerifierError where
  | policyHashMismatch
  | proofInvalid
  deriving DecidableEq

structure ProvenoVerifier where
  expectedPolicyHash : Bytes32
  honkVerifier : IHonkVerifier

namespace ProvenoVerifier

variable (verifier : ProvenoVerifier) (proof : List UInt8) (inputs : PublicInputs)

def verify : Outcome VerifierError Bool :=
  if inputs.policyHash ≠ verifier.expectedPolicyHash then .error (.failed .policyHashMismatch)
  else
    match inputs.pack with
    | none => .error .panicked
    | some packed =>
      match verifier.honkVerifier proof packed.toList with
      | some ok => if ok = false then .error (.failed .proofInvalid) else .ok true
      | none => .error (.failed .proofInvalid)

theorem verify_eq_ok_iff (ok : Bool) : verifier.verify proof inputs = .ok ok ↔
    inputs.policyHash = verifier.expectedPolicyHash ∧
      verifier.honkVerifier proof inputs.words = some true ∧ ok = true := by
  unfold verify
  rw [inputs.pack_eq]
  simp only [toList_fill _ _ inputs.length_words]
  by_cases hpolicy : inputs.policyHash = verifier.expectedPolicyHash
  · cases hanswer : verifier.honkVerifier proof inputs.words with
    | none => simp [hpolicy]
    | some answer => cases answer <;> simp [hpolicy, eq_comm]
  · simp [hpolicy]

end ProvenoVerifier

end ProvenoZk.Contracts
