import ProvenoZk.Foundation.Loop
import ProvenoZk.Zkvm.Commitment

/-! The standalone verifier and the proof bundles it reads: a fixed header, a blob
of announced length and an integrity digest of everything before it. The hash is
the only function from outside. -/
namespace ProvenoZk.Verifier
open Foundation Zkvm

def magic : List UInt8 := utf8 "prvn"
def version : UInt8 := 0x01
def headerSize : Nat := 4 + 1 + 32 * 6 + 4
def integritySize : Nat := 32
def minProofLen : Nat := headerSize + integritySize

structure VerificationResult where
  verified : Bool
  publicInputs : PublicInputs
  /-- Always empty in this wire format. -/
  outputBytes : List UInt8
  deriving DecidableEq

inductive VerifyError where
  | proofInvalid
  | policyHashMismatch (got expected : Bytes32)
  | malformedInput (message : String)
  deriving DecidableEq

section

variable (target : Target) (overflowChecks : Bool) (proof : List UInt8)

def read32 (off : Nat) : Outcome ε (Bytes32 × Nat) := do
  let stop ← target.add overflowChecks off 32
  let window ← Outcome.slice proof off stop
  let h ← Outcome.copyFromSlice 32 window
  let off ← target.add overflowChecks off 32
  return (fill 32 0 h, off)

def readPublicInputs (offset : Nat) : Outcome ε (PublicInputs × Nat) := do
  let (programHash, offset) ← read32 target overflowChecks proof offset
  let (inputHash, offset) ← read32 target overflowChecks proof offset
  let (toolResponsesHash, offset) ← read32 target overflowChecks proof offset
  let (outputHash, offset) ← read32 target overflowChecks proof offset
  let (attestationHash, offset) ← read32 target overflowChecks proof offset
  let (policyHash, offset) ← read32 target overflowChecks proof offset
  return ({ programHash, inputHash, toolResponsesHash, outputHash, attestationHash, policyHash },
    offset)

variable (sha256 : List UInt8 → Bytes32) (publicInputs : PublicInputs)
  (expectedPolicyHash : Bytes32)

/-- The three checks on a bundle that was taken apart, in the order they are made. -/
def verdict (embedded : PublicInputs) (payload : List UInt8) (gotIntegrity : Bytes32) :
    Except VerifyError VerificationResult :=
  if sha256 payload ≠ gotIntegrity then .error .proofInvalid
  else if embedded ≠ publicInputs then .error .proofInvalid
  else if embedded.policyHash ≠ expectedPolicyHash then
    .error (.policyHashMismatch embedded.policyHash expectedPolicyHash)
  else .ok { verified := true, publicInputs := embedded, outputBytes := [] }

/-- `verify_proof` from `payload_end` on, with the header read. -/
def verifyPayload (embedded : PublicInputs) (offset blobLen : Nat) :
    Outcome VerifyError VerificationResult := do
  let payloadEnd ← target.add overflowChecks offset blobLen
  let bundleEnd ← target.add overflowChecks payloadEnd integritySize
  if proof.length < bundleEnd then
    let remain := proof.length - offset
    .error (.failed (.malformedInput
      s!"proof truncated: declared blob_len={blobLen} but only {remain} bytes remain"))
  else
    let payload ← Outcome.slice proof 0 payloadEnd
    let stop ← target.add overflowChecks payloadEnd integritySize
    let window ← Outcome.slice proof payloadEnd stop
    let gotIntegrity ← Outcome.copyFromSlice 32 window
    Outcome.ofExcept
      (verdict sha256 publicInputs expectedPolicyHash embedded payload (fill 32 0 gotIntegrity))

def verifyProof : Outcome VerifyError VerificationResult :=
  if proof.length < minProofLen then
    let len := proof.length
    .error (.failed (.malformedInput s!"proof too short: {len} bytes (minimum {minProofLen})"))
  else do
    let start ← Outcome.slice proof 0 4
    if start ≠ magic then
      .error (.failed (.malformedInput "invalid magic bytes"))
    else
      let byte ← Outcome.index proof 4
      if byte ≠ version then
        .error (.failed (.malformedInput s!"unsupported proof version: {byte}"))
      else
        let (embedded, offset) ← readPublicInputs target overflowChecks proof 5
        let stop ← target.add overflowChecks offset 4
        let window ← Outcome.slice proof offset stop
        let lenBytes ← Outcome.copyFromSlice 4 window
        let blobLen := target.asUsize (leNat lenBytes)
        let offset ← target.add overflowChecks offset 4
        verifyPayload target overflowChecks proof sha256 publicInputs expectedPolicyHash
          embedded offset blobLen

def testPayload (publicInputs : PublicInputs) (proofBlob : List UInt8) : List UInt8 :=
  magic ++ [version] ++ publicInputs.programHash.toList ++ publicInputs.inputHash.toList ++
    publicInputs.toolResponsesHash.toList ++ publicInputs.outputHash.toList ++
    publicInputs.attestationHash.toList ++ publicInputs.policyHash.toList ++
    leBytes 4 proofBlob.length ++ proofBlob

def buildTestProof (publicInputs : PublicInputs) (proofBlob : List UInt8) : List UInt8 :=
  let buf := testPayload publicInputs proofBlob
  buf ++ (sha256 buf).toList

end

/-! The same functions without the plumbing of offsets. -/

def hashAt (proof : List UInt8) (off : Nat) : Bytes32 := fill 32 0 ((proof.drop off).take 32)

def embedded (proof : List UInt8) : PublicInputs where
  programHash := hashAt proof 5
  inputHash := hashAt proof 37
  toolResponsesHash := hashAt proof 69
  outputHash := hashAt proof 101
  attestationHash := hashAt proof 133
  policyHash := hashAt proof 165

def declaredLen (proof : List UInt8) : Nat := leNat ((proof.drop 197).take 4)

/-- Long enough for every fixed read, with the magic bytes and the version in place. -/
structure HasHeader (proof : List UInt8) : Prop where
  long : minProofLen ≤ proof.length
  magic : proof.take 4 = magic
  version : proof[4]? = some version

def LengthFits (target : Target) (proof : List UInt8) : Prop :=
  headerSize + declaredLen proof + integritySize < target.usizeRange

def EndsAtIntegrity (proof : List UInt8) : Prop :=
  proof.length = headerSize + declaredLen proof + integritySize

theorem declaredLen_lt (proof : List UInt8) : declaredLen proof < 2 ^ 32 := by
  have hlt := leNat_lt ((proof.drop 197).take 4)
  have hlen : ((proof.drop 197).take 4).length ≤ 4 := List.length_take_le _ _
  exact hlt.trans_le (Nat.pow_le_pow_right (by decide) hlen)

theorem lengthFits_host64 (proof : List UInt8) : LengthFits .host64 proof := by
  have hlt := declaredLen_lt proof
  change 201 + declaredLen proof + 32 < 2 ^ 64
  omega

section

variable {target : Target} {overflowChecks : Bool} {proof : List UInt8}

theorem add_small (a b : Nat) (h : a + b < 2 ^ 32) :
    (target.add overflowChecks a b : Outcome ε Nat) = .ok (a + b) :=
  Target.add_eq_ok _ (h.trans_le target.le_usizeRange)

theorem read32_eq {off : Nat} (hend : off + 32 ≤ proof.length) (hsmall : off + 32 < 2 ^ 32) :
    (read32 target overflowChecks proof off : Outcome ε _) = .ok (hashAt proof off, off + 32) := by
  have hwindow : ((proof.drop off).take 32).length = 32 := length_window hend
  rw [read32, add_small _ _ hsmall]
  simp only [bind, Except.bind, Outcome.slice_window hend, Outcome.copyFromSlice_eq_ok hwindow]
  rfl

theorem readPublicInputs_eq (hlong : minProofLen ≤ proof.length) :
    (readPublicInputs target overflowChecks proof 5 : Outcome ε _) =
      .ok (embedded proof, 197) := by
  unfold minProofLen headerSize integritySize at hlong
  rw [readPublicInputs, read32_eq (by omega) (by decide)]
  simp only [bind, Except.bind]
  rw [read32_eq (by omega) (by decide)]
  dsimp only
  rw [read32_eq (by omega) (by decide)]
  dsimp only
  rw [read32_eq (by omega) (by decide)]
  dsimp only
  rw [read32_eq (by omega) (by decide)]
  dsimp only
  rw [read32_eq (by omega) (by decide)]
  rfl

variable {sha256 : List UInt8 → Bytes32} {publicInputs : PublicInputs}
  {expectedPolicyHash : Bytes32}

theorem verifyProof_of_hasHeader (h : HasHeader proof) :
    verifyProof target overflowChecks proof sha256 publicInputs expectedPolicyHash =
      verifyPayload target overflowChecks proof sha256 publicInputs expectedPolicyHash
        (embedded proof) headerSize (declaredLen proof) := by
  have hlong : 233 ≤ proof.length := h.long
  have hstart : (Outcome.slice proof 0 4 : Outcome VerifyError _) = .ok magic := by
    rw [Outcome.slice_eq_ok (by omega) (by omega), List.drop_zero, h.magic]
  have hbyte : (Outcome.index proof 4 : Outcome VerifyError _) = .ok version := by
    rw [Outcome.index, h.version]
  have hend : 197 + 4 ≤ proof.length := by
    omega
  have hwindow : ((proof.drop 197).take 4).length = 4 := length_window hend
  rw [verifyProof, if_neg (Nat.not_lt.mpr h.long), hstart]
  simp only [bind, Except.bind, ne_eq, not_true_eq_false, if_false, hbyte,
    readPublicInputs_eq h.long, add_small 197 4 (by decide), Outcome.slice_window hend,
    Outcome.copyFromSlice_eq_ok hwindow]
  congr 1
  exact target.asUsize_of_lt (declaredLen_lt proof)

theorem verifyProof_of_not_hasHeader (h : ¬ HasHeader proof) : ∃ message,
    verifyProof target overflowChecks proof sha256 publicInputs expectedPolicyHash =
      .error (.failed (.malformedInput message)) := by
  by_cases hlong : minProofLen ≤ proof.length
  · have hlen : 233 ≤ proof.length := hlong
    have hstart : (Outcome.slice proof 0 4 : Outcome VerifyError _) = .ok (proof.take 4) :=
      Outcome.slice_eq_ok (by omega) (by omega)
    rw [verifyProof, if_neg (Nat.not_lt.mpr hlong), hstart]
    simp only [bind, Except.bind]
    by_cases hmagic : proof.take 4 = magic
    · have hat : proof[4]? = some proof[4] := List.getElem?_eq_getElem (by omega)
      have hbyte : (Outcome.index proof 4 : Outcome VerifyError _) = .ok proof[4] := by
        rw [Outcome.index, hat]
      have hversion : proof[4] ≠ version := by
        intro hversion
        exact h ⟨hlong, hmagic, by rw [hat, hversion]⟩
      rw [if_neg (not_not.mpr hmagic), hbyte]
      simp only
      rw [if_pos hversion]
      exact ⟨_, rfl⟩
    · rw [if_pos hmagic]
      exact ⟨_, rfl⟩
  · rw [verifyProof, if_pos (Nat.lt_of_not_le hlong)]
    exact ⟨_, rfl⟩

/-- Where the sum with the declared length stays in range, the verdict falls on the
bytes the header points at, and a bundle that is too short is refused. -/
theorem verifyProof_eq (h : HasHeader proof) (hfits : LengthFits target proof) :
    verifyProof target overflowChecks proof sha256 publicInputs expectedPolicyHash =
      if proof.length < headerSize + declaredLen proof + integritySize then
        .error (.failed (.malformedInput s!"proof truncated: declared blob_len={declaredLen proof} but only {proof.length - headerSize} bytes remain"))
      else Outcome.ofExcept (verdict sha256 publicInputs expectedPolicyHash (embedded proof)
        (proof.take (headerSize + declaredLen proof))
        (hashAt proof (headerSize + declaredLen proof))) := by
  have hpayload : headerSize + declaredLen proof < target.usizeRange := by
    have hle := Nat.le_add_right (headerSize + declaredLen proof) integritySize
    exact hle.trans_lt hfits
  rw [verifyProof_of_hasHeader h, verifyPayload, Target.add_eq_ok _ hpayload]
  simp only [bind, Except.bind]
  rw [Target.add_eq_ok _ hfits]
  dsimp only
  split_ifs with hshort
  · rfl
  · have hend := Nat.not_lt.mp hshort
    have hslice : (Outcome.slice proof 0 (headerSize + declaredLen proof) :
        Outcome VerifyError _) = .ok (proof.take (headerSize + declaredLen proof)) :=
      Outcome.slice_eq_ok (Nat.zero_le _) ((Nat.le_add_right _ _).trans hend)
    have hwindow : ((proof.drop (headerSize + declaredLen proof)).take integritySize).length = 32 :=
      length_window hend
    simp only [hslice, Outcome.slice_window hend, Outcome.copyFromSlice_eq_ok hwindow]
    rfl

end

end ProvenoZk.Verifier
