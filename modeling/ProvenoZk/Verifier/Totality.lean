import ProvenoZk.Verifier.WireFormat

/-! Bundles with a hostile length field: where the verifier's sums leave the range of
`usize`. -/
namespace ProvenoZk.Verifier
open Foundation Zkvm

/-- With overflow checks and without, the verifier returns, and a declared length beyond
the end of the bundle is malformed input. A sum that overflows or a slice out of bounds is
a panic in a build with checks. -/
def Total (sha256 : List UInt8 → Bytes32) (target : Target) (proof : List UInt8)
    (publicInputs : PublicInputs) (expectedPolicyHash : Bytes32) : Prop :=
  ∀ overflowChecks,
    (∀ fault, verifyProof target overflowChecks proof sha256 publicInputs expectedPolicyHash =
      .error fault → fault.Returned) ∧
    (proof.length < headerSize + declaredLen proof → ∃ message,
      verifyProof target overflowChecks proof sha256 publicInputs expectedPolicyHash =
        .error (.failed (.malformedInput message)))

section

variable {sha256 : List UInt8 → Bytes32} {publicInputs : PublicInputs}
  {expectedPolicyHash : Bytes32} {target : Target} {proof : List UInt8}

theorem total_of_malformed (h : ∀ overflowChecks, ∃ message,
    verifyProof target overflowChecks proof sha256 publicInputs expectedPolicyHash =
      .error (.failed (.malformedInput message))) :
    Total sha256 target proof publicInputs expectedPolicyHash := by
  intro overflowChecks
  cases h overflowChecks with
  | intro message hmessage =>
    constructor
    · intro fault hfault
      rw [hmessage] at hfault
      cases hfault
      trivial
    · intro _
      exact ⟨message, hmessage⟩

theorem total_of_lengthFits (h : HasHeader proof) (hfits : LengthFits target proof) :
    Total sha256 target proof publicInputs expectedPolicyHash := by
  intro overflowChecks
  rw [verifyProof_eq h hfits]
  constructor
  · intro fault hfault
    split_ifs at hfault
    · cases hfault
      trivial
    · cases hverdict : verdict sha256 publicInputs expectedPolicyHash (embedded proof)
          (proof.take (headerSize + declaredLen proof))
          (hashAt proof (headerSize + declaredLen proof)) with
      | ok result =>
        rw [hverdict] at hfault
        cases hfault
      | error e =>
        rw [hverdict] at hfault
        cases hfault
        trivial
  · intro hbeyond
    rw [if_pos (hbeyond.trans_le (Nat.le_add_right _ _))]
    exact ⟨_, rfl⟩

theorem verifyProof_overflow (h : HasHeader proof) (hfits : ¬ LengthFits target proof) :
    verifyProof target true proof sha256 publicInputs expectedPolicyHash = .error .panicked := by
  rw [verifyProof_of_hasHeader h, verifyPayload]
  by_cases hpayload : headerSize + declaredLen proof < target.usizeRange
  · rw [Target.add_eq_ok _ hpayload]
    simp only [bind, Except.bind]
    rw [Target.add_overflow hfits]
  · rw [Target.add_overflow hpayload]
    rfl

end

/-- The verifier is total on exactly the bundles it refuses before it reads the length
and those whose length, with the header and the integrity field, fits `usize`; on a
64-bit target every length does. -/
theorem verify_total_iff (sha256 : List UInt8 → Bytes32) (proof : List UInt8)
    (publicInputs : PublicInputs) (expectedPolicyHash : Bytes32) :
    (∀ target, Total sha256 target proof publicInputs expectedPolicyHash ↔
      ¬ HasHeader proof ∨ LengthFits target proof) ∧
    Total sha256 .host64 proof publicInputs expectedPolicyHash := by
  have hiff : ∀ target, Total sha256 target proof publicInputs expectedPolicyHash ↔
      ¬ HasHeader proof ∨ LengthFits target proof := by
    intro target
    by_cases h : HasHeader proof
    · by_cases hfits : LengthFits target proof
      · exact iff_of_true (total_of_lengthFits h hfits) (Or.inr hfits)
      · apply iff_of_false
        · intro htotal
          exact (htotal true).1 _ (verifyProof_overflow h hfits)
        · simp [h, hfits]
    · apply iff_of_true
      · apply total_of_malformed
        intro overflowChecks
        exact verifyProof_of_not_hasHeader h
      · exact Or.inl h
  exact ⟨hiff, (hiff .host64).mpr (Or.inr (lengthFits_host64 proof))⟩

/-- The shortest bundle, which declares a blob of `0xffffffff` bytes. -/
theorem not_verify_total :
    ¬ ∃ sha256 : List UInt8 → Bytes32, ∀ target proof publicInputs expectedPolicyHash,
      Total sha256 target proof publicInputs expectedPolicyHash := by
  intro hall
  cases hall with
  | intro sha256 hall =>
    have hfields : HasHeader _ ∧ _ ∧ declaredLen _ = 0xffffffff :=
      fields_of_headerBytes (p := zeroInputs) (by decide) (by decide)
        (rfl : headerBytes zeroInputs 0xffffffff ++ zeroHash.toList = _)
    have hfits : ¬ LengthFits .guest32 (headerBytes zeroInputs 0xffffffff ++ zeroHash.toList) := by
      rw [LengthFits, hfields.2.2]
      decide
    have htotal := hall .guest32 (headerBytes zeroInputs 0xffffffff ++ zeroHash.toList) zeroInputs
      zeroHash true
    exact htotal.1 _ (verifyProof_overflow hfields.1 hfits)

end ProvenoZk.Verifier
