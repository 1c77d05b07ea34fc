import ProvenoZk.Verifier.WireFormat

/-! What the verifier accepts: every accepted bundle starts with the encoding of what
it carries, and an encoding is accepted whatever follows it. -/
namespace ProvenoZk.Verifier
open Foundation Zkvm

section

variable {sha256 : List UInt8 → Bytes32} {publicInputs : PublicInputs}
  {expectedPolicyHash : Bytes32} {target : Target} {overflowChecks : Bool} {proof : List UInt8}
  {result : VerificationResult}

def accepted (publicInputs : PublicInputs) : VerificationResult where
  verified := true
  publicInputs := publicInputs
  outputBytes := []

theorem verdict_eq_ok {read : PublicInputs} {payload : List UInt8} {got : Bytes32} :
    verdict sha256 publicInputs expectedPolicyHash read payload got = .ok result ↔
      sha256 payload = got ∧ read = publicInputs ∧ publicInputs.policyHash = expectedPolicyHash ∧
        result = accepted publicInputs := by
  unfold verdict
  split_ifs with hdigest hread hpolicy
  · simp [hdigest]
  · simp [hread]
  · rw [not_not] at hread
    rw [hread] at hpolicy
    simp [hpolicy]
  · rw [not_not] at hdigest hread hpolicy
    rw [hread] at hpolicy ⊢
    simp [hdigest, hpolicy, accepted, eq_comm]

/-- What an accepted bundle has in common with every other, whatever the width of
`usize` and also where a sum wrapped. -/
theorem of_accepted (hok : verifyProof target overflowChecks proof sha256 publicInputs
    expectedPolicyHash = .ok result) :
    HasHeader proof ∧ embedded proof = publicInputs ∧
      publicInputs.policyHash = expectedPolicyHash ∧ result = accepted publicInputs := by
  by_cases h : HasHeader proof
  · rw [verifyProof_of_hasHeader h, verifyPayload] at hok
    obtain ⟨payloadEnd, -, hok⟩ := Outcome.bind_eq_ok.mp hok
    obtain ⟨bundleEnd, -, hok⟩ := Outcome.bind_eq_ok.mp hok
    split_ifs at hok
    obtain ⟨payload, -, hok⟩ := Outcome.bind_eq_ok.mp hok
    obtain ⟨stop, -, hok⟩ := Outcome.bind_eq_ok.mp hok
    obtain ⟨window, -, hok⟩ := Outcome.bind_eq_ok.mp hok
    obtain ⟨got, -, hok⟩ := Outcome.bind_eq_ok.mp hok
    exact ⟨h, (verdict_eq_ok.mp (Outcome.ofExcept_eq_ok.mp hok)).2⟩
  · have hrefused : ∃ message, verifyProof target overflowChecks proof sha256 publicInputs
        expectedPolicyHash = .error (.failed (.malformedInput message)) :=
      verifyProof_of_not_hasHeader h
    rw [hok] at hrefused
    cases hrefused with
    | intro message hmessage => cases hmessage

theorem take_of_accepted (hfits : LengthFits target proof)
    (hok : verifyProof target overflowChecks proof sha256 publicInputs expectedPolicyHash =
      .ok result) :
    headerSize + declaredLen proof + integritySize ≤ proof.length ∧
      proof.take (headerSize + declaredLen proof + integritySize) =
        buildTestProof sha256 publicInputs (blobOf proof) := by
  have hfields := of_accepted hok
  rw [verifyProof_eq hfields.1 hfits] at hok
  split_ifs at hok with hshort
  have hend := Nat.not_lt.mp hshort
  have hverdict := verdict_eq_ok.mp (Outcome.ofExcept_eq_ok.mp hok)
  have htake := take_bundle hfields.1 hend hverdict.1
  rw [hfields.2.1] at htake
  exact ⟨hend, htake⟩

theorem verifyProof_buildTestProof (p : PublicInputs) {blob : List UInt8}
    (hblob : blob.length < 2 ^ 32)
    (hfits : headerSize + blob.length + integritySize < target.usizeRange) (rest : List UInt8) :
    verifyProof target overflowChecks (buildTestProof sha256 p blob ++ rest) sha256 publicInputs
        expectedPolicyHash =
      Outcome.ofExcept (verdict sha256 publicInputs expectedPolicyHash p (testPayload p blob)
        (sha256 (testPayload p blob))) := by
  have hproof : buildTestProof sha256 p blob ++ rest =
      headerBytes p blob.length ++ (blob ++ ((sha256 (testPayload p blob)).toList ++ rest)) := by
    simp [buildTestProof, testPayload_eq]
  have hrest : integritySize ≤
      (blob ++ ((sha256 (testPayload p blob)).toList ++ rest)).length := by
    rw [List.length_append, List.length_append, Vector.length_toList, integritySize]
    omega
  have hfields := fields_of_headerBytes hblob hrest hproof
  have hlen := length_testPayload p blob
  have hpayload : (buildTestProof sha256 p blob ++ rest).take (headerSize + blob.length) =
      testPayload p blob := by
    rw [buildTestProof, List.append_assoc, List.take_left' hlen]
  have hdrop : (buildTestProof sha256 p blob ++ rest).drop (headerSize + blob.length) =
      (sha256 (testPayload p blob)).toList ++ rest := by
    rw [buildTestProof, List.append_assoc, List.drop_left' hlen]
  have hgot : hashAt (buildTestProof sha256 p blob ++ rest) (headerSize + blob.length) =
      sha256 (testPayload p blob) := by
    apply Vector.toList_inj.mp
    rw [hashAt, hdrop, List.take_left' Vector.length_toList]
    exact toList_fill _ _ Vector.length_toList
  have hlong : ¬ (buildTestProof sha256 p blob ++ rest).length <
      headerSize + blob.length + integritySize := by
    rw [List.length_append, length_buildTestProof]
    omega
  rw [verifyProof_eq hfields.1 (by rw [LengthFits, hfields.2.2]; exact hfits), hfields.2.1,
    hfields.2.2, if_neg hlong, hpayload, hgot]

end

theorem accepts_buildTestProof (sha256 : List UInt8 → Bytes32) (overflowChecks : Bool)
    (p : PublicInputs) {blob : List UInt8} (hblob : blob.length < 2 ^ 32) (rest : List UInt8) :
    verifyProof .host64 overflowChecks (buildTestProof sha256 p blob ++ rest) sha256 p
      p.policyHash = .ok (accepted p) := by
  have hfits : headerSize + blob.length + integritySize < Target.host64.usizeRange := by
    change 201 + blob.length + 32 < 2 ^ 64
    omega
  rw [verifyProof_buildTestProof p hblob hfits rest]
  exact Outcome.ofExcept_eq_ok.mpr (verdict_eq_ok.mpr ⟨rfl, rfl, rfl, rfl⟩)

/-! Bundles that go on behind the integrity field. -/

section

variable {sha256 : List UInt8 → Bytes32} {publicInputs : PublicInputs}
  {expectedPolicyHash : Bytes32} {target : Target} {overflowChecks : Bool} {proof : List UInt8}
  {result : VerificationResult}

theorem declaredLen_append (hlong : headerSize ≤ proof.length) (rest : List UInt8) :
    declaredLen (proof ++ rest) = declaredLen proof := by
  unfold headerSize at hlong
  have hwindow : 4 ≤ (proof.drop 197).length := by
    rw [List.length_drop]
    omega
  rw [declaredLen, List.drop_append_of_le_length (by omega), List.take_append_of_le_length hwindow,
    declaredLen]

theorem blobOf_append (hlong : headerSize + declaredLen proof ≤ proof.length)
    (rest : List UInt8) : blobOf (proof ++ rest) = blobOf proof := by
  have hheader : headerSize ≤ proof.length := (Nat.le_add_right _ _).trans hlong
  have hwindow : declaredLen proof ≤ (proof.drop headerSize).length := by
    rw [List.length_drop]
    omega
  rw [blobOf, declaredLen_append hheader, List.drop_append_of_le_length hheader,
    List.take_append_of_le_length hwindow, blobOf]

theorem length_blobOf_lt (proof : List UInt8) : (blobOf proof).length < 2 ^ 32 :=
  (List.length_take_le _ _).trans_lt (declaredLen_lt proof)

theorem EndsAtIntegrity.lengthFits (h : EndsAtIntegrity proof)
    (hsize : proof.length < target.usizeRange) : LengthFits target proof := by
  rw [EndsAtIntegrity] at h
  rwa [LengthFits, ← h]

theorem endsAtIntegrity_buildTestProof (p : PublicInputs) {blob : List UInt8}
    (hblob : blob.length < 2 ^ 32) :
    declaredLen (buildTestProof sha256 p blob) = blob.length ∧
      EndsAtIntegrity (buildTestProof sha256 p blob) := by
  have hproof : buildTestProof sha256 p blob =
      headerBytes p blob.length ++ (blob ++ (sha256 (testPayload p blob)).toList) := by
    simp [buildTestProof, testPayload_eq]
  have hfields := fields_of_headerBytes hblob (by
    rw [List.length_append, Vector.length_toList, integritySize]
    omega) hproof
  exact ⟨hfields.2.2, by rw [EndsAtIntegrity, length_buildTestProof, hfields.2.2]⟩

theorem eq_buildTestProof_iff (hsize : proof.length < target.usizeRange)
    (hok : verifyProof target overflowChecks proof sha256 publicInputs expectedPolicyHash =
      .ok result) :
    proof = buildTestProof sha256 publicInputs (blobOf proof) ↔ EndsAtIntegrity proof := by
  constructor
  · intro h
    rw [h]
    exact (endsAtIntegrity_buildTestProof publicInputs (length_blobOf_lt proof)).2
  · intro h
    have htake := (take_of_accepted (h.lengthFits hsize) hok).2
    rwa [← h, List.take_length] at htake

theorem eq_of_isPrefix {other : List UInt8} {p : PublicInputs} {h : Bytes32}
    {r : VerificationResult} (hsize : proof.length < target.usizeRange)
    (hok : verifyProof target overflowChecks proof sha256 publicInputs expectedPolicyHash =
      .ok result)
    (hend : EndsAtIntegrity proof) (hstart : other <+: proof)
    (hokOther : verifyProof target overflowChecks other sha256 p h = .ok r) : other = proof := by
  have hlong : minProofLen ≤ other.length := (of_accepted hokOther).1.long
  have hheader : headerSize ≤ other.length := (Nat.le_add_right _ _).trans hlong
  have hsplit : other ++ proof.drop other.length = proof := List.prefix_iff_eq_append.mp hstart
  have hlen : declaredLen other = declaredLen proof := by
    rw [← hsplit, declaredLen_append hheader]
  have hfits : LengthFits target other := by
    rw [LengthFits, hlen]
    exact hend.lengthFits hsize
  have hencoded := (take_of_accepted hfits hokOther).2
  have hbytes : (bundleFormat sha256).encode (p, blobOf other) ++
      (other.drop (headerSize + declaredLen other + integritySize) ++ proof.drop other.length) =
      (bundleFormat sha256).encode (publicInputs, blobOf proof) ++ [] := by
    change buildTestProof sha256 p (blobOf other) ++ _ = buildTestProof sha256 _ _ ++ []
    rw [← hencoded, ← List.append_assoc, List.take_append_drop, hsplit, List.append_nil,
      ← (eq_buildTestProof_iff hsize hok).mpr hend]
  have hvalid : ∀ q bytes, (bundleFormat sha256).Valid (q, blobOf bytes) :=
    fun _ bytes => length_blobOf_lt bytes
  have hrest := ((bundleFormat sha256).delimited (hvalid p other) (hvalid _ proof) hbytes).2
  rw [← hsplit, (List.append_eq_nil_iff.mp hrest).2, List.append_nil]

theorem exists_accepted_start (hfits : LengthFits target proof) (hend : ¬ EndsAtIntegrity proof)
    (hok : verifyProof target overflowChecks proof sha256 publicInputs expectedPolicyHash =
      .ok result) :
    ∃ other, other <+: proof ∧ other ≠ proof ∧ EndsAtIntegrity other ∧
      blobOf other = blobOf proof ∧
      verifyProof target overflowChecks other sha256 publicInputs expectedPolicyHash =
        .ok result := by
  have htake := take_of_accepted hfits hok
  have hblob := length_blobOf ((Nat.le_add_right _ _).trans htake.1)
  have hsmall := length_blobOf_lt proof
  have hbuilt : declaredLen (buildTestProof sha256 publicInputs (blobOf proof)) = _ ∧ _ :=
    endsAtIntegrity_buildTestProof publicInputs hsmall
  have hproof : buildTestProof sha256 publicInputs (blobOf proof) ++
      proof.drop (headerSize + declaredLen proof + integritySize) = proof := by
    rw [← htake.2, List.take_append_drop]
  have hcover : headerSize + declaredLen (buildTestProof sha256 publicInputs (blobOf proof)) ≤
      (buildTestProof sha256 publicInputs (blobOf proof)).length := by
    rw [hbuilt.2]
    exact Nat.le_add_right _ _
  have hsame := blobOf_append hcover (proof.drop (headerSize + declaredLen proof + integritySize))
  rw [hproof] at hsame
  have hroom : headerSize + (blobOf proof).length + integritySize < target.usizeRange := by
    rw [hblob]
    exact hfits
  have hstart : verifyProof target overflowChecks
      (buildTestProof sha256 publicInputs (blobOf proof)) sha256 publicInputs expectedPolicyHash =
      verifyProof target overflowChecks (buildTestProof sha256 publicInputs (blobOf proof) ++
        proof.drop (headerSize + declaredLen proof + integritySize)) sha256 publicInputs
        expectedPolicyHash := by
    rw [verifyProof_buildTestProof publicInputs hsmall hroom (proof.drop _),
      ← verifyProof_buildTestProof publicInputs hsmall hroom [], List.append_nil]
  rw [hproof, hok] at hstart
  refine ⟨_, ⟨_, hproof⟩, ?_, hbuilt.2, hsame.symm, hstart⟩
  intro heq
  rw [heq] at hbuilt
  exact hend hbuilt.2

end

/-- A bundle built for `p` is verified with `p`, refused with a policy hash that is not
the one of `p`, and invalid for any other public inputs. -/
theorem verify_build_roundtrip (sha256 : List UInt8 → Bytes32) (overflowChecks : Bool)
    (p q : PublicInputs) (blob : List UInt8) (h : Bytes32) (hblob : blob.length < 2 ^ 32) :
    (q = p → h = p.policyHash →
      verifyProof .host64 overflowChecks (buildTestProof sha256 p blob) sha256 q h =
        .ok { verified := true, publicInputs := p, outputBytes := [] }) ∧
    (q = p → h ≠ p.policyHash →
      verifyProof .host64 overflowChecks (buildTestProof sha256 p blob) sha256 q h =
        .error (.failed (.policyHashMismatch p.policyHash h))) ∧
    (q ≠ p →
      verifyProof .host64 overflowChecks (buildTestProof sha256 p blob) sha256 q h =
        .error (.failed .proofInvalid)) ∧
    ∀ message, verifyProof .host64 overflowChecks (buildTestProof sha256 p blob) sha256 q h ≠
      .error (.failed (.malformedInput message)) := by
  have hfits : headerSize + blob.length + integritySize < Target.host64.usizeRange := by
    change 201 + blob.length + 32 < 2 ^ 64
    omega
  have hbuilt : verifyProof .host64 overflowChecks (buildTestProof sha256 p blob) sha256 q h =
      Outcome.ofExcept (verdict sha256 q h p (testPayload p blob)
        (sha256 (testPayload p blob))) := by
    rw [← verifyProof_buildTestProof p hblob hfits [], List.append_nil]
  rw [hbuilt, verdict, if_neg (not_not.mpr rfl)]
  refine ⟨?_, ?_, ?_, ?_⟩
  · intro hq hh
    rw [if_neg (not_not.mpr hq.symm), if_neg (not_not.mpr hh.symm)]
    rfl
  · intro hq hh
    rw [if_neg (not_not.mpr hq.symm), if_pos hh.symm]
    rfl
  · intro hq
    rw [if_pos (Ne.symm hq)]
    rfl
  · intro message
    split_ifs
    · exact fun h => nomatch h
    · exact fun h => nomatch h
    · exact fun h => nomatch h

def tailHash (message : List UInt8) : Bytes32 := fill 32 0 message.reverse

theorem verify_build_roundtrip_blob :
    verifyProof .host64 true (buildTestProof tailHash zeroInputs (utf8 "blob")) tailHash zeroInputs
        zeroHash =
      .ok { verified := true, publicInputs := zeroInputs, outputBytes := [] } :=
  (verify_build_roundtrip tailHash true zeroInputs zeroInputs (utf8 "blob") zeroHash
    (by decide)).1 rfl rfl

/-- An accepted bundle commits the expected policy hash and the caller's public inputs.
It is the encoding of them and its blob exactly when it ends at the integrity field; then
no other such bundle is accepted for them, and no proper start of it for anything. The
verifier does not ask for the end: every longer accepted bundle has an accepted start
that carries the same. -/
theorem accepted_wellFormed_iff (sha256 : List UInt8 → Bytes32) {target : Target}
    {overflowChecks : Bool} {proof : List UInt8} {publicInputs : PublicInputs}
    {expectedPolicyHash : Bytes32} {result : VerificationResult}
    (hsize : proof.length < target.usizeRange)
    (hok : verifyProof target overflowChecks proof sha256 publicInputs expectedPolicyHash =
      .ok result) :
    publicInputs.policyHash = expectedPolicyHash ∧ result.publicInputs = publicInputs ∧
    (proof = buildTestProof sha256 publicInputs (blobOf proof) ↔ EndsAtIntegrity proof) ∧
    (EndsAtIntegrity proof → ∀ other p h r, other.length < target.usizeRange →
      verifyProof target overflowChecks other sha256 p h = .ok r →
      (EndsAtIntegrity other → p = publicInputs → blobOf other = blobOf proof → other = proof) ∧
      (other <+: proof → other = proof)) ∧
    (LengthFits target proof → ¬ EndsAtIntegrity proof → ∃ other, other <+: proof ∧
      other ≠ proof ∧ EndsAtIntegrity other ∧ blobOf other = blobOf proof ∧
      verifyProof target overflowChecks other sha256 publicInputs expectedPolicyHash =
        .ok result) := by
  have hfields := of_accepted hok
  refine ⟨hfields.2.2.1, ?_, eq_buildTestProof_iff hsize hok, ?_, ?_⟩
  · rw [hfields.2.2.2]
    rfl
  · intro hend other p h r hother hokOther
    constructor
    · intro hendOther hp hblob
      rw [(eq_buildTestProof_iff hother hokOther).mpr hendOther, hp, hblob,
        ← (eq_buildTestProof_iff hsize hok).mpr hend]
    · intro hstart
      exact eq_of_isPrefix hsize hok hend hstart hokOther
  · intro hfits hend
    exact exists_accepted_start hfits hend hok

theorem accepted_wellFormed_blob :
    buildTestProof tailHash zeroInputs (utf8 "blob") =
      buildTestProof tailHash zeroInputs
        (blobOf (buildTestProof tailHash zeroInputs (utf8 "blob"))) :=
  have hok : verifyProof .host64 true (buildTestProof tailHash zeroInputs (utf8 "blob"))
      tailHash zeroInputs zeroHash = .ok (accepted zeroInputs) := by
    rw [← List.append_nil (buildTestProof _ _ _)]
    exact accepts_buildTestProof tailHash true zeroInputs (by decide) []
  (accepted_wellFormed_iff tailHash (by rw [length_buildTestProof]; decide) hok).2.2.1.mpr
    (endsAtIntegrity_buildTestProof zeroInputs (by decide)).2

/-- Whatever the hash function is, a bundle with one more byte at its end is accepted. -/
theorem not_accepted_wellFormed :
    ¬ ∃ sha256 : List UInt8 → Bytes32, ∀ proof publicInputs expectedPolicyHash result,
      verifyProof .host64 true proof sha256 publicInputs expectedPolicyHash = .ok result →
      publicInputs.policyHash = expectedPolicyHash ∧
        proof = buildTestProof sha256 publicInputs (blobOf proof) := by
  intro hall
  cases hall with
  | intro sha256 hall =>
    have hok : verifyProof .host64 true (buildTestProof sha256 zeroInputs [] ++ [0])
        sha256 zeroInputs zeroHash = .ok (accepted zeroInputs) :=
      accepts_buildTestProof sha256 true zeroInputs (by decide) [0]
    have hlength : (buildTestProof sha256 zeroInputs [] ++ [0]).length = 234 := by
      rw [List.length_append, length_buildTestProof]
      rfl
    have hbuilt : declaredLen (buildTestProof sha256 zeroInputs []) = 0 ∧ _ :=
      endsAtIntegrity_buildTestProof zeroInputs (by decide)
    have hlen : declaredLen (buildTestProof sha256 zeroInputs [] ++ [0]) = 0 := by
      rw [declaredLen_append _ [0], hbuilt.1]
      rw [length_buildTestProof]
      decide
    have hend := (eq_buildTestProof_iff (by rw [hlength]; decide) hok).mp (hall _ _ _ _ hok).2
    rw [EndsAtIntegrity, hlength, hlen] at hend
    exact absurd hend (by decide)

end ProvenoZk.Verifier
