import ProvenoZk.Verifier.Bundle

/-! The wire format of a bundle as a self-delimiting format whose encoder is
`buildTestProof`, and what the verifier reads from bytes that start with an encoding. -/
namespace ProvenoZk.Verifier
open Foundation Zkvm

abbrev hashFormat : Format UInt8 Bytes32 :=
  (Format.fixed 32).via Vector.toList fun _ _ => Vector.toList_inj.mp

def publicInputsFormat : Format UInt8 PublicInputs :=
  (hashFormat.pair <| hashFormat.pair <| hashFormat.pair <| hashFormat.pair <|
    hashFormat.pair hashFormat).via
    (fun p => (p.programHash, p.inputHash, p.toolResponsesHash, p.outputHash, p.attestationHash,
      p.policyHash)) (by
      intro p q h
      cases p
      cases q
      simpa using h)

def headerFormat : Format UInt8 (PublicInputs × Nat) := publicInputsFormat.pair (.natLE 4)

theorem headerFormat_valid (p : PublicInputs) {len : Nat} (hlen : len < 2 ^ 32) :
    headerFormat.Valid (p, len) :=
  ⟨⟨p.programHash.length_toList, p.inputHash.length_toList, p.toolResponsesHash.length_toList,
    p.outputHash.length_toList, p.attestationHash.length_toList, p.policyHash.length_toList⟩, hlen⟩

theorem headerFormat_encode (p : PublicInputs) (len : Nat) :
    headerFormat.encode (p, len) = p.programHash.toList ++ (p.inputHash.toList ++
      (p.toolResponsesHash.toList ++ (p.outputHash.toList ++ (p.attestationHash.toList ++
        p.policyHash.toList)))) ++ leBytes 4 len := rfl

def headerBytes (p : PublicInputs) (len : Nat) : List UInt8 :=
  magic ++ version :: headerFormat.encode (p, len)

theorem length_magic : magic.length = 4 := by
  decide

theorem length_headerBytes (p : PublicInputs) (len : Nat) :
    (headerBytes p len).length = headerSize := by
  simp [headerBytes, headerFormat_encode, length_magic, headerSize]

theorem headerBytes_delimited {p q : PublicInputs} {m n : Nat} {r s : List UInt8}
    (hm : m < 2 ^ 32) (hn : n < 2 ^ 32) (h : headerBytes p m ++ r = headerBytes q n ++ s) :
    p = q ∧ m = n ∧ r = s := by
  simp only [headerBytes, List.append_assoc, List.append_cancel_left_eq, List.cons_append,
    List.cons.injEq, true_and] at h
  have hpair := headerFormat.delimited (headerFormat_valid p hm) (headerFormat_valid q hn) h
  exact ⟨congrArg Prod.fst hpair.1, congrArg Prod.snd hpair.1, hpair.2⟩

theorem testPayload_eq (p : PublicInputs) (blob : List UInt8) :
    testPayload p blob = headerBytes p blob.length ++ blob := by
  simp [testPayload, headerBytes, headerFormat_encode]

theorem length_testPayload (p : PublicInputs) (blob : List UInt8) :
    (testPayload p blob).length = headerSize + blob.length := by
  rw [testPayload_eq, List.length_append, length_headerBytes]

theorem length_buildTestProof (sha256 : List UInt8 → Bytes32) (p : PublicInputs)
    (blob : List UInt8) :
    (buildTestProof sha256 p blob).length = headerSize + blob.length + integritySize := by
  rw [buildTestProof, List.length_append, length_testPayload, Vector.length_toList]
  rfl

/-- The wire format of a bundle: its public inputs and its blob. -/
def bundleFormat (sha256 : List UInt8 → Bytes32) : Format UInt8 (PublicInputs × List UInt8) where
  Valid := fun bundle => bundle.2.length < 2 ^ 32
  encode := fun bundle => buildTestProof sha256 bundle.1 bundle.2
  delimited := by
    intro a b r s ha hb h
    simp only [buildTestProof, testPayload_eq, List.append_assoc] at h
    have hheader := headerBytes_delimited ha hb h
    have hblob := List.append_inj hheader.2.2 hheader.2.1
    have hab : a = b := Prod.ext hheader.1 hblob.1
    have htail := hblob.2
    rw [hab] at htail
    exact ⟨hab, List.append_cancel_left htail⟩

/-! Reading a bundle that starts with an encoding. -/

section

variable {proof : List UInt8}

theorem toList_hashAt {off : Nat} (h : off + 32 ≤ proof.length) :
    (hashAt proof off).toList = (proof.drop off).take 32 := by
  apply toList_fill
  exact length_window h

theorem take_headerSize (h : HasHeader proof) :
    proof.take headerSize = headerBytes (embedded proof) (declaredLen proof) := by
  have hlong : 233 ≤ proof.length := h.long
  have hlen : ((proof.drop 197).take 4).length = 4 := length_window (by omega)
  have hbytes := leBytes_leNat ((proof.drop 197).take 4)
  have hbyte : (proof.drop 4).take 1 = [version] := by
    rw [List.take_one, List.head?_drop, h.version]
    rfl
  have hsplit : proof.take headerSize = proof.take 4 ++ (proof.drop 4).take 1 ++
      (proof.drop 5).take 32 ++ (proof.drop 37).take 32 ++ (proof.drop 69).take 32 ++
      (proof.drop 101).take 32 ++ (proof.drop 133).take 32 ++ (proof.drop 165).take 32 ++
      (proof.drop 197).take 4 := by
    simp only [← List.take_add]
    rfl
  rw [hlen] at hbytes
  rw [hsplit, h.magic, hbyte, headerBytes, headerFormat_encode, embedded, declaredLen, hbytes,
    toList_hashAt (by omega), toList_hashAt (by omega), toList_hashAt (by omega),
    toList_hashAt (by omega), toList_hashAt (by omega), toList_hashAt (by omega)]
  simp only [List.append_assoc, List.cons_append, List.nil_append]

theorem fields_of_headerBytes {p : PublicInputs} {len : Nat} {rest : List UInt8}
    (hlen : len < 2 ^ 32) (hrest : integritySize ≤ rest.length)
    (hproof : proof = headerBytes p len ++ rest) :
    HasHeader proof ∧ embedded proof = p ∧ declaredLen proof = len := by
  have hheader : HasHeader proof := by
    refine ⟨?_, ?_, ?_⟩
    · rw [hproof, List.length_append, length_headerBytes, minProofLen]
      omega
    · rw [hproof, headerBytes, List.append_assoc, List.take_left' length_magic]
    · rw [hproof, headerBytes, List.append_assoc,
        List.getElem?_append_right (Nat.le_of_eq length_magic), length_magic]
      rfl
  have htake := take_headerSize hheader
  rw [hproof, List.take_left' (length_headerBytes p len), ← hproof] at htake
  have hsame := headerBytes_delimited (r := []) (s := []) hlen (declaredLen_lt proof) (by rw [htake])
  exact ⟨hheader, hsame.1.symm, hsame.2.1.symm⟩

def blobOf (proof : List UInt8) : List UInt8 := (proof.drop headerSize).take (declaredLen proof)

theorem length_blobOf (h : headerSize + declaredLen proof ≤ proof.length) :
    (blobOf proof).length = declaredLen proof :=
  length_window h

theorem take_payload (h : HasHeader proof) :
    proof.take (headerSize + declaredLen proof) =
      headerBytes (embedded proof) (declaredLen proof) ++ blobOf proof := by
  rw [List.take_add, take_headerSize h, blobOf]

variable {sha256 : List UInt8 → Bytes32}

theorem take_bundle (h : HasHeader proof)
    (hend : headerSize + declaredLen proof + integritySize ≤ proof.length)
    (hdigest : sha256 (proof.take (headerSize + declaredLen proof)) =
      hashAt proof (headerSize + declaredLen proof)) :
    proof.take (headerSize + declaredLen proof + integritySize) =
      buildTestProof sha256 (embedded proof) (blobOf proof) := by
  have hblob := length_blobOf ((Nat.le_add_right _ _).trans hend)
  have hpayload : testPayload (embedded proof) (blobOf proof) =
      proof.take (headerSize + declaredLen proof) := by
    rw [testPayload_eq, hblob, take_payload h]
  rw [List.take_add, integritySize, ← toList_hashAt hend, ← hdigest, buildTestProof, hpayload]

end

/-! A bundle for examples. -/

def zeroHash : Bytes32 := .replicate 32 0

def zeroInputs : PublicInputs where
  programHash := zeroHash
  inputHash := zeroHash
  toolResponsesHash := zeroHash
  outputHash := zeroHash
  attestationHash := zeroHash
  policyHash := zeroHash

end ProvenoZk.Verifier
