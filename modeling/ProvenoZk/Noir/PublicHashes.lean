import ProvenoZk.Noir.Committed

/-! How far the public hash bytes are determined. The circuit compares digests in
the field, so each hash may be any 32 bytes that name the digest: its canonical
encoding, or another one at or above the modulus. -/
namespace ProvenoZk.Noir
open Foundation

namespace NoirWitness

/-- The same private inputs, `num_steps` and `return_value`: only public hashes differ. -/
def SameExecution (v w : NoirWitness) : Prop :=
  w = { v with
    programHash := w.programHash
    toolResponsesHash := w.toolResponsesHash
    inputHash := w.inputHash
    outputHash := w.outputHash
    attestationHash := w.attestationHash
    policyHash := w.policyHash }

structure SameHashes (v w : NoirWitness) : Prop where
  program : v.programHash = w.programHash
  toolResponses : v.toolResponsesHash = w.toolResponsesHash
  attestation : v.attestationHash = w.attestationHash

variable (H : Hashes) (w : NoirWitness)

structure EncodesDigests : Prop where
  program : w.programHash = fieldToBeBytes32 (H.digest w.programMessage)
  toolResponses : w.toolResponsesHash = fieldToBeBytes32 (H.hash (w.leaves H).toList w.numToolCalls)
  attestation : w.attestationHash =
    fieldToBeBytes32 (H.hash (w.boundLeaves H (w.leaves H)).toList w.numToolCalls)

structure HashesReduced : Prop where
  program : bigEndian w.programHash < modulus
  toolResponses : bigEndian w.toolResponsesHash < modulus
  attestation : bigEndian w.attestationHash < modulus

def withHashes (programHash toolResponsesHash attestationHash : Bytes32) : NoirWitness :=
  { w with programHash, toolResponsesHash, attestationHash }

variable {H w}

theorem Satisfies.encodesDigests_iff (h : w.Satisfies H) : w.EncodesDigests H ↔ w.HashesReduced := by
  have hprogram := h.digest
  obtain ⟨-, hresp, hatt⟩ := (w.assertTape_eq_some H).mp h.tape
  constructor
  · rintro ⟨hp, hr, ha⟩
    rw [hprogram] at hp
    rw [hresp] at hr
    rw [hatt] at ha
    exact ⟨(eq_fieldToBeBytes32_iff _).mp hp, (eq_fieldToBeBytes32_iff _).mp hr,
      (eq_fieldToBeBytes32_iff _).mp ha⟩
  · rintro ⟨hp, hr, ha⟩
    refine ⟨?_, ?_, ?_⟩
    · rw [hprogram]
      exact (eq_fieldToBeBytes32_iff _).mpr hp
    · rw [hresp]
      exact (eq_fieldToBeBytes32_iff _).mpr hr
    · rw [hatt]
      exact (eq_fieldToBeBytes32_iff _).mpr ha

theorem SameExecution.sameHashes {v : NoirWitness} (h : SameExecution v w)
    (hv : v.EncodesDigests H) (hw : w.EncodesDigests H) : SameHashes v w := by
  rw [SameExecution] at h
  refine ⟨?_, ?_, ?_⟩
  · rw [hv.program, hw.program, h]
    rfl
  · rw [hv.toolResponses, hw.toolResponses, h]
    rfl
  · rw [hv.attestation, hw.attestation, h]
    rfl

/-- Bytes that name the same field elements satisfy the same constraints. -/
theorem Satisfies.withHashes (h : w.Satisfies H) {programHash toolResponsesHash attestationHash : Bytes32}
    (hprogram : beBytes32ToField programHash = beBytes32ToField w.programHash)
    (hresp : beBytes32ToField toolResponsesHash = beBytes32ToField w.toolResponsesHash)
    (hatt : beBytes32ToField attestationHash = beBytes32ToField w.attestationHash) :
    (w.withHashes programHash toolResponsesHash attestationHash).Satisfies H where
  bytecode := by
    have hbytecode := (w.assertBytecode_eq_some H).mp h.bytecode
    rw [assertBytecode_eq_some]
    refine ⟨hbytecode.1, hbytecode.2.trans ?_⟩
    exact hprogram.symm
  trace := ⟨h.trace.start, h.trace.step, h.trace.continuity⟩
  returned := h.returned
  toolCalls := h.toolCalls
  tape := by
    obtain ⟨hlengths, hresponses, hattestations⟩ := (w.assertTape_eq_some H).mp h.tape
    rw [assertTape_eq_some]
    refine ⟨hlengths, hresponses.trans ?_, hattestations.trans ?_⟩
    · exact hresp.symm
    · exact hatt.symm
  output := h.output

end NoirWitness

open NoirWitness

/-- Two satisfying assignments of one execution have the same hash bytes, each the
canonical encoding of its digest, exactly when all their hashes are below the modulus.
The circuit asks for no such thing: whatever bytes name the same field elements are
accepted too, and there always are others. -/
theorem public_hashes_unique_iff (H : Hashes) :
    (∀ v w, main H v = some () → main H w = some () → SameExecution v w →
      (SameHashes v w ∧ v.EncodesDigests H ∧ w.EncodesDigests H ↔
        v.HashesReduced ∧ w.HashesReduced)) ∧
    (∀ w, main H w = some () → ∀ programHash toolResponsesHash attestationHash,
      beBytes32ToField programHash = beBytes32ToField w.programHash →
      beBytes32ToField toolResponsesHash = beBytes32ToField w.toolResponsesHash →
      beBytes32ToField attestationHash = beBytes32ToField w.attestationHash →
      main H (w.withHashes programHash toolResponsesHash attestationHash) = some ()) ∧
    ∀ w, main H w = some () → ∃ v, main H v = some () ∧ SameExecution v w ∧
      v.programHash ≠ w.programHash ∧ v.toolResponsesHash ≠ w.toolResponsesHash ∧
      v.attestationHash ≠ w.attestationHash := by
  refine ⟨?_, ?_, ?_⟩
  · intro v w hv hw hsame
    have hsatV := (v.main_eq_some_iff H).mp hv
    have hsatW := (w.main_eq_some_iff H).mp hw
    rw [← hsatV.encodesDigests_iff, ← hsatW.encodesDigests_iff]
    constructor
    · exact And.right
    · rintro ⟨hdigestsV, hdigestsW⟩
      exact ⟨hsame.sameHashes hdigestsV hdigestsW, hdigestsV, hdigestsW⟩
  · intro w hw _ _ _ hprogram hresp hatt
    have hsat := (w.main_eq_some_iff H).mp hw
    exact (main_eq_some_iff _ H).mpr (hsat.withHashes hprogram hresp hatt)
  · intro w hw
    have hsat := (w.main_eq_some_iff H).mp hw
    obtain ⟨p, hp, hprogram⟩ := exists_other_encoding w.programHash
    obtain ⟨r, hr, hresp⟩ := exists_other_encoding w.toolResponsesHash
    obtain ⟨a, ha, hatt⟩ := exists_other_encoding w.attestationHash
    exact ⟨w.withHashes p r a, (main_eq_some_iff _ H).mpr (hsat.withHashes hprogram hresp hatt),
      rfl, hp, hr, ha⟩

/-- The empty run, with the modulus added to its program hash. -/
theorem public_hashes_not_unique :
    ¬ ∃ H : Hashes, ∀ v w, main H v = some () → main H w = some () → SameExecution v w →
      SameHashes v w := by
  rintro ⟨H, hall⟩
  let w := runWitness H ⟨fill _ 0 [], fill _ 0 []⟩ 0 [] 0
  have hmain : main H w = some () :=
    main_runWitness H _ 0 (by decide) [] (by decide) ⟨0, .done 0⟩ (by decide) 0 (by decide)
  have hsat := (w.main_eq_some_iff H).mp hmain
  obtain ⟨p, hp, hprogram⟩ := exists_other_encoding w.programHash
  have hother := (main_eq_some_iff _ H).mpr (hsat.withHashes hprogram rfl rfl)
  exact hp (hall _ _ hother hmain rfl).program

end ProvenoZk.Noir
