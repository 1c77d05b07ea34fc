import ProvenoZk.Noir.Control

/-! The two implementations of the tape commitments. The builder commits the tape
as it is and hands the circuit as much of it as the arrays hold, so they agree
exactly on the tapes the arrays hold whole. -/
namespace ProvenoZk.Noir
open Foundation Proveno

variable {I : Type}

structure FitsCircuit (tape : OracleTape) : Prop where
  calls : tape.entries.length ≤ maxToolCalls
  payloads : ∀ entry ∈ tape.entries, entry.payload.length ≤ maxTapeEntryBytes

/-- What the circuit hashes for an entry: its payload cut off behind the last byte
of the slot. -/
def slotMessage (entry : TapeEntry) : List Fr :=
  ((entryTag entry).toNat : Fr) :: ((min entry.payload.length maxTapeEntryBytes : Nat) : Fr) ::
    (entry.payload.take maxTapeEntryBytes).map fun byte => (byte.toNat : Fr)

theorem length_slotMessage (entry : TapeEntry) :
    (slotMessage entry).length = min entry.payload.length maxTapeEntryBytes + 2 := by
  simp [slotMessage, Nat.min_comm]

theorem slotMessage_eq {entry : TapeEntry} (h : entry.payload.length ≤ maxTapeEntryBytes) :
    slotMessage entry = entryMessage entry := by
  unfold slotMessage entryMessage
  rw [List.take_of_length_le h, Nat.min_eq_left h]

def cutLeaves (H : Hashes) (tape : OracleTape) : List Fr :=
  (tape.entries.take maxToolCalls).map fun entry => H.poseidon2 (slotMessage entry)

/-- Two messages collide that the builder and the circuit hash for one tape: what is left of
the tape, or of an entry, with all of it. -/
def CutCollides (H : Hashes) (tape : OracleTape) : Prop :=
  H.Collides ((cutLeaves H tape).length, cutLeaves H tape)
      ((entryLeaves H tape).length, entryLeaves H tape) ∨
    ∃ entry ∈ tape.entries, H.Collides ((slotMessage entry).length, slotMessage entry)
      ((entryMessage entry).length, entryMessage entry)

section

variable (H : Hashes) (attestationLeaf : List UInt8 → Fr) (w : NoirWitness) (tape : OracleTape)

theorem toNat_slotLength (n : Nat) :
    (UInt32.ofNat (min n maxTapeEntryBytes)).toNat = min n maxTapeEntryBytes := by
  have hmax : maxTapeEntryBytes = 1024 := rfl
  rw [UInt32.toNat_ofNat']
  omega

theorem hash_entryFields (entry : TapeEntry) :
    H.hash (entryFields (entryTag entry) (.ofNat (min entry.payload.length maxTapeEntryBytes))
        (fill _ 0 (entry.payload.take maxTapeEntryBytes)))
      (.ofNat (min entry.payload.length maxTapeEntryBytes) + 2) =
      H.poseidon2 (slotMessage entry) := by
  have htwo : (2 : UInt32).toNat = 2 := rfl
  have hmax : maxTapeEntryBytes = 1024 := rfl
  have hsize : (UInt32.ofNat (min entry.payload.length maxTapeEntryBytes) + 2).toNat =
      min entry.payload.length maxTapeEntryBytes + 2 := by
    rw [UInt32.toNat_add, toNat_slotLength, htwo]
    omega
  have hdata := take_fill (n := maxTapeEntryBytes) (0 : UInt8)
    (entry.payload.take maxTapeEntryBytes) (by simp)
  rw [List.length_take, Nat.min_comm] at hdata
  unfold Hashes.hash
  rw [hsize, entryFields, toNat_slotLength, List.take_succ_cons, List.take_succ_cons,
    ← List.map_take, hdata, ← length_slotMessage]
  exact H.digest_length (slotMessage entry)

theorem numToolCalls_writeTape :
    (w.writeTape H attestationLeaf tape).numToolCalls.toNat =
      min tape.entries.length maxToolCalls := by
  have hmax : maxToolCalls = 16 := rfl
  change (UInt32.ofNat _).toNat = _
  rw [UInt32.toNat_ofNat']
  omega

theorem leafAt_writeTape {i : Nat} (hi : i < maxToolCalls) (hlive : i < tape.entries.length) :
    (w.writeTape H attestationLeaf tape).leafAt H i hi =
      H.poseidon2 (slotMessage tape.entries[i]) := by
  rw [← hash_entryFields]
  unfold NoirWitness.leafAt NoirWitness.writeTape
  simp [hi, hlive]

theorem lengthsFit_writeTape : (w.writeTape H attestationLeaf tape).LengthsFit := by
  intro i hi
  have hmax : maxTapeEntryBytes = 1024 := rfl
  by_cases hlive : i < tape.entries.length
  · have hslot := toNat_slotLength tape.entries[i].payload.length
    simp [NoirWitness.writeTape, hi, hlive]
    omega
  · simp [NoirWitness.writeTape, hlive]

theorem take_leaves_writeTape :
    ((w.writeTape H attestationLeaf tape).leaves H).toList.take
        (min tape.entries.length maxToolCalls) =
      (tape.entries.take maxToolCalls).map fun entry => H.poseidon2 (slotMessage entry) := by
  apply List.ext_getElem
  · simp [Nat.min_comm]
  · intro i hi hi'
    simp only [List.length_map, List.length_take, lt_min_iff] at hi'
    rw [List.getElem_take, Vector.getElem_toList, NoirWitness.getElem_leaves _ _ hi'.1,
      leafAt_writeTape H attestationLeaf w tape hi'.1 hi'.2, List.getElem_map, List.getElem_take]

theorem attestationLeaf_writeTape {i : Nat} (hi : i < maxToolCalls)
    (hlive : i < (attestationLeaves attestationLeaf tape).length) :
    beBytes32ToField (w.writeTape H attestationLeaf tape).tapeAttestationLeaves[i] =
      (attestationLeaves attestationLeaf tape)[i] := by
  rw [← beBytes32ToField_fieldToBeBytes32 (attestationLeaves attestationLeaf tape)[i]]
  unfold NoirWitness.writeTape
  simp [attestationLeavesBe, hi, hlive]

theorem take_boundLeaves_writeTape :
    ((w.writeTape H attestationLeaf tape).boundLeaves H
        ((w.writeTape H attestationLeaf tape).leaves H)).toList.take
          (min tape.entries.length maxToolCalls) =
      List.zipWith (fun resp att => H.poseidon2 [resp, att])
        ((tape.entries.take maxToolCalls).map fun entry => H.poseidon2 (slotMessage entry))
        (attestationLeaves attestationLeaf tape) := by
  have hatt : (attestationLeaves attestationLeaf tape).length = tape.entries.length := by
    simp [attestationLeaves]
  apply List.ext_getElem
  · simp [hatt, Nat.min_comm]
  · intro i hi hi'
    simp only [List.length_zipWith, List.length_map, List.length_take, lt_min_iff] at hi'
    obtain ⟨⟨hmax, hlive⟩, hleaf⟩ := hi'
    rw [List.getElem_take, Vector.getElem_toList, NoirWitness.getElem_boundLeaves _ _ _ hmax,
      NoirWitness.getElem_leaves _ _ hmax, leafAt_writeTape H attestationLeaf w tape hmax hlive,
      attestationLeaf_writeTape H attestationLeaf w tape hmax hleaf, List.getElem_zipWith,
      List.getElem_map, List.getElem_take]
    rfl

end

/-- What the circuit checks holds of a witness built, and a tape that does not fit
is refused. -/
structure TapeAgrees (H : Hashes) (tape : OracleTape) (built : Except WitnessError NoirWitness) :
    Prop where
  accepted : ∀ w, built = .ok w → w.assertTape H = some ()
  refused : ¬ FitsCircuit tape → ∃ e, built = .error e

section

variable (H : Hashes) (attestationLeaf : List UInt8 → Fr) (w : NoirWitness) {tape : OracleTape}

theorem FitsCircuit.leaves_eq (hfits : FitsCircuit tape) :
    (tape.entries.take maxToolCalls).map (fun entry => H.poseidon2 (slotMessage entry)) =
      entryLeaves H tape := by
  rw [List.take_of_length_le hfits.calls, entryLeaves]
  apply List.map_congr_left
  intro entry hentry
  rw [slotMessage_eq (hfits.payloads entry hentry), entryLeaf]

theorem FitsCircuit.assertTape (hfits : FitsCircuit tape) :
    (w.writeTape H attestationLeaf tape).assertTape H = some () := by
  have hcalls := numToolCalls_writeTape H attestationLeaf w tape
  have hmin : min tape.entries.length maxToolCalls = tape.entries.length :=
    Nat.min_eq_left hfits.calls
  have hresp := take_leaves_writeTape H attestationLeaf w tape
  have hbound := take_boundLeaves_writeTape H attestationLeaf w tape
  rw [hfits.leaves_eq H, hmin] at hresp hbound
  rw [NoirWitness.assertTape_eq_some]
  refine ⟨lengthsFit_writeTape H attestationLeaf w tape, ?_, ?_⟩
  · rw [Hashes.hash, hcalls, hmin, hresp]
    change _ = beBytes32ToField (commitmentHash H tape)
    rw [commitmentHash, beBytes32ToField_fieldToBeBytes32, ← H.digest_length]
    simp [entryLeaves]
  · rw [Hashes.hash, hcalls, hmin, hbound]
    change _ = beBytes32ToField (attestationCommitment H attestationLeaf tape)
    rw [attestationCommitment, beBytes32ToField_fieldToBeBytes32, ← H.digest_length]
    simp [entryLeaves, attestationLeaves]

theorem cutCollides_of_assertTape (hfits : ¬ FitsCircuit tape)
    (hassert : (w.writeTape H attestationLeaf tape).assertTape H = some ()) :
    CutCollides H tape := by
  have hresp := ((NoirWitness.assertTape_eq_some _ H).mp hassert).2.1
  change _ = beBytes32ToField (commitmentHash H tape) at hresp
  rw [Hashes.hash, numToolCalls_writeTape, take_leaves_writeTape, commitmentHash,
    beBytes32ToField_fieldToBeBytes32, ← H.digest_length] at hresp
  have hcount : (cutLeaves H tape).length = min tape.entries.length maxToolCalls := by
    simp [cutLeaves, Nat.min_comm]
  rw [← hcount] at hresp
  by_cases hsame : ((cutLeaves H tape).length, cutLeaves H tape) =
      ((entryLeaves H tape).length, entryLeaves H tape)
  · have hlen := (Prod.mk.inj hsame).1
    have hleaves := (Prod.mk.inj hsame).2
    have hcalls : tape.entries.length ≤ maxToolCalls := by
      simpa [hcount, entryLeaves] using hlen
    rw [cutLeaves, List.take_of_length_le hcalls, entryLeaves, List.map_inj_left] at hleaves
    -- every entry was counted, so one of them was cut off
    have hcut : ∃ entry ∈ tape.entries, maxTapeEntryBytes < entry.payload.length := by
      by_contra hshort
      push Not at hshort
      exact hfits ⟨hcalls, hshort⟩
    obtain ⟨entry, hentry, hlong⟩ := hcut
    refine Or.inr ⟨entry, hentry, ?_, ?_⟩
    case refine_2 =>
      rw [H.digest_length, H.digest_length]
      exact hleaves entry hentry
    intro h
    have hshorter := (Prod.mk.inj h).1
    rw [length_slotMessage, Nat.min_eq_right (Nat.le_of_lt hlong)] at hshorter
    simp [entryMessage] at hshorter
    omega
  · exact Or.inl ⟨hsame, hresp⟩

end

/-- The builder and the circuit agree on a tape exactly if the circuit's arrays
hold it. Any other tape is accepted, and its witness passes the circuit's checks
only where Poseidon2 collides on what was cut off. -/
theorem buildWitness_agrees_on_tape (core : Core I) (H : Hashes) (attestationLeaf : List UInt8 → Fr)
    (bytecode : NoirBytecode) (steps : List TraceStep) (hsteps : steps.length ≤ maxSteps)
    (returnValue : Int64) (tape : OracleTape) (inputValue : LuaValue) (output : VmOutput)
    (policyHash : Bytes32) :
    (TapeAgrees H tape (buildWitness core H attestationLeaf bytecode steps returnValue tape
        inputValue output policyHash) ↔ FitsCircuit tape) ∧
    (¬ FitsCircuit tape → ∃ w, buildWitness core H attestationLeaf bytecode steps returnValue tape
        inputValue output policyHash = .ok w ∧
      (w.assertTape H = some () → CutCollides H tape)) := by
  rw [buildWitness, if_neg (Nat.not_lt.mpr hsteps)]
  let blank := (NoirWitness.zeroed.writeBytecode bytecode).writeTrace steps
  refine ⟨⟨?_, ?_⟩, ?_⟩
  · intro h
    by_contra hfits
    obtain ⟨e, he⟩ := h.refused hfits
    cases he
  · intro hfits
    refine ⟨?_, fun hrefuse => absurd hfits hrefuse⟩
    intro w hw
    cases hw
    exact hfits.assertTape H attestationLeaf blank
  · intro hfits
    exact ⟨_, rfl, cutCollides_of_assertTape H attestationLeaf blank hfits⟩

def shortTape : OracleTape := ⟨[.ok [1, 2, 3], .err "timeout"], [[7]]⟩

theorem buildWitness_agrees_on_shortTape :
    TapeAgrees rollingHashes shortTape (buildWitness plainCore rollingHashes (fun _ => 0) spin []
      0 shortTape .nil ⟨.nil, [], 0, 0, []⟩ (.replicate _ 0)) :=
  (buildWitness_agrees_on_tape plainCore rollingHashes (fun _ => 0) spin [] (by decide) 0
    shortTape .nil ⟨.nil, [], 0, 0, []⟩ (.replicate _ 0)).1.mpr ⟨by decide, by decide⟩

/-- A response of 1025 bytes is cut off, not refused. -/
theorem buildWitness_accepts_longTape :
    ¬ ∃ H : Hashes, ∀ tape, TapeAgrees H tape (buildWitness plainCore H (fun _ => 0) spin []
      0 tape .nil ⟨.nil, [], 0, 0, []⟩ (.replicate _ 0)) := by
  rintro ⟨H, hall⟩
  let tape : OracleTape := ⟨[.ok (List.replicate 1025 0)], []⟩
  have hlong : ¬ FitsCircuit tape := by
    intro hfits
    have hpayload := hfits.payloads _ (List.mem_singleton.mpr rfl)
    rw [TapeEntry.payload, List.length_replicate] at hpayload
    exact absurd hpayload (by decide)
  obtain ⟨e, he⟩ := (hall tape).refused hlong
  rw [buildWitness, if_neg (by decide)] at he
  cases he

end ProvenoZk.Noir
