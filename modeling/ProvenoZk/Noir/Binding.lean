import ProvenoZk.Noir.Tape

/-! What the two tape commitments bind. A leaf reads the tag, the length and that
many bytes of its slot, and the outer digests read the leaves of the live slots,
so equal commitments mean equal live tapes wherever Poseidon2 has no collision. -/
namespace ProvenoZk.Noir
open Foundation Proveno

def payloadMessage (tag : UInt8) (payload : List UInt8) : List Fr :=
  (tag.toNat : Fr) :: (payload.length : Fr) :: payload.map fun byte => (byte.toNat : Fr)

theorem entryMessage_eq (entry : TapeEntry) :
    entryMessage entry = payloadMessage (entryTag entry) entry.payload := rfl

theorem natCast_byte_inj {a b : UInt8} : (a.toNat : Fr) = (b.toNat : Fr) ↔ a = b := by
  rw [natCast_inj (a.toNat_lt.trans (by decide)) (b.toNat_lt.trans (by decide)), UInt8.toNat_inj]

theorem payloadMessage_inj {a b : UInt8} {xs ys : List UInt8} :
    payloadMessage a xs = payloadMessage b ys ↔ a = b ∧ xs = ys := by
  have hbytes : Function.Injective fun byte : UInt8 => (byte.toNat : Fr) :=
    fun _ _ => natCast_byte_inj.mp
  unfold payloadMessage
  constructor
  · intro h
    simp only [List.cons.injEq] at h
    exact ⟨natCast_byte_inj.mp h.1, hbytes.list_map h.2.2⟩
  · rintro ⟨rfl, rfl⟩
    rfl

def sized (message : List Fr) : Nat × List Fr := (message.length, message)

theorem sized_inj {m n : List Fr} : sized m = sized n ↔ m = n :=
  ⟨fun h => (Prod.mk.inj h).2, fun h => by rw [h]⟩

theorem Hashes.digest_sized (H : Hashes) (message : List Fr) :
    H.digest (sized message) = H.poseidon2 message :=
  H.digest_length message

theorem Hashes.eq_of_not_collides {H : Hashes} {m n : Nat × List Fr} (hfree : ¬ H.Collides m n)
    (h : H.digest m = H.digest n) : m = n := by
  by_contra hne
  exact hfree ⟨hne, h⟩

theorem take_toList_eq_iff {α : Type} {k : Nat} {xs ys : Vector α k} {n : Nat} :
    xs.toList.take n = ys.toList.take n ↔ ∀ i (_ : i < k), i < n → xs[i] = ys[i] := by
  constructor
  · intro h i hi hin
    have hget := congrArg (·[i]?) h
    simpa [List.getElem?_take_of_lt hin, hi] using hget
  · intro h
    apply List.ext_getElem
    · simp
    · intro i hi hi'
      simp only [List.length_take, Vector.length_toList, lt_min_iff] at hi
      simpa using h i hi.2 hi.1

namespace NoirWitness

section

variable (H : Hashes) (w : NoirWitness) (i : Nat) (hi : i < maxToolCalls)

def leafMessage : Nat × List Fr :=
  ((w.tapeEntryLengths[i] + 2).toNat,
    (entryFields w.tapeEntryTags[i] w.tapeEntryLengths[i] w.tapeEntryData[i]).take
      (w.tapeEntryLengths[i] + 2).toNat)

def responseMessage : Nat × List Fr :=
  (w.numToolCalls.toNat, (w.leaves H).toList.take w.numToolCalls.toNat)

def boundMessage : Nat × List Fr :=
  (2, [w.leafAt H i hi, beBytes32ToField w.tapeAttestationLeaves[i]])

def attestationMessage : Nat × List Fr :=
  (w.numToolCalls.toNat, (w.boundLeaves H (w.leaves H)).toList.take w.numToolCalls.toNat)

def slotPayload : List UInt8 :=
  w.tapeEntryData[i].toList.take w.tapeEntryLengths[i].toNat

variable {i hi} {w}

theorem length_slotPayload (hlen : w.tapeEntryLengths[i].toNat ≤ maxTapeEntryBytes) :
    (w.slotPayload i hi).length = w.tapeEntryLengths[i].toNat := by
  simpa [slotPayload] using hlen

theorem leafMessage_eq (hlen : w.tapeEntryLengths[i].toNat ≤ maxTapeEntryBytes) :
    w.leafMessage i hi = sized (payloadMessage w.tapeEntryTags[i] (w.slotPayload i hi)) := by
  have htwo : (2 : UInt32).toNat = 2 := rfl
  have hmax : maxTapeEntryBytes = 1024 := rfl
  have hsize : (w.tapeEntryLengths[i] + 2).toNat = w.tapeEntryLengths[i].toNat + 2 := by
    rw [UInt32.toNat_add, htwo]
    omega
  have hpayload : (w.slotPayload i hi).length = _ := length_slotPayload hlen
  unfold leafMessage sized payloadMessage entryFields
  rw [hsize, List.length_cons, List.length_cons, List.length_map, hpayload, List.take_succ_cons,
    List.take_succ_cons, ← List.map_take]
  rfl

theorem leafMessage_inj {v : NoirWitness}
    (hv : v.tapeEntryLengths[i].toNat ≤ maxTapeEntryBytes)
    (hw : w.tapeEntryLengths[i].toNat ≤ maxTapeEntryBytes) :
    v.leafMessage i hi = w.leafMessage i hi ↔ v.tapeEntryTags[i] = w.tapeEntryTags[i] ∧
      v.tapeEntryLengths[i] = w.tapeEntryLengths[i] ∧ v.slotPayload i hi = w.slotPayload i hi := by
  rw [leafMessage_eq hv, leafMessage_eq hw, sized_inj, payloadMessage_inj]
  constructor
  · rintro ⟨htag, hpayload⟩
    have hlen := congrArg List.length hpayload
    rw [length_slotPayload hv, length_slotPayload hw, UInt32.toNat_inj] at hlen
    exact ⟨htag, hlen, hpayload⟩
  · rintro ⟨htag, -, hpayload⟩
    exact ⟨htag, hpayload⟩

end

section

variable (H : Hashes) (v w : NoirWitness)

/-- The two commitments as the circuit computes them from its tape inputs. -/
def tapeCommitments : Option (Fr × Fr) := do
  let respLeaves ← w.respLeaves H
  return (H.hash respLeaves.toList w.numToolCalls,
    H.hash (w.boundLeaves H respLeaves).toList w.numToolCalls)

structure LiveTapeFits : Prop where
  calls : w.numToolCalls.toNat ≤ maxToolCalls
  lengths : ∀ i (_ : i < maxToolCalls), i < w.numToolCalls.toNat →
    w.tapeEntryLengths[i].toNat ≤ maxTapeEntryBytes

/-- The live slots agree: what lies behind a payload, and slots that are not live,
may be anything. -/
structure SameLiveTape : Prop where
  calls : v.numToolCalls = w.numToolCalls
  slots : ∀ i (hi : i < maxToolCalls), i < w.numToolCalls.toNat →
    v.tapeEntryTags[i] = w.tapeEntryTags[i] ∧ v.tapeEntryLengths[i] = w.tapeEntryLengths[i] ∧
      v.slotPayload i hi = w.slotPayload i hi
  attestations : ∀ i (_ : i < maxToolCalls), i < w.numToolCalls.toNat →
    beBytes32ToField v.tapeAttestationLeaves[i] = beBytes32ToField w.tapeAttestationLeaves[i]

/-- Two messages that were hashed for the live slots collide. -/
def TapesCollide : Prop :=
  H.Collides (v.responseMessage H) (w.responseMessage H) ∨
    H.Collides (v.attestationMessage H) (w.attestationMessage H) ∨
    ∃ i, ∃ hi : i < maxToolCalls, i < w.numToolCalls.toNat ∧
      (H.Collides (v.leafMessage i hi) (w.leafMessage i hi) ∨
        H.Collides (v.boundMessage H i hi) (w.boundMessage H i hi))

variable {v w}

theorem tapeCommitments_eq_some {c : Fr × Fr} :
    w.tapeCommitments H = some c ↔ w.LengthsFit ∧
      c = (H.digest (w.responseMessage H),
        H.digest (w.attestationMessage H)) := by
  unfold tapeCommitments
  simp only [Option.bind_eq_bind, Option.bind_eq_some_iff, respLeaves_eq_some, Option.pure_def,
    Option.some_inj]
  constructor
  · rintro ⟨_, ⟨hlengths, rfl⟩, rfl⟩
    exact ⟨hlengths, rfl⟩
  · rintro ⟨hlengths, rfl⟩
    exact ⟨_, ⟨hlengths, rfl⟩, rfl⟩

theorem SameLiveTape.leafAt {H : Hashes} (h : SameLiveTape v w) (hv : v.LiveTapeFits)
    (hw : w.LiveTapeFits) {i : Nat} (hi : i < maxToolCalls) (hlive : i < w.numToolCalls.toNat) :
    v.leafAt H i hi = w.leafAt H i hi := by
  have hmessage := (leafMessage_inj (hv.lengths i hi (by rwa [h.calls])) (hw.lengths i hi hlive)).mpr
    (h.slots i hi hlive)
  change H.digest (v.leafMessage i hi) =
    H.digest (w.leafMessage i hi)
  rw [hmessage]

theorem SameLiveTape.messages {H : Hashes} (h : SameLiveTape v w) (hv : v.LiveTapeFits)
    (hw : w.LiveTapeFits) : v.responseMessage H = w.responseMessage H ∧
      v.attestationMessage H = w.attestationMessage H := by
  unfold responseMessage attestationMessage
  rw [h.calls, Prod.mk.injEq, Prod.mk.injEq, take_toList_eq_iff, take_toList_eq_iff]
  refine ⟨⟨rfl, ?_⟩, rfl, ?_⟩
  · intro i hi hlive
    rw [getElem_leaves, getElem_leaves, h.leafAt hv hw hi hlive]
  · intro i hi hlive
    rw [getElem_boundLeaves, getElem_boundLeaves, getElem_leaves, getElem_leaves,
      h.leafAt hv hw hi hlive, h.attestations i hi hlive]

theorem sameLiveTape_of_digests {H : Hashes} (hv : v.LiveTapeFits) (hw : w.LiveTapeFits)
    (hfree : ¬ TapesCollide H v w)
    (hresp : H.digest (v.responseMessage H) =
      H.digest (w.responseMessage H))
    (hatt : H.digest (v.attestationMessage H) =
      H.digest (w.attestationMessage H)) : SameLiveTape v w := by
  unfold TapesCollide at hfree
  push Not at hfree
  obtain ⟨hfreeResp, hfreeAtt, hfreeSlots⟩ := hfree
  obtain ⟨hcalls, hleaves⟩ := Prod.mk.inj (Hashes.eq_of_not_collides hfreeResp hresp)
  obtain ⟨-, hbound⟩ := Prod.mk.inj (Hashes.eq_of_not_collides hfreeAtt hatt)
  rw [hcalls, take_toList_eq_iff] at hleaves hbound
  refine ⟨UInt32.toNat_inj.mp hcalls, ?_, ?_⟩
  · intro i hi hlive
    have hleaf := hleaves i hi hlive
    rw [getElem_leaves, getElem_leaves] at hleaf
    have hmessage := Hashes.eq_of_not_collides (hfreeSlots i hi hlive).1 hleaf
    exact (leafMessage_inj (hv.lengths i hi (by rwa [hcalls])) (hw.lengths i hi hlive)).mp hmessage
  · intro i hi hlive
    have hleaf := hbound i hi hlive
    rw [getElem_boundLeaves, getElem_boundLeaves, getElem_leaves, getElem_leaves] at hleaf
    have hmessage := Hashes.eq_of_not_collides (hfreeSlots i hi hlive).2 hleaf
    simp only [boundMessage, Prod.mk.injEq, List.cons.injEq] at hmessage
    exact hmessage.2.2.1

end

/-- Two assignments whose live slots the arrays hold have equal commitments exactly if
their live tapes agree. -/
theorem tapeCommitments_bind_live_tape (H : Hashes) (v w : NoirWitness) (hv : v.LiveTapeFits)
    (hw : w.LiveTapeFits) (c d : Fr × Fr) (hc : v.tapeCommitments H = some c)
    (hd : w.tapeCommitments H = some d) (hfree : ¬ TapesCollide H v w) :
    c = d ↔ SameLiveTape v w := by
  obtain ⟨-, rfl⟩ := (tapeCommitments_eq_some H).mp hc
  obtain ⟨-, rfl⟩ := (tapeCommitments_eq_some H).mp hd
  constructor
  · intro h
    obtain ⟨hresp, hatt⟩ := Prod.mk.inj h
    exact sameLiveTape_of_digests hv hw hfree hresp hatt
  · intro h
    obtain ⟨hresp, hatt⟩ := h.messages (H := H) hv hw
    rw [hresp, hatt]

theorem SameLiveTape.not_tapesCollide {H : Hashes} {v w : NoirWitness} (h : SameLiveTape v w)
    (hv : v.LiveTapeFits) (hw : w.LiveTapeFits) : ¬ TapesCollide H v w := by
  obtain ⟨hresp, hatt⟩ := h.messages (H := H) hv hw
  rintro (⟨hne, -⟩ | ⟨hne, -⟩ | ⟨i, hi, hlive, ⟨hne, -⟩ | ⟨hne, -⟩⟩)
  · exact hne hresp
  · exact hne hatt
  · exact hne ((leafMessage_inj (hv.lengths i hi (by rwa [h.calls])) (hw.lengths i hi hlive)).mpr
      (h.slots i hi hlive))
  · apply hne
    unfold boundMessage
    rw [h.leafAt hv hw hi hlive, h.attestations i hi hlive]

end NoirWitness

def cleanTape : NoirWitness :=
  { NoirWitness.zeroed with
    numToolCalls := 1
    tapeEntryLengths := fill _ 0 [3]
    tapeEntryData := fill _ (fill _ 0 []) [fill _ 0 [1, 2, 3]] }

def dustyTape : NoirWitness :=
  { NoirWitness.zeroed with
    numToolCalls := 1
    tapeEntryTags := fill _ 9 [0]
    tapeEntryLengths := fill _ 700 [3]
    tapeEntryData := fill _ (fill _ 7 []) [fill _ 7 [1, 2, 3]] }

theorem dustyTape_same : NoirWitness.SameLiveTape dustyTape cleanTape := by
  have hone : cleanTape.numToolCalls.toNat = 1 := rfl
  refine ⟨rfl, ?_, ?_⟩
  · intro i hi hlive
    obtain rfl : i = 0 := by omega
    refine ⟨?_, ?_, ?_⟩ <;> simp [dustyTape, cleanTape, NoirWitness.zeroed, NoirWitness.slotPayload, fill]
  · intro i hi hlive
    rfl

theorem cleanTape_fits : cleanTape.LiveTapeFits := by
  have hone : cleanTape.numToolCalls.toNat = 1 := rfl
  refine ⟨by decide, ?_⟩
  intro i hi hlive
  obtain rfl : i = 0 := by omega
  have hlen : cleanTape.tapeEntryLengths[0] = 3 := by simp [cleanTape]
  rw [hlen]
  decide

theorem dustyTape_fits : dustyTape.LiveTapeFits := by
  have hsame := dustyTape_same
  refine ⟨by decide, ?_⟩
  intro i hi hlive
  rw [(hsame.slots i hi hlive).2.1]
  exact cleanTape_fits.lengths i hi hlive

theorem dustyTape_lengthsFit : dustyTape.LengthsFit ∧ cleanTape.LengthsFit := by
  constructor
  all_goals
    intro i hi
    cases i <;> simp [dustyTape, cleanTape]

theorem tapeCommitments_bind_dustyTape :
    ∃ c, dustyTape.tapeCommitments rollingHashes = some c ∧
      cleanTape.tapeCommitments rollingHashes = some c := by
  have hdusty := (NoirWitness.tapeCommitments_eq_some rollingHashes).mpr
    ⟨dustyTape_lengthsFit.1, rfl⟩
  have hclean := (NoirWitness.tapeCommitments_eq_some rollingHashes).mpr
    ⟨dustyTape_lengthsFit.2, rfl⟩
  have heq := (NoirWitness.tapeCommitments_bind_live_tape rollingHashes dustyTape cleanTape
    dustyTape_fits cleanTape_fits _ _ hdusty hclean
    (dustyTape_same.not_tapesCollide dustyTape_fits cleanTape_fits)).mpr dustyTape_same
  exact ⟨_, hdusty, by rw [hclean, heq]⟩

end ProvenoZk.Noir
