import ProvenoZk.Noir.Binding
import ProvenoZk.Noir.Paths

/-! What the response hash opens to. The circuit bounds neither the tags, nor the
lengths, nor the number of tool calls, so an assignment may commit slots that are
no tape; it opens to a tape exactly when its slots hold one. -/
namespace ProvenoZk.Noir
open Foundation Proveno

/-- A tag and a payload that some tape entry has. An error is text. -/
def IsEntry (tag : UInt8) (payload : List UInt8) : Prop :=
  tag = 0 ∨ tag = 1 ∧ (fromUtf8 payload).isSome

def slotEntry (tag : UInt8) (payload : List UInt8) : TapeEntry :=
  if tag = 0 then .ok payload else .err ((fromUtf8 payload).getD "")

theorem isEntry_of_entry (entry : TapeEntry) : IsEntry (entryTag entry) entry.payload := by
  cases entry with
  | ok bytes => exact .inl rfl
  | err message => exact .inr ⟨rfl, by simp [TapeEntry.payload]⟩

theorem IsEntry.slotEntry {tag : UInt8} {payload : List UInt8} (h : IsEntry tag payload) :
    entryTag (slotEntry tag payload) = tag ∧ (slotEntry tag payload).payload = payload := by
  unfold Noir.slotEntry
  obtain rfl | ⟨rfl, htext⟩ := h
  · exact ⟨rfl, rfl⟩
  · obtain ⟨message, hmessage⟩ := Option.isSome_iff_exists.mp htext
    rw [if_neg (by decide), hmessage, Option.getD_some]
    exact ⟨rfl, fromUtf8_eq_some.mp hmessage⟩

namespace NoirWitness

section

variable (H : Hashes) (w : NoirWitness) (tape : OracleTape)

/-- The public response hash is the commitment to a tape with one entry for each
ToolCall step, whose payloads have the lengths the slots give. -/
structure OpensTo : Prop where
  calls : tape.entries.length = toolCalls w.liveRows
  fits : FitsCircuit tape
  lengths : ∀ i (_ : i < maxToolCalls) (_ : i < tape.entries.length),
    tape.entries[i].payload.length = w.tapeEntryLengths[i].toNat
  commitment : H.poseidon2 (entryLeaves H tape) = beBytes32ToField w.toolResponsesHash

/-- A message the circuit hashed collides with one of the tape. -/
def OpeningCollides : Prop :=
  H.Collides (w.responseMessage H) (sized (entryLeaves H tape)) ∨
    ∃ i, ∃ hi : i < maxToolCalls, ∃ _ : i < tape.entries.length,
      H.Collides (w.leafMessage i hi) (sized (entryMessage tape.entries[i]))

/-- The slots hold a tape: no more calls than slots, and in each live slot an entry
that is not longer than the slot. -/
structure HoldsTape : Prop where
  fits : w.LiveTapeFits
  entries : ∀ i (hi : i < maxToolCalls), i < w.numToolCalls.toNat →
    IsEntry w.tapeEntryTags[i] (w.slotPayload i hi)

def liveTape (hcalls : w.numToolCalls.toNat ≤ maxToolCalls) : OracleTape where
  entries := List.ofFn fun i : Fin w.numToolCalls.toNat =>
    slotEntry w.tapeEntryTags[i.val] (w.slotPayload i (i.isLt.trans_le hcalls))
  attestations := []

variable {H w tape}

theorem Satisfies.numToolCalls_eq (h : w.Satisfies H) :
    w.numToolCalls.toNat = NoirWitness.toolCalls w.liveRows := by
  have hmax : maxSteps = 2048 := rfl
  have hcalls := (toolCalls_le w.liveRows).trans w.length_liveRows_le
  rw [h.toolCalls, UInt32.toNat_ofNat']
  omega

theorem Satisfies.responses (h : w.Satisfies H) :
    H.digest (w.responseMessage H) = beBytes32ToField w.toolResponsesHash :=
  ((w.assertTape_eq_some H).mp h.tape).2.1

theorem HoldsTape.leafMessage (h : w.HoldsTape) {i : Nat} (hi : i < maxToolCalls)
    (hlive : i < (w.liveTape h.fits.calls).entries.length) :
    w.leafMessage i hi = sized (entryMessage (w.liveTape h.fits.calls).entries[i]) := by
  have hcount : i < w.numToolCalls.toNat := by simpa [liveTape] using hlive
  obtain ⟨htag, hpayload⟩ := (h.entries i hi hcount).slotEntry
  have hentry : (w.liveTape h.fits.calls).entries[i] =
      slotEntry w.tapeEntryTags[i] (w.slotPayload i hi) := by
    simp [liveTape]
  rw [leafMessage_eq (h.fits.lengths i hi hcount), hentry, entryMessage_eq, htag, hpayload]

theorem HoldsTape.responseMessage (h : w.HoldsTape) :
    w.responseMessage H = sized (entryLeaves H (w.liveTape h.fits.calls)) := by
  have hcount : (w.liveTape h.fits.calls).entries.length = w.numToolCalls.toNat := by
    simp [liveTape]
  unfold NoirWitness.responseMessage sized entryLeaves
  rw [List.length_map, hcount, Prod.mk.injEq]
  refine ⟨rfl, ?_⟩
  apply List.ext_getElem
  · simpa [hcount] using h.fits.calls
  · intro i hi hi'
    simp only [List.length_take, Vector.length_toList, lt_min_iff] at hi
    have hlive : i < (w.liveTape h.fits.calls).entries.length := by rw [hcount]; exact hi.1
    have hmessage := h.leafMessage hi.2 hlive
    rw [List.getElem_take, Vector.getElem_toList, getElem_leaves _ _ hi.2, List.getElem_map,
      entryLeaf]
    change H.digest (w.leafMessage i hi.2) = _
    rw [hmessage, H.digest_sized]

theorem HoldsTape.opensTo (h : w.HoldsTape) (hsat : w.Satisfies H) :
    w.OpensTo H (w.liveTape h.fits.calls) := by
  have hcount : (w.liveTape h.fits.calls).entries.length = w.numToolCalls.toNat := by
    simp [liveTape]
  have hlengths : ∀ i (hi : i < maxToolCalls)
      (_ : i < (w.liveTape h.fits.calls).entries.length),
      (w.liveTape h.fits.calls).entries[i].payload.length = w.tapeEntryLengths[i].toNat := by
    intro i hi hlive
    rw [hcount] at hlive
    have hentry : (w.liveTape h.fits.calls).entries[i] =
        slotEntry w.tapeEntryTags[i] (w.slotPayload i hi) := by
      simp [liveTape]
    rw [hentry, (h.entries i hi hlive).slotEntry.2, length_slotPayload (h.fits.lengths i hi hlive)]
  refine ⟨hcount.trans hsat.numToolCalls_eq, ⟨?_, ?_⟩, hlengths, ?_⟩
  · rw [hcount]
    exact h.fits.calls
  · intro entry hentry
    obtain ⟨i, hlive, rfl⟩ := List.getElem_of_mem hentry
    have hi : i < maxToolCalls := (hcount ▸ hlive).trans_le h.fits.calls
    rw [hlengths i hi hlive]
    exact h.fits.lengths i hi (hcount ▸ hlive)
  · have hmessage : w.responseMessage H = _ := h.responseMessage
    rw [← hsat.responses, hmessage, H.digest_sized]

theorem HoldsTape.not_openingCollides (h : w.HoldsTape) :
    ¬ w.OpeningCollides H (w.liveTape h.fits.calls) := by
  rintro (⟨hne, -⟩ | ⟨i, hi, hlive, hne, -⟩)
  · exact hne h.responseMessage
  · exact hne (h.leafMessage hi hlive)

theorem OpensTo.holdsTape (h : w.OpensTo H tape) (hsat : w.Satisfies H)
    (hfree : ¬ w.OpeningCollides H tape) : w.HoldsTape := by
  have hcount : tape.entries.length = w.numToolCalls.toNat :=
    h.calls.trans hsat.numToolCalls_eq.symm
  have hlengths : ∀ i (hi : i < maxToolCalls), i < w.numToolCalls.toNat →
      w.tapeEntryLengths[i].toNat ≤ maxTapeEntryBytes := by
    intro i hi hlive
    rw [← hcount] at hlive
    rw [← h.lengths i hi hlive]
    exact h.fits.payloads _ (List.getElem_mem hlive)
  refine ⟨⟨?_, hlengths⟩, ?_⟩
  · rw [← hcount]
    exact h.fits.calls
  · intro i hi hlive
    have hentry : i < tape.entries.length := by rwa [hcount]
    unfold OpeningCollides at hfree
    push Not at hfree
    have hcommitment := h.commitment
    rw [← H.digest_sized] at hcommitment
    have houter := Hashes.eq_of_not_collides hfree.1 (hsat.responses.trans hcommitment.symm)
    have hleaves : (w.leaves H).toList.take w.numToolCalls.toNat = entryLeaves H tape :=
      (Prod.mk.inj houter).2
    have hleaf : w.leafAt H i hi = entryLeaf H tape.entries[i] := by
      have hget := congrArg (·[i]?) hleaves
      simpa [List.getElem?_take_of_lt hlive, hi, hentry, getElem_leaves, entryLeaves] using hget
    rw [entryLeaf, ← H.digest_sized] at hleaf
    have hmessage := Hashes.eq_of_not_collides (hfree.2 i hi hentry) hleaf
    rw [leafMessage_eq (hlengths i hi hlive), sized_inj, entryMessage_eq, payloadMessage_inj]
      at hmessage
    rw [hmessage.1, hmessage.2]
    exact isEntry_of_entry _

end

/-- The response hash of a satisfying assignment opens to a tape exactly when there
are at most 16 calls and each live slot holds an entry of at most 1024 bytes. -/
theorem toolResponsesHash_opens_iff (H : Hashes) (w : NoirWitness) (hmain : main H w = some ()) :
    (∃ tape, w.OpensTo H tape ∧ ¬ w.OpeningCollides H tape) ↔ w.HoldsTape := by
  have hsat := (w.main_eq_some_iff H).mp hmain
  constructor
  · rintro ⟨tape, hopens, hfree⟩
    exact hopens.holdsTape hsat hfree
  · intro h
    exact ⟨_, h.opensTo hsat, h.not_openingCollides⟩

end NoirWitness

def toolCallCode : Code := ⟨fill _ 0 [39], fill _ 0 []⟩

def toolCallRow : TraceStep := { pc := 0, opcode := 39, operand := 0, stackTop := 0, nextPc := 1 }

theorem toolCallRow_step : toolCallCode.Step 0 toolCallRow 1 := by
  refine ⟨⟨?_, ?_, by decide, by decide⟩, rfl, rfl⟩
  · simp [toolCallCode, toolCallRow]
  · simp [toolCallCode, toolCallRow]

def calledOnce (H : Hashes) (slots : NoirWitness) : NoirWitness :=
  ({ slots with
      bytecodeOpcodes := toolCallCode.opcodes
      bytecodeOperands := toolCallCode.operands
      instrCount := 1 }.writeTrace [toolCallRow]).sealed H

theorem liveRows_calledOnce (H : Hashes) (slots : NoirWitness) :
    (calledOnce H slots).liveRows = [toolCallRow] := by
  unfold calledOnce
  rw [NoirWitness.liveRows_sealed, NoirWitness.liveRows_writeTrace _ (by decide)]

theorem main_calledOnce (H : Hashes) {slots : NoirWitness} (hlengths : slots.LengthsFit) :
    main H (calledOnce H slots) = some () := by
  rw [NoirWitness.main_eq_some_iff]
  apply NoirWitness.satisfies_sealed
  · change (1 : UInt32).toNat * 2 < 2 ^ 32
    decide
  · exact NoirWitness.traceConstraints_writeTrace _ (by decide)
      ⟨1, .next toolCallRow_step (.done 1)⟩ (by decide)
  · rw [NoirWitness.liveRows_writeTrace _ (by decide)]
    intro row hrow hret
    obtain rfl : toolCallRow = row := Option.some.inj hrow
    exact absurd hret (by decide)
  · exact hlengths

theorem numToolCalls_calledOnce (H : Hashes) (slots : NoirWitness) :
    (calledOnce H slots).numToolCalls.toNat = 1 := by
  change (UInt32.ofNat (NoirWitness.toolCalls (calledOnce H slots).liveRows)).toNat = 1
  rw [liveRows_calledOnce]
  rfl

theorem toolResponsesHash_opens_answeredCall :
    ∃ tape, (calledOnce rollingHashes cleanTape).OpensTo rollingHashes tape ∧
      ¬ (calledOnce rollingHashes cleanTape).OpeningCollides rollingHashes tape := by
  have hcalls := numToolCalls_calledOnce rollingHashes cleanTape
  apply (NoirWitness.toolResponsesHash_opens_iff rollingHashes _
    (main_calledOnce rollingHashes dustyTape_lengthsFit.2)).mpr
  refine ⟨⟨?_, ?_⟩, ?_⟩
  · rw [hcalls]
    decide
  · intro i hi hlive
    exact cleanTape_fits.lengths i hi (by rwa [hcalls] at hlive)
  · intro i hi hlive
    obtain rfl : i = 0 := by omega
    left
    simp [calledOnce, NoirWitness.sealed, NoirWitness.writeTrace, cleanTape, NoirWitness.zeroed]

/-- Slots without a byte and with a tag no entry has. -/
def taggedFive : NoirWitness := { NoirWitness.zeroed with tapeEntryTags := .replicate _ 5 }

/-- One ToolCall answered from such a slot satisfies the circuit. -/
theorem toolResponsesHash_opens_to_nothing :
    ¬ ∃ H : Hashes, ∀ w, main H w = some () →
      ∃ tape, w.OpensTo H tape ∧ ¬ w.OpeningCollides H tape := by
  rintro ⟨H, hall⟩
  have hmain : main H (calledOnce H taggedFive) = some () := by
    apply main_calledOnce
    intro i hi
    simp [taggedFive, NoirWitness.zeroed]
  obtain ⟨tape, hopens, hfree⟩ := hall _ hmain
  have hholds := hopens.holdsTape ((NoirWitness.main_eq_some_iff _ H).mp hmain) hfree
  have hentry := hholds.entries 0 (by decide) (by rw [numToolCalls_calledOnce]; decide)
  have htag : (calledOnce H taggedFive).tapeEntryTags[0] = 5 := by
    simp [calledOnce, NoirWitness.sealed, NoirWitness.writeTrace, taggedFive]
  rw [htag] at hentry
  obtain hok | ⟨herr, -⟩ := hentry
  · exact absurd hok (by decide)
  · exact absurd herr (by decide)

end ProvenoZk.Noir
