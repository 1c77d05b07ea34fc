import ProvenoZk.Noir.Control

/-! Which paths through a table satisfying assignments take. Each live step is
reached from the entry. Conversely the digests among the public inputs restrict
nothing: every run of at most `MAX_STEPS` rows is the trace of an assignment, and
what it returns is fixed only if it ends in a Ret. -/
namespace ProvenoZk.Noir
open Foundation Proveno

namespace NoirWitness

@[simp] theorem pc_rows (w : NoirWitness) {i : Nat} (hi : i < maxSteps) :
    w.rows[i].pc = w.tracePcs[i] := by
  simp [rows]

theorem TraceConstraints.pc_zero {w : NoirWitness} (h : w.TraceConstraints) :
    w.tracePcs[0] = 0 :=
  w.start_iff.mp h.start

/-- As long as the steps before it stay in `within`, a live step lies on a path
through `within`. -/
theorem TraceConstraints.reaches {w : NoirWitness} (h : w.TraceConstraints)
    {within : UInt32 → Prop} {i : Nat} (hi : i < maxSteps) (hlive : i < w.numSteps.toNat)
    (hbefore : ∀ j (_ : j < maxSteps), j < i → within w.tracePcs[j]) :
    w.code.Reaches within i w.tracePcs[i] := by
  induction i with
  | zero =>
    rw [h.pc_zero]
    exact .entry
  | succ i ih =>
    have hreach := ih (by omega) (by omega) fun j hj hji => hbefore j hj (by omega)
    have hwithin := hbefore i (by omega) (Nat.lt_succ_self i)
    obtain ⟨hadmits, hfits⟩ := h.row (i := i) (by omega) (by omega)
    rw [← w.pc_rows hi, h.link hi hlive]
    rw [← w.pc_rows] at hreach hwithin
    exact .step hreach hwithin hadmits hfits

theorem TraceConstraints.executable {w : NoirWitness} (h : w.TraceConstraints) {i : Nat}
    (hi : i < maxSteps) (hlive : i < w.numSteps.toNat) : w.code.Executable w.tracePcs[i] := by
  obtain ⟨hadmits, hfits⟩ := h.row hi hlive
  rw [← w.pc_rows hi]
  exact hadmits.executable hfits

/-- The assignment with every digest, and the count of tool calls, as the circuit
computes them. -/
def sealed (H : Hashes) (w : NoirWitness) : NoirWitness :=
  let numToolCalls : UInt32 := .ofNat (toolCalls w.liveRows)
  { w with
    programHash := fieldToBeBytes32 (H.digest w.programMessage)
    numToolCalls := numToolCalls
    toolResponsesHash := fieldToBeBytes32 (H.hash (w.leaves H).toList numToolCalls)
    attestationHash :=
      fieldToBeBytes32 (H.hash (w.boundLeaves H (w.leaves H)).toList numToolCalls)
    outputHash := outputPayloadKeccak H w.returnValue }

@[simp] theorem liveRows_sealed (H : Hashes) (w : NoirWitness) :
    (w.sealed H).liveRows = w.liveRows := rfl

theorem satisfies_sealed (H : Hashes) {w : NoirWitness} (hinstr : w.instrCount.toNat * 2 < 2 ^ 32)
    (htrace : w.TraceConstraints)
    (hreturned : ∀ row ∈ w.liveRows.getLast?, row.opcode = 37 → row.stackTop = w.returnValue)
    (hlengths : w.LengthsFit) : (w.sealed H).Satisfies H where
  bytecode := by
    rw [assertBytecode_eq_some]
    exact ⟨hinstr, (beBytes32ToField_fieldToBeBytes32 _).symm⟩
  trace := ⟨htrace.start, htrace.step, htrace.continuity⟩
  returned := hreturned
  toolCalls := rfl
  tape := by
    rw [assertTape_eq_some]
    exact ⟨hlengths, (beBytes32ToField_fieldToBeBytes32 _).symm,
      (beBytes32ToField_fieldToBeBytes32 _).symm⟩
  output := rfl

end NoirWitness

def runWitness (H : Hashes) (code : Code) (instrCount : UInt32) (steps : List TraceStep)
    (returnValue : Int64) : NoirWitness :=
  ({ NoirWitness.zeroed with
      bytecodeOpcodes := code.opcodes
      bytecodeOperands := code.operands
      instrCount := instrCount
      returnValue := returnValue }.writeTrace steps).sealed H

theorem main_runWitness (H : Hashes) (code : Code) (instrCount : UInt32)
    (hinstr : instrCount.toNat * 2 < 2 ^ 32) (steps : List TraceStep)
    (hlen : steps.length ≤ maxSteps) (hrun : ∃ pc, Run code.Step 0 steps pc)
    (hfits : ∀ row ∈ steps, TargetFits row) (returnValue : Int64)
    (hreturned : ∀ row ∈ steps.getLast?, row.opcode = 37 → row.stackTop = returnValue) :
    main H (runWitness H code instrCount steps returnValue) = some () := by
  rw [NoirWitness.main_eq_some_iff]
  apply NoirWitness.satisfies_sealed
  · exact hinstr
  · exact NoirWitness.traceConstraints_writeTrace _ hlen hrun hfits
  · rwa [NoirWitness.liveRows_writeTrace _ hlen]
  · intro i hi
    simp [NoirWitness.writeTrace, NoirWitness.zeroed]

/-- Every path from the entry to an executable slot is the trace of an assignment
that stops there. -/
theorem exists_assignment (H : Hashes) (code : Code) (instrCount : UInt32)
    (hinstr : instrCount.toNat * 2 < 2 ^ 32) {within : UInt32 → Prop} {n : Nat} {pc : UInt32}
    (hn : n < maxSteps) (hreach : code.Reaches within n pc) (hexec : code.Executable pc) :
    ∃ w, main H w = some () ∧ w.code = code ∧ w.instrCount = instrCount ∧
      w.numSteps.toNat = n + 1 ∧ w.tracePcs[n] = pc := by
  obtain ⟨steps, hlen, hrun, hfits⟩ := hreach.exists_run
  obtain ⟨row, hadmits, hfit, rfl⟩ := hexec.exists_row
  have hsteps : (steps ++ [row]).length = n + 1 := by simp [hlen]
  have hmax : (steps ++ [row]).length ≤ maxSteps := by omega
  refine ⟨runWitness H code instrCount (steps ++ [row]) row.stackTop, ?_, rfl, rfl, ?_, ?_⟩
  · apply main_runWitness H code _ hinstr _ hmax ⟨_, hrun.snoc ⟨hadmits, rfl, rfl⟩⟩
    · intro other hother
      obtain hother | hother := List.mem_append.mp hother
      · exact hfits other hother
      · rwa [List.mem_singleton.mp hother]
    · intro last hlast _
      rw [List.getLast?_concat, Option.mem_some_iff] at hlast
      rw [hlast]
  · change (UInt32.ofNat (steps ++ [row]).length).toNat = _
    have : maxSteps = 2048 := rfl
    rw [UInt32.toNat_ofNat', hsteps]
    omega
  · change (fill _ 0 ((steps ++ [row]).map (·.pc)) : Vector UInt32 maxSteps)[n] = _
    rw [getElem_fill]
    simp [hlen]

end ProvenoZk.Noir
