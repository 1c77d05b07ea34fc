import ProvenoZk.Noir.Encoder
import ProvenoZk.Noir.Payload

/-! Which runs the circuit proves. The witness that is built for an execution satisfies
`main` exactly when the recorded rows run through the encoded table, the final Ret returns
the program-level value, every call of the run has an entry and the arrays hold them all. -/
namespace ProvenoZk.Noir
open Foundation Proveno Zkvm

variable {I : Type} [InstructionSet I]

/-- What `main` asks of an execution. -/
structure Provable (H : Hashes) (program : CompiledProgram I) (trace : List TraceStep)
    (returnValue : Int64) (tape : OracleTape) : Prop where
  hash : (layout program).digest H = beBytes32ToField program.programHash
  runs : ∃ pc, Run (layout program).code.Step 0 trace pc
  targets : ∀ row ∈ trace, TargetFits row
  returned : ∀ row ∈ trace.getLast?, row.opcode = 37 → row.stackTop = returnValue
  calls : NoirWitness.toolCalls trace = tape.entries.length
  fits : FitsCircuit tape

theorem FitsCircuit.not_cutCollides {H : Hashes} {tape : OracleTape} (hfits : FitsCircuit tape) :
    ¬ CutCollides H tape := by
  intro h
  cases h with
  | inl hleaves =>
    apply hleaves.1
    rw [cutLeaves, hfits.leaves_eq H]
  | inr hentry =>
    obtain ⟨entry, hmem, hcollides⟩ := hentry
    apply hcollides.1
    rw [slotMessage_eq (hfits.payloads entry hmem)]

namespace NoirWitness

section

variable (H : Hashes) (attestationLeaf : List UInt8 → Fr) (w : NoirWitness)

theorem traceConstraints_writeTrace_iff {steps : List TraceStep} (hlen : steps.length ≤ maxSteps) :
    (w.writeTrace steps).TraceConstraints ↔
      (∃ pc, Run w.code.Step 0 steps pc) ∧ ∀ row ∈ steps, TargetFits row := by
  constructor
  · intro h
    rw [traceConstraints_iff, liveRows_writeTrace w hlen, code_writeTrace] at h
    exact h.2.2
  · intro h
    exact traceConstraints_writeTrace w hlen h.1 h.2

theorem assertTape_writeTape_iff {tape : OracleTape} (hfree : ¬ CutCollides H tape) :
    (w.writeTape H attestationLeaf tape).assertTape H = some () ↔ FitsCircuit tape := by
  constructor
  · intro hassert
    by_contra hfits
    exact hfree (cutCollides_of_assertTape H attestationLeaf w hfits hassert)
  · exact fun hfits => hfits.assertTape H attestationLeaf w

theorem numToolCalls_eq_iff {tape : OracleTape} {steps : List TraceStep}
    (hlen : steps.length ≤ maxSteps) (hfits : FitsCircuit tape) :
    (w.writeTape H attestationLeaf tape).numToolCalls = .ofNat (toolCalls steps) ↔
      toolCalls steps = tape.entries.length := by
  have hmax : maxSteps = 2048 := rfl
  have hcalls := toolCalls_le steps
  rw [← UInt32.toNat_inj, numToolCalls_writeTape, Nat.min_eq_left hfits.calls,
    UInt32.toNat_ofNat', Nat.mod_eq_of_lt (by omega), eq_comm]

end

theorem assertBytecode_layout (H : Hashes) {program : CompiledProgram I}
    (hcount : program.instructions.length ≤ maxBytecode) :
    assertBytecode H (layout program).opcodes (layout program).operands
        (.ofNat (layout program).instrCount) program.programHash = some () ↔
      (layout program).digest H = beBytes32ToField program.programHash := by
  have hsmall : (UInt32.ofNat (layout program).instrCount).toNat * 2 < 2 ^ 32 := by
    have hmax : maxBytecode = 512 := rfl
    have hlow : (layout program).instrCount = program.instructions.length := rfl
    rw [UInt32.toNat_ofNat']
    omega
  have hcheck := (zeroed.writeBytecode (layout program)).assertBytecode_eq_some H
  rw [NoirBytecode.digest_eq H (layout program) hcount]
  exact hcheck.trans (and_iff_right hsmall)

end NoirWitness

open NoirWitness

section

variable {core : Core I} {H : Hashes} {attestationLeaf : List UInt8 → Fr}
  {program : CompiledProgram I} {trace : List TraceStep} {tape : OracleTape} {inputValue : LuaValue}
  {output : VmOutput} {policyHash : Bytes32} {w : NoirWitness}

/-- The circuit accepts the witness of a provable execution and, collisions aside, of no
other. -/
theorem main_buildWitness_iff (hkeccak : H.keccak256 = core.keccak256)
    (hcount : program.instructions.length ≤ maxBytecode) (hfree : ¬ CutCollides H tape)
    (hbuild : buildWitness core H attestationLeaf (layout program) trace
      (returnValueI64 output.returnValue) tape inputValue output policyHash = .ok w) :
    main H w = some () ↔
      Provable H program trace (returnValueI64 output.returnValue) tape := by
  have houtput := (outputHash_of_buildWitness hkeccak hbuild).2
  unfold buildWitness at hbuild
  split_ifs at hbuild with hlong
  have hlen : trace.length ≤ maxSteps := Nat.le_of_not_lt hlong
  let blank := zeroed.writeBytecode (layout program)
  have hlive : w.liveRows = trace := by
    cases hbuild
    exact blank.liveRows_writeTrace hlen
  have htape : w.assertTape H = some () ↔ FitsCircuit tape := by
    cases hbuild
    exact assertTape_writeTape_iff H attestationLeaf (blank.writeTrace trace) hfree
  have htrace : w.TraceConstraints ↔ (blank.writeTrace trace).TraceConstraints := by
    cases hbuild
    exact ⟨fun h => ⟨h.start, h.step, h.continuity⟩, fun h => ⟨h.start, h.step, h.continuity⟩⟩
  have hbytecode : assertBytecode H w.bytecodeOpcodes w.bytecodeOperands w.instrCount
      w.programHash = some () ↔ (layout program).digest H = beBytes32ToField program.programHash := by
    cases hbuild
    exact assertBytecode_layout H hcount
  have hreturn : w.returnValue = returnValueI64 output.returnValue := by
    cases hbuild
    rfl
  have hcalls (hfits : FitsCircuit tape) : w.numToolCalls = .ofNat (toolCalls trace) ↔
      toolCalls trace = tape.entries.length := by
    cases hbuild
    exact numToolCalls_eq_iff H attestationLeaf (blank.writeTrace trace) hlen hfits
  rw [traceConstraints_writeTrace_iff blank hlen] at htrace
  rw [main_eq_some_iff]
  constructor
  · intro h
    have hfits := htape.mp h.tape
    have hrun := htrace.mp h.trace
    have hreturned := h.returned
    have hcounted := h.toolCalls
    rw [hlive, hreturn] at hreturned
    rw [hlive, hcalls hfits] at hcounted
    exact ⟨hbytecode.mp h.bytecode, hrun.1, hrun.2, hreturned, hcounted, hfits⟩
  · intro h
    constructor
    case bytecode => exact hbytecode.mpr h.hash
    case trace => exact htrace.mpr ⟨h.runs, h.targets⟩
    case returned =>
      rw [hlive, hreturn]
      exact h.returned
    case toolCalls =>
      rw [hlive]
      exact (hcalls h.fits).mpr h.calls
    case tape => exact htape.mpr h.fits
    case output => exact houtput

end

end ProvenoZk.Noir
