import ProvenoZk.Noir.Circuit
import ProvenoZk.Noir.Machine
import ProvenoZk.Zkvm.Commitment

/-! The witness the Rust side builds for the circuit, and the commitments it
takes from the tape: a leaf for each entry, and one digest of the leaves. -/
namespace ProvenoZk.Noir
open Foundation Proveno Zkvm

variable {I : Type}

structure NoirBytecode where
  opcodes : Vector UInt8 maxBytecode
  operands : Vector Int64 maxBytecode
  programHash : Bytes32
  instrCount : Nat
  prototypeOffsets : List Nat

def NoirBytecode.code (bytecode : NoirBytecode) : Code := ⟨bytecode.opcodes, bytecode.operands⟩

inductive WitnessError where
  | traceTooLong (len : Nat)
  deriving DecidableEq

/-- `0x00` for a response, `0x01` for an error. -/
def entryTag : TapeEntry → UInt8
  | .ok _ => 0
  | .err _ => 1

section

variable (H : Hashes) (attestationLeaf : List UInt8 → Fr)

/-- `tag, len, payload_byte_0, ..., payload_byte_{m-1}`. -/
def entryMessage (entry : TapeEntry) : List Fr :=
  ((entryTag entry).toNat : Fr) :: (entry.payload.length : Fr) ::
    entry.payload.map fun byte => (byte.toNat : Fr)

def entryLeaf (entry : TapeEntry) : Fr :=
  H.poseidon2 (entryMessage entry)

def entryLeaves (tape : OracleTape) : List Fr :=
  tape.entries.map (entryLeaf H)

def attestationLeaves (tape : OracleTape) : List Fr :=
  (List.range tape.entries.length).map fun i => attestationLeaf (tape.attestations.getD i [])

def commitmentHash (tape : OracleTape) : Bytes32 :=
  fieldToBeBytes32 (H.poseidon2 (entryLeaves H tape))

def attestationLeavesBe (tape : OracleTape) : List Bytes32 :=
  (attestationLeaves attestationLeaf tape).map fieldToBeBytes32

def attestationCommitment (tape : OracleTape) : Bytes32 :=
  fieldToBeBytes32 (H.poseidon2
    (List.zipWith (fun resp att => H.poseidon2 [resp, att])
      (entryLeaves H tape) (attestationLeaves attestationLeaf tape)))

end

namespace NoirWitness

def zeroed : NoirWitness where
  bytecodeOpcodes := .replicate _ 0
  bytecodeOperands := .replicate _ 0
  instrCount := 0
  tracePcs := .replicate _ 0
  traceOpcodes := .replicate _ 0
  traceOperands := .replicate _ 0
  traceStackTops := .replicate _ 0
  traceNextPcs := .replicate _ 0
  numSteps := 0
  programHash := .replicate _ 0
  returnValue := 0
  tapeEntryTags := .replicate _ 0
  tapeEntryLengths := .replicate _ 0
  tapeEntryData := .replicate _ (.replicate _ 0)
  numToolCalls := 0
  toolResponsesHash := .replicate _ 0
  tapeAttestationLeaves := .replicate _ (.replicate _ 0)
  inputHash := .replicate _ 0
  outputHash := .replicate _ 0
  attestationHash := .replicate _ 0
  policyHash := .replicate _ 0

variable (w : NoirWitness)

def writeBytecode (bytecode : NoirBytecode) : NoirWitness :=
  { w with
    bytecodeOpcodes := bytecode.opcodes
    bytecodeOperands := bytecode.operands
    instrCount := .ofNat bytecode.instrCount
    programHash := bytecode.programHash }

/-- The steps, in front of the zeros that fill each array. -/
def writeTrace (trace : List TraceStep) : NoirWitness :=
  { w with
    numSteps := .ofNat trace.length
    tracePcs := fill _ 0 (trace.map (·.pc))
    traceOpcodes := fill _ 0 (trace.map (·.opcode))
    traceOperands := fill _ 0 (trace.map (·.operand))
    traceStackTops := fill _ 0 (trace.map (·.stackTop))
    traceNextPcs := fill _ 0 (trace.map (·.nextPc)) }

/-- The first `MAX_TOOL_CALLS` entries and as much of each as its slot holds; the
commitments are those of the tape itself. -/
def writeTape (H : Hashes) (attestationLeaf : List UInt8 → Fr) (tape : OracleTape) : NoirWitness :=
  let entries := tape.entries.take maxToolCalls
  { w with
    tapeEntryTags := fill _ 0 (entries.map entryTag)
    tapeEntryLengths := fill _ 0
      (entries.map fun entry => .ofNat (min entry.payload.length maxTapeEntryBytes))
    tapeEntryData := fill _ (.replicate _ 0)
      (entries.map fun entry => fill _ 0 (entry.payload.take maxTapeEntryBytes))
    numToolCalls := .ofNat (min tape.entries.length maxToolCalls)
    toolResponsesHash := commitmentHash H tape
    tapeAttestationLeaves := fill _ (.replicate _ 0)
      ((attestationLeavesBe attestationLeaf tape).take maxToolCalls)
    attestationHash := attestationCommitment H attestationLeaf tape }

end NoirWitness

def buildWitness (core : Core I) (H : Hashes) (attestationLeaf : List UInt8 → Fr)
    (bytecode : NoirBytecode) (trace : List TraceStep) (returnValue : Int64)
    (oracleTape : OracleTape) (inputValue : LuaValue) (output : VmOutput) (policyHash : Bytes32) :
    Except WitnessError NoirWitness :=
  if trace.length > maxSteps then .error (.traceTooLong trace.length)
  else .ok { ((NoirWitness.zeroed.writeBytecode bytecode).writeTrace trace).writeTape
      H attestationLeaf oracleTape with
    returnValue := returnValue
    inputHash := hashInput core inputValue
    outputHash := hashOutput core output
    policyHash := policyHash }

theorem buildWitness_ok_iff {core : Core I} {H : Hashes} {attestationLeaf : List UInt8 → Fr}
    {bytecode : NoirBytecode} {trace : List TraceStep} {n : Int64} {tape : OracleTape}
    {input : LuaValue} {output : VmOutput} {policyHash : Bytes32} :
    (∃ w, buildWitness core H attestationLeaf bytecode trace n tape input output policyHash =
      .ok w) ↔ trace.length ≤ maxSteps := by
  unfold buildWitness
  split_ifs with hlong
  · exact iff_of_false nofun (Nat.not_le.mpr hlong)
  · exact iff_of_true ⟨_, rfl⟩ (Nat.le_of_not_lt hlong)

end ProvenoZk.Noir
