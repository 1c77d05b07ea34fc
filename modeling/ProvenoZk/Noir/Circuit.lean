import ProvenoZk.Foundation.Loop
import ProvenoZk.Noir.Field
import ProvenoZk.Proveno.Vm

/-! The circuit `main.nr`. An assignment satisfies it when `main` returns: a
failed assertion, an array read out of range and an addition that overflows
each leave the assignment unsatisfiable. -/
namespace ProvenoZk.Noir
open Foundation Proveno

abbrev maxBytecode : Nat := 512
abbrev maxSteps : Nat := 2048
abbrev maxToolCalls : Nat := 16
abbrev maxTapeEntryBytes : Nat := 1024

/-- The hash libraries. `Poseidon2::hash` reads a message size and an array. Up to the
length of the array it hashes that many fields. To a larger size it is taken to answer as
well; what it answers is the library's own affair, and left open here. -/
structure Hashes where
  poseidon2 : List Fr → Fr
  beyond : Nat → List Fr → Fr
  keccak256 : List UInt8 → Bytes32

def Hashes.digest (H : Hashes) (message : Nat × List Fr) : Fr :=
  if message.1 ≤ message.2.length then H.poseidon2 message.2 else H.beyond message.1 message.2

def Hashes.hash (H : Hashes) (input : List Fr) (messageSize : UInt32) : Fr :=
  H.digest (messageSize.toNat, input.take messageSize.toNat)

def Hashes.Collides (H : Hashes) (m n : Nat × List Fr) : Prop :=
  m ≠ n ∧ H.digest m = H.digest n

theorem Hashes.digest_length (H : Hashes) (message : List Fr) :
    H.digest (message.length, message) = H.poseidon2 message :=
  if_pos (Nat.le_refl _)

def rollingHashes : Hashes where
  poseidon2 := fun message => message.foldl (fun acc x => acc * 257 + x) (message.length : Fr)
  beyond := fun _ _ => 0
  keccak256 := fill 32 0

/-- The parameters of `main`, which the prover fills from a `NoirWitness`. -/
structure NoirWitness where
  bytecodeOpcodes : Vector UInt8 maxBytecode
  bytecodeOperands : Vector Int64 maxBytecode
  instrCount : UInt32
  tracePcs : Vector UInt32 maxSteps
  traceOpcodes : Vector UInt8 maxSteps
  traceOperands : Vector Int64 maxSteps
  traceStackTops : Vector Int64 maxSteps
  traceNextPcs : Vector UInt32 maxSteps
  numSteps : UInt32
  programHash : Bytes32
  returnValue : Int64
  tapeEntryTags : Vector UInt8 maxToolCalls
  tapeEntryLengths : Vector UInt32 maxToolCalls
  tapeEntryData : Vector (Vector UInt8 maxTapeEntryBytes) maxToolCalls
  numToolCalls : UInt32
  toolResponsesHash : Bytes32
  tapeAttestationLeaves : Vector Bytes32 maxToolCalls
  inputHash : Bytes32
  outputHash : Bytes32
  attestationHash : Bytes32
  policyHash : Bytes32

def assert (p : Prop) [Decidable p] : Option Unit :=
  if p then some () else none

def addU32 (a b : UInt32) : Option UInt32 :=
  if a.toNat + b.toNat < 2 ^ 32 then some (a + b) else none

def mulU32 (a b : UInt32) : Option UInt32 :=
  if a.toNat * b.toNat < 2 ^ 32 then some (a * b) else none

def addI64 (a b : Int64) : Option Int64 :=
  if -2 ^ 63 ≤ a.toInt + b.toInt ∧ a.toInt + b.toInt < 2 ^ 63 then some (a + b) else none

def bytecodeFields (opcodes : Vector UInt8 maxBytecode) (operands : Vector Int64 maxBytecode) :
    List Fr :=
  (opcodes.toList.zip operands.toList).flatMap fun slot =>
    [(slot.1.toNat : Fr), (slot.2.toUInt64.toNat : Fr)]

def assertBytecode (H : Hashes) (opcodes : Vector UInt8 maxBytecode)
    (operands : Vector Int64 maxBytecode) (instrCount : UInt32) (programHash : Bytes32) :
    Option Unit := do
  let messageSize ← mulU32 instrCount 2
  assert (H.hash (bytecodeFields opcodes operands) messageSize = beBytes32ToField programHash)

/-- `(pc as i64 + 1 + operand) as u32`. -/
def jmpTarget (pc : UInt32) (operand : Int64) : Option UInt32 := do
  let following ← addI64 pc.toUInt64.toInt64 1
  let target ← addI64 following operand
  return target.toUInt64.toUInt32

def expectedNextPc (row : TraceStep) (jmpTarget : UInt32) : Option UInt32 :=
  if row.opcode = 33 then some jmpTarget
  else if row.opcode = 34 ∧ row.stackTop ≠ 0 then some jmpTarget
  else if row.opcode = 35 ∧ row.stackTop = 0 then some jmpTarget
  else if row.opcode = 29 ∧ row.stackTop = 0 then some jmpTarget
  else if row.opcode = 30 ∧ row.stackTop ≠ 0 then some jmpTarget
  else if row.opcode = 43 ∧ row.stackTop = 0 then some jmpTarget
  else if row.opcode = 44 ∧ row.stackTop = 0 then some jmpTarget
  else if row.opcode = 45 ∧ row.stackTop = 0 then some jmpTarget
  else addU32 row.pc 1

/-- Ret, Call, Closure and PCall go wherever the witness says. -/
def isUnconstrained (opcode : UInt8) : Prop :=
  opcode = 37 ∨ opcode = 36 ∨ opcode = 38 ∨ opcode = 40

instance (opcode : UInt8) : Decidable (isUnconstrained opcode) :=
  inferInstanceAs (Decidable (opcode = 37 ∨ opcode = 36 ∨ opcode = 38 ∨ opcode = 40))

def entryFields (tag : UInt8) (len : UInt32) (data : Vector UInt8 maxTapeEntryBytes) : List Fr :=
  (tag.toNat : Fr) :: (len.toNat : Fr) :: data.toList.map fun byte => (byte.toNat : Fr)

/-- The word `output_payload_keccak` hashes: a sign fill with the eight low bytes
written over it, least significant last. -/
def outputPayload (returnValue : Int64) : Bytes32 :=
  ((List.range 8).foldl
    (fun (payload, v) i => (payload.setIfInBounds (31 - i) (v % 256).toUInt8, v / 256))
    (Vector.replicate 32 (if returnValue < 0 then 0xff else 0), returnValue.toUInt64)).1

def outputPayloadKeccak (H : Hashes) (returnValue : Int64) : Bytes32 :=
  H.keccak256 (outputPayload returnValue).toList

namespace NoirWitness

variable (w : NoirWitness)

def traceRow (i : Nat) : Option TraceStep := do
  let pc ← w.tracePcs[i]?
  let opcode ← w.traceOpcodes[i]?
  let operand ← w.traceOperands[i]?
  let stackTop ← w.traceStackTops[i]?
  let nextPc ← w.traceNextPcs[i]?
  return { pc, opcode, operand, stackTop, nextPc }

def assertStart : Option Unit := do
  let pc ← w.tracePcs[0]?
  assert (pc = 0)

/-- 3a. -/
def assertInstruction (row : TraceStep) : Option Unit := do
  let opcode ← w.bytecodeOpcodes[row.pc.toNat]?
  assert (row.opcode = opcode)
  let operand ← w.bytecodeOperands[row.pc.toNat]?
  assert (row.operand = operand)
  assert (row.opcode ≤ 45)

/-- 3b. -/
def assertNextPc (row : TraceStep) : Option Unit := do
  let target ← jmpTarget row.pc row.operand
  let expected ← expectedNextPc row target
  if isUnconstrained row.opcode then return else assert (row.nextPc = expected)

/-- 4. -/
def assertContinuity (i : Nat) : Option Unit :=
  if i + 1 < w.numSteps.toNat then do
    let pc ← w.tracePcs[i + 1]?
    let nextPc ← w.traceNextPcs[i]?
    assert (pc = nextPc)
  else return

/-- 5. Only the final step's Ret returns the program-level value. -/
def assertReturn (i : Nat) (row : TraceStep) : Option Unit :=
  if i + 1 = w.numSteps.toNat ∧ row.opcode = 37 then assert (row.stackTop = w.returnValue) else return

/-- 6. -/
def countToolCall (row : TraceStep) (toolCallCount : UInt32) : Option UInt32 :=
  if row.opcode = 39 then addU32 toolCallCount 1 else return toolCallCount

def step (i : Nat) (toolCallCount : UInt32) : Option UInt32 :=
  if i < w.numSteps.toNat then do
    let row ← w.traceRow i
    w.assertInstruction row
    assertNextPc row
    w.assertContinuity i
    w.assertReturn i row
    countToolCall row toolCallCount
  else return toolCallCount

def respLeaf (H : Hashes) (i : Nat) : Option Fr := do
  let tag ← w.tapeEntryTags[i]?
  let len ← w.tapeEntryLengths[i]?
  let data ← w.tapeEntryData[i]?
  let messageSize ← addU32 len 2
  return H.hash (entryFields tag len data) messageSize

def storeRespLeaf (H : Hashes) (i : Nat) (leaves : Vector Fr maxToolCalls) :
    Option (Vector Fr maxToolCalls) := do
  let leaf ← w.respLeaf H i
  return leaves.setIfInBounds i leaf

def respLeaves (H : Hashes) : Option (Vector Fr maxToolCalls) :=
  forRange maxToolCalls (w.storeRespLeaf H) (.replicate _ 0)

def boundLeaves (H : Hashes) (respLeaves : Vector Fr maxToolCalls) : Vector Fr maxToolCalls :=
  Vector.zipWith (fun resp att => H.hash [resp, beBytes32ToField att] 2)
    respLeaves w.tapeAttestationLeaves

/-- 7 and 8: the two commitments to the tape. -/
def assertTape (H : Hashes) : Option Unit := do
  let respLeaves ← w.respLeaves H
  assert (H.hash respLeaves.toList w.numToolCalls = beBytes32ToField w.toolResponsesHash)
  assert (H.hash (w.boundLeaves H respLeaves).toList w.numToolCalls =
    beBytes32ToField w.attestationHash)

end NoirWitness

def main (H : Hashes) (w : NoirWitness) : Option Unit := do
  assertBytecode H w.bytecodeOpcodes w.bytecodeOperands w.instrCount w.programHash
  w.assertStart
  let toolCallCount ← forRange maxSteps w.step 0
  assert (toolCallCount = w.numToolCalls)
  w.assertTape H
  assert (outputPayloadKeccak H w.returnValue = w.outputHash)

end ProvenoZk.Noir
