import ProvenoZk.Foundation.Outcome
import ProvenoZk.Foundation.Session
import ProvenoZk.Proveno.Lua

/-! What the code uses of the VM crate: its data, the tape a replay answers from,
and the functions it calls. The functions are fields of `Core`, and the VM is a
client of its host, so every result holds for any of them. -/
namespace ProvenoZk.Proveno
open Foundation

/-- The instructions of the VM crate, which stay a parameter, and the two functions that
encode them. By section 1a of `docs/noir-proving-pipeline-plan.md` each variant has an id
of its own, and its operand, if it has one, is widened. -/
class InstructionSet (I : Type) where
  instructionToOpcodeId : I → UInt8
  instructionToOperand : I → Int64
  determined : ∀ a b, instructionToOpcodeId a = instructionToOpcodeId b →
    instructionToOperand a = instructionToOperand b → a = b

export InstructionSet (instructionToOpcodeId instructionToOperand)

structure FunctionProto (I : Type) where
  code : List I
  constants : List LuaValue

structure CompiledProgram (I : Type) where
  prototypes : List (FunctionProto I)
  programHash : Bytes32

/-- The instructions that examples are made of: every id with every operand. -/
structure Instruction where
  opcodeId : UInt8
  operand : Int64
  deriving DecidableEq

instance : InstructionSet Instruction where
  instructionToOpcodeId := Instruction.opcodeId
  instructionToOperand := Instruction.operand
  determined := by
    rintro ⟨id, operand⟩ ⟨id', operand'⟩ hid hoperand
    exact congrArg₂ Instruction.mk hid hoperand

structure VmConfig where
  gasLimit : UInt64
  memoryLimitBytes : UInt64
  maxCallDepth : UInt64
  maxToolCalls : UInt64
  maxToolBytesIn : UInt64
  maxToolBytesOut : UInt64
  maxOutputBytes : UInt64
  recordTrace : Bool

/-- Five of the limits are `usize`, and there are machines that cannot hold them. -/
def VmConfig.FitsUsize (config : VmConfig) (target : Target) : Prop :=
  ∀ limit ∈ [config.maxCallDepth, config.maxToolCalls, config.maxToolBytesIn,
    config.maxToolBytesOut, config.maxOutputBytes], limit.toNat < target.usizeRange

instance (config : VmConfig) (target : Target) : Decidable (config.FitsUsize target) :=
  List.decidableBAll (fun limit : UInt64 => limit.toNat < target.usizeRange) _

structure TraceStep where
  pc : UInt32
  opcode : UInt8
  operand : Int64
  stackTop : Int64
  nextPc : UInt32
  deriving DecidableEq

structure VmOutput where
  returnValue : LuaValue
  logs : List String
  gasUsed : UInt64
  memoryUsed : UInt64
  trace : List TraceStep

inductive VmError where
  | toolError (message : String)
  | other (description : String)
  deriving DecidableEq

/-- A recorded response: the canonical bytes of the table a tool returned, or the
message it failed with. -/
inductive TapeEntry where
  | ok (bytes : List UInt8)
  | err (message : String)
  deriving DecidableEq

namespace TapeEntry

def payload : TapeEntry → List UInt8
  | .ok bytes => bytes
  | .err message => utf8 message

end TapeEntry

structure OracleTape where
  entries : List TapeEntry
  attestations : List (List UInt8)

/-- The functions of the VM crate and of the hash libraries. -/
structure Core (I : Type) where
  sha256 : List UInt8 → Bytes32
  keccak256 : List UInt8 → Bytes32
  canonicalSerialize : LuaValue → Except String (List UInt8)
  canonicalSerializeTable : LuaTable → Except String (List UInt8)
  /-- How a tape reads back the bytes of a response. -/
  readResponse : List UInt8 → Except String LuaTable
  /-- Whether the VM takes an attestation from its host behind this answer to a call. -/
  takesAttestation : ToolCall → Reply → Bool
  /-- What a tape answers when it has no entry left. -/
  tapeExhausted : String
  computeProgramHashSha256 : List (FunctionProto I) → Bytes32
  commitmentHashSha256 : OracleTape → Bytes32
  attestationCommitmentSha256 : OracleTape → Bytes32

variable {I : Type}

/-- A tape reads back the table whose bytes were recorded. -/
def Core.ReadsBack (core : Core I) : Prop :=
  ∀ table bytes, core.canonicalSerializeTable table = .ok bytes → core.readResponse bytes = .ok table

def Core.Collides (core : Core I) (m n : List UInt8) : Prop :=
  m ≠ n ∧ core.sha256 m = core.sha256 n

/-- Hashes that are all zero, and a codec for the empty table only. -/
def plainCore : Core Instruction where
  sha256 := fun _ => .replicate 32 0
  keccak256 := fun _ => .replicate 32 0
  canonicalSerialize := fun _ => .ok (utf8 "null")
  canonicalSerializeTable := fun table =>
    if table.entries.isEmpty then .ok (utf8 "\x7b\x7d") else .error "unsupported"
  readResponse := fun bytes => if bytes = utf8 "\x7b\x7d" then .ok .new else .error "unsupported"
  takesAttestation := fun _ _ => true
  tapeExhausted := "oracle tape exhausted"
  computeProgramHashSha256 := fun _ => .replicate 32 0
  commitmentHashSha256 := fun _ => .replicate 32 0
  attestationCommitmentSha256 := fun _ => .replicate 32 0

theorem plainCore_readsBack : plainCore.ReadsBack := by
  intro table bytes h
  unfold plainCore at h ⊢
  dsimp only at h ⊢
  split_ifs at h with hempty
  cases h
  rw [if_pos rfl]
  exact congrArg Except.ok (LuaTable.ext (List.isEmpty_iff.mp hempty).symm)

/-- Replays a tape: whatever is called, the next entry is the answer. -/
structure TapeHost where
  tape : OracleTape
  cursor : Nat

namespace TapeHost

def new (tape : OracleTape) : TapeHost := ⟨tape, 0⟩

def callTool (core : Core I) : Service TapeHost ToolCall Reply := fun _ host =>
  match host.tape.entries[host.cursor]? with
  | some (.ok bytes) => (core.readResponse bytes, { host with cursor := host.cursor + 1 })
  | some (.err message) => (.error message, { host with cursor := host.cursor + 1 })
  | none => (.error core.tapeExhausted, host)

def replyOf (core : Core I) : TapeEntry → Reply
  | .ok bytes => core.readResponse bytes
  | .err message => .error message

theorem callTool_of_entry {core : Core I} {host : TapeHost} {entry : TapeEntry}
    (h : host.tape.entries[host.cursor]? = some entry) (call : ToolCall) :
    callTool core call host = (replyOf core entry, { host with cursor := host.cursor + 1 }) := by
  unfold callTool
  rw [h]
  cases entry <;> rfl

theorem next_of_drop {host : TapeHost} {entry : TapeEntry} {rest : List TapeEntry}
    (h : host.tape.entries.drop host.cursor = entry :: rest) :
    host.tape.entries[host.cursor]? = some entry ∧
      host.tape.entries.drop (host.cursor + 1) = rest := by
  constructor
  · rw [← List.head?_drop, h]
    rfl
  · rw [← List.drop_drop, h]
    rfl

theorem cursor_callTool_le (core : Core I) (call : ToolCall) (host : TapeHost) :
    (callTool core call host).2.cursor ≤ host.cursor + 1 := by
  unfold callTool
  split
  · exact Nat.le_refl _
  · exact Nat.le_refl _
  · exact Nat.le_succ _

end TapeHost

/-- A virtual machine: any deterministic client of the host it is given, as long as
it makes no more calls than 64 bits can count. -/
structure Vm (I : Type) where
  execute : VmConfig → CompiledProgram I → LuaValue →
    Client ToolCall Reply (Except VmError VmOutput)
  execute_asksAtMost : ∀ config program input,
    (execute config program input).AsksAtMost (2 ^ 64 - 1)

/-- The VM stops a program that goes over its limit of calls. -/
def CapsCalls (vm : Vm I) : Prop :=
  ∀ config program input,
    (vm.execute config program input).AsksAtMost config.maxToolCalls.toNat

end ProvenoZk.Proveno
