import ProvenoZk.Foundation.Toml
import ProvenoZk.Noir.Circuit

/-! `Prover.toml`, the file that hands a witness to `nargo execute`: one line for each
parameter of `main`, in an order of its own. -/
namespace ProvenoZk.Noir
open Foundation

/-- `map(..).collect::<Vec<_>>().join(", ")`. -/
def joinToml (text : α → String) (items : List α) : String :=
  ", ".intercalate (items.map text)

def bytesToml (slice : List UInt8) : String := joinToml (fun b => decimal b.toNat) slice

def u32sToml (slice : List UInt32) : String := joinToml (fun b => decimal b.toNat) slice

def i64sToml (slice : List Int64) : String := joinToml (fun b => decimal b.toInt) slice

def rowsToml (rows : List (List UInt8)) : String :=
  joinToml (fun row => "[" ++ bytesToml row ++ "]") rows

def writeProverToml (witness : NoirWitness) : String :=
  String.join [
    -- Public inputs as top-level scalar/array keys.
    "num_steps = " ++ decimal witness.numSteps.toNat ++ "\n",
    "return_value = " ++ decimal witness.returnValue.toInt ++ "\n",
    "program_hash = [" ++ bytesToml witness.programHash.toList ++ "]\n",
    "tool_responses_hash = [" ++ bytesToml witness.toolResponsesHash.toList ++ "]\n",
    "input_hash = [" ++ bytesToml witness.inputHash.toList ++ "]\n",
    "output_hash = [" ++ bytesToml witness.outputHash.toList ++ "]\n",
    "attestation_hash = [" ++ bytesToml witness.attestationHash.toList ++ "]\n",
    "policy_hash = [" ++ bytesToml witness.policyHash.toList ++ "]\n",
    -- Private witness arrays.
    "instr_count = " ++ decimal witness.instrCount.toNat ++ "\n",
    "bytecode_opcodes = [" ++ bytesToml witness.bytecodeOpcodes.toList ++ "]\n",
    "bytecode_operands = [" ++ i64sToml witness.bytecodeOperands.toList ++ "]\n",
    "trace_pcs = [" ++ u32sToml witness.tracePcs.toList ++ "]\n",
    "trace_opcodes = [" ++ bytesToml witness.traceOpcodes.toList ++ "]\n",
    "trace_operands = [" ++ i64sToml witness.traceOperands.toList ++ "]\n",
    "trace_stack_tops = [" ++ i64sToml witness.traceStackTops.toList ++ "]\n",
    "trace_next_pcs = [" ++ u32sToml witness.traceNextPcs.toList ++ "]\n",
    "num_tool_calls = " ++ decimal witness.numToolCalls.toNat ++ "\n",
    "tape_entry_tags = [" ++ bytesToml witness.tapeEntryTags.toList ++ "]\n",
    "tape_entry_lengths = [" ++ u32sToml witness.tapeEntryLengths.toList ++ "]\n",
    "tape_entry_data = [" ++ rowsToml (witness.tapeEntryData.toList.map Vector.toList) ++ "]\n",
    "tape_attestation_leaves = [" ++
      rowsToml (witness.tapeAttestationLeaves.toList.map Vector.toList) ++ "]\n"]

/-! The other side: the parameters `main` declares, each with its type. -/

def mainParameters : List String :=
  ["bytecode_opcodes", "bytecode_operands", "instr_count", "trace_pcs", "trace_opcodes",
    "trace_operands", "trace_stack_tops", "trace_next_pcs", "num_steps", "program_hash",
    "return_value", "tape_entry_tags", "tape_entry_lengths", "tape_entry_data", "num_tool_calls",
    "tool_responses_hash", "input_hash", "output_hash", "attestation_hash", "policy_hash",
    "tape_attestation_leaves"]

section
open Toml

def bytes32 : Codec Bytes32 := .vector 32 .u8

/-- The arguments of `main`, each read from its own key at its declared type. -/
def readMain (entries : List (String × Toml)) : Option NoirWitness := do
  let bytecodeOpcodes ← (Codec.u8.vector maxBytecode).readKey "bytecode_opcodes" entries
  let bytecodeOperands ← (Codec.i64.vector maxBytecode).readKey "bytecode_operands" entries
  let instrCount ← Codec.u32.readKey "instr_count" entries
  let tracePcs ← (Codec.u32.vector maxSteps).readKey "trace_pcs" entries
  let traceOpcodes ← (Codec.u8.vector maxSteps).readKey "trace_opcodes" entries
  let traceOperands ← (Codec.i64.vector maxSteps).readKey "trace_operands" entries
  let traceStackTops ← (Codec.i64.vector maxSteps).readKey "trace_stack_tops" entries
  let traceNextPcs ← (Codec.u32.vector maxSteps).readKey "trace_next_pcs" entries
  let numSteps ← Codec.u32.readKey "num_steps" entries
  let programHash ← bytes32.readKey "program_hash" entries
  let returnValue ← Codec.i64.readKey "return_value" entries
  let tapeEntryTags ← (Codec.u8.vector maxToolCalls).readKey "tape_entry_tags" entries
  let tapeEntryLengths ← (Codec.u32.vector maxToolCalls).readKey "tape_entry_lengths" entries
  let tapeEntryData ←
    ((Codec.u8.vector maxTapeEntryBytes).vector maxToolCalls).readKey "tape_entry_data" entries
  let numToolCalls ← Codec.u32.readKey "num_tool_calls" entries
  let toolResponsesHash ← bytes32.readKey "tool_responses_hash" entries
  let inputHash ← bytes32.readKey "input_hash" entries
  let outputHash ← bytes32.readKey "output_hash" entries
  let attestationHash ← bytes32.readKey "attestation_hash" entries
  let policyHash ← bytes32.readKey "policy_hash" entries
  let tapeAttestationLeaves ←
    (bytes32.vector maxToolCalls).readKey "tape_attestation_leaves" entries
  return {
    bytecodeOpcodes, bytecodeOperands, instrCount, tracePcs, traceOpcodes, traceOperands,
    traceStackTops, traceNextPcs, numSteps, programHash, returnValue, tapeEntryTags,
    tapeEntryLengths, tapeEntryData, numToolCalls, toolResponsesHash, tapeAttestationLeaves,
    inputHash, outputHash, attestationHash, policyHash }

def arguments (w : NoirWitness) : List (String × Toml) :=
  [("num_steps", Codec.u32.write w.numSteps),
    ("return_value", Codec.i64.write w.returnValue),
    ("program_hash", bytes32.write w.programHash),
    ("tool_responses_hash", bytes32.write w.toolResponsesHash),
    ("input_hash", bytes32.write w.inputHash),
    ("output_hash", bytes32.write w.outputHash),
    ("attestation_hash", bytes32.write w.attestationHash),
    ("policy_hash", bytes32.write w.policyHash),
    ("instr_count", Codec.u32.write w.instrCount),
    ("bytecode_opcodes", (Codec.u8.vector _).write w.bytecodeOpcodes),
    ("bytecode_operands", (Codec.i64.vector _).write w.bytecodeOperands),
    ("trace_pcs", (Codec.u32.vector _).write w.tracePcs),
    ("trace_opcodes", (Codec.u8.vector _).write w.traceOpcodes),
    ("trace_operands", (Codec.i64.vector _).write w.traceOperands),
    ("trace_stack_tops", (Codec.i64.vector _).write w.traceStackTops),
    ("trace_next_pcs", (Codec.u32.vector _).write w.traceNextPcs),
    ("num_tool_calls", Codec.u32.write w.numToolCalls),
    ("tape_entry_tags", (Codec.u8.vector _).write w.tapeEntryTags),
    ("tape_entry_lengths", (Codec.u32.vector _).write w.tapeEntryLengths),
    ("tape_entry_data", ((Codec.u8.vector _).vector _).write w.tapeEntryData),
    ("tape_attestation_leaves", (bytes32.vector _).write w.tapeAttestationLeaves)]

/-! Each line is the printed entry of its parameter. -/

section

variable {c : Codec α} {text : α → String} (htext : ∀ a, print (c.write a) = text a)

include htext

theorem print_vector (items : Vector α n) :
    print ((c.vector n).write items) = "[" ++ joinToml text items.toList ++ "]" := by
  have hitems : print ∘ c.write = text := by
    funext a
    exact htext a
  rw [Codec.vector, print_array, List.map_map, hitems, joinToml]

theorem printEntry_vector (key : String) (items : Vector α n) :
    printEntry (key, (c.vector n).write items) =
      key ++ " = [" ++ joinToml text items.toList ++ "]\n" := by
  apply String.toList_inj.mp
  rw [printEntry, print_vector htext]
  simp

end

theorem printEntry_bytes (key : String) (slice : Vector UInt8 n) :
    printEntry (key, (Codec.u8.vector n).write slice) =
      key ++ " = [" ++ bytesToml slice.toList ++ "]\n" :=
  printEntry_vector (fun _ => rfl) key slice

theorem printEntry_u32s (key : String) (slice : Vector UInt32 n) :
    printEntry (key, (Codec.u32.vector n).write slice) =
      key ++ " = [" ++ u32sToml slice.toList ++ "]\n" :=
  printEntry_vector (fun _ => rfl) key slice

theorem printEntry_i64s (key : String) (slice : Vector Int64 n) :
    printEntry (key, (Codec.i64.vector n).write slice) =
      key ++ " = [" ++ i64sToml slice.toList ++ "]\n" :=
  printEntry_vector (fun _ => rfl) key slice

theorem printEntry_rows (key : String) (rows : Vector (Vector UInt8 n) m) :
    printEntry (key, ((Codec.u8.vector n).vector m).write rows) =
      key ++ " = [" ++ rowsToml (rows.toList.map Vector.toList) ++ "]\n" := by
  rw [rowsToml, joinToml, List.map_map]
  apply printEntry_vector
  intro row
  exact print_vector (fun _ => rfl) row

theorem printEntry_u32 (key : String) (n : UInt32) :
    printEntry (key, Codec.u32.write n) = key ++ " = " ++ decimal n.toNat ++ "\n" := rfl

theorem printEntry_i64 (key : String) (n : Int64) :
    printEntry (key, Codec.i64.write n) = key ++ " = " ++ decimal n.toInt ++ "\n" := rfl

theorem writeProverToml_eq (w : NoirWitness) :
    writeProverToml w = printDocument (arguments w) := by
  simp only [writeProverToml, printDocument, arguments, bytes32, List.map_cons, List.map_nil,
    printEntry_bytes, printEntry_u32s, printEntry_i64s, printEntry_rows, printEntry_u32,
    printEntry_i64, String.reduceAppend]

theorem arguments_perm (w : NoirWitness) : ((arguments w).map Prod.fst).Perm mainParameters := by
  simp only [arguments, List.map_cons, List.map_nil]
  decide

theorem mainParameters_nodup : mainParameters.Nodup := by decide

theorem mainParameters_isBareKey : ∀ key ∈ mainParameters, IsBareKey key := by decide

theorem readDocument_writeProverToml (w : NoirWitness) :
    readDocument (writeProverToml w) = some (arguments w) := by
  have hkeys := arguments_perm w
  rw [writeProverToml_eq]
  apply readDocument_printDocument
  · intro e he
    have hmem : e.1 ∈ (arguments w).map Prod.fst := List.mem_map_of_mem he
    exact mainParameters_isBareKey e.1 (hkeys.mem_iff.mp hmem)
  · exact hkeys.nodup_iff.mpr mainParameters_nodup

theorem readMain_arguments (w : NoirWitness) : readMain (arguments w) = some w := by
  simp [readMain, arguments, Codec.readKey, List.lookup_cons, Codec.read_write]

/-- The file has one line `key = value` for each parameter of `main` and no other line, and
what the lines read as are the values of the witness. -/
theorem writeProverToml_reads_back :
    (∀ w, ∃ entries,
      writeProverToml w = printDocument entries ∧
      readDocument (writeProverToml w) = some entries ∧
      (entries.map Prod.fst).Perm mainParameters ∧ mainParameters.Nodup ∧
      readMain entries = some w) ∧
    Function.Injective writeProverToml := by
  have hreads (w : NoirWitness) : readDocument (writeProverToml w) = some (arguments w) ∧
      readMain (arguments w) = some w :=
    ⟨readDocument_writeProverToml w, readMain_arguments w⟩
  refine ⟨fun w => ⟨arguments w, writeProverToml_eq w, (hreads w).1, arguments_perm w,
    mainParameters_nodup, (hreads w).2⟩, ?_⟩
  intro v w h
  have hv := (hreads v).1
  rw [h, (hreads w).1] at hv
  have hvalues := (hreads w).2
  rw [Option.some.inj hv, (hreads v).2] at hvalues
  exact Option.some.inj hvalues

end

end ProvenoZk.Noir
