import ProvenoZk.Noir.Binding
import ProvenoZk.Noir.Committed

/-! The encoder that lays a program out for the circuit, and what a commitment to
its encoding says about the program. All prototypes go into one instruction list,
so neither where they begin nor what their constant pools hold is hashed. -/
namespace ProvenoZk.Proveno.CompiledProgram

variable {I : Type}

def instructions (program : CompiledProgram I) : List I :=
  program.prototypes.flatMap (·.code)

def split (program : CompiledProgram I) : List Nat :=
  program.prototypes.map (·.code.length)

def pools (program : CompiledProgram I) : List (List LuaValue) :=
  program.prototypes.map (·.constants)

end ProvenoZk.Proveno.CompiledProgram

namespace ProvenoZk.Noir
open Foundation Proveno

variable {I : Type}

theorem sum_split (program : CompiledProgram I) :
    (program.prototypes.map (·.code.length)).sum = program.instructions.length := by
  rw [CompiledProgram.instructions, List.length_flatMap]

theorem eq_of_flatMap_code {ps qs : List (FunctionProto I)}
    (hinstrs : ps.flatMap (·.code) = qs.flatMap (·.code))
    (hsplit : ps.map (·.code.length) = qs.map (·.code.length))
    (hpools : ps.map (·.constants) = qs.map (·.constants)) : ps = qs := by
  induction ps generalizing qs with
  | nil => exact (List.map_eq_nil_iff.mp hsplit.symm).symm
  | cons p ps ih =>
    cases qs with
    | nil => cases hsplit
    | cons q qs =>
      rw [List.map_cons, List.map_cons, List.cons.injEq] at hsplit hpools
      rw [List.flatMap_cons, List.flatMap_cons] at hinstrs
      obtain ⟨hcode, hrest⟩ := List.append_inj hinstrs hsplit.1
      have hproto : p = q := by
        cases p
        cases q
        rw [FunctionProto.mk.injEq]
        exact ⟨hcode, hpools.1⟩
      rw [hproto, ih hrest hsplit.2 hpools.2]

theorem prototypes_eq_iff (P Q : CompiledProgram I) :
    P.prototypes = Q.prototypes ↔
      P.instructions = Q.instructions ∧ P.split = Q.split ∧ P.pools = Q.pools := by
  unfold CompiledProgram.instructions CompiledProgram.split CompiledProgram.pools
  constructor
  · intro h
    rw [h]
    exact ⟨rfl, rfl, rfl⟩
  · rintro ⟨hinstrs, hsplit, hpools⟩
    exact eq_of_flatMap_code hinstrs hsplit hpools

variable [InstructionSet I]

inductive EncodeError where
  | tooLong (count : Nat)
  deriving DecidableEq

/-- The variables of `encode_program`'s loops. -/
structure EncodeState where
  prototypeOffsets : List Nat
  opcodes : Vector UInt8 maxBytecode
  operands : Vector Int64 maxBytecode
  slot : Nat

namespace EncodeState

def writeInstr (s : EncodeState) (instr : I) : Outcome EncodeError EncodeState := do
  let opcodes ← Outcome.set s.opcodes s.slot (instructionToOpcodeId instr)
  let operands ← Outcome.set s.operands s.slot (instructionToOperand instr)
  return { s with opcodes, operands, slot := s.slot + 1 }

def writePrototype (s : EncodeState) (proto : FunctionProto I) : Outcome EncodeError EncodeState :=
  proto.code.foldlM writeInstr { s with prototypeOffsets := s.prototypeOffsets ++ [s.slot] }

end EncodeState

def encodeProgram (program : CompiledProgram I) : Outcome EncodeError NoirBytecode := do
  let count := (program.prototypes.map (·.code.length)).sum
  if count > maxBytecode then .error (.failed (.tooLong count))
  else
    let s ← program.prototypes.foldlM EncodeState.writePrototype
      ⟨[], .replicate _ 0, .replicate _ 0, 0⟩
    return {
      opcodes := s.opcodes
      operands := s.operands
      programHash := program.programHash
      instrCount := count
      prototypeOffsets := s.prototypeOffsets }

def offsetsFrom (start : Nat) : List (FunctionProto I) → List Nat
  | [] => []
  | proto :: protos => start :: offsetsFrom (start + proto.code.length) protos

def EncodeState.after (offsets : List Nat) (written : List I) : EncodeState where
  prototypeOffsets := offsets
  opcodes := fill _ 0 (written.map instructionToOpcodeId)
  operands := fill _ 0 (written.map instructionToOperand)
  slot := written.length

def layout (program : CompiledProgram I) : NoirBytecode where
  opcodes := fill _ 0 (program.instructions.map instructionToOpcodeId)
  operands := fill _ 0 (program.instructions.map instructionToOperand)
  programHash := program.programHash
  instrCount := program.instructions.length
  prototypeOffsets := offsetsFrom 0 program.prototypes

namespace EncodeState

theorem after_nil : after [] ([] : List I) = ⟨[], .replicate _ 0, .replicate _ 0, 0⟩ := by
  unfold after
  rw [List.map_nil, List.map_nil, fill_nil, fill_nil]
  rfl

theorem writeInstr_after (offsets : List Nat) {written : List I} (instr : I)
    (hroom : written.length < maxBytecode) :
    (after offsets written).writeInstr instr = .ok (after offsets (written ++ [instr])) := by
  have hopcodes := setIfInBounds_fill (n := maxBytecode) 0 (written.map instructionToOpcodeId)
    (instructionToOpcodeId instr)
  have hoperands := setIfInBounds_fill (n := maxBytecode) 0 (written.map instructionToOperand)
    (instructionToOperand instr)
  rw [List.length_map] at hopcodes hoperands
  unfold writeInstr after Outcome.set
  rw [if_pos hroom, if_pos hroom]
  dsimp only
  rw [hopcodes, hoperands, List.map_append, List.map_append, List.length_append]
  rfl

theorem foldlM_writeInstr (offsets : List Nat) {written : List I} (code : List I)
    (hroom : written.length + code.length ≤ maxBytecode) :
    code.foldlM writeInstr (after offsets written) = .ok (after offsets (written ++ code)) := by
  induction code generalizing written with
  | nil =>
    rw [List.append_nil]
    rfl
  | cons instr code ih =>
    rw [List.length_cons] at hroom
    rw [List.foldlM_cons, writeInstr_after offsets instr (by omega)]
    change code.foldlM writeInstr (after offsets (written ++ [instr])) = _
    rw [ih (by rw [List.length_append, List.length_singleton]; omega), List.append_assoc]
    rfl

theorem foldlM_writePrototype {offsets : List Nat} {written : List I}
    (protos : List (FunctionProto I))
    (hroom : written.length + (protos.flatMap (·.code)).length ≤ maxBytecode) :
    protos.foldlM writePrototype (after offsets written) =
      .ok (after (offsets ++ offsetsFrom written.length protos)
        (written ++ protos.flatMap (·.code))) := by
  induction protos generalizing offsets written with
  | nil =>
    rw [offsetsFrom, List.flatMap_nil, List.append_nil, List.append_nil]
    rfl
  | cons proto protos ih =>
    rw [List.flatMap_cons, List.length_append] at hroom
    have hproto : (after offsets written).writePrototype proto =
        .ok (after (offsets ++ [written.length]) (written ++ proto.code)) :=
      foldlM_writeInstr (offsets ++ [written.length]) proto.code (by omega)
    rw [List.foldlM_cons, hproto]
    change protos.foldlM writePrototype _ = _
    rw [ih (by rw [List.length_append]; omega), offsetsFrom, List.flatMap_cons, List.append_assoc,
      List.append_assoc, List.length_append]
    rfl

end EncodeState

theorem encodeProgram_eq (program : CompiledProgram I) :
    encodeProgram program =
      if program.instructions.length > maxBytecode
      then .error (.failed (.tooLong program.instructions.length)) else .ok (layout program) := by
  unfold encodeProgram
  dsimp only
  rw [sum_split]
  split_ifs with hlong
  · rfl
  · have hroom : 0 + program.instructions.length ≤ maxBytecode := by omega
    have hloops : program.prototypes.foldlM EncodeState.writePrototype
        (.after [] ([] : List I)) = _ :=
      EncodeState.foldlM_writePrototype program.prototypes hroom
    rw [EncodeState.after_nil] at hloops
    rw [hloops]
    rfl

theorem encodeProgram_eq_ok {program : CompiledProgram I} {bytecode : NoirBytecode} :
    encodeProgram program = .ok bytecode ↔
      program.instructions.length ≤ maxBytecode ∧ layout program = bytecode := by
  rw [encodeProgram_eq]
  split_ifs with hlong
  · simp [hlong]
  · simp [Nat.le_of_not_lt hlong]

/-! The commitment. -/

section

variable (H : Hashes) (bytecode : NoirBytecode)

/-- The digest `assert_bytecode` computes over an encoding. -/
def NoirBytecode.digest : Fr :=
  H.hash (bytecodeFields bytecode.opcodes bytecode.operands) (.ofNat bytecode.instrCount * 2)

def NoirBytecode.message : Nat × List Fr :=
  (NoirWitness.zeroed.writeBytecode bytecode).programMessage

theorem NoirBytecode.digest_eq (hcount : bytecode.instrCount ≤ maxBytecode) :
    bytecode.digest H = H.digest bytecode.message := by
  have htwo : (2 : UInt32).toNat = 2 := rfl
  have hmax : maxBytecode = 512 := rfl
  have hsize : (UInt32.ofNat bytecode.instrCount * 2).toNat =
      (UInt32.ofNat bytecode.instrCount).toNat * 2 := by
    rw [UInt32.toNat_mul, htwo, UInt32.toNat_ofNat']
    omega
  unfold NoirBytecode.digest Hashes.hash
  rw [hsize]
  rfl

end

def instructionSlot (instr : I) : UInt8 × Int64 :=
  (instructionToOpcodeId instr, instructionToOperand instr)

theorem instructionSlot_injective : Function.Injective (instructionSlot : I → UInt8 × Int64) := by
  intro a b h
  obtain ⟨hopcode, hoperand⟩ := Prod.mk.inj h
  exact InstructionSet.determined a b hopcode hoperand

theorem take_layout {program : CompiledProgram I}
    (hfits : program.instructions.length ≤ maxBytecode) :
    ((layout program).opcodes.toList.zip (layout program).operands.toList).take
        program.instructions.length = program.instructions.map instructionSlot := by
  have hopcodes := take_fill (n := maxBytecode) 0 (program.instructions.map instructionToOpcodeId)
    (by rwa [List.length_map])
  have hoperands := take_fill (n := maxBytecode) 0 (program.instructions.map instructionToOperand)
    (by rwa [List.length_map])
  rw [List.length_map] at hopcodes hoperands
  rw [List.zip, List.take_zipWith]
  unfold layout
  rw [hopcodes, hoperands]
  exact List.zip_map'

theorem committed_layout {program : CompiledProgram I}
    (hfits : program.instructions.length ≤ maxBytecode) :
    (NoirWitness.zeroed.writeBytecode (layout program)).committed =
      program.instructions.map instructionSlot := by
  have hmax : maxBytecode = 512 := rfl
  have hcount : (UInt32.ofNat program.instructions.length).toNat = program.instructions.length := by
    rw [UInt32.toNat_ofNat']
    omega
  change (((layout program).opcodes.toList.zip (layout program).operands.toList).take
    (UInt32.ofNat program.instructions.length).toNat) = _
  rw [hcount, take_layout hfits]

theorem message_layout_inj {P Q : CompiledProgram I} (hP : P.instructions.length ≤ maxBytecode)
    (hQ : Q.instructions.length ≤ maxBytecode) :
    (layout P).message = (layout Q).message ↔ P.instructions = Q.instructions := by
  constructor
  · intro h
    have hslots := NoirWitness.committed_eq_of_programMessage h
    rw [committed_layout hP, committed_layout hQ] at hslots
    exact instructionSlot_injective.list_map hslots
  · intro h
    unfold layout NoirBytecode.message NoirWitness.writeBytecode NoirWitness.programMessage
    dsimp only
    rw [h]

/-- Equal commitments mean equal instruction lists, and the commitment tells two
programs apart exactly when equal instruction lists leave them nothing to differ in. -/
theorem program_commitment_binds (H : Hashes) (P Q : CompiledProgram I) (b c : NoirBytecode)
    (hP : encodeProgram P = .ok b) (hQ : encodeProgram Q = .ok c)
    (hfree : ¬ H.Collides b.message c.message) :
    (b.digest H = c.digest H ↔ P.instructions = Q.instructions) ∧
    ((b.digest H = c.digest H → P.prototypes = Q.prototypes) ↔
      (P.instructions = Q.instructions → P.split = Q.split ∧ P.pools = Q.pools)) := by
  obtain ⟨hfitsP, rfl⟩ := encodeProgram_eq_ok.mp hP
  obtain ⟨hfitsQ, rfl⟩ := encodeProgram_eq_ok.mp hQ
  have hdigest : (layout P).digest H = (layout Q).digest H ↔ P.instructions = Q.instructions := by
    rw [NoirBytecode.digest_eq H _ hfitsP, NoirBytecode.digest_eq H _ hfitsQ,
      ← message_layout_inj hfitsP hfitsQ]
    exact ⟨Hashes.eq_of_not_collides hfree, fun h => by rw [h]⟩
  refine ⟨hdigest, ?_⟩
  rw [hdigest, prototypes_eq_iff]
  exact imp_congr_right fun h => by simp [h]

def returnConstant (k : Int64) : CompiledProgram Instruction :=
  ⟨[⟨[⟨1, 0⟩, ⟨37, 1⟩], [.integer k]⟩], .replicate 32 0⟩

theorem encodeProgram_returnConstant (k : Int64) :
    encodeProgram (returnConstant k) = .ok (layout (returnConstant k)) :=
  encodeProgram_eq_ok.mpr ⟨show 2 ≤ 512 by decide, rfl⟩

/-- A program and its copy with another hash field share a commitment and prototypes. -/
theorem program_commitment_binds_copy :
    (layout (returnConstant 7)).digest rollingHashes =
        (layout { returnConstant 7 with programHash := .replicate 32 1 }).digest rollingHashes ∧
      (returnConstant 7).prototypes =
        ({ returnConstant 7 with programHash := .replicate 32 1 } :
          CompiledProgram Instruction).prototypes := by
  have hcopy : encodeProgram { returnConstant 7 with programHash := .replicate 32 1 } =
      .ok (layout { returnConstant 7 with programHash := .replicate 32 1 }) :=
    encodeProgram_eq_ok.mpr ⟨by decide, rfl⟩
  have hbinds := program_commitment_binds rollingHashes (returnConstant 7) _ _ _
    (encodeProgram_returnConstant 7) hcopy (fun h => h.1 rfl)
  have hdigest := hbinds.1.mpr rfl
  exact ⟨hdigest, hbinds.2.mpr (fun _ => ⟨rfl, rfl⟩) hdigest⟩

/-- `return 1` and `return 2` are committed alike. -/
theorem program_commitment_misses_constants :
    ¬ ∃ H : Hashes, ∀ (P Q : CompiledProgram Instruction) b c,
      encodeProgram P = .ok b → encodeProgram Q = .ok c →
      b.digest H = c.digest H → P.prototypes = Q.prototypes := by
  rintro ⟨H, hall⟩
  have hsame := hall _ _ _ _ (encodeProgram_returnConstant 1) (encodeProgram_returnConstant 2) rfl
  simp [returnConstant] at hsame

end ProvenoZk.Noir
