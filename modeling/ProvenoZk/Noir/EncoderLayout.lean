import ProvenoZk.Noir.Encoder

/-! Where the encoder puts each instruction. A program that fits is laid out prototype by
prototype from slot zero, so the offsets cut the slots in use back into prototypes. -/
namespace ProvenoZk.Noir
open Foundation Proveno

variable {I : Type}

/-- The slots from each offset up to the next, the last ones up to `stop`. -/
def cutAt (slots : List α) (stop : Nat) : List Nat → List (List α)
  | [] => []
  | start :: starts =>
    (slots.drop start).take (starts.headD stop - start) :: cutAt slots stop starts

/-- The opcode ids and operands of each prototype, read back from an encoding. -/
def NoirBytecode.prototypeSlots (bytecode : NoirBytecode) : List (List (UInt8 × Int64)) :=
  cutAt (bytecode.opcodes.toList.zip bytecode.operands.toList) bytecode.instrCount
    bytecode.prototypeOffsets

def totalCode (protos : List (FunctionProto I)) : Nat := (protos.map (·.code.length)).sum

theorem totalCode_eq (protos : List (FunctionProto I)) :
    totalCode protos = (protos.flatMap (·.code)).length := by
  rw [totalCode, List.length_flatMap]

/-! The offsets. -/

theorem length_offsetsFrom (start : Nat) (protos : List (FunctionProto I)) :
    (offsetsFrom start protos).length = protos.length := by
  induction protos generalizing start with
  | nil => rfl
  | cons proto protos ih => rw [offsetsFrom, List.length_cons, List.length_cons, ih]

theorem getElem?_offsetsFrom (start : Nat) {protos : List (FunctionProto I)} {k : Nat}
    (hk : k < protos.length) :
    (offsetsFrom start protos)[k]? = some (start + totalCode (protos.take k)) := by
  induction protos generalizing start k with
  | nil => exact absurd hk (Nat.not_lt_zero k)
  | cons proto protos ih =>
    cases k with
    | zero => rfl
    | succ k =>
      rw [offsetsFrom, List.getElem?_cons_succ, ih _ (Nat.lt_of_succ_lt_succ hk),
        List.take_succ_cons, totalCode, totalCode, List.map_cons, List.sum_cons, Nat.add_assoc]

theorem headD_offsetsFrom (start : Nat) (protos : List (FunctionProto I)) :
    (offsetsFrom start protos).headD (start + totalCode protos) = start := by
  cases protos with
  | nil => rfl
  | cons proto protos => rfl

theorem getElem?_flatMap_code {protos : List (FunctionProto I)} {k j : Nat}
    {proto : FunctionProto I} {instr : I} (hproto : protos[k]? = some proto)
    (hinstr : proto.code[j]? = some instr) :
    (protos.flatMap (·.code))[totalCode (protos.take k) + j]? = some instr := by
  induction protos generalizing k with
  | nil => cases hproto
  | cons first protos ih =>
    cases k with
    | zero =>
      obtain rfl := Option.some.inj hproto
      have hj := (List.getElem?_eq_some_iff.mp hinstr).1
      rw [List.take_zero, totalCode, List.map_nil, List.sum_nil, Nat.zero_add, List.flatMap_cons,
        List.getElem?_append_left hj, hinstr]
    | succ k =>
      have hskip : totalCode ((first :: protos).take (k + 1)) + j =
          first.code.length + (totalCode (protos.take k) + j) := by
        rw [List.take_succ_cons, totalCode, List.map_cons, List.sum_cons, Nat.add_assoc]
        rfl
      rw [hskip, List.flatMap_cons, List.getElem?_append_right (Nat.le_add_right _ _),
        Nat.add_sub_cancel_left]
      exact ih hproto

variable [InstructionSet I]

theorem cutAt_offsetsFrom {slots rest : List (UInt8 × Int64)} {start : Nat}
    {protos : List (FunctionProto I)}
    (hslots : slots.drop start = (protos.flatMap (·.code)).map instructionSlot ++ rest) :
    cutAt slots (start + totalCode protos) (offsetsFrom start protos) =
      protos.map fun proto => proto.code.map instructionSlot := by
  induction protos generalizing start with
  | nil => rfl
  | cons proto protos ih =>
    have hstop : start + totalCode (proto :: protos) =
        start + proto.code.length + totalCode protos := by
      rw [totalCode, List.map_cons, List.sum_cons, Nat.add_assoc]
      rfl
    rw [List.flatMap_cons, List.map_append, List.append_assoc] at hslots
    have hlen : (proto.code.map instructionSlot).length = proto.code.length := List.length_map _
    have hrest : slots.drop (start + proto.code.length) =
        (protos.flatMap (·.code)).map instructionSlot ++ rest := by
      rw [← List.drop_drop, hslots, List.drop_left' hlen]
    rw [hstop, offsetsFrom, cutAt, headD_offsetsFrom, Nat.add_sub_cancel_left, hslots,
      List.take_left' hlen, ih hrest, List.map_cons]

/-! The slots. -/

theorem getElem?_fill {xs : List α} {x : α} (n : Nat) (blank : α) {i : Nat} (hi : i < n)
    (h : xs[i]? = some x) : (fill n blank xs)[i]? = some x := by
  rw [Vector.getElem?_eq_getElem hi, getElem_fill, List.getD_eq_getElem?_getD, h]
  rfl

/-- Every instruction has its slot, and nothing else is written. -/
structure LaysOut (program : CompiledProgram I) (bytecode : NoirBytecode) : Prop where
  instrCount : bytecode.instrCount = totalCode program.prototypes
  instrCount_le : bytecode.instrCount ≤ maxBytecode
  prototypes : bytecode.prototypeOffsets.length = program.prototypes.length
  offset : ∀ k < program.prototypes.length,
    bytecode.prototypeOffsets[k]? = some (totalCode (program.prototypes.take k))
  slot : ∀ k proto j instr, program.prototypes[k]? = some proto → proto.code[j]? = some instr →
    totalCode (program.prototypes.take k) + j < bytecode.instrCount ∧
    bytecode.opcodes[totalCode (program.prototypes.take k) + j]? =
      some (instructionToOpcodeId instr) ∧
    bytecode.operands[totalCode (program.prototypes.take k) + j]? =
      some (instructionToOperand instr)
  padding : ∀ i (_ : i < maxBytecode), bytecode.instrCount ≤ i →
    bytecode.opcodes[i] = 0 ∧ bytecode.operands[i] = 0
  recovers : bytecode.prototypeSlots =
    program.prototypes.map fun proto => proto.code.map instructionSlot

theorem laysOut_layout {program : CompiledProgram I}
    (hfits : program.instructions.length ≤ maxBytecode) : LaysOut program (layout program) where
  instrCount := (totalCode_eq program.prototypes).symm
  instrCount_le := hfits
  prototypes := length_offsetsFrom 0 program.prototypes
  offset := by
    intro k hk
    have hoffset := getElem?_offsetsFrom 0 hk
    rwa [Nat.zero_add] at hoffset
  slot := by
    intro k proto j instr hproto hinstr
    have hinstr := getElem?_flatMap_code hproto hinstr
    have hlt := (List.getElem?_eq_some_iff.mp hinstr).1
    refine ⟨hlt, ?_, ?_⟩
    · apply getElem?_fill _ _ (hlt.trans_le hfits)
      rw [List.getElem?_map, CompiledProgram.instructions, hinstr]
      rfl
    · apply getElem?_fill _ _ (hlt.trans_le hfits)
      rw [List.getElem?_map, CompiledProgram.instructions, hinstr]
      rfl
  padding := by
    intro i hi hbehind
    have hout : program.instructions[i]? = none := List.getElem?_eq_none hbehind
    simp only [layout, getElem_fill, List.getD_eq_getElem?_getD, List.getElem?_map, hout]
    exact ⟨rfl, rfl⟩
  recovers := by
    let slots := (layout program).opcodes.toList.zip (layout program).operands.toList
    have hslots : slots.drop 0 = (program.prototypes.flatMap (·.code)).map instructionSlot ++
        slots.drop program.instructions.length := by
      rw [List.drop_zero, ← CompiledProgram.instructions, ← take_layout hfits]
      exact (List.take_append_drop _ _).symm
    have hcut := cutAt_offsetsFrom hslots
    rw [totalCode_eq, Nat.zero_add] at hcut
    exact hcut

/-- A program is refused exactly when it has too many instructions, and never for another
reason: no index leaves the arrays. Otherwise every instruction is in the slot its
prototype's offset says, and the prototypes can be read back. -/
theorem encodeProgram_lays_out (program : CompiledProgram I) :
    ((∃ count, encodeProgram program = .error (.failed (.tooLong count))) ↔
      maxBytecode < totalCode program.prototypes) ∧
    (∀ fault, encodeProgram program = .error fault →
      fault = .failed (.tooLong (totalCode program.prototypes))) ∧
    ∀ bytecode, encodeProgram program = .ok bytecode → LaysOut program bytecode := by
  have htotal : totalCode program.prototypes = program.instructions.length :=
    totalCode_eq program.prototypes
  rw [encodeProgram_eq, htotal]
  refine ⟨?_, ?_, ?_⟩
  · split_ifs with hlong
    · exact iff_of_true ⟨_, rfl⟩ hlong
    · simp [hlong]
  · intro fault h
    split_ifs at h
    cases h
    rfl
  · intro bytecode h
    split_ifs at h with hlong
    cases h
    exact laysOut_layout (Nat.le_of_not_lt hlong)

end ProvenoZk.Noir
