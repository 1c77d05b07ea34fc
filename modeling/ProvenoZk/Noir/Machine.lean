import ProvenoZk.Foundation.Run
import ProvenoZk.Proveno.Vm

/-! The control-flow machine behind the circuit: a table of instructions, and
rows that execute one of them and pass control on. Values are not modelled
beyond the stack top a conditional jump looks at. -/
namespace ProvenoZk.Noir
open Foundation Proveno

/-- How an instruction passes control on. -/
inductive Transfer where
  | next
  | jump
  | jumpIfZero
  | jumpUnlessZero
  | free
  deriving DecidableEq

def transfer (opcode : UInt8) : Transfer :=
  if opcode = 33 then .jump
  else if opcode = 30 ∨ opcode = 34 then .jumpUnlessZero
  else if opcode = 29 ∨ opcode = 35 ∨ opcode = 43 ∨ opcode = 44 ∨ opcode = 45 then .jumpIfZero
  else if opcode = 36 ∨ opcode = 37 ∨ opcode = 38 ∨ opcode = 40 then .free
  else .next

def jumpTarget (pc : UInt32) (operand : Int64) : UInt32 :=
  UInt32.ofInt (pc.toNat + 1 + operand.toInt)

/-- Where a row passes control: a free instruction wherever the row says. -/
def successor (row : TraceStep) : UInt32 :=
  match transfer row.opcode with
  | .next => row.pc + 1
  | .jump => jumpTarget row.pc row.operand
  | .jumpIfZero => if row.stackTop = 0 then jumpTarget row.pc row.operand else row.pc + 1
  | .jumpUnlessZero => if row.stackTop = 0 then row.pc + 1 else jumpTarget row.pc row.operand
  | .free => row.nextPc

def TargetFits (row : TraceStep) : Prop :=
  row.pc.toNat + 1 + row.operand.toInt < 2 ^ 63

instance (row : TraceStep) : Decidable (TargetFits row) :=
  inferInstanceAs (Decidable (_ < _))

structure Code where
  opcodes : Vector UInt8 512
  operands : Vector Int64 512

namespace Code

structure Admits (code : Code) (row : TraceStep) : Prop where
  opcode : code.opcodes[row.pc.toNat]? = some row.opcode
  operand : code.operands[row.pc.toNat]? = some row.operand
  known : row.opcode ≤ 45
  passes : row.nextPc = successor row

def Step (code : Code) (pc : UInt32) (row : TraceStep) (next : UInt32) : Prop :=
  code.Admits row ∧ row.pc = pc ∧ row.nextPc = next

theorem exists_run_iff (code : Code) (start : UInt32) (rows : List TraceStep) :
    (∃ pc, Run code.Step start rows pc) ↔
      (∀ row ∈ rows.head?, row.pc = start) ∧ (∀ row ∈ rows, code.Admits row) ∧
      ∀ i (hi : i + 1 < rows.length), rows[i + 1].pc = rows[i].nextPc :=
  Run.exists_iff_getElem code.Admits TraceStep.pc TraceStep.nextPc (fun _ _ _ => Iff.rfl) start rows

def Executable (code : Code) (pc : UInt32) : Prop :=
  ∃ opcode operand, code.opcodes[pc.toNat]? = some opcode ∧
    code.operands[pc.toNat]? = some operand ∧ opcode ≤ 45 ∧
    pc.toNat + 1 + operand.toInt < 2 ^ 63

theorem Admits.executable {code : Code} {row : TraceStep} (hadmits : code.Admits row)
    (hfits : TargetFits row) : code.Executable row.pc :=
  ⟨row.opcode, row.operand, hadmits.opcode, hadmits.operand, hadmits.known, hfits⟩

theorem Executable.exists_row {code : Code} {pc : UInt32} (h : code.Executable pc) :
    ∃ row, code.Admits row ∧ TargetFits row ∧ row.pc = pc := by
  obtain ⟨opcode, operand, hopcode, hoperand, hknown, hfits⟩ := h
  let start : TraceStep := { pc, opcode, operand, stackTop := 0, nextPc := 0 }
  refine ⟨{ start with nextPc := successor start }, ⟨hopcode, hoperand, hknown, ?_⟩, hfits, rfl⟩
  simp only [successor, start]
  cases transfer opcode <;> rfl

/-- `pc` lies `n` steps behind the entry, on a path through slots of `within`. -/
inductive Reaches (code : Code) (within : UInt32 → Prop) : Nat → UInt32 → Prop where
  | entry : Reaches code within 0 0
  | step {n : Nat} {row : TraceStep} : Reaches code within n row.pc → within row.pc →
      code.Admits row → TargetFits row → Reaches code within (n + 1) row.nextPc

theorem Reaches.exists_run {code : Code} {within : UInt32 → Prop} {n : Nat} {pc : UInt32}
    (h : code.Reaches within n pc) :
    ∃ rows, rows.length = n ∧ Run code.Step 0 rows pc ∧ ∀ row ∈ rows, TargetFits row := by
  induction h with
  | entry => exact ⟨[], rfl, .done 0, by simp⟩
  | @step n row _ _ hadmits hfits ih =>
    obtain ⟨rows, hlen, hrun, hall⟩ := ih
    refine ⟨rows ++ [row], by simp [hlen], hrun.snoc ⟨hadmits, rfl, rfl⟩, ?_⟩
    intro other hother
    obtain hother | hother := List.mem_append.mp hother
    · exact hall other hother
    · rwa [List.mem_singleton.mp hother]

end Code

end ProvenoZk.Noir
