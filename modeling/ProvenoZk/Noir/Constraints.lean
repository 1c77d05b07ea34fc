import ProvenoZk.Noir.Circuit
import ProvenoZk.Noir.Machine

/-! `main` read as a conjunction: what each part of the circuit asserts, and what
an assignment satisfies when it satisfies them all. -/
namespace ProvenoZk.Noir
open Foundation Proveno

@[simp] theorem assert_eq_some {p : Prop} [Decidable p] {u : Unit} : assert p = some u ↔ p := by
  simp [assert]

theorem toInt_u32AsI64 (pc : UInt32) : pc.toUInt64.toInt64.toInt = pc.toNat := by
  have hpc := pc.toNat_lt
  change pc.toUInt64.toBitVec.toInt = _
  rw [BitVec.toInt_eq_toNat_of_lt]
  · simp
  · simp only [UInt32.toBitVec_toUInt64, BitVec.toNat_setWidth, UInt32.toNat_toBitVec]
    omega

theorem i64AsU32_eq (target : Int64) : target.toUInt64.toUInt32 = UInt32.ofInt target.toInt := by
  have hlt := target.toUInt64.toNat_lt
  have hcond : target.toInt = if 2 * target.toUInt64.toNat < 2 ^ 64 then
      (target.toUInt64.toNat : Int) else target.toUInt64.toNat - (2 ^ 64 : Nat) :=
    BitVec.toInt_eq_toNat_cond _
  apply UInt32.toNat_inj.mp
  rw [UInt64.toNat_toUInt32, UInt32.ofInt, UInt32.toNat_ofNat']
  split_ifs at hcond <;> omega

theorem toInt_add_of_fits {a b : Int64} (hlow : -2 ^ 63 ≤ a.toInt + b.toInt)
    (hhigh : a.toInt + b.toInt < 2 ^ 63) : (a + b).toInt = a.toInt + b.toInt := by
  rw [Int64.toInt_add]
  exact Int.bmod_eq_of_le (by omega) (by omega)

theorem jmpTarget_eq_some {row : TraceStep} {target : UInt32} :
    jmpTarget row.pc row.operand = some target ↔
      TargetFits row ∧ target = jumpTarget row.pc row.operand := by
  have hpc := row.pc.toNat_lt
  have hlow := row.operand.le_toInt
  have hone : (1 : Int64).toInt = 1 := rfl
  have hfollowing : (row.pc.toUInt64.toInt64 + 1).toInt = row.pc.toNat + 1 := by
    rw [toInt_add_of_fits, toInt_u32AsI64, hone] <;> rw [toInt_u32AsI64, hone] <;> omega
  have hfirst : addI64 row.pc.toUInt64.toInt64 1 = some (row.pc.toUInt64.toInt64 + 1) := by
    unfold addI64
    rw [toInt_u32AsI64, hone, if_pos (by omega)]
  unfold jmpTarget
  rw [hfirst, Option.bind_eq_bind, Option.bind_some, addI64, hfollowing]
  by_cases hfits : TargetFits row
  · have hsum := toInt_add_of_fits (a := row.pc.toUInt64.toInt64 + 1) (b := row.operand)
      (by omega) (by rw [hfollowing]; exact hfits)
    rw [if_pos ⟨by omega, hfits⟩, Option.bind_some, i64AsU32_eq, hsum,
      hfollowing]
    simp [hfits, jumpTarget, eq_comm]
  · rw [if_neg fun h => hfits h.2]
    simp [hfits]

theorem expectedNextPc_eq {row : TraceStep} (hpc : row.pc.toNat < 512) (target : UInt32) :
    expectedNextPc row target = some (
      match transfer row.opcode with
      | .jump => target
      | .jumpIfZero => if row.stackTop = 0 then target else row.pc + 1
      | .jumpUnlessZero => if row.stackTop = 0 then row.pc + 1 else target
      | _ => row.pc + 1) := by
  have hnext : addU32 row.pc 1 = some (row.pc + 1) := by
    have hone : (1 : UInt32).toNat = 1 := rfl
    rw [addU32, if_pos (by omega)]
  unfold expectedNextPc transfer
  rw [hnext]
  by_cases hjump : row.opcode = 33
  · simp [hjump]
  by_cases hunless : row.opcode = 30 ∨ row.opcode = 34
  · obtain h | h := hunless <;> by_cases htop : row.stackTop = 0 <;> simp [h, htop]
  by_cases hif : row.opcode = 29 ∨ row.opcode = 35 ∨ row.opcode = 43 ∨ row.opcode = 44 ∨
      row.opcode = 45
  · obtain h | h | h | h | h := hif <;> by_cases htop : row.stackTop = 0 <;> simp [h, htop]
  · simp only [not_or] at hunless hif
    rw [if_neg hjump, if_neg (by tauto), if_neg (by tauto)]
    split_ifs <;> simp_all

theorem isUnconstrained_iff (opcode : UInt8) :
    isUnconstrained opcode ↔ transfer opcode = .free := by
  unfold isUnconstrained transfer
  grind

theorem assertNextPc_eq_some {row : TraceStep} (hpc : row.pc.toNat < 512) :
    NoirWitness.assertNextPc row = some () ↔ TargetFits row ∧ row.nextPc = successor row := by
  have hexpected := expectedNextPc_eq hpc
  unfold NoirWitness.assertNextPc successor
  simp only [Option.bind_eq_bind, Option.bind_eq_some_iff, jmpTarget_eq_some, hexpected,
    isUnconstrained_iff]
  cases htransfer : transfer row.opcode <;> simp

namespace NoirWitness

def code (w : NoirWitness) : Code := ⟨w.bytecodeOpcodes, w.bytecodeOperands⟩

def rows (w : NoirWitness) : Vector TraceStep maxSteps :=
  Vector.ofFn fun i =>
    { pc := w.tracePcs[i], opcode := w.traceOpcodes[i], operand := w.traceOperands[i],
      stackTop := w.traceStackTops[i], nextPc := w.traceNextPcs[i] }

def liveRows (w : NoirWitness) : List TraceStep :=
  w.rows.toList.take w.numSteps.toNat

variable (w : NoirWitness)

theorem traceRow_eq {i : Nat} (hi : i < maxSteps) : w.traceRow i = some w.rows[i] := by
  unfold traceRow rows
  simp [hi]

theorem assertInstruction_eq_some {row : TraceStep} :
    w.assertInstruction row = some () ↔ w.code.opcodes[row.pc.toNat]? = some row.opcode ∧
      w.code.operands[row.pc.toNat]? = some row.operand ∧ row.opcode ≤ 45 := by
  unfold assertInstruction code
  simp only [Option.bind_eq_bind, Option.bind_eq_some_iff, assert_eq_some, exists_const]
  constructor
  · rintro ⟨opcode, hopcode, rfl, operand, hoperand, rfl, hknown⟩
    exact ⟨hopcode, hoperand, hknown⟩
  · rintro ⟨hopcode, hoperand, hknown⟩
    exact ⟨_, hopcode, rfl, _, hoperand, rfl, hknown⟩

theorem assertContinuity_eq_some {i : Nat} (hi : i < maxSteps) :
    w.assertContinuity i = some () ↔
      (i + 1 < w.numSteps.toNat → ∃ hnext : i + 1 < maxSteps,
        w.rows[i + 1].pc = w.rows[i].nextPc) := by
  unfold assertContinuity rows
  split_ifs with hlive
  · by_cases hnext : i + 1 < maxSteps
    · simp [hlive, hi, hnext]
    · simp [hlive, hnext]
  · simp [hlive]

theorem assertReturn_eq_some {i : Nat} {row : TraceStep} :
    w.assertReturn i row = some () ↔
      (i + 1 = w.numSteps.toNat → row.opcode = 37 → row.stackTop = w.returnValue) := by
  unfold assertReturn
  split_ifs with h
  · simp [h]
  · simp only [Option.pure_def, true_iff]
    exact fun hlast hret => absurd ⟨hlast, hret⟩ h

/-- The constraints of `main` on the trace: where it starts, each live step, and
each live step's successor. -/
structure TraceConstraints : Prop where
  start : w.assertStart = some ()
  step : ∀ i < maxSteps, i < w.numSteps.toNat → ∃ row, w.traceRow i = some row ∧
    w.assertInstruction row = some () ∧ assertNextPc row = some ()
  continuity : ∀ i < maxSteps, i < w.numSteps.toNat → w.assertContinuity i = some ()

def toolCalls (rows : List TraceStep) : Nat :=
  rows.countP fun row => row.opcode = 39

theorem toolCalls_le (rows : List TraceStep) : toolCalls rows ≤ rows.length :=
  List.countP_le_length

theorem length_liveRows_le : w.liveRows.length ≤ maxSteps := by
  simp [liveRows]

theorem take_liveRows_succ {i : Nat} (hi : i < maxSteps) (hlive : i < w.numSteps.toNat) :
    w.liveRows.take (i + 1) = w.liveRows.take i ++ [w.rows[i]] := by
  unfold liveRows
  rw [List.take_take, List.take_take, Nat.min_eq_left (by omega), Nat.min_eq_left (by omega),
    List.take_succ_eq_append_getElem (by simpa using hi)]
  simp

theorem take_liveRows_of_le {i : Nat} (hlive : w.numSteps.toNat ≤ i) :
    w.liveRows.take i = w.liveRows :=
  List.take_of_length_le (by simp [liveRows]; omega)

theorem countToolCall_eq (rows : List TraceStep) (hlen : rows.length < 2 ^ 32 - 1) (row : TraceStep) :
    countToolCall row (.ofNat (toolCalls rows)) = some (.ofNat (toolCalls (rows ++ [row]))) := by
  have hle := toolCalls_le rows
  have hcount : (UInt32.ofNat (toolCalls rows)).toNat = toolCalls rows := by
    rw [UInt32.toNat_ofNat']
    omega
  have hone : (1 : UInt32).toNat = 1 := rfl
  unfold countToolCall toolCalls
  rw [List.countP_append]
  split_ifs with h
  · rw [addU32, if_pos (by unfold toolCalls at hcount hle; omega)]
    simp [h, UInt32.ofNat_add]
  · simp [h]

/-- What iteration `i` of the step loop asserts. -/
def StepHolds (i : Nat) : Prop :=
  i < w.numSteps.toNat → ∃ row, w.traceRow i = some row ∧ w.assertInstruction row = some () ∧
    assertNextPc row = some () ∧ w.assertContinuity i = some () ∧ w.assertReturn i row = some ()

theorem step_eq_some {i : Nat} (hi : i < maxSteps) (next : UInt32) :
    w.step i (.ofNat (toolCalls (w.liveRows.take i))) = some next ↔
      w.StepHolds i ∧ next = .ofNat (toolCalls (w.liveRows.take (i + 1))) := by
  unfold step StepHolds
  by_cases hlive : i < w.numSteps.toNat
  · have hlen : (w.liveRows.take i).length < 2 ^ 32 - 1 := by
      rw [List.length_take]
      have : maxSteps = 2048 := rfl
      omega
    rw [if_pos hlive, w.take_liveRows_succ hi hlive, w.traceRow_eq hi]
    simp only [Option.bind_eq_bind, Option.bind_eq_some_iff, Option.some_inj, exists_eq_left',
      countToolCall_eq _ hlen, hlive, true_imp_iff]
    constructor
    · rintro ⟨_, hinstruction, _, hnext, _, hcontinuity, _, hreturn, rfl⟩
      exact ⟨⟨hinstruction, hnext, hcontinuity, hreturn⟩, rfl⟩
    · rintro ⟨⟨hinstruction, hnext, hcontinuity, hreturn⟩, rfl⟩
      exact ⟨(), hinstruction, (), hnext, (), hcontinuity, (), hreturn, rfl⟩
  · rw [if_neg hlive, w.take_liveRows_of_le (by omega), w.take_liveRows_of_le (by omega)]
    simp [hlive, eq_comm]

theorem stepLoop_eq_some {count : UInt32} :
    forRange maxSteps w.step 0 = some count ↔
      (∀ i < maxSteps, w.StepHolds i) ∧ count = .ofNat (toolCalls w.liveRows) := by
  have hloop := forRange_eq_some_iff (fun i hi => w.step_eq_some (i := i) hi) count
  rw [List.take_zero, List.take_of_length_le w.length_liveRows_le] at hloop
  exact hloop

theorem mem_liveRows {row : TraceStep} :
    row ∈ w.liveRows ↔ ∃ i, ∃ hi : i < maxSteps, i < w.numSteps.toNat ∧ w.rows[i] = row := by
  unfold liveRows
  rw [List.mem_take_iff_getElem]
  simp only [Vector.length_toList, Vector.getElem_toList, lt_min_iff]
  constructor
  · rintro ⟨i, ⟨hlive, hi⟩, h⟩
    exact ⟨i, hi, hlive, h⟩
  · rintro ⟨i, hi, hlive, h⟩
    exact ⟨i, ⟨hlive, hi⟩, h⟩

theorem length_liveRows (hsteps : w.numSteps.toNat ≤ maxSteps) :
    w.liveRows.length = w.numSteps.toNat := by
  simpa [liveRows] using hsteps

theorem getElem_liveRows {i : Nat} (hi : i < w.liveRows.length) (hmax : i < maxSteps) :
    w.liveRows[i] = w.rows[i] := by
  simp [liveRows]

theorem pc_of_head?_liveRows {row : TraceStep} (hrow : row ∈ w.liveRows.head?) :
    row.pc = w.tracePcs[0] := by
  rw [List.head?_eq_getElem?, Option.mem_def, List.getElem?_eq_some_iff] at hrow
  obtain ⟨hi, rfl⟩ := hrow
  rw [w.getElem_liveRows hi (by decide)]
  simp [rows]

theorem getLast?_liveRows (hsteps : w.numSteps.toNat ≤ maxSteps) {row : TraceStep} :
    row ∈ w.liveRows.getLast? ↔
      ∃ i, ∃ hi : i < maxSteps, i + 1 = w.numSteps.toNat ∧ w.rows[i] = row := by
  have hlen := w.length_liveRows hsteps
  rw [List.getLast?_eq_getElem?, hlen, Option.mem_def, List.getElem?_eq_some_iff]
  constructor
  · rintro ⟨hi, h⟩
    rw [w.getElem_liveRows _ (by omega)] at h
    exact ⟨_, by omega, by omega, h⟩
  · rintro ⟨i, hi, hlast, h⟩
    obtain rfl : i = w.numSteps.toNat - 1 := by omega
    refine ⟨by omega, ?_⟩
    rwa [w.getElem_liveRows _ hi]

theorem assertRow_iff {row : TraceStep} :
    w.assertInstruction row = some () ∧ assertNextPc row = some () ↔
      w.code.Admits row ∧ TargetFits row := by
  rw [assertInstruction_eq_some]
  constructor
  · rintro ⟨⟨hopcode, hoperand, hknown⟩, hnext⟩
    have hpc := (Vector.getElem?_eq_some_iff.mp hopcode).1
    obtain ⟨hfits, hpasses⟩ := (assertNextPc_eq_some hpc).mp hnext
    exact ⟨⟨hopcode, hoperand, hknown, hpasses⟩, hfits⟩
  · rintro ⟨hadmits, hfits⟩
    have hpc := (Vector.getElem?_eq_some_iff.mp hadmits.opcode).1
    exact ⟨⟨hadmits.opcode, hadmits.operand, hadmits.known⟩,
      (assertNextPc_eq_some hpc).mpr ⟨hfits, hadmits.passes⟩⟩

theorem step_iff {i : Nat} (hi : i < maxSteps) :
    (∃ row, w.traceRow i = some row ∧ w.assertInstruction row = some () ∧
      assertNextPc row = some ()) ↔ w.code.Admits w.rows[i] ∧ TargetFits w.rows[i] := by
  rw [w.traceRow_eq hi, ← assertRow_iff]
  simp only [Option.some_inj, exists_eq_left']

theorem start_iff : w.assertStart = some () ↔ w.tracePcs[0] = 0 := by
  simp [assertStart]

/-- The last of the 2048 iterations reads behind the arrays if it is not the last
live step, so `num_steps` is bounded without being compared with `MAX_STEPS`. -/
theorem TraceConstraints.numSteps_le {w : NoirWitness} (h : w.TraceConstraints) :
    w.numSteps.toNat ≤ maxSteps := by
  by_contra hgt
  have hlive : 2047 + 1 < w.numSteps.toNat := Nat.lt_of_not_le hgt
  have hlast := h.continuity 2047 (by decide) (Nat.lt_of_succ_lt hlive)
  obtain ⟨hnext, -⟩ := (w.assertContinuity_eq_some (by decide)).mp hlast hlive
  exact absurd hnext (by decide)

theorem TraceConstraints.row {w : NoirWitness} (h : w.TraceConstraints) {i : Nat}
    (hi : i < maxSteps) (hlive : i < w.numSteps.toNat) :
    w.code.Admits w.rows[i] ∧ TargetFits w.rows[i] :=
  (w.step_iff hi).mp (h.step i hi hlive)

theorem TraceConstraints.link {w : NoirWitness} (h : w.TraceConstraints) {i : Nat}
    (hi : i + 1 < maxSteps) (hlive : i + 1 < w.numSteps.toNat) :
    w.rows[i + 1].pc = w.rows[i].nextPc := by
  have hcontinuity := h.continuity i (by omega) (by omega)
  exact ((w.assertContinuity_eq_some (by omega)).mp hcontinuity hlive).2

theorem traceConstraints_iff :
    w.TraceConstraints ↔ w.numSteps.toNat ≤ maxSteps ∧ w.tracePcs[0] = 0 ∧
      (∃ pc, Run w.code.Step 0 w.liveRows pc) ∧ ∀ row ∈ w.liveRows, TargetFits row := by
  rw [Code.exists_run_iff]
  constructor
  · intro h
    have hsteps := h.numSteps_le
    have hstart := w.start_iff.mp h.start
    refine ⟨hsteps, hstart, ⟨?_, ?_, ?_⟩, ?_⟩
    · intro row hrow
      rw [w.pc_of_head?_liveRows hrow, hstart]
    · intro row hmem
      obtain ⟨i, hi, hlive, rfl⟩ := w.mem_liveRows.mp hmem
      exact (h.row hi hlive).1
    · intro i hi
      rw [w.length_liveRows hsteps] at hi
      rw [w.getElem_liveRows _ (by omega), w.getElem_liveRows _ (by omega)]
      exact h.link (by omega) hi
    · intro row hmem
      obtain ⟨i, hi, hlive, rfl⟩ := w.mem_liveRows.mp hmem
      exact (h.row hi hlive).2
  · rintro ⟨hsteps, hstart, ⟨-, hadmits, hlinks⟩, hfits⟩
    refine ⟨w.start_iff.mpr hstart, ?_, ?_⟩
    · intro i hi hlive
      have hmem := w.mem_liveRows.mpr ⟨i, hi, hlive, rfl⟩
      exact (w.step_iff hi).mpr ⟨hadmits _ hmem, hfits _ hmem⟩
    · intro i hi hlive
      refine (w.assertContinuity_eq_some hi).mpr fun hmore => ⟨by omega, ?_⟩
      have hlink := hlinks i (by rw [w.length_liveRows hsteps]; exact hmore)
      rwa [w.getElem_liveRows _ (by omega), w.getElem_liveRows _ hi] at hlink

theorem stepLoop_iff (hstart : w.assertStart = some ()) :
    (∀ i < maxSteps, w.StepHolds i) ↔ w.TraceConstraints ∧
      ∀ row ∈ w.liveRows.getLast?, row.opcode = 37 → row.stackTop = w.returnValue := by
  unfold StepHolds
  constructor
  · intro h
    have htrace : w.TraceConstraints :=
      { start := hstart
        step := by
          intro i hi hlive
          obtain ⟨row, hrow, hinstruction, hnext, -⟩ := h i hi hlive
          exact ⟨row, hrow, hinstruction, hnext⟩
        continuity := by
          intro i hi hlive
          obtain ⟨row, -, -, -, hcontinuity, -⟩ := h i hi hlive
          exact hcontinuity }
    refine ⟨htrace, ?_⟩
    intro row hlast hret
    obtain ⟨i, hi, hend, rfl⟩ := (w.getLast?_liveRows htrace.numSteps_le).mp hlast
    obtain ⟨row, hrow, -, -, -, hreturn⟩ := h i hi (by omega)
    rw [w.traceRow_eq hi, Option.some_inj] at hrow
    subst hrow
    exact w.assertReturn_eq_some.mp hreturn hend hret
  · rintro ⟨htrace, hreturn⟩ i hi hlive
    obtain ⟨row, hrow, hinstruction, hnext⟩ := htrace.step i hi hlive
    refine ⟨row, hrow, hinstruction, hnext, htrace.continuity i hi hlive, ?_⟩
    rw [w.traceRow_eq hi, Option.some_inj] at hrow
    refine w.assertReturn_eq_some.mpr fun hend => ?_
    exact hreturn row ((w.getLast?_liveRows htrace.numSteps_le).mpr ⟨i, hi, hend, hrow⟩)

def leafAt (H : Hashes) (i : Nat) (hi : i < maxToolCalls) : Fr :=
  H.hash (entryFields w.tapeEntryTags[i] w.tapeEntryLengths[i] w.tapeEntryData[i])
    (w.tapeEntryLengths[i] + 2)

def leaves (H : Hashes) : Vector Fr maxToolCalls :=
  Vector.ofFn fun i => w.leafAt H i i.isLt

theorem getElem_leaves (H : Hashes) {i : Nat} (hi : i < maxToolCalls) :
    (w.leaves H)[i] = w.leafAt H i hi := by
  simp [leaves]

theorem getElem_boundLeaves (H : Hashes) (leaves : Vector Fr maxToolCalls) {i : Nat}
    (hi : i < maxToolCalls) : (w.boundLeaves H leaves)[i] =
      H.hash [leaves[i], beBytes32ToField w.tapeAttestationLeaves[i]] 2 := by
  simp [boundLeaves]

def LengthsFit : Prop :=
  ∀ i (hi : i < maxToolCalls), w.tapeEntryLengths[i].toNat + 2 < 2 ^ 32

theorem respLeaf_eq (H : Hashes) {i : Nat} (hi : i < maxToolCalls) :
    w.respLeaf H i =
      if w.tapeEntryLengths[i].toNat + 2 < 2 ^ 32 then some (w.leafAt H i hi) else none := by
  have htwo : (2 : UInt32).toNat = 2 := rfl
  unfold respLeaf leafAt addU32
  rw [Vector.getElem?_eq_getElem hi, Vector.getElem?_eq_getElem hi, Vector.getElem?_eq_getElem hi,
    htwo]
  simp only [Option.bind_eq_bind, Option.bind_some]
  split_ifs <;> rfl

def leavesBefore (H : Hashes) (i : Nat) : Vector Fr maxToolCalls :=
  Vector.ofFn fun j => if j.val < i then w.leafAt H j j.isLt else 0

theorem leavesBefore_zero (H : Hashes) : w.leavesBefore H 0 = Vector.replicate _ 0 := by
  ext j hj
  simp [leavesBefore]

theorem leavesBefore_maxToolCalls (H : Hashes) : w.leavesBefore H maxToolCalls = w.leaves H := by
  ext j hj
  simp [leavesBefore, getElem_leaves]

theorem setIfInBounds_leavesBefore (H : Hashes) {i : Nat} (hi : i < maxToolCalls) :
    (w.leavesBefore H i).setIfInBounds i (w.leafAt H i hi) = w.leavesBefore H (i + 1) := by
  ext j hj
  simp only [leavesBefore, Vector.getElem_setIfInBounds, Vector.getElem_ofFn]
  by_cases hij : i = j
  · simp [hij]
  · simp only [hij, if_false]
    congr 1
    rw [eq_iff_iff]
    omega

theorem storeRespLeaf_eq_some (H : Hashes) {i : Nat} (hi : i < maxToolCalls)
    (next : Vector Fr maxToolCalls) :
    w.storeRespLeaf H i (w.leavesBefore H i) = some next ↔
      (∀ hi : i < maxToolCalls, w.tapeEntryLengths[i].toNat + 2 < 2 ^ 32) ∧
        next = w.leavesBefore H (i + 1) := by
  rw [storeRespLeaf, w.respLeaf_eq H hi]
  split_ifs with hfits
  · change some ((w.leavesBefore H i).setIfInBounds i (w.leafAt H i hi)) = some next ↔ _
    rw [setIfInBounds_leavesBefore, Option.some_inj, eq_comm]
    exact ⟨fun h => ⟨fun _ => hfits, h⟩, And.right⟩
  · constructor
    · intro h
      cases h
    · intro h
      exact absurd (h.1 hi) hfits

theorem respLeaves_eq_some (H : Hashes) {leaves : Vector Fr maxToolCalls} :
    w.respLeaves H = some leaves ↔ w.LengthsFit ∧ leaves = w.leaves H := by
  have hloop := forRange_eq_some_iff (fun i hi => w.storeRespLeaf_eq_some H (i := i) hi) leaves
  rw [leavesBefore_zero, leavesBefore_maxToolCalls] at hloop
  unfold respLeaves LengthsFit
  rw [hloop]
  exact and_congr_left' ⟨fun h i hi => h i hi hi, fun h i hi _ => h i hi⟩

theorem assertTape_eq_some (H : Hashes) :
    w.assertTape H = some () ↔ w.LengthsFit ∧
      H.hash (w.leaves H).toList w.numToolCalls = beBytes32ToField w.toolResponsesHash ∧
      H.hash (w.boundLeaves H (w.leaves H)).toList w.numToolCalls =
        beBytes32ToField w.attestationHash := by
  unfold assertTape
  simp only [Option.bind_eq_bind, Option.bind_eq_some_iff, assert_eq_some, exists_const,
    respLeaves_eq_some, and_assoc, exists_and_left, exists_eq_left]

def programMessage : Nat × List Fr :=
  (w.instrCount.toNat * 2,
    (bytecodeFields w.bytecodeOpcodes w.bytecodeOperands).take (w.instrCount.toNat * 2))

theorem assertBytecode_eq_some (H : Hashes) :
    assertBytecode H w.bytecodeOpcodes w.bytecodeOperands w.instrCount w.programHash = some () ↔
      w.instrCount.toNat * 2 < 2 ^ 32 ∧
      H.digest w.programMessage = beBytes32ToField w.programHash := by
  have htwo : (2 : UInt32).toNat = 2 := rfl
  unfold assertBytecode mulU32
  rw [htwo]
  by_cases hfits : w.instrCount.toNat * 2 < 2 ^ 32
  · have hsize : (w.instrCount * 2).toNat = w.instrCount.toNat * 2 := by
      rw [UInt32.toNat_mul, htwo, Nat.mod_eq_of_lt hfits]
    rw [if_pos hfits, Option.bind_eq_bind, Option.bind_some, assert_eq_some, Hashes.hash, hsize]
    exact ⟨fun h => ⟨hfits, h⟩, And.right⟩
  · rw [if_neg hfits]
    constructor
    · intro h
      cases h
    · intro h
      exact absurd h.1 hfits

structure Satisfies (H : Hashes) : Prop where
  bytecode : assertBytecode H w.bytecodeOpcodes w.bytecodeOperands w.instrCount w.programHash = some ()
  trace : w.TraceConstraints
  returned : ∀ row ∈ w.liveRows.getLast?, row.opcode = 37 → row.stackTop = w.returnValue
  toolCalls : w.numToolCalls = .ofNat (toolCalls w.liveRows)
  tape : w.assertTape H = some ()
  output : outputPayloadKeccak H w.returnValue = w.outputHash

theorem main_eq_some_iff (H : Hashes) : main H w = some () ↔ w.Satisfies H := by
  unfold main
  simp only [Option.bind_eq_bind, Option.bind_eq_some_iff, assert_eq_some, stepLoop_eq_some]
  constructor
  · rintro ⟨_, hbytecode, _, hstart, count, ⟨hsteps, rfl⟩, _, hcalls, _, htape, houtput⟩
    obtain ⟨htrace, hreturned⟩ := (w.stepLoop_iff hstart).mp hsteps
    exact ⟨hbytecode, htrace, hreturned, hcalls.symm, htape, houtput⟩
  · intro h
    exact ⟨(), h.bytecode, (), h.trace.start, _,
      ⟨(w.stepLoop_iff h.trace.start).mpr ⟨h.trace, h.returned⟩, rfl⟩,
      (), h.toolCalls.symm, (), h.tape, h.output⟩

end NoirWitness

end ProvenoZk.Noir
