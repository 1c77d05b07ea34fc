import ProvenoZk.Noir.Constraints
import ProvenoZk.Noir.Witness

/-! The trace constraints of the circuit are the runs of the control-flow
machine, and the arrays the witness builder pads satisfy them. -/
namespace ProvenoZk.Noir
open Foundation Proveno Zkvm

variable {I : Type}

def Code.SmallOperands (code : Code) : Prop :=
  ∀ i (hi : i < 512), -2 ^ 31 ≤ code.operands[i].toInt ∧ code.operands[i].toInt < 2 ^ 31

theorem Code.Admits.targetFits {code : Code} (hsmall : code.SmallOperands) {row : TraceStep}
    (hadmits : code.Admits row) : TargetFits row := by
  obtain ⟨hpc, hoperand⟩ := Vector.getElem?_eq_some_iff.mp hadmits.operand
  have hrange := (hsmall _ hpc).2
  rw [hoperand] at hrange
  unfold TargetFits
  omega

namespace NoirWitness

@[simp] theorem code_writeTrace (w : NoirWitness) (steps : List TraceStep) :
    (w.writeTrace steps).code = w.code := rfl

theorem rows_writeTrace {w : NoirWitness} {steps : List TraceStep} {i : Nat} (hi : i < maxSteps)
    (hlive : i < steps.length) : (w.writeTrace steps).rows[i] = steps[i] := by
  simp [rows, writeTrace, hlive]

theorem liveRows_writeTrace (w : NoirWitness) {steps : List TraceStep}
    (hlen : steps.length ≤ maxSteps) : (w.writeTrace steps).liveRows = steps := by
  have hsteps : (w.writeTrace steps).numSteps.toNat = steps.length := by
    have hmax : maxSteps = 2048 := rfl
    change (UInt32.ofNat steps.length).toNat = _
    rw [UInt32.toNat_ofNat']
    omega
  have hlive := (w.writeTrace steps).length_liveRows (hsteps.trans_le hlen)
  apply List.ext_getElem
  · rw [hlive, hsteps]
  · intro i hi hi'
    rw [getElem_liveRows _ hi (by omega), rows_writeTrace _ hi']

theorem traceConstraints_writeTrace (w : NoirWitness) {steps : List TraceStep}
    (hlen : steps.length ≤ maxSteps) (hrun : ∃ pc, Run w.code.Step 0 steps pc)
    (hfits : ∀ row ∈ steps, TargetFits row) : (w.writeTrace steps).TraceConstraints := by
  have hlive := w.liveRows_writeTrace hlen
  rw [traceConstraints_iff, hlive, code_writeTrace]
  refine ⟨?_, ?_, hrun, hfits⟩
  · have hsteps : (w.writeTrace steps).numSteps.toNat = steps.length % 2 ^ 32 :=
      UInt32.toNat_ofNat'
    exact hsteps.trans_le ((Nat.mod_le _ _).trans hlen)
  · have hhead := ((w.code.exists_run_iff 0 steps).mp hrun).1
    cases steps with
    | nil => simp [writeTrace]
    | cons row steps => simpa [writeTrace] using hhead row rfl

end NoirWitness

theorem NoirWitness.liveRows_congr {v w : NoirWitness} (hsteps : v.numSteps = w.numSteps)
    (hrows : ∀ i (_ : i < maxSteps), i < w.numSteps.toNat → v.rows[i] = w.rows[i]) :
    v.liveRows = w.liveRows := by
  apply List.ext_getElem
  · simp [liveRows, hsteps]
  · intro i hi hi'
    have hmax := hi'.trans_le w.length_liveRows_le
    rw [v.getElem_liveRows hi hmax, w.getElem_liveRows hi' hmax]
    refine hrows i hmax ?_
    simp only [liveRows, List.length_take] at hi'
    omega

theorem NoirWitness.traceConstraints_iff_run {w : NoirWitness}
    (hsmall : w.code.SmallOperands) :
    w.TraceConstraints ↔ w.numSteps.toNat ≤ maxSteps ∧ w.tracePcs[0] = 0 ∧
      ∃ pc, Run w.code.Step 0 w.liveRows pc := by
  rw [w.traceConstraints_iff]
  constructor
  · rintro ⟨hsteps, hstart, hrun, -⟩
    exact ⟨hsteps, hstart, hrun⟩
  · rintro ⟨hsteps, hstart, hrun⟩
    have hadmits := ((w.code.exists_run_iff 0 w.liveRows).mp hrun).2.1
    exact ⟨hsteps, hstart, hrun, fun row hrow => (hadmits row hrow).targetFits hsmall⟩

/-- Over a table of small operands the trace constraints are the machine's runs
from the entry, rows behind `num_steps` play no part, and every run the arrays
can hold is proved by the witness built for it. -/
theorem traceConstraints_refine_machine (code : Code) (hsmall : code.SmallOperands) :
    (∀ w : NoirWitness, w.code = code →
      (w.TraceConstraints ↔ w.numSteps.toNat ≤ maxSteps ∧ w.tracePcs[0] = 0 ∧
        ∃ pc, Run code.Step 0 w.liveRows pc)) ∧
    (∀ v w : NoirWitness, v.code = code → w.code = code → v.numSteps = w.numSteps →
      v.tracePcs[0] = w.tracePcs[0] →
      (∀ i (_ : i < maxSteps), i < w.numSteps.toNat → v.rows[i] = w.rows[i]) →
      (v.TraceConstraints ↔ w.TraceConstraints)) ∧
    ∀ (I : Type) (core : Core I) H attestationLeaf bytecode trace returnValue tape input output
        policyHash, bytecode.code = code → trace.length ≤ maxSteps → (∃ pc, Run code.Step 0 trace pc) →
      ∃ w, buildWitness core H attestationLeaf bytecode trace returnValue tape input output
          policyHash = .ok w ∧ w.liveRows = trace ∧ w.TraceConstraints := by
  refine ⟨?_, ?_, ?_⟩
  · rintro w rfl
    exact NoirWitness.traceConstraints_iff_run hsmall
  · rintro v w hcode rfl hsteps hstart hrows
    have hiff := NoirWitness.traceConstraints_iff_run (w := v) (by rwa [hcode])
    rw [hiff, NoirWitness.traceConstraints_iff_run hsmall, hcode, hsteps, hstart,
      NoirWitness.liveRows_congr hsteps hrows]
  · rintro I core H attestationLeaf bytecode trace returnValue tape input output policyHash rfl
      hlen hrun
    have hadmits := ((bytecode.code.exists_run_iff 0 trace).mp hrun).2.1
    have hlive := (NoirWitness.zeroed.writeBytecode bytecode).liveRows_writeTrace hlen
    have htrace := (NoirWitness.zeroed.writeBytecode bytecode).traceConstraints_writeTrace hlen
      hrun fun row hrow => (hadmits row hrow).targetFits hsmall
    rw [buildWitness, if_neg (Nat.not_lt.mpr hlen)]
    exact ⟨_, rfl, hlive, ⟨htrace.start, htrace.step, htrace.continuity⟩⟩

def spin : NoirBytecode where
  opcodes := fill _ 0 [33]
  operands := fill _ 0 [-1]
  programHash := .replicate _ 0
  instrCount := 1
  prototypeOffsets := [0]

def spinRow : TraceStep := { pc := 0, opcode := 33, operand := -1, stackTop := 0, nextPc := 0 }

theorem spin_smallOperands : spin.code.SmallOperands := by
  intro i hi
  unfold NoirBytecode.code spin
  cases i <;> simp

theorem spinRow_step : spin.code.Step 0 spinRow 0 := by
  refine ⟨⟨?_, ?_, by decide, ?_⟩, rfl, rfl⟩
  · simp [NoirBytecode.code, spin, spinRow]
  · simp [NoirBytecode.code, spin, spinRow]
  · decide

theorem traceConstraints_refine_machine_spin :
    ∃ w, buildWitness plainCore rollingHashes (fun _ => 0) spin [spinRow, spinRow] 0 ⟨[], []⟩ .nil
        ⟨.nil, [], 0, 0, [spinRow, spinRow]⟩ (.replicate _ 0) = .ok w ∧
      w.liveRows = [spinRow, spinRow] ∧ w.TraceConstraints :=
  (traceConstraints_refine_machine spin.code spin_smallOperands).2.2 _ plainCore rollingHashes
    (fun _ => 0) spin [spinRow, spinRow] 0 ⟨[], []⟩ .nil ⟨.nil, [], 0, 0, [spinRow, spinRow]⟩
    (.replicate _ 0) rfl (by decide) ⟨0, .next spinRow_step (.next spinRow_step (.done 0))⟩

end ProvenoZk.Noir
