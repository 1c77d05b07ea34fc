import ProvenoZk.Noir.Paths

/-! What the public return value is bound to. The circuit compares it with the
stack top of the last live step when that step is a Ret; a trace that is empty or
stops elsewhere is accepted with any value and the digest of that value. -/
namespace ProvenoZk.Noir
open Foundation Proveno

/-- Every path of `numSteps` slots from the entry ends on a Ret. -/
def Code.AlwaysReturns (code : Code) (numSteps : Nat) : Prop :=
  0 < numSteps ∧ ∀ pc, code.Reaches (fun _ => True) (numSteps - 1) pc → code.Executable pc →
    code.opcodes[pc.toNat]? = some 37

namespace NoirWitness

variable (w : NoirWitness)

def ReturnsFinal : Prop :=
  ∃ i, ∃ _ : i < maxSteps, i + 1 = w.numSteps.toNat ∧ w.traceOpcodes[i] = 37 ∧
    w.returnValue = w.traceStackTops[i]

def EndsInRet : Prop :=
  ∃ i, ∃ _ : i < maxSteps, i + 1 = w.numSteps.toNat ∧
    w.code.opcodes[w.tracePcs[i].toNat]? = some 37

variable {w}

theorem Satisfies.opcode {H : Hashes} (h : w.Satisfies H) {i : Nat} (hi : i < maxSteps)
    (hlive : i < w.numSteps.toNat) :
    w.code.opcodes[w.tracePcs[i].toNat]? = some w.traceOpcodes[i] := by
  have hadmits := (h.trace.row hi hlive).1.opcode
  simpa [rows] using hadmits

theorem Satisfies.returnsFinal_iff {H : Hashes} (h : w.Satisfies H) :
    w.ReturnsFinal ↔ w.EndsInRet := by
  constructor
  · rintro ⟨i, hi, hlast, hopcode, -⟩
    refine ⟨i, hi, hlast, ?_⟩
    rw [h.opcode hi (by omega), hopcode]
  · rintro ⟨i, hi, hlast, hslot⟩
    rw [h.opcode hi (by omega), Option.some_inj] at hslot
    have hmem := (w.getLast?_liveRows h.trace.numSteps_le).mpr ⟨i, hi, hlast, rfl⟩
    have hreturned := h.returned _ hmem (by simpa [rows] using hslot)
    exact ⟨i, hi, hlast, hslot, by simpa [rows] using hreturned.symm⟩

theorem Satisfies.withReturnValue {H : Hashes} (h : w.Satisfies H) (hends : ¬ w.EndsInRet)
    (returnValue : Int64) :
    { w with returnValue, outputHash := outputPayloadKeccak H returnValue }.Satisfies H where
  bytecode := h.bytecode
  trace := ⟨h.trace.start, h.trace.step, h.trace.continuity⟩
  returned := by
    intro row hrow hret
    obtain ⟨i, hi, hlast, rfl⟩ := (w.getLast?_liveRows h.trace.numSteps_le).mp hrow
    refine absurd ⟨i, hi, hlast, ?_⟩ hends
    rw [h.opcode hi (by omega)]
    simpa [rows] using hret
  toolCalls := h.toolCalls
  tape := h.tape
  output := rfl

end NoirWitness

theorem pos_of_returnsFinal (H : Hashes) {code : Code} {numSteps : UInt32}
    (hall : ∀ w, w.code = code → w.numSteps = numSteps → main H w = some () → w.ReturnsFinal) :
    0 < numSteps.toNat := by
  by_contra hzero
  have hnone : numSteps = 0 := UInt32.toNat_inj.mp (by simpa using hzero)
  have hmain := main_runWitness H code 0 (by decide) [] (Nat.zero_le _) ⟨0, .done 0⟩
    (by simp) 0 (by simp)
  obtain ⟨i, -, hlast, -⟩ := hall _ rfl hnone.symm hmain
  exact absurd hlast (Nat.succ_ne_zero i)

theorem alwaysReturns_of_returnsFinal (H : Hashes) {code : Code} {numSteps : UInt32}
    (hmax : numSteps.toNat ≤ maxSteps)
    (hall : ∀ w, w.code = code → w.numSteps = numSteps → main H w = some () → w.ReturnsFinal) :
    code.AlwaysReturns numSteps.toNat := by
  have hpos := pos_of_returnsFinal H hall
  refine ⟨hpos, ?_⟩
  intro pc hreach hexec
  have hn : numSteps.toNat - 1 < maxSteps := by omega
  obtain ⟨w, hmain, hcode, -, hsteps, hpc⟩ :=
    exists_assignment H code 0 (by decide) hn hreach hexec
  have hsat := (w.main_eq_some_iff H).mp hmain
  have hnum : w.numSteps = numSteps := UInt32.toNat_inj.mp (by omega)
  obtain ⟨i, hi, hlast, hslot⟩ := hsat.returnsFinal_iff.mp (hall w hcode hnum hmain)
  obtain rfl : i = numSteps.toNat - 1 := by omega
  rwa [hcode, hpc] at hslot

theorem NoirWitness.Satisfies.endsInRet {H : Hashes} {w : NoirWitness} (h : w.Satisfies H)
    (hreturns : w.code.AlwaysReturns w.numSteps.toNat) : w.EndsInRet := by
  have hsteps := h.trace.numSteps_le
  have hpos := hreturns.1
  have hlive : w.numSteps.toNat - 1 < w.numSteps.toNat := by omega
  have hlast : w.numSteps.toNat - 1 < maxSteps := by omega
  have hreach : w.code.Reaches (fun _ => True) _ _ :=
    h.trace.reaches hlast hlive fun _ _ _ => trivial
  have hret := hreturns.2 _ hreach (h.trace.executable hlast hlive)
  exact ⟨w.numSteps.toNat - 1, hlast, by omega, hret⟩

/-- The return value is that of a final Ret exactly if the last live step executes
one. For a table and a number of steps that holds of every assignment exactly if
no path of that length ends elsewhere, and where it fails every return value is
accepted. -/
theorem returnValue_of_final_ret (H : Hashes) :
    (∀ w, main H w = some () → (w.ReturnsFinal ↔ w.EndsInRet)) ∧
    (∀ code (numSteps : UInt32),
      (∀ w, w.code = code → w.numSteps = numSteps → main H w = some () → w.ReturnsFinal) ↔
        maxSteps < numSteps.toNat ∨ code.AlwaysReturns numSteps.toNat) ∧
    ∀ w, main H w = some () → ¬ w.EndsInRet → ∀ returnValue,
      main H { w with returnValue, outputHash := outputPayloadKeccak H returnValue } = some () := by
  refine ⟨?_, ?_, ?_⟩
  · intro w hmain
    exact ((w.main_eq_some_iff H).mp hmain).returnsFinal_iff
  · intro code numSteps
    constructor
    · intro hall
      by_cases hmax : maxSteps < numSteps.toNat
      · exact .inl hmax
      · exact .inr (alwaysReturns_of_returnsFinal H (Nat.le_of_not_lt hmax) hall)
    · rintro hcondition w rfl rfl hmain
      have hsat := (w.main_eq_some_iff H).mp hmain
      obtain hmax | hreturns := hcondition
      · exact absurd hsat.trace.numSteps_le (Nat.not_le.mpr hmax)
      · exact hsat.returnsFinal_iff.mpr (hsat.endsInRet hreturns)
  · intro w hmain hends returnValue
    have hsat := (w.main_eq_some_iff H).mp hmain
    exact (NoirWitness.main_eq_some_iff _ H).mpr (hsat.withReturnValue hends returnValue)

/-- The empty trace returns whatever is claimed. -/
theorem returnValue_without_ret :
    ¬ ∃ H : Hashes, ∀ w, main H w = some () → w.ReturnsFinal := by
  rintro ⟨H, hall⟩
  let code : Code := ⟨fill _ 0 [], fill _ 0 []⟩
  have hmain := main_runWitness H code 0 (by decide) [] (by decide) ⟨0, .done 0⟩ (by decide) 999
    (by decide)
  obtain ⟨i, -, hlast, -⟩ := hall _ hmain
  exact absurd hlast (Nat.succ_ne_zero i)

end ProvenoZk.Noir
