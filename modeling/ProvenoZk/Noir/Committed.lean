import ProvenoZk.Noir.Paths

/-! Which executed instructions are committed. The program hash covers the first
`instr_count` slots of the table and the step loop reads all of it, so control
that leaves the committed slots executes whatever the padding holds. -/
namespace ProvenoZk.Noir
open Foundation Proveno

/-- Every path from the entry through slots below `count` executes below `count`. -/
def Code.StaysBelow (code : Code) (count : UInt32) : Prop :=
  ∀ n < maxSteps, ∀ pc, code.Reaches (· < count) n pc → code.Executable pc → pc < count

def slotFormat : Format Fr (UInt8 × Int64) where
  Valid := fun _ => True
  encode := fun slot => [(slot.1.toNat : Fr), (slot.2.toUInt64.toNat : Fr)]
  delimited := by
    rintro ⟨a, x⟩ ⟨b, y⟩ r s - - h
    simp only [List.cons_append, List.nil_append, List.cons.injEq] at h
    obtain ⟨hopcode, hoperand, hrest⟩ := h
    rw [natCast_inj (a.toNat_lt.trans (by decide)) (b.toNat_lt.trans (by decide)),
      UInt8.toNat_inj] at hopcode
    rw [natCast_inj x.toUInt64.toNat_lt y.toUInt64.toNat_lt, UInt64.toNat_inj] at hoperand
    exact ⟨Prod.ext hopcode (congrArg Int64.ofUInt64 hoperand), hrest⟩

namespace NoirWitness

variable (w : NoirWitness)

def ExecutesCommitted : Prop :=
  ∀ i (_ : i < maxSteps), i < w.numSteps.toNat → w.tracePcs[i] < w.instrCount

structure KeepsCommitted : Prop where
  entry : 0 < w.numSteps → 0 < w.instrCount
  step : ∀ i (_ : i < maxSteps), i + 1 < w.numSteps.toNat → successor w.rows[i] < w.instrCount

def committed : List (UInt8 × Int64) :=
  (w.bytecodeOpcodes.toList.zip w.bytecodeOperands.toList).take w.instrCount.toNat

def ExecutesOnly (slots : List (UInt8 × Int64)) : Prop :=
  ∀ row ∈ w.liveRows, slots[row.pc.toNat]? = some (row.opcode, row.operand)

variable {w}

theorem executesCommitted_iff (htrace : w.TraceConstraints) :
    w.ExecutesCommitted ↔ w.KeepsCommitted := by
  have hleads : ∀ i (_ : i + 1 < maxSteps), i + 1 < w.numSteps.toNat →
      w.tracePcs[i + 1] = successor w.rows[i] := by
    intro i hi hlive
    rw [← w.pc_rows hi, htrace.link hi hlive]
    exact (htrace.row (by omega) (by omega)).1.passes
  constructor
  · intro h
    refine ⟨?_, ?_⟩
    · intro hlive
      rw [← htrace.pc_zero]
      exact h 0 (by decide) hlive
    · intro i hi hlive
      have hnext := Nat.lt_of_lt_of_le hlive htrace.numSteps_le
      rw [← hleads i hnext hlive]
      exact h (i + 1) hnext hlive
  · intro h i hi hlive
    cases i with
    | zero =>
      rw [htrace.pc_zero]
      exact h.entry hlive
    | succ i =>
      rw [hleads i hi hlive]
      exact h.step i (by omega) hlive

theorem executesCommitted_of_staysBelow (htrace : w.TraceConstraints)
    (hstays : w.code.StaysBelow w.instrCount) : w.ExecutesCommitted := by
  intro i
  induction i using Nat.strong_induction_on with
  | _ i ih =>
    intro hi hlive
    have hreach : w.code.Reaches (· < w.instrCount) i w.tracePcs[i] :=
      htrace.reaches hi hlive fun j hj hji => ih j hji hj (by omega)
    exact hstays i hi _ hreach (htrace.executable hi hlive)

theorem ExecutesCommitted.executesOnly (h : w.ExecutesCommitted) (htrace : w.TraceConstraints) :
    w.ExecutesOnly w.committed := by
  intro row hrow
  obtain ⟨i, hi, hlive, heq⟩ := w.mem_liveRows.mp hrow
  have hadmits := (htrace.row hi hlive).1
  rw [heq] at hadmits
  have hbelow : row.pc.toNat < w.instrCount.toNat := by
    rw [← heq, w.pc_rows hi]
    exact h i hi hlive
  unfold committed
  rw [List.getElem?_take_of_lt hbelow, List.getElem?_zip_eq_some, Vector.getElem?_toList,
    Vector.getElem?_toList]
  exact ⟨hadmits.opcode, hadmits.operand⟩

theorem take_bytecodeFields (count : Nat) :
    (bytecodeFields w.bytecodeOpcodes w.bytecodeOperands).take (count * 2) =
      ((w.bytecodeOpcodes.toList.zip w.bytecodeOperands.toList).take count).flatMap
        slotFormat.encode := by
  unfold bytecodeFields
  generalize w.bytecodeOpcodes.toList.zip w.bytecodeOperands.toList = slots
  induction slots generalizing count with
  | nil => simp
  | cons slot slots ih =>
    cases count with
    | zero => simp
    | succ count =>
      simp [Nat.succ_mul, slotFormat, ih count]

theorem committed_eq_of_programMessage {v : NoirWitness}
    (h : v.programMessage = w.programMessage) : v.committed = w.committed := by
  unfold programMessage at h
  obtain ⟨hsize, hfields⟩ := Prod.mk.inj h
  have hcount : v.instrCount.toNat = w.instrCount.toNat := by omega
  rw [take_bytecodeFields, take_bytecodeFields] at hfields
  have hlen : v.committed.length = w.committed.length := by
    simp [committed, hcount]
  exact ((slotFormat.times w.committed.length).encode_inj ⟨hlen, fun _ _ => trivial⟩
    ⟨rfl, fun _ _ => trivial⟩).mp hfields

end NoirWitness

theorem staysBelow_of_executesCommitted (H : Hashes) {code : Code} {instrCount : UInt32}
    (hall : ∀ w, w.code = code → w.instrCount = instrCount → main H w = some () →
      w.ExecutesCommitted) : code.StaysBelow instrCount := by
  intro n hn pc hreach hexec
  by_cases hinstr : instrCount.toNat * 2 < 2 ^ 32
  · obtain ⟨w, hmain, hcode, hcount, hsteps, hpc⟩ :=
      exists_assignment H code instrCount hinstr hn hreach hexec
    rw [← hpc, ← hcount]
    exact hall w hcode hcount hmain n hn (by omega)
  · obtain ⟨opcode, operand, hopcode, -⟩ := hexec
    have hpc := (Vector.getElem?_eq_some_iff.mp hopcode).1
    exact UInt32.lt_iff_toNat_lt.mpr (by omega)

theorem NoirWitness.Satisfies.digest {H : Hashes} {w : NoirWitness} (h : w.Satisfies H) :
    H.digest w.programMessage = beBytes32ToField w.programHash :=
  ((w.assertBytecode_eq_some H).mp h.bytecode).2

/-- A satisfying assignment executes committed slots exactly if no step but the
last passes control out of them, and a table has no other assignments exactly if
no path through its committed slots leaves them for an executable one. Under that
condition the program hash determines the executed instruction list. -/
theorem executes_committed_code (H : Hashes) :
    (∀ w, main H w = some () → (w.ExecutesCommitted ↔ w.KeepsCommitted)) ∧
    (∀ code instrCount,
      (∀ w, w.code = code → w.instrCount = instrCount → main H w = some () →
        w.ExecutesCommitted) ↔ code.StaysBelow instrCount) ∧
    ∀ v w, main H v = some () → main H w = some () → v.KeepsCommitted → w.KeepsCommitted →
      beBytes32ToField v.programHash = beBytes32ToField w.programHash →
      (v.committed = w.committed ∧ v.ExecutesOnly v.committed ∧ w.ExecutesOnly w.committed) ∨
        H.Collides v.programMessage w.programMessage := by
  refine ⟨?_, ?_, ?_⟩
  · intro w hmain
    have hsat := (w.main_eq_some_iff H).mp hmain
    exact NoirWitness.executesCommitted_iff hsat.trace
  · intro code instrCount
    refine ⟨staysBelow_of_executesCommitted H, ?_⟩
    intro hstays w hcode hcount hmain
    have hsat := (w.main_eq_some_iff H).mp hmain
    refine NoirWitness.executesCommitted_of_staysBelow hsat.trace ?_
    rwa [hcode, hcount]
  · intro v w hv hw hkeepsV hkeepsW hhash
    have hsatV := (v.main_eq_some_iff H).mp hv
    have hsatW := (w.main_eq_some_iff H).mp hw
    by_cases hmessage : v.programMessage = w.programMessage
    · have hcommitted := NoirWitness.committed_eq_of_programMessage hmessage
      have hinV := (NoirWitness.executesCommitted_iff hsatV.trace).mpr hkeepsV
      have hinW := (NoirWitness.executesCommitted_iff hsatW.trace).mpr hkeepsW
      exact .inl ⟨hcommitted, hinV.executesOnly hsatV.trace, hinW.executesOnly hsatW.trace⟩
    · exact .inr ⟨hmessage, by rw [hsatV.digest, hsatW.digest, hhash]⟩

def paddedCode : Code := ⟨fill _ 0 [36, 37], fill _ 0 []⟩

def callRow : TraceStep := { pc := 0, opcode := 36, operand := 0, stackTop := 0, nextPc := 1 }

def paddingRow : TraceStep := { pc := 1, opcode := 37, operand := 0, stackTop := 999, nextPc := 0 }

theorem paddedCode_run : Run paddedCode.Step 0 [callRow, paddingRow] 0 := by
  have hcall : paddedCode.Step 0 callRow 1 := by
    refine ⟨⟨?_, ?_, by decide, by decide⟩, rfl, rfl⟩ <;> simp [paddedCode, callRow]
  have hpadding : paddedCode.Step 1 paddingRow 0 := by
    refine ⟨⟨?_, ?_, by decide, by decide⟩, rfl, rfl⟩ <;> simp [paddedCode, paddingRow]
  exact .next hcall (.next hpadding (.done 0))

/-- With one slot committed, the run that returns 999 from the padding is proved. -/
theorem executes_uncommitted_code :
    ¬ ∃ H : Hashes, ∀ w, main H w = some () → w.ExecutesCommitted := by
  rintro ⟨H, hall⟩
  let w := runWitness H paddedCode 1 [callRow, paddingRow] 999
  have hmain : main H w = some () :=
    main_runWitness H paddedCode 1 (by decide) _ (by decide) ⟨0, paddedCode_run⟩ (by decide) _
      (by decide)
  have hpc : w.tracePcs[1] = 1 := by
    change (fill _ 0 [0, 1] : Vector UInt32 maxSteps)[1] = 1
    simp
  have hlive : 1 < w.numSteps.toNat := by
    change 1 < (UInt32.ofNat 2).toNat
    decide
  have hbelow := hall w hmain 1 (by decide) hlive
  rw [hpc] at hbelow
  exact absurd hbelow (UInt32.lt_irrefl 1)

end ProvenoZk.Noir
