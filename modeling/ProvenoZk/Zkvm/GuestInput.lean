import ProvenoZk.Policy.Guest
import ProvenoZk.Zkvm.Commitment

/-! The bundle a zkVM guest reads, and the replay it proves: the program runs
against the tape, under the policy whose bytes came with it. -/
namespace ProvenoZk.Zkvm
open Foundation Proveno Policy

structure GuestInput (I : Type) where
  program : CompiledProgram I
  inputValue : LuaValue
  oracleTape : OracleTape
  config : VmConfig
  toolNames : List String
  /-- The canonical bytes of the policy in force, or empty when there is none. -/
  policyCanonical : List UInt8

namespace GuestInput

variable {I : Type}

def new (program : CompiledProgram I) (inputValue : LuaValue) (oracleTape : OracleTape)
    (config : VmConfig) (toolNames : List String) : GuestInput I :=
  { program, inputValue, oracleTape, config, toolNames, policyCanonical := [] }

def withPolicyCanonical (input : GuestInput I) (canonical : List UInt8) : GuestInput I :=
  { input with policyCanonical := canonical }

/-- The loop of `check_tape_payload_sizes`, from entry `i` on. -/
def checkPayloadSizes (cap : Nat) : Nat → List TapeEntry → Except VmError Unit
  | _, [] => .ok ()
  | i, entry :: entries =>
    let len := entry.payload.length
    if len > cap then
      .error (.toolError s!"policy: tool call {i} response is {len} bytes, over the max_payload_bytes_per_call limit of {cap}")
    else checkPayloadSizes cap (i + 1) entries

def checkTapePayloadSizes (input : GuestInput I) (target : Target) (policy : PolicyView) :
    Except VmError Unit :=
  checkPayloadSizes (target.asUsize policy.maxPayloadBytesPerCall.toNat) 0 input.oracleTape.entries

def client (input : GuestInput I) (vm : Vm I) : Client ToolCall Reply (Except VmError VmOutput) :=
  vm.execute input.config input.program input.inputValue

def replayPublicInputs (input : GuestInput I) (core : Core I) (vm : Vm I) (target : Target) :
    Outcome VmError (VmOutput × PublicInputs) := do
  let programHash := core.computeProgramHashSha256 input.program.prototypes
  let (output, policyHash) ←
    if input.policyCanonical.isEmpty then do
      let tape := TapeHost.new input.oracleTape
      let output ← Outcome.ofExcept ((input.client vm).run (TapeHost.callTool core) tape).1
      pure (output, .replicate 32 0)
    else do
      let view ← (PolicyView.parse target input.policyCanonical).mapErr fun e =>
        VmError.toolError s!"policy: unparsable canonical bytes: {e.display}"
      Outcome.ofExcept (input.checkTapePayloadSizes target view)
      let host := PolicyEnforcingHost.new (TapeHost.new input.oracleTape)
      let output ← Outcome.ofExcept
        ((input.client vm).run (PolicyEnforcingHost.callTool (TapeHost.callTool core) view) host).1
      pure (output, core.sha256 input.policyCanonical)
  let publicInputs := computePublicInputsSha256WithPolicyHash core programHash input.inputValue
    input.oracleTape output policyHash
  pure (output, publicInputs)

theorem checkPayloadSizes_eq_ok {cap i : Nat} {entries : List TapeEntry} :
    checkPayloadSizes cap i entries = .ok () ↔ ∀ entry ∈ entries, entry.payload.length ≤ cap := by
  induction entries generalizing i with
  | nil => simp [checkPayloadSizes]
  | cons entry entries ih =>
    unfold checkPayloadSizes
    dsimp only
    by_cases h : entry.payload.length > cap
    · rw [if_pos h]
      simp [Nat.not_le.mpr h]
    · rw [if_neg h, ih]
      simp [Nat.not_lt.mp h]

theorem replayPublicInputs_eq_ok {input : GuestInput I} {core : Core I} {vm : Vm I} {target : Target}
    {output : VmOutput} {publicInputs : PublicInputs} (hpolicy : input.policyCanonical ≠ [])
    (h : input.replayPublicInputs core vm target = .ok (output, publicInputs)) :
    ∃ view, PolicyView.parse target input.policyCanonical = .ok view ∧
      input.checkTapePayloadSizes target view = .ok () ∧
      ((input.client vm).run (PolicyEnforcingHost.callTool (TapeHost.callTool core) view)
        (PolicyEnforcingHost.new (TapeHost.new input.oracleTape))).1 = .ok output ∧
      publicInputs = computePublicInputsSha256WithPolicyHash core
        (core.computeProgramHashSha256 input.program.prototypes) input.inputValue input.oracleTape
        output (core.sha256 input.policyCanonical) := by
  unfold replayPublicInputs at h
  have hempty : ¬ input.policyCanonical.isEmpty := by simpa using hpolicy
  dsimp only at h
  rw [if_neg hempty] at h
  simp only [Outcome.bind_eq_ok, Outcome.ofExcept_eq_ok, Outcome.mapErr_eq_ok] at h
  obtain ⟨view, hparse, ⟨⟩, hsizes, result, hrun, ⟨_, policyHash⟩, hresult, hinputs⟩ := h
  obtain ⟨rfl, rfl⟩ := Prod.mk.inj (Except.ok.inj hresult)
  obtain ⟨rfl, rfl⟩ := Prod.mk.inj (Except.ok.inj hinputs)
  exact ⟨view, hparse, hsizes, hrun, rfl⟩

theorem replayPublicInputs_of_run {input : GuestInput I} {core : Core I} {vm : Vm I} {target : Target}
    {view : PolicyView} {output : VmOutput} (hpolicy : input.policyCanonical ≠ [])
    (hparse : PolicyView.parse target input.policyCanonical = .ok view)
    (hsizes : input.checkTapePayloadSizes target view = .ok ())
    (hrun : ((input.client vm).run (PolicyEnforcingHost.callTool (TapeHost.callTool core) view)
      (PolicyEnforcingHost.new (TapeHost.new input.oracleTape))).1 = .ok output) :
    input.replayPublicInputs core vm target = .ok (output,
      computePublicInputsSha256WithPolicyHash core
        (core.computeProgramHashSha256 input.program.prototypes) input.inputValue input.oracleTape
        output (core.sha256 input.policyCanonical)) := by
  have hempty : ¬ input.policyCanonical.isEmpty := by simpa using hpolicy
  unfold replayPublicInputs
  dsimp only
  rw [if_neg hempty]
  simp only [Outcome.bind_eq_ok, Outcome.ofExcept_eq_ok, Outcome.mapErr_eq_ok]
  exact ⟨view, hparse, (), hsizes, output, hrun, _, rfl, rfl⟩

end GuestInput

end ProvenoZk.Zkvm
