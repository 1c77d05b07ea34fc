import ProvenoZk.Zkvm.GuestInput

/-! Soundness of a replay under a policy: what a completed replay says about the
document it hashed, the tape it was given and the calls its program made. -/
namespace ProvenoZk.Zkvm
open Foundation Proveno Policy

variable {I : Type}

namespace GuestInput

/-- The policy host of a replay, over a tape that writes down the calls it answers. -/
def observedHost (core : Core I) (view : PolicyView) :
    Service (PolicyEnforcingHost (TapeHost × List ToolCall)) ToolCall Reply :=
  PolicyEnforcingHost.callTool (TapeHost.callTool core).logged view

def observedStart (input : GuestInput I) : PolicyEnforcingHost (TapeHost × List ToolCall) :=
  PolicyEnforcingHost.new (TapeHost.new input.oracleTape, [])

theorem run_observed (input : GuestInput I) (core : Core I) (vm : Vm I) (view : PolicyView) :
    ((input.client vm).run (observedHost core view) input.observedStart).1 =
      ((input.client vm).run (PolicyEnforcingHost.callTool (TapeHost.callTool core) view)
        (PolicyEnforcingHost.new (TapeHost.new input.oracleTape))).1 := by
  have hsimulates := PolicyEnforcingHost.simulates
    (Service.logged_simulates (TapeHost.callTool core)) view
  exact (Client.run_eq_of_simulates hsimulates (input.client vm) ⟨rfl, rfl⟩).1

theorem payload_le_of_check {input : GuestInput I} {target : Target} {view : PolicyView}
    (h : input.checkTapePayloadSizes target view = .ok ()) (entry : TapeEntry)
    (hentry : entry ∈ input.oracleTape.entries) :
    entry.payload.length ≤ view.maxPayloadBytesPerCall.toNat :=
  Nat.le_trans (checkPayloadSizes_eq_ok.mp h entry hentry) (target.asUsize_le _)

/-- A replay that completes under a policy parsed the very bytes it hashed, took a tape
whose entries respect the payload limit, and passed a call on to the tape exactly when
the budget covered it and the document allows it. Calls are counted from zero, rejected
ones included. -/
theorem replay_enforces_policy (core : Core I) (vm : Vm I) (target : Target) (input : GuestInput I)
    (output : VmOutput) (publicInputs : PublicInputs) (hpolicy : input.policyCanonical ≠ [])
    (h : input.replayPublicInputs core vm target = .ok (output, publicInputs)) :
    ∃ view, PolicyView.parse target input.policyCanonical = .ok view ∧
      publicInputs.policyHash = core.sha256 input.policyCanonical ∧
      (∀ entry ∈ input.oracleTape.entries,
        entry.payload.length ≤ view.maxPayloadBytesPerCall.toNat) ∧
      ((input.client vm).run (observedHost core view) input.observedStart).1 = .ok output ∧
      (∀ k e, ((input.client vm).exchanges (observedHost core view) input.observedStart)[k]? =
          some e →
        (PolicyEnforcingHost.Reached e ↔ k + 1 ≤ view.maxToolCalls.toNat ∧
          (isHttpTool e.query.name = false ∨
            view.checkHttpCall e.query.name ((getUrlFromArgs e.query.args).getD "") = .ok ())) ∧
        (¬ PolicyEnforcingHost.Reached e → e.after.inner = e.before.inner)) ∧
      ((input.client vm).run (observedHost core view) input.observedStart).2.inner.1.cursor ≤
        view.maxToolCalls.toNat := by
  obtain ⟨view, hparse, hsizes, hrun, rfl⟩ := replayPublicInputs_eq_ok hpolicy h
  have hclient : (input.client vm).AsksAtMost (2 ^ 64 - 1) := vm.execute_asksAtMost _ _ _
  have hn : 2 ^ 64 - 1 < 2 ^ 64 := by decide
  refine ⟨view, hparse, rfl, payload_le_of_check hsizes, ?_, ?_, ?_⟩
  · rw [run_observed, hrun]
  · intro k e he
    exact PolicyEnforcingHost.reached_iff (TapeHost.callTool core) view hclient hn _ he
  · have hcursor := PolicyEnforcingHost.measure_run_le (TapeHost.callTool core).logged view
      (fun s => s.1.cursor) (fun call s => TapeHost.cursor_callTool_le core call s.1) hclient hn
      (TapeHost.new input.oracleTape, [])
    exact Nat.le_trans hcursor (Nat.le_of_eq (Nat.zero_add _))

/-! A program that makes one call and returns zero. -/

def zeroOutput : VmOutput where
  returnValue := .integer 0
  logs := []
  gasUsed := 0
  memoryUsed := 0
  trace := []

def callOnce : Vm Instruction where
  execute := fun _ _ _ => .ask ⟨"random", .new⟩ fun reply => .done (match reply with
    | .ok _ => .ok zeroOutput
    | .error message => .error (.toolError message))
  execute_asksAtMost := by
    intro _ _ _
    apply Client.AsksAtMost.mono (m := 1)
    · exact fun _ => trivial
    · decide

def oneCallPolicy : List UInt8 :=
  List.replicate 8 0 ++ leBytes 8 1 ++ leBytes 8 64 ++ List.replicate 9 0

def oneCallInput : GuestInput Instruction where
  program := ⟨[], .replicate 32 0⟩
  inputValue := .nil
  oracleTape := ⟨[.ok (utf8 "\x7b\x7d")], [[]]⟩
  config := ⟨0, 0, 0, 1, 0, 0, 0, false⟩
  toolNames := []
  policyCanonical := oneCallPolicy

theorem replay_enforces_policy_oneCall :
    ∃ view, PolicyView.parse .guest32 oneCallPolicy = .ok view ∧
      (∀ entry ∈ oneCallInput.oracleTape.entries,
        entry.payload.length ≤ view.maxPayloadBytesPerCall.toNat) ∧
      ((oneCallInput.client callOnce).run (observedHost plainCore view)
        oneCallInput.observedStart).2.inner.1.cursor ≤ view.maxToolCalls.toNat := by
  obtain ⟨view, hparse, -, hsizes, -, -, hcursor⟩ :=
    replay_enforces_policy plainCore callOnce .guest32 oneCallInput zeroOutput _ (by decide) rfl
  exact ⟨view, hparse, hsizes, hcursor⟩

end GuestInput

end ProvenoZk.Zkvm
