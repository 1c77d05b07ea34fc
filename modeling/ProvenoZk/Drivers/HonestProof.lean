import ProvenoZk.Contracts.Settlement
import ProvenoZk.Drivers.OpenVmGuest
import ProvenoZk.Noir.Completeness

/-! From a recorded run to its payment. The driver replays the recorded tape under a trace,
and what comes out is proved, verified and paid where the run stays within the circuit's
arrays and its trace is one of the control-flow machine. -/
namespace ProvenoZk.Drivers
open Foundation Proveno Policy Zkvm Noir Contracts

variable {I N σ : Type}

section

variable {core : Core I} {H : Hashes} {attestationLeaf : List UInt8 → Fr} {vm : Vm I}
  {defaultConfig : VmConfig} {compiled : CompiledProgram I} {dryResult : DryRunResult}

/-- What a replay has to come to for the circuit to accept its witness. -/
structure ProvableReplay [InstructionSet I] (core : Core I) (H : Hashes) (vm : Vm I)
    (defaultConfig : VmConfig) (compiled : CompiledProgram I) (tape : OracleTape)
    (output : VmOutput) : Prop where
  instructions : compiled.instructions.length ≤ maxBytecode
  replayed : ((replayClient vm defaultConfig compiled).run (TapeHost.callTool core)
    (TapeHost.new tape)).1 = .ok output
  steps : output.trace.length ≤ maxSteps
  provable : Provable H compiled output.trace (returnValueI64 output.returnValue) tape

theorem returnValue_of_buildWitness {bytecode : NoirBytecode} {trace : List TraceStep} {n : Int64}
    {tape : OracleTape} {input : LuaValue} {output : VmOutput} {policyHash : Bytes32}
    {w : NoirWitness}
    (h : buildWitness core H attestationLeaf bytecode trace n tape input output policyHash =
      .ok w) : w.returnValue = n := by
  unfold buildWitness at h
  split_ifs at h
  cases h
  rfl

end

/-! What the pipeline takes the VM and the prover for. -/

/-- Recording the trace changes nothing that a host sees, nor what is returned. -/
def TraceOnly (vm : Vm I) : Prop :=
  ∀ (config : VmConfig) (program : CompiledProgram I) (input : LuaValue) {σ : Type}
    (serve : Service σ ToolCall Reply) (s : σ),
    (vm.execute (traced config) program input).exchanges serve s =
        (vm.execute config program input).exchanges serve s ∧
      ((vm.execute (traced config) program input).run serve s).1.map VmOutput.returnValue =
        ((vm.execute config program input).run serve s).1.map VmOutput.returnValue

/-- The trace of a run that ends is a run of the encoded table from its entry. Its targets
fit, a final Ret returns the value of the program, and every call is a row. -/
structure FaithfulTrace [InstructionSet I] (vm : Vm I) (config : VmConfig)
    (program : CompiledProgram I) : Prop where
  runs : ∀ {σ : Type} (serve : Service σ ToolCall Reply) (s : σ) output,
    ((vm.execute config program .nil).run serve s).1 = .ok output →
      ∃ pc, Run (layout program).code.Step 0 output.trace pc
  targets : ∀ {σ : Type} (serve : Service σ ToolCall Reply) (s : σ) output,
    ((vm.execute config program .nil).run serve s).1 = .ok output →
      ∀ row ∈ output.trace, TargetFits row
  returned : ∀ {σ : Type} (serve : Service σ ToolCall Reply) (s : σ) output,
    ((vm.execute config program .nil).run serve s).1 = .ok output →
      ∀ row ∈ output.trace.getLast?, row.opcode = 37 →
        row.stackTop = returnValueI64 output.returnValue
  calls : ∀ {σ : Type} (serve : Service σ ToolCall Reply) (s : σ) output,
    ((vm.execute config program .nil).run serve s).1 = .ok output →
      NoirWitness.toolCalls output.trace =
        ((vm.execute config program .nil).queries serve s).length

/-- Every satisfying assignment has a proof. -/
def Complete (H : Hashes) (honk : IHonkVerifier) : Prop :=
  ∀ w, main H w = some () → ∃ proof, honk proof (publicWords w) = some true

section

variable {R : JsonRenderer N} {core : Core I} {fromSlice : List UInt8 → Except String (Json N)}
  {H : Hashes} {attestationLeaf : List UInt8 → Fr} {vm : Vm I} {defaultConfig : VmConfig}
  {program : CompiledProgram I} {attestations : List (List UInt8)} {policy : Option (OraclePolicy N)}
  {dry : DryRunResult} {prover : Prover σ}

/-- The replay of a recorded run returns what was recorded, and asks once for each entry. -/
theorem replay_of_dryRun (hcore : core.ReadsBack) (htrace : TraceOnly vm)
    (hdry : prover.dryRunUnder R core fromSlice H attestationLeaf vm program .nil attestations
      policy = .ok dry) :
    ∃ output, ((replayClient vm prover.config program).run (TapeHost.callTool core)
        (TapeHost.new dry.oracleTape)).1 = .ok output ∧
      output.returnValue = dry.output.returnValue ∧
      ((replayClient vm prover.config program).queries (TapeHost.callTool core)
        (TapeHost.new dry.oracleTape)).length = dry.oracleTape.entries.length := by
  let client := replayClient vm prover.config program
  obtain ⟨⟨host, hrecords⟩, -⟩ := Prover.dryRunUnder_eq_ok hdry
  obtain ⟨hexchanges, hvalue⟩ := htrace prover.config program .nil (host.serve core) prover.state
  have hentries : recordTape core ((client.exchanges (host.serve core) prover.state).map (·.reply)) =
      some dry.oracleTape.entries := by
    rw [show client.exchanges (host.serve core) prover.state = _ from hexchanges]
    exact hrecords.entries
  have hstart : (TapeHost.new dry.oracleTape).tape.entries.drop (TapeHost.new dry.oracleTape).cursor =
      dry.oracleTape.entries := rfl
  obtain ⟨hrun, hqueries⟩ := replay_tape_of_record hcore client hentries hstart
  have hlength := length_of_recordTape hentries
  rw [List.length_map, Client.exchanges_eq, Service.length_exchanges, ← hqueries] at hlength
  have hended : (client.run (host.serve core) prover.state).1.map VmOutput.returnValue =
      .ok dry.output.returnValue := by
    refine Eq.trans hvalue ?_
    rw [show ((vm.execute prover.config program .nil).run (host.serve core) prover.state).1 = _ from
      hrecords.run]
    rfl
  rw [← hrun] at hended
  obtain ⟨output, houtput, hvalue⟩ := except_map_eq_ok.mp hended
  exact ⟨output, houtput, hvalue, hlength.symm⟩

/-- A recorded run within the limits of the circuit is provable. -/
theorem provableReplay_of_dryRun [InstructionSet I] (hcore : core.ReadsBack) (htrace : TraceOnly vm)
    (hfaithful : FaithfulTrace vm (traced prover.config) program)
    (hhash : (layout program).digest H = beBytes32ToField program.programHash)
    (hcount : program.instructions.length ≤ maxBytecode)
    (hfits : FitsCircuit dry.oracleTape)
    (hsteps : ∀ output, ((replayClient vm prover.config program).run (TapeHost.callTool core)
      (TapeHost.new dry.oracleTape)).1 = .ok output → output.trace.length ≤ maxSteps)
    (hdry : prover.dryRunUnder R core fromSlice H attestationLeaf vm program .nil attestations
      policy = .ok dry) :
    ∃ output, output.returnValue = dry.output.returnValue ∧
      ProvableReplay core H vm prover.config program dry.oracleTape output := by
  obtain ⟨output, hrun, hvalue, hcalls⟩ := replay_of_dryRun hcore htrace hdry
  refine ⟨output, hvalue, hcount, hrun, hsteps output hrun, ?_⟩
  constructor
  case hash => exact hhash
  case runs => exact hfaithful.runs _ _ _ hrun
  case targets => exact hfaithful.targets _ _ _ hrun
  case returned => exact hfaithful.returned _ _ _ hrun
  case calls => exact (hfaithful.calls _ _ _ hrun).trans hcalls
  case fits => exact hfits

end

/-! A call and a Ret, recorded, traced and paid for. -/

def callAndRet : CompiledProgram Instruction :=
  let blank : CompiledProgram Instruction := ⟨[⟨[⟨39, 0⟩, ⟨37, 0⟩], []⟩], .replicate 32 0⟩
  { blank with programHash := fieldToBeBytes32 ((layout blank).digest rollingHashes) }

def callAndRetRows : List TraceStep :=
  [{ pc := 0, opcode := 39, operand := 0, stackTop := 0, nextPc := 1 },
    { pc := 1, opcode := 37, operand := 0, stackTop := 0, nextPc := 2 }]

def callAndRetVm : Vm Instruction where
  execute := fun config _ _ => .ask ⟨"random", .new⟩ fun reply => .done (match reply with
    | .ok _ => .ok { GuestInput.zeroOutput with
        trace := if config.recordTrace then callAndRetRows else [] }
    | .error message => .error (.toolError message))
  execute_asksAtMost := by
    intro _ _ _
    apply Client.AsksAtMost.mono (m := 1)
    · exact fun _ => trivial
    · decide

theorem callAndRet_traceOnly : TraceOnly callAndRetVm := by
  intro config program input σ serve s
  refine ⟨rfl, ?_⟩
  simp only [callAndRetVm, Client.run]
  cases (serve ⟨"random", .new⟩ s).1 with
  | ok table => rfl
  | error message => rfl

theorem callAndRet_runs : Run (layout callAndRet).code.Step 0 callAndRetRows 2 := by
  have hcall : (layout callAndRet).code.Step 0 callAndRetRows[0] 1 := by
    refine ⟨⟨?_, ?_, by decide, by decide⟩, rfl, rfl⟩ <;>
      simp [NoirBytecode.code, layout, callAndRet, callAndRetRows, CompiledProgram.instructions,
        instructionToOpcodeId, instructionToOperand]
  have hret : (layout callAndRet).code.Step 1 callAndRetRows[1] 2 := by
    refine ⟨⟨?_, ?_, by decide, by decide⟩, rfl, rfl⟩ <;>
      simp [NoirBytecode.code, layout, callAndRet, callAndRetRows, CompiledProgram.instructions,
        instructionToOpcodeId, instructionToOperand]
  exact .next hcall (.next hret (.done 2))

theorem callAndRet_faithful (config : VmConfig) :
    FaithfulTrace callAndRetVm (traced config) callAndRet := by
  have htrace {σ : Type} (serve : Service σ ToolCall Reply) (s : σ) (output : VmOutput)
      (hrun : ((callAndRetVm.execute (traced config) callAndRet .nil).run serve s).1 = .ok output) :
      output = { GuestInput.zeroOutput with trace := callAndRetRows } := by
    simp only [callAndRetVm, Client.run] at hrun
    cases hreply : (serve ⟨"random", .new⟩ s).1 with
    | ok table =>
      rw [hreply] at hrun
      exact (Except.ok.inj hrun).symm
    | error message =>
      rw [hreply] at hrun
      cases hrun
  constructor
  all_goals
    intro σ serve s output hrun
    rw [htrace serve s output hrun]
  · exact ⟨2, callAndRet_runs⟩
  · decide
  · decide
  · rfl

def callAndRetCore : Core Instruction := { plainCore with keccak256 := rollingHashes.keccak256 }

/-- The artifacts of a dry run lead to a witness that the circuit accepts exactly when the
program fits, its replay ends within the step limit, and what the replay recorded is
provable. -/
theorem artifacts_provable_iff [InstructionSet I] (core : Core I) (H : Hashes)
    (hkeccak : H.keccak256 = core.keccak256) (attestationLeaf : List UInt8 → Fr) (vm : Vm I)
    (defaultConfig : VmConfig) (compiled : CompiledProgram I) (dryResult : DryRunResult)
    (hfree : ¬ CutCollides H dryResult.oracleTape) :
    (∃ w, witnessFromArtifacts core H attestationLeaf vm defaultConfig compiled dryResult = .ok w ∧
      main H w = some ()) ↔
      ∃ output, ProvableReplay core H vm defaultConfig compiled dryResult.oracleTape output := by
  constructor
  · intro h
    obtain ⟨w, hbuilt, hmain⟩ := h
    obtain ⟨hcount, output, hrun, hbuild⟩ := witnessFromArtifacts_eq_ok_iff.mp hbuilt
    exact ⟨output, hcount, hrun, buildWitness_ok_iff.mp ⟨w, hbuild⟩,
      (main_buildWitness_iff hkeccak hcount hfree hbuild).mp hmain⟩
  · intro h
    obtain ⟨output, hreplay⟩ := h
    obtain ⟨w, hbuild⟩ := buildWitness_ok_iff.mpr hreplay.steps
    refine ⟨w, witnessFromArtifacts_eq_ok_iff.mpr
      ⟨hreplay.instructions, output, hreplay.replayed, hbuild⟩, ?_⟩
    exact (main_buildWitness_iff hkeccak hreplay.instructions hfree hbuild).mpr hreplay.provable

theorem recordedCall_fits : FitsCircuit recordedCall := ⟨by decide, by decide⟩

/-- The dry run of the call. -/
def callAndRetRun : DryRunResult where
  output := GuestInput.zeroOutput
  oracleTape := recordedCall
  attestations := []
  publicInputs := computePublicInputs callAndRetCore rollingHashes (fun _ => 0)
    callAndRet.programHash .nil recordedCall GuestInput.zeroOutput

theorem artifacts_provable_callAndRet : ∃ w,
    witnessFromArtifacts callAndRetCore rollingHashes (fun _ => 0) callAndRetVm idleProver.config
      callAndRet callAndRetRun = .ok w ∧ main rollingHashes w = some () := by
  apply (artifacts_provable_iff callAndRetCore rollingHashes rfl (fun _ => 0) callAndRetVm
    idleProver.config callAndRet callAndRetRun recordedCall_fits.not_cutCollides).mpr
  refine ⟨{ GuestInput.zeroOutput with trace := callAndRetRows }, by decide, rfl, by decide, ?_⟩
  constructor
  case hash => exact (beBytes32ToField_fieldToBeBytes32 _).symm
  case runs => exact ⟨2, callAndRet_runs⟩
  case targets => decide
  case returned => decide
  case calls => rfl
  case fits => exact recordedCall_fits

/-- Whoever recorded a run is paid for it. If the program, its trace and its responses fit
the circuit, the driver builds a witness with a proof, and on any board that asks for the
policy of the run, in every state callers can bring about, an open bounty for the program
pays its reward to whoever hands that proof in. -/
theorem recorded_run_is_paid [InstructionSet I] (R : JsonRenderer N) (core : Core I)
    (hcore : core.ReadsBack) (H : Hashes) (hkeccak : H.keccak256 = core.keccak256)
    (attestationLeaf : List UInt8 → Fr) (fromSlice : List UInt8 → Except String (Json N))
    (vm : Vm I) (htrace : TraceOnly vm)
    (prover : Prover σ) (program : CompiledProgram I) (attestations : List (List UInt8))
    (policy : Option (OraclePolicy N)) (dry : DryRunResult)
    (hdry : prover.dryRunUnder R core fromSlice H attestationLeaf vm program .nil attestations
      policy = .ok dry)
    (hfaithful : FaithfulTrace vm (traced prover.config) program)
    (hhash : (layout program).digest H = beBytes32ToField program.programHash)
    (hcount : program.instructions.length ≤ maxBytecode) (hfits : FitsCircuit dry.oracleTape)
    (hsteps : ∀ output, ((replayClient vm prover.config program).run (TapeHost.callTool core)
      (TapeHost.new dry.oracleTape)).1 = .ok output → output.trace.length ≤ maxSteps)
    (verifier : ProvenoVerifier) (hcomplete : Complete H verifier.honkVerifier)
    (hpolicy : verifier.expectedPolicyHash = dry.publicInputs.policyHash) :
    ∃ w proof, witnessFromArtifacts core H attestationLeaf vm prover.config program dry = .ok w ∧
      main H w = some () ∧ w.returnValue = returnValueI64 dry.output.returnValue ∧
      ∀ initial labels c, Run (BoardStep verifier) ⟨deployed initial, []⟩ labels c →
        ∀ id, (c.world.contract.bounties id).claimed = false →
          (c.world.contract.bounties id).programHash = program.programHash →
          ∀ sender, ∃ after,
            c.world.contract.claim verifier.verify sender id proof (publicInputs w) =
              .ok (after, (c.world.contract.bounties id).reward) := by
  obtain ⟨output, hvalue, hreplay⟩ :=
    provableReplay_of_dryRun hcore htrace hfaithful hhash hcount hfits hsteps hdry
  obtain ⟨w, hbuild⟩ := buildWitness_ok_iff.mpr hreplay.steps
  have hbuilt := witnessFromArtifacts_eq_ok_iff.mpr ⟨hcount, output, hreplay.replayed, hbuild⟩
  have hmain := (main_buildWitness_iff hkeccak hcount hfits.not_cutCollides hbuild).mpr
    hreplay.provable
  obtain ⟨proof, hproof⟩ := hcomplete w hmain
  have hbuilds := (witnessFromArtifacts_eq_ok hbuilt).choose_spec.2
  refine ⟨w, proof, hbuilt, hmain, ?_, ?_⟩
  · rw [← hvalue]
    exact returnValue_of_buildWitness hbuild
  · intro initial labels c hboard id hopen htask sender
    have hwords : verifier.honkVerifier proof (publicInputs w).words = some true := by
      rw [words_publicInputs]
      exact hproof
    exact board_claim hboard hopen (hbuilds.programHash.trans htask.symm)
      (hbuilds.policyHash.trans hpolicy.symm) hwords sender

/-- A verifier of runs without a policy, which turns no proof down. -/
def lenient : ProvenoVerifier := ⟨.replicate 32 0, fun _ _ => some true⟩

theorem recorded_run_is_paid_callAndRet : ∃ w proof labels c after,
    witnessFromArtifacts callAndRetCore rollingHashes (fun _ => 0) callAndRetVm idleProver.config
      callAndRet callAndRetRun = .ok w ∧ main rollingHashes w = some () ∧
    Run (BoardStep lenient) ⟨deployed 0, []⟩ labels c ∧
    c.world.contract.claim lenient.verify 9 0 proof (publicInputs w) = .ok (after, 5) := by
  obtain ⟨w, proof, hbuilt, hmain, -, hpays⟩ := recorded_run_is_paid integerRenderer callAndRetCore
    plainCore_readsBack rollingHashes rfl (fun _ => 0) (fun _ => .error "") callAndRetVm
    callAndRet_traceOnly idleProver callAndRet [] none callAndRetRun rfl (callAndRet_faithful _)
    (beBytes32ToField_fieldToBeBytes32 _).symm (by decide) recordedCall_fits
    (by
      intro output hrun
      cases hrun
      decide)
    lenient (fun _ _ => ⟨[], rfl⟩) rfl
  have hrun : Run (BoardStep lenient) ⟨deployed 0, []⟩
      [.act (.postBounty 3 5 callAndRet.programHash)] _ :=
    .next (.act (Acts.posted rfl)) (.done _)
  obtain ⟨after, hclaim⟩ := hpays 0 _ _ hrun 0 rfl rfl 9
  exact ⟨w, proof, _, _, after, hbuilt, hmain, hrun, hclaim⟩

end ProvenoZk.Drivers
