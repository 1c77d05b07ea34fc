import ProvenoZk.Drivers.Gateway
import ProvenoZk.Drivers.OpenVmHost

/-! What a reconstruction says about the recorded run. The strict replay that is compared
with the footer and the guest's replay, whose hashes are committed, run on different
hosts; the policy made from the recorded limits never steps between them. -/
namespace ProvenoZk.Drivers
open Foundation Proveno Policy Zkvm Noir

variable {I N ρ : Type}

/-- While it reports no divergence, a strict host has answered like a plain one. -/
def StrictAsPlain (gateway : Gateway ρ) (core : Core I) : Prop :=
  ∀ records calls,
    gateway.divergence (Service.final gateway.callTool calls (gateway.strict records)) = none →
    Service.replies gateway.callTool calls (gateway.strict records) =
      (TapeHost.callTool core).replies calls (TapeHost.new (gateway.fromRecords records))

section

variable (config : VmConfig) (R : JsonRenderer N)

theorem policyFor_admits (call : ToolCall) :
    PolicyEnforcingHost.Admits (policyFor config : OraclePolicy N).view call := by
  apply Or.inr
  rw [OraclePolicy.view_checkHttpCall, OraclePolicy.checkHttpCall_eq_ok]
  exact ⟨Or.inl rfl, Or.inl rfl⟩

theorem policyFor_inRange : (policyFor config : OraclePolicy N).InRange R where
  domainCount := Nat.two_pow_pos 32
  domains := fun _ h => absurd h List.not_mem_nil
  methodCount := Nat.two_pow_pos 32
  methods := fun _ h => absurd h List.not_mem_nil
  outputSchema := fun _ h => nomatch h
  pairCount := Nat.two_pow_pos 32
  pairs := fun _ h => absurd h List.not_mem_nil

theorem length_canonicalBytes_policyFor :
    ((policyFor config : OraclePolicy N).canonicalBytes R).length = 33 := by
  simp [OraclePolicy.canonicalBytes, OraclePolicy.stringListBytes, policyFor, sortStrings,
    sortByKey]

theorem parse_policyFor (target : Target) :
    PolicyView.parse target ((policyFor config : OraclePolicy N).canonicalBytes R) =
      .ok (policyFor config : OraclePolicy N).view := by
  apply OraclePolicy.parse_canonicalBytes_eq R (policyFor_inRange config R)
  rw [length_canonicalBytes_policyFor]
  cases target <;> decide

end

section

variable (gateway : Gateway ρ) (core : Core I) (vm : Vm I) (r : Reconstruction I N)

def replayedClient : Client ToolCall Reply (Except VmError VmOutput) :=
  vm.execute r.vmConfig r.program .nil

def strictTranscript (records : List ρ) : List (ToolCall × Reply) :=
  (replayedClient vm r).transcript gateway.callTool (gateway.strict records)

def guestTranscript : List (ToolCall × Reply) :=
  (replayedClient vm r).transcript
    (PolicyEnforcingHost.callTool (TapeHost.callTool core)
      (policyFor r.vmConfig : OraclePolicy N).view)
    (PolicyEnforcingHost.new (TapeHost.new r.dryRun.oracleTape))

end

section

variable {gateway : Gateway ρ} {frontend : Frontend I} {core : Core I} {vm : Vm I}
  {R : JsonRenderer N} {store : Store} {traceId : String} {trace : Trace ρ}
  {r : Reconstruction I N}

variable (N core) in
theorem guest_run_eq_tape (hcap : CapsCalls vm) (config : VmConfig) (program : CompiledProgram I)
    (tape : OracleTape) :
    ((vm.execute config program .nil).run
        (PolicyEnforcingHost.callTool (TapeHost.callTool core)
          (policyFor config : OraclePolicy N).view)
        (PolicyEnforcingHost.new (TapeHost.new tape))).1 =
      ((vm.execute config program .nil).run (TapeHost.callTool core) (TapeHost.new tape)).1 ∧
    (vm.execute config program .nil).transcript
        (PolicyEnforcingHost.callTool (TapeHost.callTool core)
          (policyFor config : OraclePolicy N).view)
        (PolicyEnforcingHost.new (TapeHost.new tape)) =
      (vm.execute config program .nil).transcript (TapeHost.callTool core)
        (TapeHost.new tape) := by
  apply PolicyEnforcingHost.run_of_admits (TapeHost.callTool core) (policyFor_admits config)
    (hcap config program .nil)
  change 0 + config.maxToolCalls.toNat ≤ config.maxToolCalls.toNat
  omega

theorem strict_run_eq_tape (hstrict : StrictAsPlain gateway core) {config : VmConfig}
    {program : CompiledProgram I} {records : List ρ}
    (hdivergence : gateway.divergence
      (strictReplay gateway vm config program records).2 = none) :
    ((vm.execute config program .nil).run (TapeHost.callTool core)
        (TapeHost.new (gateway.fromRecords records))).1 =
      (strictReplay gateway vm config program records).1 ∧
    (vm.execute config program .nil).transcript (TapeHost.callTool core)
        (TapeHost.new (gateway.fromRecords records)) =
      (vm.execute config program .nil).transcript gateway.callTool (gateway.strict records) := by
  apply Client.run_eq_of_replies
  apply hstrict
  rw [← Client.run_final]
  exact hdivergence

theorem Reconstructs.replays_agree (hcap : CapsCalls vm) (hstrict : StrictAsPlain gateway core)
    (h : Reconstructs gateway frontend core vm R store traceId trace r) :
    ((replayedClient vm r).run (PolicyEnforcingHost.callTool (TapeHost.callTool core)
        (policyFor r.vmConfig : OraclePolicy N).view)
      (PolicyEnforcingHost.new (TapeHost.new r.dryRun.oracleTape))).1 = .ok r.dryRun.output ∧
    guestTranscript core vm r = strictTranscript gateway vm r trace.entries := by
  have hmatches := mismatches_eq_nil.mp h.agrees
  have hguest := guest_run_eq_tape N core hcap r.vmConfig r.program
    r.dryRun.oracleTape
  have hplain := strict_run_eq_tape hstrict hmatches.1
  rw [← h.tape] at hplain
  constructor
  · exact hguest.1.trans (hplain.1.trans h.completes)
  · exact hguest.2.trans hplain.2

end

/-- A reconstruction commits the run it compared with the recording. The guest's replay
asked and heard what the strict replay did, so the public inputs are those of the stored
program, the rebuilt tape, the output that was compared, and the policy of the recorded
limits. -/
theorem reconstruct_proves_replayed_run (gateway : Gateway ρ) (frontend : Frontend I) (core : Core I)
    (vm : Vm I) (R : JsonRenderer N) (store : Store) (traceId : String) (r : Reconstruction I N)
    (hcap : CapsCalls vm) (hstrict : StrictAsPlain gateway core)
    (h : reconstruct gateway frontend core vm R store traceId = .ok r) :
    ∃ trace, loadTrace gateway store traceId = .ok trace ∧
      hex (core.computeProgramHashSha256 r.program.prototypes) = trace.header.programHash ∧
      r.vmConfig = trace.header.vmConfig.config ∧ r.policy = policyFor r.vmConfig ∧
      r.dryRun.oracleTape = gateway.fromRecords trace.entries ∧
      guestTranscript core vm r = strictTranscript gateway vm r trace.entries ∧
      r.dryRun.publicInputs = computePublicInputsSha256WithPolicyHash core
        (core.computeProgramHashSha256 r.program.prototypes) .nil r.dryRun.oracleTape
        r.dryRun.output
        ((policyFor r.vmConfig : OraclePolicy N).policyHash R core.sha256) := by
  obtain ⟨trace, hrec⟩ := reconstruct_eq_ok.mp h
  obtain ⟨replayed, hreplay⟩ := hrec.replays
  have hagree := hrec.replays_agree hcap hstrict
  obtain ⟨view, hparse, -, hrun, hinputs⟩ :=
    GuestInput.replayPublicInputs_eq_ok (canonicalBytes_ne_nil (policyFor r.vmConfig)) hreplay
  have hview : view = (policyFor r.vmConfig : OraclePolicy N).view :=
    Except.ok.inj (hparse.symm.trans (parse_policyFor r.vmConfig R .host64))
  rw [hview] at hrun
  have houtput : replayed = r.dryRun.output := by
    apply Except.ok.inj
    rw [← hrun]
    exact hagree.1
  rw [houtput] at hinputs
  exact ⟨trace, hrec.loaded, (loadProgram_eq_ok hrec.program).hash, hrec.vmConfig, hrec.policy,
    hrec.tape, hagree.2, hinputs⟩

/-! A store with one trace, of a program that asks for a balance once. -/

structure CallRecord where
  name : String
  entry : TapeEntry

structure StrictHost where
  host : TapeHost
  names : List String
  diverged : Option Nat

def recordedTape (records : List CallRecord) : OracleTape :=
  ⟨records.map (·.entry), records.map fun _ => []⟩

def strictCall : Service StrictHost ToolCall Reply := fun call s =>
  ((TapeHost.callTool integerCore call s.host).1,
    { host := (TapeHost.callTool integerCore call s.host).2
      names := s.names.tail
      diverged := if s.names.head? = some call.name then s.diverged
        else s.diverged.or (some s.host.cursor) })

def walletGateway (trace : Trace CallRecord) : Gateway CallRecord where
  readTrace := fun bytes => if bytes = utf8 "trace" then .ok trace else .error "expected value"
  fromRecords := recordedTape
  attestation := fun _ => []
  State := StrictHost
  strict := fun records => ⟨TapeHost.new (recordedTape records), records.map (·.name), none⟩
  callTool := strictCall
  divergence := StrictHost.diverged
  remaining := fun s => s.host.tape.entries.length - s.host.cursor
  debugError := fun _ => "ToolError"
  debugOutput := fun output => output.getD "None"

theorem walletGateway_strictAsPlain (trace : Trace CallRecord) :
    StrictAsPlain (walletGateway trace) integerCore := by
  intro records calls _
  have hsim : strictCall.Simulates (fun s t => s.host = t) (TapeHost.callTool integerCore) := by
    intro call s t hst
    rw [← hst]
    exact ⟨rfl, rfl⟩
  exact Service.replies_eq_of_simulates hsim calls rfl

def walletVm (result : LuaValue) : Vm Instruction where
  execute := fun config _ _ =>
    if config.maxToolCalls = 0 then .done (.error (.other "tool call limit"))
    else .ask ⟨"wallet.balance", .new⟩ fun reply => .done (match reply with
      | .ok _ => .ok { GuestInput.zeroOutput with returnValue := result }
      | .error message => .error (.toolError message))
  execute_asksAtMost := by
    intro config _ _
    split_ifs
    · trivial
    · exact fun _ => trivial

theorem walletVm_capsCalls (result : LuaValue) : CapsCalls (walletVm result) := by
  intro config _ _
  unfold walletVm
  dsimp only
  split_ifs with hnone
  · trivial
  · have hpos : 1 ≤ config.maxToolCalls.toNat := by
      apply Nat.one_le_iff_ne_zero.mpr
      intro hzero
      exact hnone (UInt64.toNat_inj.mp hzero)
    apply Client.AsksAtMost.mono (m := 1)
    · exact fun _ => trivial
    · exact hpos

def walletTrace (output : Option String) : Trace CallRecord where
  header := ⟨hex (.replicate 32 0), ⟨0, 0, 0, 1, 64, 0, 0⟩⟩
  entries := [⟨"wallet.balance", .ok (utf8 "\x7b\x7d")⟩]
  footer := ⟨output, 0, 0⟩

def walletFrontend : Frontend Instruction where
  Block := String
  parse := .ok
  compile := fun _ => .ok ⟨[], .replicate 32 0⟩
  verify := fun _ => .ok ()

def walletStore : Store where
  root := "store"
  read := fun path =>
    if path = "store/traces/1.json" then .ok (utf8 "trace")
    else if path = Store.join "store/programs" (hex (.replicate 32 0) ++ ".lua") then
      .ok (utf8 "return")
    else .error "No such file or directory"

theorem walletStore_loadTrace (trace : Trace CallRecord) :
    loadTrace (walletGateway trace) walletStore "1" = .ok trace := by
  have hpath : storePath (Store.join walletStore.root "traces") "1" "json" =
      .ok "store/traces/1.json" := by decide
  unfold loadTrace
  rw [hpath]
  rfl

theorem walletStore_loadProgram (output : Option String) :
    loadProgram walletFrontend integerCore walletStore (walletTrace output).header =
      .ok ⟨[], .replicate 32 0⟩ := by
  have hpath : storePath (Store.join walletStore.root "programs") (hex (.replicate 32 0)) "lua" =
      .ok (Store.join "store/programs" (hex (.replicate 32 0) ++ ".lua")) := by decide
  unfold loadProgram walletTrace
  dsimp only
  rw [hpath]
  rfl

def walletOutput (result : LuaValue) : VmOutput :=
  { GuestInput.zeroOutput with returnValue := result }

def walletConfig : VmConfig := (walletTrace none).header.vmConfig.config

def walletTape : OracleTape := recordedTape (walletTrace none).entries

theorem wallet_replays (result : LuaValue) : ∃ publicInputs,
    (gatewayInput integerRenderer walletConfig ⟨[], .replicate 32 0⟩ walletTape).replayPublicInputs
      integerCore (walletVm result) .host64 = .ok (walletOutput result, publicInputs) := by
  refine ⟨_, GuestInput.replayPublicInputs_of_run ?_
    (parse_policyFor walletConfig integerRenderer .host64) ?_ ?_⟩
  · exact canonicalBytes_ne_nil (policyFor walletConfig)
  · rfl
  · rfl

theorem exists_wallet_reconstruction (result : LuaValue) : ∃ r : Reconstruction Instruction Int,
    reconstruct (walletGateway (walletTrace (replayedOutput integerCore result))) walletFrontend
      integerCore (walletVm result) integerRenderer walletStore "1" = .ok r := by
  obtain ⟨publicInputs, hreplay⟩ := wallet_replays result
  let dryRun : DryRunResult := ⟨walletOutput result, walletTape, [[]], publicInputs⟩
  refine ⟨⟨⟨[], .replicate 32 0⟩, dryRun, walletConfig, policyFor walletConfig⟩,
    reconstruct_eq_ok.mpr ⟨walletTrace (replayedOutput integerCore result), ?_⟩⟩
  exact {
    loaded := walletStore_loadTrace _
    program := walletStore_loadProgram _
    vmConfig := rfl
    policy := rfl
    tape := rfl
    attestations := rfl
    completes := rfl
    agrees := mismatches_eq_nil.mpr ⟨rfl, rfl, rfl, rfl, rfl⟩
    replays := ⟨_, hreplay⟩ }

theorem reconstruct_proves_replayed_run_wallet : ∃ r : Reconstruction Instruction Int,
    guestTranscript integerCore (walletVm .nil) r =
      strictTranscript (walletGateway (walletTrace (some "null"))) (walletVm .nil) r
        (walletTrace none).entries ∧
    r.dryRun.publicInputs.policyHash =
      (policyFor r.vmConfig : OraclePolicy Int).policyHash integerRenderer integerCore.sha256 := by
  obtain ⟨r, hr⟩ := exists_wallet_reconstruction .nil
  obtain ⟨trace, hloaded, -, -, -, -, htranscript, hinputs⟩ :=
    reconstruct_proves_replayed_run _ walletFrontend integerCore (walletVm .nil) integerRenderer
      walletStore "1" r (walletVm_capsCalls .nil) (walletGateway_strictAsPlain _) hr
  rw [walletStore_loadTrace] at hloaded
  cases hloaded
  exact ⟨r, htranscript, congrArg PublicInputs.policyHash hinputs⟩

/-! Which recordings are accepted. -/

theorem replayedOutput_eq_some {core : Core I} {v : LuaValue} {text : String} :
    replayedOutput core v = some text ↔ core.canonicalSerialize v = .ok (utf8 text) := by
  unfold replayedOutput
  cases core.canonicalSerialize v with
  | error e => simp
  | ok bytes =>
    dsimp only
    rw [fromUtf8_eq_some, Except.ok.injEq, eq_comm]

/-- The recording is of a completed run, and the reconstructed run is that run. -/
structure Faithful (gateway : Gateway ρ) (frontend : Frontend I) (core : Core I) (vm : Vm I)
    (store : Store) (trace : Trace ρ) (r : Reconstruction I N) : Prop where
  output : ∃ text, trace.footer.output = some text ∧
    core.canonicalSerialize r.dryRun.output.returnValue = .ok (utf8 text)
  gasUsed : trace.footer.gasUsed = r.dryRun.output.gasUsed
  memoryUsed : trace.footer.memoryUsed = r.dryRun.output.memoryUsed
  completes : (strictReplay gateway vm r.vmConfig r.program trace.entries).1 =
    .ok r.dryRun.output
  divergence : gateway.divergence
    (strictReplay gateway vm r.vmConfig r.program trace.entries).2 = none
  remaining : gateway.remaining
    (strictReplay gateway vm r.vmConfig r.program trace.entries).2 = 0
  program : CompilesTo frontend core store trace.header r.program

/-- What is accepted is a faithful recording exactly when it has an output. Without one it
is compared all the same: a recording that says nothing matches a run whose return value
has no text. -/
theorem reconstruct_faithful_iff (gateway : Gateway ρ) (frontend : Frontend I) (core : Core I)
    (vm : Vm I) (R : JsonRenderer N) (store : Store) (traceId : String) (r : Reconstruction I N)
    (h : reconstruct gateway frontend core vm R store traceId = .ok r) :
    ∃ trace, loadTrace gateway store traceId = .ok trace ∧
      (Faithful gateway frontend core vm store trace r ↔ trace.footer.output ≠ none) ∧
      replayedOutput core r.dryRun.output.returnValue = trace.footer.output := by
  obtain ⟨trace, hrec⟩ := reconstruct_eq_ok.mp h
  obtain ⟨hdivergence, hremaining, houtput, hgas, hmemory⟩ := mismatches_eq_nil.mp hrec.agrees
  refine ⟨trace, hrec.loaded, ?_, houtput⟩
  constructor
  · intro hfaithful hnone
    obtain ⟨text, htext, -⟩ := hfaithful.output
    rw [hnone] at htext
    cases htext
  · intro hsome
    obtain ⟨text, htext⟩ := Option.ne_none_iff_exists'.mp hsome
    exact {
      output := ⟨text, htext, replayedOutput_eq_some.mp (houtput.trans htext)⟩
      gasUsed := hgas.symm
      memoryUsed := hmemory.symm
      completes := hrec.completes
      divergence := hdivergence
      remaining := hremaining
      program := loadProgram_eq_ok hrec.program }

theorem reconstruct_faithful_wallet : ∃ r : Reconstruction Instruction Int,
    Faithful (walletGateway (walletTrace (some "null"))) walletFrontend integerCore
      (walletVm .nil) walletStore (walletTrace (some "null")) r := by
  have hnull : replayedOutput integerCore .nil = some "null" := replayedOutput_eq_some.mpr rfl
  obtain ⟨r, hr⟩ := exists_wallet_reconstruction .nil
  rw [hnull] at hr
  obtain ⟨trace, hloaded, hiff, -⟩ := reconstruct_faithful_iff _ walletFrontend integerCore
    (walletVm .nil) integerRenderer walletStore "1" r hr
  rw [walletStore_loadTrace] at hloaded
  cases hloaded
  exact ⟨r, hiff.mpr (by decide)⟩

/-- The program returns a function, which has no canonical bytes, and the footer has no
output. -/
theorem reconstruct_accepts_unfaithful :
    ¬ ∀ (trace : Trace CallRecord) (vm : Vm Instruction) (r : Reconstruction Instruction Int),
      reconstruct (walletGateway trace) walletFrontend integerCore vm integerRenderer walletStore
        "1" = .ok r →
      Faithful (walletGateway trace) walletFrontend integerCore vm walletStore trace r := by
  intro hall
  obtain ⟨r, hr⟩ := exists_wallet_reconstruction (.function 0)
  obtain ⟨text, htext, -⟩ := (hall _ _ r hr).output
  cases htext

end ProvenoZk.Drivers
