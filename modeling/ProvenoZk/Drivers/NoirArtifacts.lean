import ProvenoZk.Drivers.DryRun
import ProvenoZk.Noir.Encoder
import ProvenoZk.Zkvm.Consumption
import ProvenoZk.Zkvm.PayloadCap

/-! `prove_from_artifacts`: the replay the circuit's witness is built from. It runs
against the bare tape and commits the policy hash it finds in the dry run, while the
guest of the other backend replays behind the policy. -/
namespace ProvenoZk.Drivers
open Foundation Proveno Policy Zkvm Noir

variable {I N π : Type}

inductive ProveOutputError where
  | encode (error : EncodeError)
  | execute (error : VmError)
  | witness (error : WitnessError)
  | io (message : String)
  | prove (message : String)

/-- What reaches outside: `write_prover_toml`, and `nargo` and `bb` behind `NoirProver`. -/
structure Backend (π : Type) where
  writeProverToml : NoirWitness → Except String Unit
  prove : NoirWitness → Except String π
  verify : π → Except String Bool

structure ProveOutput (π : Type) where
  proof : π
  witness : NoirWitness
  verified : Bool

/-- `VmConfig { record_trace: true, ..config }`. -/
def traced (config : VmConfig) : VmConfig := { config with recordTrace := true }

section

variable (core : Core I) (H : Hashes) (attestationLeaf : List UInt8 → Fr) (vm : Vm I)
  (defaultConfig : VmConfig) (compiled : CompiledProgram I)

def replayClient : Client ToolCall Reply (Except VmError VmOutput) :=
  vm.execute (traced defaultConfig) compiled .nil

variable [InstructionSet I]

/-- `prove_from_artifacts` as far as the witness; `defaultConfig` is `VmConfig::default()`. -/
def witnessFromArtifacts (dryResult : DryRunResult) : Outcome ProveOutputError NoirWitness := do
  let bytecode ← (encodeProgram compiled).mapErr .encode
  let policyHash := dryResult.publicInputs.policyHash
  let tape := TapeHost.new dryResult.oracleTape
  let output ← (Outcome.ofExcept
    ((replayClient vm defaultConfig compiled).run (TapeHost.callTool core) tape).1).mapErr .execute
  let returnVal := returnValueI64 output.returnValue
  (Outcome.ofExcept (buildWitness core H attestationLeaf bytecode output.trace returnVal
    dryResult.oracleTape .nil output policyHash)).mapErr .witness

def proveFromArtifacts (backend : Backend π) (dryResult : DryRunResult) (doVerify : Bool) :
    Outcome ProveOutputError (ProveOutput π) := do
  let witness ← witnessFromArtifacts core H attestationLeaf vm defaultConfig compiled dryResult
  (Outcome.ofExcept (backend.writeProverToml witness)).mapErr .io
  let proof ← (Outcome.ofExcept (backend.prove witness)).mapErr .prove
  let verified ←
    if doVerify then (Outcome.ofExcept (backend.verify proof)).mapErr .prove else pure false
  return { proof, witness, verified }

variable {core H attestationLeaf vm defaultConfig compiled} {dryResult : DryRunResult}
  {w : NoirWitness}

/-- The hashes of a witness: those of the tape and the policy are the dry run's, the others
are the replay's. -/
structure Builds (core : Core I) (H : Hashes) (attestationLeaf : List UInt8 → Fr)
    (compiled : CompiledProgram I) (dryResult : DryRunResult) (output : VmOutput)
    (w : NoirWitness) : Prop where
  programHash : w.programHash = compiled.programHash
  inputHash : w.inputHash = hashInput core .nil
  toolResponsesHash : w.toolResponsesHash = commitmentHash H dryResult.oracleTape
  outputHash : w.outputHash = hashOutput core output
  attestationHash : w.attestationHash = attestationCommitment H attestationLeaf dryResult.oracleTape
  policyHash : w.policyHash = dryResult.publicInputs.policyHash

theorem witnessFromArtifacts_eq_ok_iff :
    witnessFromArtifacts core H attestationLeaf vm defaultConfig compiled dryResult = .ok w ↔
      compiled.instructions.length ≤ maxBytecode ∧ ∃ output,
        ((replayClient vm defaultConfig compiled).run (TapeHost.callTool core)
          (TapeHost.new dryResult.oracleTape)).1 = .ok output ∧
        buildWitness core H attestationLeaf (layout compiled) output.trace
          (returnValueI64 output.returnValue) dryResult.oracleTape .nil output
          dryResult.publicInputs.policyHash = .ok w := by
  unfold witnessFromArtifacts
  simp only [Outcome.bind_eq_ok, Outcome.mapErr_eq_ok, Outcome.ofExcept_eq_ok, encodeProgram_eq_ok]
  constructor
  · intro h
    obtain ⟨_, ⟨hcount, rfl⟩, hrest⟩ := h
    exact ⟨hcount, hrest⟩
  · intro h
    exact ⟨_, ⟨h.1, rfl⟩, h.2⟩

theorem witnessFromArtifacts_eq_ok
    (h : witnessFromArtifacts core H attestationLeaf vm defaultConfig compiled dryResult = .ok w) :
    ∃ output, ((replayClient vm defaultConfig compiled).run (TapeHost.callTool core)
        (TapeHost.new dryResult.oracleTape)).1 = .ok output ∧
      Builds core H attestationLeaf compiled dryResult output w := by
  obtain ⟨-, output, hrun, hbuild⟩ := witnessFromArtifacts_eq_ok_iff.mp h
  unfold buildWitness at hbuild
  split_ifs at hbuild with hlong
  cases hbuild
  exact ⟨output, hrun, rfl, rfl, rfl, rfl, rfl, rfl⟩

theorem proveFromArtifacts_eq_ok {backend : Backend π} {doVerify : Bool} {result : ProveOutput π}
    (h : proveFromArtifacts core H attestationLeaf vm defaultConfig compiled backend dryResult
      doVerify = .ok result) :
    witnessFromArtifacts core H attestationLeaf vm defaultConfig compiled dryResult =
      .ok result.witness := by
  unfold proveFromArtifacts at h
  obtain ⟨witness, hwitness, h⟩ := Outcome.bind_eq_ok.mp h
  obtain ⟨_, -, h⟩ := Outcome.bind_eq_ok.mp h
  obtain ⟨proof, -, h⟩ := Outcome.bind_eq_ok.mp h
  cases doVerify with
  | false =>
    cases h
    exact hwitness
  | true =>
    obtain ⟨verified, -, h⟩ := Outcome.bind_eq_ok.mp h
    cases h
    exact hwitness

end

/-! What a policy says of the replay. -/

section

variable (core : Core I) (vm : Vm I) (defaultConfig : VmConfig) (compiled : CompiledProgram I)
  (tape : OracleTape) (policy : OraclePolicy N)

def Consumed (e : Exchange TapeHost ToolCall Reply) : Prop :=
  e.after.cursor ≠ e.before.cursor

structure RespectsPolicy : Prop where
  accepted : ∀ e ∈ (replayClient vm defaultConfig compiled).exchanges (TapeHost.callTool core)
      (TapeHost.new tape), Consumed e → isHttpTool e.query.name = true →
    policy.checkHttpCall e.query.name ((getUrlFromArgs e.query.args).getD "") = .ok ()
  calls : ((replayClient vm defaultConfig compiled).run (TapeHost.callTool core)
    (TapeHost.new tape)).2.cursor ≤ policy.maxToolCalls.toNat
  payloads : ∀ entry ∈ tape.entries, entry.payload.length ≤ policy.maxPayloadBytesPerCall.toNat

/-- No vector holds more than `isize::MAX` bytes. -/
def Storable (tape : OracleTape) : Prop :=
  ∀ entry ∈ tape.entries, entry.payload.length < 2 ^ 63

instance (tape : OracleTape) : Decidable (Storable tape) :=
  List.decidableBAll (fun entry : TapeEntry => entry.payload.length < 2 ^ 63) _

/-- Nothing that a program can do under the default limits is against the policy. -/
structure RestrictsNothing (defaultConfig : VmConfig) (policy : OraclePolicy N) : Prop where
  accepts : defaultConfig.maxToolCalls.toNat ≠ 0 → policy.allowedDomains = [] ∧
    (policy.allowedHttpMethods = [] ∨
      "http_get" ∈ policy.allowedHttpMethods ∧ "http_post" ∈ policy.allowedHttpMethods)
  calls : defaultConfig.maxToolCalls.toNat ≤ policy.maxToolCalls.toNat
  payloads : 2 ^ 63 ≤ policy.maxPayloadBytesPerCall.toNat + 1

variable {core vm defaultConfig compiled tape policy}

theorem RestrictsNothing.respectsPolicy (h : RestrictsNothing defaultConfig policy)
    (hcap : CapsCalls vm) (htape : Storable tape) :
    RespectsPolicy core vm defaultConfig compiled tape policy := by
  have hclient : (replayClient vm defaultConfig compiled).AsksAtMost
      defaultConfig.maxToolCalls.toNat := hcap (traced defaultConfig) compiled .nil
  constructor
  · intro e he _ hhttp
    have hasked : defaultConfig.maxToolCalls.toNat ≠ 0 := by
      intro hzero
      have hnone := Client.length_queries_le hclient (TapeHost.callTool core) (TapeHost.new tape)
      rw [← Service.length_exchanges (TapeHost.callTool core) _ (TapeHost.new tape),
        ← Client.exchanges_eq, hzero] at hnone
      exact absurd (List.length_pos_of_mem he) (Nat.not_lt.mpr hnone)
    exact policy.passes_every_call_iff.mpr (h.accepts hasked) e.query hhttp
  · have hstep (k : Nat) (call : ToolCall) (host : TapeHost) (hle : host.cursor ≤ k) :
        (TapeHost.callTool core call host).2.cursor ≤ k + 1 :=
      (TapeHost.cursor_callTool_le core call host).trans (Nat.succ_le_succ hle)
    have hcursor := Client.run_invariant hstep (replayClient vm defaultConfig compiled) (k := 0)
      (s := TapeHost.new tape) (Nat.le_refl 0)
    have hcount := Client.length_queries_le hclient (TapeHost.callTool core) (TapeHost.new tape)
    have hcalls := h.calls
    omega
  · intro entry hentry
    have hlength := htape entry hentry
    have hpayloads := h.payloads
    omega

end

/-! Any restriction can be gone against. -/

/-- A program that spends its whole budget on one call, whatever it is answered. -/
def spends (I : Type) (call : ToolCall) : Vm I where
  execute := fun config _ _ =>
    Client.repeats call (.ok GuestInput.zeroOutput) config.maxToolCalls.toNat
  execute_asksAtMost := by
    intro config _ _
    apply (Client.repeats_asksAtMost call _ _).mono
    have hlt := config.maxToolCalls.toNat_lt
    omega

theorem spends_capsCalls (I : Type) (call : ToolCall) : CapsCalls (spends I call) :=
  fun _ _ _ => Client.repeats_asksAtMost _ _ _

section

variable (R : JsonRenderer N) (core : Core I) (H : Hashes) (attestationLeaf : List UInt8 → Fr)
  (policy : OraclePolicy N)

/-- What a dry run records that skips the policy's checks and commits its hash. -/
def skippedPolicy (tape : OracleTape) : DryRunResult where
  output := GuestInput.zeroOutput
  oracleTape := tape
  attestations := []
  publicInputs := computePublicInputsWithPolicy core H attestationLeaf R (.replicate 32 0) .nil
    tape GuestInput.zeroOutput policy

def emptyProgram (I : Type) : CompiledProgram I := ⟨[], .replicate 32 0⟩

theorem exists_witness_of_spends [InstructionSet I] (call : ToolCall) (defaultConfig : VmConfig)
    (tape : OracleTape) :
    ∃ w, witnessFromArtifacts core H attestationLeaf (spends I call) defaultConfig (emptyProgram I)
      (skippedPolicy R core H attestationLeaf policy tape) = .ok w := by
  have hbuilds : ∃ w, buildWitness core H attestationLeaf (layout (emptyProgram I)) []
      (returnValueI64 (.integer 0)) tape .nil GuestInput.zeroOutput
      (policy.policyHash R core.sha256) = .ok w := buildWitness_ok_iff.mpr (Nat.zero_le _)
  obtain ⟨w, hw⟩ := hbuilds
  refine ⟨w, witnessFromArtifacts_eq_ok_iff.mpr ⟨Nat.zero_le _, GuestInput.zeroOutput, ?_, hw⟩⟩
  exact Client.run_repeats _ _ _ _ _

variable {R core H attestationLeaf policy}

theorem RespectsPolicy.accepts_spent {call : ToolCall} {defaultConfig : VmConfig}
    {tape : OracleTape} (hbudget : defaultConfig.maxToolCalls.toNat ≠ 0) (htape : tape.entries ≠ [])
    (hhttp : isHttpTool call.name = true)
    (h : RespectsPolicy core (spends I call) defaultConfig (emptyProgram I) tape policy) :
    policy.checkHttpCall call.name ((getUrlFromArgs call.args).getD "") = .ok () := by
  obtain ⟨n, hn⟩ := Nat.exists_eq_succ_of_ne_zero hbudget
  obtain ⟨entry, rest, hentries⟩ := List.exists_cons_of_ne_nil htape
  have hentry : (TapeHost.new tape).tape.entries[(TapeHost.new tape).cursor]? = some entry := by
    change tape.entries[0]? = some entry
    rw [hentries]
    rfl
  have hfirst : ⟨.new tape, call, TapeHost.replyOf core entry, ⟨tape, 1⟩⟩ ∈
      (replayClient (spends I call) defaultConfig (emptyProgram I)).exchanges
        (TapeHost.callTool core) (TapeHost.new tape) := by
    unfold replayClient spends traced
    dsimp only
    rw [hn, Client.repeats, Client.exchanges, TapeHost.callTool_of_entry hentry]
    exact List.mem_cons_self
  exact h.accepted _ hfirst Nat.one_ne_zero hhttp

theorem cursor_of_spends (core : Core I) (call : ToolCall) {defaultConfig : VmConfig}
    {tape : OracleTape} (htape : tape.entries.length = defaultConfig.maxToolCalls.toNat) :
    ((replayClient (spends I call) defaultConfig (emptyProgram I)).run (TapeHost.callTool core)
      (TapeHost.new tape)).2.cursor = defaultConfig.maxToolCalls.toNat := by
  rw [← htape]
  apply cursor_run_of_takes core (Nat.zero_le _)
  rw [GuestInput.remaining_new]
  apply Client.takes_repeats
  rw [List.length_map]
  exact htape

end

/-- Whatever was recorded under the hash of a policy, by a host that enforced it or by one
that did not, is replayed and committed under that hash. So the replays behind a policy's
witnesses respect it exactly when it rules out nothing that the default limits allow. -/
theorem witness_respects_policy_iff [InstructionSet I] (R : JsonRenderer N) (core : Core I)
    (H : Hashes) (attestationLeaf : List UInt8 → Fr) (defaultConfig : VmConfig)
    (policy : OraclePolicy N) :
    (∀ (vm : Vm I) (compiled : CompiledProgram I) (dryResult : DryRunResult) (w : NoirWitness),
      CapsCalls vm → Storable dryResult.oracleTape →
      dryResult.publicInputs.policyHash = policy.policyHash R core.sha256 →
      witnessFromArtifacts core H attestationLeaf vm defaultConfig compiled dryResult = .ok w →
      w.policyHash = policy.policyHash R core.sha256 ∧
        RespectsPolicy core vm defaultConfig compiled dryResult.oracleTape policy) ↔
    RestrictsNothing defaultConfig policy := by
  constructor
  · intro hall
    have hspent (call : ToolCall) (tape : OracleTape) (htape : Storable tape) :
        RespectsPolicy core (spends I call) defaultConfig (emptyProgram I) tape policy := by
      obtain ⟨w, hw⟩ := exists_witness_of_spends (I := I) R core H attestationLeaf policy call
        defaultConfig tape
      exact (hall _ _ _ w (spends_capsCalls I call) htape rfl hw).2
    let answers (n : Nat) : OracleTape := ⟨.replicate n (.ok []), []⟩
    have hanswers (n : Nat) : Storable (answers n) := by
      intro entry hentry
      rw [List.eq_of_mem_replicate hentry]
      decide
    constructor
    · intro hbudget
      apply policy.passes_every_call_iff.mp
      intro call hhttp
      exact (hspent call (answers 1) (hanswers 1)).accepts_spent hbudget
        (List.cons_ne_nil _ _) hhttp
    · have hcalls := (hspent ⟨"random", .new⟩ (answers defaultConfig.maxToolCalls.toNat)
        (hanswers _)).calls
      rwa [cursor_of_spends core _ List.length_replicate] at hcalls
    · by_contra hsmall
      let long : TapeEntry := .ok (.replicate (policy.maxPayloadBytesPerCall.toNat + 1) 0)
      have hlength : long.payload.length = policy.maxPayloadBytesPerCall.toNat + 1 :=
        List.length_replicate
      have hpayloads := (hspent ⟨"random", .new⟩ ⟨[long], []⟩ (by
        intro entry hentry
        rw [List.mem_singleton.mp hentry, hlength]
        omega)).payloads long List.mem_cons_self
      omega
  · intro hnothing vm compiled dryResult w hcap htape hpolicy hbuilt
    obtain ⟨output, -, hbuilds⟩ := witnessFromArtifacts_eq_ok hbuilt
    exact ⟨hbuilds.policyHash.trans hpolicy, hnothing.respectsPolicy hcap htape⟩

def callsOnce (call : ToolCall) : Vm Instruction where
  execute := fun _ _ _ => .ask call fun reply => .done (match reply with
    | .ok _ => .ok GuestInput.zeroOutput
    | .error message => .error (.toolError message))
  execute_asksAtMost := by
    intro _ _ _
    apply Client.AsksAtMost.mono (m := 1)
    · exact fun _ => trivial
    · decide

def oneCallConfig : VmConfig := ⟨0, 0, 0, 1, 0, 0, 0, false⟩

def unrestricted : OraclePolicy Int :=
  { OraclePolicy.priceFeed with
    allowedDomains := []
    allowedHttpMethods := []
    maxPayloadBytesPerCall := 0xffffffffffffffff }

def recordedCall : OracleTape := ⟨[.ok (utf8 "\x7b\x7d")], [[]]⟩

theorem witness_respects_policy_allowed :
    RespectsPolicy plainCore (spends Instruction deniedCall) oneCallConfig
      (emptyProgram Instruction) recordedCall unrestricted := by
  obtain ⟨w, hw⟩ := exists_witness_of_spends (I := Instruction) integerRenderer plainCore
    rollingHashes (fun _ => 0) unrestricted deniedCall oneCallConfig recordedCall
  have hnothing : RestrictsNothing oneCallConfig unrestricted := by
    refine ⟨fun _ => ⟨rfl, .inl rfl⟩, ?_, ?_⟩
    · decide
    · decide +kernel
  exact ((witness_respects_policy_iff integerRenderer plainCore rollingHashes (fun _ => 0)
    oneCallConfig unrestricted).mpr hnothing _ _ _ w (spends_capsCalls _ _) (by decide) rfl hw).2

/-- The program asks a domain outside the policy, and the witness is built. -/
theorem witness_violates_policy :
    ¬ ∀ (vm : Vm Instruction) (defaultConfig : VmConfig) (policy : OraclePolicy Int)
      (compiled : CompiledProgram Instruction) (dryResult : DryRunResult) (w : NoirWitness),
      CapsCalls vm → Storable dryResult.oracleTape →
      dryResult.publicInputs.policyHash = policy.policyHash integerRenderer plainCore.sha256 →
      witnessFromArtifacts plainCore rollingHashes (fun _ => 0) vm defaultConfig compiled
        dryResult = .ok w →
      RespectsPolicy plainCore vm defaultConfig compiled dryResult.oracleTape policy := by
  intro hall
  obtain ⟨w, hw⟩ := exists_witness_of_spends (I := Instruction) integerRenderer plainCore
    rollingHashes (fun _ => 0) OraclePolicy.priceFeed deniedCall oneCallConfig recordedCall
  have hrespects := hall _ _ OraclePolicy.priceFeed _ _ w (spends_capsCalls _ _) (by decide) rfl hw
  exact absurd (hrespects.accepts_spent (by decide) (by decide) rfl) (by decide)

end ProvenoZk.Drivers
