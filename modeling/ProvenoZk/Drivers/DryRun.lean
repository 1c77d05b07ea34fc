import ProvenoZk.Noir.Witness
import ProvenoZk.Policy.Alignment

/-! The dry run: a program runs against a live host, and what it was answered is
recorded on a tape. A replay of the tape hears the same. -/
namespace ProvenoZk.Drivers
open Foundation Proveno Policy Zkvm Noir

variable {I N σ : Type}

structure DryRunResult where
  output : VmOutput
  oracleTape : OracleTape
  attestations : List (List UInt8)
  publicInputs : PublicInputs

section

variable (core : Core I) (H : Hashes) (attestationLeaf : List UInt8 → Fr)

def computePublicInputs (programHash : Bytes32) (inputValue : LuaValue) (oracleTape : OracleTape)
    (output : VmOutput) : PublicInputs where
  programHash := programHash
  inputHash := hashInput core inputValue
  toolResponsesHash := commitmentHash H oracleTape
  outputHash := hashOutput core output
  attestationHash := attestationCommitment H attestationLeaf oracleTape
  policyHash := .replicate 32 0

def computePublicInputsWithPolicy (R : JsonRenderer N) (programHash : Bytes32)
    (inputValue : LuaValue) (oracleTape : OracleTape) (output : VmOutput)
    (policy : OraclePolicy N) : PublicInputs where
  programHash := programHash
  inputHash := hashInput core inputValue
  toolResponsesHash := commitmentHash H oracleTape
  outputHash := hashOutput core output
  attestationHash := attestationCommitment H attestationLeaf oracleTape
  policyHash := policy.policyHash R core.sha256

end

/-- `HostInterface`, over the state of a host. -/
structure LiveHost (σ : Type) where
  callTool : Service σ ToolCall Reply
  takeAttestation : σ → Option (List UInt8) × σ

namespace LiveHost

variable (host : LiveHost σ)

/-- `OraclePolicyHost::new(host, policy)`. -/
def underPolicy (core : Core I) (fromSlice : List UInt8 → Except String (Json N))
    (policy : OraclePolicy N) : LiveHost σ :=
  { host with callTool := OraclePolicyHost.callTool core fromSlice host.callTool policy }

/-- One call as the VM makes it: the answer, and the attestation for it if it takes one. -/
def exchange (core : Core I) (call : ToolCall) (s : σ) : Reply × Option (List UInt8) × σ :=
  let (reply, after) := host.callTool call s
  if core.takesAttestation call reply then (reply, host.takeAttestation after)
  else (reply, none, after)

def serve (core : Core I) : Service σ ToolCall Reply := fun call s =>
  ((host.exchange core call s).1, (host.exchange core call s).2.2)

def attestation (core : Core I) (call : ToolCall) (s : σ) : List UInt8 :=
  ((host.exchange core call s).2.1).getD []

variable {host}

theorem reply_serve (core : Core I) (call : ToolCall) (s : σ) :
    (host.serve core call s).1 = (host.callTool call s).1 := by
  unfold serve exchange
  dsimp only
  split <;> rfl

theorem serve_of_no_attestation (h : ∀ s, host.takeAttestation s = (none, s)) (core : Core I) :
    host.serve core = host.callTool := by
  funext call s
  unfold serve exchange
  dsimp only
  rw [h]
  split <;> rfl

end LiveHost

structure Prover (σ : Type) where
  config : VmConfig
  host : LiveHost σ
  state : σ

namespace Prover

variable (prover : Prover σ) (core : Core I) (vm : Vm I) (program : CompiledProgram I)
  (input : LuaValue)

/-- `vm.execute`, and the tape of its transcript. The VM fails a run in which it cannot
serialize a response. -/
def record : Except VmError (VmOutput × OracleTape) :=
  let client := vm.execute prover.config program input
  let calls := client.exchanges (prover.host.serve core) prover.state
  match (client.run (prover.host.serve core) prover.state).1, recordTape core (calls.map (·.reply)) with
  | .ok output, some entries =>
    .ok (output, ⟨entries, calls.map fun e => prover.host.attestation core e.query e.before⟩)
  | .ok _, none => .error (.other "response is not serializable")
  | .error e, _ => .error e

def dryRun (H : Hashes) (attestationLeaf : List UInt8 → Fr) (attestations : List (List UInt8)) :
    Except VmError DryRunResult := do
  let (output, oracleTape) ← prover.record core vm program input
  let publicInputs := computePublicInputs core H attestationLeaf program.programHash input
    oracleTape output
  return { output, oracleTape, attestations, publicInputs }

def dryRunWithPolicy (R : JsonRenderer N) (fromSlice : List UInt8 → Except String (Json N))
    (H : Hashes) (attestationLeaf : List UInt8 → Fr) (attestations : List (List UInt8))
    (policy : OraclePolicy N) : Except VmError DryRunResult := do
  let guarded := { prover with host := prover.host.underPolicy core fromSlice policy }
  let (output, oracleTape) ← guarded.record core vm program input
  let publicInputs := computePublicInputsWithPolicy core H attestationLeaf R program.programHash
    input oracleTape output policy
  return { output, oracleTape, attestations, publicInputs }

end Prover

theorem replay_tape_of_record {A : Type} {core : Core I} (hcore : core.ReadsBack)
    {serve : Service σ ToolCall Reply} (client : Client ToolCall Reply A) {s : σ}
    {entries : List TapeEntry}
    (hrecord : recordTape core ((client.exchanges serve s).map (·.reply)) = some entries)
    {host : TapeHost} (htape : host.tape.entries.drop host.cursor = entries) :
    (client.run (TapeHost.callTool core) host).1 = (client.run serve s).1 ∧
      client.queries (TapeHost.callTool core) host = client.queries serve s := by
  induction client generalizing s entries host with
  | done result => exact ⟨rfl, rfl⟩
  | ask call next ih =>
    rw [Client.exchanges, List.map_cons] at hrecord
    obtain ⟨entry, rest, hentry, hrest, hcons⟩ := recordTape_cons_eq_some.mp hrecord
    obtain ⟨hnext, hleft⟩ := TapeHost.next_of_drop (htape.trans hcons)
    rw [Client.run, Client.run, Client.queries, Client.queries,
      callTool_tape_of_record hcore hentry hnext]
    apply And.imp_right (congrArg (call :: ·))
    exact ih _ hrest hleft

theorem run_tape_of_record {A : Type} {core : Core I} (hcore : core.ReadsBack)
    {serve : Service σ ToolCall Reply} (client : Client ToolCall Reply A) {s : σ}
    {entries : List TapeEntry}
    (hrecord : recordTape core ((client.exchanges serve s).map (·.reply)) = some entries)
    {host : TapeHost} (htape : host.tape.entries.drop host.cursor = entries) :
    (client.run (TapeHost.callTool core) host).1 = (client.run serve s).1 :=
  (replay_tape_of_record hcore client hrecord htape).1

structure Records (prover : Prover σ) (core : Core I) (vm : Vm I) (program : CompiledProgram I)
    (input : LuaValue) (output : VmOutput) (tape : OracleTape) : Prop where
  run : ((vm.execute prover.config program input).run (prover.host.serve core) prover.state).1 =
    .ok output
  entries : recordTape core (((vm.execute prover.config program input).exchanges
    (prover.host.serve core) prover.state).map (·.reply)) = some tape.entries

theorem Prover.record_eq_ok {prover : Prover σ} {core : Core I} {vm : Vm I}
    {program : CompiledProgram I} {input : LuaValue} {output : VmOutput} {tape : OracleTape}
    (h : prover.record core vm program input = .ok (output, tape)) :
    Records prover core vm program input output tape := by
  unfold record at h
  dsimp only at h
  split at h
  · rename_i _ entries hrun hentries
    cases h
    exact ⟨hrun, hentries⟩
  · cases h
  · cases h

def Prover.underPolicy (prover : Prover σ) (core : Core I)
    (fromSlice : List UInt8 → Except String (Json N)) (policy : OraclePolicy N) : Prover σ :=
  { prover with host := prover.host.underPolicy core fromSlice policy }

theorem Prover.dryRunWithPolicy_eq_ok {prover : Prover σ} {core : Core I} {vm : Vm I}
    {program : CompiledProgram I} {input : LuaValue} {R : JsonRenderer N}
    {fromSlice : List UInt8 → Except String (Json N)} {H : Hashes}
    {attestationLeaf : List UInt8 → Fr} {attestations : List (List UInt8)}
    {policy : OraclePolicy N} {result : DryRunResult} :
    prover.dryRunWithPolicy core vm program input R fromSlice H attestationLeaf attestations
        policy = .ok result ↔
      ∃ output tape, (prover.underPolicy core fromSlice policy).record core vm program input =
          .ok (output, tape) ∧
        result = ⟨output, tape, attestations, computePublicInputsWithPolicy core H attestationLeaf
          R program.programHash input tape output policy⟩ := by
  change Except.bind ((prover.underPolicy core fromSlice policy).record core vm program input) _ =
    _ ↔ _
  cases (prover.underPolicy core fromSlice policy).record core vm program input with
  | error e => simp [Except.bind]
  | ok recorded =>
    constructor
    · intro h
      exact ⟨recorded.1, recorded.2, rfl, (Except.ok.inj h).symm⟩
    · rintro ⟨output, tape, hrecord, hresult⟩
      cases hrecord
      rw [hresult]
      rfl

def idleProver : Prover Unit where
  config := ⟨0, 0, 0, 0, 0, 0, 0, false⟩
  host := ⟨emptyResponse, fun s => (none, s)⟩
  state := ()

end ProvenoZk.Drivers
