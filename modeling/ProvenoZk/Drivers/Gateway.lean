import ProvenoZk.Drivers.DryRun
import ProvenoZk.Zkvm.GuestInput

/-! `reconstruct`: proving inputs rebuilt from a stored gateway trace. The stored source is
compiled again, the recorded calls are replayed strictly, and what comes out is compared
with the footer; the public inputs come from a second replay, the guest's. -/
namespace ProvenoZk.Drivers
open Foundation Proveno Policy Zkvm Noir

variable {I N ρ : Type}

/-- `VmConfig` without `record_trace`. -/
structure VmLimits where
  gasLimit : UInt64
  memoryLimitBytes : UInt64
  maxCallDepth : UInt64
  maxToolCalls : UInt64
  maxToolBytesIn : UInt64
  maxToolBytesOut : UInt64
  maxOutputBytes : UInt64

structure Header where
  programHash : String
  vmConfig : VmLimits

structure Footer where
  output : Option String
  gasUsed : UInt64
  memoryUsed : UInt64

structure Trace (ρ : Type) where
  header : Header
  entries : List ρ
  footer : Footer

/-- A directory of files. Reading one fails with the text of the error. -/
structure Store where
  root : String
  read : String → Except String (List UInt8)

namespace Store

def join (dir name : String) : String :=
  if dir = "" ∨ dir.toList.getLast? = some '/' then dir ++ name else dir ++ "/" ++ name

def readToString (store : Store) (path : String) : Except String String := do
  let bytes ← store.read path
  match fromUtf8 bytes with
  | some text => .ok text
  | none => .error "stream did not contain valid UTF-8"

end Store

/-- `parse`, `compile` and `verify` of the VM crate, with what is shown of their errors. -/
structure Frontend (I : Type) where
  Block : Type
  parse : String → Except (Nat × String) Block
  compile : Block → Except String (CompiledProgram I)
  verify : CompiledProgram I → Except String Unit

/-- What else the reconstruction calls: the reader of trace files, the tape that is built
from records and its strict host, and the debug texts of library types. -/
structure Gateway (ρ : Type) where
  readTrace : List UInt8 → Except String (Trace ρ)
  fromRecords : List ρ → OracleTape
  attestation : ρ → List UInt8
  /-- The state of a strict `TapeHost`. -/
  State : Type
  strict : List ρ → State
  callTool : Service State ToolCall Reply
  /-- The number of the call the replay diverged at. -/
  divergence : State → Option Nat
  remaining : State → Nat
  debugError : VmError → String
  debugOutput : Option String → String

structure Reconstruction (I N : Type) where
  program : CompiledProgram I
  dryRun : DryRunResult
  vmConfig : VmConfig
  policy : OraclePolicy N

def policyFor (config : VmConfig) : OraclePolicy N where
  allowedDomains := []
  allowedHttpMethods := []
  maxToolCalls := config.maxToolCalls
  maxPayloadBytesPerCall := config.maxToolBytesIn
  tlsRequirement := .unattestedPermitted
  requiredOutputSchema := none
  schemaVersions := []
  outputSchema_distinctKeys := Json.distinctKeys_none
  schemaVersions_distinctKeys := Json.distinctKeys_empty

/-- A key of hexadecimal digits and dashes, and nothing that leads out of the directory. -/
def storePath (dir key ext : String) : Except String String :=
  if ¬ key.isEmpty ∧ (utf8 key).all fun b =>
      (0x30 ≤ b ∧ b ≤ 0x39) ∨ (0x61 ≤ b ∧ b ≤ 0x66) ∨ b = 0x2d then
    .ok (Store.join dir s!"{key}.{ext}")
  else .error s!"invalid store key '{key}'"

def hex (bytes : Bytes32) : String := String.ofList (bytes.toList.flatMap hexByte)

def VmLimits.config (limits : VmLimits) : VmConfig where
  gasLimit := limits.gasLimit
  memoryLimitBytes := limits.memoryLimitBytes
  maxCallDepth := limits.maxCallDepth
  maxToolCalls := limits.maxToolCalls
  maxToolBytesIn := limits.maxToolBytesIn
  maxToolBytesOut := limits.maxToolBytesOut
  maxOutputBytes := limits.maxOutputBytes
  recordTrace := false

section

variable (gateway : Gateway ρ) (frontend : Frontend I) (core : Core I) (vm : Vm I)
  (R : JsonRenderer N) (store : Store) (traceId : String)

def loadTrace : Except String (Trace ρ) := do
  let tracePath ← storePath (Store.join store.root "traces") traceId "json"
  let bytes ← (store.read tracePath).mapError fun e => s!"reading {tracePath}: {e}"
  (gateway.readTrace bytes).mapError fun e => s!"parsing {tracePath}: {e}"

def loadProgram (header : Header) : Except String (CompiledProgram I) := do
  let name := header.programHash
  let programPath ← storePath (Store.join store.root "programs") name "lua"
  let source ← (store.readToString programPath).mapError fun e => s!"reading {programPath}: {e}"
  let block ← (frontend.parse source).mapError fun (line, message) =>
    s!"program {name}: line {line}: {message}"
  let program ← (frontend.compile block).mapError fun message => s!"program {name}: {message}"
  (frontend.verify program).mapError fun e => s!"program {name}: verification: {e}"
  let programHash := hex (core.computeProgramHashSha256 program.prototypes)
  if programHash ≠ name then
    .error s!"program_hash: header has {name}, stored source compiles to {programHash}"
  else .ok program

/-- `canonical_serialize(v).ok()`, as text if it is text. -/
def replayedOutput (v : LuaValue) : Option String :=
  match core.canonicalSerialize v with
  | .ok bytes => fromUtf8 bytes
  | .error _ => none

def mismatches (footer : Footer) (output : VmOutput) (host : gateway.State) : List String :=
  let replayed := replayedOutput core output.returnValue
  let diverged := match gateway.divergence host with
    | some seq => [s!"replay diverged at call {seq}"]
    | none => []
  let remaining := gateway.remaining host
  let left := if remaining > 0 then [s!"{remaining} recorded calls left unconsumed"] else []
  let recorded := gateway.debugOutput footer.output
  let shown := gateway.debugOutput replayed
  let returned := if replayed ≠ footer.output then
    [s!"output: recorded {recorded}, replayed {shown}"] else []
  let gas := if output.gasUsed ≠ footer.gasUsed then
    [s!"gas_used: recorded {footer.gasUsed}, replayed {output.gasUsed}"] else []
  let memory := if output.memoryUsed ≠ footer.memoryUsed then
    [s!"memory_used: recorded {footer.memoryUsed}, replayed {output.memoryUsed}"] else []
  diverged ++ left ++ returned ++ gas ++ memory

def strictReplay (config : VmConfig) (program : CompiledProgram I) (records : List ρ) :
    Except VmError VmOutput × gateway.State :=
  (vm.execute config program .nil).run gateway.callTool (gateway.strict records)

def gatewayInput (config : VmConfig) (program : CompiledProgram I) (tape : OracleTape) :
    GuestInput I :=
  (GuestInput.new program .nil tape config []).withPolicyCanonical
    ((policyFor config : OraclePolicy N).canonicalBytes R)

def reconstruct : Outcome String (Reconstruction I N) := do
  let trace ← Outcome.ofExcept (loadTrace gateway store traceId)
  let program ← Outcome.ofExcept (loadProgram frontend core store trace.header)
  let vmConfig := trace.header.vmConfig.config
  let records := trace.entries
  let tape := gateway.fromRecords records
  let (result, host) := strictReplay gateway vm vmConfig program records
  let output ← Outcome.ofExcept (result.mapError fun e =>
    let shown := gateway.debugError e
    s!"trace {traceId}: replay did not complete: {shown}")
  let mismatches := mismatches gateway core trace.footer output host
  if ¬ mismatches.isEmpty then
    let listed := "; ".intercalate mismatches
    .error (.failed s!"trace {traceId}: replay does not match the recording: {listed}")
  else
    let (_, publicInputs) ← ((gatewayInput R vmConfig program tape).replayPublicInputs core vm
      .host64).mapErr fun e =>
        let shown := gateway.debugError e
        s!"trace {traceId}: guest replay failed: {shown}"
    let attestations := records.map gateway.attestation
    .ok { program, dryRun := { output, oracleTape := tape, attestations, publicInputs }, vmConfig,
          policy := policyFor vmConfig }

end

/-! What a reconstruction that succeeded went through. -/

section

variable {gateway : Gateway ρ} {frontend : Frontend I} {core : Core I} {vm : Vm I}
  {R : JsonRenderer N} {store : Store} {traceId : String}

structure CompilesTo (frontend : Frontend I) (core : Core I) (store : Store) (header : Header)
    (program : CompiledProgram I) : Prop where
  source : ∃ path text block, store.readToString path = .ok text ∧
    storePath (Store.join store.root "programs") header.programHash "lua" = .ok path ∧
    frontend.parse text = .ok block ∧ frontend.compile block = .ok program
  hash : hex (core.computeProgramHashSha256 program.prototypes) = header.programHash

theorem loadProgram_eq_ok {header : Header} {program : CompiledProgram I}
    (h : loadProgram frontend core store header = .ok program) :
    CompilesTo frontend core store header program := by
  unfold loadProgram at h
  simp only [except_bind_eq_ok, mapError_eq_ok] at h
  obtain ⟨path, hpath, text, htext, block, hblock, compiled, hcompiled, _, -, h⟩ := h
  split_ifs at h with hhash
  cases h
  exact ⟨⟨path, text, block, htext, hpath, hblock, hcompiled⟩, not_not.mp hhash⟩

theorem mismatches_eq_nil {footer : Footer} {output : VmOutput} {host : gateway.State} :
    mismatches gateway core footer output host = [] ↔
      gateway.divergence host = none ∧ gateway.remaining host = 0 ∧
        replayedOutput core output.returnValue = footer.output ∧
        output.gasUsed = footer.gasUsed ∧ output.memoryUsed = footer.memoryUsed := by
  unfold mismatches
  dsimp only
  have hdiverged : (match gateway.divergence host with
      | some seq => [s!"replay diverged at call {seq}"]
      | none => []) = [] ↔ gateway.divergence host = none := by
    cases gateway.divergence host <;> simp
  simp only [List.append_eq_nil_iff, hdiverged, ite_eq_right_iff, reduceCtorEq, imp_false,
    Nat.not_lt, Nat.le_zero, not_not, ne_eq, and_assoc]

/-- The trace and the program were read, the strict replay matches the footer, and the
public inputs are those of the guest's replay. -/
structure Reconstructs (gateway : Gateway ρ) (frontend : Frontend I) (core : Core I) (vm : Vm I)
    (R : JsonRenderer N) (store : Store) (traceId : String) (trace : Trace ρ)
    (r : Reconstruction I N) : Prop where
  loaded : loadTrace gateway store traceId = .ok trace
  program : loadProgram frontend core store trace.header = .ok r.program
  vmConfig : r.vmConfig = trace.header.vmConfig.config
  policy : r.policy = policyFor r.vmConfig
  tape : r.dryRun.oracleTape = gateway.fromRecords trace.entries
  attestations : r.dryRun.attestations = trace.entries.map gateway.attestation
  completes : (strictReplay gateway vm r.vmConfig r.program trace.entries).1 =
    .ok r.dryRun.output
  agrees : mismatches gateway core trace.footer r.dryRun.output
    (strictReplay gateway vm r.vmConfig r.program trace.entries).2 = []
  replays : ∃ output, (gatewayInput R r.vmConfig r.program r.dryRun.oracleTape).replayPublicInputs
    core vm .host64 = .ok (output, r.dryRun.publicInputs)

theorem reconstruct_eq_ok {r : Reconstruction I N} :
    reconstruct gateway frontend core vm R store traceId = .ok r ↔
      ∃ trace, Reconstructs gateway frontend core vm R store traceId trace r := by
  unfold reconstruct
  simp only [Outcome.bind_eq_ok, Outcome.ofExcept_eq_ok, mapError_eq_ok]
  constructor
  · rintro ⟨trace, htrace, program, hprogram, output, houtput, h⟩
    split_ifs at h with hagrees
    simp only [Outcome.bind_eq_ok, Outcome.mapErr_eq_ok] at h
    obtain ⟨⟨replayed, publicInputs⟩, hreplay, h⟩ := h
    cases h
    rw [List.isEmpty_iff] at hagrees
    exact ⟨trace, htrace, hprogram, rfl, rfl, rfl, rfl, houtput, hagrees, replayed, hreplay⟩
  · rintro ⟨trace, hloaded, hprogram, hconfig, hpolicy, htape, hattestations, houtput, hagrees,
      replayed, hreplay⟩
    cases r with
    | mk program dryRun vmConfig policy =>
      cases dryRun with
      | mk output tape attestations publicInputs =>
        dsimp only at hprogram hconfig hpolicy htape hattestations houtput hagrees hreplay
        subst hconfig hpolicy htape hattestations
        refine ⟨trace, hloaded, program, hprogram, output, houtput, ?_⟩
        rw [if_neg (by simp [hagrees])]
        simp only [Outcome.bind_eq_ok, Outcome.mapErr_eq_ok]
        exact ⟨_, hreplay, rfl⟩

end

end ProvenoZk.Drivers
