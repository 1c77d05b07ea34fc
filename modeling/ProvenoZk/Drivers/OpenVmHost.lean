import ProvenoZk.Drivers.NoirArtifacts

/-! `proveno-openvm-host`, and what either driver keeps of the run that was recorded.
Both replay under the input `Nil`; the limits and the policy are those the driver has,
and the recorded ones are not compared with them. -/
namespace ProvenoZk.Drivers
open Foundation Proveno Policy Zkvm Noir

variable {I N σ π : Type}

inductive HostError where
  | replayFailed (error : VmError)
  /-- `replay diverged from the dry run`, with what either returned. -/
  | diverged (recorded replayed : List UInt8)

def canon (core : Core I) (v : LuaValue) : List UInt8 :=
  match core.canonicalSerialize v with
  | .ok bytes => bytes
  | .error _ => utf8 "<unserializable>"

/-- What `run` ships to the guest. The calls of a tape, which are cleared, are not part of
the model. -/
def guestInput (R : JsonRenderer N) (program : CompiledProgram I) (dry : DryRunResult)
    (config : VmConfig) (policy : Option (OraclePolicy N)) : GuestInput I :=
  let input := GuestInput.new program .nil dry.oracleTape config []
  match policy with
  | some p => input.withPolicyCanonical (p.canonicalBytes R)
  | none => input

/-- `run`, as far as it decides whether to go on to the prover. -/
def hostRun (R : JsonRenderer N) (core : Core I) (vm : Vm I) (program : CompiledProgram I)
    (dry : DryRunResult) (config : VmConfig) (policy : Option (OraclePolicy N)) :
    Outcome HostError (GuestInput I × PublicInputs) := do
  let input := guestInput R program dry config policy
  let (output, expected) ← (input.replayPublicInputs core vm .host64).mapErr .replayFailed
  let replayed := canon core output.returnValue
  let recorded := canon core dry.output.returnValue
  if replayed ≠ recorded then .error (.failed (.diverged recorded replayed))
  else .ok (input, expected)

def policyHashOf (R : JsonRenderer N) (core : Core I) : Option (OraclePolicy N) → Bytes32
  | some p => p.policyHash R core.sha256
  | none => .replicate 32 0

def Prover.dryRunUnder (prover : Prover σ) (R : JsonRenderer N) (core : Core I)
    (fromSlice : List UInt8 → Except String (Json N)) (H : Hashes)
    (attestationLeaf : List UInt8 → Fr) (vm : Vm I) (program : CompiledProgram I) (input : LuaValue)
    (attestations : List (List UInt8)) : Option (OraclePolicy N) → Except VmError DryRunResult
  | some p => prover.dryRunWithPolicy core vm program input R fromSlice H attestationLeaf
      attestations p
  | none => prover.dryRun core vm program input H attestationLeaf attestations

/-- No other value has the canonical bytes of an integer. -/
def TellsIntegers (core : Core I) : Prop :=
  ∀ n v, canon core v = canon core (.integer n) → v = .integer n

/-- Recording the trace does not change what a program returns. -/
def TraceNeutral (vm : Vm I) : Prop :=
  ∀ (config : VmConfig) (program : CompiledProgram I) (input : LuaValue) {σ : Type}
    (serve : Service σ ToolCall Reply) (s : σ),
    ((vm.execute (traced config) program input).run serve s).1.map VmOutput.returnValue =
      ((vm.execute config program input).run serve s).1.map VmOutput.returnValue

section

variable {R : JsonRenderer N} {core : Core I} {fromSlice : List UInt8 → Except String (Json N)}
  {H : Hashes} {attestationLeaf : List UInt8 → Fr} {vm : Vm I} {program : CompiledProgram I}
  {input : LuaValue} {attestations : List (List UInt8)} {policy : Option (OraclePolicy N)}
  {dry : DryRunResult} {prover : Prover σ}

theorem Prover.dryRunUnder_eq_ok
    (h : prover.dryRunUnder R core fromSlice H attestationLeaf vm program input attestations policy =
      .ok dry) :
    (∃ host, Records { prover with host } core vm program input dry.output dry.oracleTape) ∧
      dry.publicInputs =
        { programHash := program.programHash
          inputHash := hashInput core input
          toolResponsesHash := commitmentHash H dry.oracleTape
          outputHash := hashOutput core dry.output
          attestationHash := attestationCommitment H attestationLeaf dry.oracleTape
          policyHash := policyHashOf R core policy } := by
  cases policy with
  | none =>
    change Except.bind _ _ = _ at h
    cases hrecord : prover.record core vm program input with
    | error e => simp [hrecord, Except.bind] at h
    | ok recorded =>
      rw [hrecord] at h
      cases h
      exact ⟨⟨prover.host, Prover.record_eq_ok hrecord⟩, rfl⟩
  | some p =>
    obtain ⟨output, tape, hrecord, rfl⟩ := Prover.dryRunWithPolicy_eq_ok.mp h
    exact ⟨⟨_, Prover.record_eq_ok hrecord⟩, rfl⟩

theorem Records.returnValue_eq {output replayed : VmOutput} {tape : OracleTape}
    (h : Records prover core vm program input output tape) (hcore : core.ReadsBack)
    (hneutral : TraceNeutral vm)
    (hreplayed : ((vm.execute (traced prover.config) program input).run (TapeHost.callTool core)
      (TapeHost.new tape)).1 = .ok replayed) : replayed.returnValue = output.returnValue := by
  have hsame : ((vm.execute prover.config program input).run (TapeHost.callTool core)
      (TapeHost.new tape)).1 = _ := run_tape_of_record hcore _ h.entries rfl
  have htraced := hneutral prover.config program input (TapeHost.callTool core) (TapeHost.new tape)
  rw [hreplayed, hsame, h.run] at htraced
  exact Except.ok.inj htraced

theorem returnValueI64_eq_of_canon (htells : TellsIntegers core) {v v' : LuaValue}
    (h : canon core v = canon core v') : returnValueI64 v = returnValueI64 v' := by
  cases v with
  | integer n => rw [htells n v' h.symm]
  | _ =>
    cases v' with
    | integer n => exact absurd (htells n _ h) (by simp)
    | _ => rfl

theorem hostRun_of_replay {config : VmConfig} {output : VmOutput} {expected : PublicInputs}
    (h : (guestInput R program dry config policy).replayPublicInputs core vm .host64 =
      .ok (output, expected)) :
    hostRun R core vm program dry config policy =
      if canon core output.returnValue ≠ canon core dry.output.returnValue then
        .error (.failed (.diverged (canon core dry.output.returnValue) (canon core output.returnValue)))
      else .ok (guestInput R program dry config policy, expected) := by
  unfold hostRun
  dsimp only
  rw [h]
  rfl

theorem hostRun_eq_ok {config : VmConfig} {shipped : GuestInput I} {expected : PublicInputs}
    (h : hostRun R core vm program dry config policy = .ok (shipped, expected)) :
    ∃ output, (guestInput R program dry config policy).replayPublicInputs core vm .host64 =
        .ok (output, expected) ∧
      canon core output.returnValue = canon core dry.output.returnValue := by
  unfold hostRun at h
  obtain ⟨⟨output, inputs⟩, hreplay, h⟩ := Outcome.bind_eq_ok.mp h
  dsimp only at h
  split_ifs at h with hdiverged
  cases h
  exact ⟨output, Outcome.mapErr_eq_ok.mp hreplay, not_not.mp hdiverged⟩

theorem canonicalBytes_ne_nil (p : OraclePolicy N) : p.canonicalBytes R ≠ [] := by
  intro h
  have hlength := congrArg List.length h
  simp [OraclePolicy.canonicalBytes, OraclePolicy.stringListBytes] at hlength

theorem committedPolicy_guestInput (config : VmConfig) :
    (guestInput R program dry config policy).committedPolicy core = policyHashOf R core policy := by
  cases policy with
  | none => rfl
  | some p =>
    have hbytes : (guestInput R program dry config (some p)).policyCanonical = p.canonicalBytes R :=
      rfl
    unfold GuestInput.committedPolicy
    rw [hbytes, if_neg (by simpa using canonicalBytes_ne_nil p)]
    rfl

end

structure CarriesHashes (w : NoirWitness) (recorded : PublicInputs) : Prop where
  program : w.programHash = recorded.programHash
  input : w.inputHash = recorded.inputHash
  toolResponses : w.toolResponsesHash = recorded.toolResponsesHash
  output : w.outputHash = recorded.outputHash
  attestation : w.attestationHash = recorded.attestationHash
  policy : w.policyHash = recorded.policyHash

/-- Two public inputs agree where the backends hash alike. -/
structure Agrees (expected recorded : PublicInputs) : Prop where
  input : expected.inputHash = recorded.inputHash
  output : expected.outputHash = recorded.outputHash
  policy : expected.policyHash = recorded.policyHash

/-- What the drivers keep of a recorded run. A proof of the circuit always commits its
program, tape and policy hash, and all of it if the run had the input and the limits
that the driver replays under. The other host never goes on with a different return
value: it commits the recorded output, the recorded input if that was `Nil`, and the
recorded policy hash exactly when it was given a policy that has it. -/
theorem drivers_keep_recorded_run [InstructionSet I] (R : JsonRenderer N) (core : Core I)
    (fromSlice : List UInt8 → Except String (Json N)) (H : Hashes)
    (attestationLeaf : List UInt8 → Fr) (vm : Vm I) (defaultConfig : VmConfig) (backend : Backend π)
    (hcore : core.ReadsBack) (htells : TellsIntegers core) (hneutral : TraceNeutral vm)
    (prover : Prover σ) (program : CompiledProgram I) (input : LuaValue)
    (attestations : List (List UInt8)) (policy : Option (OraclePolicy N)) (dry : DryRunResult)
    (hdry : prover.dryRunUnder R core fromSlice H attestationLeaf vm program input attestations
      policy = .ok dry) :
    (∀ doVerify result, proveFromArtifacts core H attestationLeaf vm defaultConfig program backend
        dry doVerify = .ok result →
      result.witness.programHash = dry.publicInputs.programHash ∧
      result.witness.toolResponsesHash = dry.publicInputs.toolResponsesHash ∧
      result.witness.attestationHash = dry.publicInputs.attestationHash ∧
      result.witness.policyHash = dry.publicInputs.policyHash ∧
      (input = .nil → traced prover.config = traced defaultConfig →
        CarriesHashes result.witness dry.publicInputs)) ∧
    (∀ config given output expected,
      (guestInput R program dry config given).replayPublicInputs core vm .host64 =
        .ok (output, expected) →
      canon core output.returnValue ≠ canon core dry.output.returnValue →
      hostRun R core vm program dry config given = .error (.failed
        (.diverged (canon core dry.output.returnValue) (canon core output.returnValue)))) ∧
    (∀ config given shipped expected,
      hostRun R core vm program dry config given = .ok (shipped, expected) →
      expected.outputHash = dry.publicInputs.outputHash ∧
      (input = .nil → expected.inputHash = dry.publicInputs.inputHash) ∧
      (expected.policyHash = dry.publicInputs.policyHash ↔
        policyHashOf R core given = policyHashOf R core policy)) := by
  obtain ⟨⟨host, hrecords⟩, hinputs⟩ := Prover.dryRunUnder_eq_ok hdry
  rw [hinputs]
  refine ⟨?_, ?_, ?_⟩
  · intro doVerify result hproved
    obtain ⟨replayed, hrun, hbuilds⟩ := witnessFromArtifacts_eq_ok (proveFromArtifacts_eq_ok hproved)
    have hpolicy : result.witness.policyHash = policyHashOf R core policy := by
      rw [hbuilds.policyHash, hinputs]
    refine ⟨hbuilds.programHash, hbuilds.toolResponsesHash, hbuilds.attestationHash, hpolicy, ?_⟩
    rintro rfl hlimits
    rw [replayClient, ← hlimits] at hrun
    have hreturned := hrecords.returnValue_eq hcore hneutral hrun
    have houtput : result.witness.outputHash = hashOutput core dry.output := by
      rw [hbuilds.outputHash, hashOutput, hreturned, ← hashOutput]
    exact ⟨hbuilds.programHash, hbuilds.inputHash, hbuilds.toolResponsesHash, houtput,
      hbuilds.attestationHash, hpolicy⟩
  · intro config given output expected hreplay hdiffer
    rw [hostRun_of_replay hreplay, if_pos hdiffer]
  · intro config given shipped expected hhost
    obtain ⟨output, hreplay, hcanon⟩ := hostRun_eq_ok hhost
    obtain ⟨-, -, rfl⟩ := (GuestInput.replay_eq_ok_iff core).mp hreplay
    refine ⟨?_, ?_, ?_⟩
    · change hashOutput core output = hashOutput core dry.output
      rw [hashOutput, returnValueI64_eq_of_canon htells hcanon, ← hashOutput]
    · rintro rfl
      cases given with
      | none => rfl
      | some p => rfl
    · change (guestInput R program dry config given).committedPolicy core = _ ↔ _
      rw [committedPolicy_guestInput]

/-- Decimal integers, and a digest that is the text itself. -/
def integerCore : Core Instruction :=
  { plainCore with
    sha256 := fill 32 1
    canonicalSerialize := fun
      | .integer n => .ok (utf8 (decimal n.toInt))
      | .nil => .ok (utf8 "null")
      | _ => .error "unsupported" }

theorem integerCore_tellsIntegers : TellsIntegers integerCore := by
  have hlead (n : Int64) (c : Char) (rest : String) (hc : ¬ (c.isDigit ∨ c = '-')) :
      utf8 (String.ofList (c :: rest.toList)) ≠ utf8 (decimal n.toInt) := by
    intro h
    obtain ⟨first, tail, htext, hdigit⟩ := (integerRenderer.numberToken n.toInt).lead
    have hchars := congrArg String.toList (utf8_injective h)
    rw [String.toList_ofList] at hchars
    obtain ⟨rfl, -⟩ := List.cons.inj (hchars.trans htext)
    exact hc hdigit
  intro n v h
  cases v with
  | integer m =>
    have hdecimal := decimal_injective (utf8_injective h)
    rw [Int64.toInt_inj.mp hdecimal]
  | nil => exact absurd h (hlead n 'n' "ull" (by decide))
  | _ => exact absurd h (hlead n '<' "unserializable>" (by decide))

theorem tapeClient_idle (input : GuestInput Instruction) (target : Target) :
    input.tapeClient GuestInput.idle target = .done (.ok GuestInput.zeroOutput) := by
  unfold GuestInput.tapeClient
  split
  · rfl
  · split
    · rfl
    · rfl

theorem replay_idle (core : Core Instruction) {input : GuestInput Instruction} {target : Target}
    (h : input.PolicyAccepts target) :
    ∃ expected, input.replayPublicInputs core GuestInput.idle target =
        .ok (GuestInput.zeroOutput, expected) ∧
      expected.policyHash = input.committedPolicy core := by
  refine ⟨_, (GuestInput.replay_eq_ok_iff core).mpr ⟨h, ?_, rfl⟩, rfl⟩
  rw [tapeClient_idle]
  rfl

def idleRun : DryRunResult where
  output := GuestInput.zeroOutput
  oracleTape := ⟨[], []⟩
  attestations := []
  publicInputs := computePublicInputs integerCore rollingHashes (fun _ => 0) (.replicate 32 0) .nil
    ⟨[], []⟩ GuestInput.zeroOutput

def willing : Backend Unit := ⟨fun _ => .ok (), fun _ => .ok (), fun _ => .ok true⟩

def calledRun : DryRunResult where
  output := GuestInput.zeroOutput
  oracleTape := recordedCall
  attestations := []
  publicInputs := computePublicInputs integerCore rollingHashes (fun _ => 0) (.replicate 32 0) .nil
    recordedCall GuestInput.zeroOutput

theorem drivers_keep_recorded_run_called : ∃ result shipped expected,
    proveFromArtifacts integerCore rollingHashes (fun _ => 0) (callsOnce allowedCall)
      idleProver.config (emptyProgram _) willing calledRun true = .ok result ∧
    CarriesHashes result.witness calledRun.publicInputs ∧
    hostRun integerRenderer integerCore (callsOnce allowedCall) (emptyProgram _) calledRun
      idleProver.config none = .ok (shipped, expected) ∧
    Agrees expected calledRun.publicInputs := by
  have hneutral : TraceNeutral (callsOnce allowedCall) := fun _ _ _ _ _ _ => rfl
  obtain ⟨hproves, -, hhost⟩ := drivers_keep_recorded_run integerRenderer integerCore
    (fun _ => .error "") rollingHashes (fun _ => 0) (callsOnce allowedCall) idleProver.config willing
    plainCore_readsBack integerCore_tellsIntegers hneutral idleProver (emptyProgram _) .nil []
    none calledRun rfl
  have hcarries := (hproves true _ rfl).2.2.2.2 rfl rfl
  obtain ⟨houtput, hinput, hpolicy⟩ := hhost idleProver.config none _ _ rfl
  exact ⟨_, _, _, rfl, hcarries, rfl, hinput rfl, houtput, hpolicy.mpr rfl⟩

/-- The dry run knew no policy, and the prover is given one that allows what it did. -/
theorem openVmHost_commits_given_policy :
    ¬ ∀ (policy given : Option (OraclePolicy Int)) (dry : DryRunResult),
      idleProver.dryRunUnder integerRenderer integerCore (fun _ => .error "") rollingHashes
        (fun _ => 0) GuestInput.idle ⟨[], .replicate 32 0⟩ .nil [] policy = .ok dry →
      (∀ result, proveFromArtifacts integerCore rollingHashes (fun _ => 0) GuestInput.idle
          idleProver.config ⟨[], .replicate 32 0⟩ willing dry true = .ok result →
        CarriesHashes result.witness dry.publicInputs) ∧
      ∀ shipped expected, hostRun integerRenderer integerCore GuestInput.idle
          ⟨[], .replicate 32 0⟩ dry idleProver.config given = .ok (shipped, expected) →
        Agrees expected dry.publicInputs := by
  intro hall
  have hparse : PolicyView.parse .host64 (OraclePolicy.priceFeed.canonicalBytes integerRenderer) =
      .ok OraclePolicy.priceFeed.view :=
    OraclePolicy.parse_canonicalBytes_eq integerRenderer OraclePolicy.priceFeed_inRange
      (by decide +kernel)
  have haccepts : (guestInput integerRenderer (emptyProgram Instruction) idleRun idleProver.config
      (some OraclePolicy.priceFeed)).PolicyAccepts .host64 := .inr ⟨_, hparse, rfl⟩
  obtain ⟨expected, hreplay, hcommitted⟩ := replay_idle integerCore haccepts
  rw [committedPolicy_guestInput] at hcommitted
  have hsame : canon integerCore GuestInput.zeroOutput.returnValue =
      canon integerCore idleRun.output.returnValue := rfl
  have hhost := (hostRun_of_replay hreplay).trans (if_neg (not_not.mpr hsame))
  have hpolicy := ((hall none (some OraclePolicy.priceFeed) idleRun rfl).2 _ _ hhost).policy
  have hbyte := congrArg (fun hash : Bytes32 => hash[0]) (hcommitted.symm.trans hpolicy)
  exact absurd hbyte (by decide +kernel)

end ProvenoZk.Drivers
