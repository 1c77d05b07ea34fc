import ProvenoZk.Drivers.GatewayReplay
import ProvenoZk.Policy.Profiles
import ProvenoZk.Zkvm.Digest

/-! From a gateway trace to a proof: `proveno-gateway-trace` writes what it reconstructed to
files, and the driver that is pointed at them ships the run to the guest. -/
namespace ProvenoZk.Drivers
open Foundation Proveno Policy Zkvm Noir

variable {I N ρ : Type}

def policyPath (outDir traceId : String) : String :=
  Store.join outDir s!"{traceId}.policy.json"

theorem Store.getLast_join (dir : String) {name : String} {c : Char}
    (h : name.toList.getLast? = some c) : (Store.join dir name).toList.getLast? = some c := by
  unfold Store.join
  split_ifs <;> simp [h, List.getLast?_cons]

theorem getLast_policyPath (outDir traceId : String) :
    (policyPath outDir traceId).toList.getLast? = some 'n' := by
  apply Store.getLast_join
  simp [toString]

section

variable {gateway : Gateway ρ} {frontend : Frontend I} {core : Core I} {vm : Vm I}
  {R : JsonRenderer N} {store : Store} {traceId : String} {trace : Trace ρ}
  {r : Reconstruction I N}

theorem Reconstructs.replay_eq (hcap : CapsCalls vm) (hstrict : StrictAsPlain gateway core)
    (hrec : Reconstructs gateway frontend core vm R store traceId trace r) :
    (gatewayInput R r.vmConfig r.program r.dryRun.oracleTape).replayPublicInputs core vm .host64 =
      .ok (r.dryRun.output, r.dryRun.publicInputs) := by
  obtain ⟨replayed, hreplay⟩ := hrec.replays
  obtain ⟨view, hparse, -, hrun, -⟩ :=
    GuestInput.replayPublicInputs_eq_ok (canonicalBytes_ne_nil (policyFor r.vmConfig)) hreplay
  have hview : view = (policyFor r.vmConfig : OraclePolicy N).view :=
    Except.ok.inj (hparse.symm.trans (parse_policyFor r.vmConfig R .host64))
  rw [hview] at hrun
  have houtput : replayed = r.dryRun.output :=
    Except.ok.inj (hrun.symm.trans (hrec.replays_agree hcap hstrict).1)
  rw [hreplay, houtput]

theorem Reconstructs.hostRun_eq (hcap : CapsCalls vm) (hstrict : StrictAsPlain gateway core)
    (hrec : Reconstructs gateway frontend core vm R store traceId trace r) :
    hostRun R core vm r.program r.dryRun r.vmConfig (some r.policy) =
      .ok (gatewayInput R r.vmConfig r.program r.dryRun.oracleTape, r.dryRun.publicInputs) := by
  have hinput : guestInput R r.program r.dryRun r.vmConfig (some r.policy) =
      gatewayInput R r.vmConfig r.program r.dryRun.oracleTape := by
    rw [hrec.policy]
    rfl
  have hreplay := hrec.replay_eq hcap hstrict
  rw [← hinput] at hreplay
  rw [hostRun_of_replay hreplay, if_neg (not_not_intro rfl), hinput]

/-- The reconstruction measured the responses against the whole limit. -/
theorem Reconstructs.payloads_le (hcap : CapsCalls vm) (hstrict : StrictAsPlain gateway core)
    (hrec : Reconstructs gateway frontend core vm R store traceId trace r) :
    ∀ entry ∈ r.dryRun.oracleTape.entries,
      entry.payload.length ≤ r.vmConfig.maxToolBytesIn.toNat := by
  obtain ⟨view, hparse, hsizes, -⟩ := GuestInput.replayPublicInputs_eq_ok
    (canonicalBytes_ne_nil (policyFor r.vmConfig)) (hrec.replay_eq hcap hstrict)
  have hview : view = (policyFor r.vmConfig : OraclePolicy N).view :=
    Except.ok.inj (hparse.symm.trans (parse_policyFor r.vmConfig R .host64))
  rw [hview] at hsizes
  exact GuestInput.checkTapePayloadSizes_host64_iff.mp hsizes

theorem Reconstructs.payloads_fit (hcap : CapsCalls vm) (hstrict : StrictAsPlain gateway core)
    (hrec : Reconstructs gateway frontend core vm R store traceId trace r)
    (hread : r.vmConfig.FitsUsize .guest32) :
    ∀ entry ∈ r.dryRun.oracleTape.entries,
      entry.payload.length ≤ r.vmConfig.maxToolBytesIn.toNat % 2 ^ 32 := by
  have hlimit : r.vmConfig.maxToolBytesIn.toNat < 2 ^ 32 := hread _ (by simp)
  rw [Nat.mod_eq_of_lt hlimit]
  exact hrec.payloads_le hcap hstrict

theorem capFitsGuest_gatewayInput (config : VmConfig) (program : CompiledProgram I)
    (tape : OracleTape) :
    (gatewayInput R config program tape).CapFitsGuest ↔
      ∀ entry ∈ tape.entries, entry.payload.length ≤ config.maxToolBytesIn.toNat % 2 ^ 32 := by
  have hparse : PolicyView.parse .host64 (gatewayInput R config program tape).policyCanonical =
      .ok (policyFor config : OraclePolicy N).view := parse_policyFor config R .host64
  unfold GuestInput.CapFitsGuest
  constructor
  · intro h
    cases h with
    | inl hempty => exact absurd hempty (canonicalBytes_ne_nil (policyFor config))
    | inr hview =>
      obtain ⟨view, hview, hle⟩ := hview
      rw [Except.ok.inj (hview.symm.trans hparse)] at hle
      exact hle
  · intro hle
    exact Or.inr ⟨_, hparse, hle⟩

end

/-- A trace that was reconstructed gets proved from the files that are written of it. The
driver finds the policy in its file, replays the recorded run once more and ships it with
the public inputs that were printed; the guest reveals their digest if its `usize` holds
the trace's limits, and nothing else. -/
theorem reconstructed_trace_is_revealed (gateway : Gateway ρ) (frontend : Frontend I) (core : Core I)
    (vm : Vm I) (R : JsonRenderer N) (serde : SerdeJson N) (store : Store) (traceId outDir : String)
    (readToString : String → Except String String) (r : Reconstruction I N)
    (hcap : CapsCalls vm) (hstrict : StrictAsPlain gateway core)
    (h : reconstruct gateway frontend core vm R store traceId = .ok r)
    (hreads : serde.ReadsBack (r.policy.serialize serde))
    (hwritten : readToString (policyPath outDir traceId) = .ok (r.policy.toJson serde)) :
    ∃ policy shipped, OraclePolicy.loadSpec serde readToString (policyPath outDir traceId) =
        .ok policy ∧
      hostRun R core vm r.program r.dryRun r.vmConfig (some policy) =
        .ok (shipped, r.dryRun.publicInputs) ∧
      ∀ values, guestMain core vm shipped = some values ↔
        values = r.dryRun.publicInputs.digestSha256 core ∧ r.vmConfig.FitsUsize .guest32 := by
  obtain ⟨trace, hrec⟩ := reconstruct_eq_ok.mp h
  have hschema : r.policy.requiredOutputSchema ≠ some .null := by
    rw [hrec.policy]
    exact nofun
  refine ⟨r.policy, _, OraclePolicy.loadSpec_toJson (getLast_policyPath outDir traceId) hreads
    hschema hwritten, hrec.hostRun_eq hcap hstrict, ?_⟩
  intro values
  have hsmall : (gatewayInput R r.vmConfig r.program r.dryRun.oracleTape).policyCanonical.length <
      2 ^ 32 := by
    change ((policyFor r.vmConfig : OraclePolicy N).canonicalBytes R).length < 2 ^ 32
    rw [length_canonicalBytes_policyFor]
    decide
  have hreplay := hrec.replay_eq hcap hstrict
  rw [guestMain_eq_some]
  simp only [GuestInput.replay_guest32_iff hsmall, capFitsGuest_gatewayInput, hreplay,
    Except.ok.injEq, Prod.mk.injEq]
  constructor
  · rintro ⟨hread, output, expected, ⟨⟨rfl, rfl⟩, -⟩, hvalues⟩
    exact ⟨hvalues, hread⟩
  · rintro ⟨hvalues, hread⟩
    exact ⟨hread, _, _, ⟨⟨rfl, rfl⟩, hrec.payloads_fit hcap hstrict hread⟩, hvalues⟩

/-! The wallet's trace, and a library that knows the text of its policy. -/

def walletPolicyDocument : Json Int :=
  .object
    [("allowed_domains", .array []),
      ("allowed_http_methods", .array []),
      ("max_tool_calls", .number 1),
      ("max_payload_bytes_per_call", .number 64),
      ("tls_requirement", .string "UnattestedPermitted"),
      ("required_output_schema", .null),
      ("schema_versions", .object [])]

def walletPolicyText : String :=
  "\x7b\n  \"allowed_domains\": [],\n  \"allowed_http_methods\": [],\n" ++
  "  \"max_tool_calls\": 1,\n  \"max_payload_bytes_per_call\": 64,\n" ++
  "  \"tls_requirement\": \"UnattestedPermitted\",\n" ++
  "  \"required_output_schema\": null,\n  \"schema_versions\": \x7b\x7d\n\x7d"

def walletSerde : SerdeJson Int :=
  { OraclePolicy.okSerde with
    toStringPretty := fun _ => walletPolicyText
    fromStr := fun s =>
      if s = walletPolicyText then .ok walletPolicyDocument
      else .error "expected value at line 1 column 1" }

def walletFiles (path : String) : Except String String :=
  if path = "target/openvm/1.policy.json" then .ok walletPolicyText
  else .error "No such file or directory (os error 2)"

theorem reconstructed_trace_is_revealed_wallet :
    ∃ (r : Reconstruction Instruction Int) (shipped : GuestInput Instruction),
    hostRun integerRenderer integerCore (walletVm .nil) r.program r.dryRun walletConfig
      (some (policyFor walletConfig)) = .ok (shipped, r.dryRun.publicInputs) ∧
    guestMain integerCore (walletVm .nil) shipped =
      some (r.dryRun.publicInputs.digestSha256 integerCore) := by
  obtain ⟨r, hr⟩ := exists_wallet_reconstruction .nil
  obtain ⟨trace, hrec⟩ := reconstruct_eq_ok.mp hr
  have htrace := hrec.loaded
  rw [walletStore_loadTrace] at htrace
  cases htrace
  have hconfig : r.vmConfig = walletConfig := hrec.vmConfig
  have hpolicy : r.policy = policyFor walletConfig := by
    rw [hrec.policy, hconfig]
  have hreads : walletSerde.ReadsBack (r.policy.serialize walletSerde) := by
    have hdocument : r.policy.serialize walletSerde = walletPolicyDocument := by
      rw [hpolicy]
      rfl
    rw [SerdeJson.ReadsBack, hdocument]
    simp only [walletSerde, if_true]
  have hwritten : walletFiles (policyPath "target/openvm" "1") =
      .ok (r.policy.toJson walletSerde) := rfl
  have hschema : r.policy.requiredOutputSchema ≠ some .null := by
    rw [hpolicy]
    simp [policyFor]
  obtain ⟨policy, shipped, hload, hhost, hguest⟩ :=
    reconstructed_trace_is_revealed _ walletFrontend integerCore (walletVm .nil) integerRenderer
      walletSerde walletStore "1" "target/openvm" walletFiles r (walletVm_capsCalls .nil)
      (walletGateway_strictAsPlain _) hr hreads hwritten
  have hloaded := OraclePolicy.loadSpec_toJson (getLast_policyPath "target/openvm" "1") hreads
    hschema hwritten
  rw [hloaded] at hload
  cases hload
  rw [hpolicy, hconfig] at hhost
  refine ⟨r, shipped, hhost, (hguest _).mpr ⟨rfl, ?_⟩⟩
  rw [hconfig]
  decide

end ProvenoZk.Drivers
