import ProvenoZk.Drivers.Limits
import ProvenoZk.Drivers.OpenVmHost
import ProvenoZk.Zkvm.Digest

/-! From a recorded run to the digest its guest reveals. A run that was recorded under a
policy is replayed twice, by the driver and in the guest, behind another host than the
one it was recorded behind. -/
namespace ProvenoZk.Drivers
open Foundation Proveno Policy Zkvm Noir

variable {I N σ : Type}

def Prover.under (prover : Prover σ) (core : Core I)
    (fromSlice : List UInt8 → Except String (Json N)) : Option (OraclePolicy N) → Prover σ
  | some p => prover.underPolicy core fromSlice p
  | none => prover

/-- A recorded run that the guest's side of the policy repeats: the policy can be read back,
its limits cover the calls, those it denied included, and the responses, measured on 32
bits, and nothing was let through after a denial. -/
structure WithinPolicy (R : JsonRenderer N) (policy : OraclePolicy N) (calls : List ToolCall)
    (tape : OracleTape) : Prop where
  inRange : policy.InRange R
  readable : (policy.canonicalBytes R).length < 2 ^ 32
  budget : calls.length ≤ policy.maxToolCalls.toNat
  denials : DeniedToTheEnd policy calls
  payloads : ∀ entry ∈ tape.entries,
    entry.payload.length ≤ policy.maxPayloadBytesPerCall.toNat % 2 ^ 32

section

variable {R : JsonRenderer N} {core : Core I} {fromSlice : List UInt8 → Except String (Json N)}
  {H : Hashes} {attestationLeaf : List UInt8 → Fr} {vm : Vm I} {program : CompiledProgram I}
  {input : LuaValue} {attestations : List (List UInt8)} {policy : Option (OraclePolicy N)}
  {dry : DryRunResult} {prover : Prover σ}

theorem Prover.dryRunUnder_records
    (h : prover.dryRunUnder R core fromSlice H attestationLeaf vm program input attestations policy =
      .ok dry) :
    Records (prover.under core fromSlice policy) core vm program input dry.output
      dry.oracleTape := by
  cases policy with
  | none =>
    change Except.bind _ _ = _ at h
    cases hrecord : prover.record core vm program input with
    | error e => simp [hrecord, Except.bind] at h
    | ok recorded =>
      rw [hrecord] at h
      cases h
      exact Prover.record_eq_ok hrecord
  | some p =>
    obtain ⟨output, tape, hrecord, rfl⟩ := Prover.dryRunWithPolicy_eq_ok.mp h
    exact Prover.record_eq_ok hrecord

theorem LiveHost.refuses_underPolicy (host : LiveHost σ) (p : OraclePolicy N) :
    Refuses p ((host.underPolicy core fromSlice p).serve core) := by
  intro call s message hdenial
  rw [LiveHost.reply_serve]
  exact OraclePolicyHost.refuses call s message hdenial

theorem WithinPolicy.checkTapePayloadSizes {calls : List ToolCall} {p : OraclePolicy N}
    {shipped : GuestInput I} (h : WithinPolicy R p calls shipped.oracleTape) (target : Target) :
    shipped.checkTapePayloadSizes target p.view = .ok () := by
  rw [GuestInput.checkTapePayloadSizes_eq_ok]
  intro entry hentry
  have hlow := h.payloads entry hentry
  cases target with
  | guest32 => exact hlow
  | host64 =>
    rw [GuestInput.asUsize_host64]
    exact hlow.trans (Nat.mod_le _ _)

theorem WithinPolicy.run_eq {p : OraclePolicy N} (hcore : core.ReadsBack)
    {client : Client ToolCall Reply (Except VmError VmOutput)}
    (hwithin : WithinPolicy R p
      (client.queries ((prover.host.underPolicy core fromSlice p).serve core) prover.state)
      dry.oracleTape)
    (hentries : recordTape core ((client.exchanges ((prover.host.underPolicy core fromSlice p).serve core)
      prover.state).map (·.reply)) = some dry.oracleTape.entries) :
    (client.run (PolicyEnforcingHost.callTool (TapeHost.callTool core) p.view)
        (PolicyEnforcingHost.new (TapeHost.new dry.oracleTape))).1 =
      (client.run ((prover.host.underPolicy core fromSlice p).serve core) prover.state).1 := by
  let serve := (prover.host.underPolicy core fromSlice p).serve core
  let calls := client.queries serve prover.state
  let replay := PolicyEnforcingHost.callTool (TapeHost.callTool core) p.view
  let start := PolicyEnforcingHost.new (TapeHost.new dry.oracleTape)
  rw [Client.exchanges_eq, Service.map_reply_exchanges] at hentries
  have hbudget : start.callsMade.toNat + calls.length ≤ p.maxToolCalls.toNat := by
    simpa [start, PolicyEnforcingHost.new] using hwithin.budget
  have hreplies : replay.replies calls start = serve.replies calls prover.state :=
    (prover.host.refuses_underPolicy p).replies_eq_of_record hcore hwithin.denials hentries
      (by exact List.drop_zero) hbudget
  exact (Client.run_eq_of_replies client hreplies.symm).1

theorem replay_guestInput (target : Target) (hcore : core.ReadsBack)
    (hdry : prover.dryRunUnder R core fromSlice H attestationLeaf vm program .nil attestations
      policy = .ok dry)
    (hwithin : ∀ p ∈ policy, WithinPolicy R p ((vm.execute prover.config program .nil).queries
      ((prover.under core fromSlice policy).host.serve core) prover.state) dry.oracleTape) :
    (guestInput R program dry prover.config policy).replayPublicInputs core vm target =
      .ok (dry.output, computePublicInputsSha256WithPolicyHash core
        (core.computeProgramHashSha256 program.prototypes) .nil dry.oracleTape dry.output
        (policyHashOf R core policy)) := by
  have hrecords := Prover.dryRunUnder_records hdry
  cases policy with
  | none =>
    apply (GuestInput.replay_eq_ok_iff core).mpr
    refine ⟨Or.inl rfl, ?_, rfl⟩
    exact (run_tape_of_record hcore _ hrecords.entries rfl).trans hrecords.run
  | some p =>
    have hp := hwithin p rfl
    have hrun := (hp.run_eq hcore hrecords.entries).trans hrecords.run
    have hfits := hp.readable.trans_le target.le_usizeRange
    have hne : (guestInput R program dry prover.config (some p)).policyCanonical ≠ [] :=
      canonicalBytes_ne_nil p
    exact GuestInput.replayPublicInputs_of_run hne
      (OraclePolicy.parse_canonicalBytes_eq R hp.inRange hfits) (hp.checkTapePayloadSizes target)
      hrun

end

/-- A run that was recorded with input `Nil`, under a policy or under none, and with limits
that fit 32 bits gets proved. Where the guest's side of the policy repeats it, the driver
given that policy and the recorded limits goes on to the prover with the recorded input,
output, tape and policy committed, and the guest reveals the digest it predicts. -/
theorem recorded_run_is_revealed (R : JsonRenderer N) (core : Core I) (hcore : core.ReadsBack)
    (fromSlice : List UInt8 → Except String (Json N)) (H : Hashes)
    (attestationLeaf : List UInt8 → Fr) (vm : Vm I) (prover : Prover σ) (program : CompiledProgram I)
    (attestations : List (List UInt8)) (policy : Option (OraclePolicy N)) (dry : DryRunResult)
    (hconfig : prover.config.FitsUsize .guest32)
    (hdry : prover.dryRunUnder R core fromSlice H attestationLeaf vm program .nil attestations
      policy = .ok dry)
    (hwithin : ∀ p ∈ policy, WithinPolicy R p ((vm.execute prover.config program .nil).queries
      ((prover.under core fromSlice policy).host.serve core) prover.state) dry.oracleTape) :
    ∃ shipped expected,
      hostRun R core vm program dry prover.config policy = .ok (shipped, expected) ∧
      guestMain core vm shipped = some (expected.digestSha256 core) ∧
      expected = { dry.publicInputs with
        programHash := core.computeProgramHashSha256 program.prototypes
        toolResponsesHash := core.commitmentHashSha256 dry.oracleTape
        attestationHash := core.attestationCommitmentSha256 dry.oracleTape } := by
  have hhost := hostRun_of_replay (replay_guestInput .host64 hcore hdry hwithin)
  rw [if_neg (not_not_intro rfl)] at hhost
  refine ⟨_, _, hhost, ?_, ?_⟩
  · have hshipped : (guestInput R program dry prover.config policy).config = prover.config := by
      cases policy <;> rfl
    rw [← hshipped] at hconfig
    exact guestMain_eq_some.mpr
      ⟨hconfig, _, _, replay_guestInput .guest32 hcore hdry hwithin, rfl⟩
  · rw [(Prover.dryRunUnder_eq_ok hdry).2]
    rfl

theorem recordedCall_withinPriceFeed :
    WithinPolicy integerRenderer OraclePolicy.priceFeed [allowedCall] recordedCall where
  inRange := OraclePolicy.priceFeed_inRange
  readable := by decide +kernel
  budget := by decide
  denials := by unfold DeniedToTheEnd; decide
  payloads := by decide

theorem recorded_run_is_revealed_allowed : ∃ shipped,
    guestMain integerCore (callsOnce allowedCall) shipped =
      some (PublicInputs.digestSha256 (computePublicInputsSha256WithPolicyHash integerCore
        (.replicate 32 0) .nil recordedCall GuestInput.zeroOutput
        (OraclePolicy.priceFeed.policyHash integerRenderer integerCore.sha256)) integerCore) := by
  have hrecord : (idleProver.underPolicy integerCore (fun _ => .error "")
      OraclePolicy.priceFeed).record integerCore (callsOnce allowedCall) ⟨[], .replicate 32 0⟩
      .nil = .ok (GuestInput.zeroOutput, recordedCall) := rfl
  have hrevealed := recorded_run_is_revealed integerRenderer integerCore plainCore_readsBack
    (fun _ => .error "") rollingHashes (fun _ => 0) (callsOnce allowedCall) idleProver
    ⟨[], .replicate 32 0⟩ [] (some OraclePolicy.priceFeed) _ (by decide)
    (Prover.dryRunWithPolicy_eq_ok.mpr ⟨_, _, hrecord, rfl⟩)
    (fun p hp => Option.some.inj hp ▸ recordedCall_withinPriceFeed)
  obtain ⟨shipped, expected, -, hguest, hexpected⟩ := hrevealed
  rw [hexpected] at hguest
  exact ⟨shipped, hguest⟩

end ProvenoZk.Drivers
