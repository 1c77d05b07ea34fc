import ProvenoZk.Drivers.NoirArtifacts

/-! The limits of a policy in a dry run. The live host counts no calls and measures no
payloads, the guest does both; a dry run that was accepted can be replayed within the
limits exactly when it stayed within them by itself. -/
namespace ProvenoZk.Drivers
open Foundation Proveno Policy Zkvm Noir

variable {I N σ : Type}

def Within (core : Core I) (cap : Nat) (reply : Reply) : Prop :=
  ∀ entry ∈ recordReply core reply, entry.payload.length ≤ cap

/-- The message of the policy, or else the live host's own answer, has at most `cap` bytes.
A response counts as it is serialized. -/
def AnswerFits (core : Core I) (fromSlice : List UInt8 → Except String (Json N))
    (policy : OraclePolicy N) (host : LiveHost σ) (cap : Nat)
    (e : Exchange σ ToolCall Reply) : Prop :=
  match policy.denial e.query, (host.callTool e.query e.before).1 with
  | some message, _ => (utf8 message).length ≤ cap
  | none, .error message => (utf8 message).length ≤ cap
  | none, .ok resp =>
    match isHttpTool e.query.name, core.canonicalSerializeTable resp with
    | false, .error _ => True
    | false, .ok bytes => bytes.length ≤ cap
    | true, .error reason =>
      (utf8 s!"policy: tool response is not serializable ({reason})").length ≤ cap
    | true, .ok bytes =>
      match policy.checkResponseSchema fromSlice ((getUrlFromArgs e.query.args).getD "") bytes with
      | .error message => (utf8 message).length ≤ cap
      | .ok () => bytes.length ≤ cap

/-- A run of calls with its tape is within the limits of a policy: those let through and
the entries, hence the guest's check of the tape and its count of the same calls. -/
structure StaysWithin (I : Type) (policy : OraclePolicy N) (target : Target)
    (calls : List ToolCall) (tape : OracleTape) : Prop where
  letThrough : calls.countP (fun call => (policy.denial call).isNone) ≤
    policy.maxToolCalls.toNat
  payloads : ∀ entry ∈ tape.entries,
    entry.payload.length ≤ policy.maxPayloadBytesPerCall.toNat
  sizeCheck : ∀ guest : GuestInput I, guest.oracleTape = tape →
    guest.checkTapePayloadSizes target policy.view = .ok ()
  callCap : ∀ (ρ : Type) (inner : Service ρ ToolCall Reply) (s : ρ),
    ∀ e ∈ (PolicyEnforcingHost.callTool inner policy.view).exchanges calls
      (PolicyEnforcingHost.new s), e.before.callsMade + 1 ≤ policy.maxToolCalls

section

variable {core : Core I} {fromSlice : List UInt8 → Except String (Json N)}
  {policy : OraclePolicy N} {host : LiveHost σ} {cap : Nat}

theorem within_error (message : String) :
    Within core cap (.error message) ↔ (utf8 message).length ≤ cap := by
  simp [Within, recordReply, TapeEntry.payload]

theorem within_ok {resp : LuaTable} {bytes : List UInt8}
    (h : core.canonicalSerializeTable resp = .ok bytes) :
    Within core cap (.ok resp) ↔ bytes.length ≤ cap := by
  simp [Within, recordReply, TapeEntry.payload, h]

theorem within_reply_iff {e : Exchange σ ToolCall Reply}
    (he : e.reply = ((host.underPolicy core fromSlice policy).serve core e.query e.before).1) :
    Within core cap e.reply ↔ AnswerFits core fromSlice policy host cap e := by
  rw [LiveHost.reply_serve] at he
  have hreply : e.reply =
      (OraclePolicyHost.callTool core fromSlice host.callTool policy e.query e.before).1 := he
  rw [hreply, AnswerFits]
  cases hdenial : policy.denial e.query with
  | some message =>
    rw [OraclePolicyHost.callTool_of_denial hdenial]
    exact within_error message
  | none =>
    rw [OraclePolicyHost.callTool_of_pass hdenial]
    dsimp only
    cases (host.callTool e.query e.before).1 with
    | error message => exact within_error message
    | ok resp =>
      unfold OraclePolicy.answer
      dsimp only
      cases hhttp : isHttpTool e.query.name with
      | false =>
        rw [if_pos rfl]
        cases hbytes : core.canonicalSerializeTable resp with
        | error reason => simp [Within, recordReply, hbytes]
        | ok bytes => exact within_ok hbytes
      | true =>
        rw [if_neg (by decide)]
        cases hbytes : core.canonicalSerializeTable resp with
        | error reason => exact within_error _
        | ok bytes =>
          dsimp only
          cases policy.checkResponseSchema fromSlice ((getUrlFromArgs e.query.args).getD "")
            bytes with
          | error message => exact within_error message
          | ok u => exact within_ok hbytes

theorem forall_entries_iff {replies : List Reply} {entries : List TapeEntry}
    (h : recordTape core replies = some entries) :
    (∀ entry ∈ entries, entry.payload.length ≤ cap) ↔
      ∀ reply ∈ replies, Within core cap reply := by
  induction replies generalizing entries with
  | nil =>
    cases h
    simp
  | cons reply replies ih =>
    obtain ⟨entry, rest, hentry, hrest, rfl⟩ := recordTape_cons_eq_some.mp h
    rw [List.forall_mem_cons, List.forall_mem_cons, ih hrest, Within, hentry]
    simp

/-- The guest counts every call, denied ones too. -/
theorem callCap_iff {ρ : Type} {inner : Service ρ ToolCall Reply} {view : PolicyView}
    {calls : List ToolCall} (hcalls : calls.length < 2 ^ 64) (s : ρ) :
    (∀ e ∈ (PolicyEnforcingHost.callTool inner view).exchanges calls
      (PolicyEnforcingHost.new s), e.before.callsMade + 1 ≤ view.maxToolCalls) ↔
      calls.length ≤ view.maxToolCalls.toNat := by
  have hcount {k : Nat} {e : Exchange (PolicyEnforcingHost ρ) ToolCall Reply}
      (he : ((PolicyEnforcingHost.callTool inner view).exchanges calls
        (PolicyEnforcingHost.new s))[k]? = some e) :
      e.before.callsMade + 1 ≤ view.maxToolCalls ↔ k + 1 ≤ view.maxToolCalls.toNat := by
    have hk := (List.getElem?_eq_some_iff.mp he).1
    rw [Service.length_exchanges] at hk
    have hmade := (Service.exchanges_invariant
      (P := fun k host => host.callsMade = UInt64.ofNat k) (k := 0) (fun k call host h => by
        rw [PolicyEnforcingHost.callsMade_callTool, PolicyEnforcingHost.callsMade_add_one h])
      rfl he).1
    rw [Nat.zero_add] at hmade
    exact PolicyEnforcingHost.within_budget_iff hmade (by omega)
  constructor
  · intro h
    cases hlength : calls.length with
    | zero => exact Nat.zero_le _
    | succ k =>
      have hk : k < ((PolicyEnforcingHost.callTool inner view).exchanges calls
          (PolicyEnforcingHost.new s)).length := by
        rw [Service.length_exchanges]
        omega
      exact (hcount (List.getElem?_eq_getElem hk)).mp (h _ (List.getElem_mem hk))
  · intro h e he
    obtain ⟨k, hk⟩ := List.mem_iff_getElem?.mp he
    have hlt := (List.getElem?_eq_some_iff.mp hk).1
    rw [Service.length_exchanges] at hlt
    exact (hcount hk).mpr (by omega)

end

/-- A dry run under a policy stays within its limits exactly when the program makes no more
calls than the policy allows, denied ones included, and each denial and each answer of the
live host fits the payload limit. Nothing on the live side sees to either. -/
theorem dry_run_within_limits_iff (R : JsonRenderer N) (core : Core I)
    (fromSlice : List UInt8 → Except String (Json N)) (H : Hashes)
    (attestationLeaf : List UInt8 → Fr) (vm : Vm I) (prover : Prover σ) (program : CompiledProgram I)
    (input : LuaValue) (attestations : List (List UInt8)) (policy : OraclePolicy N)
    (target : Target) (result : DryRunResult)
    (hdry : prover.dryRunWithPolicy core vm program input R fromSlice H attestationLeaf
      attestations policy = .ok result) :
    StaysWithin I policy target ((vm.execute prover.config program input).queries
        ((prover.host.underPolicy core fromSlice policy).serve core) prover.state) result.oracleTape ↔
      ((vm.execute prover.config program input).queries
        ((prover.host.underPolicy core fromSlice policy).serve core) prover.state).length ≤
          policy.maxToolCalls.toNat ∧
      ∀ e ∈ (vm.execute prover.config program input).exchanges
          ((prover.host.underPolicy core fromSlice policy).serve core) prover.state,
        AnswerFits core fromSlice policy prover.host
          (target.asUsize policy.maxPayloadBytesPerCall.toNat) e := by
  obtain ⟨output, tape, hrecord, rfl⟩ := Prover.dryRunWithPolicy_eq_ok.mp hdry
  have hrecords := Prover.record_eq_ok hrecord
  have hlength : ((vm.execute prover.config program input).queries
      ((prover.host.underPolicy core fromSlice policy).serve core) prover.state).length < 2 ^ 64 := by
    have hle := Client.length_queries_le (vm.execute_asksAtMost prover.config program input)
      ((prover.host.underPolicy core fromSlice policy).serve core) prover.state
    omega
  have hfits : (∀ entry ∈ tape.entries, entry.payload.length ≤
      target.asUsize policy.maxPayloadBytesPerCall.toNat) ↔
      ∀ e ∈ (vm.execute prover.config program input).exchanges
          ((prover.host.underPolicy core fromSlice policy).serve core) prover.state,
        AnswerFits core fromSlice policy prover.host
          (target.asUsize policy.maxPayloadBytesPerCall.toNat) e := by
    rw [forall_entries_iff hrecords.entries, List.forall_mem_map]
    apply forall₂_congr
    intro e he
    exact within_reply_iff (Client.reply_of_mem_exchanges he)
  rw [← hfits]
  constructor
  · intro h
    have hcheck := h.sizeCheck (GuestInput.new program .nil tape prover.config []) rfl
    exact ⟨(callCap_iff hlength ()).mp (h.callCap Unit (fun _ s => (.error "", s)) ()),
      GuestInput.checkTapePayloadSizes_eq_ok.mp hcheck⟩
  · intro h
    constructor
    · exact List.countP_le_length.trans h.1
    · intro entry hentry
      exact (h.2 entry hentry).trans (target.asUsize_le _)
    · intro guest htape
      rw [GuestInput.checkTapePayloadSizes_eq_ok, htape]
      exact h.2
    · intro ρ inner s
      exact (callCap_iff hlength s).mpr h.1

theorem dry_run_within_limits_allowed :
    StaysWithin Instruction OraclePolicy.priceFeed .guest32 [allowedCall] recordedCall := by
  have hrecord : (idleProver.underPolicy plainCore (fun _ => .error "")
      OraclePolicy.priceFeed).record plainCore (callsOnce allowedCall) ⟨[], .replicate 32 0⟩ .nil =
      .ok (GuestInput.zeroOutput, recordedCall) := rfl
  have hiff := dry_run_within_limits_iff integerRenderer plainCore (fun _ => .error "")
    rollingHashes (fun _ => 0) (callsOnce allowedCall) idleProver ⟨[], .replicate 32 0⟩ .nil []
    OraclePolicy.priceFeed .guest32 _
    (Prover.dryRunWithPolicy_eq_ok.mpr ⟨_, _, hrecord, rfl⟩)
  apply hiff.mpr
  constructor
  · decide
  · intro e he
    rw [List.mem_singleton.mp (show e ∈ [⟨(), allowedCall, .ok .new, ()⟩] from he)]
    change (utf8 "\x7b\x7d").length ≤ _
    decide

/-- The policy allows no calls, and the dry run makes one. -/
theorem dry_run_exceeds_limits :
    ¬ ∀ (vm : Vm Instruction) (policy : OraclePolicy Int) (result : DryRunResult),
      idleProver.dryRunWithPolicy plainCore vm ⟨[], .replicate 32 0⟩ .nil integerRenderer
        (fun _ => .error "") rollingHashes (fun _ => 0) [] policy = .ok result →
      StaysWithin Instruction policy .host64
        ((vm.execute idleProver.config ⟨[], .replicate 32 0⟩ .nil).queries
          ((idleProver.host.underPolicy plainCore (fun _ => .error "") policy).serve plainCore)
          idleProver.state) result.oracleTape := by
  intro hall
  have hrecord : (idleProver.underPolicy plainCore (fun _ => .error "")
      { OraclePolicy.priceFeed with maxToolCalls := 0 }).record plainCore (callsOnce allowedCall)
      ⟨[], .replicate 32 0⟩ .nil = .ok (GuestInput.zeroOutput, recordedCall) := rfl
  have hwithin := hall (callsOnce allowedCall) { OraclePolicy.priceFeed with maxToolCalls := 0 } _
    (Prover.dryRunWithPolicy_eq_ok.mpr ⟨_, _, hrecord, rfl⟩)
  exact absurd hwithin.letThrough (by decide)

end ProvenoZk.Drivers
