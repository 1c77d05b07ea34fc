import ProvenoZk.Drivers.DryRun
import ProvenoZk.Zkvm.Replay

/-! Which attestation is recorded with which call. If the VM takes one after each call, the
host that enforces a policy hands the question on also where it handed no call on. -/
namespace ProvenoZk.Drivers
open Foundation Proveno Policy Zkvm

variable {I N σ : Type}

namespace LiveHost

variable (host : LiveHost σ) (core : Core I)

def attestations (calls : List ToolCall) (s : σ) : List (List UInt8) :=
  ((host.serve core).exchanges calls s).map fun e => host.attestation core e.query e.before

/-- What was taken is gone. -/
def TakesOnce : Prop :=
  ∀ s, host.takeAttestation (host.takeAttestation s).2 = (none, (host.takeAttestation s).2)

def Clear (s : σ) : Prop := host.takeAttestation s = (none, s)

/-- The VM takes an attestation behind every call, also behind one that failed. -/
def TakesEach : Prop := ∀ call reply, core.takesAttestation call reply = true

variable {host core}

theorem exchange_of_takesEach (h : TakesEach core) (call : ToolCall) (s : σ) :
    host.exchange core call s =
      ((host.callTool call s).1, host.takeAttestation (host.callTool call s).2) :=
  if_pos (h call _)

theorem TakesOnce.clear_serve (hcore : TakesEach core) (h : host.TakesOnce) (call : ToolCall)
    (s : σ) : host.Clear (host.serve core call s).2 := by
  unfold serve
  rw [exchange_of_takesEach hcore]
  exact h _

@[simp] theorem length_attestations (calls : List ToolCall) (s : σ) :
    (host.attestations core calls s).length = calls.length := by
  simp [attestations]

theorem attestations_cons (call : ToolCall) (calls : List ToolCall) (s : σ) :
    host.attestations core (call :: calls) s =
      host.attestation core call s :: host.attestations core calls (host.serve core call s).2 := rfl

end LiveHost

section

variable {core : Core I} {fromSlice : List UInt8 → Except String (Json N)} {policy : OraclePolicy N}
  {host : LiveHost σ}

/-- A call that is let through leaves the host as it would have been without the policy,
whatever becomes of the response. -/
theorem serve_of_passes (hcore : LiveHost.TakesEach core) {call : ToolCall}
    (h : policy.passes call = true) (s : σ) :
    ((host.underPolicy core fromSlice policy).serve core call s).2 = (host.serve core call s).2 ∧
      (host.underPolicy core fromSlice policy).attestation core call s =
        host.attestation core call s := by
  have hpass : policy.denial call = none := Option.isNone_iff_eq_none.mp h
  have hcall : (host.underPolicy core fromSlice policy).callTool call s = _ :=
    OraclePolicyHost.callTool_of_pass hpass s
  unfold LiveHost.serve LiveHost.attestation
  rw [LiveHost.exchange_of_takesEach hcore, LiveHost.exchange_of_takesEach hcore, hcall]
  exact ⟨rfl, rfl⟩

theorem serve_of_not_passes (hcore : LiveHost.TakesEach core) {call : ToolCall}
    (h : policy.passes call = false) {s : σ} (hclear : host.Clear s) :
    ((host.underPolicy core fromSlice policy).serve core call s).2 = s ∧
      (host.underPolicy core fromSlice policy).attestation core call s = [] := by
  obtain ⟨message, hdenial⟩ : ∃ message, policy.denial call = some message :=
    Option.ne_none_iff_exists'.mp (fun hnone => by simp [OraclePolicy.passes, hnone] at h)
  have hcall : (host.underPolicy core fromSlice policy).callTool call s = _ :=
    OraclePolicyHost.callTool_of_denial hdenial s
  have htake : (host.underPolicy core fromSlice policy).takeAttestation s = (none, s) := hclear
  unfold LiveHost.serve LiveHost.attestation
  rw [LiveHost.exchange_of_takesEach hcore, hcall]
  dsimp only
  rw [htake]
  exact ⟨rfl, rfl⟩

theorem zip_attestations_filter (hcore : LiveHost.TakesEach core) (honce : host.TakesOnce)
    (calls : List ToolCall) {s : σ} (hclear : host.Clear s) :
    ((calls.zip ((host.underPolicy core fromSlice policy).attestations core calls s)).filter
        fun x => policy.passes x.1) =
      (calls.filter policy.passes).zip
        (host.attestations core (calls.filter policy.passes) s) := by
  induction calls generalizing s with
  | nil => rfl
  | cons call calls ih =>
    let gated := host.underPolicy core fromSlice policy
    rw [LiveHost.attestations_cons, List.zip_cons_cons]
    cases hpasses : policy.passes call with
    | true =>
      obtain ⟨hstate, hattestation⟩ : (gated.serve core call s).2 = (host.serve core call s).2 ∧
          gated.attestation core call s = host.attestation core call s :=
        serve_of_passes hcore hpasses s
      rw [List.filter_cons_of_pos (by exact hpasses), List.filter_cons_of_pos hpasses,
        LiveHost.attestations_cons, List.zip_cons_cons, hattestation, hstate,
        ih (honce.clear_serve hcore call s)]
    | false =>
      have hstate : (gated.serve core call s).2 = s := (serve_of_not_passes hcore hpasses hclear).1
      rw [List.filter_cons_of_neg (by simp [hpasses]), List.filter_cons_of_neg (by simp [hpasses]),
        hstate, ih hclear]

theorem attestation_of_not_passes (hcore : LiveHost.TakesEach core) (honce : host.TakesOnce)
    (calls : List ToolCall) {s : σ} (hclear : host.Clear s) :
    ∀ x ∈ calls.zip ((host.underPolicy core fromSlice policy).attestations core calls s),
      policy.passes x.1 = false → x.2 = [] := by
  induction calls generalizing s with
  | nil => exact fun x hx => absurd hx List.not_mem_nil
  | cons call calls ih =>
    rw [LiveHost.attestations_cons, List.zip_cons_cons, List.forall_mem_cons]
    constructor
    · exact fun hdenied => (serve_of_not_passes hcore hdenied hclear).2
    · -- the guarded host takes its attestations from the one inside
      have hguarded : (host.underPolicy core fromSlice policy).TakesOnce := honce
      exact ih (hguarded.clear_serve hcore call s)

end

theorem record_attestations {prover : Prover σ} {core : Core I} {vm : Vm I}
    {program : CompiledProgram I} {input : LuaValue} {output : VmOutput} {tape : OracleTape}
    (h : prover.record core vm program input = .ok (output, tape)) :
    tape.attestations = prover.host.attestations core
      ((vm.execute prover.config program input).queries (prover.host.serve core) prover.state)
      prover.state := by
  unfold Prover.record at h
  dsimp only at h
  split at h
  · cases h
    rw [Client.exchanges_eq]
    rfl
  · cases h
  · cases h

/-- Attestations stay with their calls. Recorded under a policy by a VM that asks for an
attestation behind each call, with a host that gives it out once, the calls that were let
through have on the tape what this host attests when it serves these calls and no others, in
order, also those whose response was refused afterwards. A call that was turned down has the
empty attestation, not one left over. -/
theorem attestations_stay_with_calls (core : Core I) (hcore : LiveHost.TakesEach core)
    (fromSlice : List UInt8 → Except String (Json N))
    (policy : OraclePolicy N) (prover : Prover σ) (vm : Vm I) (program : CompiledProgram I)
    (input : LuaValue) (honce : prover.host.TakesOnce) (hclear : prover.host.Clear prover.state)
    (output : VmOutput) (tape : OracleTape)
    (hrecord : (prover.underPolicy core fromSlice policy).record core vm program input =
      .ok (output, tape))
    (calls : List ToolCall) (hcalls : (vm.execute prover.config program input).queries
      ((prover.underPolicy core fromSlice policy).host.serve core) prover.state = calls) :
    tape.entries.length = calls.length ∧ tape.attestations.length = calls.length ∧
    ((calls.zip tape.attestations).filter fun x => policy.passes x.1) =
      (calls.filter policy.passes).zip
        (prover.host.attestations core (calls.filter policy.passes) prover.state) ∧
    ∀ x ∈ calls.zip tape.attestations, policy.passes x.1 = false → x.2 = [] := by
  have hattestations := record_attestations hrecord
  have hentries := length_of_recordTape (Prover.record_eq_ok hrecord).entries
  rw [List.length_map, Client.exchanges_eq, Service.length_exchanges] at hentries
  subst hcalls
  rw [hattestations]
  exact ⟨hentries, LiveHost.length_attestations _ _, zip_attestations_filter hcore honce _ hclear,
    attestation_of_not_passes hcore honce _ hclear⟩

/-! A host that attests each call it answers, and a program that makes two. -/

def notary : LiveHost (Option (List UInt8)) where
  callTool := fun _ _ => (.ok .new, some [1])
  takeAttestation := fun pending => (pending, none)

def callsBoth : Vm Instruction where
  execute := fun _ _ _ => .ask deniedCall fun _ => .ask allowedCall fun _ =>
    .done (.ok GuestInput.zeroOutput)
  execute_asksAtMost := by
    intro _ _ _
    apply Client.AsksAtMost.mono (m := 2)
    · exact fun _ _ => trivial
    · decide

theorem attestations_stay_with_calls_notary : ∃ output tape,
    (Prover.underPolicy ⟨idleProver.config, notary, none⟩ plainCore (fun _ => .error "")
      OraclePolicy.priceFeed).record plainCore callsBoth ⟨[], .replicate 32 0⟩ .nil =
        .ok (output, tape) ∧
    tape.attestations.length = 2 ∧
    (([deniedCall, allowedCall].zip tape.attestations).filter fun x =>
      OraclePolicy.priceFeed.passes x.1) = [(allowedCall, [1])] := by
  have hstays := attestations_stay_with_calls plainCore (fun _ _ => rfl) (fun _ => .error "")
    OraclePolicy.priceFeed
    ⟨idleProver.config, notary, none⟩ callsBoth ⟨[], .replicate 32 0⟩ .nil (fun _ => rfl) rfl _ _
    rfl [deniedCall, allowedCall] rfl
  exact ⟨_, _, rfl, hstays.2.1, hstays.2.2.1⟩

end ProvenoZk.Drivers
