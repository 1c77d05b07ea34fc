import ProvenoZk.Policy.Alignment
import ProvenoZk.Zkvm.Digest

/-! What a verifier learns from a revealed digest. It is handed six hashes out of band,
recomputes the digest over them and compares; a hash that is a policy's then says which
calls the program was able to make. -/
namespace ProvenoZk.Zkvm
open Foundation Proveno Policy

variable {I N : Type}

theorem PublicInputs.eq_or_collides {core : Core I} {a b : PublicInputs}
    (h : a.digestSha256 core = b.digestSha256 core) :
    a = b ∨ core.Collides a.preimage b.preimage := by
  by_cases hsame : a = b
  · exact Or.inl hsame
  · exact Or.inr ⟨fun hbytes => hsame (preimage_injective hbytes), h⟩

namespace GuestInput

/-- The replay kept to the policy: its tape, the calls that reached the tape, counted from
zero with those the policy turned down, and how much of the tape they used up. -/
structure KeepsPolicy (core : Core I) (vm : Vm I) (input : GuestInput I) (policy : OraclePolicy N) :
    Prop where
  payloads : ∀ entry ∈ input.oracleTape.entries,
    entry.payload.length ≤ policy.maxPayloadBytesPerCall.toNat
  reached : ∀ k e, ((input.client vm).exchanges (observedHost core policy.view)
      input.observedStart)[k]? = some e →
    (PolicyEnforcingHost.Reached e ↔ k + 1 ≤ policy.maxToolCalls.toNat ∧
      (isHttpTool e.query.name = true →
        policy.checkHttpCall e.query.name ((getUrlFromArgs e.query.args).getD "") = .ok ()))
  consumed : ((input.client vm).run (observedHost core policy.view)
    input.observedStart).2.inner.1.cursor ≤ policy.maxToolCalls.toNat

section

variable {core : Core I} {vm : Vm I} {input : GuestInput I} {policy : OraclePolicy N}

theorem keepsPolicy_of_check {target : Target}
    (hsizes : input.checkTapePayloadSizes target policy.view = .ok ()) :
    input.KeepsPolicy core vm policy := by
  have hclient : (input.client vm).AsksAtMost (2 ^ 64 - 1) := vm.execute_asksAtMost _ _ _
  have hn : 2 ^ 64 - 1 < 2 ^ 64 := by decide
  constructor
  case payloads => exact payload_le_of_check hsizes
  case reached =>
    intro k e he
    have hreached := PolicyEnforcingHost.reached_iff (TapeHost.callTool core) policy.view hclient
      hn (TapeHost.new input.oracleTape) he
    rw [hreached.1, PolicyEnforcingHost.Admits, OraclePolicy.view_checkHttpCall]
    apply and_congr_right'
    cases isHttpTool e.query.name <;> simp
  case consumed =>
    have hcursor := PolicyEnforcingHost.measure_run_le (TapeHost.callTool core).logged policy.view
      (fun s => s.1.cursor) (fun call s => TapeHost.cursor_callTool_le core call s.1) hclient hn
      (TapeHost.new input.oracleTape, [])
    exact hcursor.trans (Nat.le_of_eq (Nat.zero_add _))

theorem keepsPolicy_of_replay (R : JsonRenderer N) (hrange : policy.InRange R)
    (hfits : (policy.canonicalBytes R).length < 2 ^ 32)
    (hcanonical : input.policyCanonical = policy.canonicalBytes R)
    (haccepts : input.PolicyAccepts .guest32) (hne : input.policyCanonical ≠ []) :
    input.KeepsPolicy core vm policy := by
  have hparse : PolicyView.parse .guest32 (policy.canonicalBytes R) = .ok policy.view :=
    OraclePolicy.parse_canonicalBytes_eq R hrange hfits
  obtain ⟨view, hview, hsizes⟩ := haccepts.resolve_left hne
  rw [hcanonical, hparse] at hview
  rw [← Except.ok.inj hview] at hsizes
  exact keepsPolicy_of_check hsizes

theorem committedPolicy_of_ne_nil (hne : input.policyCanonical ≠ []) :
    input.committedPolicy core = core.sha256 input.policyCanonical := by
  unfold committedPolicy
  rw [if_neg (by simpa using hne)]

theorem ne_nil_of_committedPolicy (h : input.committedPolicy core ≠ .replicate 32 0) :
    input.policyCanonical ≠ [] := by
  intro hnil
  apply h
  unfold committedPolicy
  rw [hnil]
  rfl

end

/-- Who recomputes the digest of a guest from six hashes, the last of them a policy's, knows
the run behind it: the hashes are those of the program, the input, the tape and the output
that were replayed, the guest was given that policy's bytes, and the replay kept to it. Else
the guest exhibits two messages with one SHA-256 digest. -/
theorem revealed_digest_keeps_policy (R : JsonRenderer N) (core : Core I) (vm : Vm I)
    (policy : OraclePolicy N) (hrange : policy.InRange R)
    (hfits : (policy.canonicalBytes R).length < 2 ^ 32)
    (hset : policy.policyHash R core.sha256 ≠ .replicate 32 0) (claimed : PublicInputs)
    (hpolicy : claimed.policyHash = policy.policyHash R core.sha256) (input : GuestInput I)
    (hreveal : guestMain core vm input = some (claimed.digestSha256 core)) :
    ∃ output replayed, input.replayPublicInputs core vm .guest32 = .ok (output, replayed) ∧
      (core.Collides replayed.preimage claimed.preimage ∨
        core.Collides input.policyCanonical (policy.canonicalBytes R) ∨
        (claimed = computePublicInputsSha256WithPolicyHash core
            (core.computeProgramHashSha256 input.program.prototypes) input.inputValue
            input.oracleTape output (policy.policyHash R core.sha256) ∧
          input.policyCanonical = policy.canonicalBytes R ∧
          input.KeepsPolicy core vm policy)) := by
  obtain ⟨-, output, replayed, hreplay, hdigest⟩ := guestMain_eq_some.mp hreveal
  refine ⟨output, replayed, hreplay, ?_⟩
  cases PublicInputs.eq_or_collides hdigest.symm with
  | inr hcollides => exact Or.inl hcollides
  | inl hsame =>
    obtain ⟨haccepts, -, hinputs⟩ := (replay_eq_ok_iff core).mp hreplay
    have hcommitted : input.committedPolicy core = policy.policyHash R core.sha256 := by
      rw [← hpolicy, ← hsame, hinputs]
      rfl
    have hne := ne_nil_of_committedPolicy (hcommitted.trans_ne hset)
    rw [hcommitted] at hinputs
    rw [committedPolicy_of_ne_nil hne] at hcommitted
    by_cases hcanonical : input.policyCanonical = policy.canonicalBytes R
    · exact Or.inr (Or.inr ⟨hsame.symm.trans hinputs, hcanonical,
        keepsPolicy_of_replay R hrange hfits hcanonical haccepts hne⟩)
    · exact Or.inr (Or.inl ⟨hcanonical, hcommitted⟩)

/-! One call under the price feed's policy, with a digest that tells policies apart. -/

def prefixCore : Core Instruction := { plainCore with sha256 := fill 32 0 }

def priceFeedInput : GuestInput Instruction :=
  oneCallInput.withPolicyCanonical (OraclePolicy.priceFeed.canonicalBytes integerRenderer)

theorem priceFeedInput_ne_nil : priceFeedInput.policyCanonical ≠ [] := by
  decide +kernel

theorem priceFeedInput_replays : priceFeedInput.replayPublicInputs prefixCore callOnce .guest32 =
    .ok (zeroOutput, computePublicInputsSha256WithPolicyHash prefixCore (.replicate 32 0) .nil
      oneCallInput.oracleTape zeroOutput
      (OraclePolicy.priceFeed.policyHash integerRenderer prefixCore.sha256)) :=
  replayPublicInputs_of_run priceFeedInput_ne_nil priceFeed_parse rfl rfl

theorem revealed_digest_keeps_priceFeed :
    priceFeedInput.KeepsPolicy prefixCore callOnce OraclePolicy.priceFeed := by
  obtain ⟨output, replayed, hreplay, hcases⟩ := revealed_digest_keeps_policy integerRenderer
    prefixCore callOnce OraclePolicy.priceFeed OraclePolicy.priceFeed_inRange (by decide +kernel)
    (by decide +kernel) _ rfl priceFeedInput
    (guestMain_eq_some.mpr ⟨by decide, _, _, priceFeedInput_replays, rfl⟩)
  rw [priceFeedInput_replays] at hreplay
  cases hreplay
  rcases hcases with hcollides | hcollides | hkeeps
  · exact absurd rfl hcollides.1
  · exact absurd rfl hcollides.1
  · exact hkeeps.2.2

end GuestInput

end ProvenoZk.Zkvm
