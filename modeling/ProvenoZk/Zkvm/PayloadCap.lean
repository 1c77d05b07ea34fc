import ProvenoZk.Policy.Parsing
import ProvenoZk.Zkvm.Replay

/-! The payload limit is a 64-bit number in the policy and a `usize` where the tape is
measured against it. -/
namespace ProvenoZk.Zkvm.GuestInput
open Foundation Proveno Policy

variable {I : Type}

section

variable {input : GuestInput I} {target : Target} {view : PolicyView}

theorem checkTapePayloadSizes_eq_ok : input.checkTapePayloadSizes target view = .ok () ↔
    ∀ entry ∈ input.oracleTape.entries,
      entry.payload.length ≤ target.asUsize view.maxPayloadBytesPerCall.toNat :=
  checkPayloadSizes_eq_ok

theorem asUsize_host64 (n : UInt64) : Target.host64.asUsize n.toNat = n.toNat :=
  Nat.mod_eq_of_lt n.toNat_lt

theorem checkTapePayloadSizes_host64_iff :
    input.checkTapePayloadSizes .host64 view = .ok () ↔
      ∀ entry ∈ input.oracleTape.entries,
        entry.payload.length ≤ view.maxPayloadBytesPerCall.toNat := by
  rw [checkTapePayloadSizes_eq_ok, asUsize_host64]

def OverCap (input : GuestInput I) (view : PolicyView) : Prop :=
  ∃ entry ∈ input.oracleTape.entries, view.maxPayloadBytesPerCall.toNat < entry.payload.length

/-- The limit is enforced as the policy states it, and both targets say the same. -/
structure EnforcesCap (input : GuestInput I) (view : PolicyView) : Prop where
  rejects : ∀ target, input.checkTapePayloadSizes target view ≠ .ok () ↔ OverCap input view
  agrees : input.checkTapePayloadSizes .guest32 view = input.checkTapePayloadSizes .host64 view

theorem not_overCap_iff : ¬ OverCap input view ↔ ∀ entry ∈ input.oracleTape.entries,
    entry.payload.length ≤ view.maxPayloadBytesPerCall.toNat := by
  simp [OverCap]

theorem enforcesCap_of_small (h : view.maxPayloadBytesPerCall.toNat < 2 ^ 32) :
    EnforcesCap input view := by
  have hcap (target : Target) : target.asUsize view.maxPayloadBytesPerCall.toNat =
      view.maxPayloadBytesPerCall.toNat := target.asUsize_of_lt h
  constructor
  · intro target
    rw [← not_iff_not, not_overCap_iff, not_not, checkTapePayloadSizes_eq_ok, hcap]
  · unfold checkTapePayloadSizes
    rw [hcap, hcap]

theorem enforcesCap_of_le (h : ∀ entry ∈ input.oracleTape.entries,
    entry.payload.length ≤ view.maxPayloadBytesPerCall.toNat % 2 ^ 32) :
    EnforcesCap input view := by
  have hle : ∀ entry ∈ input.oracleTape.entries,
      entry.payload.length ≤ view.maxPayloadBytesPerCall.toNat := by
    intro entry hentry
    exact (h entry hentry).trans (Nat.mod_le _ _)
  have hok : ∀ target, input.checkTapePayloadSizes target view = .ok () := by
    intro target
    cases target with
    | guest32 => exact checkTapePayloadSizes_eq_ok.mpr h
    | host64 => exact checkTapePayloadSizes_host64_iff.mpr hle
  constructor
  · intro target
    rw [← not_iff_not, not_overCap_iff, not_not, hok]
    exact iff_of_true rfl hle
  · rw [hok, hok]

theorem EnforcesCap.small_or_le (h : EnforcesCap input view)
    (hentries : ∀ entry ∈ input.oracleTape.entries, entry.payload.length < 2 ^ 32) :
    view.maxPayloadBytesPerCall.toNat < 2 ^ 32 ∨ ∀ entry ∈ input.oracleTape.entries,
      entry.payload.length ≤ view.maxPayloadBytesPerCall.toNat % 2 ^ 32 := by
  by_cases hsmall : view.maxPayloadBytesPerCall.toNat < 2 ^ 32
  · exact Or.inl hsmall
  · have hunder : ¬ OverCap input view := by
      rw [not_overCap_iff]
      intro entry hentry
      have hlt := hentries entry hentry
      omega
    have hok := not_not.mp (mt (h.rejects .guest32).mp hunder)
    exact Or.inr (checkTapePayloadSizes_eq_ok.mp hok)

end

/-- For a policy that parses and a tape with entries below four gigabytes, the check is
the one the policy asks for, on both targets, exactly when the limit itself is below four
gigabytes or no entry is longer than its low 32 bits. Policy bytes that fit the guest's
memory are read the same on both. -/
theorem enforcesCap_iff (input : GuestInput I) (target : Target) (view : PolicyView)
    (hparse : PolicyView.parse target input.policyCanonical = .ok view)
    (hentries : ∀ entry ∈ input.oracleTape.entries, entry.payload.length < 2 ^ 32) :
    (EnforcesCap input view ↔ view.maxPayloadBytesPerCall.toNat < 2 ^ 32 ∨
      ∀ entry ∈ input.oracleTape.entries,
        entry.payload.length ≤ view.maxPayloadBytesPerCall.toNat % 2 ^ 32) ∧
    (input.policyCanonical.length < 2 ^ 32 →
      ∀ other, PolicyView.parse other input.policyCanonical = .ok view) := by
  constructor
  · constructor
    · intro h
      exact h.small_or_le hentries
    · intro h
      cases h with
      | inl hlimit => exact enforcesCap_of_small hlimit
      | inr hle => exact enforcesCap_of_le hle
  · intro hsmall other
    have hsame := parse_targetFree hsmall
    cases target <;> cases other
    · exact hparse
    · rwa [← hsame]
    · rwa [hsame]
    · exact hparse

theorem enforcesCap_oneCall : EnforcesCap oneCallInput ⟨[], [], 1, 64, .unattestedPermitted⟩ :=
  (enforcesCap_iff oneCallInput .guest32 ⟨[], [], 1, 64, .unattestedPermitted⟩ rfl
    (by decide)).1.mpr (Or.inl (by decide))

def hugeCapPolicy : List UInt8 :=
  List.replicate 8 0 ++ leBytes 8 1 ++ leBytes 8 (2 ^ 32) ++ List.replicate 9 0

def hugeCapInput : GuestInput Instruction := oneCallInput.withPolicyCanonical hugeCapPolicy

/-- The guest takes the limit for zero and refuses a response of two bytes. -/
theorem not_enforcesCap :
    ¬ ∀ (input : GuestInput Instruction) (view : PolicyView),
      PolicyView.parse .guest32 input.policyCanonical = .ok view →
      (∀ entry ∈ input.oracleTape.entries, entry.payload.length < 2 ^ 32) →
      EnforcesCap input view := by
  intro hall
  have hcap := hall hugeCapInput ⟨[], [], 1, 2 ^ 32, .unattestedPermitted⟩ rfl (by decide)
  have hagrees := hcap.agrees
  exact absurd hagrees (by decide)

end ProvenoZk.Zkvm.GuestInput
