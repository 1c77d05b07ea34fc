import ProvenoZk.Foundation.Loop
import ProvenoZk.Zkvm.Consumption
import ProvenoZk.Zkvm.PayloadCap

/-! The digest over the six commitments, and the guest program that reveals it. The host
predicts it with the code the guest runs, on a machine whose `usize` is wider. -/
namespace ProvenoZk.Zkvm
open Foundation Proveno Policy

variable {I : Type}

namespace PublicInputs

variable (pi : PublicInputs)

/-- What `digest_sha256` feeds the hash: the fields in the order of the struct. -/
def preimage : List UInt8 :=
  pi.programHash.toList ++ (pi.inputHash.toList ++ (pi.toolResponsesHash.toList ++
    (pi.outputHash.toList ++ (pi.attestationHash.toList ++ pi.policyHash.toList))))

def digestSha256 (core : Core I) : Bytes32 := core.sha256 pi.preimage

theorem hash_append_inj {a b : Bytes32} {r s : List UInt8}
    (h : a.toList ++ r = b.toList ++ s) : a = b ∧ r = s := by
  have hparts := List.append_inj h (by simp)
  exact ⟨Vector.toList_inj.mp hparts.1, hparts.2⟩

theorem preimage_injective : Function.Injective preimage := by
  intro a b h
  unfold preimage at h
  have hprogram := hash_append_inj h
  have hinput := hash_append_inj hprogram.2
  have hresponses := hash_append_inj hinput.2
  have houtput := hash_append_inj hresponses.2
  have hattestation := hash_append_inj houtput.2
  have hpolicy := Vector.toList_inj.mp hattestation.2
  cases a
  cases b
  simp_all

end PublicInputs

/-! The public values of a guest. -/

section

variable {n : Nat}

/-- `reveal_u32`: the four bytes of the word, least significant first, at the word's slot. -/
def revealU32 (word : UInt32) (slot : Nat) (values : Vector UInt8 n) : Option (Vector UInt8 n) :=
  if 4 * (slot + 1) ≤ n then some (overwrite values (4 * slot) (leBytes 4 word.toNat)) else none

/-- `u32::from_le_bytes` of the `i`-th group of four bytes. -/
def digestWord (digest : Bytes32) (i : Nat) : UInt32 :=
  .ofNat (leNat ((digest.toList.drop (4 * i)).take 4))

def revealDigest (digest : Bytes32) (slot : Nat) (values : Vector UInt8 n) :
    Option (Vector UInt8 n) :=
  forRange 8 (fun i => revealU32 (digestWord digest i) (slot + i)) values

theorem leBytes_digestWord (digest : Bytes32) {i : Nat} (hi : i < 8) :
    leBytes 4 (digestWord digest i).toNat = (digest.toList.drop (4 * i)).take 4 := by
  have hlen : ((digest.toList.drop (4 * i)).take 4).length = 4 := by
    simp
    omega
  have hlt : leNat ((digest.toList.drop (4 * i)).take 4) < 2 ^ 32 := by
    have hlow := leNat_lt ((digest.toList.drop (4 * i)).take 4)
    rwa [hlen] at hlow
  have hbytes := leBytes_leNat ((digest.toList.drop (4 * i)).take 4)
  rw [hlen] at hbytes
  rw [digestWord, UInt32.toNat_ofNat', Nat.mod_eq_of_lt hlt, hbytes]

theorem revealU32_overwrite (digest : Bytes32) (slot : Nat) (values : Vector UInt8 n) {i : Nat}
    (hi : i < 8) (next : Vector UInt8 n) :
    revealU32 (digestWord digest i) (slot + i)
        (overwrite values (4 * slot) (digest.toList.take (4 * i))) = some next ↔
      4 * (slot + i + 1) ≤ n ∧
        next = overwrite values (4 * slot) (digest.toList.take (4 * (i + 1))) := by
  have hlen : (digest.toList.take (4 * i)).length = 4 * i := by
    simp
    omega
  have hlaid := overwrite_append values (4 * slot) (digest.toList.take (4 * i))
    ((digest.toList.drop (4 * i)).take 4)
  rw [hlen, ← Nat.mul_add, ← List.take_add] at hlaid
  unfold revealU32
  rw [leBytes_digestWord digest hi, hlaid]
  split_ifs with hroom
  · rw [Option.some_inj, eq_comm]
    exact ⟨fun h => ⟨hroom, h⟩, And.right⟩
  · exact ⟨nofun, fun h => absurd h.1 hroom⟩

theorem revealDigest_eq_some (digest : Bytes32) (slot : Nat) (values next : Vector UInt8 n) :
    revealDigest digest slot values = some next ↔
      4 * (slot + 8) ≤ n ∧ next = overwrite values (4 * slot) digest.toList := by
  let state := fun i => overwrite values (4 * slot) (digest.toList.take (4 * i))
  have hstep : ∀ i < 8, ∀ after, revealU32 (digestWord digest i) (slot + i) (state i) = some after ↔
      4 * (slot + i + 1) ≤ n ∧ after = state (i + 1) := by
    intro i hi after
    exact revealU32_overwrite digest slot values hi after
  have hloop := forRange_eq_some_iff hstep next
  have hfirst : state 0 = values := overwrite_nil values (4 * slot)
  have hlast : state 8 = overwrite values (4 * slot) digest.toList := by
    simp [state, List.take_of_length_le]
  rw [hfirst, hlast] at hloop
  rw [revealDigest, hloop]
  apply and_congr_left'
  constructor
  · intro h
    exact h 7 (by decide)
  · intro h i hi
    omega

end

/-- `main` of the guest. It panics where `read` finds a limit its `usize` cannot hold, and
where the replay fails. 32 bytes are its budget of public values. -/
def guestMain (core : Core I) (vm : Vm I) (input : GuestInput I) : Option (Vector UInt8 32) :=
  if input.config.FitsUsize .guest32 then
    match input.replayPublicInputs core vm .guest32 with
    | .ok (_, publicInputs) => revealDigest (publicInputs.digestSha256 core) 0 (.replicate _ 0)
    | .error _ => none
  else none

theorem guestMain_eq_some {core : Core I} {vm : Vm I} {input : GuestInput I}
    {values : Vector UInt8 32} : guestMain core vm input = some values ↔
      input.config.FitsUsize .guest32 ∧ ∃ output publicInputs,
        input.replayPublicInputs core vm .guest32 = .ok (output, publicInputs) ∧
        values = publicInputs.digestSha256 core := by
  unfold guestMain
  by_cases hread : input.config.FitsUsize .guest32
  · rw [if_pos hread, and_iff_right hread]
    cases hreplay : input.replayPublicInputs core vm .guest32 with
    | error fault => simp
    | ok result =>
      cases result with
      | mk output publicInputs =>
        dsimp only
        rw [revealDigest_eq_some, Nat.mul_zero, overwrite_zero]
        simp
  · simp [hread]

namespace GuestInput

variable {core : Core I} {vm : Vm I} {input : GuestInput I}

/-- The low 32 bits of the policy's limit let the tape through, or there is no policy. -/
def CapFitsGuest (input : GuestInput I) : Prop :=
  input.policyCanonical = [] ∨
    ∃ view, PolicyView.parse .host64 input.policyCanonical = .ok view ∧
      ∀ entry ∈ input.oracleTape.entries,
        entry.payload.length ≤ view.maxPayloadBytesPerCall.toNat % 2 ^ 32

theorem policyAccepts_guest32_iff (hsmall : input.policyCanonical.length < 2 ^ 32) :
    input.PolicyAccepts .guest32 ↔ input.CapFitsGuest := by
  unfold PolicyAccepts CapFitsGuest
  rw [parse_targetFree hsmall]
  simp only [checkTapePayloadSizes_eq_ok]
  rfl

theorem CapFitsGuest.policyAccepts_host64 (h : input.CapFitsGuest) :
    input.PolicyAccepts .host64 := by
  apply h.imp_right
  intro hview
  obtain ⟨view, hparse, hle⟩ := hview
  refine ⟨view, hparse, checkTapePayloadSizes_host64_iff.mpr ?_⟩
  intro entry hentry
  exact (hle entry hentry).trans (Nat.mod_le _ _)

theorem tapeClient_targetFree (hsmall : input.policyCanonical.length < 2 ^ 32) :
    input.tapeClient vm .guest32 = input.tapeClient vm .host64 := by
  unfold tapeClient
  rw [parse_targetFree hsmall]

theorem replay_guest32_iff (hsmall : input.policyCanonical.length < 2 ^ 32) {output : VmOutput}
    {publicInputs : PublicInputs} :
    input.replayPublicInputs core vm .guest32 = .ok (output, publicInputs) ↔
      input.replayPublicInputs core vm .host64 = .ok (output, publicInputs) ∧
        input.CapFitsGuest := by
  rw [replay_eq_ok_iff, replay_eq_ok_iff, policyAccepts_guest32_iff hsmall,
    tapeClient_targetFree hsmall]
  constructor
  · intro h
    exact ⟨⟨h.1.policyAccepts_host64, h.2⟩, h.1⟩
  · intro h
    exact ⟨h.2, h.1.2⟩

/-- What the guest reveals is what the host predicts: a guest run ends with some public
values exactly when the host's replay completes with the digest they are, the limits of
the VM fit 32 bits, and that of the policy, cut off to 32 bits, still lets every
response through. -/
theorem guest_reveals_prediction (core : Core I) (vm : Vm I) (input : GuestInput I)
    (hsmall : input.policyCanonical.length < 2 ^ 32) (values : Vector UInt8 32) :
    guestMain core vm input = some values ↔
      (∃ output expected, input.replayPublicInputs core vm .host64 = .ok (output, expected) ∧
        values = expected.digestSha256 core) ∧
      input.config.FitsUsize .guest32 ∧ input.CapFitsGuest := by
  rw [guestMain_eq_some]
  simp only [replay_guest32_iff hsmall]
  constructor
  · intro h
    obtain ⟨hread, output, expected, hreplay, hvalues⟩ := h
    exact ⟨⟨output, expected, hreplay.1, hvalues⟩, hread, hreplay.2⟩
  · intro h
    obtain ⟨⟨output, expected, hreplay, hvalues⟩, hread, hfits⟩ := h
    exact ⟨hread, output, expected, ⟨hreplay, hfits⟩, hvalues⟩

theorem guest_reveals_prediction_oneCall :
    guestMain plainCore callOnce oneCallInput = some (.replicate 32 0) := by
  apply (guest_reveals_prediction plainCore callOnce oneCallInput (by decide) _).mpr
  refine ⟨⟨zeroOutput, _, rfl, rfl⟩, by decide, Or.inr ⟨⟨[], [], 1, 64, .unattestedPermitted⟩, rfl, ?_⟩⟩
  decide

end GuestInput

end ProvenoZk.Zkvm
