import ProvenoZk.Contracts.Verifier

/-! `Bounty.sol`. A call that reverts gives an error, and its caller is left with the
state it had. -/
namespace ProvenoZk.Contracts
open Foundation

abbrev Address := BitVec 160

structure BountyData where
  poster : Address
  reward : Nat
  programHash : Bytes32
  claimed : Bool
  solver : Address
  deriving DecidableEq

/-- What the mapping holds where nothing was written. -/
def BountyData.blank : BountyData where
  poster := 0
  reward := 0
  programHash := .replicate _ 0
  claimed := false
  solver := 0

inductive BountyError where
  | alreadyClaimed
  | wrongTask
  | noReward
  | verifier (error : VerifierError)
  | transferFailed
  deriving DecidableEq

inductive BountyEvent where
  | bountyPosted (id : Nat) (poster : Address) (reward : Nat) (programHash : Bytes32)
  | bountyClaimed (id : Nat) (solver : Address) (reward : Nat)
  deriving DecidableEq

/-- The contract's storage, its ether and what it emitted. -/
structure Bounty where
  bounties : Nat → BountyData
  nextId : Nat
  balance : Nat
  events : List BountyEvent

namespace Bounty

def store (b : Bounty) (id : Nat) (data : BountyData) : Bounty :=
  { b with bounties := Function.update b.bounties id data }

def emit (b : Bounty) (event : BountyEvent) : Bounty :=
  { b with events := b.events ++ [event] }

variable (b : Bounty)

/-- `value` is what the caller sends along; `nextId++` is checked. -/
def postBounty (sender : Address) (value : Nat) (programHash : Bytes32) :
    Outcome BountyError (Bounty × Nat) :=
  if value = 0 then .error (.failed .noReward)
  else if 2 ^ 256 ≤ b.nextId + 1 then .error .panicked
  else
    let id := b.nextId
    let b := { b with balance := b.balance + value, nextId := b.nextId + 1 }
    let b := b.store id
      { poster := sender
        reward := value
        programHash := programHash
        claimed := false
        solver := 0 }
    .ok (b.emit (.bountyPosted id sender value programHash), id)

/-- `claim` up to where the solver takes over, and the ether the solver is called with.
The call fails at once where the contract lacks that ether; `claim` reverts then, as it
does where the solver does. -/
def claim (verify : List UInt8 → PublicInputs → Outcome VerifierError Bool) (sender : Address)
    (id : Nat) (proof : List UInt8) (inputs : PublicInputs) : Outcome BountyError (Bounty × Nat) :=
  let data := b.bounties id
  if data.claimed then .error (.failed .alreadyClaimed)
  else do
    -- the verdict is the revert: what `verify` returns is not looked at
    let _ ← (verify proof inputs).mapErr .verifier
    if inputs.programHash ≠ data.programHash then .error (.failed .wrongTask)
    else
      let b := b.store id { data with claimed := true, solver := sender }
      let reward := data.reward
      let b := b.emit (.bountyClaimed id sender reward)
      if b.balance < reward then .error (.failed .transferFailed)
      else .ok ({ b with balance := b.balance - reward }, reward)

structure Posts (sender : Address) (value : Nat) (programHash : Bytes32) (after : Bounty) : Prop where
  funded : 0 < value
  bounties : after.bounties = Function.update b.bounties b.nextId
    { poster := sender, reward := value, programHash, claimed := false, solver := 0 }
  nextId : after.nextId = b.nextId + 1
  balance : after.balance = b.balance + value
  events : after.events = b.events ++ [.bountyPosted b.nextId sender value programHash]

structure Claims (sender : Address) (id : Nat) (programHash : Bytes32) (after : Bounty) : Prop where
  unclaimed : (b.bounties id).claimed = false
  task : programHash = (b.bounties id).programHash
  bounties : after.bounties =
    Function.update b.bounties id { b.bounties id with claimed := true, solver := sender }
  nextId : after.nextId = b.nextId
  balance : after.balance + (b.bounties id).reward = b.balance
  events : after.events = b.events ++ [.bountyClaimed id sender (b.bounties id).reward]

variable {b} {after : Bounty} {sender : Address}

theorem postBounty_eq_ok {value : Nat} {programHash : Bytes32} {id : Nat}
    (h : b.postBounty sender value programHash = .ok (after, id)) :
    id = b.nextId ∧ b.Posts sender value programHash after := by
  unfold postBounty at h
  split_ifs at h with hvalue hroom
  simp only [Except.ok.injEq, Prod.mk.injEq] at h
  obtain ⟨rfl, rfl⟩ := h
  exact ⟨rfl, Nat.pos_of_ne_zero hvalue, rfl, rfl, rfl, rfl⟩

theorem claim_eq_ok {verify : List UInt8 → PublicInputs → Outcome VerifierError Bool} {id : Nat}
    {proof : List UInt8} {inputs : PublicInputs} {reward : Nat}
    (h : b.claim verify sender id proof inputs = .ok (after, reward)) :
    (∃ verdict, verify proof inputs = .ok verdict) ∧ reward = (b.bounties id).reward ∧
      b.Claims sender id inputs.programHash after := by
  unfold claim at h
  dsimp only at h
  by_cases hclaimed : (b.bounties id).claimed = true
  · rw [if_pos hclaimed] at h
    cases h
  rw [if_neg hclaimed] at h
  obtain ⟨verdict, hverdict, h⟩ := Outcome.bind_eq_ok.mp h
  split_ifs at h with htask hfunds
  simp only [Except.ok.injEq, Prod.mk.injEq] at h
  obtain ⟨rfl, rfl⟩ := h
  have hbalance : (b.bounties id).reward ≤ b.balance := Nat.le_of_not_lt hfunds
  refine ⟨⟨verdict, Outcome.mapErr_eq_ok.mp hverdict⟩, rfl, Bool.eq_false_iff.mpr hclaimed,
    not_not.mp htask, rfl, rfl, ?_, rfl⟩
  exact Nat.sub_add_cancel hbalance

end Bounty

end ProvenoZk.Contracts
