import ProvenoZk.Contracts.Bounty
import ProvenoZk.Foundation.Rollback

/-! What the bounty board is for: it holds the rewards of the bounties that nobody has
claimed. The journal is the account of what happened to it, as far as it was not
reverted; the storage, the ether and the events of the contract are determined by it,
in every state any callers can bring about. -/
namespace ProvenoZk.Contracts
open Foundation

structure Posting where
  id : Nat
  poster : Address
  reward : Nat
  programHash : Bytes32
  deriving DecidableEq

/-- Ether that left the contract, and the program its receiver proved. -/
structure Payment where
  solver : Address
  value : Nat
  programHash : Bytes32
  deriving DecidableEq

inductive Entry where
  | posted (posting : Posting)
  | claimed (id : Nat) (payment : Payment)
  /-- Ether that arrives without a call, as from `selfdestruct`. -/
  | forced (value : Nat)

namespace Entry

def posting? : Entry → Option Posting
  | .posted posting => some posting
  | _ => none

/-- What a bounty paid. An id that was not posted yet can be claimed, for nothing. -/
def payment? (id : Nat) : Entry → Option Payment
  | .claimed id' payment => if id' = id ∧ payment.value ≠ 0 then some payment else none
  | _ => none

def forcedValue : Entry → Nat
  | .forced value => value
  | _ => 0

def event? : Entry → Option BountyEvent
  | .posted posting =>
    some (.bountyPosted posting.id posting.poster posting.reward posting.programHash)
  | .claimed id payment => some (.bountyClaimed id payment.solver payment.value)
  | .forced _ => none

theorem payment?_of_ne {id id' : Nat} (h : id' ≠ id) (payment : Payment) :
    payment? id (.claimed id' payment) = none :=
  if_neg fun hpaid => h hpaid.1

theorem payment?_of_value (id : Nat) {payment : Payment} (h : payment.value ≠ 0) :
    payment? id (.claimed id payment) = some payment :=
  if_pos ⟨rfl, h⟩

theorem payment?_of_nothing (id : Nat) {payment : Payment} (h : payment.value = 0) :
    payment? id (.claimed id payment) = none :=
  if_neg fun hpaid => hpaid.2 h

end Entry

def postings (journal : List Entry) : List Posting := journal.filterMap Entry.posting?

def payments (id : Nat) (journal : List Entry) : List Payment := journal.filterMap (Entry.payment? id)

def forcedIn (journal : List Entry) : Nat := (journal.map Entry.forcedValue).sum

section

variable (journal : List Entry) (entry : Entry)

theorem postings_append :
    postings (journal ++ [entry]) = postings journal ++ entry.posting?.toList := by
  cases h : entry.posting? <;> simp [postings, h]

theorem payments_append (id : Nat) :
    payments id (journal ++ [entry]) = payments id journal ++ (entry.payment? id).toList := by
  cases h : entry.payment? id <;> simp [payments, h]

theorem forcedIn_append : forcedIn (journal ++ [entry]) = forcedIn journal + entry.forcedValue := by
  simp [forcedIn]

end

namespace Bounty

variable (b : Bounty)

def posting (id : Nat) : Posting :=
  { id
    poster := (b.bounties id).poster
    reward := (b.bounties id).reward
    programHash := (b.bounties id).programHash }

def payment (id : Nat) : Payment :=
  { solver := (b.bounties id).solver
    value := (b.bounties id).reward
    programHash := (b.bounties id).programHash }

def owed (id : Nat) : Nat := if (b.bounties id).claimed then 0 else (b.bounties id).reward

/-- The rewards of the posted bounties that nobody claimed. -/
def outstanding : Nat := ∑ id ∈ Finset.range b.nextId, b.owed id

def Paid (id : Nat) : Prop := id < b.nextId ∧ (b.bounties id).claimed

instance (id : Nat) : Decidable (b.Paid id) :=
  inferInstanceAs (Decidable (id < b.nextId ∧ (b.bounties id).claimed))

section

variable {b} {after : Bounty} {sender : Address} {id : Nat}

theorem posting_congr (h : after.bounties id = b.bounties id) : after.posting id = b.posting id := by
  rw [posting, h, ← posting]

theorem payment_congr (h : after.bounties id = b.bounties id) : after.payment id = b.payment id := by
  rw [payment, h, ← payment]

theorem owed_congr (h : after.bounties id = b.bounties id) : after.owed id = b.owed id := by
  rw [owed, h, ← owed]

namespace Posts

variable {value : Nat} {programHash : Bytes32} (h : b.Posts sender value programHash after)
include h

theorem bounties_self : after.bounties b.nextId =
    { poster := sender, reward := value, programHash, claimed := false, solver := 0 } := by
  rw [h.bounties, Function.update_self]

theorem bounties_of_ne (hid : id ≠ b.nextId) : after.bounties id = b.bounties id := by
  rw [h.bounties, Function.update_of_ne hid]

theorem outstanding_eq : after.outstanding = b.outstanding + value := by
  have hlast : after.owed b.nextId = value := by
    rw [owed, h.bounties_self]
    rfl
  have hfirst : ∀ id ∈ Finset.range b.nextId, after.owed id = b.owed id := by
    intro id hid
    exact owed_congr (h.bounties_of_ne (Nat.ne_of_lt (Finset.mem_range.mp hid)))
  rw [outstanding, h.nextId, Finset.sum_range_succ, hlast, Finset.sum_congr rfl hfirst]
  rfl

theorem postings_eq : (List.range after.nextId).map after.posting =
    (List.range b.nextId).map b.posting ++ [⟨b.nextId, sender, value, programHash⟩] := by
  have hlast : after.posting b.nextId = ⟨b.nextId, sender, value, programHash⟩ := by
    rw [posting, h.bounties_self]
  have hfirst : ∀ id ∈ List.range b.nextId, after.posting id = b.posting id := by
    intro id hid
    exact posting_congr (h.bounties_of_ne (Nat.ne_of_lt (List.mem_range.mp hid)))
  rw [h.nextId, List.range_succ, List.map_append, List.map_congr_left hfirst, List.map_singleton,
    hlast]

theorem paid_iff : after.Paid id ↔ b.Paid id := by
  have hnext := h.nextId
  rw [Paid, Paid, hnext]
  constructor
  · rintro ⟨hid, hclaimed⟩
    by_cases hlast : id = b.nextId
    · rw [hlast, h.bounties_self] at hclaimed
      cases hclaimed
    · rw [h.bounties_of_ne hlast] at hclaimed
      exact ⟨by omega, hclaimed⟩
  · rintro ⟨hid, hclaimed⟩
    rw [h.bounties_of_ne (Nat.ne_of_lt hid)]
    exact ⟨Nat.lt_succ_of_lt hid, hclaimed⟩

end Posts

namespace Claims

variable {programHash : Bytes32} (h : b.Claims sender id programHash after)
include h

theorem bounties_self :
    after.bounties id = { b.bounties id with claimed := true, solver := sender } := by
  rw [h.bounties, Function.update_self]

theorem bounties_of_ne {other : Nat} (hne : other ≠ id) : after.bounties other = b.bounties other := by
  rw [h.bounties, Function.update_of_ne hne]

theorem reward_eq (other : Nat) : (after.bounties other).reward = (b.bounties other).reward := by
  by_cases hne : other = id
  · rw [hne, h.bounties_self]
  · rw [h.bounties_of_ne hne]

theorem posting_eq : after.posting = b.posting := by
  funext other
  by_cases hne : other = id
  · rw [hne, posting, h.bounties_self, ← posting]
  · exact posting_congr (h.bounties_of_ne hne)

theorem owed_eq : after.owed = Function.update b.owed id 0 := by
  funext other
  by_cases hne : other = id
  · rw [hne, Function.update_self, owed, h.bounties_self]
    rfl
  · rw [Function.update_of_ne hne]
    exact owed_congr (h.bounties_of_ne hne)

theorem outstanding_add (hunfunded : b.nextId ≤ id → (b.bounties id).reward = 0) :
    after.outstanding + (b.bounties id).reward = b.outstanding := by
  have howed : b.owed id = (b.bounties id).reward := by
    rw [owed, h.unclaimed]
    rfl
  rw [outstanding, h.nextId, h.owed_eq]
  by_cases hid : id < b.nextId
  · rw [Finset.sum_update_of_mem (Finset.mem_range.mpr hid), outstanding,
      Finset.sum_eq_add_sum_sdiff_singleton_of_mem (Finset.mem_range.mpr hid), howed]
    omega
  · rw [Finset.sum_update_of_notMem (fun hmem => hid (Finset.mem_range.mp hmem)),
      hunfunded (Nat.le_of_not_lt hid)]
    rfl

theorem paid_iff {other : Nat} (hne : other ≠ id) : after.Paid other ↔ b.Paid other := by
  rw [Paid, Paid, h.bounties_of_ne hne, h.nextId]

theorem not_paid : ¬ b.Paid id := by
  rintro ⟨-, hclaimed⟩
  rw [h.unclaimed] at hclaimed
  cases hclaimed

end Claims

end

end Bounty

structure World where
  contract : Bounty
  journal : List Entry

inductive Action where
  | postBounty (sender : Address) (value : Nat) (programHash : Bytes32)
  | claim (sender : Address) (id : Nat) (proof : List UInt8) (inputs : PublicInputs)
  | force (value : Nat)

/-- What happens at once. The verifier may answer each call as it likes; it is called
statically, so that is all it can do. -/
inductive Acts : World → Action → World → Prop where
  | posted {w : World} {sender : Address} {value : Nat} {programHash : Bytes32} {after : Bounty}
      {id : Nat} : w.contract.postBounty sender value programHash = .ok (after, id) →
      Acts w (.postBounty sender value programHash)
        ⟨after, w.journal ++ [.posted ⟨id, sender, value, programHash⟩]⟩
  | postReverted {w : World} {sender : Address} {value : Nat} {programHash : Bytes32}
      {error : Fault BountyError} : w.contract.postBounty sender value programHash = .error error →
      Acts w (.postBounty sender value programHash) w
  | claimReverted {w : World} {sender : Address} {id : Nat} {proof : List UInt8}
      {inputs : PublicInputs} {error : Fault BountyError}
      (verify : List UInt8 → PublicInputs → Outcome VerifierError Bool) :
      w.contract.claim verify sender id proof inputs = .error error →
      Acts w (.claim sender id proof inputs) w
  | forced {w : World} (value : Nat) :
      Acts w (.force value)
        ⟨{ w.contract with balance := w.contract.balance + value }, w.journal ++ [.forced value]⟩

/-- A solver that is sent its reward, and any other code that calls around. -/
inductive Call where
  | claim (sender : Address) (id : Nat) (proof : List UInt8) (inputs : PublicInputs)
  | enter

inductive Calls : World → Call → World → Prop where
  | claimed {w : World} {sender : Address} {id : Nat} {proof : List UInt8} {inputs : PublicInputs}
      {after : Bounty} {reward : Nat}
      (verify : List UInt8 → PublicInputs → Outcome VerifierError Bool) :
      w.contract.claim verify sender id proof inputs = .ok (after, reward) →
      Calls w (.claim sender id proof inputs)
        ⟨after, w.journal ++ [.claimed id ⟨sender, reward, inputs.programHash⟩]⟩
  | entered {w : World} : Calls w .enter w

abbrev EscrowStep := Nested.Step Acts Calls

/-- The new contract, with the ether its address may have had already. -/
def deployed (balance : Nat) : World where
  contract :=
    { bounties := fun _ => .blank
      nextId := 0
      balance
      events := [] }
  journal := [.forced balance]

structure Escrow (w : World) : Prop where
  /-- The ether is what is outstanding, and what was forced in. -/
  balanced : w.contract.balance = w.contract.outstanding + forcedIn w.journal
  /-- Each id was posted once, in order, with the data it still has. -/
  posted : postings w.journal = (List.range w.contract.nextId).map w.contract.posting
  funded : ∀ id < w.contract.nextId, 0 < (w.contract.bounties id).reward
  unfunded : ∀ id, w.contract.nextId ≤ id → (w.contract.bounties id).reward = 0
  /-- A posted bounty that is claimed paid once, to its solver; nothing else paid. -/
  paid : ∀ id, payments id w.journal =
    if w.contract.Paid id then [w.contract.payment id] else []
  unsolved : ∀ id, (w.contract.bounties id).claimed = false → (w.contract.bounties id).solver = 0
  emitted : w.contract.events = w.journal.filterMap Entry.event?

theorem escrow_deployed (balance : Nat) : Escrow (deployed balance) where
  balanced := by simp [deployed, Bounty.outstanding, forcedIn, Entry.forcedValue]
  posted := rfl
  funded := by
    intro id hid
    exact absurd hid (Nat.not_lt_zero id)
  unfunded := fun _ _ => rfl
  paid := fun _ => rfl
  unsolved := fun _ _ => rfl
  emitted := rfl

namespace Escrow

variable {w : World} {after : Bounty} {sender : Address}

theorem forced (h : Escrow w) (value : Nat) :
    Escrow ⟨{ w.contract with balance := w.contract.balance + value },
      w.journal ++ [.forced value]⟩ where
  balanced := by
    rw [forcedIn_append, Entry.forcedValue, h.balanced, ← Nat.add_assoc]
    rfl
  posted := by
    rw [postings_append]
    exact (List.append_nil _).trans h.posted
  funded := h.funded
  unfunded := h.unfunded
  paid := by
    intro id
    rw [payments_append]
    exact (List.append_nil _).trans (h.paid id)
  unsolved := h.unsolved
  emitted := by
    rw [List.filterMap_append]
    exact h.emitted.trans (List.append_nil _).symm

theorem posts (h : Escrow w) {value : Nat} {programHash : Bytes32}
    (hposts : w.contract.Posts sender value programHash after) :
    Escrow ⟨after, w.journal ++ [.posted ⟨w.contract.nextId, sender, value, programHash⟩]⟩ := by
  have hnext := hposts.nextId
  constructor
  case balanced =>
    rw [forcedIn_append]
    change after.balance = after.outstanding + forcedIn w.journal
    rw [hposts.balance, h.balanced, hposts.outstanding_eq]
    omega
  case posted =>
    rw [postings_append, hposts.postings_eq, ← h.posted]
    rfl
  case funded =>
    intro id hid
    by_cases hlast : id = w.contract.nextId
    · rw [hlast, hposts.bounties_self]
      exact hposts.funded
    · rw [hposts.bounties_of_ne hlast]
      exact h.funded id (by rw [hnext] at hid; omega)
  case unfunded =>
    intro id hid
    rw [hnext] at hid
    rw [hposts.bounties_of_ne (by omega)]
    exact h.unfunded id (by omega)
  case paid =>
    intro id
    rw [payments_append]
    refine (List.append_nil _).trans ((h.paid id).trans ?_)
    simp only [hposts.paid_iff]
    split_ifs with hpaid
    · rw [Bounty.payment_congr (hposts.bounties_of_ne (Nat.ne_of_lt hpaid.1))]
    · rfl
  case unsolved =>
    intro id hclaimed
    by_cases hlast : id = w.contract.nextId
    · rw [hlast, hposts.bounties_self]
    · rw [hposts.bounties_of_ne hlast] at hclaimed ⊢
      exact h.unsolved id hclaimed
  case emitted =>
    rw [hposts.events, h.emitted, List.filterMap_append]
    rfl

theorem claims (h : Escrow w) {id : Nat} {programHash : Bytes32}
    (hclaims : w.contract.Claims sender id programHash after) :
    Escrow ⟨after, w.journal ++
      [.claimed id ⟨sender, (w.contract.bounties id).reward, programHash⟩]⟩ := by
  have hnext := hclaims.nextId
  constructor
  case balanced =>
    have hsum := hclaims.outstanding_add (h.unfunded id)
    have hbalance := hclaims.balance
    rw [h.balanced] at hbalance
    rw [forcedIn_append]
    change after.balance = after.outstanding + forcedIn w.journal
    omega
  case posted =>
    rw [postings_append, hnext, hclaims.posting_eq, ← h.posted]
    exact List.append_nil _
  case funded =>
    intro other hid
    rw [hclaims.reward_eq]
    rw [hnext] at hid
    exact h.funded other hid
  case unfunded =>
    intro other hid
    rw [hclaims.reward_eq]
    rw [hnext] at hid
    exact h.unfunded other hid
  case paid =>
    intro other
    rw [payments_append, h.paid other]
    by_cases hne : other = id
    · subst hne
      rw [if_neg hclaims.not_paid, List.nil_append]
      by_cases hid : other < w.contract.nextId
      · have hpaid : after.Paid other := ⟨by rw [hnext]; exact hid, by rw [hclaims.bounties_self]⟩
        have hfunded := h.funded other hid
        rw [if_pos hpaid, Bounty.payment, hclaims.bounties_self, ← hclaims.task,
          Entry.payment?_of_value _ (Nat.ne_of_gt hfunded)]
        rfl
      · have hpaid : ¬ after.Paid other := fun hpaid => hid (hnext ▸ hpaid.1)
        rw [if_neg hpaid, Entry.payment?_of_nothing _ (h.unfunded other (Nat.le_of_not_lt hid))]
        rfl
    · rw [Entry.payment?_of_ne (Ne.symm hne), Option.toList_none, List.append_nil,
        Bounty.payment_congr (hclaims.bounties_of_ne hne)]
      simp only [hclaims.paid_iff hne]
  case unsolved =>
    intro other hclaimed
    by_cases hne : other = id
    · rw [hne, hclaims.bounties_self] at hclaimed
      cases hclaimed
    · rw [hclaims.bounties_of_ne hne] at hclaimed ⊢
      exact h.unsolved other hclaimed
  case emitted =>
    rw [hclaims.events, h.emitted, List.filterMap_append]
    rfl

end Escrow

end ProvenoZk.Contracts
