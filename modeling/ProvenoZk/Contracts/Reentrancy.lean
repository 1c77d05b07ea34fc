import ProvenoZk.Contracts.Escrow

/-! Runs of the bounty board. A solver may do anything while it receives its reward,
post and claim again included; whatever is open may still be reverted. The account is
kept at every moment of it, and a bounty stays what it is as long as its posting
stands. -/
namespace ProvenoZk.Contracts
open Foundation

variable {w after : World}

theorem Escrow.acts (h : Escrow w) {action : Action} (hact : Acts w action after) :
    Escrow after := by
  cases hact with
  | posted hpost =>
    obtain ⟨rfl, hposts⟩ := Bounty.postBounty_eq_ok hpost
    exact h.posts hposts
  | postReverted => exact h
  | claimReverted => exact h
  | forced value => exact h.forced value

theorem Escrow.calls (h : Escrow w) {call : Call} (hcall : Calls w call after) : Escrow after := by
  cases hcall with
  | claimed verify hclaim =>
    obtain ⟨-, rfl, hclaims⟩ := Bounty.claim_eq_ok hclaim
    exact h.claims hclaims
  | entered => exact h

theorem Acts.journal_grows {action : Action} (hact : Acts w action after) :
    w.journal <+: after.journal := by
  cases hact with
  | posted => exact List.prefix_append _ _
  | postReverted => exact List.prefix_refl _
  | claimReverted => exact List.prefix_refl _
  | forced => exact List.prefix_append _ _

theorem Calls.journal_grows {call : Call} (hcall : Calls w call after) :
    w.journal <+: after.journal := by
  cases hcall with
  | claimed => exact List.prefix_append _ _
  | entered => exact List.prefix_refl _

theorem Acts.forcedIn_eq {action : Action} (hact : Acts w action after)
    (hforce : ∀ value, action ≠ .force value) : forcedIn after.journal = forcedIn w.journal := by
  cases hact with
  | posted => exact forcedIn_append _ _
  | postReverted => rfl
  | claimReverted => rfl
  | forced value => exact absurd rfl (hforce value)

theorem Calls.forcedIn_eq {call : Call} (hcall : Calls w call after) :
    forcedIn after.journal = forcedIn w.journal := by
  cases hcall with
  | claimed => exact forcedIn_append _ _
  | entered => rfl

structure Keeps (b b' : Bounty) : Prop where
  nextId : b.nextId ≤ b'.nextId
  posting : ∀ id < b.nextId, b'.posting id = b.posting id
  claimed : ∀ id < b.nextId, (b.bounties id).claimed →
    (b'.bounties id).claimed ∧ (b'.bounties id).solver = (b.bounties id).solver

theorem Escrow.keeps (h : Escrow w) (hafter : Escrow after)
    (hstands : w.journal <+: after.journal) : Keeps w.contract after.contract := by
  have hpostings : (List.range w.contract.nextId).map w.contract.posting <+:
      (List.range after.contract.nextId).map after.contract.posting := by
    rw [← h.posted, ← hafter.posted]
    exact hstands.filterMap _
  have hnext : w.contract.nextId ≤ after.contract.nextId := by
    have hlength := hpostings.length_le
    simpa using hlength
  constructor
  case nextId => exact hnext
  case posting =>
    intro id hid
    have hsame := hpostings.getElem (i := id) (by simpa using hid)
    simpa using hsame.symm
  case claimed =>
    intro id hid hclaimed
    have hpayments : payments id w.journal <+: payments id after.journal := hstands.filterMap _
    rw [h.paid, if_pos ⟨hid, hclaimed⟩, hafter.paid] at hpayments
    split_ifs at hpayments with hpaid
    · obtain ⟨hpayment, -⟩ := List.cons_prefix_cons.mp hpayments
      exact ⟨hpaid.2, (congrArg Payment.solver hpayment).symm⟩
    · exact absurd hpayments.length_le (by simp)

section

variable {c c' : Nested World} {labels : List (Nested.Label Action Call)}

theorem escrow_run (hrun : Run EscrowStep c labels c') (hworld : Escrow c.world)
    (hframes : ∀ frame ∈ c.frames, Escrow frame) :
    Escrow c'.world ∧ ∀ frame ∈ c'.frames, Escrow frame :=
  Nested.run_preserves hrun (fun _ h hact => h.acts hact) (fun _ h hcall => h.calls hcall) hworld
    hframes

theorem journal_grows_run
    (hrun : Run (Nested.StepAbove Acts Calls c.frames.length) c labels c') :
    c.world.journal <+: c'.world.journal := by
  have habove := Nested.run_above (P := fun w => c.world.journal <+: w.journal) hrun
    (fun _ h hact => h.trans hact.journal_grows) (fun _ h hcall => h.trans hcall.journal_grows)
    (Nested.above_self (List.prefix_refl _))
  exact habove.1

theorem forcedIn_run (hrun : Run EscrowStep c labels c')
    (hforce : ∀ value, .act (.force value) ∉ labels) (hframes : c.frames = []) :
    forcedIn c'.world.journal = forcedIn c.world.journal := by
  apply (Nested.run_preserves (P := fun w => forcedIn w.journal = forcedIn c.world.journal) hrun
    _ _ rfl _).1
  · intro w action after hmem h hact
    apply (hact.forcedIn_eq _).trans h
    rintro value rfl
    exact hforce value hmem
  · intro w call after _ h hcall
    exact hcall.forcedIn_eq.trans h
  · simp [hframes]

end

/-- Every state callers can bring about, the moments in which solvers are paid
included, keeps the account; without forced ether the balance is what is outstanding
and what the address had. What was posted stays as it was posted and once claimed stays
claimed, as long as it is not reverted; it can only be by a call that was open. A
claim that reverts, at once or after the solver took over, changes nothing. -/
theorem bounty_escrow (initial : Nat) (labels : List (Nested.Label Action Call))
    (c : Nested World) (hrun : Run EscrowStep ⟨deployed initial, []⟩ labels c) :
    Escrow c.world ∧
    ((∀ value, .act (.force value) ∉ labels) →
      c.world.contract.balance = c.world.contract.outstanding + initial) ∧
    (∀ later c', Run EscrowStep c later c' → c.world.journal <+: c'.world.journal →
      Keeps c.world.contract c'.world.contract) ∧
    (∀ later c', Run (Nested.StepAbove Acts Calls c.frames.length) c later c' →
      c.world.journal <+: c'.world.journal) ∧
    (∀ sender id proof inputs c', EscrowStep c (.act (.claim sender id proof inputs)) c' →
      c' = c) ∧
    (∀ sender id proof inputs opened inside reverted later,
      EscrowStep c (.call (.claim sender id proof inputs)) opened →
      Run (Nested.StepAbove Acts Calls opened.frames.length) opened later inside →
      inside.frames.length = opened.frames.length → EscrowStep inside .revert reverted →
      reverted = c) := by
  obtain ⟨hescrow, hframes⟩ := escrow_run hrun (escrow_deployed initial) (by simp)
  refine ⟨hescrow, ?_, ?_, ?_, ?_, ?_⟩
  · intro hforce
    rw [hescrow.balanced, forcedIn_run hrun hforce rfl]
    rfl
  · intro later c' hlater hstands
    exact hescrow.keeps (escrow_run hlater hescrow hframes).1 hstands
  · intro later c' hlater
    exact journal_grows_run hlater
  · intro sender id proof inputs c' hstep
    cases hstep with
    | act hact =>
      cases hact
      rfl
  · intro sender id proof inputs opened inside reverted later hopen hlater hdepth hrevert
    exact Nested.eq_of_reverted hopen hlater hdepth hrevert

/-- A solver posts a bounty of its own while it receives its reward. -/
theorem bounty_escrow_reentered :
    ∃ labels c, Run EscrowStep ⟨deployed 0, []⟩ labels c ∧ c.frames.length = 1 ∧
      c.world.contract.balance = 7 ∧ c.world.contract.outstanding = 7 ∧
      payments 0 c.world.journal = [⟨9, 5, .replicate _ 0⟩] := by
  let zeros : Bytes32 := .replicate _ 0
  let inputs : PublicInputs := ⟨0, zeros, 0, zeros, zeros, zeros, zeros, zeros⟩
  have hrun : Run EscrowStep ⟨deployed 0, []⟩
      [.act (.postBounty 3 5 zeros), .call (.claim 9 0 [] inputs), .act (.postBounty 9 7 zeros)] _ :=
    .next (.act (.posted rfl)) (.next (.call (.claimed (fun _ _ => .ok true) rfl))
      (.next (.act (.posted rfl)) (.done _)))
  obtain ⟨hescrow, hbalance, -⟩ := bounty_escrow 0 _ _ hrun
  refine ⟨_, _, hrun, rfl, rfl, ?_, hescrow.paid 0⟩
  exact (hbalance (by simp)).symm

end ProvenoZk.Contracts
