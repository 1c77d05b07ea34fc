import ProvenoZk.Contracts.Settlement

/-! The board can be cleared. Whatever callers did, nothing locks a reward in: who has proofs
for the open bounties is paid all that is outstanding, and what stays behind is the ether
that was forced in. -/
namespace ProvenoZk.Contracts
open Foundation

structure Settles (verifier : ProvenoVerifier) (data : BountyData) (proof : List UInt8)
    (inputs : PublicInputs) : Prop where
  task : inputs.programHash = data.programHash
  policy : inputs.policyHash = verifier.expectedPolicyHash
  proven : verifier.honkVerifier proof inputs.words = some true

def BountyData.cleared (data : BountyData) (sender : Address) : BountyData :=
  if data.claimed then data else { data with claimed := true, solver := sender }

structure Clears (c : Nested World) (sender : Address) (count : Nat) (c' : Nested World) :
    Prop where
  frames : c'.frames = c.frames
  nextId : c'.world.contract.nextId = c.world.contract.nextId
  cleared : ∀ id < count,
    c'.world.contract.bounties id = (c.world.contract.bounties id).cleared sender
  rest : ∀ id, count ≤ id → c'.world.contract.bounties id = c.world.contract.bounties id
  forced : forcedIn c'.world.journal = forcedIn c.world.journal

theorem BountyData.claimed_cleared (data : BountyData) (sender : Address) :
    (data.cleared sender).claimed = true := by
  unfold cleared
  split_ifs with hclaimed
  · exact hclaimed
  · rfl

section

variable {verifier : ProvenoVerifier} {initial : Nat} {labels : List (Nested.Label Action Call)}
  {c c' : Nested World} {sender : Address} {count : Nat}

theorem Clears.zero (c : Nested World) (sender : Address) : Clears c sender 0 c where
  frames := rfl
  nextId := rfl
  cleared := fun id hid => absurd hid (Nat.not_lt_zero id)
  rest := fun _ _ => rfl
  forced := rfl

theorem Clears.skip (h : Clears c sender count c')
    (hclaimed : (c.world.contract.bounties count).claimed = true) :
    Clears c sender (count + 1) c' where
  frames := h.frames
  nextId := h.nextId
  cleared := by
    intro id hid
    cases Nat.lt_succ_iff_lt_or_eq.mp hid with
    | inl hbefore => exact h.cleared id hbefore
    | inr hlast =>
      rw [hlast, h.rest count (Nat.le_refl _), BountyData.cleared, if_pos hclaimed]
  rest := fun id hid => h.rest id (Nat.le_of_succ_le hid)
  forced := h.forced

theorem Clears.claim (h : Clears c sender count c')
    (hopen : (c.world.contract.bounties count).claimed = false) {programHash : Bytes32}
    {after : Bounty} (hclaims : c'.world.contract.Claims sender count programHash after)
    (payment : Payment) : Clears c sender (count + 1)
      ⟨⟨after, c'.world.journal ++ [.claimed count payment]⟩, c'.frames⟩ where
  frames := h.frames
  nextId := hclaims.nextId.trans h.nextId
  cleared := by
    intro id hid
    cases Nat.lt_succ_iff_lt_or_eq.mp hid with
    | inl hbefore =>
      exact (hclaims.bounties_of_ne (Nat.ne_of_lt hbefore)).trans (h.cleared id hbefore)
    | inr hlast =>
      subst hlast
      dsimp only
      rw [hclaims.bounties_self, h.rest id (Nat.le_refl _), BountyData.cleared,
        if_neg (Bool.not_eq_true _ ▸ hopen)]
  rest := by
    intro id hid
    exact (hclaims.bounties_of_ne (Nat.ne_of_gt hid)).trans (h.rest id (Nat.le_of_succ_le hid))
  forced := (forcedIn_append _ _).trans h.forced

theorem exists_clears (hrun : Run (BoardStep verifier) ⟨deployed initial, []⟩ labels c)
    (sender : Address) {proofs : Nat → List UInt8} {inputs : Nat → PublicInputs}
    (hproofs : ∀ id < c.world.contract.nextId, (c.world.contract.bounties id).claimed = false →
      Settles verifier (c.world.contract.bounties id) (proofs id) (inputs id))
    (hcount : count ≤ c.world.contract.nextId) : ∃ more c',
      Run (BoardStep verifier) c more c' ∧ Clears c sender count c' := by
  induction count with
  | zero => exact ⟨[], c, .done c, .zero c sender⟩
  | succ count ih =>
    obtain ⟨more, c', hmore, hclears⟩ := ih (Nat.le_of_succ_le hcount)
    cases hopen : (c.world.contract.bounties count).claimed with
    | true => exact ⟨more, c', hmore, hclears.skip hopen⟩
    | false =>
      have hsame := hclears.rest count (Nat.le_refl _)
      have hsettles := hproofs count hcount hopen
      rw [← hsame] at hopen hsettles
      obtain ⟨after, hclaim⟩ := board_claim (hrun.append hmore) hopen hsettles.task
        hsettles.policy hsettles.proven sender
      have hclaims := (Bounty.claim_eq_ok hclaim).2.2
      have hcall : CallsBehind verifier c'.world (.claim sender count (proofs count) (inputs count))
          ⟨after, c'.world.journal ++ [.claimed count ⟨sender, _, (inputs count).programHash⟩]⟩ :=
        ⟨after, _, hclaim, rfl⟩
      have hpaid := (hmore.snoc (.call hcall)).snoc .commit
      exact ⟨_, _, hpaid, hclears.claim (hsame ▸ hopen) hclaims _⟩

theorem Clears.outstanding_eq (h : Clears c sender c.world.contract.nextId c') :
    c'.world.contract.outstanding = 0 := by
  apply Finset.sum_eq_zero
  intro id hid
  have hid : id < c.world.contract.nextId := h.nextId ▸ Finset.mem_range.mp hid
  rw [Bounty.owed, h.cleared id hid, BountyData.claimed_cleared, if_pos rfl]

theorem Clears.payments_eq (h : Clears c sender c.world.contract.nextId c')
    (hescrow : Escrow c'.world) {id : Nat} (hid : id < c.world.contract.nextId) :
    payments id c'.world.journal = [if (c.world.contract.bounties id).claimed then
      c.world.contract.payment id
    else ⟨sender, (c.world.contract.bounties id).reward,
      (c.world.contract.bounties id).programHash⟩] := by
  have hcleared := h.cleared id hid
  have hpaid : c'.world.contract.Paid id := by
    refine ⟨h.nextId ▸ hid, ?_⟩
    rw [hcleared, BountyData.claimed_cleared]
  rw [hescrow.paid id, if_pos hpaid, Bounty.payment, hcleared]
  unfold BountyData.cleared
  split_ifs
  · rfl
  · rfl

end

/-- From every state callers can bring about, moments inside a payment included, the board can
be cleared: there is a run in which whoever has a proof for each open bounty is paid all
of their rewards, one payment for each, what was paid before stands, and of the ether just
that is left which was forced in. More than that is in no run ever paid out. -/
theorem board_can_be_cleared (verifier : ProvenoVerifier) (initial : Nat)
    (labels : List (Nested.Label Action Call)) (c : Nested World)
    (hrun : Run (BoardStep verifier) ⟨deployed initial, []⟩ labels c) (sender : Address)
    (proofs : Nat → List UInt8) (inputs : Nat → PublicInputs)
    (hproofs : ∀ id < c.world.contract.nextId, (c.world.contract.bounties id).claimed = false →
      Settles verifier (c.world.contract.bounties id) (proofs id) (inputs id)) :
    (∃ more final, Run (BoardStep verifier) c more final ∧ final.frames = c.frames ∧
      final.world.contract.outstanding = 0 ∧
      final.world.contract.balance = forcedIn c.world.journal ∧
      ∀ id < c.world.contract.nextId, payments id final.world.journal =
        [if (c.world.contract.bounties id).claimed then c.world.contract.payment id
        else ⟨sender, (c.world.contract.bounties id).reward,
          (c.world.contract.bounties id).programHash⟩]) ∧
    ∀ later after, Run (BoardStep verifier) c later after →
      forcedIn after.world.journal ≤ after.world.contract.balance := by
  constructor
  · obtain ⟨more, final, hmore, hclears⟩ := exists_clears hrun sender hproofs (Nat.le_refl _)
    have hescrow := board_escrow (hrun.append hmore)
    refine ⟨more, final, hmore, hclears.frames, hclears.outstanding_eq, ?_, ?_⟩
    · rw [hescrow.balanced, hclears.outstanding_eq, Nat.zero_add, hclears.forced]
    · exact fun id hid => hclears.payments_eq hescrow hid
  · intro later after hlater
    rw [(board_escrow (hrun.append hlater)).balanced]
    exact Nat.le_add_left _ _

/-! Two bounties for the run that returns `-1`, on an address that had some ether. -/

theorem board_can_be_cleared_minusOne : ∃ labels final,
    Run (BoardStep minusOneConsumer.provenoVerifier) ⟨deployed 3, []⟩ labels final ∧
    final.world.contract.balance = 3 ∧
    payments 0 final.world.journal = [⟨9, 5, minusOneWitness.programHash⟩] ∧
    payments 1 final.world.journal = [⟨9, 7, minusOneWitness.programHash⟩] := by
  have hrun : Run (BoardStep minusOneConsumer.provenoVerifier) ⟨deployed 3, []⟩
      [.act (.postBounty 4 5 minusOneWitness.programHash),
        .act (.postBounty 4 7 minusOneWitness.programHash)] _ :=
    .next (.act (Acts.posted rfl)) (.next (.act (Acts.posted rfl)) (.done _))
  obtain ⟨⟨more, final, hmore, -, -, hbalance, hpayments⟩, -⟩ :=
    board_can_be_cleared _ 3 _ _ hrun 9 (fun _ => []) (fun _ => publicInputs minusOneWitness)
      (by
        intro id hid _
        have hid : id < 2 := hid
        interval_cases id
        · exact ⟨rfl, rfl, ProvenoConsumer.proven_minusOne⟩
        · exact ⟨rfl, rfl, ProvenoConsumer.proven_minusOne⟩)
  exact ⟨_, final, hrun.append hmore, hbalance, hpayments 0 (by decide), hpayments 1 (by decide)⟩

end ProvenoZk.Contracts
