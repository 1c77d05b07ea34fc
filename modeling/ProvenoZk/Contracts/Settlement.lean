import ProvenoZk.Contracts.Reentrancy
import ProvenoZk.Contracts.Results
import ProvenoZk.Noir.Encoder

/-! What a bounty is paid for. The board has one verifier from its deployment on, and
behind that stands the circuit: whoever is paid holds an assignment whose committed slots
are the program's, and whoever holds one is paid. -/
namespace ProvenoZk.Contracts
open Foundation Proveno Noir

variable {I : Type}

section

variable (verifier : ProvenoVerifier)

/-- What happens at once on a board that asks `verifier`. -/
def ActsBehind (w : World) : Action → World → Prop
  | .claim sender id proof inputs, after =>
    (∃ error, w.contract.claim verifier.verify sender id proof inputs = .error error) ∧ after = w
  | action, after => Acts w action after

/-- The claims that get through to their solver. -/
def CallsBehind (w : World) : Call → World → Prop
  | .claim sender id proof inputs, after => ∃ contract reward,
    w.contract.claim verifier.verify sender id proof inputs = .ok (contract, reward) ∧
      after = ⟨contract, w.journal ++ [.claimed id ⟨sender, reward, inputs.programHash⟩]⟩
  | .enter, after => after = w

abbrev BoardStep := Nested.Step (ActsBehind verifier) (CallsBehind verifier)

def Proven (H : Hashes) (journal : List Entry) : Prop :=
  ∀ id payment, .claimed id payment ∈ journal → ∃ w, main H w = some () ∧
    w.programHash = payment.programHash ∧ w.policyHash = verifier.expectedPolicyHash

end

section

variable {verifier : ProvenoVerifier} {H : Hashes} {w after : World}

theorem ActsBehind.acts {action : Action} (h : ActsBehind verifier w action after) :
    Acts w action after := by
  cases action with
  | postBounty sender value programHash => exact h
  | force value => exact h
  | claim sender id proof inputs =>
    obtain ⟨⟨error, hclaim⟩, rfl⟩ := h
    exact .claimReverted verifier.verify hclaim

theorem CallsBehind.calls {call : Call} (h : CallsBehind verifier w call after) :
    Calls w call after := by
  cases call with
  | enter =>
    obtain rfl := h
    exact .entered
  | claim sender id proof inputs =>
    obtain ⟨contract, reward, hclaim, rfl⟩ := h
    exact .claimed verifier.verify hclaim

theorem Proven.acts (h : Proven verifier H w.journal) {action : Action}
    (hact : ActsBehind verifier w action after) : Proven verifier H after.journal := by
  intro id payment hmem
  apply h id payment
  cases hact.acts with
  | posted => simpa using hmem
  | postReverted => exact hmem
  | claimReverted => exact hmem
  | forced => simpa using hmem

theorem Proven.calls (hsound : Sound H verifier.honkVerifier)
    (h : Proven verifier H w.journal) {call : Call} (hcall : CallsBehind verifier w call after) :
    Proven verifier H after.journal := by
  cases call with
  | enter =>
    obtain rfl := hcall
    exact h
  | claim sender id proof inputs =>
    obtain ⟨contract, reward, hclaim, rfl⟩ := hcall
    obtain ⟨verdict, hverdict⟩ := (Bounty.claim_eq_ok hclaim).1
    have hverified := (verifier.verify_eq_ok_iff proof inputs verdict).mp hverdict
    obtain ⟨assignment, hmain, hinputs⟩ := hsound.satisfied hverified.2.1
    intro other payment hmem
    cases List.mem_append.mp hmem with
    | inl hbefore => exact h other payment hbefore
    | inr hnew =>
      cases List.mem_singleton.mp hnew
      refine ⟨assignment, hmain, congrArg PublicInputs.programHash hinputs, ?_⟩
      exact (congrArg PublicInputs.policyHash hinputs).trans hverified.1

section

variable {initial : Nat} {labels : List (Nested.Label Action Call)} {c : Nested World}

theorem board_escrow (hrun : Run (BoardStep verifier) ⟨deployed initial, []⟩ labels c) :
    Escrow c.world :=
  (Nested.run_preserves hrun (fun _ h hact => h.acts hact.acts)
    (fun _ h hcall => h.calls hcall.calls) (escrow_deployed initial) (by simp)).1

theorem board_proven (hsound : Sound H verifier.honkVerifier)
    (hrun : Run (BoardStep verifier) ⟨deployed initial, []⟩ labels c) :
    Proven verifier H c.world.journal := by
  have hstart : Proven verifier H (deployed initial).journal := by
    intro id payment hmem
    cases List.mem_singleton.mp hmem
  exact (Nested.run_preserves (P := fun w => Proven verifier H w.journal) hrun
    (fun _ h hact => h.acts hact) (fun _ h hcall => h.calls hsound hcall) hstart (by simp)).1

end

theorem Escrow.claimed_mem (h : Escrow w) {id : Nat} (hpaid : w.contract.Paid id) :
    .claimed id (w.contract.payment id) ∈ w.journal := by
  have hpayment : w.contract.payment id ∈ payments id w.journal := by
    rw [h.paid id, if_pos hpaid]
    exact List.mem_singleton.mpr rfl
  obtain ⟨entry, hentry, heq⟩ := List.mem_filterMap.mp hpayment
  cases entry with
  | posted => cases heq
  | forced => cases heq
  | claimed other payment =>
    dsimp only [Entry.payment?] at heq
    split_ifs at heq with hsame
    cases heq
    rwa [hsame.1] at hentry

theorem committed_eq_instructions [InstructionSet I] {assignment : NoirWitness}
    {program : CompiledProgram I}
    {bytecode : NoirBytecode} (hencode : encodeProgram program = .ok bytecode)
    (hmain : main H assignment = some ())
    (hhash : bytecode.digest H = beBytes32ToField assignment.programHash) :
    H.Collides assignment.programMessage bytecode.message ∨
      assignment.committed = program.instructions.map instructionSlot := by
  obtain ⟨hfits, rfl⟩ := encodeProgram_eq_ok.mp hencode
  have hsat := (assignment.main_eq_some_iff H).mp hmain
  by_cases hmessage : assignment.programMessage = (layout program).message
  · have hslots := NoirWitness.committed_eq_of_programMessage hmessage
    rw [committed_layout hfits] at hslots
    exact Or.inr hslots
  · refine Or.inl ⟨hmessage, ?_⟩
    rw [hsat.digest, ← hhash, NoirBytecode.digest_eq H _ hfits]

theorem Escrow.reward_le_balance (h : Escrow w) {id : Nat}
    (hopen : (w.contract.bounties id).claimed = false) :
    (w.contract.bounties id).reward ≤ w.contract.balance := by
  by_cases hid : id < w.contract.nextId
  · have howed : w.contract.owed id = (w.contract.bounties id).reward := by
      rw [Bounty.owed, hopen]
      rfl
    have hsum : w.contract.owed id ≤ w.contract.outstanding :=
      Finset.single_le_sum (fun _ _ => Nat.zero_le _) (Finset.mem_range.mpr hid)
    have hbalance := h.balanced
    omega
  · rw [h.unfunded id (Nat.le_of_not_lt hid)]
    exact Nat.zero_le _

theorem Bounty.claim_of_verified {b : Bounty} {sender : Address} {id : Nat} {proof : List UInt8}
    {inputs : PublicInputs} (hopen : (b.bounties id).claimed = false)
    (hverified : verifier.verify proof inputs = .ok true)
    (htask : inputs.programHash = (b.bounties id).programHash)
    (hfunds : (b.bounties id).reward ≤ b.balance) :
    ∃ after, b.claim verifier.verify sender id proof inputs =
      .ok (after, (b.bounties id).reward) := by
  unfold claim
  dsimp only
  rw [hopen, hverified, if_neg Bool.false_ne_true]
  change ∃ after, (if inputs.programHash ≠ (b.bounties id).programHash then _ else _) = _
  rw [if_neg (not_not_intro htask)]
  exact ⟨_, if_neg (Nat.not_lt.mpr hfunds)⟩

theorem board_claim {initial : Nat} {labels : List (Nested.Label Action Call)} {c : Nested World}
    (hrun : Run (BoardStep verifier) ⟨deployed initial, []⟩ labels c) {id : Nat}
    {proof : List UInt8} {inputs : PublicInputs}
    (hopen : (c.world.contract.bounties id).claimed = false)
    (htask : inputs.programHash = (c.world.contract.bounties id).programHash)
    (hpolicy : inputs.policyHash = verifier.expectedPolicyHash)
    (hproven : verifier.honkVerifier proof inputs.words = some true) (sender : Address) :
    ∃ after, c.world.contract.claim verifier.verify sender id proof inputs =
      .ok (after, (c.world.contract.bounties id).reward) := by
  have hverified := (verifier.verify_eq_ok_iff proof inputs true).mpr ⟨hpolicy, hproven, rfl⟩
  exact Bounty.claim_of_verified hopen hverified htask
    ((board_escrow hrun).reward_le_balance hopen)

end

/-- In every state callers can bring about, moments inside a payment included, a claim gets
through to its solver, and with the posted reward, exactly when the bounty is open, the proof
verifies and is for the task. It never fails for lack of ether, and who asks is not looked
at. -/
theorem open_bounty_pays_iff (verifier : ProvenoVerifier) (initial : Nat)
    (labels : List (Nested.Label Action Call)) (c : Nested World)
    (hrun : Run (BoardStep verifier) ⟨deployed initial, []⟩ labels c) (sender : Address) (id : Nat)
    (proof : List UInt8) (inputs : PublicInputs) :
    (∃ after, c.world.contract.claim verifier.verify sender id proof inputs =
        .ok (after, (c.world.contract.bounties id).reward)) ↔
      (c.world.contract.bounties id).claimed = false ∧
      inputs.programHash = (c.world.contract.bounties id).programHash ∧
      inputs.policyHash = verifier.expectedPolicyHash ∧
      verifier.honkVerifier proof inputs.words = some true := by
  constructor
  · intro h
    obtain ⟨after, hclaim⟩ := h
    obtain ⟨⟨verdict, hverdict⟩, -, hclaims⟩ := Bounty.claim_eq_ok hclaim
    have hverified := (verifier.verify_eq_ok_iff proof inputs verdict).mp hverdict
    exact ⟨hclaims.unclaimed, hclaims.task, hverified.1, hverified.2.1⟩
  · intro h
    exact board_claim hrun h.1 h.2.1 h.2.2.1 h.2.2.2 sender

/-- In every state callers can bring about, a paid bounty paid once, and for an assignment
under the policy: its rows run through a table whose hash is the task's. Where a program's
encoding has that hash, the committed slots are the program's instructions, and all that was
executed if control never left them, or else the solver has a collision. -/
theorem paid_bounty_ran_program (H : Hashes) (verifier : ProvenoVerifier)
    (hsound : Sound H verifier.honkVerifier) (initial : Nat)
    (labels : List (Nested.Label Action Call)) (c : Nested World)
    (hrun : Run (BoardStep verifier) ⟨deployed initial, []⟩ labels c) (id : Nat)
    (hpaid : c.world.contract.Paid id) :
    payments id c.world.journal = [c.world.contract.payment id] ∧
    ∃ w, main H w = some () ∧ w.programHash = (c.world.contract.bounties id).programHash ∧
      w.policyHash = verifier.expectedPolicyHash ∧ (∃ pc, Run w.code.Step 0 w.liveRows pc) ∧
      ∀ (I : Type) [InstructionSet I] (program : CompiledProgram I) bytecode,
        encodeProgram program = .ok bytecode →
        bytecode.digest H = beBytes32ToField (c.world.contract.bounties id).programHash →
        H.Collides w.programMessage bytecode.message ∨
          (w.committed = program.instructions.map instructionSlot ∧
            (w.KeepsCommitted → w.ExecutesOnly (program.instructions.map instructionSlot))) := by
  have hescrow := board_escrow hrun
  have hpayment := hescrow.paid id
  rw [if_pos hpaid] at hpayment
  obtain ⟨w, hmain, hprogram, hpolicy⟩ := board_proven hsound hrun id _ (hescrow.claimed_mem hpaid)
  have hsat := (w.main_eq_some_iff H).mp hmain
  have htask : w.programHash = (c.world.contract.bounties id).programHash := hprogram
  refine ⟨hpayment, w, hmain, htask, hpolicy, (w.traceConstraints_iff.mp hsat.trace).2.2.1, ?_⟩
  intro I _ program bytecode hencode hhash
  rw [← htask] at hhash
  apply (committed_eq_instructions hencode hmain hhash).imp_right
  intro hcommitted
  refine ⟨hcommitted, ?_⟩
  intro hkeeps
  have hexecutes := (NoirWitness.executesCommitted_iff hsat.trace).mpr hkeeps
  rw [← hcommitted]
  exact hexecutes.executesOnly hsat.trace

/-! The run that returns `-1`, posted and claimed. -/

theorem open_bounty_pays_minusOne : ∃ labels c after,
    Run (BoardStep minusOneConsumer.provenoVerifier) ⟨deployed 0, []⟩ labels c ∧
    c.world.contract.claim minusOneConsumer.provenoVerifier.verify 9 0 []
      (publicInputs minusOneWitness) = .ok (after, 5) := by
  have hrun : Run (BoardStep minusOneConsumer.provenoVerifier) ⟨deployed 0, []⟩
      [.act (.postBounty 3 5 minusOneWitness.programHash)] _ :=
    .next (.act (Acts.posted rfl)) (.done _)
  obtain ⟨after, hclaim⟩ := (open_bounty_pays_iff _ 0 _ _ hrun 9 0 []
    (publicInputs minusOneWitness)).mpr ⟨rfl, rfl, rfl, ProvenoConsumer.proven_minusOne⟩
  exact ⟨_, _, after, hrun, hclaim⟩

def minusOneBoard : Bounty :=
  { (deployed 0).contract with balance := 5, nextId := 1 }.store 0
    { BountyData.blank with poster := 3, reward := 5, programHash := minusOneWitness.programHash }
    |>.emit (.bountyPosted 0 3 5 minusOneWitness.programHash)

theorem paid_bounty_ran_minusOne : ∃ w, main rollingHashes w = some () ∧
    w.programHash = minusOneWitness.programHash := by
  have hverified : minusOneConsumer.provenoVerifier.verify [] (publicInputs minusOneWitness) =
      .ok true :=
    (ProvenoVerifier.verify_eq_ok_iff _ _ _ _).mpr ⟨rfl, ProvenoConsumer.proven_minusOne, rfl⟩
  obtain ⟨after, hclaim⟩ : ∃ after, minusOneBoard.claim minusOneConsumer.provenoVerifier.verify 9 0
      [] (publicInputs minusOneWitness) = .ok (after, 5) :=
    Bounty.claim_of_verified rfl hverified rfl (Nat.le_refl 5)
  have hrun : Run (BoardStep minusOneConsumer.provenoVerifier) ⟨deployed 0, []⟩
      [.act (.postBounty 3 5 minusOneWitness.programHash),
        .call (.claim 9 0 [] (publicInputs minusOneWitness))] _ :=
    .next (.act (Acts.posted rfl)) (.next (.call ⟨after, 5, hclaim, rfl⟩) (.done _))
  have hclaims := (Bounty.claim_eq_ok hclaim).2.2
  have hpaid : after.Paid 0 := by
    refine ⟨?_, ?_⟩
    · rw [hclaims.nextId]
      exact Nat.zero_lt_one
    · rw [hclaims.bounties_self]
  obtain ⟨-, w, hmain, htask, -⟩ := paid_bounty_ran_program rollingHashes _
    sound_minusOneConsumer 0 _ _ hrun 0 hpaid
  refine ⟨w, hmain, htask.trans ?_⟩
  exact congrArg BountyData.programHash hclaims.bounties_self

end ProvenoZk.Contracts
