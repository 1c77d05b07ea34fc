import ProvenoZk.Zkvm.Replay

/-! How much of its tape a replay consumes. The commitments cover the whole tape and
nothing compares its length with the calls that were answered from it, so no program
that can be replayed is held to the responses it asked for. -/
namespace ProvenoZk.Zkvm
open Foundation Proveno Policy

variable {I : Type}

variable {A : Type} (core : Core I)

def remaining (host : TapeHost) : List Reply :=
  (host.tape.entries.drop host.cursor).map (TapeHost.replyOf core)

theorem remaining_cons {host : TapeHost} {entry : TapeEntry}
    (h : host.tape.entries[host.cursor]? = some entry) :
    remaining core host =
      TapeHost.replyOf core entry :: remaining core { host with cursor := host.cursor + 1 } := by
  obtain ⟨hlt, rfl⟩ := List.getElem?_eq_some_iff.mp h
  unfold remaining
  rw [List.drop_eq_getElem_cons hlt, List.map_cons]

theorem remaining_nil {host : TapeHost} (h : host.tape.entries[host.cursor]? = none) :
    remaining core host = [] := by
  unfold remaining
  rw [List.drop_eq_nil_of_le (List.getElem?_eq_none_iff.mp h), List.map_nil]

theorem takes_remaining_iff (client : Client ToolCall Reply A) (host : TapeHost) :
    client.Takes (remaining core host) ↔
      (client.queries (TapeHost.callTool core) host).length = (remaining core host).length := by
  induction client generalizing host with
  | done result =>
    rw [Client.Takes, Client.queries, List.length_nil, ← List.length_eq_zero_iff, eq_comm]
  | ask call next ih =>
    cases hentry : host.tape.entries[host.cursor]? with
    | none =>
      rw [remaining_nil core hentry, Client.Takes, Client.queries]
      simp
    | some entry =>
      rw [remaining_cons core hentry, Client.Takes, Client.queries,
        TapeHost.callTool_of_entry hentry, List.length_cons, List.length_cons, ih]
      exact ⟨fun h => by rw [h], Nat.succ.inj⟩

theorem entry_of_takes {call : ToolCall} {next : Reply → Client ToolCall Reply A} {host : TapeHost}
    (h : (Client.ask call next).Takes (remaining core host)) :
    ∃ entry, host.tape.entries[host.cursor]? = some entry ∧
      (next (TapeHost.replyOf core entry)).Takes
        (remaining core { host with cursor := host.cursor + 1 }) := by
  cases hentry : host.tape.entries[host.cursor]? with
  | none =>
    rw [remaining_nil core hentry] at h
    exact h.elim
  | some entry =>
    rw [remaining_cons core hentry] at h
    exact ⟨entry, rfl, h⟩

theorem cursor_run_of_takes {client : Client ToolCall Reply A} {host : TapeHost}
    (hcursor : host.cursor ≤ host.tape.entries.length)
    (h : client.Takes (remaining core host)) :
    (client.run (TapeHost.callTool core) host).2.cursor = host.tape.entries.length := by
  induction client generalizing host with
  | done result =>
    have hlen := congrArg List.length (show remaining core host = [] from h)
    rw [remaining, List.length_map, List.length_drop, List.length_nil] at hlen
    change host.cursor = _
    omega
  | ask call next ih =>
    obtain ⟨entry, hentry, hnext⟩ := entry_of_takes core h
    have hlt := (List.getElem?_eq_some_iff.mp hentry).1
    rw [Client.run, TapeHost.callTool_of_entry hentry]
    exact ih _ hlt hnext

/-- What is appended behind the replies a client takes is never asked for. -/
theorem run_append_of_takes {client : Client ToolCall Reply A} {host : TapeHost}
    (h : client.Takes (remaining core host)) (extra : List TapeEntry)
    (attestations : List (List UInt8)) :
    (client.run (TapeHost.callTool core)
        ⟨⟨host.tape.entries ++ extra, attestations⟩, host.cursor⟩).1 =
      (client.run (TapeHost.callTool core) host).1 := by
  induction client generalizing host with
  | done result => rfl
  | ask call next ih =>
    obtain ⟨entry, hentry, hnext⟩ := entry_of_takes core h
    have hlt := (List.getElem?_eq_some_iff.mp hentry).1
    have hlonger : (host.tape.entries ++ extra)[host.cursor]? = some entry := by
      rw [List.getElem?_append_left hlt, hentry]
    have hcall : TapeHost.callTool core call
        ⟨⟨host.tape.entries ++ extra, attestations⟩, host.cursor⟩ =
          (TapeHost.replyOf core entry,
            ⟨⟨host.tape.entries ++ extra, attestations⟩, host.cursor + 1⟩) :=
      TapeHost.callTool_of_entry hlonger call
    rw [Client.run, Client.run, TapeHost.callTool_of_entry hentry, hcall]
    exact ih _ hnext

namespace GuestInput

variable (input : GuestInput I) (vm : Vm I) (target : Target)

/-- The calls the program makes to its tape. Those its policy turns down are answered
without it. -/
def tapeClient : Client ToolCall Reply (Except VmError VmOutput) :=
  if input.policyCanonical.isEmpty then input.client vm
  else
    match PolicyView.parse target input.policyCanonical with
    | .ok view => (input.client vm).through (PolicyEnforcingHost.gate view) 0
    | .error _ => input.client vm

/-- Given the tape's responses one by one, the program asks for each of them and then
asks no more. -/
def DemandsTape : Prop :=
  (input.tapeClient vm target).Takes (input.oracleTape.entries.map (TapeHost.replyOf core))

def tapeAfter : TapeHost × List ToolCall :=
  if input.policyCanonical.isEmpty then
    ((input.client vm).run (TapeHost.callTool core).logged (TapeHost.new input.oracleTape, [])).2
  else
    match PolicyView.parse target input.policyCanonical with
    | .ok view => ((input.client vm).run (observedHost core view) input.observedStart).2.inner
    | .error _ => (TapeHost.new input.oracleTape, [])

/-- Every entry was consumed, each by one call. -/
structure ConsumesTape : Prop where
  entries : (input.tapeAfter core vm target).1.cursor = input.oracleTape.entries.length
  calls : (input.tapeAfter core vm target).2.length = input.oracleTape.entries.length

def PolicyAccepts : Prop :=
  input.policyCanonical = [] ∨ ∃ view, PolicyView.parse target input.policyCanonical = .ok view ∧
    input.checkTapePayloadSizes target view = .ok ()

def committedPolicy : Bytes32 :=
  if input.policyCanonical.isEmpty then .replicate 32 0 else core.sha256 input.policyCanonical

variable {input vm target}

theorem replay_eq_ok_iff {output : VmOutput} {publicInputs : PublicInputs} :
    input.replayPublicInputs core vm target = .ok (output, publicInputs) ↔
      input.PolicyAccepts target ∧
      ((input.tapeClient vm target).run (TapeHost.callTool core) (TapeHost.new input.oracleTape)).1 =
        .ok output ∧
      publicInputs = computePublicInputsSha256WithPolicyHash core
        (core.computeProgramHashSha256 input.program.prototypes) input.inputValue input.oracleTape
        output (input.committedPolicy core) := by
  unfold replayPublicInputs tapeClient committedPolicy PolicyAccepts
  dsimp only
  by_cases hpolicy : input.policyCanonical = []
  · have hempty : input.policyCanonical.isEmpty := by simp [hpolicy]
    rw [if_pos hempty, if_pos hempty, if_pos hempty]
    simp only [hpolicy, true_or, true_and, Outcome.bind_eq_ok, Outcome.ofExcept_eq_ok]
    constructor
    · rintro ⟨result, hrun, _, hresult, hinputs⟩
      cases hresult
      cases hinputs
      exact ⟨hrun, rfl⟩
    · rintro ⟨hrun, rfl⟩
      exact ⟨output, hrun, _, rfl, rfl⟩
  · have hempty : ¬ input.policyCanonical.isEmpty := by simpa using hpolicy
    rw [if_neg hempty, if_neg hempty, if_neg hempty]
    simp only [hpolicy, false_or, Outcome.bind_eq_ok, Outcome.ofExcept_eq_ok, Outcome.mapErr_eq_ok,
      (PolicyEnforcingHost.run_eq_through (TapeHost.callTool core) _ (input.client vm)
        (TapeHost.new input.oracleTape)).1]
    constructor
    · rintro ⟨view, hparse, _, hsizes, result, hrun, _, hresult, hinputs⟩
      cases hresult
      cases hinputs
      rw [hparse]
      exact ⟨⟨view, rfl, hsizes⟩, hrun, rfl⟩
    · rintro ⟨⟨view, hparse, hsizes⟩, hrun, rfl⟩
      rw [hparse] at hrun ⊢
      exact ⟨view, rfl, (), hsizes, output, hrun, _, rfl, rfl⟩

theorem tapeAfter_eq (h : input.PolicyAccepts target) :
    input.tapeAfter core vm target = ((input.tapeClient vm target).run
      (TapeHost.callTool core).logged (TapeHost.new input.oracleTape, [])).2 := by
  unfold tapeClient tapeAfter
  by_cases hempty : input.policyCanonical.isEmpty
  · rw [if_pos hempty, if_pos hempty]
  · obtain hnone | ⟨view, hparse, -⟩ := h
    · exact absurd (by simp [hnone]) hempty
    · rw [if_neg hempty, if_neg hempty, hparse]
      exact (PolicyEnforcingHost.run_eq_through (TapeHost.callTool core).logged view
        (input.client vm) (TapeHost.new input.oracleTape, [])).2

theorem remaining_new (tape : OracleTape) :
    remaining core (TapeHost.new tape) = tape.entries.map (TapeHost.replyOf core) := rfl

theorem consumesTape_iff (h : input.PolicyAccepts target) :
    input.ConsumesTape core vm target ↔ input.DemandsTape core vm target := by
  have hafter : input.tapeAfter core vm target = _ :=
    (tapeAfter_eq core h).trans (Client.run_logged _ _ _ _)
  have htakes := takes_remaining_iff core (input.tapeClient vm target)
    (TapeHost.new input.oracleTape)
  rw [remaining_new, List.length_map] at htakes
  unfold DemandsTape
  constructor
  · intro hconsumes
    have hcalls := hconsumes.calls
    rw [hafter] at hcalls
    exact htakes.mpr hcalls
  · intro hdemands
    refine ⟨?_, ?_⟩
    · rw [hafter]
      exact cursor_run_of_takes core (Nat.zero_le _) hdemands
    · rw [hafter]
      exact htakes.mp hdemands

def withTape (input : GuestInput I) (tape : OracleTape) : GuestInput I :=
  { input with oracleTape := tape }

def padded (input : GuestInput I) (extra : List TapeEntry) : GuestInput I :=
  input.withTape ⟨input.oracleTape.entries ++ extra, input.oracleTape.attestations⟩

theorem PolicyAccepts.padded (h : input.PolicyAccepts target) {extra : List TapeEntry}
    (hextra : ∀ entry ∈ extra, entry.payload = []) : (input.padded extra).PolicyAccepts target := by
  refine h.imp_right ?_
  rintro ⟨view, hparse, hsizes⟩
  refine ⟨view, hparse, checkPayloadSizes_eq_ok.mpr ?_⟩
  intro entry hentry
  obtain hold | hnew := List.mem_append.mp hentry
  · exact checkPayloadSizes_eq_ok.mp hsizes entry hold
  · rw [hextra entry hnew]
    exact Nat.zero_le _

/-- Entries behind those a replay consumes change nothing but the commitment. -/
theorem replay_padded {output : VmOutput} {publicInputs : PublicInputs} {extra : List TapeEntry}
    (h : input.replayPublicInputs core vm target = .ok (output, publicInputs))
    (hconsumes : input.ConsumesTape core vm target)
    (hextra : ∀ entry ∈ extra, entry.payload = []) :
    ∃ committed, (input.padded extra).replayPublicInputs core vm target =
        .ok (output, committed) ∧
      committed.toolResponsesHash =
        core.commitmentHashSha256 (input.padded extra).oracleTape := by
  obtain ⟨haccepts, hrun, -⟩ := (replay_eq_ok_iff core).mp h
  have htakes : (input.tapeClient vm target).Takes (remaining core (.new input.oracleTape)) :=
    (consumesTape_iff core haccepts).mp hconsumes
  refine ⟨_, (replay_eq_ok_iff core).mpr ⟨haccepts.padded hextra, ?_, rfl⟩, rfl⟩
  exact (run_append_of_takes core htakes extra input.oracleTape.attestations).trans hrun

theorem not_consumesTape_padded {extra : List TapeEntry} (haccepts : input.PolicyAccepts target)
    (hconsumes : input.ConsumesTape core vm target) (hne : extra ≠ [])
    (hextra : ∀ entry ∈ extra, entry.payload = []) :
    ¬ (input.padded extra).ConsumesTape core vm target := by
  have hdemands : (input.tapeClient vm target).Takes
      (input.oracleTape.entries.map (TapeHost.replyOf core)) :=
    (consumesTape_iff core haccepts).mp hconsumes
  rw [consumesTape_iff core (haccepts.padded hextra)]
  intro hmore
  change (input.tapeClient vm target).Takes ((input.oracleTape.entries ++ extra).map _) at hmore
  rw [List.map_append] at hmore
  exact hne (List.map_eq_nil_iff.mp (hdemands.eq_nil_of_append hmore))

/-- Whatever the program, its input, its limits and its policy: if every tape that it can be
replayed with is consumed, one call for each entry, then there is no such tape. For where
one is, entries without payload may be appended: the longer tape is committed, the output is
the same, and what was appended is never consumed. -/
theorem replay_consumes_tape_iff (vm : Vm I) (target : Target) (input : GuestInput I) :
    ((∀ tape output publicInputs,
        (input.withTape tape).replayPublicInputs core vm target = .ok (output, publicInputs) →
        (input.withTape tape).ConsumesTape core vm target) ↔
      ∀ tape result, (input.withTape tape).replayPublicInputs core vm target ≠ .ok result) ∧
    (∀ output publicInputs extra,
      input.replayPublicInputs core vm target = .ok (output, publicInputs) →
      input.ConsumesTape core vm target → extra ≠ [] → (∀ entry ∈ extra, entry.payload = []) →
      (∃ committed, (input.padded extra).replayPublicInputs core vm target =
          .ok (output, committed) ∧
        committed.toolResponsesHash =
          core.commitmentHashSha256 (input.padded extra).oracleTape) ∧
      ¬ (input.padded extra).ConsumesTape core vm target) := by
  constructor
  · constructor
    · rintro hall tape ⟨output, publicInputs⟩ hreplay
      have hconsumes := hall tape output publicInputs hreplay
      have haccepts := ((replay_eq_ok_iff core).mp hreplay).1
      have hempty : ∀ entry ∈ [TapeEntry.ok []], entry.payload = [] :=
        List.forall_mem_singleton.mpr rfl
      obtain ⟨committed, hpadded, -⟩ := replay_padded core hreplay hconsumes hempty
      exact not_consumesTape_padded core haccepts hconsumes (List.cons_ne_nil _ _) hempty
        (hall _ output committed hpadded)
    · intro hnone tape output publicInputs hreplay
      exact absurd hreplay (hnone tape _)
  · intro output publicInputs extra hreplay hconsumes hne hextra
    have haccepts := ((replay_eq_ok_iff core).mp hreplay).1
    exact ⟨replay_padded core hreplay hconsumes hextra,
      not_consumesTape_padded core haccepts hconsumes hne hextra⟩

/-- A call that is answered from a tape of one entry, and then with one entry more. -/
theorem replay_consumes_tape_oneCall : ∃ committed,
    (({ oneCallInput with policyCanonical := [] } : GuestInput Instruction).padded
        [.err ""]).replayPublicInputs plainCore callOnce .guest32 = .ok (zeroOutput, committed) ∧
      ¬ (({ oneCallInput with policyCanonical := [] } : GuestInput Instruction).padded
        [.err ""]).ConsumesTape plainCore callOnce .guest32 := by
  have h := (replay_consumes_tape_iff plainCore callOnce .guest32
    { oneCallInput with policyCanonical := [] }).2 zeroOutput _ [.err ""] rfl ⟨rfl, rfl⟩
    (by decide) (by decide)
  obtain ⟨⟨committed, hreplay, -⟩, hconsumes⟩ := h
  exact ⟨committed, hreplay, hconsumes⟩

def idle : Vm Instruction where
  execute := fun _ _ _ => .done (.ok zeroOutput)
  execute_asksAtMost := fun _ _ _ => trivial

/-- It is proved together with a response it never asked for. -/
theorem replay_leaves_tape_unconsumed :
    ¬ ∀ (core : Core Instruction) vm target input output publicInputs,
      GuestInput.replayPublicInputs input core vm target = .ok (output, publicInputs) →
        input.ConsumesTape core vm target := by
  intro hall
  have hconsumes := hall plainCore idle .guest32 { oneCallInput with policyCanonical := [] }
    zeroOutput _ rfl
  exact absurd hconsumes.calls (by decide)

end GuestInput

end ProvenoZk.Zkvm
