import ProvenoZk.Policy.Canonical
import ProvenoZk.Proveno.Vm

/-! The wrapper that enforces a policy view during replay. It is written over any
inner host; which calls reach that host depends on the call and on how many came
before it, and on nothing else. -/
namespace ProvenoZk.Policy
open Foundation Proveno

/-- The state of `PolicyEnforcingHost`: the host it wraps and its 64-bit counter. -/
structure PolicyEnforcingHost (σ : Type) where
  inner : σ
  callsMade : UInt64

theorem budget_step {callsMade budget : UInt64} {n : Nat}
    (h : callsMade.toNat + (n + 1) ≤ budget.toNat) :
    callsMade + 1 ≤ budget ∧ (callsMade + 1).toNat + n ≤ budget.toNat := by
  have hbudget := budget.toNat_lt
  have hsum : (callsMade + 1).toNat = callsMade.toNat + 1 := by
    rw [UInt64.toNat_add]
    exact Nat.mod_eq_of_lt (by simp; omega)
  rw [UInt64.le_iff_toNat_le, hsum]
  omega

namespace PolicyEnforcingHost

variable {σ : Type}

def new (inner : σ) : PolicyEnforcingHost σ := ⟨inner, 0⟩

def forward (serve : Service σ ToolCall Reply) (call : ToolCall) (host : PolicyEnforcingHost σ) :
    Reply × PolicyEnforcingHost σ :=
  ((serve call host.inner).1, { host with inner := (serve call host.inner).2 })

def callTool (serve : Service σ ToolCall Reply) (policy : PolicyView) :
    Service (PolicyEnforcingHost σ) ToolCall Reply := fun call host =>
  -- counted before the checks, so a rejected call still consumes budget
  let host := { host with callsMade := host.callsMade + 1 }
  if host.callsMade > policy.maxToolCalls then
    (.error s!"policy: tool call limit {policy.maxToolCalls} exceeded", host)
  else if isHttpTool call.name then
    let url := (getUrlFromArgs call.args).getD ""
    match policy.checkHttpCall call.name url with
    | .error e => (.error e, host)
    | .ok () => forward serve call host
  else forward serve call host

/-- The document's rules for one call, leaving the budget aside. -/
def Admits (policy : PolicyView) (call : ToolCall) : Prop :=
  isHttpTool call.name = false ∨
    policy.checkHttpCall call.name ((getUrlFromArgs call.args).getD "") = .ok ()

theorem callTool_of_admits (serve : Service σ ToolCall Reply) {policy : PolicyView}
    {call : ToolCall} {host : PolicyEnforcingHost σ}
    (hbudget : host.callsMade + 1 ≤ policy.maxToolCalls) (hadmits : Admits policy call) :
    callTool serve policy call host =
      forward serve call { host with callsMade := host.callsMade + 1 } := by
  unfold callTool
  dsimp only
  rw [if_neg (UInt64.not_lt.mpr hbudget)]
  split_ifs with hhttp
  · rcases hadmits with hname | hcheck
    · rw [hname] at hhttp
      cases hhttp
    · rw [hcheck]
  · rfl

theorem exists_rejection {policy : PolicyView} {call : ToolCall} {callsMade : UInt64}
    (h : ¬ (callsMade + 1 ≤ policy.maxToolCalls ∧ Admits policy call)) :
    ∃ message, ∀ {σ : Type} (serve : Service σ ToolCall Reply) (inner : σ),
      callTool serve policy call ⟨inner, callsMade⟩ =
        (.error message, ⟨inner, callsMade + 1⟩) := by
  unfold callTool
  dsimp only
  split_ifs with hbudget hhttp
  · exact ⟨_, fun _ _ => rfl⟩
  · cases hcheck : policy.checkHttpCall call.name ((getUrlFromArgs call.args).getD "") with
    | error e => exact ⟨e, fun _ _ => rfl⟩
    | ok u => exact absurd ⟨UInt64.not_lt.mp hbudget, .inr hcheck⟩ h
  · exact absurd ⟨UInt64.not_lt.mp hbudget, .inl (Bool.eq_false_iff.mpr hhttp)⟩ h

@[simp] theorem callsMade_callTool (serve : Service σ ToolCall Reply) (policy : PolicyView)
    (call : ToolCall) (host : PolicyEnforcingHost σ) :
    (callTool serve policy call host).2.callsMade = host.callsMade + 1 := by
  by_cases h : host.callsMade + 1 ≤ policy.maxToolCalls ∧ Admits policy call
  · rw [callTool_of_admits serve h.1 h.2]
    rfl
  · obtain ⟨message, hreject⟩ := exists_rejection h
    rw [hreject serve host.inner]

theorem simulates {ρ : Type} {rel : σ → ρ → Prop} {serve : Service σ ToolCall Reply}
    {serve' : Service ρ ToolCall Reply} (h : serve.Simulates rel serve') (policy : PolicyView) :
    (callTool serve policy).Simulates
      (fun s t => rel s.inner t.inner ∧ s.callsMade = t.callsMade) (callTool serve' policy) := by
  rintro call ⟨s, callsMade⟩ ⟨t, _⟩ ⟨hrel, rfl⟩
  by_cases hreach : callsMade + 1 ≤ policy.maxToolCalls ∧ Admits policy call
  · have hcall : callTool serve policy call ⟨s, callsMade⟩ = _ :=
      callTool_of_admits serve hreach.1 hreach.2
    have hcall' : callTool serve' policy call ⟨t, callsMade⟩ = _ :=
      callTool_of_admits serve' hreach.1 hreach.2
    obtain ⟨hreply, hrel⟩ := h call s t hrel
    rw [hcall, hcall']
    exact ⟨hreply, hrel, rfl⟩
  · obtain ⟨message, hreject⟩ := exists_rejection hreach
    rw [hreject serve s, hreject serve' t]
    exact ⟨rfl, hrel, rfl⟩

def gate (policy : PolicyView) : Service.Gate UInt64 ToolCall Reply := fun call callsMade =>
  let callsMade := callsMade + 1
  (if callsMade > policy.maxToolCalls then
      some (.error s!"policy: tool call limit {policy.maxToolCalls} exceeded")
    else if isHttpTool call.name then
      match policy.checkHttpCall call.name ((getUrlFromArgs call.args).getD "") with
      | .error e => some (.error e)
      | .ok () => none
    else none, callsMade)

theorem simulates_gated (serve : Service σ ToolCall Reply) (policy : PolicyView) :
    (callTool serve policy).Simulates (fun host s => (host.inner, host.callsMade) = s)
      (serve.gated (gate policy)) := by
  rintro call host _ rfl
  unfold callTool Service.gated gate
  dsimp only
  split_ifs with hbudget hhttp
  · exact ⟨rfl, rfl⟩
  · cases policy.checkHttpCall call.name ((getUrlFromArgs call.args).getD "") with
    | error e => exact ⟨rfl, rfl⟩
    | ok u => exact ⟨rfl, rfl⟩
  · exact ⟨rfl, rfl⟩

/-- A program under a policy is a program that asks the wrapped host only the calls
the policy lets through. -/
theorem run_eq_through {A : Type} (serve : Service σ ToolCall Reply) (policy : PolicyView)
    (client : Client ToolCall Reply A) (inner : σ) :
    (client.run (callTool serve policy) (new inner)).1 =
        ((client.through (gate policy) 0).run serve inner).1 ∧
      (client.run (callTool serve policy) (new inner)).2.inner =
        ((client.through (gate policy) 0).run serve inner).2 := by
  have hsim := simulates_gated serve policy
  have hresult := (Client.run_eq_of_simulates hsim client (s := new inner) rfl).1
  have hstate := Client.rel_run_of_simulates hsim client (s := new inner) rfl
  have hgated := client.run_gated (gate policy) serve inner 0
  change _ = (client.run (serve.gated (gate policy)) (inner, 0)).1 at hresult
  change (_, _) = (client.run (serve.gated (gate policy)) (inner, 0)).2 at hstate
  rw [← hstate] at hgated
  exact ⟨hresult.trans hgated.1, hgated.2⟩

theorem run_of_admits {A : Type} (serve : Service σ ToolCall Reply) {policy : PolicyView}
    (hadmits : ∀ call, Admits policy call) {client : Client ToolCall Reply A} {n : Nat}
    (hclient : client.AsksAtMost n) {host : PolicyEnforcingHost σ}
    (hbudget : host.callsMade.toNat + n ≤ policy.maxToolCalls.toNat) :
    (client.run (callTool serve policy) host).1 = (client.run serve host.inner).1 ∧
      client.transcript (callTool serve policy) host = client.transcript serve host.inner := by
  induction client generalizing n host with
  | done result => exact ⟨rfl, rfl⟩
  | ask call next ih =>
    cases n with
    | zero => exact hclient.elim
    | succ n =>
      have hstep := budget_step hbudget
      have hcall := callTool_of_admits serve hstep.1 (hadmits call)
      let after : PolicyEnforcingHost σ := ⟨(serve call host.inner).2, host.callsMade + 1⟩
      have hafter : after.callsMade.toNat + n ≤ policy.maxToolCalls.toNat := hstep.2
      have hnext := ih _ (hclient (serve call host.inner).1) hafter
      rw [Client.run, Client.run, Client.transcript, Client.transcript, Client.exchanges,
        Client.exchanges, hcall, List.map_cons, List.map_cons]
      exact ⟨hnext.1, congrArg ((call, (serve call host.inner).1) :: ·) hnext.2⟩

/-! Whole runs over a host that writes down the calls it gets. -/

def Reached (e : Exchange (PolicyEnforcingHost (σ × List ToolCall)) ToolCall Reply) : Prop :=
  e.after.inner.2 = e.before.inner.2 ++ [e.query]

/-- The counter counts: after `k` calls it says `k`, in 64 bits. -/
theorem callsMade_add_one {k : Nat} {callsMade : UInt64} (h : callsMade = UInt64.ofNat k) :
    callsMade + 1 = UInt64.ofNat (k + 1) := by
  subst h
  apply UInt64.toNat_inj.mp
  rw [UInt64.toNat_add, UInt64.toNat_ofNat', UInt64.toNat_ofNat', Nat.mod_add_mod]
  rfl

theorem within_budget_iff {k : Nat} {callsMade budget : UInt64} (h : callsMade = UInt64.ofNat k)
    (hk : k + 1 < 2 ^ 64) : callsMade + 1 ≤ budget ↔ k + 1 ≤ budget.toNat := by
  rw [callsMade_add_one h, UInt64.le_iff_toNat_le, UInt64.toNat_ofNat', Nat.mod_eq_of_lt hk]

theorem reached_step {serve : Service σ ToolCall Reply} {policy : PolicyView}
    {e : Exchange (PolicyEnforcingHost (σ × List ToolCall)) ToolCall Reply}
    (hstep : (e.reply, e.after) = callTool serve.logged policy e.query e.before) :
    (Reached e ↔ e.before.callsMade + 1 ≤ policy.maxToolCalls ∧ Admits policy e.query) ∧
      (¬ Reached e → e.after.inner = e.before.inner) := by
  have hafter : e.after = (callTool serve.logged policy e.query e.before).2 :=
    congrArg Prod.snd hstep
  by_cases hreach : e.before.callsMade + 1 ≤ policy.maxToolCalls ∧ Admits policy e.query
  · have hreached : Reached e := by
      unfold Reached
      rw [hafter, callTool_of_admits serve.logged hreach.1 hreach.2]
      rfl
    exact ⟨iff_of_true hreached hreach, fun h => absurd hreached h⟩
  · obtain ⟨message, hreject⟩ := exists_rejection hreach
    have hinner : e.after.inner = e.before.inner := by
      rw [hafter, hreject]
    have hlost : ¬ Reached e := by
      intro h
      have hlength := congrArg List.length h
      rw [hinner, List.length_append, List.length_singleton] at hlength
      omega
    exact ⟨iff_of_false hlost hreach, fun _ => hinner⟩

/-- The `k`-th call reaches the wrapped host exactly when the budget covers it and the
policy admits it; a call that does not leaves that host as it was. -/
theorem reached_iff (serve : Service σ ToolCall Reply) (policy : PolicyView)
    {client : Client ToolCall Reply α} {n : Nat} (hclient : client.AsksAtMost n)
    (hn : n < 2 ^ 64) (inner : σ) {k : Nat}
    {e : Exchange (PolicyEnforcingHost (σ × List ToolCall)) ToolCall Reply}
    (he : (client.exchanges (callTool serve.logged policy) (new (inner, [])))[k]? = some e) :
    (Reached e ↔ k + 1 ≤ policy.maxToolCalls.toNat ∧ Admits policy e.query) ∧
      (¬ Reached e → e.after.inner = e.before.inner) := by
  rw [Client.exchanges_eq] at he
  have hk : k + 1 < 2 ^ 64 := by
    have hlength := (List.getElem?_eq_some_iff.mp he).1
    have hqueries := Client.length_queries_le hclient (callTool serve.logged policy)
      (new (inner, []))
    rw [Service.length_exchanges] at hlength
    omega
  have hcounts (k : Nat) (call : ToolCall) (host : PolicyEnforcingHost (σ × List ToolCall))
      (h : host.callsMade = UInt64.ofNat k) :
      (callTool serve.logged policy call host).2.callsMade = UInt64.ofNat (k + 1) := by
    rw [callsMade_callTool, callsMade_add_one h]
  obtain ⟨hcount, hstep⟩ := Service.exchanges_invariant hcounts (k := 0) rfl he
  rw [Nat.zero_add] at hcount
  rw [← within_budget_iff hcount hk]
  exact reached_step hstep

/-- However the client behaves, a wrapped host that moves by at most one per call moves by
at most the budget. -/
theorem measure_run_le (serve : Service σ ToolCall Reply) (policy : PolicyView) (m : σ → Nat)
    (hm : ∀ call s, m (serve call s).2 ≤ m s + 1) {client : Client ToolCall Reply α} {n : Nat}
    (hclient : client.AsksAtMost n) (hn : n < 2 ^ 64) (inner : σ) :
    m (client.run (callTool serve policy) (new inner)).2.inner ≤
      m inner + policy.maxToolCalls.toNat := by
  -- after `k` calls at most `k` of them, and at most the budget, have reached the inner host
  let P (k : Nat) (host : PolicyEnforcingHost σ) : Prop := host.callsMade = UInt64.ofNat k ∧
    (k < 2 ^ 64 → m host.inner ≤ m inner + min k policy.maxToolCalls.toNat)
  have hstep (k : Nat) (call : ToolCall) (host : PolicyEnforcingHost σ) (h : P k host) :
      P (k + 1) (callTool serve policy call host).2 := by
    refine ⟨by rw [callsMade_callTool, callsMade_add_one h.1], fun hk => ?_⟩
    have hbefore := h.2 (by omega)
    by_cases hreach : host.callsMade + 1 ≤ policy.maxToolCalls ∧ Admits policy call
    · have hwithin := (within_budget_iff h.1 hk).mp hreach.1
      have hmove := hm call host.inner
      rw [callTool_of_admits serve hreach.1 hreach.2]
      simp only [forward]
      omega
    · obtain ⟨message, hreject⟩ := exists_rejection hreach
      rw [hreject]
      dsimp only
      omega
  have hstart : P 0 (new inner) := ⟨rfl, fun _ => Nat.le_add_right _ _⟩
  have hqueries := Client.length_queries_le hclient (callTool serve policy) (new inner)
  have hfinal := Client.run_invariant hstep client hstart
  exact Nat.le_trans (hfinal.2 (by omega)) (Nat.add_le_add_left (Nat.min_le_right _ _) _)

end PolicyEnforcingHost

end ProvenoZk.Policy
