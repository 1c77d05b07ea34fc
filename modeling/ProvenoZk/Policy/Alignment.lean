import ProvenoZk.Policy.Allowlist
import ProvenoZk.Policy.Guest
import ProvenoZk.Policy.Host

/-! A dry run records one tape entry per call, refused calls included, while a replay
takes an entry only for calls the policy lets pass. The two stay in step up to
the first refusal; after it they do so only as long as every call is refused. -/
namespace ProvenoZk.Policy
open Foundation Proveno

variable {I N : Type}

def dryRunReplies (core : Core I) (fromSlice : List UInt8 → Except String (Json N))
    (policy : OraclePolicy N) (serve : Service σ ToolCall Reply) (calls : List ToolCall) (s : σ) :
    List Reply :=
  (OraclePolicyHost.callTool core fromSlice serve policy).replies calls s

def replayReplies (core : Core I) (view : PolicyView) (entries : List TapeEntry)
    (calls : List ToolCall) : List Reply :=
  (PolicyEnforcingHost.callTool (TapeHost.callTool core) view).replies calls
    (PolicyEnforcingHost.new (TapeHost.new ⟨entries, []⟩))

/-- Once a call is denied, every later one is. -/
def DeniedToTheEnd (policy : OraclePolicy N) (calls : List ToolCall) : Prop :=
  calls.Pairwise fun earlier later => policy.denial earlier ≠ none → policy.denial later ≠ none

section Steps

variable {core : Core I} {policy : OraclePolicy N} {call : ToolCall}

theorem admits_iff_denial : PolicyEnforcingHost.Admits policy.view call ↔
    policy.denial call = none := by
  unfold PolicyEnforcingHost.Admits OraclePolicy.denial
  rw [OraclePolicy.view_checkHttpCall]
  by_cases hhttp : isHttpTool call.name = false
  · simp [hhttp]
  · rw [if_neg hhttp]
    cases policy.checkHttpCall call.name ((getUrlFromArgs call.args).getD "") <;> simp [hhttp]

theorem callTool_of_denial {σ : Type} {serve : Service σ ToolCall Reply} {message : String}
    (h : policy.denial call = some message) {host : PolicyEnforcingHost σ}
    (hbudget : host.callsMade + 1 ≤ policy.view.maxToolCalls) :
    PolicyEnforcingHost.callTool serve policy.view call host =
      (.error message, { host with callsMade := host.callsMade + 1 }) := by
  obtain ⟨hhttp, hcheck⟩ := OraclePolicy.denial_eq_some.mp h
  unfold PolicyEnforcingHost.callTool
  dsimp only
  rw [if_neg (UInt64.not_lt.mpr hbudget), if_pos hhttp, OraclePolicy.view_checkHttpCall, hcheck]

theorem callTool_tape_of_record (hcore : core.ReadsBack) {reply : Reply} {entry : TapeEntry}
    (hrecord : recordReply core reply = some entry) {host : TapeHost}
    (hentry : host.tape.entries[host.cursor]? = some entry) :
    TapeHost.callTool core call host = (reply, { host with cursor := host.cursor + 1 }) := by
  unfold TapeHost.callTool
  rw [hentry]
  cases reply with
  | error message =>
    cases hrecord
    rfl
  | ok table =>
    unfold recordReply at hrecord
    cases hserialize : core.canonicalSerializeTable table with
    | error e => simp [hserialize] at hrecord
    | ok bytes =>
      simp only [hserialize, Option.some.injEq] at hrecord
      subst hrecord
      dsimp only
      rw [hcore table bytes hserialize]

end Steps

theorem OraclePolicy.checkHttpCall_ne_empty (policy : OraclePolicy N) (toolName url : String) :
    policy.checkHttpCall toolName url ≠ .error "" := by
  unfold OraclePolicy.checkHttpCall
  dsimp only
  split_ifs
  · intro h
    have hlength := congrArg String.length (Except.error.inj h)
    simp [toString, String.length_append] at hlength
  · exact nofun
  · exact nofun
  · intro h
    have hlength := congrArg String.length (Except.error.inj h)
    simp [toString, String.length_append] at hlength

theorem denial_ne_empty {policy : OraclePolicy N} {call : ToolCall} {message : String}
    (h : policy.denial call = some message) : message ≠ "" := by
  rintro rfl
  exact policy.checkHttpCall_ne_empty _ _ (OraclePolicy.denial_eq_some.mp h).2

def Refuses {σ : Type} (policy : OraclePolicy N) (live : Service σ ToolCall Reply) : Prop :=
  ∀ call s message, policy.denial call = some message → (live call s).1 = .error message

section InStep

variable {core : Core I} {policy : OraclePolicy N} {σ : Type} {live : Service σ ToolCall Reply}

theorem Refuses.replies_eq {ρ : Type} {inner : Service ρ ToolCall Reply}
    (hlive : Refuses policy live) {calls : List ToolCall}
    (hdenied : ∀ call ∈ calls, policy.denial call ≠ none) {host : PolicyEnforcingHost ρ} (s : σ)
    (hbudget : host.callsMade.toNat + calls.length ≤ policy.maxToolCalls.toNat) :
    (PolicyEnforcingHost.callTool inner policy.view).replies calls host =
      live.replies calls s := by
  induction calls generalizing host s with
  | nil => rfl
  | cons call calls ih =>
    obtain ⟨message, hmessage⟩ := Option.ne_none_iff_exists'.mp (hdenied call (by simp))
    obtain ⟨hwithin, hrest⟩ := budget_step hbudget
    have hlater : ∀ later ∈ calls, policy.denial later ≠ none := by
      intro later hmem
      exact hdenied later (List.mem_cons_of_mem call hmem)
    simp only [Service.replies, callTool_of_denial hmessage hwithin, hlive call s message hmessage]
    exact congrArg (_ :: ·) (ih hlater _ hrest)

/-- In step with the tape: what is left of it is the record of what is still to come. -/
theorem Refuses.replies_eq_of_record (hlive : Refuses policy live) (hcore : core.ReadsBack)
    {calls : List ToolCall} (hcalls : DeniedToTheEnd policy calls) {s : σ}
    {entries : List TapeEntry}
    (hrecord : recordTape core (live.replies calls s) = some entries)
    {host : PolicyEnforcingHost TapeHost}
    (htape : host.inner.tape.entries.drop host.inner.cursor = entries)
    (hbudget : host.callsMade.toNat + calls.length ≤ policy.maxToolCalls.toNat) :
    (PolicyEnforcingHost.callTool (TapeHost.callTool core) policy.view).replies calls host =
      live.replies calls s := by
  induction calls generalizing s host entries with
  | nil => rfl
  | cons call calls ih =>
    obtain ⟨hhead, htail⟩ := List.pairwise_cons.mp hcalls
    by_cases hdenial : policy.denial call = none
    · rw [Service.replies] at hrecord ⊢
      obtain ⟨entry, rest, hentry, hentries, hcons⟩ := recordTape_cons_eq_some.mp hrecord
      obtain ⟨hwithin, hbudget⟩ := budget_step hbudget
      obtain ⟨hnext, hleft⟩ := TapeHost.next_of_drop (htape.trans hcons)
      have hstep := PolicyEnforcingHost.callTool_of_admits (TapeHost.callTool core)
        hwithin (admits_iff_denial.mpr hdenial)
      rw [PolicyEnforcingHost.forward, callTool_tape_of_record hcore hentry hnext] at hstep
      rw [Service.replies, hstep]
      exact congrArg (_ :: ·) (ih htail hentries hleft hbudget)
    · apply hlive.replies_eq _ s hbudget
      intro later hlater
      rcases List.mem_cons.mp hlater with rfl | hlater
      · exact hdenial
      · exact hhead later hlater hdenial

variable {fromSlice : List UInt8 → Except String (Json N)} {serve : Service σ ToolCall Reply}

theorem OraclePolicyHost.refuses :
    Refuses policy (OraclePolicyHost.callTool core fromSlice serve policy) := by
  intro call s message hdenial
  rw [OraclePolicyHost.callTool_of_denial hdenial]

theorem replies_eq_of_record (hcore : core.ReadsBack) {calls : List ToolCall}
    (hcalls : DeniedToTheEnd policy calls) {s : σ} {entries : List TapeEntry}
    (hrecord : recordTape core
      ((OraclePolicyHost.callTool core fromSlice serve policy).replies calls s) = some entries)
    {host : PolicyEnforcingHost TapeHost}
    (htape : host.inner.tape.entries.drop host.inner.cursor = entries)
    (hbudget : host.callsMade.toNat + calls.length ≤ policy.maxToolCalls.toNat) :
    (PolicyEnforcingHost.callTool (TapeHost.callTool core) policy.view).replies calls host =
      (OraclePolicyHost.callTool core fromSlice serve policy).replies calls s :=
  OraclePolicyHost.refuses.replies_eq_of_record hcore hcalls hrecord htape hbudget

end InStep

/-! Out of step: a replay that has kept an entry back. -/

section OutOfStep

variable {core : Core I} {fromSlice : List UInt8 → Except String (Json N)}
  {policy : OraclePolicy N}

def refuse : Service Unit ToolCall Reply := fun _ s => (.error "", s)

def refusal (policy : OraclePolicy N) (call : ToolCall) : String := (policy.denial call).getD ""

theorem callTool_refuse (call : ToolCall) :
    OraclePolicyHost.callTool core fromSlice refuse policy call () =
      (.error (refusal policy call), ()) := by
  unfold refusal
  cases hdenial : policy.denial call with
  | none => exact OraclePolicyHost.callTool_of_refusal hdenial rfl
  | some message => exact OraclePolicyHost.callTool_of_denial hdenial ()

theorem replies_refuse (calls : List ToolCall) :
    (OraclePolicyHost.callTool core fromSlice refuse policy).replies calls () =
      calls.map fun call => .error (refusal policy call) := by
  induction calls with
  | nil => rfl
  | cons call calls ih => rw [Service.replies, callTool_refuse, ih, List.map_cons]

theorem recordTape_refuse (calls : List ToolCall) :
    recordTape core (calls.map fun call => .error (refusal policy call)) =
      some (calls.map fun call => .err (refusal policy call)) := by
  induction calls with
  | nil => rfl
  | cons call calls ih => simp only [List.map_cons, recordTape, recordReply, ih]

theorem denied_of_held_back {calls : List ToolCall} {host : PolicyEnforcingHost TapeHost}
    {message : String} (hmessage : message ≠ "")
    (htape : host.inner.tape.entries[host.inner.cursor]? = some (.err message))
    (hbudget : host.callsMade.toNat + calls.length ≤ policy.maxToolCalls.toNat)
    (h : (PolicyEnforcingHost.callTool (TapeHost.callTool core) policy.view).replies calls host =
      calls.map fun call => .error (refusal policy call)) :
    ∀ call ∈ calls, policy.denial call ≠ none := by
  induction calls generalizing host with
  | nil => exact fun call hcall => absurd hcall List.not_mem_nil
  | cons call calls ih =>
    obtain ⟨hwithin, hrest⟩ := budget_step hbudget
    simp only [Service.replies, List.map_cons, List.cons.injEq] at h
    cases hdenial : policy.denial call with
    | none =>
      have hreply := h.1
      rw [PolicyEnforcingHost.callTool_of_admits (TapeHost.callTool core) hwithin
        (admits_iff_denial.mpr hdenial)] at hreply
      simp only [PolicyEnforcingHost.forward, TapeHost.callTool, htape, refusal, hdenial,
        Option.getD_none, Except.error.injEq] at hreply
      exact absurd hreply hmessage
    | some message' =>
      have htail := h.2
      rw [callTool_of_denial hdenial hwithin] at htail
      refine List.forall_mem_cons.mpr ⟨by simp [hdenial], ?_⟩
      exact @ih { host with callsMade := host.callsMade + 1 } htape hrest htail

theorem deniedToTheEnd_of_replies {calls : List ToolCall} {host : PolicyEnforcingHost TapeHost}
    (htape : host.inner.tape.entries.drop host.inner.cursor =
      calls.map fun call => .err (refusal policy call))
    (hbudget : host.callsMade.toNat + calls.length ≤ policy.maxToolCalls.toNat)
    (h : (PolicyEnforcingHost.callTool (TapeHost.callTool core) policy.view).replies calls host =
      calls.map fun call => .error (refusal policy call)) :
    DeniedToTheEnd policy calls := by
  induction calls generalizing host with
  | nil => exact List.Pairwise.nil
  | cons call calls ih =>
    obtain ⟨hwithin, hrest⟩ := budget_step hbudget
    obtain ⟨hnext, hleft⟩ := TapeHost.next_of_drop htape
    simp only [Service.replies, List.map_cons, List.cons.injEq] at h
    have htail := h.2
    cases hdenial : policy.denial call with
    | none =>
      rw [PolicyEnforcingHost.callTool_of_admits (TapeHost.callTool core) hwithin
        (admits_iff_denial.mpr hdenial)] at htail
      simp only [PolicyEnforcingHost.forward, TapeHost.callTool, hnext] at htail
      refine List.pairwise_cons.mpr ⟨fun _ _ hdenied => absurd hdenial hdenied, ?_⟩
      exact ih (by exact hleft) hrest htail
    | some message =>
      rw [callTool_of_denial hdenial hwithin] at htail
      have hkept : refusal policy call ≠ "" := by
        simpa [refusal, hdenial] using denial_ne_empty hdenial
      have hdenied := denied_of_held_back hkept (by exact hnext) hrest htail
      refine List.pairwise_cons.mpr ⟨fun later hlater _ => hdenied later hlater, ?_⟩
      exact List.pairwise_of_forall_mem_list fun _ _ later hlater _ => hdenied later hlater

end OutOfStep

/-- Calls within the limits are answered in the replay as they were in the dry run, for
every live host, exactly when no call is let through after one was denied. A denial
is recorded like any response, so it has to fit the payload limit too. -/
theorem replay_matches_dryRun (R : JsonRenderer N) (core : Core I) (hcore : core.ReadsBack)
    (fromSlice : List UInt8 → Except String (Json N)) (target : Target) (policy : OraclePolicy N)
    (hrange : policy.InRange R) (hfits : (policy.canonicalBytes R).length < target.usizeRange)
    (view : PolicyView) (hview : PolicyView.parse target (policy.canonicalBytes R) = .ok view)
    (calls : List ToolCall) (hcalls : calls.length ≤ policy.maxToolCalls.toNat)
    (hdenials : ∀ call ∈ calls, ∀ message ∈ policy.denial call,
      (utf8 message).length ≤ policy.maxPayloadBytesPerCall.toNat) :
    (∀ (σ : Type) (serve : Service σ ToolCall Reply) (s : σ) (entries : List TapeEntry),
      recordTape core (dryRunReplies core fromSlice policy serve calls s) = some entries →
      (∀ entry ∈ entries, entry.payload.length ≤ policy.maxPayloadBytesPerCall.toNat) →
      replayReplies core view entries calls = dryRunReplies core fromSlice policy serve calls s) ↔
    DeniedToTheEnd policy calls := by
  rw [OraclePolicy.parse_canonicalBytes_eq R hrange hfits] at hview
  obtain rfl := Except.ok.inj hview
  have hbudget : (0 : UInt64).toNat + calls.length ≤ policy.maxToolCalls.toNat := by simpa using hcalls
  constructor
  · intro h
    have hreplies := h Unit refuse () (calls.map fun call => .err (refusal policy call))
    rw [dryRunReplies, replies_refuse] at hreplies
    refine deniedToTheEnd_of_replies (by exact List.drop_zero) hbudget (hreplies (recordTape_refuse calls) ?_)
    intro entry hentry
    obtain ⟨call, hcall, rfl⟩ := List.mem_map.mp hentry
    cases hdenial : policy.denial call with
    | none => simp [TapeEntry.payload, refusal, hdenial, utf8]
    | some message =>
      simpa [TapeEntry.payload, refusal, hdenial] using hdenials call hcall message hdenial
  · intro h σ serve s entries hrecord _
    exact replies_eq_of_record hcore h hrecord (by exact List.drop_zero) hbudget

def allowedCall : ToolCall := ⟨"http_get", urlArgs "https://b.example/"⟩
def deniedCall : ToolCall := ⟨"http_get", urlArgs "https://evil.example/"⟩

def emptyResponse : Service Unit ToolCall Reply := fun _ s => (.ok .new, s)

theorem priceFeed_parse :
    PolicyView.parse .guest32 (OraclePolicy.priceFeed.canonicalBytes integerRenderer) =
      .ok OraclePolicy.priceFeed.view :=
  OraclePolicy.parse_canonicalBytes_eq integerRenderer OraclePolicy.priceFeed_inRange
    (by decide +kernel)

/-- A denial that comes last does no harm. -/
theorem replay_matches_dryRun_priceFeed :
    replayReplies plainCore OraclePolicy.priceFeed.view
        [.ok (utf8 "\x7b\x7d"), .err "policy: domain 'evil.example' is not in allowed_domains"]
        [allowedCall, deniedCall] =
      dryRunReplies plainCore (fun _ => .error "") OraclePolicy.priceFeed emptyResponse
        [allowedCall, deniedCall] () :=
  (replay_matches_dryRun integerRenderer plainCore plainCore_readsBack (fun _ => .error "")
    .guest32 OraclePolicy.priceFeed OraclePolicy.priceFeed_inRange (by decide +kernel) _
    priceFeed_parse [allowedCall, deniedCall] (by decide) (by decide)).mpr
    (by unfold DeniedToTheEnd; decide) Unit emptyResponse () _ rfl (by decide)

/-- The program carries on after a denial: its next, allowed call is answered with the
recorded denial instead of the response the dry run got. -/
theorem replay_diverges_from_dryRun :
    ¬ ∀ (policy : OraclePolicy Int) (view : PolicyView) (calls : List ToolCall),
      policy.InRange integerRenderer →
      PolicyView.parse .guest32 (policy.canonicalBytes integerRenderer) = .ok view →
      calls.length ≤ policy.maxToolCalls.toNat →
      ∀ (serve : Service Unit ToolCall Reply) (entries : List TapeEntry),
        recordTape plainCore (dryRunReplies plainCore (fun _ => .error "") policy serve calls ()) =
          some entries →
        (∀ entry ∈ entries, entry.payload.length ≤ policy.maxPayloadBytesPerCall.toNat) →
        replayReplies plainCore view entries calls =
          dryRunReplies plainCore (fun _ => .error "") policy serve calls () := by
  intro h
  have hsame := h OraclePolicy.priceFeed _ [deniedCall, allowedCall]
    OraclePolicy.priceFeed_inRange priceFeed_parse (by decide) emptyResponse _ rfl (by decide)
  have hkinds := congrArg (List.map Except.isOk) hsame
  exact absurd hkinds (by decide)

end ProvenoZk.Policy
