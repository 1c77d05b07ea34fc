import ProvenoZk.Policy.Oracle
import ProvenoZk.Proveno.Vm

/-! The wrapper that enforces a whole policy during a dry run, and the tape that is
recorded of what it answered. -/
namespace ProvenoZk.Policy
open Foundation Proveno

variable {I N : Type} {σ : Type}

namespace OraclePolicyHost

/-- `fromSlice` is the JSON reader that response schemas are checked with. -/
def callTool (core : Core I) (fromSlice : List UInt8 → Except String (Json N))
    (serve : Service σ ToolCall Reply) (policy : OraclePolicy N) : Service σ ToolCall Reply :=
  fun call host =>
    if isHttpTool call.name = false then serve call host
    else
      let url := (getUrlFromArgs call.args).getD ""
      match policy.checkHttpCall call.name url with
      | .error e => (.error e, host)
      | .ok () =>
        match serve call host with
        | (.error e, host) => (.error e, host)
        | (.ok resp, host) =>
          match core.canonicalSerializeTable resp with
          | .error e => (.error s!"policy: tool response is not serializable ({e})", host)
          | .ok respCanonical =>
            match policy.checkResponseSchema fromSlice url respCanonical with
            | .error e => (.error e, host)
            | .ok () => (.ok resp, host)

end OraclePolicyHost

/-- The tape entry that is recorded of a reply, if the response can be serialized. -/
def recordReply (core : Core I) : Reply → Option TapeEntry
  | .ok table =>
    match core.canonicalSerializeTable table with
    | .ok bytes => some (.ok bytes)
    | .error _ => none
  | .error message => some (.err message)

def recordTape (core : Core I) : List Reply → Option (List TapeEntry)
  | [] => some []
  | reply :: replies =>
    match recordReply core reply, recordTape core replies with
    | some entry, some entries => some (entry :: entries)
    | _, _ => none

theorem recordTape_cons_eq_some {core : Core I} {reply : Reply} {replies : List Reply}
    {entries : List TapeEntry} :
    recordTape core (reply :: replies) = some entries ↔ ∃ entry rest,
      recordReply core reply = some entry ∧ recordTape core replies = some rest ∧
        entries = entry :: rest := by
  rw [recordTape]
  cases recordReply core reply with
  | none => simp
  | some entry =>
    cases recordTape core replies with
    | none => simp
    | some rest => simp [eq_comm]

theorem length_of_recordTape {core : Core I} {replies : List Reply} {entries : List TapeEntry}
    (h : recordTape core replies = some entries) : entries.length = replies.length := by
  induction replies generalizing entries with
  | nil =>
    cases h
    rfl
  | cons reply replies ih =>
    obtain ⟨entry, rest, -, hrest, rfl⟩ := recordTape_cons_eq_some.mp h
    rw [List.length_cons, List.length_cons, ih hrest]

def OraclePolicy.denial (policy : OraclePolicy N) (call : ToolCall) : Option String :=
  if isHttpTool call.name = false then none
  else
    match policy.checkHttpCall call.name ((getUrlFromArgs call.args).getD "") with
    | .error e => some e
    | .ok () => none

def OraclePolicy.passes (policy : OraclePolicy N) (call : ToolCall) : Bool :=
  (policy.denial call).isNone

theorem OraclePolicy.denial_eq_some {policy : OraclePolicy N} {call : ToolCall} {message : String} :
    policy.denial call = some message ↔ isHttpTool call.name = true ∧
      policy.checkHttpCall call.name ((getUrlFromArgs call.args).getD "") = .error message := by
  unfold denial
  by_cases hhttp : isHttpTool call.name = false
  · rw [if_pos hhttp, hhttp]
    simp
  · rw [if_neg hhttp, Bool.of_not_eq_false hhttp]
    cases policy.checkHttpCall call.name ((getUrlFromArgs call.args).getD "") <;> simp

theorem OraclePolicyHost.callTool_of_denial {core : Core I}
    {fromSlice : List UInt8 → Except String (Json N)} {serve : Service σ ToolCall Reply}
    {policy : OraclePolicy N} {call : ToolCall} {message : String}
    (h : policy.denial call = some message) (host : σ) :
    callTool core fromSlice serve policy call host = (.error message, host) := by
  obtain ⟨hhttp, hcheck⟩ := OraclePolicy.denial_eq_some.mp h
  unfold callTool
  rw [if_neg (by simp [hhttp])]
  dsimp only
  rw [hcheck]

def OraclePolicy.answer (core : Core I) (fromSlice : List UInt8 → Except String (Json N))
    (policy : OraclePolicy N) (call : ToolCall) : Reply → Reply
  | .error e => .error e
  | .ok resp =>
    if isHttpTool call.name = false then .ok resp
    else
      match core.canonicalSerializeTable resp with
      | .error e => .error s!"policy: tool response is not serializable ({e})"
      | .ok respCanonical =>
        match policy.checkResponseSchema fromSlice ((getUrlFromArgs call.args).getD "")
          respCanonical with
        | .error e => .error e
        | .ok () => .ok resp

theorem OraclePolicyHost.callTool_of_pass {core : Core I}
    {fromSlice : List UInt8 → Except String (Json N)} {serve : Service σ ToolCall Reply}
    {policy : OraclePolicy N} {call : ToolCall} (h : policy.denial call = none) (host : σ) :
    callTool core fromSlice serve policy call host =
      (policy.answer core fromSlice call (serve call host).1, (serve call host).2) := by
  unfold OraclePolicy.denial at h
  unfold callTool OraclePolicy.answer
  split_ifs at h ⊢ with hhttp
  · cases hserve : serve call host with
    | mk reply host' => cases reply <;> rfl
  · dsimp only
    cases hcheck : policy.checkHttpCall call.name ((getUrlFromArgs call.args).getD "") with
    | error e =>
      rw [hcheck] at h
      cases h
    | ok u =>
      cases hserve : serve call host with
      | mk reply host' =>
        cases reply with
        | error e => rfl
        | ok resp =>
          dsimp only
          cases core.canonicalSerializeTable resp with
          | error e => rfl
          | ok respCanonical =>
            dsimp only
            cases policy.checkResponseSchema fromSlice ((getUrlFromArgs call.args).getD "")
              respCanonical <;> rfl

theorem OraclePolicyHost.callTool_of_refusal {core : Core I}
    {fromSlice : List UInt8 → Except String (Json N)} {serve : Service σ ToolCall Reply}
    {policy : OraclePolicy N} {call : ToolCall} (h : policy.denial call = none) {host : σ}
    {message : String} (hserve : serve call host = (.error message, host)) :
    callTool core fromSlice serve policy call host = (.error message, host) := by
  rw [callTool_of_pass h, hserve]
  rfl

theorem OraclePolicy.answer_eq_ok {core : Core I} {fromSlice : List UInt8 → Except String (Json N)}
    {policy : OraclePolicy N} {call : ToolCall} (hhttp : isHttpTool call.name = true)
    {reply : Reply} {resp : LuaTable} :
    policy.answer core fromSlice call reply = .ok resp ↔ reply = .ok resp ∧
      ∃ bytes, core.canonicalSerializeTable resp = .ok bytes ∧
        policy.checkResponseSchema fromSlice ((getUrlFromArgs call.args).getD "") bytes =
          .ok () := by
  have hname : ¬ isHttpTool call.name = false := by simp [hhttp]
  cases reply with
  | error e => simp [answer]
  | ok table =>
    simp only [answer, if_neg hname]
    cases hserialize : core.canonicalSerializeTable table with
    | error e =>
      simp only [reduceCtorEq, false_iff, not_and, Except.ok.injEq]
      intro htable
      simp [← htable, hserialize]
    | ok bytes =>
      dsimp only
      cases hcheck : policy.checkResponseSchema fromSlice ((getUrlFromArgs call.args).getD "")
        bytes with
      | error e =>
        simp only [reduceCtorEq, false_iff, not_and, Except.ok.injEq]
        intro htable
        simp [← htable, hserialize, hcheck]
      | ok u =>
        simp only [Except.ok.injEq]
        constructor
        · intro htable
          exact ⟨htable, bytes, by rw [← htable, hserialize], hcheck⟩
        · intro h
          exact h.1

end ProvenoZk.Policy
