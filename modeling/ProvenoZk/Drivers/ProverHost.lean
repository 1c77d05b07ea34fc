import ProvenoZk.Drivers.DryRun

/-! `ProverHost`, the host that programs are recorded against. It is the one that reaches
the network, and behind a policy it reaches no further than the policy was asked. -/
namespace ProvenoZk.Drivers
open Foundation Proveno Policy

variable {I N ω : Type}

/-- `reqwest::Error`: its own text, and those of the errors behind it. -/
structure RequestError where
  message : String
  sources : List String

structure HttpResponse where
  status : UInt16
  text : Except RequestError String

/-- What the host reaches for: the HTTP client, the clock, and the library functions that
set a field of a table and map a text to upper case. -/
structure Outside (ω : Type) where
  get : Service ω String (Except RequestError HttpResponse)
  sinceUnixEpoch : Service ω Unit (Except String UInt64)
  rawset : LuaTable → LuaKey → LuaValue → LuaTable
  toUppercase : String → String

def strKey (s : String) : LuaKey := .string (.fromStr s)

def formatReqwestError (label : String) (e : RequestError) : String :=
  e.sources.foldl (fun msg cause => msg ++ ": " ++ cause) (label ++ ": " ++ e.message)

namespace ProverHost

variable (outside : Outside ω)

def response (fields : List (String × LuaValue)) : LuaTable :=
  fields.foldl (fun resp field => outside.rawset resp (strKey field.1) field.2) .new

def httpResponse : Except RequestError HttpResponse → Reply
  | .error e => .error (formatReqwestError "http_get failed" e)
  | .ok r =>
    match r.text with
    | .error e => .error (formatReqwestError "http_get: read error" e)
    | .ok body => .ok (response outside
        [("status", .integer (.ofNat r.status.toNat)), ("body", .string (.fromStr body))])

def httpGet (args : LuaTable) (world : ω) : Reply × ω :=
  match args.get (strKey "url") with
  | some (.string s) =>
    let sent := outside.get (fromUtf8Lossy s.asBytes) world
    (httpResponse outside sent.1, sent.2)
  | _ => (.error "http_get: missing 'url' arg", world)

def timestamp : Except String UInt64 → Reply
  | .error e => .error ("time_now: " ++ e)
  | .ok secs => .ok (response outside [("timestamp", .integer secs.toInt64)])

def timeNow (world : ω) : Reply × ω :=
  let read := outside.sinceUnixEpoch () world
  (timestamp outside read.1, read.2)

/-- The tools that look at nothing outside, in a build without overflow checks, where the sum
of `add` wraps around; a build with them panics on it. -/
def localTool (call : ToolCall) : Reply :=
  match call.name with
  | "random" => .ok (response outside [("result", .integer 42)])
  | "fail" => .error "this tool always fails"
  | "echo" => .ok (response outside [("message", (call.args.get (strKey "message")).getD .nil)])
  | "add" =>
    match call.args.get (strKey "a") with
    | some (.integer a) =>
      match call.args.get (strKey "b") with
      | some (.integer b) => .ok (response outside [("result", .integer (a + b))])
      | _ => .error "add: expected integer arg 'b'"
    | _ => .error "add: expected integer arg 'a'"
  | "upper" =>
    match call.args.get (strKey "text") with
    | some (.string s) =>
      let text := outside.toUppercase (fromUtf8Lossy s.asBytes)
      .ok (response outside [("result", .string (.fromStr text))])
    | _ => .error "upper: expected string arg 'text'"
  | other => .error s!"unknown tool '{other}'"

def callTool : Service ω ToolCall Reply := fun call world =>
  if call.name = "http_get" then httpGet outside call.args world
  else if call.name = "time_now" then timeNow outside world
  else (localTool outside call, world)

/-- The host attests nothing. -/
def live : LiveHost ω := ⟨callTool outside, fun world => (none, world)⟩

def guarded (core : Core I) (fromSlice : List UInt8 → Except String (Json N))
    (policy : OraclePolicy N) : LiveHost ω :=
  (live outside).underPolicy core fromSlice policy

end ProverHost

def Outside.logged (outside : Outside ω) : Outside (ω × List String) where
  get := outside.get.logged
  sinceUnixEpoch := fun u s =>
    ((outside.sinceUnixEpoch u s.1).1, (outside.sinceUnixEpoch u s.1).2, s.2)
  rawset := outside.rawset
  toUppercase := outside.toUppercase

/-- The URL that is asked for on behalf of a call, if the policy lets the call pass. -/
def request (policy : OraclePolicy N) (call : ToolCall) : Option String :=
  if call.name = "http_get" ∧ policy.denial call = none then getUrlFromArgs call.args else none

section

variable {outside : Outside ω} {policy : OraclePolicy N} {core : Core I}
  {fromSlice : List UInt8 → Except String (Json N)}

theorem log_httpGet (args : LuaTable) (s : ω × List String) :
    (ProverHost.httpGet outside.logged args s).2.2 = s.2 ++ (getUrlFromArgs args).toList := by
  unfold ProverHost.httpGet getUrlFromArgs strKey
  cases args.get (.string (.fromStr "url")) with
  | none => exact (List.append_nil _).symm
  | some value =>
    cases value with
    | string url => rfl
    | _ => exact (List.append_nil _).symm

theorem log_callTool (call : ToolCall) (s : ω × List String) :
    (ProverHost.callTool outside.logged call s).2.2 =
      s.2 ++ (if call.name = "http_get" then getUrlFromArgs call.args else none).toList := by
  unfold ProverHost.callTool
  split_ifs with hget htime
  · exact log_httpGet call.args s
  · exact (List.append_nil _).symm
  · exact (List.append_nil _).symm

theorem logged_simulates : (ProverHost.callTool outside.logged).Simulates
    (fun s world => s.1 = world) (ProverHost.callTool outside) := by
  intro call s world hworld
  subst hworld
  unfold ProverHost.callTool
  split_ifs
  · unfold ProverHost.httpGet
    split
    · exact ⟨rfl, rfl⟩
    · exact ⟨rfl, rfl⟩
  · exact ⟨rfl, rfl⟩
  · exact ⟨rfl, rfl⟩

theorem underPolicy_simulates {σ ρ : Type} {rel : σ → ρ → Prop} {serve : Service σ ToolCall Reply}
    {serve' : Service ρ ToolCall Reply} (h : serve.Simulates rel serve') :
    (OraclePolicyHost.callTool core fromSlice serve policy).Simulates rel
      (OraclePolicyHost.callTool core fromSlice serve' policy) := by
  intro call s t hst
  cases hdenial : policy.denial call with
  | some message =>
    rw [OraclePolicyHost.callTool_of_denial hdenial, OraclePolicyHost.callTool_of_denial hdenial]
    exact ⟨rfl, hst⟩
  | none =>
    rw [OraclePolicyHost.callTool_of_pass hdenial, OraclePolicyHost.callTool_of_pass hdenial]
    have hinner := h call s t hst
    exact ⟨congrArg (policy.answer core fromSlice call) hinner.1, hinner.2⟩

theorem log_underPolicy (call : ToolCall) (s : ω × List String) :
    (OraclePolicyHost.callTool core fromSlice (ProverHost.callTool outside.logged) policy call
      s).2.2 = s.2 ++ (request policy call).toList := by
  unfold request
  cases hdenial : policy.denial call with
  | some message =>
    rw [OraclePolicyHost.callTool_of_denial hdenial, if_neg (fun h => nomatch h.2)]
    exact (List.append_nil _).symm
  | none =>
    rw [OraclePolicyHost.callTool_of_pass hdenial]
    have hlog : (ProverHost.callTool outside.logged call s).2.2 = _ := log_callTool call s
    simpa using hlog

theorem checkHttpCall_of_request {call : ToolCall} {url : String}
    (h : request policy call = some url) : policy.checkHttpCall "http_get" url = .ok () := by
  unfold request at h
  split_ifs at h with hpasses
  obtain ⟨hname, hdenial⟩ := hpasses
  unfold OraclePolicy.denial at hdenial
  rw [hname, h, if_neg (by decide)] at hdenial
  cases hcheck : policy.checkHttpCall "http_get" url with
  | ok u => rfl
  | error message =>
    rw [Option.getD_some, hcheck] at hdenial
    cases hdenial

end

/-- A program that runs under a policy reaches the network as far as the policy was asked:
the URLs requested, in order, are those of the `http_get` calls it let pass, the very
texts that it accepted. A call that was denied, and any other tool, requests nothing. -/
theorem policy_confines_requests {A : Type} (core : Core I)
    (fromSlice : List UInt8 → Except String (Json N)) (policy : OraclePolicy N)
    (outside : Outside ω) (world : ω) (client : Client ToolCall Reply A) :
    (client.run ((ProverHost.guarded outside.logged core fromSlice policy).serve core)
        (world, [])).1 =
      (client.run ((ProverHost.guarded outside core fromSlice policy).serve core) world).1 ∧
    (client.run ((ProverHost.guarded outside.logged core fromSlice policy).serve core)
        (world, [])).2.2 =
      (client.queries ((ProverHost.guarded outside core fromSlice policy).serve core)
        world).filterMap (request policy) ∧
    ∀ url ∈ (client.run ((ProverHost.guarded outside.logged core fromSlice policy).serve core)
      (world, [])).2.2, policy.checkHttpCall "http_get" url = .ok () := by
  have hlogged : (ProverHost.guarded outside.logged core fromSlice policy).serve core =
      OraclePolicyHost.callTool core fromSlice (ProverHost.callTool outside.logged) policy :=
    LiveHost.serve_of_no_attestation (fun _ => rfl) core
  have hserve : (ProverHost.guarded outside core fromSlice policy).serve core =
      OraclePolicyHost.callTool core fromSlice (ProverHost.callTool outside) policy :=
    LiveHost.serve_of_no_attestation (fun _ => rfl) core
  rw [hlogged, hserve]
  have hsimulates : (OraclePolicyHost.callTool core fromSlice (ProverHost.callTool outside.logged)
      policy).Simulates (fun s world => s.1 = world)
      (OraclePolicyHost.callTool core fromSlice (ProverHost.callTool outside) policy) :=
    underPolicy_simulates logged_simulates
  have hstart : (world, ([] : List String)).1 = world := rfl
  have hsame := Client.run_eq_of_simulates hsimulates client hstart
  have hlog : (client.run (OraclePolicyHost.callTool core fromSlice
      (ProverHost.callTool outside.logged) policy) (world, [])).2.2 =
      [] ++ (client.queries _ (world, [])).filterMap (request policy) :=
    Client.log_run log_underPolicy client (world, [])
  rw [hsame.2, List.nil_append] at hlog
  refine ⟨hsame.1, hlog, ?_⟩
  intro url hurl
  obtain ⟨call, -, hrequest⟩ := List.mem_filterMap.mp (hlog ▸ hurl)
  exact checkHttpCall_of_request hrequest

end ProvenoZk.Drivers
