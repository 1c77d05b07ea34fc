import ProvenoZk.Foundation.Format
import ProvenoZk.Proveno.Lua

/-! The `no_std` view over a policy's canonical bytes: the parser the guest
runs, and the checks it makes with what it parsed. `usize` arithmetic is done
at the width of a `Target`, and slicing and indexing can panic. -/
namespace ProvenoZk.Policy
open Foundation Proveno

inductive TlsRequirement where
  | requiredAttested
  | preferredAttested
  | unattestedPermitted
  deriving DecidableEq

/-- `&s[s.find(pattern)? + pattern.len()..]`. -/
def afterFirst (pattern : List Char) : List Char → Option (List Char)
  | [] => none
  | c :: cs =>
    if pattern <+: c :: cs then some ((c :: cs).drop pattern.length)
    else afterFirst pattern cs

/-- Host portion of a URL, with scheme, path and port stripped. -/
def extractDomain (url : String) : Option String :=
  let rest := (afterFirst "://".toList url.toList).getD url.toList
  let rest := rest.takeWhile (· ≠ '/')
  let host := rest.takeWhile (· ≠ ':')
  if host.isEmpty then none else some (String.ofList host)

def isHttpTool (name : String) : Bool :=
  name = "http_get" || name = "http_post"

def getUrlFromArgs (args : LuaTable) : Option String :=
  match args.get (.string (.fromStr "url")) with
  | some (.string s) => some (fromUtf8Lossy s.asBytes)
  | _ => none

inductive PolicyParseError where
  /-- Ran off the end of the buffer while reading a field. -/
  | truncated (offset : Nat)
  /-- A length prefix claims more bytes than remain. -/
  | lengthOverrun (offset len : Nat)
  /-- A domain or method was not valid UTF-8. -/
  | notUtf8 (offset : Nat)
  /-- The tls_requirement byte was not 0, 1 or 2. -/
  | badTlsRequirement (byte : UInt8)
  /-- Bytes remained after the final section. -/
  | trailingBytes (extra : Nat)
  deriving DecidableEq

def PolicyParseError.display : PolicyParseError → String
  | .truncated offset => s!"policy bytes truncated at offset {offset}"
  | .lengthOverrun offset len =>
    s!"policy length prefix {len} at offset {offset} overruns buffer"
  | .notUtf8 offset => s!"policy string at offset {offset} is not UTF-8"
  | .badTlsRequirement byte => s!"policy tls_requirement byte {byte.toNat} is not 0/1/2"
  | .trailingBytes extra => s!"{extra} trailing bytes after policy"

/-- The enforceable subset of a policy. An empty list restricts nothing. -/
structure PolicyView where
  allowedDomains : List String
  allowedHttpMethods : List String
  maxToolCalls : UInt64
  maxPayloadBytesPerCall : UInt64
  tlsRequirement : TlsRequirement
  deriving DecidableEq

structure Reader where
  buf : List UInt8
  pos : Nat

abbrev Read (α : Type) := Parser Reader (Fault PolicyParseError) α

namespace Reader

variable (target : Target)

def take (n : Nat) : Read (List UInt8) := do
  let r ← get
  match target.checkedAdd r.pos n with
  | none => throw (.failed (.lengthOverrun r.pos n))
  | some stop =>
    if stop > r.buf.length then throw (.failed (.lengthOverrun r.pos n))
    else do
      let out ← liftM (Outcome.slice (ε := PolicyParseError) r.buf r.pos stop)
      set { r with pos := stop }
      pure out

def u32le : Read UInt32 := do
  let r ← get
  let b ← (take target 4).mapErr fun _ => .truncated r.pos
  let b0 ← liftM (Outcome.index (ε := PolicyParseError) b 0)
  let b1 ← liftM (Outcome.index (ε := PolicyParseError) b 1)
  let b2 ← liftM (Outcome.index (ε := PolicyParseError) b 2)
  let b3 ← liftM (Outcome.index (ε := PolicyParseError) b 3)
  pure (UInt32.ofNat (leNat [b0, b1, b2, b3]))

def u64le : Read UInt64 := do
  let r ← get
  let b ← (take target 8).mapErr fun _ => .truncated r.pos
  let w ← liftM (Outcome.copyFromSlice (ε := PolicyParseError) 8 b)
  pure (UInt64.ofNat (leNat w))

def u8 : Read UInt8 := do
  let r ← get
  let b ← (take target 1).mapErr fun _ => .truncated r.pos
  liftM (Outcome.index (ε := PolicyParseError) b 0)

/-- `self.u32le()? as usize`. -/
def u32leAsUsize : Read Nat := do
  let n ← u32le target
  pure (target.asUsize n.toNat)

def stringItem : Read String := do
  let len ← u32leAsUsize target
  let r ← get
  let bytes ← take target len
  liftM (match fromUtf8 bytes with
    | some s => (.ok s : Outcome PolicyParseError String)
    | none => .error (.failed (.notUtf8 r.pos)))

def stringList : Read (List String) := do
  let count ← u32leAsUsize target
  collect (stringItem target) count

def skipBlob : Read Unit := do
  let len ← u32leAsUsize target
  let _ ← take target len
  pure ()

def skipPair : Read Unit := do
  skipBlob target
  skipBlob target

def tlsRequirement : Read TlsRequirement := do
  let byte ← u8 target
  liftM (match byte with
    | 0 => (.ok .unattestedPermitted : Outcome PolicyParseError TlsRequirement)
    | 1 => .ok .preferredAttested
    | 2 => .ok .requiredAttested
    | other => .error (.failed (.badTlsRequirement other)))

end Reader

namespace PolicyView

/-- The seven sections of `parse`, before it checks that nothing is left over. -/
def sections (target : Target) : Read PolicyView := do
  let allowedDomains ← Reader.stringList target
  let allowedHttpMethods ← Reader.stringList target
  let maxToolCalls ← Reader.u64le target
  let maxPayloadBytesPerCall ← Reader.u64le target
  let tlsRequirement ← Reader.tlsRequirement target
  -- required_output_schema and schema_versions are walked, never interpreted
  Reader.skipBlob target
  let pairs ← Reader.u32leAsUsize target
  let _ ← collect (Reader.skipPair target) pairs
  pure { allowedDomains, allowedHttpMethods, maxToolCalls, maxPayloadBytesPerCall,
         tlsRequirement }

def parse (target : Target) (bytes : List UInt8) : Outcome PolicyParseError PolicyView := do
  let (view, r) ← sections target ⟨bytes, 0⟩
  if r.pos ≠ bytes.length then
    let extra ← Outcome.sub bytes.length r.pos
    throw (.failed (.trailingBytes extra))
  pure view

def checkHttpCall (view : PolicyView) (toolName url : String) : Except String Unit :=
  if ¬ view.allowedHttpMethods.isEmpty ∧ ¬ view.allowedHttpMethods.contains toolName then
    .error s!"policy: HTTP method '{toolName}' is not in allowed_http_methods"
  else if ¬ view.allowedDomains.isEmpty then
    let domain := (extractDomain url).getD ""
    if ¬ view.allowedDomains.contains domain then
      .error s!"policy: domain '{domain}' is not in allowed_domains"
    else .ok ()
  else .ok ()

end PolicyView

end ProvenoZk.Policy
