import ProvenoZk.Foundation.Url
import ProvenoZk.Policy.Codec

/-! What the domain allowlist lets through. Both forms of a policy reach the same
verdict, with the same message; the text they compare with the allowlist is the
addressed host except for URLs with userinfo, an IP literal, or an authority ended
by a question mark or a hash. -/
namespace ProvenoZk.Policy
open Foundation Proveno

/-! The verdict. -/

section Verdict

variable {N : Type} (toolName url : String)

/-- The rule both forms of a policy apply. -/
def Permits (methods domains : List String) (toolName url : String) : Prop :=
  (methods = [] ∨ toolName ∈ methods) ∧ (domains = [] ∨ (extractDomain url).getD "" ∈ domains)

theorem PolicyView.checkHttpCall_eq_ok (view : PolicyView) :
    view.checkHttpCall toolName url = .ok () ↔
      Permits view.allowedHttpMethods view.allowedDomains toolName url := by
  unfold PolicyView.checkHttpCall Permits
  simp only [List.isEmpty_iff, List.contains_iff_mem]
  by_cases hmethod : view.allowedHttpMethods = [] ∨ toolName ∈ view.allowedHttpMethods
  · rw [if_neg (by tauto)]
    by_cases hdomains : view.allowedDomains = []
    · simp [hmethod, hdomains]
    · by_cases hdomain : (extractDomain url).getD "" ∈ view.allowedDomains <;>
        simp [hmethod, hdomains, hdomain]
  · rw [if_pos (by tauto)]
    simp [hmethod]

theorem contains_sortStrings (strings : List String) (s : String) :
    (sortStrings strings).contains s = strings.any (· = s) := by
  rw [Bool.eq_iff_iff, List.contains_iff_mem, mem_sortStrings]
  simp

theorem isEmpty_sortStrings (strings : List String) :
    (sortStrings strings).isEmpty = strings.isEmpty := by
  rw [Bool.eq_iff_iff, List.isEmpty_iff_length_eq_zero, length_sortStrings,
    List.isEmpty_iff_length_eq_zero]

theorem OraclePolicy.view_checkHttpCall (policy : OraclePolicy N) :
    policy.view.checkHttpCall toolName url = policy.checkHttpCall toolName url := by
  unfold PolicyView.checkHttpCall OraclePolicy.checkHttpCall
  simp only [OraclePolicy.view, contains_sortStrings, isEmpty_sortStrings]

theorem OraclePolicy.checkHttpCall_eq_ok (policy : OraclePolicy N) :
    policy.checkHttpCall toolName url = .ok () ↔
      Permits policy.allowedHttpMethods policy.allowedDomains toolName url := by
  rw [← OraclePolicy.view_checkHttpCall, PolicyView.checkHttpCall_eq_ok]
  have hnil (strings : List String) : sortStrings strings = [] ↔ strings = [] := by
    rw [← List.isEmpty_iff, isEmpty_sortStrings, List.isEmpty_iff]
  simp only [Permits, OraclePolicy.view, mem_sortStrings, hnil]

end Verdict

/-- On every call the view parsed from a policy's canonical bytes reaches the policy's own
verdict: both pass it, or both fail with one message. -/
theorem checkHttpCall_agrees (R : JsonRenderer N) (target : Target) (policy : OraclePolicy N)
    (hrange : policy.InRange R) (hfits : (policy.canonicalBytes R).length < target.usizeRange) :
    ∃ view, PolicyView.parse target (policy.canonicalBytes R) = .ok view ∧
      ∀ toolName url, policy.checkHttpCall toolName url = view.checkHttpCall toolName url := by
  refine ⟨policy.view, policy.parse_canonicalBytes_eq R hrange hfits, ?_⟩
  intro toolName url
  exact (policy.view_checkHttpCall toolName url).symm

theorem checkHttpCall_agrees_priceFeed :
    ∃ view, PolicyView.parse .guest32 (OraclePolicy.priceFeed.canonicalBytes integerRenderer) =
        .ok view ∧
      ∀ toolName url,
        OraclePolicy.priceFeed.checkHttpCall toolName url = view.checkHttpCall toolName url :=
  checkHttpCall_agrees integerRenderer .guest32 OraclePolicy.priceFeed
    OraclePolicy.priceFeed_inRange (by decide +kernel)

/-! The text that is compared with the allowlist. -/

def StandsFirst (domain : String) (rest : List Char) : Prop :=
  ∃ tail, rest = domain.toList ++ tail ∧ (∀ c ∈ domain.toList, c ≠ '/' ∧ c ≠ ':') ∧
    ∀ c ∈ tail.head?, c = '/' ∨ c = ':'

theorem afterFirst_scheme {scheme : List Char} (rest : List Char) (h : ':' ∉ scheme) :
    afterFirst "://".toList (scheme ++ ("://".toList ++ rest)) = some rest := by
  induction scheme with
  | nil => simp [afterFirst]
  | cons c scheme ih =>
    have hc : ¬ "://".toList <+: c :: (scheme ++ ("://".toList ++ rest)) := by
      intro hpre
      have hhead : ':' = c := (List.cons_prefix_cons.mp hpre).1
      exact h (hhead ▸ List.mem_cons_self)
    rw [List.cons_append, afterFirst, if_neg hc]
    exact ih fun hmem => h (List.mem_cons_of_mem c hmem)

def isDomainChar (c : Char) : Bool := c ≠ '/' && c ≠ ':'

theorem isDomainChar_iff (c : Char) : isDomainChar c ↔ c ≠ '/' ∧ c ≠ ':' := by
  simp [isDomainChar]

theorem not_isDomainChar_iff (c : Char) : isDomainChar c = false ↔ c = '/' ∨ c = ':' := by
  rw [← Bool.not_eq_true, isDomainChar_iff]
  tauto

theorem extractDomain_eq_iff {url : String} {rest : List Char}
    (h : Url.afterScheme url.toList = some rest) (domain : String) :
    (extractDomain url).getD "" = domain ↔ StandsFirst domain rest := by
  obtain ⟨scheme, hscheme, hurl⟩ := Url.afterScheme_eq_some h
  have hchars : (fun c => decide (decide (c ≠ ':') = true ∧ decide (c ≠ '/') = true)) =
      isDomainChar := by
    funext c
    rw [Bool.eq_iff_iff, isDomainChar_iff]
    simp [and_comm]
  have hdomain : (extractDomain url).getD "" = String.ofList (rest.takeWhile isDomainChar) := by
    unfold extractDomain
    simp only [hurl, afterFirst_scheme rest hscheme, Option.getD_some, List.takeWhile_takeWhile,
      hchars]
    split_ifs with hempty
    · rw [Option.getD_none, List.isEmpty_iff.mp hempty]
    · rfl
  rw [hdomain, ← String.toList_inj, String.toList_ofList, Url.takeWhile_eq_iff, StandsFirst]
  simp only [not_isDomainChar_iff, isDomainChar_iff]

/-- Behind `://` stands a listed domain, in a URL whose host may be another one. -/
structure Misleads (domain : String) (rest : List Char) : Prop where
  first : StandsFirst domain rest
  unusual : '@' ∈ Url.authority rest ∨ (Url.authority rest).head? = some '[' ∨
    '?' ∈ domain.toList ∨ '#' ∈ domain.toList

theorem host_of_standsFirst {domain : String} {rest : List Char} (h : StandsFirst domain rest)
    (husual : ¬ Misleads domain rest) : String.ofList (Url.host rest) = domain := by
  have hunusual := mt (Misleads.mk h) husual
  simp only [not_or] at hunusual
  obtain ⟨tail, rfl, hname, htail⟩ := h
  rw [Url.host_eq, String.ofList_toList]
  · exact hunusual.1
  · exact hunusual.2.1
  · intro c hc
    have hquery : c ≠ '?' := fun heq => hunusual.2.2.1 (heq ▸ hc)
    have hfragment : c ≠ '#' := fun heq => hunusual.2.2.2 (heq ▸ hc)
    simp [Url.isAuthorityChar, hname c hc, hquery, hfragment]
  · intro c hc
    rcases htail c hc with rfl | rfl
    · exact .inr rfl
    · exact .inl rfl

/-! What the lists rule out. -/

def urlArgs (url : String) : LuaTable where
  entries := [(.string (.fromStr "url"), .string (.fromStr url))]
  canonical := by simp [LuaValue.Canonical, canonicalEntries]

theorem getUrlFromArgs_urlArgs (url : String) : getUrlFromArgs (urlArgs url) = some url := by
  have hget : (urlArgs url).get (.string (.fromStr "url")) = some (.string (.fromStr url)) :=
    LuaTable.get_eq_some_iff.mpr List.mem_cons_self
  unfold getUrlFromArgs
  rw [hget]
  exact congrArg some (fromUtf8Lossy_utf8 url)

theorem exists_unlisted (domains : List String) :
    ∃ url, (extractDomain url).getD "" ∉ domains := by
  let name (n : Nat) : String := String.ofList (List.replicate n 'a')
  have hname : Function.Injective name := by
    intro m n h
    have hchars := congrArg String.toList h
    rw [String.toList_ofList, String.toList_ofList] at hchars
    exact List.replicate_left_inj.mp hchars
  obtain ⟨n, hn⟩ := Infinite.exists_notMem_finset (domains.toFinset.preimage name hname.injOn)
  rw [Finset.mem_preimage, List.mem_toFinset] at hn
  refine ⟨String.ofList ("https://".toList ++ List.replicate n 'a'), ?_⟩
  have hrest : Url.afterScheme (String.ofList ("https://".toList ++ List.replicate n 'a')).toList =
      some (List.replicate n 'a') := by
    rw [String.toList_ofList]
    rfl
  have hfirst : StandsFirst (name n) (List.replicate n 'a') := by
    refine ⟨[], by simp [name], ?_, by simp⟩
    intro c hc
    rw [String.toList_ofList] at hc
    rw [List.eq_of_mem_replicate hc]
    decide
  rw [(extractDomain_eq_iff hrest (name n)).mpr hfirst]
  exact hn

theorem OraclePolicy.passes_every_call_iff (policy : OraclePolicy N) :
    (∀ call : ToolCall, isHttpTool call.name = true →
      policy.checkHttpCall call.name ((getUrlFromArgs call.args).getD "") = .ok ()) ↔
    policy.allowedDomains = [] ∧ (policy.allowedHttpMethods = [] ∨
      "http_get" ∈ policy.allowedHttpMethods ∧ "http_post" ∈ policy.allowedHttpMethods) := by
  simp only [OraclePolicy.checkHttpCall_eq_ok]
  constructor
  · intro hall
    obtain ⟨url, hurl⟩ := exists_unlisted policy.allowedDomains
    have hget := hall ⟨"http_get", urlArgs url⟩ rfl
    have hpost := hall ⟨"http_post", urlArgs url⟩ rfl
    rw [getUrlFromArgs_urlArgs, Option.getD_some] at hget hpost
    refine ⟨hget.2.resolve_right hurl, ?_⟩
    obtain hnone | hmethod := hget.1
    · exact .inl hnone
    · exact hpost.1.imp id fun hother => ⟨hmethod, hother⟩
  · rintro ⟨hdomains, hmethods⟩ call hhttp
    refine ⟨?_, .inl hdomains⟩
    obtain hnone | ⟨hget, hpost⟩ := hmethods
    · exact .inl hnone
    · unfold isHttpTool at hhttp
      rw [Bool.or_eq_true, decide_eq_true_iff, decide_eq_true_iff] at hhttp
      obtain hname | hname := hhttp
      · exact .inr (hname ▸ hget)
      · exact .inr (hname ▸ hpost)

/-! What the allowlist is for. -/

/-- An accepted call names a URL, and an absolute one addresses a listed host. -/
def ReachesListedHost (domains : List String) (accepted : Prop) (args : LuaTable) : Prop :=
  accepted → ∃ url, getUrlFromArgs args = some url ∧
    ∀ rest, Url.afterScheme url.toList = some rest → String.ofList (Url.host rest) ∈ domains

/-- The calls that slip through: no URL and an empty entry, or a URL that shows a listed
domain and addresses a host that is not listed. -/
def Bypasses (methods domains : List String) (toolName : String) (args : LuaTable) : Prop :=
  (methods = [] ∨ toolName ∈ methods) ∧
    (getUrlFromArgs args = none ∧ "" ∈ domains ∨
      ∃ url rest domain, getUrlFromArgs args = some url ∧
        Url.afterScheme url.toList = some rest ∧ domain ∈ domains ∧ Misleads domain rest ∧
        String.ofList (Url.host rest) ∉ domains)

theorem reachesListedHost_iff {methods domains : List String} (hdomains : domains ≠ [])
    (toolName : String) (args : LuaTable) :
    ReachesListedHost domains
        (Permits methods domains toolName ((getUrlFromArgs args).getD "")) args ↔
      ¬ Bypasses methods domains toolName args := by
  unfold ReachesListedHost Permits Bypasses
  cases hargs : getUrlFromArgs args with
  | none =>
    have hempty : (extractDomain "").getD "" = "" := by decide
    simp [hdomains, hempty]
  | some url =>
    simp only [Option.getD_some, hdomains, false_or, reduceCtorEq, false_and, Option.some.injEq,
      exists_eq_left']
    constructor
    · rintro h ⟨hmethod, _, rest, domain, rfl, hrest, hdomain, hmisleads, hhost⟩
      have hshown := (extractDomain_eq_iff hrest domain).mpr hmisleads.first
      exact hhost (h ⟨hmethod, hshown ▸ hdomain⟩ rest hrest)
    · intro h hpermits rest hrest
      have hfirst := (extractDomain_eq_iff hrest _).mp rfl
      by_cases hmisleads : Misleads ((extractDomain url).getD "") rest
      · by_contra hhost
        exact h ⟨hpermits.1, url, rest, _, rfl, hrest, hpermits.2, hmisleads, hhost⟩
      · rw [host_of_standsFirst hfirst hmisleads]
        exact hpermits.2

/-- `check_http_call` keeps a program on the allowlist exactly when the call is none of
those that slip through, in the host's form of the policy and in the guest's. -/
theorem checkHttpCall_reaches_listed_host (toolName : String) (args : LuaTable) :
    (∀ policy : OraclePolicy N, policy.allowedDomains ≠ [] →
      (ReachesListedHost policy.allowedDomains
          (policy.checkHttpCall toolName ((getUrlFromArgs args).getD "") = .ok ()) args ↔
        ¬ Bypasses policy.allowedHttpMethods policy.allowedDomains toolName args)) ∧
    (∀ view : PolicyView, view.allowedDomains ≠ [] →
      (ReachesListedHost view.allowedDomains
          (view.checkHttpCall toolName ((getUrlFromArgs args).getD "") = .ok ()) args ↔
        ¬ Bypasses view.allowedHttpMethods view.allowedDomains toolName args)) := by
  constructor
  · intro policy hdomains
    rw [OraclePolicy.checkHttpCall_eq_ok]
    exact reachesListedHost_iff hdomains toolName args
  · intro view hdomains
    rw [PolicyView.checkHttpCall_eq_ok]
    exact reachesListedHost_iff hdomains toolName args

def goodOnly : PolicyView where
  allowedDomains := ["good.example"]
  allowedHttpMethods := []
  maxToolCalls := 1
  maxPayloadBytesPerCall := 1024
  tlsRequirement := .unattestedPermitted

/-- A plain URL of the listed domain is no way around the list. -/
theorem checkHttpCall_reaches_listed_host_goodOnly :
    ReachesListedHost goodOnly.allowedDomains (goodOnly.checkHttpCall "http_get"
      ((getUrlFromArgs (urlArgs "https://good.example/v1")).getD "") = .ok ())
        (urlArgs "https://good.example/v1") := by
  have hurl : getUrlFromArgs (urlArgs "https://good.example/v1") =
      some "https://good.example/v1" := by decide
  have hrest : Url.afterScheme "https://good.example/v1".toList =
      some "good.example/v1".toList := by decide
  apply (((checkHttpCall_reaches_listed_host (N := Int) "http_get"
    (urlArgs "https://good.example/v1")).2 goodOnly) (by decide)).mpr
  rintro ⟨-, ⟨hmissing, -⟩ | ⟨url, rest, domain, hargs, hscheme, -, -, hhost⟩⟩
  · rw [hurl] at hmissing
    cases hmissing
  · rw [hurl] at hargs
    obtain rfl := Option.some.inj hargs
    rw [hrest] at hscheme
    obtain rfl := Option.some.inj hscheme
    exact hhost (by decide)

/-- The listed domain stands where a user name belongs. -/
theorem checkHttpCall_bypassed :
    ¬ ∀ (view : PolicyView) (toolName : String) (args : LuaTable), view.allowedDomains ≠ [] →
      isHttpTool toolName = true → ReachesListedHost view.allowedDomains
        (view.checkHttpCall toolName ((getUrlFromArgs args).getD "") = .ok ()) args := by
  intro h
  have hurl : getUrlFromArgs (urlArgs "http://good.example:x@evil.example/") =
      some "http://good.example:x@evil.example/" := by decide
  have hreach := h goodOnly "http_get" (urlArgs "http://good.example:x@evil.example/") (by decide)
    (by decide)
  rw [hurl] at hreach
  obtain ⟨_, ⟨⟩, hhost⟩ := hreach (by decide)
  exact absurd (hhost "good.example:x@evil.example/".toList (by decide)) (by decide)

end ProvenoZk.Policy
