import ProvenoZk.Policy.Oracle
import ProvenoZk.Policy.Parsing

/-! The two sides of the policy codec. `canonicalBytes` writes one document per
policy; the guest's parser gives back what that document says, and two policies
write the same one exactly when they are equal up to order. -/
namespace ProvenoZk.Policy
open Foundation Proveno

variable {N : Type} (R : JsonRenderer N)

namespace OraclePolicy

variable (policy : OraclePolicy N)

def document : Document where
  allowedDomains := sortStrings policy.allowedDomains
  allowedHttpMethods := sortStrings policy.allowedHttpMethods
  maxToolCalls := policy.maxToolCalls
  maxPayloadBytesPerCall := policy.maxPayloadBytesPerCall
  tlsRequirement := policy.tlsRequirement
  requiredOutputSchema := (policy.requiredOutputSchema.map (canonicalJsonBytes R)).getD []
  schemaVersions := (sortByKey policy.schemaVersions).map fun e =>
    (utf8 e.1, canonicalJsonBytes R e.2)

def view : PolicyView where
  allowedDomains := sortStrings policy.allowedDomains
  allowedHttpMethods := sortStrings policy.allowedHttpMethods
  maxToolCalls := policy.maxToolCalls
  maxPayloadBytesPerCall := policy.maxPayloadBytesPerCall
  tlsRequirement := policy.tlsRequirement

/-- Every count and every length fits a `u32`. -/
structure InRange : Prop where
  domainCount : policy.allowedDomains.length < 2 ^ 32
  domains : ∀ s ∈ policy.allowedDomains, (utf8 s).length < 2 ^ 32
  methodCount : policy.allowedHttpMethods.length < 2 ^ 32
  methods : ∀ s ∈ policy.allowedHttpMethods, (utf8 s).length < 2 ^ 32
  outputSchema : ∀ v ∈ policy.requiredOutputSchema, (canonicalJsonBytes R v).length < 2 ^ 32
  pairCount : policy.schemaVersions.length < 2 ^ 32
  pairs : ∀ e ∈ policy.schemaVersions,
    (utf8 e.1).length < 2 ^ 32 ∧ (canonicalJsonBytes R e.2).length < 2 ^ 32

theorem bytes_document : (policy.document R).bytes = policy.canonicalBytes R := by
  simp only [Document.bytes, canonicalBytes, document, Document.stringListBytes, stringListBytes,
    Document.blobBytes, List.length_map, List.flatMap_map, List.append_assoc]
  cases policy.tlsRequirement <;> rfl

theorem InRange.document_valid {policy : OraclePolicy N} (h : policy.InRange R) :
    (policy.document R).Valid where
  domainCount := by
    simpa [document, length_sortStrings] using h.domainCount
  domains := by
    intro s hs
    exact h.domains s (mem_sortStrings.mp hs)
  methodCount := by
    simpa [document, length_sortStrings] using h.methodCount
  methods := by
    intro s hs
    exact h.methods s (mem_sortStrings.mp hs)
  outputSchema := by
    simp only [document]
    cases hschema : policy.requiredOutputSchema with
    | none => simp
    | some v => exact h.outputSchema v (by simp [hschema])
  pairCount := by
    simpa [document, (sortByKey_perm policy.schemaVersions).length_eq] using h.pairCount
  pairs := by
    intro pair hpair
    simp only [document, List.mem_map] at hpair
    obtain ⟨e, he, rfl⟩ := hpair
    exact h.pairs e ((sortByKey_perm policy.schemaVersions).mem_iff.mp he)

theorem parse_canonicalBytes_eq {policy : OraclePolicy N} (h : policy.InRange R) {target : Target}
    (hfits : (policy.canonicalBytes R).length < target.usizeRange) :
    PolicyView.parse target (policy.canonicalBytes R) = .ok policy.view := by
  rw [← bytes_document] at hfits ⊢
  exact (parse_eq_ok hfits policy.view).mpr ⟨policy.document R, h.document_valid R, rfl, rfl⟩

/-- The parser gives back the policy: its lists sorted bytewise with duplicates kept,
its limits and its TLS requirement, whatever its schemas. A buffer is never longer
than `usize` can say. -/
theorem canonicalBytes_round_trip (policy : OraclePolicy N) (target : Target)
    (h : policy.InRange R) (hfits : (policy.canonicalBytes R).length < target.usizeRange) :
    ∃ view, PolicyView.parse target (policy.canonicalBytes R) = .ok view ∧
      view.allowedDomains.Perm policy.allowedDomains ∧
      view.allowedDomains.Pairwise bytewise ∧
      view.allowedHttpMethods.Perm policy.allowedHttpMethods ∧
      view.allowedHttpMethods.Pairwise bytewise ∧
      view.maxToolCalls = policy.maxToolCalls ∧
      view.maxPayloadBytesPerCall = policy.maxPayloadBytesPerCall ∧
      view.tlsRequirement = policy.tlsRequirement := by
  refine ⟨policy.view, parse_canonicalBytes_eq R h hfits, ?_, ?_, ?_, ?_, rfl, rfl, rfl⟩
  · exact sortStrings_perm _
  · exact List.pairwise_insertionSort _ _
  · exact sortStrings_perm _
  · exact List.pairwise_insertionSort _ _

def priceFeed : OraclePolicy Int where
  allowedDomains := ["b.example", "a.example"]
  allowedHttpMethods := ["http_get"]
  maxToolCalls := 4
  maxPayloadBytesPerCall := 1024
  tlsRequirement := .preferredAttested
  requiredOutputSchema := some (.object [("ok", .bool true)])
  schemaVersions := [("a.example", .object [("price", .number 0)])]
  outputSchema_distinctKeys := by
    rintro v ⟨⟩
    exact .object (by decide) (List.forall_mem_singleton.mpr (.bool true))
  schemaVersions_distinctKeys :=
    .object (by decide) (List.forall_mem_singleton.mpr
      (.object (by decide) (List.forall_mem_singleton.mpr (.number 0))))

theorem priceFeed_inRange : priceFeed.InRange integerRenderer where
  domainCount := by decide
  domains := by decide
  methodCount := by decide
  methods := by decide
  outputSchema := by
    rintro v ⟨⟩
    decide
  pairCount := by decide
  pairs := List.forall_mem_singleton.mpr (by decide)

theorem canonicalBytes_round_trip_priceFeed :
    ∃ view, PolicyView.parse .guest32 (priceFeed.canonicalBytes integerRenderer) = .ok view ∧
      view.allowedDomains.Perm ["b.example", "a.example"] ∧ view.maxToolCalls = 4 := by
  obtain ⟨view, hparse, hdomains, -, -, -, hcalls, -⟩ :=
    canonicalBytes_round_trip integerRenderer priceFeed .guest32 priceFeed_inRange
      (by decide +kernel)
  exact ⟨view, hparse, hdomains, hcalls⟩

/-! Canonicity. -/

/-- Equal policies up to the order of lists, map entries and object entries. -/
structure SameUpToOrder (p q : OraclePolicy N) : Prop where
  allowedDomains : p.allowedDomains.Perm q.allowedDomains
  allowedHttpMethods : p.allowedHttpMethods.Perm q.allowedHttpMethods
  maxToolCalls : p.maxToolCalls = q.maxToolCalls
  maxPayloadBytesPerCall : p.maxPayloadBytesPerCall = q.maxPayloadBytesPerCall
  tlsRequirement : p.tlsRequirement = q.tlsRequirement
  requiredOutputSchema : Option.Rel Json.Equiv p.requiredOutputSchema q.requiredOutputSchema
  schemaVersions : (Json.object p.schemaVersions).Equiv (.object q.schemaVersions)

/-- An absent schema is not confused with any schema that is there. -/
theorem outputSchemaBytes_eq_iff (p q : OraclePolicy N) :
    (p.document R).requiredOutputSchema = (q.document R).requiredOutputSchema ↔
      Option.Rel Json.Equiv p.requiredOutputSchema q.requiredOutputSchema := by
  have hp := p.outputSchema_distinctKeys
  have hq := q.outputSchema_distinctKeys
  simp only [document]
  cases hps : p.requiredOutputSchema with
  | none =>
    cases hqs : q.requiredOutputSchema with
    | none => simp
    | some w => simp [(canonicalJsonBytes_ne_nil R w).symm]
  | some v =>
    cases hqs : q.requiredOutputSchema with
    | none => simp [canonicalJsonBytes_ne_nil R v]
    | some w =>
      simp only [Option.map_some, Option.getD_some, Option.rel_some_some]
      exact canonicalJsonBytes_eq_iff R (hp v (by simp [hps])) (hq w (by simp [hqs]))

theorem schemaVersions_eq_iff (p q : OraclePolicy N) :
    (p.document R).schemaVersions = (q.document R).schemaVersions ↔
      (Json.object p.schemaVersions).Equiv (.object q.schemaVersions) := by
  constructor
  · intro h
    have hpairs := List.forall₂_eq_eq_eq.symm ▸ h
    simp only [document, List.forall₂_map_left_iff, List.forall₂_map_right_iff,
      Prod.mk.injEq] at hpairs
    have hentries := hpairs.imp fun e e' he =>
      And.intro (utf8_injective he.1) (equiv_of_canonicalJsonBytes R he.2)
    obtain ⟨hkeys, hvalues⟩ := aligned_of_forall₂ hentries
    exact .object (sortByKey_perm p.schemaVersions).symm (sortByKey_perm q.schemaVersions).symm
      hkeys hvalues
  · intro h
    rcases p.schemaVersions_distinctKeys with _ | _ | _ | _ | _ | ⟨hkeys, hentries⟩
    rcases q.schemaVersions_distinctKeys with _ | _ | _ | _ | _ | ⟨hkeys', hentries'⟩
    cases h with
    | object perm perm' keys members =>
      have hvalues := map_congr_of_forall₂ members fun v hv w hw h => by
        obtain ⟨e, he, rfl⟩ := List.mem_map.mp hv
        obtain ⟨e', he', rfl⟩ := List.mem_map.mp hw
        exact (canonicalJsonBytes_eq_iff R (hentries e (perm.mem_iff.mpr he))
          (hentries' e' (perm'.mem_iff.mpr he'))).mpr h
      have hsorted := congrArg (List.map fun e => (utf8 e.1, e.2))
        (sortByKey_map_congr hkeys hkeys' perm perm' keys hvalues)
      simpa only [document, List.map_map, Function.comp_def] using hsorted

theorem document_eq_iff (p q : OraclePolicy N) :
    p.document R = q.document R ↔ p.SameUpToOrder q := by
  constructor
  · intro h
    have hfields := Document.mk.inj h
    obtain ⟨hdomains, hmethods, hcalls, hpayload, htls, hschema, hversions⟩ := hfields
    exact ⟨sortStrings_eq_iff.mp hdomains, sortStrings_eq_iff.mp hmethods, hcalls, hpayload, htls,
      (outputSchemaBytes_eq_iff R p q).mp hschema, (schemaVersions_eq_iff R p q).mp hversions⟩
  · intro h
    have hschema := (outputSchemaBytes_eq_iff R p q).mpr h.requiredOutputSchema
    have hversions := (schemaVersions_eq_iff R p q).mpr h.schemaVersions
    have hdomains := sortStrings_eq_iff.mpr h.allowedDomains
    have hmethods := sortStrings_eq_iff.mpr h.allowedHttpMethods
    simp only [document] at hschema hversions ⊢
    rw [hdomains, hmethods, h.maxToolCalls, h.maxPayloadBytesPerCall, h.tlsRequirement, hschema,
      hversions]

theorem canonicalBytes_eq_iff_sameUpToOrder {p q : OraclePolicy N} (hp : p.InRange R)
    (hq : q.InRange R) : p.canonicalBytes R = q.canonicalBytes R ↔ p.SameUpToOrder q := by
  rw [← bytes_document, ← bytes_document,
    Document.bytes_inj (hp.document_valid R) (hq.document_valid R)]
  exact document_eq_iff R p q

/-- The canonical bytes of two policies coincide exactly when the policies are the same
up to order. The hash over them therefore never depends on insertion order, and it
identifies a policy unless it collides. -/
theorem canonicalBytes_canonical (sha256 : List UInt8 → Bytes32) (p q : OraclePolicy N)
    (hp : p.InRange R) (hq : q.InRange R) :
    (p.canonicalBytes R = q.canonicalBytes R ↔ p.SameUpToOrder q) ∧
    (p.SameUpToOrder q → p.policyHash R sha256 = q.policyHash R sha256) ∧
    (p.policyHash R sha256 = q.policyHash R sha256 → p.SameUpToOrder q ∨
      p.canonicalBytes R ≠ q.canonicalBytes R ∧
        sha256 (p.canonicalBytes R) = sha256 (q.canonicalBytes R)) := by
  have hiff := canonicalBytes_eq_iff_sameUpToOrder R hp hq
  refine ⟨hiff, ?_, ?_⟩
  · intro h
    rw [policyHash, policyHash, hiff.mpr h]
  · intro h
    by_cases hsame : p.SameUpToOrder q
    · exact .inl hsame
    · exact .inr ⟨fun hbytes => hsame (hiff.mp hbytes), h⟩

def priceFeedReordered : OraclePolicy Int :=
  { priceFeed with allowedDomains := ["a.example", "b.example"] }

theorem canonicalBytes_canonical_priceFeed :
    priceFeed.canonicalBytes integerRenderer = priceFeedReordered.canonicalBytes integerRenderer :=
  (canonicalBytes_canonical integerRenderer (fun _ => .replicate 32 0) priceFeed
    priceFeedReordered priceFeed_inRange
    { priceFeed_inRange with domainCount := by decide, domains := by decide }).1.mpr
    { allowedDomains := .swap "a.example" "b.example" []
      allowedHttpMethods := .refl _
      maxToolCalls := rfl
      maxPayloadBytesPerCall := rfl
      tlsRequirement := rfl
      requiredOutputSchema := .some (.object (.refl _) (.refl _) rfl (.cons (.bool true) .nil))
      schemaVersions := .object (.refl _) (.refl _) rfl
        (.cons (.object (.refl _) (.refl _) rfl (.cons (.number 0) .nil)) .nil) }

end OraclePolicy

end ProvenoZk.Policy
