import ProvenoZk.Policy.Canonical

/-! The wire grammar of a policy document, stated once as a format. The parser
recognises it and the encoder writes it, so both sides of the codec are
compared with this definition and not with each other. -/
namespace ProvenoZk.Policy
open Foundation Proveno

namespace TlsRequirement

def tag : TlsRequirement → UInt8
  | .unattestedPermitted => 0
  | .preferredAttested => 1
  | .requiredAttested => 2

theorem tag_injective : Function.Injective tag := by
  intro a b h
  cases a <;> cases b <;> first | rfl | exact absurd h (by decide)

end TlsRequirement

/-- Everything a canonical buffer says. The two schema sections are kept as
bytes, the way the view's parser passes over them. -/
structure Document where
  allowedDomains : List String
  allowedHttpMethods : List String
  maxToolCalls : UInt64
  maxPayloadBytesPerCall : UInt64
  tlsRequirement : TlsRequirement
  requiredOutputSchema : List UInt8
  schemaVersions : List (List UInt8 × List UInt8)

abbrev u32Format : Format UInt8 Nat := .natLE 4
abbrev u64Format : Format UInt8 UInt64 :=
  (Format.natLE 8).via UInt64.toNat fun _ _ h => UInt64.toNat_inj.mp h
abbrev blobFormat : Format UInt8 (List UInt8) := .blob u32Format
abbrev stringFormat : Format UInt8 String :=
  .announced u32Format (fun len => (Format.fixed len).via utf8 utf8_injective)
    (fun s => (utf8 s).length) fun _ _ h => h
abbrev byteFormat : Format UInt8 UInt8 :=
  (Format.fixed 1).via (fun byte => [byte]) fun _ _ h => List.singleton_inj.mp h
abbrev tlsFormat : Format UInt8 TlsRequirement :=
  byteFormat.via TlsRequirement.tag TlsRequirement.tag_injective

namespace Document

abbrev Sections := List String × List String × UInt64 × UInt64 × TlsRequirement ×
  List UInt8 × List (List UInt8 × List UInt8)

def sectionsFormat : Format UInt8 Sections :=
  (Format.counted u32Format stringFormat).pair <|
    (Format.counted u32Format stringFormat).pair <|
      u64Format.pair <| u64Format.pair <| tlsFormat.pair <| blobFormat.pair <|
        Format.counted u32Format (blobFormat.pair blobFormat)

def equivSections : Document ≃ Sections where
  toFun doc := (doc.allowedDomains, doc.allowedHttpMethods, doc.maxToolCalls,
    doc.maxPayloadBytesPerCall, doc.tlsRequirement, doc.requiredOutputSchema, doc.schemaVersions)
  invFun s := ⟨s.1, s.2.1, s.2.2.1, s.2.2.2.1, s.2.2.2.2.1, s.2.2.2.2.2.1, s.2.2.2.2.2.2⟩
  left_inv _ := rfl
  right_inv _ := rfl

def format : Format UInt8 Document := sectionsFormat.via equivSections equivSections.injective

/-! The same grammar written out. -/

def blobBytes (bytes : List UInt8) : List UInt8 := leBytes 4 bytes.length ++ bytes

def stringListBytes (strings : List String) : List UInt8 :=
  leBytes 4 strings.length ++ strings.flatMap fun s => blobBytes (utf8 s)

def bytes (doc : Document) : List UInt8 :=
  stringListBytes doc.allowedDomains ++ stringListBytes doc.allowedHttpMethods ++
    leBytes 8 doc.maxToolCalls.toNat ++ leBytes 8 doc.maxPayloadBytesPerCall.toNat ++
    [doc.tlsRequirement.tag] ++ blobBytes doc.requiredOutputSchema ++
    leBytes 4 doc.schemaVersions.length ++
    doc.schemaVersions.flatMap fun pair => blobBytes pair.1 ++ blobBytes pair.2

/-- Every count and length fits its four-byte prefix. -/
structure Valid (doc : Document) : Prop where
  domainCount : doc.allowedDomains.length < 2 ^ 32
  domains : ∀ s ∈ doc.allowedDomains, (utf8 s).length < 2 ^ 32
  methodCount : doc.allowedHttpMethods.length < 2 ^ 32
  methods : ∀ s ∈ doc.allowedHttpMethods, (utf8 s).length < 2 ^ 32
  outputSchema : doc.requiredOutputSchema.length < 2 ^ 32
  pairCount : doc.schemaVersions.length < 2 ^ 32
  pairs : ∀ pair ∈ doc.schemaVersions, pair.1.length < 2 ^ 32 ∧ pair.2.length < 2 ^ 32

theorem format_encode (doc : Document) : format.encode doc = doc.bytes := by
  have hstrings (strings : List String) :
      (Format.counted u32Format stringFormat).encode strings = stringListBytes strings := rfl
  have hword (n : UInt64) : u64Format.encode n = leBytes 8 n.toNat := rfl
  have hbyte (byte : UInt8) : byteFormat.encode byte = [byte] := rfl
  have hblob (bytes : List UInt8) : blobFormat.encode bytes = blobBytes bytes := rfl
  have hpairs (pairs : List (List UInt8 × List UInt8)) :
      (Format.counted u32Format (blobFormat.pair blobFormat)).encode pairs =
        leBytes 4 pairs.length ++ pairs.flatMap fun pair => blobBytes pair.1 ++ blobBytes pair.2 :=
    rfl
  simp only [format, sectionsFormat, equivSections, Equiv.coe_fn_mk, Format.encode_via,
    Format.encode_pair, hstrings, hword, hbyte, hblob, hpairs, bytes, List.append_assoc]

theorem format_valid (doc : Document) : format.Valid doc ↔ doc.Valid := by
  have hword (n : UInt64) : n.toNat < 256 ^ 8 := n.toNat_lt
  have hstring (s : String) : stringFormat.Valid s ↔ (utf8 s).length < 256 ^ 4 :=
    and_iff_left rfl
  constructor
  · intro h
    simp only [format, sectionsFormat, equivSections, Format.valid_via, Format.valid_pair,
      Format.valid_counted, Format.valid_blob, hstring, Format.natLE, Equiv.coe_fn_mk] at h
    obtain ⟨⟨h1, h2⟩, ⟨h3, h4⟩, -, -, -, h5, h6, h7⟩ := h
    exact ⟨h1, h2, h3, h4, h5, h6, h7⟩
  · intro h
    simp only [format, sectionsFormat, equivSections, Format.valid_via, Format.valid_pair,
      Format.valid_counted, Format.valid_blob, hstring, Format.natLE, Equiv.coe_fn_mk]
    exact ⟨⟨h.domainCount, h.domains⟩, ⟨h.methodCount, h.methods⟩, hword _, hword _, rfl,
      h.outputSchema, h.pairCount, h.pairs⟩

theorem bytes_inj {doc doc' : Document} (h : doc.Valid) (h' : doc'.Valid) :
    doc.bytes = doc'.bytes ↔ doc = doc' := by
  rw [← format_encode, ← format_encode]
  exact format.encode_inj ((format_valid doc).mpr h) ((format_valid doc').mpr h')

theorem eq_of_bytes_prefix {doc doc' : Document} (h : doc.Valid) (h' : doc'.Valid)
    (hpre : doc.bytes <+: doc'.bytes) : doc = doc' := by
  rw [← format_encode, ← format_encode] at hpre
  exact format.eq_of_prefix ((format_valid doc).mpr h) ((format_valid doc').mpr h') hpre

def view (doc : Document) : PolicyView where
  allowedDomains := doc.allowedDomains
  allowedHttpMethods := doc.allowedHttpMethods
  maxToolCalls := doc.maxToolCalls
  maxPayloadBytesPerCall := doc.maxPayloadBytesPerCall
  tlsRequirement := doc.tlsRequirement

end Document

end ProvenoZk.Policy
