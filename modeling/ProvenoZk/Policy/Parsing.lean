import ProvenoZk.Policy.Document

/-! `PolicyView::parse` accepts the policy grammar and nothing else, on both
widths of `usize`. Each reader is characterised by what it does to the bytes
left over; the parser is then put together by the rules for formats. -/
namespace ProvenoZk.Policy
open Foundation Proveno

def readerSource (bytes : List UInt8) : Source Reader UInt8 where
  rest := fun r => bytes.drop r.pos
  Sound := fun r => r.buf = bytes ∧ r.pos ≤ bytes.length

section Readers

variable {target : Target} {bytes : List UInt8}

/-- What a reader of `n` bytes does: decode them and move past them, or report
an error that depends on the state only. -/
def ReadsField (bytes : List UInt8) (n : Nat) (decode : List UInt8 → β)
    (error : Reader → PolicyParseError) (parser : Read β) : Prop :=
  ∀ r, (readerSource bytes).Sound r → parser r =
    if r.pos + n ≤ bytes.length then
      .ok (decode ((bytes.drop r.pos).take n), ⟨bytes, r.pos + n⟩)
    else .error (.failed (error r))

theorem ReadsField.recognises {n : Nat} {decode : List UInt8 → β}
    {error : Reader → PolicyParseError} {parser : Read β}
    (h : ReadsField bytes n decode error parser) {F : Format UInt8 α} {read : α → β}
    (hlen : ∀ a, F.Valid a → (F.encode a).length = n)
    (hread : ∀ a, F.Valid a → decode (F.encode a) = read a)
    (hsurj : ∀ b : List UInt8, b.length = n → ∃ a, F.Valid a ∧ F.encode a = b) :
    Recognises (readerSource bytes) Fault.Returned F read parser where
  sound := by
    intro r b r' hr hok
    rw [h r hr] at hok
    split_ifs at hok with hfits
    · simp only [Except.ok.injEq, Prod.mk.injEq] at hok
      obtain ⟨rfl, rfl⟩ := hok
      obtain ⟨a, ha, hencode⟩ := hsurj ((bytes.drop r.pos).take n) (length_window hfits)
      refine ⟨⟨rfl, hfits⟩, a, ha, ?_, ?_⟩
      · rw [← hread a ha, hencode]
      · simp only [readerSource]
        rw [hencode, ← List.drop_drop, List.take_append_drop]
  complete := by
    intro r a tail hr ha hrest
    have hlength := congrArg List.length hrest
    simp only [readerSource, List.length_drop, List.length_append, hlen a ha] at hlength
    have hbound : r.pos ≤ bytes.length := hr.2
    refine ⟨⟨bytes, r.pos + n⟩, ?_, ?_⟩
    · rw [h r hr, if_pos (by omega)]
      simp only [readerSource] at hrest
      rw [hrest, ← hlen a ha, List.take_left, hread a ha]
    · simp only [readerSource] at hrest ⊢
      rw [← List.drop_drop, hrest, ← hlen a ha, List.drop_left]
  refuses := by
    intro r e hr herr
    rw [h r hr] at herr
    split_ifs at herr
    cases herr
    trivial

theorem ReadsField.agrees {n : Nat} {decode : List UInt8 → β}
    {error : Reader → PolicyParseError} {parser parser' : Read β}
    (h : ReadsField bytes n decode error parser) (h' : ReadsField bytes n decode error parser') :
    Agrees (readerSource bytes).Sound parser parser' := by
  intro r hr
  refine ⟨by rw [h r hr, h' r hr], fun a r' hok => ?_⟩
  rw [h r hr] at hok
  split_ifs at hok with hfits
  cases hok
  exact ⟨rfl, hfits⟩

variable (hfits : bytes.length < target.usizeRange)
include hfits

theorem take_readsField (n : Nat) :
    ReadsField bytes n id (fun r => .lengthOverrun r.pos n) (Reader.take target n) := by
  rintro ⟨buf, pos⟩ ⟨rfl, hpos⟩
  dsimp only at hpos hfits ⊢
  by_cases h : pos + n ≤ buf.length
  · have hadd : target.checkedAdd pos n = some (pos + n) := if_pos (by omega)
    have hover : ¬ pos + n > buf.length := by omega
    have hslice := Outcome.slice_eq_ok (ε := PolicyParseError) (Nat.le_add_right pos n) h
    rw [if_pos h]
    simp only [Reader.take, Parser.get_bind_apply, hadd, if_neg hover, hslice,
      Nat.add_sub_cancel_left]
    rfl
  · have hover : pos + n > buf.length := by omega
    rw [if_neg h]
    simp only [Reader.take, Parser.get_bind_apply, Target.checkedAdd]
    split_ifs
    · simp only [if_pos hover]
      rfl
    · rfl

theorem field_readsField {n : Nat} {decode : List UInt8 → β}
    {k : List UInt8 → Read β} (hk : ∀ b : List UInt8, b.length = n → k b = pure (decode b)) :
    ReadsField bytes n decode (fun r => .truncated r.pos) (get >>= fun r =>
      (Reader.take target n).mapErr (fun _ => .truncated r.pos) >>= k) := by
  intro r hr
  have htake := take_readsField hfits n r hr
  rw [Parser.get_bind_apply]
  change Except.bind (Parser.mapErr _ (Reader.take target n) r) (fun x => k x.1 x.2) = _
  unfold Parser.mapErr
  rw [htake]
  split_ifs with h
  · simp only [Except.bind, id_eq]
    rw [hk _ (length_window h)]
    rfl
  · rfl

theorem u32le_readsField :
    ReadsField bytes 4 (fun b => UInt32.ofNat (leNat b)) (fun r => .truncated r.pos)
      (Reader.u32le target) := by
  apply field_readsField hfits
  intro b hb
  match b, hb with
  | [b0, b1, b2, b3], _ => rfl

theorem u64le_readsField :
    ReadsField bytes 8 (fun b => UInt64.ofNat (leNat b)) (fun r => .truncated r.pos)
      (Reader.u64le target) := by
  apply field_readsField hfits
  intro b hb
  rw [Outcome.copyFromSlice_eq_ok hb]
  rfl

theorem u8_readsField :
    ReadsField bytes 1 (fun b => b.headD 0) (fun r => .truncated r.pos) (Reader.u8 target) := by
  apply field_readsField hfits
  intro b hb
  match b, hb with
  | [b0], _ => rfl

/-! Recognisers of the fields, then of the sections. -/

abbrev Reads (bytes : List UInt8) (F : Format UInt8 α) (read : α → β) (parser : Read β) : Prop :=
  Recognises (readerSource bytes) Fault.Returned F read parser

theorem take_reads (n : Nat) : Reads bytes (.fixed n) id (Reader.take target n) := by
  apply (take_readsField hfits n).recognises
  · intro b hb
    exact hb
  · intro b _
    rfl
  · intro b hb
    exact ⟨b, hb, rfl⟩

theorem u32le_reads :
    Reads bytes u32Format UInt32.ofNat (Reader.u32le target) := by
  apply (u32le_readsField hfits).recognises
  · intro n _
    exact length_leBytes 4 n
  · intro n hn
    have hvalid : n < 256 ^ 4 := hn
    change UInt32.ofNat (leNat (leBytes 4 n)) = UInt32.ofNat n
    rw [leNat_leBytes, Nat.mod_eq_of_lt hvalid]
  · intro b hb
    refine ⟨leNat b, ?_, ?_⟩
    · have h := leNat_lt b
      rw [hb] at h
      exact h
    · have h := leBytes_leNat b
      rw [hb] at h
      exact h

theorem u32leAsUsize_reads : Reads bytes u32Format id (Reader.u32leAsUsize target) := by
  have h := (u32le_reads hfits).map fun n : UInt32 => target.asUsize n.toNat
  apply h.congr_read
  intro n hn
  have hvalid : n < 2 ^ 32 := hn
  rw [UInt32.toNat_ofNat', Nat.mod_eq_of_lt hvalid]
  exact target.asUsize_of_lt hvalid

theorem u64le_reads : Reads bytes u64Format id (Reader.u64le target) := by
  apply (u64le_readsField hfits).recognises
  · intro n _
    exact length_leBytes 8 n.toNat
  · intro n _
    change UInt64.ofNat (leNat (leBytes 8 n.toNat)) = n
    rw [leNat_leBytes, Nat.mod_eq_of_lt (show n.toNat < 256 ^ 8 from n.toNat_lt)]
    exact UInt64.ofNat_toNat
  · intro b hb
    have hlt := leNat_lt b
    have hbytes := leBytes_leNat b
    rw [hb] at hlt hbytes
    have hnat : (UInt64.ofNat (leNat b)).toNat = leNat b := by
      rw [UInt64.toNat_ofNat']
      exact Nat.mod_eq_of_lt hlt
    refine ⟨UInt64.ofNat (leNat b), ?_, ?_⟩
    · exact (UInt64.ofNat (leNat b)).toNat_lt
    · change leBytes 8 (UInt64.ofNat (leNat b)).toNat = b
      rw [hnat, hbytes]

theorem u8_reads : Reads bytes byteFormat id (Reader.u8 target) := by
  apply (u8_readsField hfits).recognises
  · intro byte _
    rfl
  · intro byte _
    rfl
  · intro b hb
    obtain ⟨byte, rfl⟩ := List.length_eq_one_iff.mp hb
    exact ⟨byte, rfl, rfl⟩

theorem tlsRequirement_reads : Reads bytes tlsFormat id (Reader.tlsRequirement target) := by
  apply (u8_reads hfits).via
  · intro byte tls
    constructor
    · intro h
      split at h <;> cases h <;> rfl
    · intro h
      subst h
      cases tls <;> rfl
  · intro byte e h
    split at h <;> cases h
    trivial

theorem stringItem_reads : Reads bytes stringFormat id (Reader.stringItem target) := by
  apply (u32leAsUsize_reads hfits).announced
  intro len
  apply Recognises.get
  intro r
  apply (take_reads hfits len).via
  · intro b s
    constructor
    · intro h
      split at h <;> cases h
      exact fromUtf8_eq_some.mp ‹_›
    · intro h
      subst h
      rw [fromUtf8_utf8]
  · intro b e h
    split at h <;> cases h
    trivial

theorem stringList_reads :
    Reads bytes (.counted u32Format stringFormat) id (Reader.stringList target) := by
  have h : Reads bytes (.counted u32Format stringFormat) (List.map id)
      (Reader.stringList target) :=
    (u32leAsUsize_reads hfits).announced fun count => (stringItem_reads hfits).collect count
  rw [List.map_id_fun] at h
  exact h

theorem skipBlob_reads :
    Reads bytes blobFormat (fun _ => ()) (Reader.skipBlob target) :=
  (u32leAsUsize_reads hfits).announced fun len => (take_reads hfits len).map fun _ => ()

theorem skipPair_reads :
    Reads bytes (blobFormat.pair blobFormat) (fun _ => ()) (Reader.skipPair target) := by
  have h := (skipBlob_reads hfits).bind fun _ => skipBlob_reads hfits
  exact h.congr_read fun _ _ => rfl

theorem sections_reads :
    Reads bytes Document.format Document.view (PolicyView.sections target) := by
  have htail (view : PolicyView) : Reads bytes (.counted u32Format (blobFormat.pair blobFormat))
      (fun _ => view) (Reader.u32leAsUsize target >>= fun pairs =>
        collect (Reader.skipPair target) pairs >>= fun _ => pure view) :=
    (u32leAsUsize_reads hfits).announced fun pairs =>
      ((skipPair_reads hfits).collect pairs).map fun _ => view
  have h := (stringList_reads hfits).bind fun allowedDomains =>
    (stringList_reads hfits).bind fun allowedHttpMethods =>
      (u64le_reads hfits).bind fun maxToolCalls =>
        (u64le_reads hfits).bind fun maxPayloadBytesPerCall =>
          (tlsRequirement_reads hfits).bind fun tlsRequirement =>
            (skipBlob_reads hfits).bind fun _ =>
              htail { allowedDomains, allowedHttpMethods, maxToolCalls,
                      maxPayloadBytesPerCall, tlsRequirement }
  exact (h.equiv Document.equivSections).congr_read fun _ _ => rfl

/-! The whole parser. -/

theorem parse_eq_ok (view : PolicyView) :
    PolicyView.parse target bytes = .ok view ↔
      ∃ doc : Document, doc.Valid ∧ doc.bytes = bytes ∧ doc.view = view := by
  have hsound : (readerSource bytes).Sound ⟨bytes, 0⟩ := ⟨rfl, Nat.zero_le _⟩
  constructor
  · intro h
    unfold PolicyView.parse at h
    cases hsections : PolicyView.sections target ⟨bytes, 0⟩ with
    | error e => rw [hsections] at h; cases h
    | ok p =>
      rcases p with ⟨view', r⟩
      rw [hsections] at h
      change (if r.pos ≠ bytes.length then _ else _) = _ at h
      split_ifs at h with htrailing
      · unfold Outcome.sub at h
        split_ifs at h <;> cases h
      · have hview : view' = view := Except.ok.inj h
        obtain ⟨⟨-, -⟩, doc, hvalid, hread, hrest⟩ :=
          (sections_reads hfits).sound hsound hsections
        rw [Document.format_encode] at hrest
        refine ⟨doc, (Document.format_valid doc).mp hvalid, ?_, hread.trans hview⟩
        have hdone : r.pos = bytes.length := not_not.mp htrailing
        simpa [readerSource, hdone] using hrest.symm
  · rintro ⟨doc, hvalid, hbytes, rfl⟩
    have hrest : (readerSource bytes).rest ⟨bytes, 0⟩ = Document.format.encode doc ++ [] := by
      rw [Document.format_encode, List.append_nil, hbytes]
      rfl
    obtain ⟨r, hok, hempty⟩ := (sections_reads hfits).complete hsound
      ((Document.format_valid doc).mpr hvalid) hrest
    have hr : r.pos ≤ bytes.length := ((sections_reads hfits).sound hsound hok).1.2
    have hpos : r.pos = bytes.length := by
      have := List.drop_eq_nil_iff.mp hempty
      omega
    unfold PolicyView.parse
    rw [hok]
    change (if r.pos ≠ bytes.length then _ else _) = _
    rw [if_neg (not_not.mpr hpos)]
    rfl

theorem parse_returned (e : Fault PolicyParseError)
    (h : PolicyView.parse target bytes = .error e) : e.Returned := by
  have hsound : (readerSource bytes).Sound ⟨bytes, 0⟩ := ⟨rfl, Nat.zero_le _⟩
  unfold PolicyView.parse at h
  cases hsections : PolicyView.sections target ⟨bytes, 0⟩ with
  | error e' =>
    rw [hsections] at h
    cases h
    exact (sections_reads hfits).refuses hsound hsections
  | ok p =>
    rcases p with ⟨view', r⟩
    have hr : r.pos ≤ bytes.length := ((sections_reads hfits).sound hsound hsections).1.2
    rw [hsections] at h
    change (if r.pos ≠ bytes.length then _ else _) = _ at h
    split_ifs at h with htrailing
    · rw [Outcome.sub_eq_ok hr] at h
      cases h
      trivial
    · cases h

end Readers

/-! Both widths of `usize` read a buffer of less than `2 ^ 32` bytes alike. -/

section Targets

variable {bytes : List UInt8} (hsmall : bytes.length < 2 ^ 32)
include hsmall

theorem length_lt_usizeRange (target : Target) : bytes.length < target.usizeRange :=
  Nat.lt_of_lt_of_le hsmall target.le_usizeRange

abbrev TargetFree (bytes : List UInt8) (parser : Target → Read α) : Prop :=
  Agrees (readerSource bytes).Sound (parser .guest32) (parser .host64)

theorem take_targetFree (n : Nat) : TargetFree bytes fun target => Reader.take target n :=
  (take_readsField (length_lt_usizeRange hsmall _) n).agrees
    (take_readsField (length_lt_usizeRange hsmall _) n)

theorem u32leAsUsize_targetFree : TargetFree bytes Reader.u32leAsUsize := by
  have hu32 : TargetFree bytes Reader.u32le :=
    (u32le_readsField (length_lt_usizeRange hsmall _)).agrees
      (u32le_readsField (length_lt_usizeRange hsmall _))
  apply hu32.bind
  intro n
  rw [Target.asUsize_of_lt .guest32 n.toNat_lt, Target.asUsize_of_lt .host64 n.toNat_lt]
  exact Agrees.pure _

theorem u64le_targetFree : TargetFree bytes Reader.u64le :=
  (u64le_readsField (length_lt_usizeRange hsmall _)).agrees
    (u64le_readsField (length_lt_usizeRange hsmall _))

theorem tlsRequirement_targetFree : TargetFree bytes Reader.tlsRequirement := by
  have hu8 : TargetFree bytes Reader.u8 :=
    (u8_readsField (length_lt_usizeRange hsmall _)).agrees
      (u8_readsField (length_lt_usizeRange hsmall _))
  exact hu8.bind fun _ => Agrees.liftM _

theorem stringList_targetFree : TargetFree bytes Reader.stringList := by
  apply (u32leAsUsize_targetFree hsmall).bind
  intro count
  apply Agrees.collect
  apply (u32leAsUsize_targetFree hsmall).bind
  intro len
  apply Agrees.get
  intro r
  exact (take_targetFree hsmall len).bind fun _ => Agrees.liftM _

theorem skipBlob_targetFree : TargetFree bytes Reader.skipBlob := by
  apply (u32leAsUsize_targetFree hsmall).bind
  intro len
  exact (take_targetFree hsmall len).bind fun _ => Agrees.pure _

theorem sections_targetFree : TargetFree bytes PolicyView.sections := by
  apply (stringList_targetFree hsmall).bind
  intro allowedDomains
  apply (stringList_targetFree hsmall).bind
  intro allowedHttpMethods
  apply (u64le_targetFree hsmall).bind
  intro maxToolCalls
  apply (u64le_targetFree hsmall).bind
  intro maxPayloadBytesPerCall
  apply (tlsRequirement_targetFree hsmall).bind
  intro tlsRequirement
  apply (skipBlob_targetFree hsmall).bind
  intro _
  apply (u32leAsUsize_targetFree hsmall).bind
  intro pairs
  have hpair : TargetFree bytes Reader.skipPair :=
    (skipBlob_targetFree hsmall).bind fun _ => skipBlob_targetFree hsmall
  exact (hpair.collect pairs).bind fun _ => Agrees.pure _

theorem parse_targetFree :
    PolicyView.parse .guest32 bytes = PolicyView.parse .host64 bytes := by
  have h := (sections_targetFree hsmall ⟨bytes, 0⟩ ⟨rfl, Nat.zero_le _⟩).1
  unfold PolicyView.parse
  rw [h]

end Targets

/-- `PolicyView::parse` accepts exactly the grammar of `Document`: on either target it
returns the view of the one document a buffer spells, or an error value. -/
theorem parse_accepts_grammar (bytes : List UInt8) (hsmall : bytes.length < 2 ^ 32) :
    (∀ target view, PolicyView.parse target bytes = .ok view ↔
      ∃ doc : Document, doc.Valid ∧ doc.bytes = bytes ∧ doc.view = view) ∧
    (∀ doc doc' : Document, doc.Valid → doc'.Valid → doc.bytes = bytes → doc'.bytes = bytes →
      doc = doc') ∧
    (∀ target, (∃ view, PolicyView.parse target bytes = .ok view) ∨
      ∃ e, PolicyView.parse target bytes = .error (.failed e)) ∧
    PolicyView.parse .guest32 bytes = PolicyView.parse .host64 bytes ∧
    (∀ target longer view view', longer.length < 2 ^ 32 →
      PolicyView.parse target bytes = .ok view → PolicyView.parse target longer = .ok view' →
      bytes <+: longer → bytes = longer) := by
  refine ⟨?_, ?_, ?_, parse_targetFree hsmall, ?_⟩
  · intro target view
    exact parse_eq_ok (length_lt_usizeRange hsmall target) view
  · intro doc doc' hvalid hvalid' hbytes hbytes'
    exact (Document.bytes_inj hvalid hvalid').mp (hbytes.trans hbytes'.symm)
  · intro target
    cases h : PolicyView.parse target bytes with
    | ok view => exact .inl ⟨view, rfl⟩
    | error e =>
      have hreturned := parse_returned (length_lt_usizeRange hsmall target) e h
      cases e with
      | failed e => exact .inr ⟨e, rfl⟩
      | panicked => exact absurd hreturned Fault.not_returned_panicked
  · intro target longer view view' hlonger h h' hpre
    obtain ⟨doc, hvalid, rfl, -⟩ := (parse_eq_ok (length_lt_usizeRange hsmall target) view).mp h
    obtain ⟨doc', hvalid', rfl, -⟩ :=
      (parse_eq_ok (length_lt_usizeRange hlonger target) view').mp h'
    rw [Document.eq_of_bytes_prefix hvalid hvalid' hpre]

def quotePolicy : List UInt8 :=
  leBytes 4 1 ++ leBytes 4 9 ++ utf8 "a.example" ++
    leBytes 4 1 ++ leBytes 4 8 ++ utf8 "http_get" ++
    leBytes 8 4 ++ leBytes 8 64 ++ [1] ++
    leBytes 4 4 ++ utf8 "true" ++
    leBytes 4 1 ++ leBytes 4 9 ++ utf8 "a.example" ++ leBytes 4 4 ++ utf8 "null"

theorem parse_accepts_grammar_quote :
    ∃ doc : Document, doc.Valid ∧ doc.bytes = quotePolicy ∧
      doc.view = ⟨["a.example"], ["http_get"], 4, 64, .preferredAttested⟩ :=
  ((parse_accepts_grammar quotePolicy (by decide)).1 .guest32
    ⟨["a.example"], ["http_get"], 4, 64, .preferredAttested⟩).mp rfl

end ProvenoZk.Policy
