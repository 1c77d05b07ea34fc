import Mathlib.Tactic
import ProvenoZk.Foundation.Outcome

/-! Self-delimiting formats and the parsers that recognise them. A format says
which values may be written and how; `delimited` is the one law every reader
relies on: whatever follows an encoding, the value and the remainder are
determined. The combinators build formats from smaller ones, and each has a
rule that lifts recognisers of the parts to a recogniser of the whole. -/
namespace ProvenoZk.Foundation

structure Format (τ α : Type) where
  Valid : α → Prop
  encode : α → List τ
  delimited : ∀ {a b : α} {r s : List τ}, Valid a → Valid b →
    encode a ++ r = encode b ++ s → a = b ∧ r = s

namespace Format

variable {τ α β γ κ : Type}

theorem encode_inj (F : Format τ α) {a b : α} (ha : F.Valid a) (hb : F.Valid b) :
    F.encode a = F.encode b ↔ a = b := by
  constructor
  · intro h
    exact (F.delimited (r := []) (s := []) ha hb (by rw [h])).1
  · rintro rfl
    rfl

/-- No encoding is a proper prefix of another. -/
theorem eq_of_prefix (F : Format τ α) {a b : α} (ha : F.Valid a) (hb : F.Valid b)
    (h : F.encode a <+: F.encode b) : a = b := by
  obtain ⟨tail, htail⟩ := h
  exact (F.delimited (s := []) ha hb (by rw [htail, List.append_nil])).1

def fixed (n : Nat) : Format τ (List τ) where
  Valid := fun tokens => tokens.length = n
  encode := id
  delimited := by
    intro a b r s ha hb h
    exact List.append_inj h (ha.trans hb.symm)

def pair (F : Format τ α) (G : Format τ β) : Format τ (α × β) where
  Valid := fun p => F.Valid p.1 ∧ G.Valid p.2
  encode := fun p => F.encode p.1 ++ G.encode p.2
  delimited := by
    rintro ⟨a, b⟩ ⟨a', b'⟩ r s ⟨ha, hb⟩ ⟨ha', hb'⟩ h
    simp only [List.append_assoc] at h
    obtain ⟨hfst, h⟩ := F.delimited ha ha' h
    obtain ⟨hsnd, hrs⟩ := G.delimited hb hb' h
    exact ⟨Prod.ext hfst hsnd, hrs⟩

def times (F : Format τ α) (n : Nat) : Format τ (List α) where
  Valid := fun items => items.length = n ∧ ∀ a ∈ items, F.Valid a
  encode := fun items => items.flatMap F.encode
  delimited := by
    rintro as bs r s ⟨has, hvas⟩ ⟨hbs, hvbs⟩ h
    have hlen : as.length = bs.length := has.trans hbs.symm
    clear has hbs
    induction as generalizing bs with
    | nil =>
      obtain rfl : bs = [] := List.eq_nil_of_length_eq_zero hlen.symm
      exact ⟨rfl, h⟩
    | cons a as ih =>
      obtain ⟨b, bs, rfl⟩ : ∃ b bs', bs = b :: bs' := by
        cases bs with
        | nil => simp at hlen
        | cons b bs => exact ⟨b, bs, rfl⟩
      simp only [List.flatMap_cons, List.append_assoc] at h
      obtain ⟨hab, h⟩ := F.delimited (hvas a (by simp)) (hvbs b (by simp)) h
      obtain ⟨htail, hrs⟩ := ih (fun a ha => hvas a (by simp [ha]))
        (fun b hb => hvbs b (by simp [hb])) h (by simpa using hlen)
      exact ⟨by rw [hab, htail], hrs⟩

/-- A header that determines the format of the body it announces. -/
def announced (H : Format τ κ) (F : κ → Format τ α) (header : α → κ)
    (_hheader : ∀ k a, (F k).Valid a → header a = k) : Format τ α where
  Valid := fun a => H.Valid (header a) ∧ (F (header a)).Valid a
  encode := fun a => H.encode (header a) ++ (F (header a)).encode a
  delimited := by
    rintro a b r s ⟨hha, ha⟩ ⟨hhb, hb⟩ h
    simp only [List.append_assoc] at h
    obtain ⟨hk, h⟩ := H.delimited hha hhb h
    rw [hk] at h ha
    exact (F (header b)).delimited ha hb h

def counted (H : Format τ Nat) (F : Format τ α) : Format τ (List α) :=
  announced H F.times List.length fun _ _ h => h.1

def blob (H : Format τ Nat) : Format τ (List τ) :=
  announced H fixed List.length fun _ _ h => h

/-- Write a value by the representative `f` picks for it. -/
def via (F : Format τ α) (f : β → α) (hf : Function.Injective f) : Format τ β where
  Valid := fun b => F.Valid (f b)
  encode := fun b => F.encode (f b)
  delimited := by
    intro a b r s ha hb h
    obtain ⟨hab, hrs⟩ := F.delimited ha hb h
    exact ⟨hf hab, hrs⟩

@[simp] theorem encode_pair (F : Format τ α) (G : Format τ β) (p : α × β) :
    (F.pair G).encode p = F.encode p.1 ++ G.encode p.2 := rfl

@[simp] theorem encode_times (F : Format τ α) (n : Nat) (items : List α) :
    (F.times n).encode items = items.flatMap F.encode := rfl

@[simp] theorem encode_via (F : Format τ α) (f : β → α) (hf : Function.Injective f) (b : β) :
    (F.via f hf).encode b = F.encode (f b) := rfl

@[simp] theorem valid_pair (F : Format τ α) (G : Format τ β) (p : α × β) :
    (F.pair G).Valid p ↔ F.Valid p.1 ∧ G.Valid p.2 := Iff.rfl

@[simp] theorem valid_counted (H : Format τ Nat) (F : Format τ α) (items : List α) :
    (counted H F).Valid items ↔ H.Valid items.length ∧ ∀ a ∈ items, F.Valid a := by
  simp [counted, announced, times]

@[simp] theorem valid_blob (H : Format τ Nat) (tokens : List τ) :
    (blob H).Valid tokens ↔ H.Valid tokens.length := by
  simp [blob, announced, fixed]

@[simp] theorem valid_via (F : Format τ α) (f : β → α) (hf : Function.Injective f) (b : β) :
    (F.via f hf).Valid b ↔ F.Valid (f b) := Iff.rfl

end Format

/-! Little-endian integers. -/

def leBytes : Nat → Nat → List UInt8
  | 0, _ => []
  | width + 1, n => UInt8.ofNat n :: leBytes width (n / 256)

def leNat : List UInt8 → Nat
  | [] => 0
  | byte :: bytes => byte.toNat + 256 * leNat bytes

@[simp] theorem length_leBytes (width n : Nat) : (leBytes width n).length = width := by
  induction width generalizing n with
  | zero => rfl
  | succ width ih => simp [leBytes, ih]

theorem leNat_leBytes (width n : Nat) : leNat (leBytes width n) = n % 256 ^ width := by
  induction width generalizing n with
  | zero => simp [leBytes, leNat, Nat.mod_one]
  | succ width ih =>
    have hbyte : (UInt8.ofNat n).toNat = n % 256 := UInt8.toNat_ofNat'
    rw [leBytes, leNat, ih, hbyte, Nat.pow_succ', Nat.mod_mul]

theorem leBytes_leNat (bytes : List UInt8) : leBytes bytes.length (leNat bytes) = bytes := by
  induction bytes with
  | nil => rfl
  | cons byte bytes ih =>
    have hlow : UInt8.ofNat (byte.toNat + 256 * leNat bytes) = byte := by
      apply UInt8.toNat_inj.mp
      rw [UInt8.toNat_ofNat']
      have := byte.toNat_lt
      omega
    have hhigh : (byte.toNat + 256 * leNat bytes) / 256 = leNat bytes := by
      have := byte.toNat_lt
      omega
    rw [List.length_cons, leNat, leBytes, hlow, hhigh, ih]

theorem leNat_lt (bytes : List UInt8) : leNat bytes < 256 ^ bytes.length := by
  have h := leNat_leBytes bytes.length (leNat bytes)
  rw [leBytes_leNat] at h
  rw [h]
  exact Nat.mod_lt _ (by positivity)

def Format.natLE (width : Nat) : Format UInt8 Nat where
  Valid := fun n => n < 256 ^ width
  encode := leBytes width
  delimited := by
    intro a b r s ha hb h
    obtain ⟨hab, hrs⟩ := List.append_inj h (by simp)
    have hnat := congrArg leNat hab
    rw [leNat_leBytes, leNat_leBytes, Nat.mod_eq_of_lt ha, Nat.mod_eq_of_lt hb] at hnat
    exact ⟨hnat, hrs⟩

/-! Parsers. The state is opaque; `Source` says which tokens it still holds. -/

abbrev Parser (σ ε α : Type) := StateT σ (Except ε) α

structure Source (σ τ : Type) where
  rest : σ → List τ
  Sound : σ → Prop

theorem Parser.bind_eq_ok {parser : Parser σ ε α} {k : α → Parser σ ε β} {s : σ} {r : β × σ} :
    (parser >>= k) s = .ok r ↔ ∃ a s', parser s = .ok (a, s') ∧ k a s' = .ok r := by
  change Except.bind (parser s) (fun x => k x.1 x.2) = _ ↔ _
  rcases parser s with e | ⟨a, s'⟩ <;> simp [Except.bind]

theorem Parser.bind_eq_error {parser : Parser σ ε α} {k : α → Parser σ ε β} {s : σ} {e : ε} :
    (parser >>= k) s = .error e ↔
      parser s = .error e ∨ ∃ a s', parser s = .ok (a, s') ∧ k a s' = .error e := by
  change Except.bind (parser s) (fun x => k x.1 x.2) = _ ↔ _
  rcases parser s with e' | ⟨a, s'⟩ <;> simp [Except.bind]

def Parser.mapErr (f : ε → δ) (parser : Parser σ (Fault ε) α) : Parser σ (Fault δ) α := fun s =>
  match parser s with
  | .ok r => .ok r
  | .error fault => .error (fault.map f)

@[simp] theorem Parser.get_bind_apply (k : σ → Parser σ ε α) (s : σ) :
    (get >>= k) s = k s s := rfl

@[simp] theorem Parser.liftM_apply (x : Except ε α) (s : σ) :
    (liftM x : Parser σ ε α) s = x.map fun a => (a, s) := by
  cases x <;> rfl

/-- `parser` reads exactly the values of `F`, hands out `read` of them, leaves the
rest of the input untouched, and fails only with errors that `Benign` admits. -/
structure Recognises (S : Source σ τ) (Benign : ε → Prop) (F : Format τ α) (read : α → β)
    (parser : Parser σ ε β) : Prop where
  sound : ∀ {s b s'}, S.Sound s → parser s = .ok (b, s') →
    S.Sound s' ∧ ∃ a, F.Valid a ∧ read a = b ∧ S.rest s = F.encode a ++ S.rest s'
  complete : ∀ {s a tail}, S.Sound s → F.Valid a → S.rest s = F.encode a ++ tail →
    ∃ s', parser s = .ok (read a, s') ∧ S.rest s' = tail
  refuses : ∀ {s e}, S.Sound s → parser s = .error e → Benign e

/-- `for _ in 0..n { out.push(parser) }`. -/
def collect (parser : Parser σ ε β) : Nat → Parser σ ε (List β)
  | 0 => pure []
  | n + 1 => do
    let item ← parser
    let items ← collect parser n
    pure (item :: items)

namespace Recognises

variable {σ τ ε δ α β γ κ : Type} {S : Source σ τ} {Benign : ε → Prop}

/-- Read one value, then a second one that may be handed out together with it. -/
theorem bind {F : Format τ α} {read : α → β} {parser : Parser σ ε β}
    {G : Format τ γ} {next : β → γ → κ} {k : β → Parser σ ε κ}
    (hp : Recognises S Benign F read parser)
    (hk : ∀ b, Recognises S Benign G (next b) (k b)) :
    Recognises S Benign (F.pair G) (fun p => next (read p.1) p.2) (parser >>= k) where
  sound := by
    intro s c s'' hs h
    obtain ⟨b, s', hps, hks⟩ := Parser.bind_eq_ok.mp h
    obtain ⟨hs', a, ha, rfl, hrest⟩ := hp.sound hs hps
    obtain ⟨hs'', g, hg, rfl, hrest'⟩ := (hk _).sound hs' hks
    exact ⟨hs'', (a, g), ⟨ha, hg⟩, rfl, by
      rw [hrest, hrest', Format.encode_pair, List.append_assoc]⟩
  complete := by
    rintro s ⟨a, g⟩ tail hs ⟨ha, hg⟩ hrest
    simp only [Format.encode_pair, List.append_assoc] at hrest
    obtain ⟨s', hps, hrest'⟩ := hp.complete hs ha hrest
    obtain ⟨hs', -⟩ := hp.sound hs hps
    obtain ⟨s'', hks, htail⟩ := (hk (read a)).complete hs' hg hrest'
    exact ⟨s'', Parser.bind_eq_ok.mpr ⟨read a, s', hps, hks⟩, htail⟩
  refuses := by
    intro s e hs h
    obtain hps | ⟨b, s', hps, hks⟩ := Parser.bind_eq_error.mp h
    · exact hp.refuses hs hps
    · exact (hk b).refuses (hp.sound hs hps).1 hks

theorem announced {H : Format τ κ} {F : κ → Format τ α} {header : α → κ}
    {hheader : ∀ k a, (F k).Valid a → header a = k} {read : α → β}
    {parser : Parser σ ε κ} {body : κ → Parser σ ε β}
    (hp : Recognises S Benign H id parser)
    (hbody : ∀ k, Recognises S Benign (F k) read (body k)) :
    Recognises S Benign (Format.announced H F header hheader) read (parser >>= body) where
  sound := by
    intro s b s'' hs h
    obtain ⟨k, s', hps, hbs⟩ := Parser.bind_eq_ok.mp h
    obtain ⟨hs', k', hk, rfl, hrest⟩ := hp.sound hs hps
    obtain ⟨hs'', a, ha, rfl, hrest'⟩ := (hbody _).sound hs' hbs
    obtain rfl : header a = k' := hheader _ _ ha
    exact ⟨hs'', a, ⟨hk, ha⟩, rfl, by rw [hrest, hrest', Format.announced, List.append_assoc]; rfl⟩
  complete := by
    rintro s a tail hs ⟨hk, ha⟩ hrest
    simp only [Format.announced, List.append_assoc] at hrest
    obtain ⟨s', hps, hrest'⟩ := hp.complete hs hk hrest
    obtain ⟨hs', -⟩ := hp.sound hs hps
    obtain ⟨s'', hbs, htail⟩ := (hbody (header a)).complete hs' ha hrest'
    exact ⟨s'', Parser.bind_eq_ok.mpr ⟨header a, s', hps, hbs⟩, htail⟩
  refuses := by
    intro s e hs h
    obtain hps | ⟨k, s', hps, hbs⟩ := Parser.bind_eq_error.mp h
    · exact hp.refuses hs hps
    · exact (hbody k).refuses (hp.sound hs hps).1 hbs

theorem map {F : Format τ α} {read : α → β} {parser : Parser σ ε β}
    (hp : Recognises S Benign F read parser) (f : β → γ) :
    Recognises S Benign F (fun a => f (read a)) (parser >>= fun b => pure (f b)) where
  sound := by
    intro s c s' hs h
    obtain ⟨b, s₁, hps, hpure⟩ := Parser.bind_eq_ok.mp h
    obtain ⟨rfl, rfl⟩ := Prod.mk.inj (Except.ok.inj hpure)
    obtain ⟨hs', a, ha, rfl, hrest⟩ := hp.sound hs hps
    exact ⟨hs', a, ha, rfl, hrest⟩
  complete := by
    intro s a tail hs ha hrest
    obtain ⟨s', hps, htail⟩ := hp.complete hs ha hrest
    exact ⟨s', Parser.bind_eq_ok.mpr ⟨read a, s', hps, rfl⟩, htail⟩
  refuses := by
    intro s e hs h
    obtain hps | ⟨b, s', -, hpure⟩ := Parser.bind_eq_error.mp h
    · exact hp.refuses hs hps
    · cases hpure

theorem congr_read {F : Format τ α} {read read' : α → β} {parser : Parser σ ε β}
    (hp : Recognises S Benign F read parser) (h : ∀ a, F.Valid a → read a = read' a) :
    Recognises S Benign F read' parser where
  sound := by
    intro s b s' hs hok
    obtain ⟨hs', a, ha, rfl, hrest⟩ := hp.sound hs hok
    exact ⟨hs', a, ha, (h a ha).symm, hrest⟩
  complete := by
    intro s a tail hs ha hrest
    rw [← h a ha]
    exact hp.complete hs ha hrest
  refuses := hp.refuses

theorem get {F : Format τ α} {read : α → β} {k : σ → Parser σ ε β}
    (hk : ∀ s, Recognises S Benign F read (k s)) :
    Recognises S Benign F read (MonadState.get >>= k) where
  sound := fun hs h => (hk _).sound hs h
  complete := fun hs ha hrest => (hk _).complete hs ha hrest
  refuses := fun hs h => (hk _).refuses hs h

/-- Interpret what was read: `decode` inverts the representation `f`. -/
theorem via {F : Format τ α} {parser : Parser σ ε α} (hp : Recognises S Benign F id parser)
    {f : β → α} (hf : Function.Injective f) {decode : α → Except ε β}
    (hdecode : ∀ a b, decode a = .ok b ↔ f b = a)
    (hbenign : ∀ a e, decode a = .error e → Benign e) :
    Recognises S Benign (F.via f hf) id (parser >>= fun a => liftM (decode a)) where
  sound := by
    intro s b s' hs h
    obtain ⟨a, s₁, hps, hlift⟩ := Parser.bind_eq_ok.mp h
    obtain ⟨hs', a', ha, rfl, hrest⟩ := hp.sound hs hps
    rcases hd : decode a' with e | b'
    · simp [hd, Except.map] at hlift
    · simp only [id_eq, Parser.liftM_apply, hd, Except.map, Except.ok.injEq,
        Prod.mk.injEq] at hlift
      obtain ⟨rfl, rfl⟩ := hlift
      obtain rfl := (hdecode _ _).mp hd
      exact ⟨hs', b', ha, rfl, hrest⟩
  complete := by
    intro s b tail hs hb hrest
    obtain ⟨s', hps, htail⟩ := hp.complete hs hb hrest
    refine ⟨s', Parser.bind_eq_ok.mpr ⟨f b, s', hps, ?_⟩, htail⟩
    simp [(hdecode (f b) b).mpr rfl, Except.map]
  refuses := by
    intro s e hs h
    obtain hps | ⟨a, s', -, hlift⟩ := Parser.bind_eq_error.mp h
    · exact hp.refuses hs hps
    · rcases hd : decode a with e' | b
      · simp only [Parser.liftM_apply, hd, Except.map, Except.error.injEq] at hlift
        subst hlift
        exact hbenign a e' hd
      · simp [hd, Except.map] at hlift

theorem equiv {F : Format τ α} {read : α → β} {parser : Parser σ ε β}
    (hp : Recognises S Benign F read parser) (e : γ ≃ α) :
    Recognises S Benign (F.via e e.injective) (fun c => read (e c)) parser where
  sound := by
    intro s b s' hs h
    obtain ⟨hs', a, ha, rfl, hrest⟩ := hp.sound hs h
    exact ⟨hs', e.symm a, by simpa [Format.via] using ha, by simp,
      by simpa [Format.via] using hrest⟩
  complete := fun hs ha hrest => hp.complete hs ha hrest
  refuses := hp.refuses

/-- The loop rule: a recogniser of one value, run `n` times. -/
theorem collect {F : Format τ α} {read : α → β} {parser : Parser σ ε β}
    (hp : Recognises S Benign F read parser) (n : Nat) :
    Recognises S Benign (F.times n) (List.map read) (collect parser n) where
  sound := by
    intro s bs s' hs h
    induction n generalizing s bs with
    | zero =>
      obtain ⟨rfl, rfl⟩ := Prod.mk.inj (Except.ok.inj h)
      exact ⟨hs, [], ⟨rfl, by simp⟩, rfl, rfl⟩
    | succ n ih =>
      obtain ⟨b, s₁, hps, h⟩ := Parser.bind_eq_ok.mp h
      obtain ⟨rest, s₂, hrest, h⟩ := Parser.bind_eq_ok.mp h
      obtain ⟨rfl, rfl⟩ := Prod.mk.inj (Except.ok.inj h)
      obtain ⟨hs₁, a, ha, rfl, htokens⟩ := hp.sound hs hps
      obtain ⟨hs₂, as, ⟨hlen, has⟩, rfl, htokens'⟩ := ih hs₁ hrest
      refine ⟨hs₂, a :: as, ⟨by simp [hlen], ?_⟩, rfl, ?_⟩
      · simpa [ha] using has
      · simp only [htokens, htokens', Format.encode_times, List.flatMap_cons, List.append_assoc]
  complete := by
    rintro s as tail hs ⟨hlen, has⟩ hrest
    induction as generalizing s n with
    | nil =>
      subst hlen
      exact ⟨s, rfl, hrest⟩
    | cons a as ih =>
      subst hlen
      simp only [Format.encode_times, List.flatMap_cons, List.append_assoc] at hrest
      obtain ⟨s₁, hps, hrest⟩ := hp.complete hs (has a (by simp)) hrest
      obtain ⟨hs₁, -⟩ := hp.sound hs hps
      obtain ⟨s₂, hcollect, htail⟩ := ih as.length hs₁ rfl (fun a ha => has a (by simp [ha])) hrest
      refine ⟨s₂, ?_, htail⟩
      exact Parser.bind_eq_ok.mpr ⟨read a, s₁, hps,
        Parser.bind_eq_ok.mpr ⟨as.map read, s₂, hcollect, rfl⟩⟩
  refuses := by
    intro s e hs h
    induction n generalizing s with
    | zero => cases h
    | succ n ih =>
      obtain hps | ⟨b, s₁, hps, h⟩ := Parser.bind_eq_error.mp h
      · exact hp.refuses hs hps
      · obtain hcollect | ⟨bs, s₂, -, hpure⟩ := Parser.bind_eq_error.mp h
        · exact ih (hp.sound hs hps).1 hcollect
        · cases hpure

end Recognises

/-- Two parsers cannot be told apart from a sound state on, and stay in sound states. -/
def Agrees (Sound : σ → Prop) (parser parser' : Parser σ ε α) : Prop :=
  ∀ s, Sound s → parser s = parser' s ∧ ∀ a s', parser s = .ok (a, s') → Sound s'

namespace Agrees

variable {σ ε δ α β : Type} {Sound : σ → Prop}

theorem pure (a : α) : Agrees Sound (pure a : Parser σ ε α) (pure a) := by
  intro s hs
  refine ⟨rfl, fun a' s' h => ?_⟩
  cases h
  exact hs

theorem liftM (x : Except ε α) : Agrees Sound (liftM x : Parser σ ε α) (liftM x) := by
  intro s hs
  refine ⟨rfl, fun a' s' h => ?_⟩
  cases x with
  | error e => cases h
  | ok a => cases h; exact hs

theorem get {k k' : σ → Parser σ ε α} (hk : ∀ s, Agrees Sound (k s) (k' s)) :
    Agrees Sound (MonadState.get >>= k) (MonadState.get >>= k') :=
  fun s hs => hk s s hs

theorem bind {parser parser' : Parser σ ε α} {k k' : α → Parser σ ε β}
    (hp : Agrees Sound parser parser') (hk : ∀ a, Agrees Sound (k a) (k' a)) :
    Agrees Sound (parser >>= k) (parser' >>= k') := by
  intro s hs
  have hp := hp s hs
  change Except.bind (parser s) (fun x => k x.1 x.2) =
      Except.bind (parser' s) (fun x => k' x.1 x.2) ∧ _
  rw [← hp.1]
  refine ⟨?_, fun b s'' h => ?_⟩
  · cases hps : parser s with
    | error e => rfl
    | ok x => exact (hk x.1 x.2 (hp.2 x.1 x.2 hps)).1
  · obtain ⟨a, s', hps, hks⟩ := Parser.bind_eq_ok.mp h
    exact (hk a s' (hp.2 a s' hps)).2 b s'' hks

theorem collect {parser parser' : Parser σ ε β} (hp : Agrees Sound parser parser') (n : Nat) :
    Agrees Sound (collect parser n) (collect parser' n) := by
  induction n with
  | zero => exact pure []
  | succ n ih => exact bind hp fun _ => bind ih fun _ => pure _

end Agrees

end ProvenoZk.Foundation
