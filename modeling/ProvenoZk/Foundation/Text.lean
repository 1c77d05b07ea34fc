import Mathlib.Data.List.Sort

/-! Strings as the Rust code sees them: UTF-8 bytes, ordered bytewise. -/
namespace ProvenoZk.Foundation

def utf8 (s : String) : List UInt8 := s.toUTF8.data.toList

def fromUtf8 (bytes : List UInt8) : Option String := String.fromUTF8? ⟨bytes.toArray⟩

theorem utf8_injective : Function.Injective utf8 := by
  intro s t h
  apply String.toByteArray_inj.mp
  apply ByteArray.ext
  exact Array.toList_inj.mp h

@[simp] theorem fromUtf8_utf8 (s : String) : fromUtf8 (utf8 s) = some s := by
  have hvalid : s.toByteArray.IsValidUTF8 := s.isValidUTF8
  simp [fromUtf8, utf8, String.fromUTF8?, hvalid, String.fromUTF8]

theorem fromUtf8_eq_some {bytes : List UInt8} {s : String} :
    fromUtf8 bytes = some s ↔ utf8 s = bytes := by
  constructor
  · intro h
    unfold fromUtf8 String.fromUTF8? at h
    split at h
    · cases h
      rfl
    · contradiction
  · rintro rfl
    exact fromUtf8_utf8 s

/-! `String::from_utf8_lossy` replaces every maximal ill-formed part by U+FFFD. -/

def isContinuation (byte : UInt8) : Bool := 0x80 ≤ byte && byte ≤ 0xBF

/-- The number of bytes the first byte of a sequence announces; 0 if none starts with it. -/
def utf8CharWidth (first : UInt8) : Nat :=
  if first < 0x80 then 1
  else if 0xC2 ≤ first && first ≤ 0xDF then 2
  else if 0xE0 ≤ first && first ≤ 0xEF then 3
  else if 0xF0 ≤ first && first ≤ 0xF4 then 4
  else 0

/-- Which second bytes may follow the first byte of a three or four byte sequence. -/
def isSecondByte (first second : UInt8) : Bool :=
  if first = 0xE0 then 0xA0 ≤ second && second ≤ 0xBF
  else if first = 0xED then 0x80 ≤ second && second ≤ 0x9F
  else if first = 0xF0 then 0x90 ≤ second && second ≤ 0xBF
  else if first = 0xF4 then 0x80 ≤ second && second ≤ 0x8F
  else isContinuation second

def replacement : Char := Char.ofNat 0xFFFD

def appendBits (bits : Nat) (byte : UInt8) : Nat := bits * 64 + byte.toNat % 64

/-- The first character and the number of bytes after `first` it takes. -/
def lossyChar (first : UInt8) (rest : List UInt8) : Char × Nat :=
  match utf8CharWidth first, rest with
  | 1, _ => (Char.ofNat first.toNat, 0)
  | 2, b :: _ =>
    if isContinuation b then (Char.ofNat (appendBits (first.toNat % 32) b), 1)
    else (replacement, 0)
  | 3, b :: rest =>
    if isSecondByte first b then
      match rest with
      | c :: _ =>
        if isContinuation c then
          (Char.ofNat (appendBits (appendBits (first.toNat % 16) b) c), 2)
        else (replacement, 1)
      | [] => (replacement, 1)
    else (replacement, 0)
  | 4, b :: rest =>
    if isSecondByte first b then
      match rest with
      | c :: rest =>
        if isContinuation c then
          match rest with
          | d :: _ =>
            if isContinuation d then
              (Char.ofNat (appendBits (appendBits (appendBits (first.toNat % 8) b) c) d), 3)
            else (replacement, 2)
          | [] => (replacement, 2)
        else (replacement, 1)
      | [] => (replacement, 1)
    else (replacement, 0)
  | _, _ => (replacement, 0)

/-- The fuel is the length of the input, which every step shortens. -/
def lossyChars : Nat → List UInt8 → List Char
  | fuel + 1, first :: rest =>
    let (c, used) := lossyChar first rest
    c :: lossyChars fuel (rest.drop used)
  | _, _ => []

def fromUtf8Lossy (bytes : List UInt8) : String :=
  String.ofList (lossyChars bytes.length bytes)

theorem utf8_eq_flatMap (s : String) : utf8 s = s.toList.flatMap String.utf8EncodeChar := by
  have hbytes : s.toUTF8 = s.toList.utf8Encode := String.utf8Encode_toList.symm
  unfold utf8
  rw [hbytes, List.utf8Encode, List.data_toByteArray]

theorem toNat_byte {n : Nat} (h : n < 256) : (UInt8.ofNat n).toNat = n :=
  UInt8.toNat_ofNat_of_lt' h

theorem isContinuation_ofNat (n : Nat) : isContinuation (.ofNat (n % 64 + 128)) = true := by
  unfold isContinuation
  simp only [UInt8.le_iff_toNat_le, toNat_byte (show n % 64 + 128 < 256 by omega),
    UInt8.reduceToNat, Bool.and_eq_true, decide_eq_true_iff]
  omega

theorem appendBits_ofNat (bits n : Nat) :
    appendBits bits (.ofNat (n % 64 + 128)) = bits * 64 + n % 64 := by
  unfold appendBits
  rw [toNat_byte (by omega)]
  omega

theorem utf8CharWidth_ofNat {k : Nat} (hk : k < 256) : utf8CharWidth (.ofNat k) =
    if k < 128 then 1 else if 194 ≤ k ∧ k ≤ 223 then 2 else if 224 ≤ k ∧ k ≤ 239 then 3
    else if 240 ≤ k ∧ k ≤ 244 then 4 else 0 := by
  unfold utf8CharWidth
  simp only [UInt8.lt_iff_toNat_lt, UInt8.le_iff_toNat_le, toNat_byte hk, UInt8.reduceToNat,
    Bool.and_eq_true, decide_eq_true_iff]

theorem isSecondByte_ofNat {k n : Nat} (hk : k < 256) (h224 : k = 224 → 32 ≤ n % 64)
    (h237 : k = 237 → n % 64 < 32) (h240 : k = 240 → 16 ≤ n % 64) (h244 : k = 244 → n % 64 < 16) :
    isSecondByte (.ofNat k) (.ofNat (n % 64 + 128)) = true := by
  have hsix : n % 64 + 128 < 256 := by omega
  unfold isSecondByte isContinuation
  simp only [← UInt8.toNat_inj, UInt8.le_iff_toNat_le, toNat_byte hk, toNat_byte hsix,
    UInt8.reduceToNat]
  split_ifs <;> simp only [Bool.and_eq_true, decide_eq_true_iff] <;> omega

theorem lossyChar_encode (c : Char) (more : List UInt8) :
    ∃ first tail, String.utf8EncodeChar c = first :: tail ∧
      lossyChar first (tail ++ more) = (c, tail.length) := by
  have hvalid : c.toNat < 0xD800 ∨ 0xDFFF < c.toNat ∧ c.toNat < 0x110000 := c.valid
  have hchar {n : Nat} (h : n = c.toNat) : Char.ofNat n = c := by rw [h, Char.ofNat_toNat]
  unfold String.utf8EncodeChar
  rw [show c.val.toNat = c.toNat from rfl]
  dsimp only
  split_ifs with hone htwo hthree
  · refine ⟨_, _, rfl, ?_⟩
    unfold lossyChar
    rw [utf8CharWidth_ofNat (by omega), if_pos (by omega), toNat_byte (by omega)]
    exact congrArg (·, 0) (hchar rfl)
  · refine ⟨_, _, rfl, ?_⟩
    unfold lossyChar
    rw [utf8CharWidth_ofNat (by omega), if_neg (by omega), if_pos (by omega)]
    simp only [List.cons_append, isContinuation_ofNat, appendBits_ofNat, if_true]
    rw [toNat_byte (by omega)]
    exact congrArg (·, 1) (hchar (by omega))
  · refine ⟨_, _, rfl, ?_⟩
    unfold lossyChar
    rw [utf8CharWidth_ofNat (by omega), if_neg (by omega), if_neg (by omega), if_pos (by omega)]
    simp only [List.cons_append, isContinuation_ofNat, appendBits_ofNat, if_true]
    rw [isSecondByte_ofNat (by omega) (by omega) (by omega) (by omega) (by omega), if_pos rfl,
      toNat_byte (by omega)]
    exact congrArg (·, 2) (hchar (by omega))
  · refine ⟨_, _, rfl, ?_⟩
    unfold lossyChar
    rw [utf8CharWidth_ofNat (by omega), if_neg (by omega), if_neg (by omega), if_neg (by omega),
      if_pos (by omega)]
    simp only [List.cons_append, isContinuation_ofNat, appendBits_ofNat, if_true]
    rw [isSecondByte_ofNat (by omega) (by omega) (by omega) (by omega) (by omega), if_pos rfl,
      toNat_byte (by omega)]
    exact congrArg (·, 3) (hchar (by omega))

theorem lossyChars_encode {chars : List Char} {fuel : Nat}
    (hfuel : (chars.flatMap String.utf8EncodeChar).length ≤ fuel) :
    lossyChars fuel (chars.flatMap String.utf8EncodeChar) = chars := by
  induction chars generalizing fuel with
  | nil => cases fuel <;> rfl
  | cons c chars ih =>
    obtain ⟨first, tail, hencode, hlossy⟩ :=
      lossyChar_encode c (chars.flatMap String.utf8EncodeChar)
    rw [List.flatMap_cons, hencode, List.cons_append] at hfuel ⊢
    cases fuel with
    | zero => cases hfuel
    | succ fuel =>
      simp only [List.length_cons, List.length_append] at hfuel
      rw [lossyChars, hlossy]
      dsimp only
      rw [List.drop_left, ih (by omega)]

/-- Text is well-formed, and nothing of it is replaced. -/
theorem fromUtf8Lossy_utf8 (s : String) : fromUtf8Lossy (utf8 s) = s := by
  unfold fromUtf8Lossy
  rw [utf8_eq_flatMap, lossyChars_encode (Nat.le_refl _), String.ofList_toList]

example : fromUtf8Lossy (utf8 "https://é.example/") = "https://é.example/" := by decide

/-! `Ord for str` compares bytes. -/

def bytewise (s t : String) : Prop := utf8 s ≤ utf8 t

instance : DecidableRel bytewise := fun s t => inferInstanceAs (Decidable (utf8 s ≤ utf8 t))

instance : Std.Total bytewise := ⟨fun s t => Std.Total.total (r := (· ≤ ·)) (utf8 s) (utf8 t)⟩

instance : IsTrans String bytewise := ⟨fun _ _ _ => IsTrans.trans (r := (· ≤ ·)) _ _ _⟩

theorem bytewise_antisymm {s t : String} (hst : bytewise s t) (hts : bytewise t s) : s = t :=
  utf8_injective (Std.Antisymm.antisymm (r := (· ≤ ·)) _ _ hst hts)

/-- `sort()` on a `Vec<String>`. -/
def sortStrings (strings : List String) : List String := strings.insertionSort bytewise

def byKey (p q : String × α) : Prop := bytewise p.1 q.1

instance : DecidableRel (byKey (α := α)) :=
  fun p q => inferInstanceAs (Decidable (bytewise p.1 q.1))

instance : Std.Total (byKey (α := α)) :=
  ⟨fun p q => Std.Total.total (r := bytewise) p.1 q.1⟩

instance : IsTrans (String × α) byKey :=
  ⟨fun p q t => IsTrans.trans (r := bytewise) p.1 q.1 t.1⟩

/-- `sort_by_key(|(k, _)| k.as_str())`; the sort is stable. -/
def sortByKey (pairs : List (String × α)) : List (String × α) := pairs.insertionSort byKey

theorem sortStrings_perm (strings : List String) : (sortStrings strings).Perm strings :=
  List.perm_insertionSort _ _

theorem mem_sortStrings {s : String} {strings : List String} :
    s ∈ sortStrings strings ↔ s ∈ strings :=
  (sortStrings_perm strings).mem_iff

theorem length_sortStrings (strings : List String) :
    (sortStrings strings).length = strings.length :=
  (sortStrings_perm strings).length_eq

theorem sortStrings_eq_iff {strings strings' : List String} :
    sortStrings strings = sortStrings strings' ↔ strings.Perm strings' := by
  constructor
  · intro h
    exact (sortStrings_perm strings).symm.trans (h ▸ sortStrings_perm strings')
  · intro h
    refine List.Perm.eq_of_pairwise ?_ (List.pairwise_insertionSort _ _)
      (List.pairwise_insertionSort _ _) ?_
    · intro s t _ _ hst hts
      exact bytewise_antisymm hst hts
    · exact ((sortStrings_perm strings).trans h).trans (sortStrings_perm strings').symm

theorem sortByKey_perm (pairs : List (String × α)) : (sortByKey pairs).Perm pairs :=
  List.perm_insertionSort _ _

theorem sortByKey_map (f : α → β) (pairs : List (String × α)) :
    sortByKey (pairs.map fun p => (p.1, f p.2)) = (sortByKey pairs).map fun p => (p.1, f p.2) :=
  (List.map_insertionSort byKey byKey (fun p => (p.1, f p.2)) pairs fun _ _ _ _ => Iff.rfl).symm

theorem sortByKey_congr {pairs pairs' : List (String × α)} (h : pairs.Perm pairs')
    (hkeys : (pairs.map Prod.fst).Nodup) : sortByKey pairs = sortByKey pairs' := by
  have hperm := (sortByKey_perm pairs).trans (h.trans (sortByKey_perm pairs').symm)
  refine hperm.eq_of_pairwise ?_ (List.pairwise_insertionSort byKey _)
    (List.pairwise_insertionSort byKey _)
  intro p q hp hq hpq hqp
  have hp := (sortByKey_perm pairs).mem_iff.mp hp
  have hq := h.mem_iff.mpr ((sortByKey_perm pairs').mem_iff.mp hq)
  exact List.inj_on_of_nodup_map hkeys hp hq (bytewise_antisymm hpq hqp)

end ProvenoZk.Foundation
