import ProvenoZk.Foundation.Format
import ProvenoZk.Foundation.Loop

/-! Words of 32 bytes: the unsigned number they spell, most significant byte first,
the signed number in two's complement, and their text in hexadecimal. -/
namespace ProvenoZk.Foundation

/-- The number 32 bytes spell, most significant first. -/
def bigEndian (bytes : Bytes32) : Nat :=
  leNat bytes.toList.reverse

def toBigEndian (n : Nat) : Bytes32 :=
  fill 32 0 (leBytes 32 n).reverse

theorem bigEndian_toBigEndian {n : Nat} (hn : n < 256 ^ 32) : bigEndian (toBigEndian n) = n := by
  rw [bigEndian, toBigEndian, toList_fill _ _ (by simp), List.reverse_reverse, leNat_leBytes,
    Nat.mod_eq_of_lt hn]

theorem toBigEndian_bigEndian (bytes : Bytes32) : toBigEndian (bigEndian bytes) = bytes := by
  have hbytes := leBytes_leNat bytes.toList.reverse
  rw [List.length_reverse, Vector.length_toList] at hbytes
  apply Vector.toList_inj.mp
  rw [toBigEndian, toList_fill _ _ (by simp), bigEndian, hbytes, List.reverse_reverse]

def signed (bytes : Bytes32) : Int :=
  if bigEndian bytes < 2 ^ 255 then bigEndian bytes else bigEndian bytes - 2 ^ 256

def twosComplement (x : Int) : Bytes32 :=
  toBigEndian (x % 2 ^ 256).toNat

theorem bigEndian_twosComplement (x : Int) : (bigEndian (twosComplement x) : Int) = x % 2 ^ 256 := by
  have hlow : 0 ≤ x % 2 ^ 256 := Int.emod_nonneg _ (by decide)
  have hhigh : x % 2 ^ 256 < 2 ^ 256 := Int.emod_lt_of_pos _ (by decide)
  rw [twosComplement, bigEndian_toBigEndian (by omega), Int.toNat_of_nonneg hlow]

theorem signed_twosComplement {x : Int} (hlow : -2 ^ 255 ≤ x) (hhigh : x < 2 ^ 255) :
    signed (twosComplement x) = x := by
  have hvalue := bigEndian_twosComplement x
  unfold signed
  by_cases hsign : 0 ≤ x
  · rw [Int.emod_eq_of_lt hsign (by omega)] at hvalue
    rw [if_pos (by omega), hvalue]
  · have hmod : x % 2 ^ 256 = x + 2 ^ 256 := by
      rw [← Int.add_emod_right, Int.emod_eq_of_lt (by omega) (by omega)]
    rw [hmod] at hvalue
    rw [if_neg (by omega), hvalue]
    omega

theorem leNat_append (low high : List UInt8) :
    leNat (low ++ high) = leNat low + 256 ^ low.length * leNat high := by
  induction low with
  | nil => simp [leNat]
  | cons byte low ih =>
    rw [List.cons_append, leNat, leNat, ih, List.length_cons, Nat.pow_succ]
    ring

theorem leBytes_succ (width n : Nat) :
    leBytes (width + 1) n = leBytes width n ++ [UInt8.ofNat (n / 256 ^ width)] := by
  induction width generalizing n with
  | zero => simp [leBytes]
  | succ width ih =>
    rw [leBytes, ih, leBytes, List.cons_append, Nat.div_div_eq_div_mul, ← Nat.pow_succ']

def signFill (n : Int64) : UInt8 := if n < 0 then 0xff else 0

theorem toList_toBigEndian (n : Nat) : (toBigEndian n).toList = (leBytes 32 n).reverse :=
  toList_fill _ _ (by simp)

theorem toList_eq_of_leNat {bytes : List UInt8} {n : Nat} (hlen : bytes.length = 32)
    (h : leNat bytes.reverse = n) : bytes = (toBigEndian n).toList := by
  have hbytes := leBytes_leNat bytes.reverse
  rw [List.length_reverse, hlen, h] at hbytes
  rw [toList_toBigEndian, hbytes, List.reverse_reverse]

theorem toInt_eq_toNat (n : Int64) :
    n.toInt = if n < 0 then (n.toUInt64.toNat : Int) - 2 ^ 64 else (n.toUInt64.toNat : Int) := by
  have hlt := n.toUInt64.toNat_lt
  have hcond : n.toInt = if 2 * n.toUInt64.toNat < 2 ^ 64 then
      (n.toUInt64.toNat : Int) else n.toUInt64.toNat - (2 ^ 64 : Nat) :=
    BitVec.toInt_eq_toNat_cond _
  have hzero : (0 : Int64).toInt = 0 := rfl
  have hsign : n < 0 ↔ n.toInt < 0 := by rw [Int64.lt_iff_toInt_lt, hzero]
  by_cases hneg : n < 0
  · rw [if_pos hneg]
    rw [hsign] at hneg
    split_ifs at hcond <;> omega
  · rw [if_neg hneg]
    rw [hsign] at hneg
    split_ifs at hcond <;> omega

theorem signExtend_eq (n : Int64) :
    List.replicate 24 (signFill n) ++ (leBytes 8 n.toUInt64.toNat).reverse =
      (twosComplement n.toInt).toList := by
  have hlt : n.toUInt64.toNat < 256 ^ 8 := n.toUInt64.toNat_lt
  have hzeros : leNat (List.replicate 24 0) = 0 := by decide
  have hones : leNat (List.replicate 24 0xff) = 256 ^ 24 - 1 := by decide
  apply toList_eq_of_leNat
  · simp
  · rw [List.reverse_append, List.reverse_reverse, List.reverse_replicate, leNat_append,
      length_leBytes, leNat_leBytes, Nat.mod_eq_of_lt hlt, toInt_eq_toNat, signFill]
    split_ifs
    · rw [hones]
      omega
    · rw [hzeros]
      omega

/-! Hexadecimal text. -/

/-- `format!("{b:02x}")`. -/
def hexByte (b : UInt8) : List Char :=
  [Nat.digitChar (b.toNat / 16), Nat.digitChar (b.toNat % 16)]

def hexDigit (c : Char) : Option Nat :=
  if '0' ≤ c ∧ c ≤ '9' then some (c.toNat - '0'.toNat)
  else if 'a' ≤ c ∧ c ≤ 'f' then some (c.toNat - 'a'.toNat + 10)
  else if 'A' ≤ c ∧ c ≤ 'F' then some (c.toNat - 'A'.toNat + 10)
  else none

def readHex : List Char → Option (List UInt8)
  | [] => some []
  | [_] => none
  | high :: low :: rest => do
    let high ← hexDigit high
    let low ← hexDigit low
    let bytes ← readHex rest
    return .ofNat (16 * high + low) :: bytes

def readWord (text : String) : Option Bytes32 :=
  match text.toList with
  | '0' :: 'x' :: digits => do
    let bytes ← readHex digits
    if bytes.length = 32 then return fill 32 0 bytes else none
  | _ => none

theorem hexDigit_digitChar : ∀ n < 16, hexDigit (Nat.digitChar n) = some n := by
  decide

theorem readHex_flatMap (bytes : List UInt8) : readHex (bytes.flatMap hexByte) = some bytes := by
  induction bytes with
  | nil => rfl
  | cons byte bytes ih =>
    have hbyte := byte.toNat_lt
    have hsum : 16 * (byte.toNat / 16) + byte.toNat % 16 = byte.toNat := by omega
    rw [List.flatMap_cons, hexByte, List.cons_append, List.cons_append, List.nil_append, readHex,
      hexDigit_digitChar _ (by omega), hexDigit_digitChar _ (by omega), ih]
    change some (UInt8.ofNat (16 * (byte.toNat / 16) + byte.toNat % 16) :: bytes) = _
    rw [hsum, UInt8.ofNat_toNat]

end ProvenoZk.Foundation
