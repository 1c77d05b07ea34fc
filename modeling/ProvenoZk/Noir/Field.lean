import Mathlib.Data.ZMod.Basic
import ProvenoZk.Foundation.Word

/-! The scalar field of BN254, in which the circuit computes, and the 32-byte
big-endian words that carry its elements as public inputs. -/
namespace ProvenoZk.Noir
open Foundation

def modulus : Nat :=
  21888242871839275222246405745257275088548364400416034343698204186575808495617

abbrev Fr := ZMod modulus

instance : NeZero modulus := ⟨by decide⟩

theorem modulus_le : modulus ≤ 256 ^ 32 := by decide

theorem lt_modulus_of_lt {n : Nat} (h : n < 2 ^ 64) : n < modulus :=
  Nat.lt_of_lt_of_le h (by decide)

theorem natCast_inj {m n : Nat} (hm : m < 2 ^ 64) (hn : n < 2 ^ 64) :
    (m : Fr) = (n : Fr) ↔ m = n := by
  constructor
  · intro h
    have hval := congrArg ZMod.val h
    rwa [ZMod.val_natCast_of_lt (lt_modulus_of_lt hm),
      ZMod.val_natCast_of_lt (lt_modulus_of_lt hn)] at hval
  · intro h
    rw [h]

def beBytes32ToField (bytes : Bytes32) : Fr :=
  bytes.toList.foldl (fun acc byte => acc * 256 + (byte.toNat : Fr)) 0

/-- `field_to_be_bytes32`, the Rust counterpart. -/
def fieldToBeBytes32 (x : Fr) : Bytes32 :=
  fill 32 0 (leBytes 32 x.val).reverse

theorem foldr_bytes (bytes : List UInt8) :
    bytes.foldr (fun byte acc => acc * 256 + (byte.toNat : Fr)) 0 = (leNat bytes : Fr) := by
  induction bytes with
  | nil => simp [leNat]
  | cons byte bytes ih =>
    rw [List.foldr_cons, ih, leNat]
    push_cast
    ring

theorem beBytes32ToField_eq (bytes : Bytes32) :
    beBytes32ToField bytes = (leNat bytes.toList.reverse : Fr) := by
  unfold beBytes32ToField
  rw [List.foldl_eq_foldr_reverse, foldr_bytes]

theorem beBytes32ToField_fieldToBeBytes32 (x : Fr) :
    beBytes32ToField (fieldToBeBytes32 x) = x := by
  have hval : x.val < 256 ^ 32 := Nat.lt_of_lt_of_le (ZMod.val_lt x) modulus_le
  rw [beBytes32ToField_eq, fieldToBeBytes32, toList_fill _ _ (by simp), List.reverse_reverse,
    leNat_leBytes, Nat.mod_eq_of_lt hval, ZMod.natCast_zmod_val]

theorem eq_fieldToBeBytes32_iff (bytes : Bytes32) :
    bytes = fieldToBeBytes32 (beBytes32ToField bytes) ↔ bigEndian bytes < modulus := by
  have hval : (beBytes32ToField bytes).val = bigEndian bytes % modulus := by
    rw [beBytes32ToField_eq, ZMod.val_natCast]
    rfl
  change bytes = toBigEndian (beBytes32ToField bytes).val ↔ _
  rw [hval]
  constructor
  · intro h
    have hlt : bigEndian bytes % modulus < modulus := Nat.mod_lt _ (by decide)
    rwa [← bigEndian_toBigEndian (hlt.trans_le modulus_le), ← h] at hlt
  · intro h
    rw [Nat.mod_eq_of_lt h, toBigEndian_bigEndian]

theorem exists_other_encoding (bytes : Bytes32) :
    ∃ other, other ≠ bytes ∧ beBytes32ToField other = beBytes32ToField bytes := by
  by_cases hcanonical : bigEndian bytes < modulus
  · have hfits : bigEndian bytes + modulus < 256 ^ 32 :=
      (Nat.add_lt_add_right hcanonical modulus).trans (by decide)
    refine ⟨toBigEndian (bigEndian bytes + modulus), ?_, ?_⟩
    · intro h
      have hvalue := congrArg bigEndian h
      rw [bigEndian_toBigEndian hfits] at hvalue
      exact absurd hvalue (Nat.ne_of_gt (Nat.lt_add_of_pos_right (by decide)))
    · rw [beBytes32ToField_eq, beBytes32ToField_eq]
      change ((bigEndian (toBigEndian (bigEndian bytes + modulus)) : Nat) : Fr) = (bigEndian bytes : Fr)
      rw [bigEndian_toBigEndian hfits, Nat.cast_add, ZMod.natCast_self, add_zero]
  · refine ⟨fieldToBeBytes32 (beBytes32ToField bytes), ?_, beBytes32ToField_fieldToBeBytes32 _⟩
    intro h
    exact hcanonical ((eq_fieldToBeBytes32_iff bytes).mp h.symm)

end ProvenoZk.Noir
