import ProvenoZk.Noir.Witness

/-! The output payload. The circuit writes the bytes of the return value over a sign
fill one by one; the word is the 256-bit two's complement that Rust encodes. -/
namespace ProvenoZk.Noir
open Foundation Proveno Zkvm

variable {I : Type}

theorem set_replicate_append {α : Type} (m : Nat) (blank x : α) (rest : List α) :
    (List.replicate (m + 1) blank ++ rest).set m x = List.replicate m blank ++ x :: rest := by
  induction m with
  | zero => rfl
  | succ m ih =>
    rw [List.replicate_succ, List.cons_append, List.set_cons_succ, ih, List.replicate_succ,
      List.cons_append]

def payloadStep (state : Bytes32 × UInt64) (i : Nat) : Bytes32 × UInt64 :=
  (state.1.setIfInBounds (31 - i) (state.2 % 256).toUInt8, state.2 / 256)

/-- After `k` iterations the low `k` bytes stand at the end, most significant first. -/
theorem payloadLoop_eq (blank : UInt8) (v : UInt64) {k : Nat} (hk : k ≤ 8) :
    ((List.range k).foldl payloadStep (.replicate 32 blank, v)).1.toList =
        List.replicate (32 - k) blank ++ (leBytes k v.toNat).reverse ∧
      ((List.range k).foldl payloadStep (.replicate 32 blank, v)).2.toNat = v.toNat / 256 ^ k := by
  induction k with
  | zero => simp [leBytes]
  | succ k ih =>
    obtain ⟨hbytes, hrest⟩ := ih (by omega)
    have hbase : (256 : UInt64).toNat = 256 := rfl
    rw [List.range_succ, List.foldl_append, List.foldl_cons, List.foldl_nil, payloadStep]
    constructor
    · have hbyte : (((List.range k).foldl payloadStep (.replicate 32 blank, v)).2 % 256).toUInt8 =
          UInt8.ofNat (v.toNat / 256 ^ k) := by
        apply UInt8.toNat_inj.mp
        rw [UInt64.toNat_toUInt8, UInt64.toNat_mod, hrest, hbase, UInt8.toNat_ofNat']
        omega
      rw [Vector.toList_setIfInBounds, hbytes, hbyte, leBytes_succ, List.reverse_append,
        show 32 - k = 31 - k + 1 by omega, set_replicate_append, show 32 - (k + 1) = 31 - k by omega]
      rfl
    · rw [UInt64.toNat_div, hrest, hbase, Nat.div_div_eq_div_mul, Nat.pow_succ]

theorem abiEncodeInt256_eq (n : Int64) : abiEncodeInt256 n = (twosComplement n.toInt).toList :=
  signExtend_eq n

theorem outputPayload_eq (n : Int64) : outputPayload n = twosComplement n.toInt := by
  have hloop := (payloadLoop_eq (signFill n) n.toUInt64 (Nat.le_refl 8)).1
  apply Vector.toList_inj.mp
  rw [← abiEncodeInt256_eq]
  exact hloop

theorem signed_outputPayload (n : Int64) : signed (outputPayload n) = n.toInt := by
  have hlow : -2 ^ 63 ≤ n.toInt := n.le_toInt
  have hhigh : n.toInt < 2 ^ 63 := n.toInt_lt
  rw [outputPayload_eq]
  exact signed_twosComplement (by omega) (by omega)

theorem outputPayload_injective : Function.Injective outputPayload := by
  intro m n h
  apply Int64.toInt_inj.mp
  rw [← signed_outputPayload, ← signed_outputPayload, h]

theorem outputHash_of_buildWitness {core : Core I} {H : Hashes}
    (hkeccak : H.keccak256 = core.keccak256) {attestationLeaf : List UInt8 → Fr}
    {bytecode : NoirBytecode} {trace : List TraceStep} {oracleTape : OracleTape}
    {inputValue : LuaValue} {output : VmOutput} {policyHash : Bytes32} {w : NoirWitness}
    (hbuild : buildWitness core H attestationLeaf bytecode trace
      (returnValueI64 output.returnValue) oracleTape inputValue output policyHash = .ok w) :
    w.outputHash = hashOutput core output ∧ outputPayloadKeccak H w.returnValue = w.outputHash := by
  unfold buildWitness at hbuild
  split_ifs at hbuild
  cases hbuild
  refine ⟨rfl, ?_⟩
  change H.keccak256 (outputPayload (returnValueI64 output.returnValue)).toList =
    hashOutput core output
  rw [outputPayload_eq, ← abiEncodeInt256_eq, hkeccak]
  rfl

/-- Circuit and host write the same 32 bytes for every return value, the word reads as the
value, and no two values share one. So whatever a program returns, the witness built for
its run passes the circuit's check against `hash_output`. -/
theorem output_payloads_agree (core : Core I) (H : Hashes)
    (hkeccak : H.keccak256 = core.keccak256) :
    (∀ n : Int64, (outputPayload n).toList = abiEncodeInt256 n ∧
      signed (outputPayload n) = n.toInt) ∧
    (∀ m n : Int64, outputPayload m = outputPayload n → m = n) ∧
    ∀ attestationLeaf bytecode trace oracleTape inputValue output policyHash w,
      buildWitness core H attestationLeaf bytecode trace (returnValueI64 output.returnValue)
        oracleTape inputValue output policyHash = .ok w →
      w.outputHash = hashOutput core output ∧
        assert (outputPayloadKeccak H w.returnValue = w.outputHash) = some () := by
  refine ⟨?_, ?_, ?_⟩
  · intro n
    refine ⟨?_, signed_outputPayload n⟩
    rw [outputPayload_eq, abiEncodeInt256_eq]
  · intro m n h
    exact outputPayload_injective h
  · intro attestationLeaf bytecode trace oracleTape inputValue output policyHash w hbuild
    have houtput := outputHash_of_buildWitness hkeccak hbuild
    refine ⟨houtput.1, ?_⟩
    rw [assert, if_pos houtput.2]

theorem output_payloads_agree_minusOne :
    signed (outputPayload (-1)) = -1 ∧
      (outputPayload (-1)).toList = List.replicate 32 0xff := by
  have hword := (output_payloads_agree { plainCore with keccak256 := rollingHashes.keccak256 }
    rollingHashes rfl).1 (-1)
  exact ⟨hword.2, hword.1⟩

end ProvenoZk.Noir
