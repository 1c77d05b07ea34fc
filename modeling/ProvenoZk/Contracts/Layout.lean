import ProvenoZk.Contracts.Types
import ProvenoZk.Noir.Payload

/-! The three layouts of the public inputs: the words `proveno-noir --json` prints,
the struct they decode to, and the public parameters of the circuit. -/
namespace ProvenoZk.Contracts
open Foundation Noir

/-! The words the command prints. -/

def bytesTo0xHex (bytes : List UInt8) : String :=
  .ofList ('0' :: 'x' :: bytes.flatMap hexByte)

def bytes32Hex (bytes : Bytes32) : String := bytesTo0xHex bytes.toList

def paddedWord (filler : UInt8) (bytes : List UInt8) : Bytes32 :=
  fill 32 0 (List.replicate (32 - bytes.length) filler ++ bytes)

def u32ToBytes32Hex (v : UInt32) : String :=
  bytes32Hex (paddedWord 0 (leBytes 4 v.toNat).reverse)

def i64ToBytes32Hex (v : Int64) : String :=
  bytes32Hex (paddedWord (if v < 0 then 0xff else 0) (leBytes 8 v.toUInt64.toNat).reverse)

/-- `public_inputs` in the output of `--json`. -/
def jsonPublicInputs (w : NoirWitness) : List String :=
  [u32ToBytes32Hex w.numSteps, bytes32Hex w.programHash, i64ToBytes32Hex w.returnValue,
    bytes32Hex w.toolResponsesHash, bytes32Hex w.inputHash, bytes32Hex w.outputHash,
    bytes32Hex w.attestationHash, bytes32Hex w.policyHash]

/-! The public parameters of `main`, on the wire. -/

def byteFields (bytes : Bytes32) : List Fr :=
  bytes.toList.map fun byte => (byte.toNat : Fr)

/-- The `pub` parameters, in declaration order. -/
def publicFields (w : NoirWitness) : List Fr :=
  (w.numSteps.toNat : Fr) :: (byteFields w.programHash ++
    (w.returnValue.toUInt64.toNat : Fr) :: (byteFields w.toolResponsesHash ++
      (byteFields w.inputHash ++ (byteFields w.outputHash ++
        (byteFields w.attestationHash ++ byteFields w.policyHash)))))

def publicWords (w : NoirWitness) : List Bytes32 :=
  (publicFields w).map fieldToBeBytes32

def publicInputs (w : NoirWitness) : PublicInputs where
  numSteps := w.numSteps
  programHash := w.programHash
  returnValue := w.returnValue
  toolResponsesHash := w.toolResponsesHash
  inputHash := w.inputHash
  outputHash := w.outputHash
  attestationHash := w.attestationHash
  policyHash := w.policyHash

/-! Reading the printed words back. -/

theorem readWord_bytes32Hex (bytes : Bytes32) : readWord (bytes32Hex bytes) = some bytes := by
  have htext : (bytes32Hex bytes).toList = '0' :: 'x' :: bytes.toList.flatMap hexByte :=
    String.toList_ofList
  have hfill : fill 32 0 bytes.toList = bytes := by
    apply Vector.toList_inj.mp
    exact toList_fill _ _ (by simp)
  unfold readWord
  rw [htext]
  change (do
    let read ← readHex (bytes.toList.flatMap hexByte)
    if read.length = 32 then return fill 32 0 read else none) = _
  rw [readHex_flatMap, Option.bind_eq_bind, Option.bind_some, if_pos (by simp), hfill]
  rfl

theorem u32ToBytes32Hex_eq (v : UInt32) : u32ToBytes32Hex v = bytes32Hex (toBigEndian v.toNat) := by
  have hlt : v.toNat < 256 ^ 4 := v.toNat_lt
  have hzeros : leNat (List.replicate 28 0) = 0 := by decide
  unfold u32ToBytes32Hex
  congr 1
  apply Vector.toList_inj.mp
  rw [paddedWord, toList_fill _ _ (by simp)]
  apply toList_eq_of_leNat
  · simp
  · rw [List.reverse_append, List.reverse_reverse, List.reverse_replicate, leNat_append,
      List.length_reverse, length_leBytes, leNat_leBytes, Nat.mod_eq_of_lt hlt, hzeros]
    omega

theorem i64ToBytes32Hex_eq (v : Int64) : i64ToBytes32Hex v = bytes32Hex (twosComplement v.toInt) := by
  unfold i64ToBytes32Hex
  congr 1
  apply Vector.toList_inj.mp
  rw [paddedWord, toList_fill _ _ (by simp), ← signExtend_eq, List.length_reverse, length_leBytes]
  rfl

theorem abiUint32_toBigEndian (v : UInt32) : abiUint32 (toBigEndian v.toNat) = some v := by
  have hlt : v.toNat < 2 ^ 32 := v.toNat_lt
  unfold abiUint32
  rw [bigEndian_toBigEndian (by omega), if_pos hlt, UInt32.ofNat_toNat]

theorem abiInt64_twosComplement (v : Int64) : abiInt64 (twosComplement v.toInt) = some v := by
  have hlow : -2 ^ 63 ≤ v.toInt := v.le_toInt
  have hhigh : v.toInt < 2 ^ 63 := v.toInt_lt
  unfold abiInt64
  rw [signed_twosComplement (by omega) (by omega), if_pos ⟨hlow, hhigh⟩, Int64.ofInt_toInt]

theorem readWords_jsonPublicInputs (w : NoirWitness) :
    ∃ words, (jsonPublicInputs w).mapM readWord = some words ∧
      abiDecodePublicInputs words = some (publicInputs w) := by
  refine ⟨[toBigEndian w.numSteps.toNat, w.programHash, twosComplement w.returnValue.toInt,
    w.toolResponsesHash, w.inputHash, w.outputHash, w.attestationHash, w.policyHash], ?_, ?_⟩
  · simp [jsonPublicInputs, u32ToBytes32Hex_eq, i64ToBytes32Hex_eq, readWord_bytes32Hex]
  · simp only [abiDecodePublicInputs, abiUint32_toBigEndian, abiInt64_twosComplement]
    rfl

/-! The packed words. -/

theorem fieldToBeBytes32_natCast {n : Nat} (hn : n < 2 ^ 64) :
    fieldToBeBytes32 (n : Fr) = toBigEndian n := by
  unfold fieldToBeBytes32 toBigEndian
  rw [ZMod.val_natCast_of_lt (lt_modulus_of_lt hn)]

theorem map_byteFields (bytes : Bytes32) :
    (byteFields bytes).map fieldToBeBytes32 = byteWords bytes := by
  unfold byteFields byteWords
  rw [List.map_map]
  apply List.map_congr_left
  intro byte _
  have hlt := byte.toNat_lt
  exact fieldToBeBytes32_natCast (by omega)

theorem words_publicInputs (w : NoirWitness) : (publicInputs w).words = publicWords w := by
  have hsteps := w.numSteps.toNat_lt
  have hreturned := w.returnValue.toUInt64.toNat_lt
  simp only [publicWords, publicFields, List.map_cons, List.map_append, map_byteFields]
  rw [fieldToBeBytes32_natCast (by omega), fieldToBeBytes32_natCast hreturned]
  rfl

theorem byteWords_lt {bytes word : Bytes32} (hmem : word ∈ byteWords bytes) :
    bigEndian word < 2 ^ 64 := by
  unfold byteWords at hmem
  obtain ⟨byte, -, rfl⟩ := List.mem_map.mp hmem
  have hlt := byte.toNat_lt
  rw [bigEndian_toBigEndian (by omega)]
  omega

theorem PublicInputs.words_lt {pi : PublicInputs} {word : Bytes32} (hmem : word ∈ pi.words) :
    bigEndian word < 2 ^ 64 := by
  have hsteps := pi.numSteps.toNat_lt
  have hreturned := pi.returnValue.toUInt64.toNat_lt
  unfold PublicInputs.words at hmem
  simp only [List.mem_cons, List.mem_append] at hmem
  rcases hmem with rfl | h | rfl | h | h | h | h | h
  · rw [bigEndian_toBigEndian (by omega)]
    omega
  · exact byteWords_lt h
  · rw [bigEndian_toBigEndian (by omega)]
    omega
  all_goals exact byteWords_lt h

theorem toBigEndian_inj {m n : Nat} (hm : m < 256 ^ 32) (hn : n < 256 ^ 32)
    (h : toBigEndian m = toBigEndian n) : m = n := by
  rw [← bigEndian_toBigEndian hm, h, bigEndian_toBigEndian hn]

theorem byteWords_injective : Function.Injective byteWords := by
  intro a b h
  apply Vector.toList_inj.mp
  apply List.map_injective_iff.mpr _ h
  intro x y hxy
  have hx := x.toNat_lt
  have hy := y.toNat_lt
  exact UInt8.toNat_inj.mp (toBigEndian_inj (by omega) (by omega) hxy)

theorem byteWords_append_inj {a b : Bytes32} {r s : List Bytes32}
    (h : byteWords a ++ r = byteWords b ++ s) : a = b ∧ r = s := by
  obtain ⟨hhash, hrest⟩ := List.append_inj h (by simp [length_byteWords])
  exact ⟨byteWords_injective hhash, hrest⟩

theorem PublicInputs.words_injective : Function.Injective PublicInputs.words := by
  intro a b h
  have hstepsA := a.numSteps.toNat_lt
  have hstepsB := b.numSteps.toNat_lt
  have hreturnedA := a.returnValue.toUInt64.toNat_lt
  have hreturnedB := b.returnValue.toUInt64.toNat_lt
  unfold PublicInputs.words at h
  obtain ⟨hsteps, h⟩ := List.cons.inj h
  obtain ⟨hprogram, h⟩ := byteWords_append_inj h
  obtain ⟨hreturned, h⟩ := List.cons.inj h
  obtain ⟨hresponses, h⟩ := byteWords_append_inj h
  obtain ⟨hinput, h⟩ := byteWords_append_inj h
  obtain ⟨houtput, h⟩ := byteWords_append_inj h
  obtain ⟨hattestation, hpolicy⟩ := byteWords_append_inj h
  have hnum : a.numSteps = b.numSteps :=
    UInt32.toNat_inj.mp (toBigEndian_inj (by omega) (by omega) hsteps)
  have hbits : a.returnValue.toUInt64 = b.returnValue.toUInt64 :=
    UInt64.toNat_inj.mp (toBigEndian_inj (by omega) (by omega) hreturned)
  have hvalue : a.returnValue = b.returnValue := congrArg Int64.ofUInt64 hbits
  have hpolicy := byteWords_injective hpolicy
  cases a
  cases b
  simp_all

theorem PublicInputs.pack_injective : Function.Injective PublicInputs.pack := by
  intro a b h
  have hwords := toList_of_pack (h.trans b.pack_eq)
  rw [toList_fill _ _ b.length_words] at hwords
  exact PublicInputs.words_injective hwords.symm

/-- What the command prints decodes to a struct that packs to the circuit's public
wire; `pack` never fails, fills each index once from first to last with a word of at
most 64 bits, and tells the structs apart. -/
theorem public_input_layouts_agree :
    (∀ w : NoirWitness, ∃ words, (jsonPublicInputs w).mapM readWord = some words ∧
      ∃ pi, abiDecodePublicInputs words = some pi ∧
        ∃ packed, pi.pack = some packed ∧ packed.toList = publicWords w) ∧
    (∀ pi : PublicInputs, ∃ s, pi.packing = some s ∧ pi.pack = some s.packed ∧
      s.written = List.range provenoPublicInputsLength ∧
      ∀ word ∈ s.packed.toList, bigEndian word < 2 ^ 64) ∧
    Function.Injective PublicInputs.pack := by
  refine ⟨?_, ?_, PublicInputs.pack_injective⟩
  · intro w
    obtain ⟨words, hread, hdecode⟩ := readWords_jsonPublicInputs w
    have hpack := (publicInputs w).pack_eq
    refine ⟨words, hread, publicInputs w, hdecode, _, hpack, ?_⟩
    rw [PublicInputs.toList_of_pack hpack, words_publicInputs]
  · intro pi
    refine ⟨.after pi.words, pi.packing_eq, pi.pack_eq, ?_, ?_⟩
    · rw [← pi.length_words]
      rfl
    · intro word hmem
      have hwords := PublicInputs.toList_of_pack pi.pack_eq
      apply PublicInputs.words_lt
      rw [← hwords]
      exact hmem

end ProvenoZk.Contracts
