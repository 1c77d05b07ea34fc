import ProvenoZk.Foundation.Word

/-! `Types.sol`: the public inputs a proof is verified against, and how they are
packed into the words the verifier reads. -/
namespace ProvenoZk.Contracts
open Foundation

structure PublicInputs where
  numSteps : UInt32
  programHash : Bytes32
  returnValue : Int64
  toolResponsesHash : Bytes32
  inputHash : Bytes32
  outputHash : Bytes32
  attestationHash : Bytes32
  policyHash : Bytes32
  deriving DecidableEq

abbrev provenoPublicInputsLength : Nat := 194

/-- The array `pack` fills, and the indices written so far. -/
structure Packing where
  packed : Vector Bytes32 provenoPublicInputsLength
  written : List Nat

namespace Packing

def write (s : Packing) (i : Nat) (word : Bytes32) : Option Packing :=
  if i < provenoPublicInputsLength then some ⟨s.packed.setIfInBounds i word, s.written ++ [i]⟩
  else none

def writeByte (offset : Nat) (hash : Bytes32) (j : Nat) (s : Packing) : Option Packing := do
  let byte ← hash[j]?
  s.write (offset + j) (toBigEndian byte.toNat)

def writeBytes32AsBytes (s : Packing) (offset : Nat) (hash : Bytes32) : Option Packing :=
  forRange 32 (writeByte offset hash) s

end Packing

namespace PublicInputs

variable (pi : PublicInputs)

def packing : Option Packing := do
  let s : Packing := ⟨.replicate _ (.replicate _ 0), []⟩
  let s ← s.write 0 (toBigEndian pi.numSteps.toNat)
  let i := 1
  let s ← s.writeBytes32AsBytes i pi.programHash
  let i := i + 32
  -- the `int64` is cast to `uint64` first
  let s ← s.write i (toBigEndian pi.returnValue.toUInt64.toNat)
  let i := i + 1
  let s ← s.writeBytes32AsBytes i pi.toolResponsesHash
  let i := i + 32
  let s ← s.writeBytes32AsBytes i pi.inputHash
  let i := i + 32
  let s ← s.writeBytes32AsBytes i pi.outputHash
  let i := i + 32
  let s ← s.writeBytes32AsBytes i pi.attestationHash
  let i := i + 32
  s.writeBytes32AsBytes i pi.policyHash

def pack : Option (Vector Bytes32 provenoPublicInputsLength) := do
  let s ← pi.packing
  return s.packed

end PublicInputs

/-- A word that holds a `uint32`, or the ABI decoder reverts. -/
def abiUint32 (word : Bytes32) : Option UInt32 :=
  if bigEndian word < 2 ^ 32 then some (.ofNat (bigEndian word)) else none

def abiInt64 (word : Bytes32) : Option Int64 :=
  if -2 ^ 63 ≤ signed word ∧ signed word < 2 ^ 63 then some (.ofInt (signed word)) else none

/-- `abi.decode(words, (PublicInputs))`: a static tuple, one word for each field. -/
def abiDecodePublicInputs : List Bytes32 → Option PublicInputs
  | [numSteps, programHash, returnValue, toolResponsesHash, inputHash, outputHash, attestationHash,
      policyHash] => do
    let numSteps ← abiUint32 numSteps
    let returnValue ← abiInt64 returnValue
    return { numSteps, programHash, returnValue, toolResponsesHash, inputHash, outputHash,
             attestationHash, policyHash }
  | _ => none

/-! What `pack` writes. -/

def byteWords (hash : Bytes32) : List Bytes32 :=
  hash.toList.map fun byte => toBigEndian byte.toNat

theorem length_byteWords (hash : Bytes32) : (byteWords hash).length = 32 := by
  simp [byteWords]

def PublicInputs.words (pi : PublicInputs) : List Bytes32 :=
  toBigEndian pi.numSteps.toNat :: (byteWords pi.programHash ++
    toBigEndian pi.returnValue.toUInt64.toNat :: (byteWords pi.toolResponsesHash ++
      (byteWords pi.inputHash ++ (byteWords pi.outputHash ++
        (byteWords pi.attestationHash ++ byteWords pi.policyHash)))))

theorem PublicInputs.length_words (pi : PublicInputs) :
    pi.words.length = provenoPublicInputsLength := by
  simp [PublicInputs.words, length_byteWords]

namespace Packing

def after (words : List Bytes32) : Packing :=
  ⟨fill _ (.replicate _ 0) words, List.range words.length⟩

theorem write_after {words : List Bytes32} {i : Nat} (hi : words.length = i)
    (hroom : i < provenoPublicInputsLength) (word : Bytes32) :
    (after words).write i word = some (after (words ++ [word])) := by
  subst hi
  unfold write after
  rw [if_pos hroom, setIfInBounds_fill, List.length_append, List.length_singleton,
    List.range_succ]

theorem writeByte_after {words : List Bytes32} {i : Nat} (hi : words.length = i)
    (hroom : i + 32 ≤ provenoPublicInputsLength) (hash : Bytes32) {j : Nat} (hj : j < 32) :
    writeByte i hash j (after (words ++ (byteWords hash).take j)) =
      some (after (words ++ (byteWords hash).take (j + 1))) := by
  have hbyte : (byteWords hash)[j]? = some (toBigEndian hash[j].toNat) := by
    simp [byteWords, hj]
  unfold writeByte
  rw [Vector.getElem?_eq_getElem hj, Option.bind_eq_bind, Option.bind_some,
    write_after (by simp [length_byteWords]; omega) (by omega), List.append_assoc, List.take_add_one, hbyte]
  rfl

theorem writeBytes32AsBytes_after {words : List Bytes32} {i : Nat} (hi : words.length = i)
    (hroom : i + 32 ≤ provenoPublicInputsLength) (hash : Bytes32) :
    (after words).writeBytes32AsBytes i hash = some (after (words ++ byteWords hash)) := by
  let state := fun j => after (words ++ (byteWords hash).take j)
  have hstep : ∀ j < 32, ∀ next,
      writeByte i hash j (state j) = some next ↔ True ∧ next = state (j + 1) := by
    intro j hj next
    rw [writeByte_after hi hroom hash hj, Option.some_inj, true_and, eq_comm]
  have hloop := (forRange_eq_some_iff hstep (state 32)).mpr ⟨fun _ _ => trivial, rfl⟩
  have hfirst : state 0 = after words := by
    simp [state]
  have hlast : state 32 = after (words ++ byteWords hash) := by
    simp [state, List.take_of_length_le, length_byteWords]
  rw [hfirst, hlast] at hloop
  exact hloop

end Packing

namespace PublicInputs

theorem packing_eq (pi : PublicInputs) : pi.packing = some (.after pi.words) := by
  have hstart : (⟨.replicate _ (.replicate _ 0), []⟩ : Packing) = .after [] := by
    rw [Packing.after, fill_nil]
    rfl
  have hsteps := Packing.write_after (show ([] : List Bytes32).length = 0 from rfl) (by decide)
    (toBigEndian pi.numSteps.toNat)
  unfold packing
  rw [hstart]
  simp only [Option.bind_eq_bind]
  rw [hsteps, Option.bind_some,
    Packing.writeBytes32AsBytes_after (by simp) (by decide), Option.bind_some,
    Packing.write_after (by simp [length_byteWords]) (by decide), Option.bind_some,
    Packing.writeBytes32AsBytes_after (by simp [length_byteWords]) (by decide), Option.bind_some,
    Packing.writeBytes32AsBytes_after (by simp [length_byteWords]) (by decide), Option.bind_some,
    Packing.writeBytes32AsBytes_after (by simp [length_byteWords]) (by decide), Option.bind_some,
    Packing.writeBytes32AsBytes_after (by simp [length_byteWords]) (by decide), Option.bind_some,
    Packing.writeBytes32AsBytes_after (by simp [length_byteWords]) (by decide)]
  simp [words]

theorem pack_eq (pi : PublicInputs) : pi.pack = some (fill _ (.replicate _ 0) pi.words) := by
  unfold pack
  rw [packing_eq]
  rfl

theorem toList_of_pack {pi : PublicInputs} {packed : Vector Bytes32 provenoPublicInputsLength}
    (h : pi.pack = some packed) : packed.toList = pi.words := by
  rw [pack_eq, Option.some_inj] at h
  rw [← h, toList_fill _ _ pi.length_words]

end PublicInputs

end ProvenoZk.Contracts
