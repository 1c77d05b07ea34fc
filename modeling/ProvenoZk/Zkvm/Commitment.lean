import ProvenoZk.Foundation.Format
import ProvenoZk.Proveno.Vm

/-! The public commitments of one execution. -/
namespace ProvenoZk.Zkvm
open Foundation Proveno

variable {I : Type}

structure PublicInputs where
  programHash : Bytes32
  inputHash : Bytes32
  toolResponsesHash : Bytes32
  outputHash : Bytes32
  attestationHash : Bytes32
  policyHash : Bytes32
  deriving DecidableEq

section

variable (core : Core I)

/-- SHA-256 of the canonical bytes of a value, or of `null` if it has none. -/
def hashInput (v : LuaValue) : Bytes32 :=
  core.sha256 (match core.canonicalSerialize v with
    | .ok bytes => bytes
    | .error _ => utf8 "null")

def returnValueI64 : LuaValue → Int64
  | .integer n => n
  | _ => 0

/-- `abi.encode(int256(n))`: one big-endian two's-complement word of 32 bytes. -/
def abiEncodeInt256 (n : Int64) : List UInt8 :=
  List.replicate 24 (if n < 0 then 0xff else 0) ++ (leBytes 8 n.toUInt64.toNat).reverse

def hashOutput (output : VmOutput) : Bytes32 :=
  core.keccak256 (abiEncodeInt256 (returnValueI64 output.returnValue))

def computePublicInputsSha256WithPolicyHash (programHash : Bytes32) (inputValue : LuaValue)
    (oracleTape : OracleTape) (output : VmOutput) (policyHash : Bytes32) : PublicInputs where
  programHash := programHash
  inputHash := hashInput core inputValue
  toolResponsesHash := core.commitmentHashSha256 oracleTape
  outputHash := hashOutput core output
  attestationHash := core.attestationCommitmentSha256 oracleTape
  policyHash := policyHash

end

end ProvenoZk.Zkvm
