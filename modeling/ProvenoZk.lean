import ProvenoZk.Contracts.Consumer
import ProvenoZk.Contracts.Reentrancy
import ProvenoZk.Drivers.GatewayReplay
import ProvenoZk.Drivers.Limits
import ProvenoZk.Drivers.NoirProver
import ProvenoZk.Drivers.OutputSchema
import ProvenoZk.Noir.Committed
import ProvenoZk.Noir.EncoderLayout
import ProvenoZk.Noir.Opening
import ProvenoZk.Noir.Payload
import ProvenoZk.Noir.PublicHashes
import ProvenoZk.Noir.ReturnValue
import ProvenoZk.Policy.Alignment
import ProvenoZk.Policy.Compatibility
import ProvenoZk.Policy.PolicyJson
import ProvenoZk.Policy.Schemas
import ProvenoZk.Verifier.Acceptance
import ProvenoZk.Verifier.Totality
import ProvenoZk.Zkvm.Consumption
import ProvenoZk.Zkvm.Digest
import ProvenoZk.Zkvm.Journal
import ProvenoZk.Drivers.OpenVmGuest
import ProvenoZk.Noir.Completeness
import ProvenoZk.Contracts.Results
import ProvenoZk.Contracts.Settlement
import ProvenoZk.Drivers.HonestProof
import ProvenoZk.Drivers.ProverHost
import ProvenoZk.Drivers.GatewayProof
import ProvenoZk.Drivers.VerifyingKey
import ProvenoZk.Drivers.NoirCommand
import ProvenoZk.Drivers.Attestations
import ProvenoZk.Drivers.Widening
import ProvenoZk.Contracts.Clearing
import ProvenoZk.Contracts.Provable
