import ProvenoZk.Contracts.Layout
import ProvenoZk.Foundation.Session
import ProvenoZk.Noir.ProverToml

/-! `NoirProver`: `nargo` and `bb` run on the files of one circuit directory. A proof is a
value for the caller, but `verify` hands `bb` the files that the latest `prove` left, and
never the proof it is given. -/
namespace ProvenoZk.Drivers
open Foundation Noir

structure NoirPublicInputs where
  programHash : Bytes32
  inputHash : Bytes32
  toolResponsesHash : Bytes32
  outputHash : Bytes32
  attestationHash : Bytes32
  policyHash : Bytes32
  deriving DecidableEq

structure NoirProof where
  proofBytes : List UInt8
  publicInputs : NoirPublicInputs
  /-- In nanoseconds. -/
  proveDuration : Nat

inductive IoError where
  | notFound
  | other (message : String)

inductive ProveError where
  | nargoNotFound
  | bbNotFound
  | executeFailed (message : String)
  | writeVkFailed (message : String)
  | proveFailed (message : String)
  | verifyFailed (message : String)
  | io (error : IoError)

/-! The files. -/

/-- A file and when it was written, on file systems that tell. -/
structure File where
  bytes : List UInt8
  modified : Option Nat

/-- What is read and written below `circuit_dir`; the last five are in `target`. -/
structure CircuitDir where
  proverToml : Option String := none
  bytecode : Option File := none
  witness : Option (List UInt8) := none
  vk : Option File := none
  proof : Option (List UInt8) := none
  publicInputs : Option (List UInt8) := none

structure Exit where
  success : Bool
  stderr : List UInt8

def Exit.message (exit : Exit) : String := fromUtf8Lossy exit.stderr

/-- What the outside does during one call of `prove`: how each command ends, and the files
it leaves behind if it ran. -/
structure ProveRun where
  nargoAvailable : Bool
  bbAvailable : Bool
  writeToml : Except IoError Unit
  execute : Except IoError Exit
  executeLeaves : Option File × Option (List UInt8)
  vkMetadata : Except IoError Unit
  bytecodeMetadata : Except IoError Unit
  writeVk : Except IoError Exit
  writeVkLeaves : Option File
  prove : Except IoError Exit
  proveLeaves : Option (List UInt8) × Option (List UInt8)
  proveDuration : Nat
  readProof : Except IoError Unit

/-- The same for one call of `verify`, which leaves no files. The exit status is the check's. -/
structure VerifyRun where
  bbAvailable : Bool
  spawn : Except IoError Unit
  stderr : List UInt8

/-- `bb verify` on a verification key, a proof and the public inputs. -/
abbrev Check := List UInt8 → List UInt8 → List UInt8 → Bool

/-- A call that may fail half way: the files it wrote stay. -/
abbrev Command := ExceptT ProveError (StateM CircuitDir)

namespace NoirProver

def command (missing : ProveError) (failed : String → ProveError) (process : Except IoError Exit)
    (leaves : CircuitDir → CircuitDir) : Command Unit :=
  match process with
  | .error .notFound => throw missing
  | .error e => throw (.io e)
  | .ok exit => do
    modify leaves
    if ¬ exit.success then throw (failed exit.message)

def vkNeedsRefresh (run : ProveRun) (dir : CircuitDir) : Except ProveError Bool :=
  match run.vkMetadata, dir.vk with
  | .error .notFound, _ => .ok true
  | .error e, _ => .error (.io e)
  | .ok _, none => .ok true
  | .ok _, some vk =>
    match run.bytecodeMetadata, dir.bytecode with
    | .error e, _ => .error (.io e)
    | .ok _, none => .error (.io .notFound)
    | .ok _, some bytecode =>
      match vk.modified, bytecode.modified with
      | some vkTime, some bytecodeTime => .ok (vkTime < bytecodeTime)
      | _, _ => .ok true

def readProof (run : ProveRun) (dir : CircuitDir) : Except ProveError (List UInt8) :=
  match run.readProof, dir.proof with
  | .error e, _ => .error (.io e)
  | .ok _, none => .error (.io .notFound)
  | .ok _, some bytes => .ok bytes

def available (missing : ProveError) (answers : Bool) : Command Unit :=
  if answers then pure () else throw missing

def writeToml (run : ProveRun) (witness : NoirWitness) : Command Unit :=
  match run.writeToml with
  | .error e => throw (.io e)
  | .ok _ => modify fun dir => { dir with proverToml := some (writeProverToml witness) }

def refreshVk (run : ProveRun) : Command Unit := do
  if ← vkNeedsRefresh run (← get) then
    command .bbNotFound .writeVkFailed run.writeVk fun dir => { dir with vk := run.writeVkLeaves }

def prove (run : ProveRun) (witness : NoirWitness) : Command NoirProof := do
  available .nargoNotFound run.nargoAvailable
  available .bbNotFound run.bbAvailable
  writeToml run witness
  command .nargoNotFound .executeFailed run.execute fun dir =>
    { dir with bytecode := run.executeLeaves.1, witness := run.executeLeaves.2 }
  refreshVk run
  command .bbNotFound .proveFailed run.prove fun dir =>
    { dir with proof := run.proveLeaves.1, publicInputs := run.proveLeaves.2 }
  let proofBytes ← readProof run (← get)
  return {
    proofBytes
    publicInputs := {
      programHash := witness.programHash
      inputHash := witness.inputHash
      toolResponsesHash := witness.toolResponsesHash
      outputHash := witness.outputHash
      attestationHash := witness.attestationHash
      policyHash := witness.policyHash }
    proveDuration := run.proveDuration }

def bbVerify (check : Check) (dir : CircuitDir) : Bool :=
  match dir.vk, dir.proof, dir.publicInputs with
  | some vk, some proof, some publicInputs => check vk.bytes proof publicInputs
  | _, _, _ => false

/-- The proof is not looked at. -/
def verify (check : Check) (run : VerifyRun) (dir : CircuitDir) (_proof : NoirProof) :
    Except ProveError Bool :=
  if ¬ run.bbAvailable then .error .bbNotFound
  else match run.spawn with
    | .error .notFound => .error .bbNotFound
    | .error e => .error (.io e)
    | .ok _ =>
      if ¬ bbVerify check dir then
        let msg := fromUtf8Lossy run.stderr
        -- a failed but well-formed verification, told apart by its wording
        if "invalid".toList <:+: msg.toList ∨ "verification failed".toList <:+: msg.toList then
          .ok false
        else .error (.verifyFailed msg)
      else .ok true

/-! Runs of calls on one directory. -/

inductive Call where
  | prove (run : ProveRun) (witness : NoirWitness)
  | verify (run : VerifyRun) (proof : NoirProof)

inductive Answer where
  | proved (result : Except ProveError NoirProof)
  | verified (result : Except ProveError Bool)

def serve (check : Check) : Service CircuitDir Call Answer
  | .prove run witness, dir =>
    let (result, dir) := (prove run witness).run.run dir
    (.proved result, dir)
  | .verify run proof, dir => (.verified (verify check run dir proof), dir)

structure Reaches (run : VerifyRun) : Prop where
  available : run.bbAvailable = true
  spawned : run.spawn = .ok ()

theorem verify_eq_ok_true {check : Check} {run : VerifyRun} {dir : CircuitDir} {p : NoirProof} :
    verify check run dir p = .ok true ↔ Reaches run ∧ bbVerify check dir = true := by
  unfold verify
  dsimp only
  by_cases havailable : run.bbAvailable = true
  · rw [if_neg (not_not_intro havailable)]
    cases hspawn : run.spawn with
    | error e =>
      have hreaches : ¬ Reaches run := fun h => by simp [h.spawned] at hspawn
      cases e <;> simp [hreaches]
    | ok u =>
      have hreaches : Reaches run := ⟨havailable, hspawn⟩
      cases hverify : bbVerify check dir with
      | true => simp [hreaches]
      | false =>
        simp only [Bool.false_eq_true, not_false_eq_true, if_true, and_false, iff_false]
        split_ifs <;> exact nofun
  · have hreaches : ¬ Reaches run := fun h => havailable h.available
    simp [havailable, hreaches]

theorem bbVerify_eq_true {check : Check} {dir : CircuitDir} :
    bbVerify check dir = true ↔ ∃ vk proof publicInputs, dir.vk = some vk ∧
      dir.proof = some proof ∧ dir.publicInputs = some publicInputs ∧
      check vk.bytes proof publicInputs = true := by
  unfold bbVerify
  cases dir.vk <;> cases dir.proof <;> cases dir.publicInputs <;> simp

/-! What `verify` should say of a proof, and when the directory lets it. -/

/-- The file `bb prove` writes: the words of the public wire, one after the other. -/
def publicInputsFile (inputs : Contracts.PublicInputs) : List UInt8 :=
  inputs.words.flatMap Vector.toList

def sixHashes (inputs : Contracts.PublicInputs) : NoirPublicInputs where
  programHash := inputs.programHash
  inputHash := inputs.inputHash
  toolResponsesHash := inputs.toolResponsesHash
  outputHash := inputs.outputHash
  attestationHash := inputs.attestationHash
  policyHash := inputs.policyHash

/-- The proof's own bytes pass against public inputs that have the proof's hashes. -/
def Passes (check : Check) (dir : CircuitDir) (p : NoirProof) : Prop :=
  ∃ vk inputs, dir.vk = some vk ∧ sixHashes inputs = p.publicInputs ∧
    check vk.bytes p.proofBytes (publicInputsFile inputs) = true

structure Holds (dir : CircuitDir) (p : NoirProof) : Prop where
  proof : ∀ bytes ∈ dir.proof, bytes = p.proofBytes
  publicInputs : ∀ bytes ∈ dir.publicInputs,
    ∃ inputs, bytes = publicInputsFile inputs ∧ sixHashes inputs = p.publicInputs

def Complete (dir : CircuitDir) : Prop :=
  dir.vk.isSome ∧ dir.proof.isSome ∧ dir.publicInputs.isSome

/-- `verify` has said yes only to proofs that pass. -/
def Sound (check : Check) (dir : CircuitDir) (calls : List Call) : Prop :=
  ∀ e ∈ (serve check).exchanges calls dir, ∀ run p, e.query = .verify run p →
    e.reply = .verified (.ok true) → Passes check e.before p

/-- The calls with the directory each of them finds; no check has a part in it. -/
def visits (calls : List Call) (dir : CircuitDir) : List (CircuitDir × Call) :=
  (serve fun _ _ _ => false).visits calls dir

/-- Wherever `bb verify` runs on a complete directory, the files are the given proof's. -/
def Current (dir : CircuitDir) (calls : List Call) : Prop :=
  ∀ v ∈ visits calls dir, ∀ run p, v.2 = .verify run p → Reaches run → Complete v.1 → Holds v.1 p

theorem map_exchanges (check : Check) (calls : List Call) (dir : CircuitDir) :
    ((serve check).exchanges calls dir).map (fun e => (e.before, e.query)) = visits calls dir := by
  rw [Service.map_exchanges]
  apply Service.visits_congr
  intro call dir
  cases call <;> rfl

theorem passes_of_holds {check : Check} {run : VerifyRun} {dir : CircuitDir} {p : NoirProof}
    (hcurrent : Reaches run → Complete dir → Holds dir p) (h : verify check run dir p = .ok true) :
    Passes check dir p := by
  obtain ⟨hreaches, hverify⟩ := verify_eq_ok_true.mp h
  obtain ⟨vk, proof, publicInputs, hvk, hproof, hinputs, hcheck⟩ := bbVerify_eq_true.mp hverify
  have hholds := hcurrent hreaches (by simp [Complete, hvk, hproof, hinputs])
  obtain ⟨inputs, rfl, hhashes⟩ := hholds.publicInputs publicInputs hinputs
  rw [hholds.proof proof hproof] at hcheck
  exact ⟨vk, inputs, hvk, hhashes, hcheck⟩

theorem sound_of_current {dir : CircuitDir} {calls : List Call} (h : Current dir calls)
    (check : Check) : Sound check dir calls := by
  intro e he run p hquery hreply
  have hvisit : (e.before, e.query) ∈ visits calls dir := by
    rw [← map_exchanges check]
    exact List.mem_map_of_mem he
  rw [Service.reply_of_mem_exchanges he, hquery] at hreply
  exact passes_of_holds (h _ hvisit run p hquery) (Answer.verified.inj hreply)

/-! A proof that was just made. -/

theorem command_eq_ok {missing : ProveError} {failed : String → ProveError}
    {process : Except IoError Exit} {leaves : CircuitDir → CircuitDir} {dir dir' : CircuitDir}
    (h : (command missing failed process leaves).run.run dir = (.ok (), dir')) :
    dir' = leaves dir := by
  unfold command at h
  match process with
  | .error .notFound => cases h
  | .error (.other message) => cases h
  | .ok exit =>
    obtain ⟨_, middle, hmodify, hexit⟩ := exceptT_bind_eq_ok.mp h
    cases hmodify
    by_cases hsuccess : exit.success = true
    · rw [if_neg (not_not_intro hsuccess)] at hexit
      exact (Prod.mk.inj hexit).2.symm
    · rw [if_pos hsuccess] at hexit
      exact absurd (Prod.mk.inj hexit).1 nofun

theorem readProof_eq_ok {run : ProveRun} {dir : CircuitDir} {bytes : List UInt8}
    (h : readProof run dir = .ok bytes) : dir.proof = some bytes := by
  unfold readProof at h
  split at h
  · cases h
  · cases h
  · cases h
    assumption

theorem prove_eq_ok {run : ProveRun} {w : NoirWitness} {dir dir' : CircuitDir} {p : NoirProof}
    (h : (prove run w).run.run dir = (.ok p, dir')) :
    dir'.proof = some p.proofBytes ∧ dir'.publicInputs = run.proveLeaves.2 ∧
      p.publicInputs = sixHashes (Contracts.publicInputs w) := by
  unfold prove at h
  obtain ⟨_, _, _, h⟩ := exceptT_bind_eq_ok.mp h
  obtain ⟨_, _, _, h⟩ := exceptT_bind_eq_ok.mp h
  obtain ⟨_, _, _, h⟩ := exceptT_bind_eq_ok.mp h
  obtain ⟨_, _, _, h⟩ := exceptT_bind_eq_ok.mp h
  obtain ⟨_, _, _, h⟩ := exceptT_bind_eq_ok.mp h
  obtain ⟨_, after, hprove, h⟩ := exceptT_bind_eq_ok.mp h
  obtain ⟨_, _, hget, h⟩ := exceptT_bind_eq_ok.mp h
  cases hget
  obtain ⟨_, _, hread, h⟩ := exceptT_bind_eq_ok.mp h
  cases hbytes : readProof run after with
  | error e =>
    rw [hbytes] at hread
    cases hread
  | ok bytes =>
    rw [hbytes] at hread
    cases hread
    cases h
    refine ⟨readProof_eq_ok hbytes, ?_, rfl⟩
    rw [command_eq_ok hprove]

def only (vk proof publicInputs : List UInt8) : Check := fun a b c =>
  a = vk ∧ b = proof ∧ c = publicInputs

theorem holds_of_passes {vk : File} {dir : CircuitDir} {proof publicInputs : List UInt8}
    {p : NoirProof} (hproof : dir.proof = some proof) (hinputs : dir.publicInputs = some publicInputs)
    (h : Passes (only vk.bytes proof publicInputs) dir p) : Holds dir p := by
  obtain ⟨_, inputs, _, hhashes, hcheck⟩ := h
  obtain ⟨_, hbytes, hfile⟩ := of_decide_eq_true hcheck
  exact
    { proof := by
        intro bytes h
        rw [hproof] at h
        rw [hbytes, Option.some.inj h]
      publicInputs := by
        intro bytes h
        rw [hinputs] at h
        exact ⟨inputs, by rw [hfile, Option.some.inj h], hhashes⟩ }

/-- In a run of `prove` and `verify` on one directory, whatever the check is, `verify` says yes
only to proofs that pass it exactly when the files each `bb verify` finds are those of the
proof it is asked about. -/
theorem sound_iff_current (dir : CircuitDir) (calls : List Call) :
    (∀ check, Sound check dir calls) ↔ Current dir calls := by
  constructor
  · intro hsound v hv run p hquery hreaches hcomplete
    obtain ⟨vk, hvk⟩ := Option.isSome_iff_exists.mp hcomplete.1
    obtain ⟨proof, hproof⟩ := Option.isSome_iff_exists.mp hcomplete.2.1
    obtain ⟨publicInputs, hinputs⟩ := Option.isSome_iff_exists.mp hcomplete.2.2
    let check := only vk.bytes proof publicInputs
    rw [← map_exchanges check] at hv
    obtain ⟨e, he, rfl⟩ := List.mem_map.mp hv
    have hverify : bbVerify check e.before = true :=
      bbVerify_eq_true.mpr ⟨vk, proof, publicInputs, hvk, hproof, hinputs, by simp [check, only]⟩
    have hreply : e.reply = .verified (.ok true) := by
      rw [Service.reply_of_mem_exchanges he, show e.query = .verify run p from hquery]
      exact congrArg Answer.verified (verify_eq_ok_true.mpr ⟨hreaches, hverify⟩)
    exact holds_of_passes hproof hinputs (hsound check e he run p hquery hreply)
  · exact sound_of_current

/-! Everything works, and the caller alters the proof before asking about it. -/

def smoothProve : ProveRun where
  nargoAvailable := true
  bbAvailable := true
  writeToml := .ok ()
  execute := .ok ⟨true, []⟩
  executeLeaves := (some ⟨[1], some 1⟩, some [2])
  vkMetadata := .error .notFound
  bytecodeMetadata := .ok ()
  writeVk := .ok ⟨true, []⟩
  writeVkLeaves := some ⟨[3], some 2⟩
  prove := .ok ⟨true, []⟩
  proveLeaves := (some [4], some (publicInputsFile (Contracts.publicInputs .zeroed)))
  proveDuration := 1000
  readProof := .ok ()

def smoothVerify : VerifyRun where
  bbAvailable := true
  spawn := .ok ()
  stderr := []

def tampered : NoirProof where
  proofBytes := [5]
  publicInputs := sixHashes (Contracts.publicInputs .zeroed)
  proveDuration := 1000

/-- `verify` says yes to bytes that the check refuses under every key and every input. -/
theorem not_sound_tampered :
    ¬ Sound (fun _ proof _ => proof = [4]) {}
      [.prove smoothProve .zeroed, .verify smoothVerify tampered] := by
  intro h
  obtain ⟨_, _, _, _, hcheck⟩ := h ⟨((prove smoothProve .zeroed).run.run {}).2,
    .verify smoothVerify tampered, .verified (.ok true), _⟩
    (List.mem_cons_of_mem _ (List.mem_singleton.mpr rfl)) smoothVerify tampered rfl rfl
  have hbytes : tampered.proofBytes = [4] := of_decide_eq_true hcheck
  exact absurd hbytes (by decide)

end NoirProver

end ProvenoZk.Drivers
