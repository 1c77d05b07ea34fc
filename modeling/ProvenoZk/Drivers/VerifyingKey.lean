import Mathlib
import ProvenoZk.Drivers.NoirProver

/-! The verification key that `NoirProver` keeps between calls. It is derived anew when it
is missing or older than the bytecode, and that is all that ties it to the circuit. -/
namespace ProvenoZk.Drivers.NoirProver
open Foundation Noir Std.Do

set_option mvcgen.warning false

@[spec]
theorem lift_spec {α : Type} (x : Except ProveError α)
    (Q : PostCond α (.except ProveError (.arg CircuitDir .pure))) :
    ⦃fun dir => match x with | .ok a => Q.1 a dir | .error e => Q.2.1 e dir⦄
    (MonadLift.monadLift x : Command α) ⦃Q⦄ := by
  cases x with
  | ok a => mvcgen [MonadLift.monadLift, ExceptT.mk]
  | error e => mvcgen [MonadLift.monadLift, ExceptT.mk]

theorem run_of_triple {α : Type} {c : Command α} {P E : CircuitDir → Prop}
    {Q : α → CircuitDir → Prop}
    (htriple : ⦃fun dir => ⌜P dir⌝⦄ c ⦃post⟨fun a dir => ⌜Q a dir⌝, fun _ dir => ⌜E dir⌝⟩⦄)
    {dir next : CircuitDir} {result : Except ProveError α} (hdir : P dir)
    (h : c.run.run dir = (result, next)) :
    (∀ a, result = .ok a → Q a next) ∧ (∀ e, result = .error e → E next) := by
  have hwp := htriple dir hdir
  simp only [WP.wp, PredTrans.apply_pushExcept, PredTrans.apply_pushArg, h] at hwp
  cases result with
  | ok a => exact ⟨fun _ ha => Except.ok.inj ha ▸ hwp, nofun⟩
  | error e => exact ⟨nofun, fun _ _ => hwp⟩

theorem command_spec (missing : ProveError) (failed : String → ProveError)
    (process : Except IoError Exit) (leaves : CircuitDir → CircuitDir) {P Q E : CircuitDir → Prop}
    (hidle : ∀ dir, P dir → E dir)
    (hfail : ∀ dir exit, P dir → process = .ok exit → exit.success = false → E (leaves dir))
    (hdone : ∀ dir exit, P dir → process = .ok exit → exit.success = true → Q (leaves dir)) :
    ⦃fun dir => ⌜P dir⌝⦄ command missing failed process leaves
    ⦃post⟨fun _ dir => ⌜Q dir⌝, fun _ dir => ⌜E dir⌝⟩⦄ := by
  mvcgen [command]
  case vc1.h_1 => exact hidle _ ‹_›
  case vc2.h_2 => exact hidle _ ‹_›
  case vc3.h_3.isTrue => exact hfail _ _ ‹_› ‹_› (Bool.eq_false_of_not_eq_true ‹_›)
  case vc4.h_3.isFalse => exact hdone _ _ ‹_› ‹_› (not_not.mp ‹_›)

/-- As far as can be told the key is older than the bytecode. -/
def Stale (vk bytecode : File) : Prop :=
  ∀ vkTime ∈ vk.modified, ∀ bytecodeTime ∈ bytecode.modified, vkTime < bytecodeTime

variable (derive : List UInt8 → List UInt8)

structure Matches (bytecode : Option File) (dir : CircuitDir) : Prop where
  found : dir.bytecode = bytecode
  derived : ∀ vk ∈ dir.vk, ∀ file ∈ bytecode, vk.bytes = derive file.bytes

/-- A key that would be kept is the bytecode's. -/
def Keyed (dir : CircuitDir) : Prop :=
  ∀ vk ∈ dir.vk, ∀ bytecode ∈ dir.bytecode, ¬ Stale vk bytecode → vk.bytes = derive bytecode.bytes

/-- `nargo` leaves the bytecode as it is or writes it later than the key, and `bb` derives the
key from the bytecode it finds, or fails and leaves the old one. -/
structure Orderly (dir : CircuitDir) (run : ProveRun) : Prop where
  execute : run.executeLeaves.1 = dir.bytecode ∨
    ∀ vk ∈ dir.vk, ∀ bytecode ∈ run.executeLeaves.1, Stale vk bytecode
  writeVk : ∀ exit, run.writeVk = .ok exit →
    exit.success = false ∧ run.writeVkLeaves = dir.vk ∨
      ∀ vk ∈ run.writeVkLeaves, ∀ bytecode ∈ run.executeLeaves.1, vk.bytes = derive bytecode.bytes

variable {derive}

theorem Matches.keyed {bytecode : Option File} {dir : CircuitDir}
    (h : Matches derive bytecode dir) : Keyed derive dir := by
  intro vk hvk file hfile _
  exact h.derived vk hvk file (h.found ▸ hfile)

theorem vkNeedsRefresh_eq_false {run : ProveRun} {dir : CircuitDir}
    (h : vkNeedsRefresh run dir = .ok false) :
    ∀ vk ∈ dir.vk, ∀ bytecode ∈ dir.bytecode, ¬ Stale vk bytecode := by
  intro vk hvk bytecode hbytecode hstale
  unfold vkNeedsRefresh at h
  rw [hvk, hbytecode] at h
  cases hmetadata : run.vkMetadata with
  | error e => cases e <;> simp [hmetadata] at h
  | ok u =>
    cases hfound : run.bytecodeMetadata with
    | error e => simp [hmetadata, hfound] at h
    | ok u =>
      cases hvkTime : vk.modified with
      | none => simp [hmetadata, hfound, hvkTime] at h
      | some vkTime =>
        cases hbytecodeTime : bytecode.modified with
        | none => simp [hmetadata, hfound, hvkTime, hbytecodeTime] at h
        | some bytecodeTime =>
          have hlater := hstale vkTime hvkTime bytecodeTime hbytecodeTime
          simp [hmetadata, hfound, hvkTime, hbytecodeTime] at h
          omega

/-! What the steps of one `prove` do to the two files. -/

structure Has (vk bytecode : Option File) (dir : CircuitDir) : Prop where
  vk : dir.vk = vk
  bytecode : dir.bytecode = bytecode

section

variable {dir : CircuitDir} {run : ProveRun}

theorem Has.keyed (hdir : Keyed derive dir) {next : CircuitDir}
    (h : Has dir.vk dir.bytecode next) : Keyed derive next := by
  unfold Keyed
  rw [h.vk, h.bytecode]
  exact hdir

theorem Has.keyed_of_execute (hdir : Keyed derive dir) (horderly : Orderly derive dir run)
    {next : CircuitDir} (h : Has dir.vk run.executeLeaves.1 next) : Keyed derive next := by
  unfold Keyed
  rw [h.vk, h.bytecode]
  cases horderly.execute with
  | inl hsame =>
    rw [hsame]
    exact hdir
  | inr hlater =>
    intro vk hvk bytecode hbytecode hfresh
    exact absurd (hlater vk hvk bytecode hbytecode) hfresh

theorem available_spec (hdir : Keyed derive dir) (missing : ProveError) (answers : Bool) :
    ⦃fun next => ⌜Has dir.vk dir.bytecode next⌝⦄ available missing answers
    ⦃post⟨fun _ next => ⌜Has dir.vk dir.bytecode next⌝, fun _ next => ⌜Keyed derive next⌝⟩⦄ := by
  mvcgen [available]
  exact Has.keyed hdir ‹_›

theorem writeToml_spec (hdir : Keyed derive dir) (w : NoirWitness) :
    ⦃fun next => ⌜Has dir.vk dir.bytecode next⌝⦄ writeToml run w
    ⦃post⟨fun _ next => ⌜Has dir.vk dir.bytecode next⌝, fun _ next => ⌜Keyed derive next⌝⟩⦄ := by
  mvcgen [writeToml]
  case vc1.h_1 => exact Has.keyed hdir ‹_›
  case vc2.h_2 next hhas _ => exact ⟨hhas.vk, hhas.bytecode⟩

theorem execute_spec (hdir : Keyed derive dir) (horderly : Orderly derive dir run) :
    ⦃fun next => ⌜Has dir.vk dir.bytecode next⌝⦄
    command .nargoNotFound .executeFailed run.execute fun dir =>
      { dir with bytecode := run.executeLeaves.1, witness := run.executeLeaves.2 }
    ⦃post⟨fun _ next => ⌜Has dir.vk run.executeLeaves.1 next⌝,
      fun _ next => ⌜Keyed derive next⌝⟩⦄ := by
  apply command_spec
  · exact fun next hhas => hhas.keyed hdir
  · exact fun next exit hhas _ _ => Has.keyed_of_execute hdir horderly ⟨hhas.vk, rfl⟩
  · exact fun next exit hhas _ _ => ⟨hhas.vk, rfl⟩

theorem writeVk_spec (hdir : Keyed derive dir) (horderly : Orderly derive dir run) :
    ⦃fun next => ⌜Has dir.vk run.executeLeaves.1 next⌝⦄
    command .bbNotFound .writeVkFailed run.writeVk fun dir => { dir with vk := run.writeVkLeaves }
    ⦃post⟨fun _ next => ⌜Matches derive run.executeLeaves.1 next⌝,
      fun _ next => ⌜Keyed derive next⌝⟩⦄ := by
  have hderived {next : CircuitDir} (hhas : Has dir.vk run.executeLeaves.1 next)
      (hbytes : ∀ vk ∈ run.writeVkLeaves, ∀ bytecode ∈ run.executeLeaves.1,
        vk.bytes = derive bytecode.bytes) :
      Matches derive run.executeLeaves.1 { next with vk := run.writeVkLeaves } :=
    ⟨hhas.bytecode, hbytes⟩
  apply command_spec
  · exact fun next hhas => Has.keyed_of_execute hdir horderly hhas
  · intro next exit hhas hexit _
    cases horderly.writeVk exit hexit with
    | inl hkept => exact Has.keyed_of_execute hdir horderly ⟨hkept.2, hhas.bytecode⟩
    | inr hbytes => exact (hderived hhas hbytes).keyed
  · intro next exit hhas hexit hsuccess
    cases horderly.writeVk exit hexit with
    | inl hkept => exact absurd (hsuccess.symm.trans hkept.1) nofun
    | inr hbytes => exact hderived hhas hbytes

theorem refreshVk_spec (hdir : Keyed derive dir) (horderly : Orderly derive dir run) :
    ⦃fun next => ⌜Has dir.vk run.executeLeaves.1 next⌝⦄ refreshVk run
    ⦃post⟨fun _ next => ⌜Matches derive run.executeLeaves.1 next⌝,
      fun _ next => ⌜Keyed derive next⌝⟩⦄ := by
  mvcgen [refreshVk]
  case vc1 next hhas =>
    have hkeyed : Keyed derive next := Has.keyed_of_execute hdir horderly hhas
    cases hrefresh : vkNeedsRefresh run next with
    | error e => exact hkeyed
    | ok stale =>
      cases stale with
      | true => exact writeVk_spec hdir horderly next hhas
      | false =>
        refine ⟨hhas.bytecode, ?_⟩
        intro vk hvk bytecode hbytecode
        rw [← hhas.bytecode] at hbytecode
        apply hkeyed vk hvk bytecode hbytecode
        exact vkNeedsRefresh_eq_false hrefresh vk hvk bytecode hbytecode

theorem bbProve_spec :
    ⦃fun next => ⌜Matches derive run.executeLeaves.1 next⌝⦄
    command .bbNotFound .proveFailed run.prove fun dir =>
      { dir with proof := run.proveLeaves.1, publicInputs := run.proveLeaves.2 }
    ⦃post⟨fun _ next => ⌜Matches derive run.executeLeaves.1 next⌝,
      fun _ next => ⌜Keyed derive next⌝⟩⦄ := by
  apply command_spec
  · exact fun next hmatches => hmatches.keyed
  · exact fun next exit hmatches _ _ => hmatches.keyed
  · exact fun next exit hmatches _ _ => ⟨hmatches.found, hmatches.derived⟩

/-- A `prove` that ends well has used the key of its bytecode; one that fails at any point
leaves no other key that would be kept. -/
theorem prove_spec (hdir : Keyed derive dir) (horderly : Orderly derive dir run) (w : NoirWitness) :
    ⦃fun next => ⌜next = dir⌝⦄ prove run w
    ⦃post⟨fun _ next => ⌜Matches derive run.executeLeaves.1 next⌝,
      fun _ next => ⌜Keyed derive next⌝⟩⦄ := by
  have havailable := available_spec hdir
  have htoml := @writeToml_spec derive dir run hdir w
  have hexecute := execute_spec hdir horderly
  have hrefresh := refreshVk_spec hdir horderly
  have hprove := @bbProve_spec derive run
  mvcgen [prove, havailable, htoml, hexecute, hrefresh, hprove]
  case vc1.pre next hnext => exact hnext ▸ ⟨rfl, rfl⟩
  case vc7 next hmatches =>
    cases readProof run next with
    | error e => exact Matches.keyed hmatches
    | ok bytes => exact hmatches

theorem keyed_of_prove (hdir : Keyed derive dir) (horderly : Orderly derive dir run)
    {w : NoirWitness} {next : CircuitDir} {result : Except ProveError NoirProof}
    (h : (prove run w).run.run dir = (result, next)) : Keyed derive next := by
  obtain ⟨hok, herror⟩ := run_of_triple (prove_spec hdir horderly w) rfl h
  cases result with
  | ok p => exact (hok p rfl).keyed
  | error e => exact herror e rfl

end

theorem keyed_visits {dir : CircuitDir} (hdir : Keyed derive dir) {calls : List Call}
    (horderly : ∀ v ∈ visits calls dir, ∀ run w, v.2 = .prove run w → Orderly derive v.1 run) :
    ∀ v ∈ visits calls dir, Keyed derive v.1 := by
  apply Service.visits_invariant (P := Keyed derive) ?_ hdir horderly
  intro call dir hkeyed hcall
  cases call with
  | verify run p => exact hkeyed
  | prove run w => exact keyed_of_prove hkeyed (hcall run w rfl) rfl

/-- In any run of `prove` and `verify` on a directory without a stale key that would be kept, a
proof that was just returned is checked under the key of the bytecode that it was made with.
Every `nargo execute` is taken to leave the bytecode alone or to write one later than the key
that is there, every `bb write_vk` to write the key of the bytecode, or to fail and leave the
key that is there. -/
theorem proof_checked_under_own_key (derive : List UInt8 → List UInt8) (check : Check)
    (dir : CircuitDir) (hdir : Keyed derive dir) (calls : List Call)
    (horderly : ∀ v ∈ visits calls dir, ∀ run w, v.2 = .prove run w → Orderly derive v.1 run) :
    ∀ e ∈ (serve check).exchanges calls dir, ∀ run w p, e.query = .prove run w →
      e.reply = .proved (.ok p) →
      run.proveLeaves.2 = some (publicInputsFile (Contracts.publicInputs w)) →
      ∀ bytecode ∈ run.executeLeaves.1, ∀ verifyRun,
        verify check verifyRun e.after p = .ok true ↔
          Reaches verifyRun ∧ e.after.vk.isSome ∧
            check (derive bytecode.bytes) p.proofBytes
              (publicInputsFile (Contracts.publicInputs w)) = true := by
  intro e he run w p hquery hreply hfile bytecode hbytecode verifyRun
  have hvisit : (e.before, e.query) ∈ visits calls dir := by
    rw [← map_exchanges check]
    exact List.mem_map_of_mem he
  have hserved := Service.served_of_mem_exchanges he
  rw [hquery, hreply] at hserved
  have hproved : (prove run w).run.run e.before = (.ok p, e.after) := by
    have hresult := Answer.proved.inj (congrArg Prod.fst hserved)
    have hafter : ((prove run w).run.run e.before).2 = e.after := congrArg Prod.snd hserved
    exact Prod.ext hresult hafter
  have hkeyed := keyed_visits hdir horderly _ hvisit
  have hspec := prove_spec hkeyed (horderly _ hvisit run w hquery) w
  have hmatches := (run_of_triple hspec rfl hproved).1 p rfl
  obtain ⟨hproof, hinputs, -⟩ := prove_eq_ok hproved
  rw [verify_eq_ok_true, bbVerify_eq_true, hproof, hinputs, hfile]
  apply and_congr_right
  intro _
  cases hvk : e.after.vk with
  | none => simp
  | some vk =>
    rw [← hmatches.derived vk hvk bytecode hbytecode]
    simp

/-! The circuit is edited once its key is there, and the first attempt to derive the new one
fails. -/

def edited : ProveRun :=
  { smoothProve with
    executeLeaves := (some ⟨[7], some 3⟩, some [2])
    vkMetadata := .ok ()
    writeVkLeaves := some ⟨[9], some 4⟩ }

def refreshFails : ProveRun :=
  { edited with
    writeVk := .ok ⟨false, []⟩
    writeVkLeaves := some ⟨[3], some 2⟩ }

def editedCalls : List Call :=
  [.prove smoothProve .zeroed, .prove refreshFails .zeroed, .prove edited .zeroed]

def addTwo (bytecode : List UInt8) : List UInt8 := bytecode.map (· + 2)

theorem editedCalls_orderly : ∀ v ∈ visits editedCalls {}, ∀ run w, v.2 = .prove run w →
    Orderly addTwo v.1 run := by
  have hvisits : visits editedCalls {} =
      [({}, .prove smoothProve .zeroed),
        (((prove smoothProve .zeroed).run.run {}).2, .prove refreshFails .zeroed),
        (((prove refreshFails .zeroed).run.run
          ((prove smoothProve .zeroed).run.run {}).2).2, .prove edited .zeroed)] := rfl
  rw [hvisits]
  simp only [List.forall_mem_cons, List.not_mem_nil, IsEmpty.forall_iff, implies_true, and_true]
  refine ⟨?_, ?_, ?_⟩
  · rintro run w ⟨⟩
    exact ⟨Or.inr nofun, fun exit _ => Or.inr (by rintro _ ⟨⟩ _ ⟨⟩; rfl)⟩
  · rintro run w ⟨⟩
    refine ⟨Or.inr ?_, fun exit hexit => Or.inl ?_⟩
    · rintro _ ⟨⟩ _ ⟨⟩ _ ⟨⟩ _ ⟨⟩
      decide
    · cases hexit
      exact ⟨rfl, rfl⟩
  · rintro run w ⟨⟩
    exact ⟨Or.inl rfl, fun exit _ => Or.inr (by rintro _ ⟨⟩ _ ⟨⟩; rfl)⟩

theorem proof_checked_under_own_key_edited :
    verify (only [9] [4] (publicInputsFile (Contracts.publicInputs .zeroed))) smoothVerify
      ((serve fun _ _ _ => false).final editedCalls {})
      { tampered with proofBytes := [4] } = .ok true := by
  let check := only [9] [4] (publicInputsFile (Contracts.publicInputs .zeroed))
  have hchecked := proof_checked_under_own_key addTwo check {} (fun _ h => nomatch h) editedCalls
    editedCalls_orderly
    ⟨_, .prove edited .zeroed, .proved (.ok { tampered with proofBytes := [4] }), _⟩
    (.tail _ (.tail _ (.head _))) edited .zeroed _ rfl rfl rfl ⟨[7], some 3⟩ rfl smoothVerify
  exact hchecked.mpr ⟨⟨rfl, rfl⟩, rfl, decide_eq_true ⟨rfl, rfl, rfl⟩⟩

end ProvenoZk.Drivers.NoirProver
