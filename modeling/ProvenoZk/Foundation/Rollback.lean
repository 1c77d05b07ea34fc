import ProvenoZk.Foundation.Run

/-! Worlds under calls that nest and may be reverted. A call that is open keeps the
world it was made in, and reverting it restores that world whatever happened
inside; an action happens at once, in whatever call is innermost. -/
namespace ProvenoZk.Foundation

structure Nested (ω : Type) where
  world : ω
  /-- The worlds the open calls were made in, innermost first. -/
  frames : List ω

namespace Nested

inductive Label (α κ : Type) where
  | act (action : α)
  | call (call : κ)
  | commit
  | revert

variable {ω α κ : Type} {act : ω → α → ω → Prop} {call : ω → κ → ω → Prop}

inductive Step (act : ω → α → ω → Prop) (call : ω → κ → ω → Prop) :
    Nested ω → Label α κ → Nested ω → Prop where
  | act {world next : ω} {frames : List ω} {action : α} :
      act world action next → Step act call ⟨world, frames⟩ (.act action) ⟨next, frames⟩
  | call {world next : ω} {frames : List ω} {made : κ} :
      call world made next → Step act call ⟨world, frames⟩ (.call made) ⟨next, world :: frames⟩
  | commit {world frame : ω} {frames : List ω} :
      Step act call ⟨world, frame :: frames⟩ .commit ⟨world, frames⟩
  | revert {world frame : ω} {frames : List ω} :
      Step act call ⟨world, frame :: frames⟩ .revert ⟨frame, frames⟩

/-- A step that leaves at least `depth` calls open. -/
def StepAbove (act : ω → α → ω → Prop) (call : ω → κ → ω → Prop) (depth : Nat) (c : Nested ω)
    (label : Label α κ) (next : Nested ω) : Prop :=
  Step act call c label next ∧ depth ≤ next.frames.length

/-- `P` here and in every world a call opened above `base` would restore. -/
def Above (P : ω → Prop) (base : List ω) (c : Nested ω) : Prop :=
  P c.world ∧ ∃ inner, c.frames = inner ++ base ∧ ∀ frame ∈ inner, P frame

section

variable {P : ω → Prop} {base : List ω} {c next : Nested ω}

theorem above_self (h : P c.world) : Above P c.frames c :=
  ⟨h, [], rfl, by simp⟩

/-- The calls below the given depth are neither committed nor reverted, so what the
action or call preserves is preserved. -/
theorem StepAbove.preserves {label : Label α κ}
    (hact : ∀ {w a w'}, label = .act a → P w → act w a w' → P w')
    (hcall : ∀ {w k w'}, label = .call k → P w → call w k w' → P w')
    (habove : Above P base c) (hstep : StepAbove act call base.length c label next) :
    Above P base next := by
  obtain ⟨hworld, inner, hframes, hinner⟩ := habove
  obtain ⟨hstep, hdepth⟩ := hstep
  have htop : ∀ {frame : ω} {frames : List ω}, frame :: frames = inner ++ base →
      base.length ≤ frames.length →
        ∃ rest, inner = frame :: rest ∧ frames = rest ++ base := by
    intro frame frames heq hlen
    cases inner with
    | nil =>
      rw [List.nil_append] at heq
      rw [← heq, List.length_cons] at hlen
      omega
    | cons first rest =>
      obtain ⟨rfl, rfl⟩ := List.cons.inj heq
      exact ⟨rest, rfl, rfl⟩
  cases hstep with
  | act hmove => exact ⟨hact rfl hworld hmove, inner, hframes, hinner⟩
  | @call world _ _ _ hmove =>
    refine ⟨hcall rfl hworld hmove, world :: inner, congrArg _ hframes, ?_⟩
    exact List.forall_mem_cons.mpr ⟨hworld, hinner⟩
  | commit =>
    obtain ⟨rest, rfl, hrest⟩ := htop hframes hdepth
    exact ⟨hworld, rest, hrest, (List.forall_mem_cons.mp hinner).2⟩
  | revert =>
    obtain ⟨rest, rfl, hrest⟩ := htop hframes hdepth
    have hall := List.forall_mem_cons.mp hinner
    exact ⟨hall.1, rest, hrest, hall.2⟩

variable {labels : List (Label α κ)}

theorem run_above (hrun : Run (StepAbove act call base.length) c labels next)
    (hact : ∀ {w a w'}, .act a ∈ labels → P w → act w a w' → P w')
    (hcall : ∀ {w k w'}, .call k ∈ labels → P w → call w k w' → P w')
    (habove : Above P base c) : Above P base next := by
  apply hrun.preserves _ habove
  intro state label after hlabel habove hstep
  apply hstep.preserves _ _ habove
  · rintro _ _ _ rfl
    exact hact hlabel
  · rintro _ _ _ rfl
    exact hcall hlabel

theorem run_preserves (hrun : Run (Step act call) c labels next)
    (hact : ∀ {w a w'}, .act a ∈ labels → P w → act w a w' → P w')
    (hcall : ∀ {w k w'}, .call k ∈ labels → P w → call w k w' → P w') (hworld : P c.world)
    (hframes : ∀ frame ∈ c.frames, P frame) : P next.world ∧ ∀ frame ∈ next.frames, P frame := by
  have hall : ∀ {c : Nested ω}, Above P [] c ↔ P c.world ∧ ∀ frame ∈ c.frames, P frame := by
    simp [Above]
  rw [← hall]
  apply hrun.preserves _ (hall.mpr ⟨hworld, hframes⟩)
  intro state label after hlabel habove hstep
  apply StepAbove.preserves _ _ habove ⟨hstep, Nat.zero_le _⟩
  · rintro _ _ _ rfl
    exact hact hlabel
  · rintro _ _ _ rfl
    exact hcall hlabel

end

theorem eq_of_reverted {c opened inside after : Nested ω} {made : κ} {labels : List (Label α κ)}
    (hopen : Step act call c (.call made) opened)
    (hrun : Run (StepAbove act call opened.frames.length) opened labels inside)
    (hdepth : inside.frames.length = opened.frames.length)
    (hrevert : Step act call inside .revert after) : after = c := by
  have habove := run_above (P := fun _ => True) hrun (fun _ _ _ => trivial)
    (fun _ _ _ => trivial) (above_self trivial)
  obtain ⟨-, inner, hinner, -⟩ := habove
  have hnil : inner = [] := by
    rw [hinner, List.length_append] at hdepth
    exact List.eq_nil_of_length_eq_zero (by omega)
  rw [hnil, List.nil_append] at hinner
  cases hopen
  cases hrevert
  simp only [List.cons.injEq] at hinner
  rw [hinner.1, hinner.2]

end Nested

end ProvenoZk.Foundation
