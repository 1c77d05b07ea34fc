import Mathlib.Tactic

/-! Runs of a transition system whose labels are rows of a trace. -/
namespace ProvenoZk.Foundation

variable {σ ρ : Type} {step : σ → ρ → σ → Prop}

inductive Run (step : σ → ρ → σ → Prop) : σ → List ρ → σ → Prop where
  | done (state : σ) : Run step state [] state
  | next {state middle final : σ} {row : ρ} {rows : List ρ} :
      step state row middle → Run step middle rows final → Run step state (row :: rows) final

namespace Run

theorem snoc {state middle final : σ} {row : ρ} {rows : List ρ}
    (hrun : Run step state rows middle) (hstep : step middle row final) :
    Run step state (rows ++ [row]) final := by
  induction hrun with
  | done state => exact .next hstep (.done _)
  | next hfirst _ ih => exact .next hfirst (ih hstep)

theorem append {state middle final : σ} {rows more : List ρ}
    (hrun : Run step state rows middle) (hmore : Run step middle more final) :
    Run step state (rows ++ more) final := by
  induction hrun with
  | done state => exact hmore
  | next hfirst _ ih => exact .next hfirst (ih hmore)

theorem preserves {P : σ → Prop} {start final : σ} {rows : List ρ}
    (hrun : Run step start rows final)
    (hstep : ∀ {state row next}, row ∈ rows → P state → step state row next → P next)
    (hstart : P start) : P final := by
  induction hrun with
  | done state => exact hstart
  | next hfirst _ ih =>
    apply ih
    · intro state row next hrow
      exact hstep (List.mem_cons_of_mem _ hrow)
    · exact hstep List.mem_cons_self hstart hfirst

/-- A run read row by row, when each row names the state it leaves and the one
it enters. -/
theorem exists_iff_getElem (admits : ρ → Prop) (source target : ρ → σ)
    (hstep : ∀ state row final,
      step state row final ↔ admits row ∧ source row = state ∧ target row = final)
    (start : σ) (rows : List ρ) :
    (∃ final, Run step start rows final) ↔
      (∀ row ∈ rows.head?, source row = start) ∧ (∀ row ∈ rows, admits row) ∧
      ∀ i (hi : i + 1 < rows.length), source rows[i + 1] = target rows[i] := by
  induction rows generalizing start with
  | nil => simpa using ⟨start, .done start⟩
  | cons row rows ih =>
    constructor
    · rintro ⟨final, hrun⟩
      cases hrun with
      | next hfirst hrest =>
        obtain ⟨hadmits, hsource, htarget⟩ := (hstep _ _ _).mp hfirst
        obtain ⟨hhead, htail, hlinks⟩ := (ih _).mp ⟨final, hrest⟩
        refine ⟨by simpa using hsource, by simpa using ⟨hadmits, htail⟩, ?_⟩
        intro i hi
        cases i with
        | zero =>
          cases rows with
          | nil => simp at hi
          | cons second rows => simpa [htarget] using hhead second
        | succ i => simpa using hlinks i (by simpa using hi)
    · rintro ⟨hhead, hadmits, hlinks⟩
      have hnext : ∀ second ∈ rows.head?, source second = target row := by
        cases rows with
        | nil => simp
        | cons second rows => simpa using hlinks 0 (by simp)
      obtain ⟨final, hrest⟩ := (ih (target row)).mpr ⟨hnext,
        fun other hother => hadmits other (List.mem_cons_of_mem row hother),
        fun i hi => hlinks (i + 1) (Nat.succ_lt_succ hi)⟩
      exact ⟨final, .next ((hstep _ _ _).mpr
        ⟨hadmits row (by simp), by simpa using hhead, rfl⟩) hrest⟩

end Run

end ProvenoZk.Foundation
