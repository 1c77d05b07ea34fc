import Mathlib.Tactic

/-! Loops with a constant bound whose body may fail, and arrays filled from the
front. The rule asks for what the loop holds before each iteration in closed
form; one iteration then has to be checked against it once. -/
namespace ProvenoZk.Foundation

variable {σ α β : Type}

def forRange : Nat → (Nat → σ → Option σ) → σ → Option σ
  | 0, _, state => some state
  | n + 1, body, state => (forRange n body state).bind (body n)

/-- `state i` is what the loop holds before iteration `i`, and `holds i` is what
that iteration asserts. -/
theorem forRange_eq_some_iff {body : Nat → σ → Option σ} {holds : Nat → Prop} {state : Nat → σ}
    {n : Nat} (hstep : ∀ i < n, ∀ next,
      body i (state i) = some next ↔ holds i ∧ next = state (i + 1)) (final : σ) :
    forRange n body (state 0) = some final ↔ (∀ i < n, holds i) ∧ final = state n := by
  induction n generalizing final with
  | zero => simp [forRange, eq_comm]
  | succ n ih =>
    have hearlier := ih fun i hi => hstep i (Nat.lt_succ_of_lt hi)
    have hlast := hstep n (Nat.lt_succ_self n) final
    unfold forRange
    rw [Option.bind_eq_some_iff]
    constructor
    · rintro ⟨middle, hmiddle, hfinal⟩
      obtain ⟨hbefore, rfl⟩ := (hearlier middle).mp hmiddle
      obtain ⟨hhere, rfl⟩ := hlast.mp hfinal
      refine ⟨fun i hi => ?_, rfl⟩
      by_cases hin : i = n
      · rwa [hin]
      · exact hbefore i (by omega)
    · rintro ⟨hholds, hfinal⟩
      exact ⟨state n, (hearlier _).mpr ⟨fun i hi => hholds i (Nat.lt_succ_of_lt hi), rfl⟩,
        hlast.mpr ⟨hholds n (Nat.lt_succ_self n), hfinal⟩⟩

/-- `[blank; n]` with its first slots overwritten by `xs`. -/
def fill (n : Nat) (blank : α) (xs : List α) : Vector α n :=
  ⟨((xs ++ List.replicate n blank).take n).toArray, by simp⟩

@[simp] theorem getElem_fill {n : Nat} (blank : α) (xs : List α) {i : Nat} (hi : i < n) :
    (fill n blank xs)[i] = xs.getD i blank := by
  unfold fill
  by_cases h : i < xs.length
  · simp [h]
  · simp [h, List.getElem_append_right (Nat.le_of_not_lt h)]

theorem fill_nil (n : Nat) (blank : α) : fill n blank [] = Vector.replicate n blank := by
  ext i hi
  rw [getElem_fill, Vector.getElem_replicate]
  rfl

theorem setIfInBounds_fill {n : Nat} (blank : α) (xs : List α) (x : α) :
    (fill n blank xs).setIfInBounds xs.length x = fill n blank (xs ++ [x]) := by
  ext i hi
  rw [Vector.getElem_setIfInBounds, getElem_fill, getElem_fill]
  split_ifs with h
  · subst h
    simp
  · by_cases hlt : i < xs.length
    · simp [hlt, List.getElem?_append_left]
    · have hout : (xs ++ [x]).length ≤ i := by
        rw [List.length_append, List.length_singleton]
        omega
      rw [List.getD_eq_getElem?_getD, List.getD_eq_getElem?_getD, List.getElem?_eq_none hout,
        List.getElem?_eq_none (Nat.le_of_not_lt hlt)]

theorem take_fill {n : Nat} (blank : α) (xs : List α) (hlen : xs.length ≤ n) :
    (fill n blank xs).toList.take xs.length = xs := by
  apply List.ext_getElem
  · simpa using hlen
  · intro i hi hi'
    simp [hi']

theorem toList_fill {n : Nat} (blank : α) (xs : List α) (hlen : xs.length = n) :
    (fill n blank xs).toList = xs := by
  have h := take_fill blank xs (Nat.le_of_eq hlen)
  rwa [List.take_of_length_le (by simp [hlen])] at h

/-- `values` with `xs` written over it from `offset` on. -/
def overwrite {n : Nat} (values : Vector α n) (offset : Nat) (xs : List α) : Vector α n :=
  Vector.ofFn fun i =>
    if offset ≤ i.val then xs.getD (i.val - offset) values[i] else values[i]

theorem overwrite_nil {n : Nat} (values : Vector α n) (offset : Nat) :
    overwrite values offset [] = values := by
  ext i hi
  simp [overwrite]

theorem overwrite_append {n : Nat} (values : Vector α n) (offset : Nat) (xs ys : List α) :
    overwrite (overwrite values offset xs) (offset + xs.length) ys =
      overwrite values offset (xs ++ ys) := by
  ext i hi
  simp only [overwrite, Vector.getElem_ofFn, Fin.getElem_fin, List.getD_eq_getElem?_getD]
  by_cases hbefore : offset ≤ i
  · by_cases hbehind : offset + xs.length ≤ i
    · rw [if_pos hbehind, if_pos hbefore, if_pos hbefore,
        List.getElem?_eq_none (by omega : xs.length ≤ i - offset),
        List.getElem?_append_right (by omega), Nat.sub_sub]
      rfl
    · rw [if_neg hbehind, if_pos hbefore, if_pos hbefore, List.getElem?_append_left (by omega)]
  · rw [if_neg (by omega), if_neg hbefore, if_neg hbefore]

theorem overwrite_zero {n : Nat} (values other : Vector α n) :
    overwrite values 0 other.toList = other := by
  ext i hi
  simp [overwrite]

end ProvenoZk.Foundation
