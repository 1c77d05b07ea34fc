import Mathlib.Tactic

/-! Results of code that returns an error or panics. Both backends' sources are
written in a language where an index out of bounds, a subtraction below zero or
a bad slice aborts the program, so the models keep that outcome apart from an
ordinary error. -/
namespace ProvenoZk.Foundation

inductive Fault (ε : Type) where
  | failed (error : ε)
  | panicked
  deriving DecidableEq

abbrev Outcome (ε α : Type) := Except (Fault ε) α

abbrev Bytes32 := Vector UInt8 32

namespace Fault

/-- `map_err`: rewrites a returned error and leaves a panic alone. -/
def map (f : ε → δ) : Fault ε → Fault δ
  | .failed error => .failed (f error)
  | .panicked => .panicked

def Returned : Fault ε → Prop
  | .failed _ => True
  | .panicked => False

@[simp] theorem not_returned_panicked : ¬ (Fault.panicked : Fault ε).Returned := id

end Fault

theorem except_bind_eq_ok {x : Except ε α} {k : α → Except ε β} {b : β} :
    (x >>= k) = .ok b ↔ ∃ a, x = .ok a ∧ k a = .ok b := by
  change Except.bind x k = _ ↔ _
  cases x <;> simp [Except.bind]

theorem exceptT_bind_eq_ok {σ : Type} {x : ExceptT ε (StateM σ) α} {f : α → ExceptT ε (StateM σ) β}
    {s t : σ} {b : β} :
    (x >>= f).run.run s = (.ok b, t) ↔
      ∃ a middle, x.run.run s = (.ok a, middle) ∧ (f a).run.run middle = (.ok b, t) := by
  have hbind : (x >>= f).run.run s =
      (ExceptT.bindCont f (x.run.run s).1).run (x.run.run s).2 := rfl
  rw [hbind]
  cases hx : x.run.run s with
  | mk result middle =>
    cases result with
    | error e =>
      constructor
      · exact nofun
      · rintro ⟨_, _, hfirst, _⟩
        cases hfirst
    | ok a =>
      constructor
      · exact fun hrest => ⟨a, middle, rfl, hrest⟩
      · rintro ⟨_, _, hfirst, hrest⟩
        cases hfirst
        exact hrest

theorem except_map_eq_ok {f : α → β} {x : Except ε α} {b : β} :
    x.map f = .ok b ↔ ∃ a, x = .ok a ∧ f a = b := by
  cases x <;> simp [Except.map]

theorem mapError_eq_ok {f : ε → δ} {x : Except ε α} {a : α} :
    x.mapError f = .ok a ↔ x = .ok a := by
  cases x <;> simp [Except.mapError]

theorem length_window {xs : List α} {off n : Nat} (h : off + n ≤ xs.length) :
    ((xs.drop off).take n).length = n := by
  rw [List.length_take, List.length_drop]
  omega

namespace Outcome

def index (xs : List α) (i : Nat) : Outcome ε α :=
  match xs[i]? with
  | some x => .ok x
  | none => .error .panicked

def set {n : Nat} (xs : Vector α n) (i : Nat) (x : α) : Outcome ε (Vector α n) :=
  if i < n then .ok (xs.setIfInBounds i x) else .error .panicked

/-- `&xs[start..stop]`. -/
def slice (xs : List α) (start stop : Nat) : Outcome ε (List α) :=
  if start ≤ stop ∧ stop ≤ xs.length then .ok ((xs.drop start).take (stop - start))
  else .error .panicked

/-- `a - b` on unsigned integers. -/
def sub (a b : Nat) : Outcome ε Nat :=
  if b ≤ a then .ok (a - b) else .error .panicked

/-- `[0; n].copy_from_slice(xs)`, which demands equal lengths. -/
def copyFromSlice (n : Nat) (xs : List α) : Outcome ε (List α) :=
  if xs.length = n then .ok xs else .error .panicked

/-- `?` on a function that returns its errors and does not panic. -/
def ofExcept : Except ε α → Outcome ε α
  | .ok a => .ok a
  | .error e => .error (.failed e)

def mapErr (f : ε → δ) : Outcome ε α → Outcome δ α
  | .ok a => .ok a
  | .error fault => .error (fault.map f)

theorem ofExcept_eq_ok {x : Except ε α} {a : α} : ofExcept x = .ok a ↔ x = .ok a := by
  cases x <;> simp [ofExcept]

theorem mapErr_eq_ok {f : ε → δ} {x : Outcome ε α} {a : α} : x.mapErr f = .ok a ↔ x = .ok a := by
  cases x <;> simp [mapErr]

theorem bind_eq_ok {x : Outcome ε α} {k : α → Outcome ε β} {b : β} :
    (x >>= k) = .ok b ↔ ∃ a, x = .ok a ∧ k a = .ok b :=
  except_bind_eq_ok

theorem slice_eq_ok {xs : List α} {start stop : Nat} (hstart : start ≤ stop)
    (hstop : stop ≤ xs.length) :
    (slice xs start stop : Outcome ε (List α)) = .ok ((xs.drop start).take (stop - start)) := by
  simp [slice, hstart, hstop]

theorem slice_window {xs : List α} {off n : Nat} (h : off + n ≤ xs.length) :
    (slice xs off (off + n) : Outcome ε (List α)) = .ok ((xs.drop off).take n) := by
  rw [slice_eq_ok (Nat.le_add_right off n) h, Nat.add_sub_cancel_left]

theorem sub_eq_ok {a b : Nat} (h : b ≤ a) : (sub a b : Outcome ε Nat) = .ok (a - b) := by
  simp [sub, h]

theorem copyFromSlice_eq_ok {n : Nat} {xs : List α} (h : xs.length = n) :
    (copyFromSlice n xs : Outcome ε (List α)) = .ok xs := by
  simp [copyFromSlice, h]

end Outcome

/-- The two widths of `usize` the code is built for: the RISC-V guest and the host. -/
inductive Target where
  | guest32
  | host64
  deriving DecidableEq

def Target.usizeRange : Target → Nat
  | .guest32 => 2 ^ 32
  | .host64 => 2 ^ 64

theorem Target.le_usizeRange (target : Target) : 2 ^ 32 ≤ target.usizeRange := by
  cases target <;> decide

def Target.checkedAdd (target : Target) (a b : Nat) : Option Nat :=
  if a + b < target.usizeRange then some (a + b) else none

def Target.asUsize (target : Target) (n : Nat) : Nat :=
  n % target.usizeRange

theorem Target.asUsize_le (target : Target) (n : Nat) : target.asUsize n ≤ n :=
  Nat.mod_le _ _

theorem Target.asUsize_of_lt (target : Target) {n : Nat} (h : n < 2 ^ 32) :
    target.asUsize n = n :=
  Nat.mod_eq_of_lt (Nat.lt_of_lt_of_le h target.le_usizeRange)

/-- `a + b` on `usize`: a build with overflow checks panics where one without wraps. -/
def Target.add (target : Target) (overflowChecks : Bool) (a b : Nat) : Outcome ε Nat :=
  if a + b < target.usizeRange then .ok (a + b)
  else if overflowChecks then .error .panicked
  else .ok (target.asUsize (a + b))

theorem Target.add_eq_ok {target : Target} {a b : Nat} (overflowChecks : Bool)
    (h : a + b < target.usizeRange) :
    (target.add overflowChecks a b : Outcome ε Nat) = .ok (a + b) := by
  rw [Target.add, if_pos h]

theorem Target.add_overflow {target : Target} {a b : Nat} (h : ¬ a + b < target.usizeRange) :
    (target.add true a b : Outcome ε Nat) = .error .panicked := by
  rw [Target.add, if_neg h, if_pos rfl]

end ProvenoZk.Foundation
