import ProvenoZk.Foundation.Text

/-! The Lua values that cross the host boundary. -/
namespace ProvenoZk.Proveno
open Foundation

/-- A Lua string is a byte string. -/
structure LuaString where
  bytes : List UInt8
  deriving DecidableEq

namespace LuaString

def fromStr (s : String) : LuaString := ⟨utf8 s⟩

def asBytes (s : LuaString) : List UInt8 := s.bytes

end LuaString

inductive LuaKey where
  | boolean (value : Bool)
  | integer (value : Int64)
  | string (value : LuaString)
  deriving DecidableEq

def LuaKey.before : LuaKey → LuaKey → Prop
  | .boolean a, .boolean b => a = false ∧ b = true
  | .boolean _, .integer _ => True
  | .boolean _, .string _ => True
  | .integer a, .integer b => a < b
  | .integer _, .string _ => True
  | .string a, .string b => a.bytes < b.bytes
  | .integer _, .boolean _ => False
  | .string _, .boolean _ => False
  | .string _, .integer _ => False

theorem LuaKey.not_before_of_before {a b : LuaKey} (h : a.before b) : ¬ b.before a := by
  intro hback
  cases a <;> cases b <;> unfold before at h hback
  case boolean.boolean => exact absurd (h.2.symm.trans hback.1) (by decide)
  case integer.integer => exact Int64.lt_asymm h hback
  case string.string => exact List.lt_asymm h hback
  all_goals first | exact h | exact hback

theorem LuaKey.not_before_self (key : LuaKey) : ¬ key.before key := fun h =>
  not_before_of_before h h

inductive LuaValue where
  | nil
  | boolean (value : Bool)
  | integer (value : Int64)
  | string (value : LuaString)
  | table (entries : List (LuaKey × LuaValue))
  | function (prototype : Nat)

mutual

/-- Of all the lists that hold the entries of one table, the one in key order without
duplicates and without nil, and so in the tables inside it. -/
def LuaValue.Canonical : LuaValue → Prop
  | .table entries => entries.Pairwise (fun e f => e.1.before f.1) ∧ canonicalEntries entries
  | _ => True

def canonicalEntries : List (LuaKey × LuaValue) → Prop
  | [] => True
  | (_, value) :: rest => (value ≠ .nil ∧ value.Canonical) ∧ canonicalEntries rest

end

@[ext] structure LuaTable where
  entries : List (LuaKey × LuaValue)
  canonical : (LuaValue.table entries).Canonical

namespace LuaTable

def new : LuaTable := ⟨[], .nil, trivial⟩

def get (table : LuaTable) (key : LuaKey) : Option LuaValue :=
  table.entries.lookup key

theorem get_eq_some_iff {table : LuaTable} {key : LuaKey} {value : LuaValue} :
    table.get key = some value ↔ (key, value) ∈ table.entries := by
  unfold get
  rw [List.lookup_eq_some_iff]
  constructor
  · rintro ⟨before, behind, h, -⟩
    rw [h]
    exact List.mem_append_right _ List.mem_cons_self
  · intro h
    obtain ⟨before, behind, hsplit⟩ := List.append_of_mem h
    refine ⟨before, behind, hsplit, ?_⟩
    intro entry hentry
    have hsorted := table.canonical.1
    rw [hsplit] at hsorted
    have hbefore : entry.1.before key :=
      (List.pairwise_append.mp hsorted).2.2 entry hentry _ List.mem_cons_self
    rw [bne_iff_ne]
    rintro rfl
    exact LuaKey.not_before_self _ hbefore

/-- One list for each table: a table is determined by what it maps its keys to. -/
theorem eq_of_get_eq {a b : LuaTable} (h : ∀ key, a.get key = b.get key) : a = b := by
  have hmem : ∀ entry, entry ∈ a.entries ↔ entry ∈ b.entries := by
    intro entry
    rw [← get_eq_some_iff, ← get_eq_some_iff, h]
  have hnodup : ∀ table : LuaTable, table.entries.Nodup := by
    intro table
    refine table.canonical.1.imp ?_
    rintro e _ hbefore rfl
    exact LuaKey.not_before_self _ hbefore
  have hperm := (List.perm_ext_iff_of_nodup (hnodup a) (hnodup b)).mpr hmem
  refine LuaTable.ext (hperm.eq_of_pairwise ?_ a.canonical.1 b.canonical.1)
  intro e f _ _ hef hfe
  exact (LuaKey.not_before_of_before hef hfe).elim

end LuaTable

/-- A call a program makes to its host: `tool.call(name, args)`. -/
structure ToolCall where
  name : String
  args : LuaTable

/-- What `HostInterface::call_tool` returns. -/
abbrev Reply := Except String LuaTable

end ProvenoZk.Proveno
