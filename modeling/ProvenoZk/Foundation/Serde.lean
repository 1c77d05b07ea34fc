import ProvenoZk.Foundation.Json

/-! Derived serialization over JSON documents. A document is what the text says, with
every entry in its place; the value it reads as is a map at every object, where the last
of several entries with one key counts. -/
namespace ProvenoZk.Foundation

variable {N : Type}

namespace Json

def insertEntry (key : String) (value : Json N) :
    List (String × Json N) → List (String × Json N)
  | [] => [(key, value)]
  | e :: entries =>
    if e.1 = key then (key, value) :: entries else e :: insertEntry key value entries

mutual
def toValue : Json N → Json N
  | .null => .null
  | .bool b => .bool b
  | .number n => .number n
  | .string s => .string s
  | .array items => .array (toValues items)
  | .object entries => .object (toMap [] entries)

def toValues : List (Json N) → List (Json N)
  | [] => []
  | v :: items => toValue v :: toValues items

def toMap (map : List (String × Json N)) : List (String × Json N) → List (String × Json N)
  | [] => map
  | (key, v) :: entries => toMap (insertEntry key (toValue v) map) entries
end

theorem toValues_eq (items : List (Json N)) : toValues items = items.map toValue := by
  induction items with
  | nil => rfl
  | cons v items ih => rw [toValues, ih, List.map_cons]

theorem insertEntry_of_notMem {key : String} (value : Json N) {map : List (String × Json N)}
    (hkey : key ∉ map.map Prod.fst) : insertEntry key value map = map ++ [(key, value)] := by
  induction map with
  | nil => rfl
  | cons e map ih =>
    rw [List.map_cons, List.mem_cons, not_or] at hkey
    rw [insertEntry, if_neg (Ne.symm hkey.1), ih hkey.2, List.cons_append]

theorem keys_insertEntry (key : String) (value : Json N) (map : List (String × Json N)) :
    (insertEntry key value map).map Prod.fst =
      if key ∈ map.map Prod.fst then map.map Prod.fst else map.map Prod.fst ++ [key] := by
  induction map with
  | nil => rfl
  | cons e map ih =>
    rw [insertEntry]
    by_cases he : e.1 = key
    · simp [he]
    · rw [if_neg he, List.map_cons, ih]
      by_cases hmem : key ∈ map.map Prod.fst
      · simp [hmem]
      · simp [hmem, Ne.symm he]

theorem distinctKeys_insertEntry {key : String} {value : Json N} {map : List (String × Json N)}
    (hmap : (Json.object map).DistinctKeys) (hvalue : value.DistinctKeys) :
    (Json.object (insertEntry key value map)).DistinctKeys := by
  cases hmap with
  | object keys members =>
    constructor
    · rw [keys_insertEntry]
      by_cases hmem : key ∈ map.map Prod.fst
      · rw [if_pos hmem]
        exact keys
      · rw [if_neg hmem]
        exact List.nodup_append.mpr ⟨keys, List.nodup_singleton key, by
          intro a ha b hb
          rw [List.mem_singleton.mp hb]
          rintro rfl
          exact hmem ha⟩
    · clear keys
      induction map with
      | nil =>
        intro e he
        rw [List.mem_singleton.mp he]
        exact hvalue
      | cons e map ih =>
        rw [List.forall_mem_cons] at members
        rw [insertEntry]
        split_ifs
        · exact List.forall_mem_cons.mpr ⟨hvalue, members.2⟩
        · exact List.forall_mem_cons.mpr ⟨members.1, ih members.2⟩

theorem distinctKeys_toMap {entries : List (String × Json N)}
    (hentries : ∀ e ∈ entries, (toValue e.2).DistinctKeys) {map : List (String × Json N)}
    (hmap : (Json.object map).DistinctKeys) : (Json.object (toMap map entries)).DistinctKeys := by
  induction entries generalizing map with
  | nil => exact hmap
  | cons e entries ih =>
    rw [List.forall_mem_cons] at hentries
    exact ih hentries.2 (distinctKeys_insertEntry hmap hentries.1)

theorem distinctKeys_toValue (v : Json N) : (toValue v).DistinctKeys := by
  induction v using Json.induction_members with
  | null => exact .null
  | bool b => exact .bool b
  | number n => exact .number n
  | string s => exact .string s
  | array items ih =>
    rw [toValue, toValues_eq]
    apply DistinctKeys.array
    intro v hv
    obtain ⟨item, hitem, rfl⟩ := List.mem_map.mp hv
    exact ih item hitem
  | object entries ih =>
    exact distinctKeys_toMap ih distinctKeys_empty

theorem toMap_eq_append {entries : List (String × Json N)}
    (hentries : ∀ e ∈ entries, toValue e.2 = e.2) {map : List (String × Json N)}
    (hkeys : ((map ++ entries).map Prod.fst).Nodup) : toMap map entries = map ++ entries := by
  induction entries generalizing map with
  | nil => rw [toMap, List.append_nil]
  | cons e entries ih =>
    rw [List.forall_mem_cons] at hentries
    have hnew : e.1 ∉ map.map Prod.fst := by
      rw [List.map_append, List.nodup_append] at hkeys
      intro hmem
      exact hkeys.2.2 e.1 hmem e.1 (by simp) rfl
    rw [List.append_cons] at hkeys ⊢
    rw [toMap, hentries.1, insertEntry_of_notMem e.2 hnew]
    exact ih hentries.2 hkeys

theorem toValue_of_distinctKeys {v : Json N} (h : v.DistinctKeys) : toValue v = v := by
  induction h with
  | null => rfl
  | bool => rfl
  | number => rfl
  | string => rfl
  | array members ih =>
    rw [toValue, toValues_eq]
    exact congrArg Json.array ((List.map_congr_left ih).trans (List.map_id _))
  | object keys members ih =>
    exact congrArg Json.object (toMap_eq_append ih keys)

def read (v : Json N) : { value : Json N // value.DistinctKeys } :=
  ⟨v.toValue, v.distinctKeys_toValue⟩

end Json

/-! Errors of a derived reader, in the words that say what was expected. -/

inductive DeError where
  | invalidType (expected : String)
  | unknownVariant (variant : String)
  | duplicateField (field : String)
  | missingField (field : String)
  | invalidLength (len : Nat)
  | trailingItems

/-- The JSON library: its text, its numbers and its messages. -/
structure SerdeJson (N : Type) where
  toStringPretty : Json N → String
  fromStr : String → Except String (Json N)
  ofU64 : UInt64 → N
  asU64 : N → Option UInt64
  asU64_ofU64 : ∀ n, asU64 (ofU64 n) = some n
  /-- The message for an error met in a text. -/
  describe : String → DeError → String

def SerdeJson.ReadsBack (serde : SerdeJson N) (v : Json N) : Prop :=
  serde.fromStr (serde.toStringPretty v) = .ok v

namespace De

def string : Json N → Except DeError String
  | .string s => .ok s
  | _ => .error (.invalidType "a string")

def vec (item : Json N → Except DeError α) : Json N → Except DeError (List α)
  | .array items => items.mapM item
  | _ => .error (.invalidType "a sequence")

/-- `Option<T>`: `null` is `None`, whatever `T` reads. -/
def option (value : Json N → Except DeError α) : Json N → Except DeError (Option α)
  | .null => .ok none
  | v => (value v).map some

def usize (serde : SerdeJson N) : Json N → Except DeError UInt64
  | .number n => match serde.asU64 n with
    | some n => .ok n
    | none => .error (.invalidType "usize")
  | _ => .error (.invalidType "usize")

def map : Json N →
    Except DeError { entries : List (String × Json N) // (Json.object entries).DistinctKeys }
  | .object entries => .ok ⟨Json.toMap [] entries, (Json.object entries).distinctKeys_toValue⟩
  | _ => .error (.invalidType "a map")

/-- An enumeration without data: its name, alone or as the one key over `null`. -/
def unitVariant (variant : String → Option α) : Json N → Except DeError α
  | .string name => named name
  | .object [(name, v)] => do
    let value ← named name
    match v with
    | .null => pure value
    | _ => throw (.invalidType "unit")
  | _ => .error (.invalidType "an enum")
where
  named (name : String) : Except DeError α :=
    match variant name with
    | some value => .ok value
    | none => .error (.unknownVariant name)

def visitField (field : String) (read : Json N → Except DeError α) (slot : Option α) (v : Json N) :
    Except DeError (Option α) :=
  match slot with
  | some _ => .error (.duplicateField field)
  | none => (read v).map some

theorem visitField_none {field : String} {read : Json N → Except DeError α} {v : Json N} {a : α}
    (h : read v = .ok a) : visitField field read none v = .ok (some a) := by
  rw [visitField, h]
  rfl

/-- A field after the last entry, with the default of `serde(default)` if it has one. -/
def endField (field : String) (default : Option α) (slot : Option α) : Except DeError α :=
  match slot.or default with
  | some value => .ok value
  | none => .error (.missingField field)

/-- A field of a struct that is written as an array. -/
def element (items : List (Json N)) (i : Nat) (read : Json N → Except DeError α)
    (default : Option α) : Except DeError α :=
  match items[i]?, default with
  | some v, _ => read v
  | none, some value => .ok value
  | none, none => .error (.invalidLength i)

theorem vec_map (write : α → Json N) {item : Json N → Except DeError α}
    (h : ∀ a, item (write a) = .ok a) (values : List α) :
    vec item (.array (values.map write)) = .ok values := by
  rw [vec]
  induction values with
  | nil => rfl
  | cons a values ih =>
    rw [List.map_cons, List.mapM_cons, h, ih]
    rfl

theorem vec_string (strings : List String) :
    vec string (.array (strings.map .string) : Json N) = .ok strings :=
  vec_map .string (fun _ => rfl) strings

theorem usize_ofU64 (serde : SerdeJson N) (n : UInt64) :
    usize serde (.number (serde.ofU64 n)) = .ok n := by
  rw [usize, serde.asU64_ofU64]

theorem map_object {entries : List (String × Json N)} (h : (Json.object entries).DistinctKeys) :
    map (.object entries) = .ok ⟨entries, h⟩ := by
  have hvalue := Json.toValue_of_distinctKeys h
  rw [Json.toValue] at hvalue
  simp only [map, Json.object.inj hvalue]

end De

end ProvenoZk.Foundation
