import ProvenoZk.Foundation.Json

/-! The part of TOML that holds decimal integers and inline arrays of them: a printer, a
reader, and values that carry a type. The reader takes any spacing the grammar allows,
and what the printer writes reads back. -/
namespace ProvenoZk.Foundation

inductive Toml where
  | integer (value : Int)
  | array (items : List Toml)

namespace Toml

mutual
def print : Toml → String
  | .integer value => decimal value
  | .array items => "[" ++ ", ".intercalate (printItems items) ++ "]"

def printItems : List Toml → List String
  | [] => []
  | item :: items => print item :: printItems items
end

theorem printItems_eq (items : List Toml) : printItems items = items.map print := by
  induction items with
  | nil => rfl
  | cons item items ih => rw [printItems, ih, List.map_cons]

theorem print_array (items : List Toml) :
    print (.array items) = "[" ++ ", ".intercalate (items.map print) ++ "]" := by
  rw [print, printItems_eq]

/-! The reader. -/

def readNat (cs : List Char) : Option (Nat × List Char) :=
  let digits := cs.takeWhile Char.isDigit
  if digits = [] ∨ digits.head? = some '0' ∧ digits ≠ ['0'] then none
  else some (Nat.ofDigitChars 10 digits 0, cs.dropWhile Char.isDigit)

def readInteger : List Char → Option (Int × List Char)
  | '-' :: cs => (readNat cs).map fun (n, rest) => (-n, rest)
  | '+' :: cs => (readNat cs).map fun (n, rest) => (n, rest)
  | cs => (readNat cs).map fun (n, rest) => (n, rest)

/-- Blanks, and inside an array also line ends. -/
def skipBlank (cs : List Char) : List Char :=
  cs.dropWhile fun c => c = ' ' ∨ c = '\t'

def skipLines (cs : List Char) : List Char :=
  cs.dropWhile fun c => c = ' ' ∨ c = '\t' ∨ c = '\n'

mutual
/-- The fuel bounds the depth and the number of items; the length of a text is enough. -/
def readValue : Nat → List Char → Option (Toml × List Char)
  | 0, _ => none
  | fuel + 1, '[' :: cs =>
    (readItems fuel (skipLines cs)).map fun (items, rest) => (.array items, rest)
  | _ + 1, cs => (readInteger cs).map fun (value, rest) => (.integer value, rest)

/-- Behind the opening bracket or a comma; a comma may be the last thing in an array. -/
def readItems : Nat → List Char → Option (List Toml × List Char)
  | 0, _ => none
  | _ + 1, ']' :: cs => some ([], cs)
  | fuel + 1, cs => do
    let (item, cs) ← readValue fuel cs
    match skipLines cs with
    | ',' :: cs =>
      let (items, cs) ← readItems fuel (skipLines cs)
      return (item :: items, cs)
    | ']' :: cs => return ([item], cs)
    | _ => none
end

def isBareKeyChar (c : Char) : Bool := c.isAlphanum || c = '_' || c = '-'

def readEntry (cs : List Char) : Option ((String × Toml) × List Char) :=
  let cs := skipBlank cs
  let key := cs.takeWhile isBareKeyChar
  match skipBlank (cs.dropWhile isBareKeyChar) with
  | '=' :: cs => do
    let cs := skipBlank cs
    let (value, cs) ← readValue cs.length cs
    if key = [] then none
    else
      match skipBlank cs with
      | [] => return ((.ofList key, value), [])
      | '\n' :: cs => return ((.ofList key, value), cs)
      | _ => none
  | _ => none

/-- A key may not be given twice. -/
def readEntries : Nat → List Char → Option (List (String × Toml))
  | _, [] => some []
  | 0, _ => none
  | fuel + 1, cs => do
    let (entry, cs) ← readEntry cs
    let entries ← readEntries fuel cs
    if entry.1 ∈ entries.map Prod.fst then none else return entry :: entries

def readDocument (text : String) : Option (List (String × Toml)) :=
  readEntries text.toList.length text.toList

def printEntry (e : String × Toml) : String := e.1 ++ " = " ++ print e.2 ++ "\n"

def printDocument (entries : List (String × Toml)) : String :=
  String.join (entries.map printEntry)

/-! What the printer writes reads back, in front of anything that does not continue it. -/

def EndsDigits (rest : List Char) : Prop := ∀ c ∈ rest.head?, c.isDigit = false

theorem endsDigits_cons {c : Char} {rest : List Char} (hc : c.isDigit = false) :
    EndsDigits (c :: rest) := by
  intro c' hc'
  obtain rfl : c = c' := Option.some.inj hc'
  exact hc

theorem takeWhile_of_endsDigits {rest : List Char} (hrest : EndsDigits rest) :
    rest.takeWhile Char.isDigit = [] ∧ rest.dropWhile Char.isDigit = rest := by
  cases rest with
  | nil => exact ⟨rfl, rfl⟩
  | cons c rest =>
    have hc : ¬ c.isDigit = true := by simp [hrest c rfl]
    exact ⟨List.takeWhile_cons_of_neg hc, List.dropWhile_cons_of_neg hc⟩

theorem digitChar_eq_zero : ∀ d < 10, Nat.digitChar d = '0' → d = 0 := by decide

theorem eq_zero_of_head?_toDigits (n : Nat) (hhead : (Nat.toDigits 10 n).head? = some '0') :
    n = 0 := by
  induction n using Nat.strong_induction_on with
  | _ n ih =>
    by_cases hn : n < 10
    · rw [Nat.toDigits_of_lt_base hn] at hhead
      exact digitChar_eq_zero n hn (Option.some.inj hhead)
    · rw [Nat.toDigits_of_base_le (by decide) (Nat.le_of_not_lt hn)] at hhead
      rw [List.head?_append_of_ne_nil _ Nat.toDigits_ne_nil] at hhead
      have hquot := ih (n / 10) (by omega) hhead
      omega

theorem readNat_repr (n : Nat) {rest : List Char} (hrest : EndsDigits rest) :
    readNat (n.repr.toList ++ rest) = some (n, rest) := by
  obtain ⟨htake, hdrop⟩ := takeWhile_of_endsDigits hrest
  have hdigits : ∀ c ∈ Nat.toDigits 10 n, c.isDigit = true := by
    intro c hc
    rw [← Nat.toList_repr] at hc
    exact isDigit_of_mem_repr hc
  have hlead : ¬ (Nat.toDigits 10 n = [] ∨
      (Nat.toDigits 10 n).head? = some '0' ∧ Nat.toDigits 10 n ≠ ['0']) := by
    rintro (hnil | ⟨hhead, hzero⟩)
    · exact Nat.toDigits_ne_nil hnil
    · obtain rfl := eq_zero_of_head?_toDigits n hhead
      exact hzero rfl
  rw [Nat.toList_repr, readNat, List.takeWhile_append_of_pos hdigits,
    List.dropWhile_append_of_pos hdigits, htake, hdrop, List.append_nil]
  simp only [if_neg hlead, Nat.ofDigitChars_ten_toDigits]

theorem readInteger_of_digit {c : Char} {cs : List Char} (hc : c.isDigit = true) :
    readInteger (c :: cs) = (readNat (c :: cs)).map fun (n, rest) => ((n : Int), rest) := by
  unfold readInteger
  split
  · next heq =>
    obtain ⟨rfl, _⟩ := List.cons.inj heq
    exact absurd hc (by decide)
  · next heq =>
    obtain ⟨rfl, _⟩ := List.cons.inj heq
    exact absurd hc (by decide)
  · rfl

theorem readInteger_decimal (value : Int) {rest : List Char} (hrest : EndsDigits rest) :
    readInteger ((decimal value).toList ++ rest) = some (value, rest) := by
  cases value with
  | ofNat n =>
    obtain ⟨c, cs, htext, hc⟩ := repr_lead n
    have hread := readNat_repr n hrest
    rw [decimal, htext, List.cons_append, readInteger_of_digit hc, ← List.cons_append, ← htext,
      hread]
    rfl
  | negSucc n =>
    rw [decimal, String.toList_append, List.append_assoc]
    change (readNat ((n + 1).repr.toList ++ rest)).map _ = _
    rw [readNat_repr (n + 1) hrest]
    rfl

def printJoined (items : List Toml) : List Char := (", ".intercalate (items.map print)).toList

theorem toList_print_array (items : List Toml) :
    (print (.array items)).toList = '[' :: (printJoined items ++ [']']) := by
  rw [print_array, String.toList_append, String.toList_append, printJoined]
  rfl

def isLead (c : Char) : Bool := c.isDigit || c = '-' || c = '['

theorem print_lead (value : Toml) : ∃ c rest, (print value).toList = c :: rest ∧ isLead c := by
  cases value with
  | integer value =>
    cases value with
    | ofNat n =>
      obtain ⟨c, rest, htext, hc⟩ := repr_lead n
      exact ⟨c, rest, htext, by simp [isLead, hc]⟩
    | negSucc n => exact ⟨'-', (n + 1).repr.toList, by simp [print, decimal], rfl⟩
  | array items => exact ⟨'[', _, toList_print_array items, rfl⟩

theorem not_blank_of_lead {c : Char} (hc : isLead c) : ¬ (c = ' ' ∨ c = '\t' ∨ c = '\n') := by
  rintro (rfl | rfl | rfl) <;> revert hc <;> decide

theorem skipBlank_cons_of_lead {c : Char} (hc : isLead c) (cs : List Char) :
    skipBlank (c :: cs) = c :: cs := by
  apply List.dropWhile_cons_of_neg
  simp only [decide_eq_true_eq]
  exact fun h => not_blank_of_lead hc (h.imp_right .inl)

theorem skipLines_cons_of_lead {c : Char} (hc : isLead c) (cs : List Char) :
    skipLines (c :: cs) = c :: cs := by
  apply List.dropWhile_cons_of_neg
  simp only [decide_eq_true_eq]
  exact not_blank_of_lead hc

theorem printJoined_singleton (item : Toml) : printJoined [item] = (print item).toList := by
  simp [printJoined]

theorem printJoined_cons_cons (item next : Toml) (items : List Toml) :
    printJoined (item :: next :: items) =
      (print item).toList ++ ',' :: ' ' :: printJoined (next :: items) := by
  simp [printJoined, String.intercalate_cons_cons]

theorem printJoined_lead (item : Toml) (items : List Toml) :
    ∃ c rest, printJoined (item :: items) = c :: rest ∧ isLead c := by
  obtain ⟨c, rest, htext, hc⟩ := print_lead item
  cases items with
  | nil => exact ⟨c, rest, by rw [printJoined_singleton, htext], hc⟩
  | cons next items =>
    exact ⟨c, _, by rw [printJoined_cons_cons, htext, List.cons_append], hc⟩

theorem readValue_of_lead {c : Char} {cs : List Char} (hc : c ≠ '[') (fuel : Nat) :
    readValue (fuel + 1) (c :: cs) =
      (readInteger (c :: cs)).map fun (value, rest) => (.integer value, rest) := by
  rw [readValue]
  intro cs' hcs
  exact hc (List.cons.inj hcs).1

theorem readItems_of_lead {c : Char} {cs : List Char} (hc : isLead c) (fuel : Nat) :
    readItems (fuel + 1) (c :: cs) =
      (readValue fuel (c :: cs)).bind fun (item, cs) =>
        match skipLines cs with
        | ',' :: cs => (readItems fuel (skipLines cs)).bind fun (items, cs) => some (item :: items, cs)
        | ']' :: cs => some ([item], cs)
        | _ => none := by
  rw [readItems]
  · rfl
  intro cs' hcs
  obtain ⟨rfl, _⟩ := List.cons.inj hcs
  exact absurd hc (by decide)

theorem readValue_print_integer (value : Int) {fuel : Nat} {rest : List Char}
    (hfuel : 0 < fuel) (hrest : EndsDigits rest) :
    readValue fuel ((print (.integer value)).toList ++ rest) = some (.integer value, rest) := by
  obtain ⟨fuel, rfl⟩ := Nat.exists_eq_add_of_lt hfuel
  have hread := readInteger_decimal value hrest
  obtain ⟨c, cs, htext, hc⟩ : ∃ c cs, (decimal value).toList = c :: cs ∧ c ≠ '[' := by
    cases value with
    | ofNat n =>
      obtain ⟨c, cs, htext, hc⟩ := repr_lead n
      refine ⟨c, cs, htext, ?_⟩
      rintro rfl
      exact absurd hc (by decide)
    | negSucc n => exact ⟨'-', (n + 1).repr.toList, by simp [decimal], by decide⟩
  rw [htext, List.cons_append] at hread
  rw [Nat.zero_add, print, htext, List.cons_append, readValue_of_lead hc, hread]
  rfl

mutual
/-- By induction on the value: each bracket and each comma takes one unit of fuel and at
least one character. -/
theorem readValue_print (value : Toml) (fuel : Nat) (rest : List Char)
    (hfuel : (print value).toList.length ≤ fuel) (hrest : EndsDigits rest) :
    readValue fuel ((print value).toList ++ rest) = some (value, rest) := by
  obtain ⟨c, cs, htext, _⟩ := print_lead value
  match value, fuel with
  | .integer value, fuel =>
    apply readValue_print_integer value _ hrest
    rw [htext] at hfuel
    exact Nat.lt_of_lt_of_le (Nat.succ_pos _) hfuel
  | .array items, 0 => simp [htext] at hfuel
  | .array items, fuel + 1 =>
    have hitems := readItems_print items fuel rest
    rw [toList_print_array] at hfuel ⊢
    simp only [List.length_cons, List.length_append, List.length_nil] at hfuel
    rw [List.cons_append, List.append_assoc, List.singleton_append, readValue]
    have hskip : skipLines (printJoined items ++ ']' :: rest) = printJoined items ++ ']' :: rest := by
      cases items with
      | nil => rfl
      | cons item items =>
        obtain ⟨c, cs, hjoined, hc⟩ := printJoined_lead item items
        rw [hjoined, List.cons_append, skipLines_cons_of_lead hc]
    rw [hskip, hitems (by omega)]
    rfl

theorem readItems_print (items : List Toml) (fuel : Nat) (rest : List Char)
    (hfuel : (printJoined items).length + 1 ≤ fuel) :
    readItems fuel (printJoined items ++ ']' :: rest) = some (items, rest) := by
  match items, fuel with
  | _, 0 => simp at hfuel
  | [], fuel + 1 => rfl
  | [item], fuel + 1 =>
    rw [printJoined_singleton] at hfuel ⊢
    have hread := readValue_print item fuel (']' :: rest) (by omega) (endsDigits_cons (by decide))
    obtain ⟨c, cs, htext, hc⟩ := print_lead item
    rw [htext, List.cons_append] at hread ⊢
    rw [readItems_of_lead hc, hread]
    rfl
  | item :: next :: items, fuel + 1 =>
    rw [printJoined_cons_cons] at hfuel ⊢
    simp only [List.length_append, List.length_cons] at hfuel
    have hread := readValue_print item fuel
      (',' :: ' ' :: (printJoined (next :: items) ++ ']' :: rest))
      (by omega) (endsDigits_cons (by decide))
    have hitems := readItems_print (next :: items) fuel rest (by omega)
    have hskip : skipLines (' ' :: (printJoined (next :: items) ++ ']' :: rest)) =
        printJoined (next :: items) ++ ']' :: rest := by
      obtain ⟨c, cs, hjoined, hc⟩ := printJoined_lead next items
      rw [hjoined]
      exact skipLines_cons_of_lead hc _
    obtain ⟨c, cs, htext, hc⟩ := print_lead item
    rw [htext, List.cons_append] at hread
    rw [htext, List.append_assoc, List.cons_append, List.cons_append, List.cons_append,
      readItems_of_lead hc, hread]
    change (readItems fuel (skipLines (' ' :: (printJoined (next :: items) ++ ']' :: rest)))).bind
      _ = _
    rw [hskip, hitems]
    rfl
end

/-! A document: lines with bare keys, no key twice. -/

structure IsBareKey (key : String) : Prop where
  nonempty : key.toList ≠ []
  allChars : key.toList.all isBareKeyChar = true

instance (key : String) : Decidable (IsBareKey key) :=
  decidable_of_iff (key.toList ≠ [] ∧ key.toList.all isBareKeyChar = true)
    ⟨fun h => ⟨h.1, h.2⟩, fun h => ⟨h.nonempty, h.allChars⟩⟩

theorem IsBareKey.chars {key : String} (h : IsBareKey key) :
    ∀ c ∈ key.toList, isBareKeyChar c = true :=
  List.all_eq_true.mp h.allChars

theorem skipBlank_key {key : String} (hkey : IsBareKey key) (cs : List Char) :
    skipBlank (key.toList ++ cs) = key.toList ++ cs := by
  cases h : key.toList with
  | nil => exact absurd h hkey.nonempty
  | cons c rest =>
    have hc : isBareKeyChar c = true := hkey.chars c (by simp [h])
    apply List.dropWhile_cons_of_neg
    simp only [decide_eq_true_eq]
    rintro (rfl | rfl) <;> revert hc <;> decide

theorem toList_printEntry (e : String × Toml) :
    (printEntry e).toList = e.1.toList ++ ' ' :: '=' :: ' ' :: ((print e.2).toList ++ ['\n']) := by
  simp [printEntry]

theorem readEntry_printEntry {e : String × Toml} (hkey : IsBareKey e.1) (rest : List Char) :
    readEntry ((printEntry e).toList ++ rest) = some (e, rest) := by
  obtain ⟨key, value⟩ := e
  have htext : (printEntry (key, value)).toList ++ rest =
      key.toList ++ ' ' :: '=' :: ' ' :: ((print value).toList ++ '\n' :: rest) := by
    rw [toList_printEntry]
    simp
  obtain ⟨c, cs, hlead, hc⟩ := print_lead value
  have hblank : skipBlank (' ' :: ((print value).toList ++ '\n' :: rest)) =
      (print value).toList ++ '\n' :: rest := by
    rw [hlead]
    exact skipBlank_cons_of_lead hc _
  have hvalue := readValue_print value ((print value).toList ++ '\n' :: rest).length ('\n' :: rest)
    (by simp) (endsDigits_cons (by decide))
  rw [htext, readEntry, skipBlank_key hkey]
  simp only [List.takeWhile_append_of_pos hkey.chars, List.dropWhile_append_of_pos hkey.chars]
  rw [List.takeWhile_cons_of_neg (by decide), List.dropWhile_cons_of_neg (by decide),
    List.append_nil]
  change (readValue (skipBlank (' ' :: ((print value).toList ++ '\n' :: rest))).length
    (skipBlank (' ' :: ((print value).toList ++ '\n' :: rest)))).bind _ = _
  rw [hblank, hvalue]
  simp only [Option.bind_some, if_neg hkey.nonempty]
  change some ((String.ofList key.toList, value), rest) = _
  rw [String.ofList_toList]

theorem printEntry_pos (e : String × Toml) : 0 < (printEntry e).toList.length := by
  rw [toList_printEntry]
  simp

theorem toList_printDocument_cons (e : String × Toml) (entries : List (String × Toml)) :
    (printDocument (e :: entries)).toList =
      (printEntry e).toList ++ (printDocument entries).toList := by
  simp [printDocument]

theorem readEntries_printDocument (entries : List (String × Toml)) (fuel : Nat)
    (hkeys : ∀ e ∈ entries, IsBareKey e.1) (hdistinct : (entries.map Prod.fst).Nodup)
    (hfuel : (printDocument entries).toList.length ≤ fuel) :
    readEntries fuel (printDocument entries).toList = some entries := by
  induction entries generalizing fuel with
  | nil => cases fuel <;> rfl
  | cons e entries ih =>
    have hread := readEntry_printEntry (hkeys e (by simp)) (printDocument entries).toList
    have hpos := printEntry_pos e
    rw [List.map_cons, List.nodup_cons] at hdistinct
    rw [toList_printDocument_cons] at hfuel ⊢
    rw [List.length_append] at hfuel
    cases fuel with
    | zero => omega
    | succ fuel =>
      have hrest := ih fuel (fun e he => hkeys e (by simp [he])) hdistinct.2 (by omega)
      cases htext : (printEntry e).toList with
      | nil => simp [htext] at hpos
      | cons c cs =>
        rw [htext] at hread
        rw [List.cons_append] at hread ⊢
        rw [readEntries, hread]
        · change (readEntries fuel _).bind _ = _
          rw [hrest]
          exact if_neg hdistinct.1
        · exact List.cons_ne_nil _ _

theorem readDocument_printDocument {entries : List (String × Toml)}
    (hkeys : ∀ e ∈ entries, IsBareKey e.1) (hdistinct : (entries.map Prod.fst).Nodup) :
    readDocument (printDocument entries) = some entries :=
  readEntries_printDocument entries _ hkeys hdistinct (Nat.le_refl _)

/-! Values with a type, and their arrays of a fixed length. -/

structure Codec (α : Type) where
  write : α → Toml
  read : Toml → Option α
  read_write : ∀ a, read (write a) = some a

/-- An integer that is out of the type's range is refused. -/
def Codec.integer (toInt : α → Int) (ofInt : Int → α) (h : ∀ a, ofInt (toInt a) = a) :
    Codec α where
  write := fun a => .integer (toInt a)
  read
    | .integer value => if toInt (ofInt value) = value then some (ofInt value) else none
    | .array _ => none
  read_write := by
    intro a
    simp only [h, if_pos]

def Codec.u8 : Codec UInt8 :=
  .integer (fun b => b.toNat) (fun value => .ofNat value.toNat) (by simp)

def Codec.u32 : Codec UInt32 :=
  .integer (fun n => n.toNat) (fun value => .ofNat value.toNat) (by simp)

def Codec.i64 : Codec Int64 :=
  .integer Int64.toInt Int64.ofInt Int64.ofInt_toInt

theorem Codec.mapM_read_write (c : Codec α) (values : List α) :
    (values.map c.write).mapM c.read = some values := by
  induction values with
  | nil => rfl
  | cons a values ih => simp [c.read_write, ih]

def Codec.vector (n : Nat) (c : Codec α) : Codec (Vector α n) where
  write := fun values => .array (values.toList.map c.write)
  read
    | .integer _ => none
    | .array items => do
      let values ← items.mapM c.read
      if h : values.length = n then some ⟨values.toArray, by simpa using h⟩ else none
  read_write := by
    intro values
    simp [c.mapM_read_write, Vector.toList]

def Codec.readKey (c : Codec α) (key : String) (entries : List (String × Toml)) : Option α :=
  (entries.lookup key).bind c.read

end Toml

end ProvenoZk.Foundation
