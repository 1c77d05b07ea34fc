import ProvenoZk.Foundation.Text
import Mathlib.Tactic

/-! JSON values as a tree with ordered object entries, and what it means for two
of them to be the same value. Numbers are whatever the JSON library uses for
them; what its printer guarantees about tokens is a `JsonRenderer`. -/
namespace ProvenoZk.Foundation

inductive Json (N : Type) where
  | null
  | bool (value : Bool)
  | number (value : N)
  | string (value : String)
  | array (items : List (Json N))
  | object (entries : List (String × Json N))

namespace Json

variable {N : Type}

theorem induction_members {P : Json N → Prop}
    (null : P .null) (bool : ∀ b, P (.bool b)) (number : ∀ n, P (.number n))
    (string : ∀ s, P (.string s))
    (array : ∀ items, (∀ v ∈ items, P v) → P (.array items))
    (object : ∀ entries, (∀ e ∈ entries, P e.2) → P (.object entries)) (v : Json N) : P v := by
  refine @Json.rec N P (fun items => ∀ v ∈ items, P v) (fun entries => ∀ e ∈ entries, P e.2)
    (fun e => P e.2) null bool number string array object ?_ ?_ ?_ ?_ ?_ v
  · exact fun v hv => absurd hv List.not_mem_nil
  · exact fun head tail hhead htail => List.forall_mem_cons.mpr ⟨hhead, htail⟩
  · exact fun e he => absurd he List.not_mem_nil
  · exact fun head tail hhead htail => List.forall_mem_cons.mpr ⟨hhead, htail⟩
  · exact fun _ _ h => h

/-- No object of the tree has a key twice, as a map cannot. -/
inductive DistinctKeys : Json N → Prop where
  | null : DistinctKeys .null
  | bool (b : Bool) : DistinctKeys (.bool b)
  | number (n : N) : DistinctKeys (.number n)
  | string (s : String) : DistinctKeys (.string s)
  | array {items : List (Json N)} (members : ∀ v ∈ items, DistinctKeys v) :
      DistinctKeys (.array items)
  | object {entries : List (String × Json N)} (keys : (entries.map Prod.fst).Nodup)
      (members : ∀ e ∈ entries, DistinctKeys e.2) : DistinctKeys (.object entries)

theorem distinctKeys_empty : (Json.object ([] : List (String × Json N))).DistinctKeys :=
  .object List.nodup_nil (List.forall_mem_nil _)

theorem distinctKeys_none : ∀ v ∈ (none : Option (Json N)), v.DistinctKeys :=
  fun _ h => nomatch h

/-- Equal up to the order of object entries, at every depth. -/
inductive Equiv : Json N → Json N → Prop where
  | null : Equiv .null .null
  | bool (b : Bool) : Equiv (.bool b) (.bool b)
  | number (n : N) : Equiv (.number n) (.number n)
  | string (s : String) : Equiv (.string s) (.string s)
  | array {items items' : List (Json N)} (members : List.Forall₂ Equiv items items') :
      Equiv (.array items) (.array items')
  | object {entries entries' aligned aligned' : List (String × Json N)}
      (perm : entries.Perm aligned) (perm' : entries'.Perm aligned')
      (keys : aligned.map Prod.fst = aligned'.map Prod.fst)
      (members : List.Forall₂ Equiv (aligned.map Prod.snd) (aligned'.map Prod.snd)) :
      Equiv (.object entries) (.object entries')

end Json

/-! Tokens. -/

/-- The inside of a JSON string: a quote or a backslash occurs only after a backslash. -/
inductive StringBody : List Char → Prop where
  | nil : StringBody []
  | plain {c : Char} {cs : List Char} (hquote : c ≠ '"') (hescape : c ≠ '\\')
      (tail : StringBody cs) : StringBody (c :: cs)
  | escaped (c : Char) {cs : List Char} (tail : StringBody cs) : StringBody ('\\' :: c :: cs)

theorem StringBody.delimited {cs ds r s : List Char} (hcs : StringBody cs) (hds : StringBody ds)
    (h : cs ++ '"' :: r = ds ++ '"' :: s) : cs = ds ∧ r = s := by
  induction hcs generalizing ds with
  | nil =>
    cases hds with
    | nil => exact ⟨rfl, List.tail_eq_of_cons_eq h⟩
    | plain hquote => exact absurd (List.head_eq_of_cons_eq h).symm hquote
    | escaped => exact absurd (List.head_eq_of_cons_eq h) (by decide)
  | plain hquote hescape tail ih =>
    cases hds with
    | nil => exact absurd (List.head_eq_of_cons_eq h) hquote
    | plain _ _ tail' =>
      obtain ⟨htail, hrest⟩ := ih tail' (List.tail_eq_of_cons_eq h)
      exact ⟨by rw [htail, List.head_eq_of_cons_eq h], hrest⟩
    | escaped => exact absurd (List.head_eq_of_cons_eq h) hescape
  | escaped c tail ih =>
    cases hds with
    | nil => exact absurd (List.head_eq_of_cons_eq h) (by decide)
    | plain _ hescape => exact absurd (List.head_eq_of_cons_eq h).symm hescape
    | escaped c' tail' =>
      have h := List.tail_eq_of_cons_eq h
      obtain ⟨htail, hrest⟩ := ih tail' (List.tail_eq_of_cons_eq h)
      exact ⟨by rw [htail, List.head_eq_of_cons_eq h], hrest⟩

def isNumberChar (c : Char) : Bool := c.isDigit || "+-.eE".toList.contains c

/-- What a JSON number token looks like: a digit or a minus sign, and no delimiter after it. -/
structure NumberToken (cs : List Char) : Prop where
  lead : ∃ c rest, cs = c :: rest ∧ (c.isDigit ∨ c = '-')
  chars : ∀ c ∈ cs, isNumberChar c

def EndsNumber (cs : List Char) : Prop := ∀ c ∈ cs.head?, isNumberChar c = false

theorem NumberToken.delimited {cs ds r s : List Char} (hcs : ∀ c ∈ cs, isNumberChar c)
    (hds : ∀ c ∈ ds, isNumberChar c) (hr : EndsNumber r) (hs : EndsNumber s)
    (h : cs ++ r = ds ++ s) : cs = ds ∧ r = s := by
  induction cs generalizing ds with
  | nil =>
    cases ds with
    | nil => exact ⟨rfl, h⟩
    | cons d ds =>
      have hlead : r.head? = some d := by
        rw [show r = d :: ds ++ s from h]
        rfl
      exact absurd (hds d (by simp)) (by rw [hr d hlead]; decide)
  | cons c cs ih =>
    cases ds with
    | nil =>
      have hlead : s.head? = some c := by
        rw [show s = c :: cs ++ r from h.symm]
        rfl
      exact absurd (hcs c (by simp)) (by rw [hs c hlead]; decide)
    | cons d ds =>
      obtain ⟨htail, hrest⟩ := ih (fun c hc => hcs c (by simp [hc]))
        (fun d hd => hds d (by simp [hd])) (List.tail_eq_of_cons_eq h)
      exact ⟨by rw [htail, List.head_eq_of_cons_eq h], hrest⟩

/-- A JSON library's printer: strings become quoted string tokens and numbers
number tokens, different values different tokens. -/
structure JsonRenderer (N : Type) where
  string : String → String
  number : N → String
  stringToken : ∀ s, ∃ body, (string s).toList = '"' :: body ++ ['"'] ∧ StringBody body
  string_injective : Function.Injective string
  numberToken : ∀ n, NumberToken (number n).toList
  number_injective : Function.Injective number

namespace JsonRenderer

variable {N : Type} (R : JsonRenderer N)

theorem string_delimited {s t : String} {r r' : List Char}
    (h : (R.string s).toList ++ r = (R.string t).toList ++ r') : s = t ∧ r = r' := by
  obtain ⟨body, hs, hbody⟩ := R.stringToken s
  obtain ⟨body', ht, hbody'⟩ := R.stringToken t
  simp only [hs, ht, List.cons_append, List.append_assoc] at h
  obtain ⟨hsame, hrest⟩ := hbody.delimited hbody' (List.tail_eq_of_cons_eq h)
  have htoken : R.string s = R.string t := by
    apply String.toList_inj.mp
    rw [hs, ht, hsame]
  exact ⟨R.string_injective htoken, hrest⟩

theorem number_delimited {n m : N} {r r' : List Char} (hr : EndsNumber r) (hr' : EndsNumber r')
    (h : (R.number n).toList ++ r = (R.number m).toList ++ r') : n = m ∧ r = r' := by
  obtain ⟨hsame, hrest⟩ := NumberToken.delimited (R.numberToken n).chars
    (R.numberToken m).chars hr hr' h
  exact ⟨R.number_injective (String.toList_inj.mp hsame), hrest⟩

end JsonRenderer

/-! A printer for JSON over the integers: decimal numbers, and strings with the
escapes that JSON demands. -/

/-- Two characters where JSON has a short form, `\u00XX` for the other control characters. -/
def escapeChar (c : Char) : List Char :=
  match c with
  | '"' => ['\\', '"']
  | '\\' => ['\\', '\\']
  | '\x08' => ['\\', 'b']
  | '\t' => ['\\', 't']
  | '\n' => ['\\', 'n']
  | '\x0c' => ['\\', 'f']
  | '\r' => ['\\', 'r']
  | c =>
    if c.toNat < 0x20 then
      ['\\', 'u', '0', '0', Nat.digitChar (c.toNat / 16), Nat.digitChar (c.toNat % 16)]
    else [c]

def hexValue (digit : Char) : Nat := "0123456789abcdef".toList.idxOf digit

def unescape : List Char → Char × List Char
  | '\\' :: 'u' :: '0' :: '0' :: high :: low :: rest =>
    (Char.ofNat (16 * hexValue high + hexValue low), rest)
  | '\\' :: 'b' :: rest => ('\x08', rest)
  | '\\' :: 't' :: rest => ('\t', rest)
  | '\\' :: 'n' :: rest => ('\n', rest)
  | '\\' :: 'f' :: rest => ('\x0c', rest)
  | '\\' :: 'r' :: rest => ('\r', rest)
  | '\\' :: c :: rest => (c, rest)
  | c :: rest => (c, rest)
  | [] => (' ', [])

theorem hexValue_digitChar :
    ∀ n < 32, 16 * hexValue (Nat.digitChar (n / 16)) + hexValue (Nat.digitChar (n % 16)) = n := by
  decide

theorem digitChar_plain : ∀ n < 16, Nat.digitChar n ≠ '"' ∧ Nat.digitChar n ≠ '\\' := by
  decide

theorem unescape_escapeChar (c : Char) (rest : List Char) :
    unescape (escapeChar c ++ rest) = (c, rest) := by
  unfold escapeChar
  split
  any_goals rfl
  split_ifs with hcontrol
  · change (Char.ofNat _, rest) = _
    rw [hexValue_digitChar _ hcontrol, Char.ofNat_toNat]
  · rename_i hquote hescape _ _ _ _ _
    rw [List.singleton_append]
    unfold unescape
    split <;> simp_all

theorem stringBody_escapeChar (c : Char) {cs : List Char} (h : StringBody cs) :
    StringBody (escapeChar c ++ cs) := by
  unfold escapeChar
  split
  any_goals exact .escaped _ h
  split_ifs with hcontrol
  · obtain ⟨hhigh, hhigh'⟩ := digitChar_plain (c.toNat / 16) (by omega)
    obtain ⟨hlow, hlow'⟩ := digitChar_plain (c.toNat % 16) (by omega)
    apply StringBody.escaped
    apply StringBody.plain (by decide) (by decide)
    apply StringBody.plain (by decide) (by decide)
    exact .plain hhigh hhigh' (.plain hlow hlow' h)
  · rename_i hquote hescape _ _ _ _ _
    exact .plain hquote hescape h

theorem flatMap_escapeChar_injective : Function.Injective (List.flatMap escapeChar) := by
  have hne (c : Char) (cs : List Char) : [] ≠ escapeChar c ++ cs := by
    unfold escapeChar
    split <;> (try split_ifs) <;> simp
  intro cs ds h
  induction cs generalizing ds with
  | nil =>
    cases ds with
    | nil => rfl
    | cons d ds => exact absurd h (hne d _)
  | cons c cs ih =>
    cases ds with
    | nil => exact absurd h.symm (hne c _)
    | cons d ds =>
      have hfirst := congrArg unescape h
      rw [List.flatMap_cons, List.flatMap_cons, unescape_escapeChar, unescape_escapeChar] at hfirst
      obtain ⟨hc, hcs⟩ := Prod.mk.inj hfirst
      rw [hc, ih hcs]

def decimal : Int → String
  | .ofNat n => n.repr
  | .negSucc n => "-" ++ (n + 1).repr

theorem isDigit_of_mem_repr {n : Nat} {c : Char} (hc : c ∈ n.repr.toList) : c.isDigit = true := by
  rw [Nat.toList_repr] at hc
  exact Nat.isDigit_of_mem_toDigits (by decide) (by decide) hc

theorem repr_lead (n : Nat) : ∃ c rest, n.repr.toList = c :: rest ∧ c.isDigit = true := by
  cases h : n.repr.toList with
  | nil =>
    rw [Nat.toList_repr] at h
    exact absurd h Nat.toDigits_ne_nil
  | cons c rest =>
    have hmem : c ∈ n.repr.toList := by simp [h]
    exact ⟨c, rest, rfl, isDigit_of_mem_repr hmem⟩

theorem numberToken_repr (n : Nat) : NumberToken n.repr.toList where
  lead := by
    obtain ⟨c, rest, hlead, hdigit⟩ := repr_lead n
    exact ⟨c, rest, hlead, .inl hdigit⟩
  chars := by
    intro c hc
    simp [isNumberChar, isDigit_of_mem_repr hc]

theorem repr_injective : Function.Injective Nat.repr := by
  intro n m h
  have hdigits := congrArg (fun s => Nat.ofDigitChars 10 s.toList 0) h
  simpa only [Nat.toList_repr, Nat.ofDigitChars_ten_toDigits] using hdigits

theorem decimal_injective : Function.Injective decimal := by
  have hsign (n m : Nat) : n.repr ≠ "-" ++ m.repr := by
    intro h
    have hmem : '-' ∈ n.repr.toList := by
      rw [h]
      simp
    exact absurd (isDigit_of_mem_repr hmem) (by decide)
  intro a b h
  cases a with
  | ofNat n =>
    cases b with
    | ofNat m => rw [repr_injective h]
    | negSucc m => exact absurd h (hsign n (m + 1))
  | negSucc n =>
    cases b with
    | ofNat m => exact absurd h.symm (hsign m (n + 1))
    | negSucc m =>
      have hchars := congrArg String.toList h
      simp only [decimal, String.toList_append, List.append_cancel_left_eq,
        String.toList_inj] at hchars
      rw [Nat.succ.inj (repr_injective hchars)]

def integerRenderer : JsonRenderer Int where
  string := fun s => String.ofList ('"' :: s.toList.flatMap escapeChar ++ ['"'])
  number := decimal
  stringToken := by
    intro s
    refine ⟨s.toList.flatMap escapeChar, String.toList_ofList, ?_⟩
    induction s.toList with
    | nil => exact .nil
    | cons c cs ih => exact stringBody_escapeChar c ih
  string_injective := by
    intro s t h
    have hchars := congrArg String.toList h
    simp only [String.toList_ofList, List.cons_append, List.cons.injEq, true_and,
      List.append_left_inj] at hchars
    exact String.toList_inj.mp (flatMap_escapeChar_injective hchars)
  numberToken := by
    intro a
    cases a with
    | ofNat n => exact numberToken_repr n
    | negSucc n =>
      have htoken := numberToken_repr (n + 1)
      refine ⟨⟨'-', (n + 1).repr.toList, by simp [decimal], .inr rfl⟩, ?_⟩
      intro c hc
      simp only [decimal, String.toList_append, List.mem_append] at hc
      rcases hc with hc | hc
      · obtain rfl : c = '-' := by simpa using hc
        decide
      · exact htoken.chars c hc
  number_injective := decimal_injective

end ProvenoZk.Foundation
