import ProvenoZk.Foundation.Json

/-! The sorted-key JSON writer that schemas are hashed with. Its text determines the
value up to the order of object entries: every token and every closed bracket
delimits itself, and a number is delimited by whatever may follow it. -/
namespace ProvenoZk.Policy
open Foundation

variable {N : Type} (R : JsonRenderer N)

/-! Entries are rendered first and sorted afterwards, which lets the recursion
follow the tree; `canonicalJsonWrite_object` gives back the order of the code. -/

mutual
def canonicalJsonWrite : Json N → String
  | .null => "null"
  | .bool b => if b then "true" else "false"
  | .number n => R.number n
  | .string s => R.string s
  | .array items => "[" ++ ",".intercalate (canonicalJsonItems items) ++ "]"
  | .object entries =>
    "\x7b" ++ ",".intercalate ((sortByKey (canonicalJsonEntries entries)).map
      fun e => R.string e.1 ++ ":" ++ e.2) ++ "\x7d"

def canonicalJsonItems : List (Json N) → List String
  | [] => []
  | v :: items => canonicalJsonWrite v :: canonicalJsonItems items

def canonicalJsonEntries : List (String × Json N) → List (String × String)
  | [] => []
  | (k, v) :: entries => (k, canonicalJsonWrite v) :: canonicalJsonEntries entries
end

def canonicalJsonBytes (v : Json N) : List UInt8 := utf8 (canonicalJsonWrite R v)

theorem canonicalJsonItems_eq (items : List (Json N)) :
    canonicalJsonItems R items = items.map (canonicalJsonWrite R) := by
  induction items with
  | nil => rfl
  | cons v items ih => rw [canonicalJsonItems, ih, List.map_cons]

theorem canonicalJsonEntries_eq (entries : List (String × Json N)) :
    canonicalJsonEntries R entries = entries.map fun e => (e.1, canonicalJsonWrite R e.2) := by
  induction entries with
  | nil => rfl
  | cons e entries ih => rw [canonicalJsonEntries, ih, List.map_cons]

theorem canonicalJsonWrite_array (items : List (Json N)) :
    canonicalJsonWrite R (.array items) =
      "[" ++ ",".intercalate (items.map (canonicalJsonWrite R)) ++ "]" := by
  rw [canonicalJsonWrite, canonicalJsonItems_eq]

theorem canonicalJsonWrite_object (entries : List (String × Json N)) :
    canonicalJsonWrite R (.object entries) =
      "\x7b" ++ ",".intercalate ((sortByKey entries).map
        fun e => R.string e.1 ++ ":" ++ canonicalJsonWrite R e.2) ++ "\x7d" := by
  rw [canonicalJsonWrite, canonicalJsonEntries_eq, sortByKey_map, List.map_map]
  rfl

/-! Equal values have equal texts. -/

theorem map_congr_of_forall₂ {f : α → β} {S : α → α → Prop} {as bs : List α}
    (h : List.Forall₂ S as bs) (hf : ∀ a ∈ as, ∀ b ∈ bs, S a b → f a = f b) :
    as.map f = bs.map f := by
  induction h with
  | nil => rfl
  | cons hab _ ih =>
    rw [List.map_cons, List.map_cons, hf _ (by simp) _ (by simp) hab,
      ih fun a ha b hb => hf a (by simp [ha]) b (by simp [hb])]

theorem map_pair_eq {f : α → β} {entries entries' : List (String × α)}
    (hkeys : entries.map Prod.fst = entries'.map Prod.fst)
    (hvalues : (entries.map Prod.snd).map f = (entries'.map Prod.snd).map f) :
    (entries.map fun e => (e.1, f e.2)) = entries'.map fun e => (e.1, f e.2) := by
  induction entries generalizing entries' with
  | nil =>
    cases entries' with
    | nil => rfl
    | cons e' entries' => cases hkeys
  | cons e entries ih =>
    cases entries' with
    | nil => cases hkeys
    | cons e' entries' =>
      simp only [List.map_cons, List.cons.injEq] at hkeys hvalues ⊢
      exact ⟨Prod.ext hkeys.1 hvalues.1, ih hkeys.2 hvalues.2⟩

theorem sortByKey_map_congr {f : α → β} {entries entries' aligned aligned' : List (String × α)}
    (hdistinct : (entries.map Prod.fst).Nodup) (hdistinct' : (entries'.map Prod.fst).Nodup)
    (hperm : entries.Perm aligned) (hperm' : entries'.Perm aligned')
    (hkeys : aligned.map Prod.fst = aligned'.map Prod.fst)
    (hvalues : (aligned.map Prod.snd).map f = (aligned'.map Prod.snd).map f) :
    ((sortByKey entries).map fun e => (e.1, f e.2)) =
      (sortByKey entries').map fun e => (e.1, f e.2) := by
  rw [sortByKey_congr hperm hdistinct, sortByKey_congr hperm' hdistinct', ← sortByKey_map,
    ← sortByKey_map, map_pair_eq hkeys hvalues]

theorem canonicalJsonWrite_congr {v w : Json N} (hv : v.DistinctKeys) (hw : w.DistinctKeys)
    (h : v.Equiv w) : canonicalJsonWrite R v = canonicalJsonWrite R w := by
  induction v using Json.induction_members generalizing w with
  | null => cases h; rfl
  | bool b => cases h; rfl
  | number n => cases h; rfl
  | string s => cases h; rfl
  | array items ih =>
    rcases hv with _ | _ | _ | _ | hitems | _
    cases h with
    | array members =>
      rcases hw with _ | _ | _ | _ | hitems' | _
      have htexts := map_congr_of_forall₂ members fun v hv w hw h =>
        ih v hv (hitems v hv) (hitems' w hw) h
      rw [canonicalJsonWrite_array, canonicalJsonWrite_array, htexts]
  | object entries ih =>
    rcases hv with _ | _ | _ | _ | _ | ⟨hkeys, hentries⟩
    cases h with
    | object perm perm' keys members =>
      rcases hw with _ | _ | _ | _ | _ | ⟨hkeys', hentries'⟩
      have htexts := map_congr_of_forall₂ members fun v hv w hw h => by
        obtain ⟨e, he, rfl⟩ := List.mem_map.mp hv
        obtain ⟨e', he', rfl⟩ := List.mem_map.mp hw
        have he := perm.mem_iff.mpr he
        exact ih e he (hentries e he) (hentries' e' (perm'.mem_iff.mpr he')) h
      have hsorted := congrArg (List.map fun e => R.string e.1 ++ ":" ++ e.2)
        (sortByKey_map_congr hkeys hkeys' perm perm' keys htexts)
      simp only [List.map_map, Function.comp_def] at hsorted
      rw [canonicalJsonWrite_object, canonicalJsonWrite_object, hsorted]

/-! Equal texts come from equal values. The first character tells the kinds of
values apart, brackets and commas the members. -/

inductive JsonKind where
  | null
  | bool
  | number
  | string
  | array
  | object

def jsonKind : Json N → JsonKind
  | .null => .null
  | .bool _ => .bool
  | .number _ => .number
  | .string _ => .string
  | .array _ => .array
  | .object _ => .object

def kindOfLead (c : Char) : Option JsonKind :=
  if c = 'n' then some .null
  else if c = 't' ∨ c = 'f' then some .bool
  else if c = '"' then some .string
  else if c = '[' then some .array
  else if c = '\x7b' then some .object
  else if c.isDigit ∨ c = '-' then some .number
  else none

theorem kindOfLead_number {c : Char} (h : c.isDigit ∨ c = '-') :
    kindOfLead c = some .number := by
  have hne (d : Char) (hd : d.isDigit = false) (hminus : d ≠ '-') : c ≠ d := by
    intro hcd
    subst hcd
    exact h.elim (by simp [hd]) hminus
  unfold kindOfLead
  rw [if_neg (hne 'n' (by decide) (by decide)), if_neg, if_neg (hne '"' (by decide) (by decide)),
    if_neg (hne '[' (by decide) (by decide)), if_neg (hne '\x7b' (by decide) (by decide)), if_pos h]
  exact not_or.mpr ⟨hne 't' (by decide) (by decide), hne 'f' (by decide) (by decide)⟩

theorem canonicalJsonWrite_lead (v : Json N) :
    ∃ c rest, (canonicalJsonWrite R v).toList = c :: rest ∧ kindOfLead c = some (jsonKind v) := by
  cases v with
  | null =>
    rw [canonicalJsonWrite]
    exact ⟨'n', "ull".toList, by decide, rfl⟩
  | bool b =>
    rw [canonicalJsonWrite]
    cases b with
    | true => exact ⟨'t', "rue".toList, by decide, rfl⟩
    | false => exact ⟨'f', "alse".toList, by decide, rfl⟩
  | number n =>
    obtain ⟨c, rest, hlead, hdigit⟩ := (R.numberToken n).lead
    exact ⟨c, rest, hlead, kindOfLead_number hdigit⟩
  | string s =>
    obtain ⟨body, htoken, -⟩ := R.stringToken s
    exact ⟨'"', body ++ ['"'], htoken, rfl⟩
  | array items =>
    rw [canonicalJsonWrite_array, String.toList_append, String.toList_append]
    exact ⟨'[', _, rfl, rfl⟩
  | object entries =>
    rw [canonicalJsonWrite_object, String.toList_append, String.toList_append]
    exact ⟨'\x7b', _, rfl, rfl⟩

theorem jsonKind_eq_of_texts {v w : Json N} {r r' : List Char}
    (h : (canonicalJsonWrite R v).toList ++ r = (canonicalJsonWrite R w).toList ++ r') :
    jsonKind v = jsonKind w := by
  obtain ⟨c, rest, hv, hkind⟩ := canonicalJsonWrite_lead R v
  obtain ⟨c', rest', hw, hkind'⟩ := canonicalJsonWrite_lead R w
  rw [hv, hw] at h
  apply Option.some.inj
  rw [← hkind, ← hkind', List.head_eq_of_cons_eq h]

/-- Members behind their commas, then the closing bracket and whatever follows it. -/
def closing (f : α → List Char) (close : Char) (items : List α) (rest : List Char) : List Char :=
  items.flatMap (fun a => ',' :: f a) ++ close :: rest

theorem intercalate_closing (f : α → List Char) (close : Char) (a : α) (items : List α)
    (rest : List Char) :
    [','].intercalate ((a :: items).map f) ++ close :: rest = f a ++ closing f close items rest := by
  induction items generalizing a with
  | nil => simp [closing]
  | cons b items ih =>
    have h := ih b
    simp only [List.map_cons] at h ⊢
    rw [List.intercalate_cons_cons, List.append_assoc, List.append_assoc, h]
    simp [closing]

theorem endsNumber_closing (f : α → List Char) {close : Char} (hclose : isNumberChar close = false)
    (items : List α) (rest : List Char) : EndsNumber (closing f close items rest) := by
  cases items with
  | nil =>
    intro c hc
    obtain rfl : close = c := Option.some.inj hc
    exact hclose
  | cons a items =>
    intro c hc
    obtain rfl : ',' = c := Option.some.inj hc
    rfl

/-- Members whose texts delimit themselves are recovered from a bracketed list. -/
theorem closing_delimited {f : α → List Char} {S : α → α → Prop} {close : Char}
    (hcomma : close ≠ ',') (hclose : isNumberChar close = false) {as bs : List α}
    {r r' : List Char}
    (hf : ∀ a ∈ as, ∀ b r r', EndsNumber r → EndsNumber r' → f a ++ r = f b ++ r' →
      S a b ∧ r = r')
    (h : closing f close as r = closing f close bs r') : List.Forall₂ S as bs ∧ r = r' := by
  induction as generalizing bs with
  | nil =>
    cases bs with
    | nil => exact ⟨.nil, List.tail_eq_of_cons_eq h⟩
    | cons b bs => exact absurd (List.head_eq_of_cons_eq h) hcomma
  | cons a as ih =>
    cases bs with
    | nil => exact absurd (List.head_eq_of_cons_eq h).symm hcomma
    | cons b bs =>
      simp only [closing, List.flatMap_cons, List.cons_append, List.append_assoc,
        List.cons.injEq, true_and] at h
      obtain ⟨hab, htail⟩ := hf a (by simp) b _ _ (endsNumber_closing f hclose as r)
        (endsNumber_closing f hclose bs r') h
      obtain ⟨hrest, hr⟩ := ih (fun a ha => hf a (by simp [ha])) htail
      exact ⟨.cons hab hrest, hr⟩

theorem bracketed_delimited {f : α → List Char} {S : α → α → Prop} {close : Char}
    (hcomma : close ≠ ',') (hclose : isNumberChar close = false) {as bs : List α}
    {r r' : List Char} (hlead : ∀ a rest, (f a ++ rest).head? ≠ some close)
    (hf : ∀ a ∈ as, ∀ b r r', EndsNumber r → EndsNumber r' → f a ++ r = f b ++ r' →
      S a b ∧ r = r')
    (h : [','].intercalate (as.map f) ++ close :: r =
      [','].intercalate (bs.map f) ++ close :: r') : List.Forall₂ S as bs ∧ r = r' := by
  cases as with
  | nil =>
    cases bs with
    | nil => exact ⟨.nil, List.tail_eq_of_cons_eq h⟩
    | cons b bs =>
      rw [intercalate_closing] at h
      exact absurd (congrArg List.head? h).symm (hlead b _)
  | cons a as =>
    cases bs with
    | nil =>
      rw [intercalate_closing] at h
      exact absurd (congrArg List.head? h) (hlead a _)
    | cons b bs =>
      rw [intercalate_closing, intercalate_closing] at h
      obtain ⟨hab, htail⟩ := hf a (by simp) b _ _ (endsNumber_closing f hclose as r)
        (endsNumber_closing f hclose bs r') h
      obtain ⟨hrest, hr⟩ := closing_delimited hcomma hclose (fun a ha => hf a (by simp [ha])) htail
      exact ⟨.cons hab hrest, hr⟩

theorem toList_bracketed (opening closing : String) (texts : List String) :
    (opening ++ ",".intercalate texts ++ closing).toList =
      opening.toList ++ [','].intercalate (texts.map String.toList) ++ closing.toList := by
  simp [String.toList_intercalate]

theorem head?_text_ne (v : Json N) (rest : List Char) :
    ((canonicalJsonWrite R v).toList ++ rest).head? ≠ some ']' := by
  obtain ⟨c, tail, hv, hkind⟩ := canonicalJsonWrite_lead R v
  rw [hv]
  intro h
  obtain rfl : c = ']' := Option.some.inj h
  cases hkind

def entryText (e : String × Json N) : List Char :=
  (R.string e.1 ++ ":" ++ canonicalJsonWrite R e.2).toList

theorem head?_entryText_ne (e : String × Json N) (rest : List Char) :
    (entryText R e ++ rest).head? ≠ some '\x7d' := by
  obtain ⟨body, htoken, -⟩ := R.stringToken e.1
  rw [entryText, String.toList_append, String.toList_append, htoken]
  exact fun h => absurd (Option.some.inj h) (by decide)

theorem entryText_delimited {e e' : String × Json N} {r r' : List Char}
    (hvalue : ∀ {w : Json N} {r r' : List Char}, EndsNumber r → EndsNumber r' →
      (canonicalJsonWrite R e.2).toList ++ r = (canonicalJsonWrite R w).toList ++ r' →
        e.2.Equiv w ∧ r = r')
    (hr : EndsNumber r) (hr' : EndsNumber r') (h : entryText R e ++ r = entryText R e' ++ r') :
    (e.1 = e'.1 ∧ e.2.Equiv e'.2) ∧ r = r' := by
  simp only [entryText, String.toList_append, List.append_assoc] at h
  obtain ⟨hkey, h⟩ := R.string_delimited h
  obtain ⟨hequiv, hrest⟩ := hvalue hr hr' (List.append_cancel_left h)
  exact ⟨⟨hkey, hequiv⟩, hrest⟩

theorem aligned_of_forall₂ {S : α → α → Prop} {entries entries' : List (String × α)}
    (h : List.Forall₂ (fun e e' => e.1 = e'.1 ∧ S e.2 e'.2) entries entries') :
    entries.map Prod.fst = entries'.map Prod.fst ∧
      List.Forall₂ S (entries.map Prod.snd) (entries'.map Prod.snd) := by
  induction h with
  | nil => exact ⟨rfl, .nil⟩
  | cons he _ ih =>
    rw [List.map_cons, List.map_cons, he.1, ih.1]
    exact ⟨rfl, .cons he.2 ih.2⟩

/-- Where the text of a value ends is decided by the text, whatever follows it. -/
theorem canonicalJsonWrite_delimited {v w : Json N} {r r' : List Char} (hr : EndsNumber r)
    (hr' : EndsNumber r')
    (h : (canonicalJsonWrite R v).toList ++ r = (canonicalJsonWrite R w).toList ++ r') :
    v.Equiv w ∧ r = r' := by
  induction v using Json.induction_members generalizing w r r' with
  | null =>
    have hkind := jsonKind_eq_of_texts R h
    cases w <;> cases hkind
    exact ⟨.null, List.append_cancel_left h⟩
  | bool b =>
    have hkind := jsonKind_eq_of_texts R h
    cases w <;> cases hkind
    rename_i b'
    rw [canonicalJsonWrite, canonicalJsonWrite] at h
    cases b <;> cases b'
    · exact ⟨.bool false, List.append_cancel_left h⟩
    · exact absurd (List.head_eq_of_cons_eq h) (by decide)
    · exact absurd (List.head_eq_of_cons_eq h) (by decide)
    · exact ⟨.bool true, List.append_cancel_left h⟩
  | number n =>
    have hkind := jsonKind_eq_of_texts R h
    cases w <;> cases hkind
    rename_i m
    rw [canonicalJsonWrite, canonicalJsonWrite] at h
    obtain ⟨rfl, hrest⟩ := R.number_delimited hr hr' h
    exact ⟨.number n, hrest⟩
  | string s =>
    have hkind := jsonKind_eq_of_texts R h
    cases w <;> cases hkind
    rename_i t
    rw [canonicalJsonWrite, canonicalJsonWrite] at h
    obtain ⟨rfl, hrest⟩ := R.string_delimited h
    exact ⟨.string s, hrest⟩
  | array items ih =>
    have hkind := jsonKind_eq_of_texts R h
    cases w <;> cases hkind
    rename_i items'
    simp only [canonicalJsonWrite_array, toList_bracketed, List.map_map, List.append_assoc] at h
    obtain ⟨members, hrest⟩ := bracketed_delimited (by decide) (by decide) (head?_text_ne R)
      (fun v hv w r r' hr hr' h => ih v hv hr hr' h) (List.tail_eq_of_cons_eq h)
    exact ⟨.array members, hrest⟩
  | object entries ih =>
    have hkind := jsonKind_eq_of_texts R h
    cases w <;> cases hkind
    rename_i entries'
    simp only [canonicalJsonWrite_object, toList_bracketed, List.map_map, List.append_assoc] at h
    obtain ⟨members, hrest⟩ := bracketed_delimited (by decide) (by decide) (head?_entryText_ne R)
      (fun e he e' r r' hr hr' h => entryText_delimited R
        (ih e ((sortByKey_perm entries).mem_iff.mp he)) hr hr' h) (List.tail_eq_of_cons_eq h)
    obtain ⟨hkeys, hvalues⟩ := aligned_of_forall₂ members
    exact ⟨.object (sortByKey_perm entries).symm (sortByKey_perm entries').symm hkeys hvalues,
      hrest⟩

theorem equiv_of_canonicalJsonBytes {v w : Json N}
    (h : canonicalJsonBytes R v = canonicalJsonBytes R w) : v.Equiv w := by
  have hnil : EndsNumber [] := fun c hc => by cases hc
  have htexts := congrArg String.toList (utf8_injective h)
  have h : (canonicalJsonWrite R v).toList ++ [] = (canonicalJsonWrite R w).toList ++ [] := by
    rw [htexts]
  exact (canonicalJsonWrite_delimited R hnil hnil h).1

/-- The canonical text identifies a value up to the order of its object entries. -/
theorem canonicalJsonBytes_eq_iff {v w : Json N} (hv : v.DistinctKeys) (hw : w.DistinctKeys) :
    canonicalJsonBytes R v = canonicalJsonBytes R w ↔ v.Equiv w := by
  constructor
  · exact equiv_of_canonicalJsonBytes R
  · intro h
    rw [canonicalJsonBytes, canonicalJsonBytes, canonicalJsonWrite_congr R hv hw h]

theorem canonicalJsonBytes_ne_nil (v : Json N) : canonicalJsonBytes R v ≠ [] := by
  obtain ⟨c, rest, hv, -⟩ := canonicalJsonWrite_lead R v
  intro h
  have hempty : canonicalJsonWrite R v = "" := utf8_injective h
  rw [hempty] at hv
  cases hv

end ProvenoZk.Policy
