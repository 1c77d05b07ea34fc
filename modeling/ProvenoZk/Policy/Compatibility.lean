import ProvenoZk.Policy.Oracle

/-! Compatible changes of a schema and of a response. Both arguments of `schema_matches`
are trees, and both orders go down into them together: a schema may ask for less, a
response may say more. -/
namespace ProvenoZk.Foundation.Json

variable {N : Type}

/-- Sub-schemas are replaced with `null` and object keys deleted, at any depth. -/
inductive Weakens : Json N → Json N → Prop where
  | wildcard (schema : Json N) : Weakens schema .null
  | bool (b : Bool) : Weakens (.bool b) (.bool b)
  | number (n : N) : Weakens (.number n) (.number n)
  | string (s : String) : Weakens (.string s) (.string s)
  | array {items items' : List (Json N)} (members : List.Forall₂ Weakens items items') :
      Weakens (.array items) (.array items')
  | object {entries kept entries' : List (String × Json N)} (sub : kept ⊆ entries)
      (keys : kept.map Prod.fst = entries'.map Prod.fst)
      (members : List.Forall₂ Weakens (kept.map Prod.snd) (entries'.map Prod.snd)) :
      Weakens (.object entries) (.object entries')

/-- Fresh keys are added to objects, at any depth: what was found is still found. -/
inductive Extends : Json N → Json N → Prop where
  | null : Extends .null .null
  | bool (b : Bool) : Extends (.bool b) (.bool b)
  | number (n : N) : Extends (.number n) (.number n)
  | string (s : String) : Extends (.string s) (.string s)
  | array {items items' : List (Json N)} (members : List.Forall₂ Extends items items') :
      Extends (.array items) (.array items')
  | object {entries kept entries' : List (String × Json N)}
      (keys : entries.map Prod.fst = kept.map Prod.fst)
      (members : List.Forall₂ Extends (entries.map Prod.snd) (kept.map Prod.snd))
      (found : ∀ e ∈ kept, entries'.lookup e.1 = some e.2) :
      Extends (.object entries) (.object entries')

end ProvenoZk.Foundation.Json

namespace ProvenoZk.Policy
open Foundation

variable {N : Type}

theorem schemaMatches_array {items : List (Json N)} {actual : Json N} :
    schemaMatches (.array items) actual = true ↔ ∃ actualItems, actual = .array actualItems ∧
      ∀ itemSchema ∈ items.head?, ∀ v ∈ actualItems, schemaMatches itemSchema v = true := by
  cases actual with
  | array actualItems =>
    cases items with
    | nil => simp [schemaMatches, schemaMatchesFirst]
    | cons itemSchema items => simp [schemaMatches, schemaMatchesFirst]
  | null => simp [schemaMatches]
  | bool b => simp [schemaMatches]
  | number n => simp [schemaMatches]
  | string s => simp [schemaMatches]
  | object entries => simp [schemaMatches]

theorem schemaMatchesEntries_iff {entries actual : List (String × Json N)} :
    schemaMatchesEntries entries actual = true ↔ ∀ e ∈ entries,
      ∃ v, actual.lookup e.1 = some v ∧ schemaMatches e.2 v = true := by
  induction entries with
  | nil => simp [schemaMatchesEntries]
  | cons e entries ih =>
    rw [schemaMatchesEntries, Bool.and_eq_true, ih, List.forall_mem_cons]
    apply and_congr_left'
    cases actual.lookup e.1 <;> simp

theorem schemaMatches_object {entries : List (String × Json N)} {actual : Json N} :
    schemaMatches (.object entries) actual = true ↔ ∃ actualEntries,
      actual = .object actualEntries ∧ ∀ e ∈ entries,
        ∃ v, actualEntries.lookup e.1 = some v ∧ schemaMatches e.2 v = true := by
  cases actual with
  | object actualEntries => simp [schemaMatches, schemaMatchesEntries_iff]
  | null => simp [schemaMatches]
  | bool b => simp [schemaMatches]
  | number n => simp [schemaMatches]
  | string s => simp [schemaMatches]
  | array items => simp [schemaMatches]

/-! Members of related values. -/

theorem exists_mem_of_forall₂ {α β : Type} {r : α → β → Prop} {as : List α} {bs : List β}
    (h : List.Forall₂ r as bs) {b : β} (hb : b ∈ bs) : ∃ a ∈ as, r a b := by
  induction h with
  | nil => cases hb
  | @cons a b' as bs hab _ ih =>
    cases List.mem_cons.mp hb with
    | inl heq => exact ⟨a, List.mem_cons_self, heq ▸ hab⟩
    | inr hb =>
      obtain ⟨x, hx, hxb⟩ := ih hb
      exact ⟨x, List.mem_cons_of_mem a hx, hxb⟩

theorem forall₂_of_aligned {r : Json N → Json N → Prop} {entries entries' : List (String × Json N)}
    (hkeys : entries.map Prod.fst = entries'.map Prod.fst)
    (hvalues : List.Forall₂ r (entries.map Prod.snd) (entries'.map Prod.snd)) :
    List.Forall₂ (fun e e' => e.1 = e'.1 ∧ r e.2 e'.2) entries entries' := by
  induction entries generalizing entries' with
  | nil =>
    cases entries' with
    | nil => exact .nil
    | cons e' entries' => cases hkeys
  | cons e entries ih =>
    cases entries' with
    | nil => cases hkeys
    | cons e' entries' =>
      have hkey := List.cons.inj hkeys
      have hvalue := List.forall₂_cons.mp hvalues
      exact .cons ⟨hkey.1, hvalue.1⟩ (ih hkey.2 hvalue.2)

theorem lookup_of_forall₂ {r : Json N → Json N → Prop} {entries entries' : List (String × Json N)}
    (h : List.Forall₂ (fun e e' => e.1 = e'.1 ∧ r e.2 e'.2) entries entries') {key : String}
    {v : Json N} (hv : entries.lookup key = some v) :
    ∃ v', entries'.lookup key = some v' ∧ r v v' := by
  induction h with
  | nil => cases hv
  | @cons e e' entries entries' he _ ih =>
    rw [List.lookup_cons] at hv ⊢
    rw [← he.1]
    cases hkey : key == e.1 with
    | true =>
      rw [hkey] at hv
      cases hv
      exact ⟨e'.2, rfl, he.2⟩
    | false =>
      rw [hkey] at hv
      exact ih hv

/-- By induction on the schema, since `schema_matches` recurses on it. -/
theorem schemaMatches_of_weakens {schema schema' actual actual' : Json N}
    (hschema : schema.Weakens schema') (hactual : actual.Extends actual')
    (h : schemaMatches schema actual = true) : schemaMatches schema' actual' = true := by
  induction schema using Json.induction_members generalizing schema' actual actual' with
  | null =>
    cases hschema
    rw [schemaMatches]
  | bool b =>
    cases hschema with
    | wildcard => rw [schemaMatches]
    | bool b => cases hactual <;> exact h
  | number n =>
    cases hschema with
    | wildcard => rw [schemaMatches]
    | number n => cases hactual <;> exact h
  | string s =>
    cases hschema with
    | wildcard => rw [schemaMatches]
    | string s => cases hactual <;> exact h
  | array items ih =>
    cases hschema with
    | wildcard => rw [schemaMatches]
    | array members =>
      obtain ⟨actualItems, rfl, hitems⟩ := schemaMatches_array.mp h
      cases hactual with
      | @array _ actualItems' hactual =>
        refine schemaMatches_array.mpr ⟨actualItems', rfl, ?_⟩
        cases members with
        | nil => exact fun _ hfirst => nomatch hfirst
        | @cons item item' items items' hitem =>
          intro first hfirst v' hv'
          cases hfirst
          obtain ⟨v, hv, hextends⟩ := exists_mem_of_forall₂ hactual hv'
          exact ih item List.mem_cons_self hitem hextends (hitems item rfl v hv)
  | object entries ih =>
    cases hschema with
    | wildcard => rw [schemaMatches]
    | @object _ kept entries' hsub hkeys hmembers =>
      obtain ⟨actualEntries, rfl, hentries⟩ := schemaMatches_object.mp h
      cases hactual with
      | @object _ found actualEntries' hfoundKeys hfoundValues hfound =>
        refine schemaMatches_object.mpr ⟨actualEntries', rfl, ?_⟩
        intro e' he'
        obtain ⟨e, he, hkey, hweaker⟩ := exists_mem_of_forall₂ (forall₂_of_aligned hkeys hmembers) he'
        obtain ⟨v, hv, hmatches⟩ := hentries e (hsub he)
        obtain ⟨v', hv', hextends⟩ := lookup_of_forall₂ (forall₂_of_aligned hfoundKeys hfoundValues) hv
        obtain ⟨before, after, rfl, -⟩ := List.lookup_eq_some_iff.mp hv'
        refine ⟨v', ?_, ih e (hsub he) hweaker hextends hmatches⟩
        rw [← hkey]
        exact hfound (e.1, v') (by simp)

/-- Every schema that is still registered asks for no more than the one before. -/
def Relaxes (policy policy' : OraclePolicy N) : Prop :=
  ∀ domain schema', policy'.schemaVersions.lookup domain = some schema' →
    ∃ schema, policy.schemaVersions.lookup domain = some schema ∧ schema.Weakens schema'

def AddsFields (fromSlice : List UInt8 → Except String (Json N)) (bytes bytes' : List UInt8) :
    Prop :=
  ∀ actual, fromSlice bytes = .ok actual →
    ∃ actual', fromSlice bytes' = .ok actual' ∧ actual.Extends actual'

/-- `schema_matches` is monotone in both arguments at once. So neither a weaker schema in
the policy nor a provider that adds fields turns an accepted response into a rejected
one. -/
theorem schemaMatches_monotone :
    (∀ schema schema' actual actual' : Json N, schema.Weakens schema' → actual.Extends actual' →
      schemaMatches schema actual = true → schemaMatches schema' actual' = true) ∧
    ∀ (fromSlice : List UInt8 → Except String (Json N)) (policy policy' : OraclePolicy N) url
      bytes bytes', Relaxes policy policy' → AddsFields fromSlice bytes bytes' →
      policy.checkResponseSchema fromSlice url bytes = .ok () →
      policy'.checkResponseSchema fromSlice url bytes' = .ok () := by
  constructor
  · intro schema schema' actual actual' hschema hactual h
    exact schemaMatches_of_weakens hschema hactual h
  · intro fromSlice policy policy' url bytes bytes' hpolicy hbytes h
    rw [OraclePolicy.checkResponseSchema_ok] at h ⊢
    intro schema' hschema'
    obtain ⟨schema, hschema, hweaker⟩ := hpolicy _ schema' hschema'
    obtain ⟨actual, hactual, hmatches⟩ := h schema hschema
    obtain ⟨actual', hactual', hextends⟩ := hbytes actual hactual
    exact ⟨actual', hactual', schemaMatches_of_weakens hweaker hextends hmatches⟩

example : schemaMatches (N := Int)
    (.object [("quotes", .array [.object [("price", .number 0), ("venue", .null)]])])
    (.object [("time", .number 7), ("quotes", .array
      [.object [("venue", .bool true), ("price", .number 3), ("unit", .string "usd")]])]) = true := by
  decide

end ProvenoZk.Policy
