import Mathlib.Data.List.TakeWhile

/-! The part of the generic URI syntax that says which host a URL addresses. The
authority stands between `://` and the first slash, question mark or hash; userinfo
ends at its last at-sign and a port starts at a colon, outside the brackets of an
IP literal. -/
namespace ProvenoZk.Foundation.Url

def isSchemeChar (c : Char) : Bool := c.isAlphanum || "+-.".toList.contains c

/-- What stands behind `scheme://` in an absolute URL. -/
def afterScheme (url : List Char) : Option (List Char) :=
  if (url.head?.any Char.isAlpha) ∧ "://".toList <+: url.dropWhile isSchemeChar then
    some ((url.dropWhile isSchemeChar).drop 3)
  else none

def isAuthorityChar (c : Char) : Bool := c ≠ '/' && c ≠ '?' && c ≠ '#'

def authority (rest : List Char) : List Char := rest.takeWhile isAuthorityChar

def withoutUserinfo (authority : List Char) : List Char :=
  (authority.reverse.takeWhile (· ≠ '@')).reverse

def withoutPort (hostport : List Char) : List Char :=
  if hostport.head? = some '[' then hostport.take (hostport.idxOf ']' + 1)
  else hostport.takeWhile (· ≠ ':')

/-- The host addressed by a URL, given what stands behind its `scheme://`. -/
def host (rest : List Char) : List Char := withoutPort (withoutUserinfo (authority rest))

theorem takeWhile_of_stops {p : α → Bool} {body rest : List α} (hbody : ∀ c ∈ body, p c)
    (hrest : ∀ c ∈ rest.head?, p c = false) : (body ++ rest).takeWhile p = body := by
  rw [List.takeWhile_append_of_pos hbody]
  cases rest with
  | nil => simp
  | cons c rest => simp [hrest c rfl]

theorem takeWhile_eq_iff {p : α → Bool} {xs body : List α} :
    xs.takeWhile p = body ↔
      ∃ tail, xs = body ++ tail ∧ (∀ x ∈ body, p x) ∧ ∀ x ∈ tail.head?, p x = false := by
  constructor
  · rintro rfl
    refine ⟨xs.dropWhile p, List.takeWhile_append_dropWhile.symm, ?_, ?_⟩
    · intro x hx
      exact List.mem_takeWhile_imp hx
    · intro x hx
      have h := List.head?_dropWhile_not p xs
      rw [Option.mem_def.mp hx] at h
      simpa using h
  · rintro ⟨tail, rfl, hbody, htail⟩
    exact takeWhile_of_stops hbody htail

theorem withoutUserinfo_eq_self {authority : List Char} (h : '@' ∉ authority) :
    withoutUserinfo authority = authority := by
  unfold withoutUserinfo
  rw [List.takeWhile_eq_self_iff.mpr, List.reverse_reverse]
  intro c hc
  have hmem := List.mem_reverse.mp hc
  simp only [decide_not, Bool.not_eq_eq_eq_not, Bool.not_true, decide_eq_false_iff_not]
  intro heq
  exact h (heq ▸ hmem)

theorem host_eq {name rest : List Char} (huserinfo : '@' ∉ authority (name ++ rest))
    (hliteral : (authority (name ++ rest)).head? ≠ some '[')
    (hname : ∀ c ∈ name, isAuthorityChar c ∧ c ≠ ':')
    (hrest : ∀ c ∈ rest.head?, c = ':' ∨ isAuthorityChar c = false) :
    host (name ++ rest) = name := by
  unfold host
  rw [withoutUserinfo_eq_self huserinfo, withoutPort, if_neg hliteral, authority,
    List.takeWhile_takeWhile]
  apply takeWhile_of_stops
  · intro c hc
    simpa [and_comm] using hname c hc
  · intro c hc
    rcases hrest c hc with h | h <;> simp [h]

/-- A scheme has no colon, so the first `://` is the one behind it. -/
theorem afterScheme_eq_some {url rest : List Char} (h : afterScheme url = some rest) :
    ∃ scheme, ':' ∉ scheme ∧ url = scheme ++ ("://".toList ++ rest) := by
  unfold afterScheme at h
  split_ifs at h with hurl
  obtain ⟨tail, htail⟩ := hurl.2
  refine ⟨url.takeWhile isSchemeChar, ?_, ?_⟩
  · intro hcolon
    exact absurd (List.mem_takeWhile_imp hcolon) (by decide)
  · have hrest := Option.some.inj h
    rw [← htail] at hrest
    have hdrop : tail = rest := hrest
    rw [← hdrop, htail, List.takeWhile_append_dropWhile]

end ProvenoZk.Foundation.Url
