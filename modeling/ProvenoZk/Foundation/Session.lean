import Mathlib.Tactic

/-! Deterministic clients of a stateful service. A client is a tree: it asks,
and what it does next is a function of the reply, so it may react to errors in
any way. Every run is finite, and every run is also the run of a plain list of
queries, which is where the induction rules are stated. -/
namespace ProvenoZk.Foundation

inductive Client (Q R A : Type) where
  | done (result : A)
  | ask (query : Q) (next : R → Client Q R A)

abbrev Service (σ Q R : Type) := Q → σ → R × σ

/-- One query served, with the service's state on both sides of it. -/
structure Exchange (σ Q R : Type) where
  before : σ
  query : Q
  reply : R
  after : σ

namespace Service

variable {σ ρ Q R : Type}

def exchanges (serve : Service σ Q R) : List Q → σ → List (Exchange σ Q R)
  | [], _ => []
  | query :: queries, s =>
    ⟨s, query, (serve query s).1, (serve query s).2⟩ ::
      exchanges serve queries (serve query s).2

/-- The queries with the state each of them finds. -/
def visits (serve : Service σ Q R) : List Q → σ → List (σ × Q)
  | [], _ => []
  | query :: queries, s => (s, query) :: visits serve queries (serve query s).2

def replies (serve : Service σ Q R) : List Q → σ → List R
  | [], _ => []
  | query :: queries, s => (serve query s).1 :: replies serve queries (serve query s).2

def final (serve : Service σ Q R) : List Q → σ → σ
  | [], s => s
  | query :: queries, s => final serve queries (serve query s).2

@[simp] theorem length_exchanges (serve : Service σ Q R) (queries : List Q) (s : σ) :
    (serve.exchanges queries s).length = queries.length := by
  induction queries generalizing s with
  | nil => rfl
  | cons query queries ih => simp [exchanges, ih]

theorem reply_of_mem_exchanges {serve : Service σ Q R} {queries : List Q} {s : σ}
    {e : Exchange σ Q R} (he : e ∈ serve.exchanges queries s) :
    e.reply = (serve e.query e.before).1 := by
  induction queries generalizing s with
  | nil => exact absurd he List.not_mem_nil
  | cons query queries ih =>
    rw [exchanges, List.mem_cons] at he
    cases he with
    | inl hhead => rw [hhead]
    | inr htail => exact ih htail

theorem served_of_mem_exchanges {serve : Service σ Q R} {queries : List Q} {s : σ}
    {e : Exchange σ Q R} (he : e ∈ serve.exchanges queries s) :
    serve e.query e.before = (e.reply, e.after) := by
  induction queries generalizing s with
  | nil => exact absurd he List.not_mem_nil
  | cons query queries ih =>
    rw [exchanges, List.mem_cons] at he
    cases he with
    | inl hhead => rw [hhead]
    | inr htail => exact ih htail

theorem map_exchanges (serve : Service σ Q R) (queries : List Q) (s : σ) :
    (serve.exchanges queries s).map (fun e => (e.before, e.query)) = serve.visits queries s := by
  induction queries generalizing s with
  | nil => rfl
  | cons query queries ih => rw [exchanges, List.map_cons, visits, ih]

theorem map_reply_exchanges (serve : Service σ Q R) (queries : List Q) (s : σ) :
    (serve.exchanges queries s).map (·.reply) = serve.replies queries s := by
  induction queries generalizing s with
  | nil => rfl
  | cons query queries ih => rw [exchanges, List.map_cons, replies, ih]

theorem visits_congr {R' : Type} {serve : Service σ Q R} {serve' : Service σ Q R'}
    (h : ∀ query s, (serve query s).2 = (serve' query s).2) (queries : List Q) (s : σ) :
    serve.visits queries s = serve'.visits queries s := by
  induction queries generalizing s with
  | nil => rfl
  | cons query queries ih => rw [visits, visits, ih, h]

/-- The rule for runs: a fact indexed by the number of queries served, true at
the start and carried by each service step, is true around every exchange. -/
theorem exchanges_invariant {serve : Service σ Q R} {P : Nat → σ → Prop}
    (hstep : ∀ k query s, P k s → P (k + 1) (serve query s).2)
    {queries : List Q} {s : σ} {k : Nat} (hs : P k s) {i : Nat} {e : Exchange σ Q R}
    (he : (serve.exchanges queries s)[i]? = some e) :
    P (k + i) e.before ∧ (e.reply, e.after) = serve e.query e.before := by
  induction queries generalizing s k i with
  | nil => simp [exchanges] at he
  | cons query queries ih =>
    cases i with
    | zero =>
      simp only [exchanges, List.getElem?_cons_zero, Option.some.injEq] at he
      subst he
      exact ⟨hs, rfl⟩
    | succ i =>
      simp only [exchanges, List.getElem?_cons_succ] at he
      have h := ih (hstep k query s hs) he
      rw [show k + 1 + i = k + (i + 1) by omega] at h
      exact h

theorem final_invariant {serve : Service σ Q R} {P : Nat → σ → Prop}
    (hstep : ∀ k query s, P k s → P (k + 1) (serve query s).2)
    {queries : List Q} {s : σ} {k : Nat} (hs : P k s) :
    P (k + queries.length) (serve.final queries s) := by
  induction queries generalizing s k with
  | nil => exact hs
  | cons query queries ih =>
    have h := ih (hstep k query s hs)
    rw [show k + 1 + queries.length = k + (query :: queries).length by
      rw [List.length_cons]; omega] at h
    exact h

/-- The rule for runs of which something is known: a fact that is carried by the queries as
they are found is true wherever a query is found. -/
theorem visits_invariant {serve : Service σ Q R} {P : σ → Prop} {known : σ × Q → Prop}
    (hstep : ∀ query s, P s → known (s, query) → P (serve query s).2) {queries : List Q} {s : σ}
    (hs : P s) (hknown : ∀ v ∈ serve.visits queries s, known v) :
    ∀ v ∈ serve.visits queries s, P v.1 := by
  induction queries generalizing s with
  | nil => exact fun v hv => absurd hv List.not_mem_nil
  | cons query queries ih =>
    rw [visits, List.forall_mem_cons] at hknown ⊢
    exact ⟨hs, ih (hstep query s hs hknown.1) hknown.2⟩

def Simulates (rel : σ → ρ → Prop) (serve : Service σ Q R) (serve' : Service ρ Q R) : Prop :=
  ∀ query s t, rel s t →
    (serve query s).1 = (serve' query t).1 ∧ rel (serve query s).2 (serve' query t).2

theorem replies_eq_of_simulates {rel : σ → ρ → Prop} {serve : Service σ Q R}
    {serve' : Service ρ Q R} (h : serve.Simulates rel serve') (queries : List Q) {s : σ} {t : ρ}
    (hst : rel s t) : serve.replies queries s = serve'.replies queries t := by
  induction queries generalizing s t with
  | nil => rfl
  | cons query queries ih =>
    have hstep := h query s t hst
    rw [replies, replies, hstep.1, ih hstep.2]

def logged (serve : Service σ Q R) : Service (σ × List Q) Q R := fun query s =>
  ((serve query s.1).1, (serve query s.1).2, s.2 ++ [query])

theorem logged_simulates (serve : Service σ Q R) :
    serve.logged.Simulates (fun s t => s.1 = t) serve := by
  rintro query s _ rfl
  exact ⟨rfl, rfl⟩

/-- What a wrapper does with a query: answer it, or pass it on. -/
abbrev Gate (κ Q R : Type) := Q → κ → Option R × κ

def gated {κ : Type} (gate : Gate κ Q R) (serve : Service σ Q R) : Service (σ × κ) Q R := fun query s =>
  match gate query s.2 with
  | (some reply, k) => (reply, s.1, k)
  | (none, k) => ((serve query s.1).1, (serve query s.1).2, k)

end Service

namespace Client

variable {σ ρ Q R A : Type}

def run (serve : Service σ Q R) : Client Q R A → σ → A × σ
  | .done result, s => (result, s)
  | .ask query next, s => (next (serve query s).1).run serve (serve query s).2

def exchanges (serve : Service σ Q R) : Client Q R A → σ → List (Exchange σ Q R)
  | .done _, _ => []
  | .ask query next, s =>
    ⟨s, query, (serve query s).1, (serve query s).2⟩ ::
      (next (serve query s).1).exchanges serve (serve query s).2

def queries (serve : Service σ Q R) : Client Q R A → σ → List Q
  | .done _, _ => []
  | .ask query next, s => query :: (next (serve query s).1).queries serve (serve query s).2

def transcript (serve : Service σ Q R) (client : Client Q R A) (s : σ) : List (Q × R) :=
  (client.exchanges serve s).map fun e => (e.query, e.reply)

/-- No run asks more than `n` times, whatever the replies. -/
def AsksAtMost : Client Q R A → Nat → Prop
  | .done _, _ => True
  | .ask _ _, 0 => False
  | .ask _ next, n + 1 => ∀ reply, (next reply).AsksAtMost n

theorem AsksAtMost.mono {client : Client Q R A} {m n : Nat} (h : client.AsksAtMost m)
    (hmn : m ≤ n) : client.AsksAtMost n := by
  induction client generalizing m n with
  | done result => trivial
  | ask query next ih =>
    cases m with
    | zero => exact h.elim
    | succ m =>
      cases n with
      | zero => exact absurd hmn (Nat.not_succ_le_zero m)
      | succ n => exact fun reply => ih reply (h reply) (Nat.le_of_succ_le_succ hmn)

theorem run_final (serve : Service σ Q R) (client : Client Q R A) (s : σ) :
    (client.run serve s).2 = serve.final (client.queries serve s) s := by
  induction client generalizing s with
  | done result => rfl
  | ask query next ih => exact ih (serve query s).1 (serve query s).2

theorem run_invariant {serve : Service σ Q R} {P : Nat → σ → Prop}
    (hstep : ∀ k query s, P k s → P (k + 1) (serve query s).2) (client : Client Q R A)
    {s : σ} {k : Nat} (hs : P k s) :
    P (k + (client.queries serve s).length) (client.run serve s).2 := by
  rw [run_final]
  exact Service.final_invariant hstep hs

theorem log_run {E : Type} {serve : Service σ Q R} {log : σ → List E} {emit : Q → Option E}
    (hstep : ∀ query s, log (serve query s).2 = log s ++ (emit query).toList)
    (client : Client Q R A) (s : σ) :
    log (client.run serve s).2 = log s ++ (client.queries serve s).filterMap emit := by
  induction client generalizing s with
  | done result => exact (List.append_nil _).symm
  | ask query next ih =>
    rw [run, queries, ih, hstep, List.append_assoc, List.filterMap_cons]
    cases emit query with
    | none => rfl
    | some entry => rfl

theorem exchanges_eq (serve : Service σ Q R) (client : Client Q R A) (s : σ) :
    client.exchanges serve s = serve.exchanges (client.queries serve s) s := by
  induction client generalizing s with
  | done result => rfl
  | ask query next ih =>
    simp only [exchanges, queries, Service.exchanges, ih]

theorem length_queries_le {client : Client Q R A} {n : Nat} (h : client.AsksAtMost n)
    (serve : Service σ Q R) (s : σ) : (client.queries serve s).length ≤ n := by
  induction client generalizing n s with
  | done result => exact Nat.zero_le n
  | ask query next ih =>
    cases n with
    | zero => exact h.elim
    | succ n =>
      simp only [queries, List.length_cons]
      exact Nat.succ_le_succ (ih _ (h _) _)

theorem rel_run_of_simulates {rel : σ → ρ → Prop} {serve : Service σ Q R}
    {serve' : Service ρ Q R} (h : serve.Simulates rel serve') (client : Client Q R A)
    {s : σ} {t : ρ} (hst : rel s t) : rel (client.run serve s).2 (client.run serve' t).2 := by
  induction client generalizing s t with
  | done result => exact hst
  | ask query next ih =>
    obtain ⟨hreply, hrel⟩ := h query s t hst
    simp only [run, hreply]
    exact ih (serve' query t).1 hrel

theorem run_logged (serve : Service σ Q R) (client : Client Q R A) (s : σ) (log : List Q) :
    (client.run serve.logged (s, log)).2 =
      ((client.run serve s).2, log ++ client.queries serve s) := by
  induction client generalizing s log with
  | done result => simp [run, queries]
  | ask query next ih =>
    change ((next (serve query s).1).run serve.logged ((serve query s).2, log ++ [query])).2 = _
    rw [ih, List.append_assoc]
    rfl

theorem run_eq_of_simulates {rel : σ → ρ → Prop} {serve : Service σ Q R}
    {serve' : Service ρ Q R} (h : serve.Simulates rel serve') (client : Client Q R A)
    {s : σ} {t : ρ} (hst : rel s t) :
    (client.run serve s).1 = (client.run serve' t).1 ∧
      client.queries serve s = client.queries serve' t := by
  induction client generalizing s t with
  | done result => exact ⟨rfl, rfl⟩
  | ask query next ih =>
    obtain ⟨hreply, hrel⟩ := h query s t hst
    simp only [run, queries, hreply]
    have hnext := ih (serve' query t).1 hrel
    exact ⟨hnext.1, congrArg (query :: ·) hnext.2⟩

theorem run_eq_of_replies {serve : Service σ Q R} {serve' : Service ρ Q R}
    (client : Client Q R A) {s : σ} {t : ρ}
    (h : serve.replies (client.queries serve s) s = serve'.replies (client.queries serve s) t) :
    (client.run serve' t).1 = (client.run serve s).1 ∧
      client.transcript serve' t = client.transcript serve s := by
  induction client generalizing s t with
  | done result => exact ⟨rfl, rfl⟩
  | ask query next ih =>
    rw [queries, Service.replies, Service.replies, List.cons.injEq] at h
    have hnext := ih (serve query s).1 h.2
    rw [run, run, transcript, transcript, exchanges, exchanges, List.map_cons, List.map_cons,
      ← h.1]
    exact ⟨hnext.1, congrArg ((query, (serve query s).1) :: ·) hnext.2⟩

theorem run_congr {serve serve' : Service σ Q R} (client : Client Q R A) {s : σ}
    (h : ∀ e ∈ client.exchanges serve s, serve' e.query e.before = serve e.query e.before) :
    client.run serve' s = client.run serve s ∧
      client.exchanges serve' s = client.exchanges serve s := by
  induction client generalizing s with
  | done result => exact ⟨rfl, rfl⟩
  | ask query next ih =>
    rw [exchanges, List.forall_mem_cons] at h
    have hnext := ih (serve query s).1 h.2
    have hserved : serve' query s = serve query s := h.1
    rw [run, run, exchanges, exchanges, hserved]
    exact ⟨hnext.1, congrArg (_ :: ·) hnext.2⟩

/-! A client behind a gate is a client of what lies behind the gate. -/

section

variable {κ : Type}

def through (gate : Service.Gate κ Q R) : Client Q R A → κ → Client Q R A
  | .done result, _ => .done result
  | .ask query next, k =>
    match gate query k with
    | (some reply, k) => (next reply).through gate k
    | (none, k) => .ask query fun reply => (next reply).through gate k

theorem run_gated (gate : Service.Gate κ Q R) (serve : Service σ Q R) (client : Client Q R A)
    (s : σ) (k : κ) :
    (client.run (serve.gated gate) (s, k)).1 = ((client.through gate k).run serve s).1 ∧
      (client.run (serve.gated gate) (s, k)).2.1 = ((client.through gate k).run serve s).2 := by
  induction client generalizing s k with
  | done result => exact ⟨rfl, rfl⟩
  | ask query next ih =>
    unfold through
    simp only [run, Service.gated]
    cases hgate : gate query k with
    | mk verdict k' =>
      cases verdict with
      | some reply => exact ih reply s k'
      | none => exact ih (serve query s).1 (serve query s).2 k'

end

/-- Given these replies, one for each query, the client is done with the last of them. -/
def Takes : Client Q R A → List R → Prop
  | .done _, replies => replies = []
  | .ask _ _, [] => False
  | .ask _ next, reply :: replies => (next reply).Takes replies

theorem Takes.eq_nil_of_append {client : Client Q R A} {replies more : List R}
    (h : client.Takes replies) (hmore : client.Takes (replies ++ more)) : more = [] := by
  induction client generalizing replies with
  | done result =>
    rw [show replies = [] from h] at hmore
    exact hmore
  | ask query next ih =>
    cases replies with
    | nil => exact h.elim
    | cons reply replies => exact ih reply h hmore

/-- The client that asks the same thing `n` times and returns what it always returns. -/
def repeats (query : Q) (result : A) : Nat → Client Q R A
  | 0 => .done result
  | n + 1 => .ask query fun _ => repeats query result n

theorem repeats_asksAtMost (query : Q) (result : A) (n : Nat) :
    (repeats query result n : Client Q R A).AsksAtMost n := by
  induction n with
  | zero => trivial
  | succ n ih => exact fun _ => ih

theorem run_repeats (serve : Service σ Q R) (query : Q) (result : A) (n : Nat) (s : σ) :
    ((repeats query result n).run serve s).1 = result := by
  induction n generalizing s with
  | zero => rfl
  | succ n ih => exact ih _

theorem takes_repeats (query : Q) (result : A) {n : Nat} {replies : List R}
    (h : replies.length = n) : (repeats query result n).Takes replies := by
  induction replies generalizing n with
  | nil =>
    subst h
    rfl
  | cons reply replies ih =>
    subst h
    exact ih rfl

theorem reply_of_mem_exchanges {serve : Service σ Q R} {client : Client Q R A} {s : σ}
    {e : Exchange σ Q R} (he : e ∈ client.exchanges serve s) :
    e.reply = (serve e.query e.before).1 := by
  rw [exchanges_eq] at he
  exact Service.reply_of_mem_exchanges he

end Client

end ProvenoZk.Foundation
