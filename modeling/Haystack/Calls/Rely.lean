import Haystack.Calls.Assertion

/-! Programs that do not get in each other's way. Each request has a discipline of
its own, and each accepts what the calls of the others do. What is proved of a
request from one state on, started at any later time, then holds in every
interleaving. -/
namespace Haystack.Calls

variable {Q C : Type} {R : C → Type} {S ε α : Type}

def Compatible (d : Q → Discipline S) (q r : Q) : Prop :=
  (∀ s t, (d q).steps s t → (d r).moves s t) ∧ ∀ s t, (d r).steps s t → (d q).moves s t

theorem Compatible.symm {d : Q → Discipline S} {q r : Q} (h : Compatible d q r) :
    Compatible d r q :=
  ⟨h.2, h.1⟩

namespace Pool

/-- The requests of the pool and those still to come are pairwise compatible, and
each of them satisfies its postcondition from here on. -/
structure Apart (d : Q → Discipline S) (exec : (c : C) → S → Except ε (S × R c))
    (handler : Q → Program R ε α) (post : Q → Except ε α → S → Prop) (waiting : List Q)
    (p : Pool Q R S ε α) : Prop where
  compatible : (p.threads.map Thread.request ++ waiting).Pairwise (Compatible d)
  invariant : ∀ q, (d q).invariant p.state
  threads : ∀ (i : Nat) (t : Thread Q R ε α), p.threads[i]? = some t →
    t.rest.Holds (d t.request) exec (post t.request) p.state
  fresh : ∀ q ∈ waiting, (handler q).Holds (d q) exec (post q) p.state

variable {d : Q → Discipline S} {exec : (c : C) → S → Except ε (S × R c)}
  {handler : Q → Program R ε α} {post : Q → Except ε α → S → Prop} {waiting : List Q}
  {p q : Pool Q R S ε α}

theorem Apart.start {r : Q} (apart : p.Apart d exec handler post (r :: waiting)) :
    Apart d exec handler post waiting ⟨p.state, p.threads ++ [⟨r, 0, handler r⟩]⟩ := by
  refine ⟨?_, apart.invariant, ?_, ?_⟩
  · have same := apart.compatible
    simpa using same
  · intro i t found
    rcases start_found handler found with ⟨-, rfl⟩ | old
    · exact apart.fresh r List.mem_cons_self
    · exact apart.threads i t old
  · exact fun s member => apart.fresh s (List.mem_cons_of_mem r member)

theorem Apart.between (apart : p.Apart d exec handler post waiting) {i j : Nat}
    {t u : Thread Q R ε α} (first : p.threads[i]? = some t) (second : p.threads[j]? = some u)
    (differ : i ≠ j) : Compatible d t.request u.request := by
  have pairs := List.pairwise_iff_getElem.mp
    (List.pairwise_map.mp (List.pairwise_append.mp apart.compatible).1)
  obtain ⟨hi, rfl⟩ := List.getElem?_eq_some_iff.mp first
  obtain ⟨hj, rfl⟩ := List.getElem?_eq_some_iff.mp second
  rcases Nat.lt_or_gt_of_ne differ with before | after
  · exact pairs i j hi hj before
  · exact (pairs j i hj hi after).symm

theorem Apart.step (apart : p.Apart d exec handler post waiting)
    (shared : ∀ q r s, (d q).invariant s → (d r).invariant s) {i : Nat}
    (taken : Next exec handler p (.step i) q) : q.Apart d exec handler post waiting := by
  obtain ⟨t, s, rest, found, step, rfl⟩ := next_step_cases exec handler taken
  have own := (apart.threads i t found).step (apart.invariant _) step
  refine ⟨?_, fun r => shared t.request r s own.1.1, ?_, ?_⟩
  · rw [advance_requests s rest found]
    exact apart.compatible
  · intro j u there
    rcases advance_found there with ⟨rfl, rfl⟩ | ⟨differ, other⟩
    · exact own.2
    · have between := apart.between found other (Ne.symm differ)
      exact (apart.threads j u other).later (between.1 _ _ own.1.2)
  · intro r member
    have between := (List.pairwise_append.mp apart.compatible).2.2 t.request
      (List.mem_map.mpr ⟨t, List.mem_of_getElem? found, rfl⟩) r member
    exact (apart.fresh r member).later (between.1 _ _ own.1.2)

theorem Apart.runs {es : List (Event Q ε)} (apart : p.Apart d exec handler post (started es))
    (shared : ∀ q r s, (d q).invariant s → (d r).invariant s)
    (unfailing : ∀ e ∈ es, e.unfailing = true) (run : p.runs exec handler es = some q) :
    q.Apart d exec handler post [] := by
  induction es generalizing p with
  | nil =>
    cases Option.some.inj run
    exact apart
  | cons e es ih =>
    simp only [Pool.runs, Option.bind_eq_some_iff] at run
    obtain ⟨m, first, rest⟩ := run
    have later : ∀ e ∈ es, e.unfailing = true :=
      fun e member => unfailing e (List.mem_cons_of_mem _ member)
    have taken := next_cases exec handler first
    cases e with
    | start r =>
      cases taken
      exact ih apart.start later rest
    | step i => exact ih (apart.step shared taken) later rest
    | abort i applied x => exact absurd (unfailing _ List.mem_cons_self) (by simp [Event.unfailing])

theorem Apart.outcome (apart : p.Apart d exec handler post waiting) {t : Thread Q R ε α}
    {r : Except ε α} (member : t ∈ p.threads) (ended : t.rest.outcome = some r) :
    post t.request r p.state := by
  obtain ⟨i, found⟩ := List.mem_iff_getElem?.mp member
  exact (apart.threads i t found).outcome (apart.invariant _) ended

end Pool

end Haystack.Calls
