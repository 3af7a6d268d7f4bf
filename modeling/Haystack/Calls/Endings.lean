import Haystack.Calls.Assertion
import Haystack.Calls.Moments

/-! What is true at the moment at which a program ends. Others may undo it right after, so it is no
postcondition: it is said of the one state that the last call leaves. -/
namespace Haystack.Calls

variable {Q C : Type} {R : C → Type} {S ε α β : Type}

namespace Program

/-- From the state s on, whatever the others do between the calls, the state in which the program
ends satisfies P with the outcome. A program that has ended has ended in s. -/
def EndsIn (d : Discipline S) (exec : (c : C) → S → Except ε (S × R c))
    (P : S → Except ε α → Prop) : Program R ε α → S → Prop
  | done a, s => P s (.ok a)
  | throw e, s => P s (.error e)
  | call c next, s => ∀ t, d.moves s t → d.invariant t → match exec c t with
    | .ok (u, r) => (next r).EndsIn d exec P u
    | .error e => P t (.error e)

variable {d : Discipline S} {exec : (c : C) → S → Except ε (S × R c)} {P : S → Except ε α → Prop}
  {s t u : S}

theorem EndsIn.outcome {p : Program R ε α} {x : Except ε α} (ends : p.EndsIn d exec P s)
    (ended : p.outcome = some x) : P s x := by
  cases p with
  | done a => exact Option.some.inj ended ▸ ends
  | throw e => exact Option.some.inj ended ▸ ends
  | call c next => cases ended

theorem EndsIn.step {p p' : Program R ε α} (ends : p.EndsIn d exec P s) (moved : d.moves s t)
    (inv : d.invariant t) (step : p.Step exec t p' u) : p'.EndsIn d exec P u := by
  cases step with
  | answered answer =>
    have h := ends t moved inv
    rw [answer] at h
    exact h
  | refused answer =>
    have h := ends t moved inv
    rw [answer] at h
    exact h

theorem endsIn_call {c : C} {next : R c → Program R ε α}
    (answers : d.Onward s (fun t => ∃ u r, exec c t = .ok (u, r) ∧ (next r).EndsIn d exec P u)) :
    (call c next).EndsIn d exec P s := by
  intro t moved inv
  obtain ⟨u, r, answer, rest⟩ := answers t moved inv
  rw [answer]
  exact rest

theorem endsIn_refused {c : C} {next : R c → Program R ε α} {e : ε}
    (refuses : d.Onward s (fun t => exec c t = .error e ∧ P t (.error e))) :
    (call c next).EndsIn d exec P s := by
  intro t moved inv
  obtain ⟨answer, right⟩ := refuses t moved inv
  rw [answer]
  exact right

theorem endsIn_map (f : α → β) {p : Program R ε α} (ends : p.EndsIn d exec P s) :
    (f <$> p).EndsIn d exec (fun t y => ∃ x, y = x.map f ∧ P t x) s := by
  induction p generalizing s with
  | done a => exact ⟨.ok a, rfl, ends⟩
  | throw e => exact ⟨.error e, rfl, ends⟩
  | call c next ih =>
    intro t moved inv
    have h := ends t moved inv
    cases answer : exec c t with
    | error e =>
      rw [answer] at h
      exact ⟨.error e, rfl, h⟩
    | ok reply =>
      rw [answer] at h
      exact ih reply.2 h

theorem endsIn_bind {p : Program R ε β} {f : β → Program R ε α} (inv : d.invariant s)
    (holds : p.Holds d exec (fun x t => ∃ b, x = .ok b ∧ (f b).EndsIn d exec P t) s) :
    (p >>= f).EndsIn d exec P s := by
  induction p generalizing s with
  | done b =>
    obtain ⟨_, same, ends⟩ := holds s (d.refl s) inv
    cases same
    exact ends
  | throw e =>
    obtain ⟨_, same, -⟩ := holds s (d.refl s) inv
    cases same
  | call c next ih =>
    intro t moved inv'
    have h := holds.answered moved inv'
    cases answer : exec c t with
    | error e =>
      rw [answer] at h
      obtain ⟨_, same, -⟩ := h t (d.refl t) inv'
      cases same
    | ok reply =>
      rw [answer] at h
      exact ih reply.2 h.1.1 h.2

theorem Holds.endsIn {p : Program R ε α} (holds : p.Holds d exec (fun x t => P t x) s)
    (inv : d.invariant s) : p.EndsIn d exec P s := by
  induction p generalizing s with
  | done a => exact holds s (d.refl s) inv
  | throw e => exact holds s (d.refl s) inv
  | call c next ih =>
    intro t moved inv'
    have h := holds.answered moved inv'
    cases answer : exec c t with
    | error e =>
      rw [answer] at h
      exact h t (d.refl t) inv'
    | ok reply =>
      rw [answer] at h
      exact ih reply.2 h.2 h.1.1

end Program

namespace Pool

variable {d : Discipline S} {exec : (c : C) → S → Except ε (S × R c)}
  {handler : Q → Program R ε α} {P : S → Except ε α → Prop} {p q : Pool Q R S ε α}
  {es : List (Event Q ε)} {i : Nat} {u : Thread Q R ε α}

theorem endsIn_of_thread (run : p.runs exec handler es = some q) (fresh : p.threads.length ≤ i)
    (inv : ∀ m, p.Passes exec handler es m → d.invariant m.state)
    (moves : ∀ m e n, p.Passes exec handler es m → e ∈ es → Next exec handler m e n →
      d.moves m.state n.state)
    (present : q.threads[i]? = some u) (uncut : u.rest.running = true ∨ Uncut i es)
    (ends : ∀ s, d.invariant s → (handler u.request).EndsIn d exec P s) :
    ∃ m, p.Moment exec handler es i m ∧ m.threads[i]? = some u ∧
      u.rest.EndsIn d exec P m.state ∧ d.moves m.state q.state := by
  have whole := passes_induction (motive := fun n => ∀ t : Thread Q R ε α,
    n.threads[i]? = some t → t.request = u.request → (t.rest.running = true ∨ Uncut i es) →
    ∃ m, p.Moment exec handler es i m ∧ m.threads[i]? = some t ∧
      t.rest.EndsIn d exec P m.state ∧ d.moves m.state n.state) ?_ ?_ run
  · exact whole u present rfl uncut
  · intro t found
    have bound := (List.getElem?_eq_some_iff.mp found).1
    omega
  · intro before e after m n split reached next now t found request uncut
    have taken := next_cases exec handler next
    have bound := (List.getElem?_eq_some_iff.mp found).1
    have passes : p.Passes exec handler es m := ⟨before, e :: after, split, reached⟩
    have member : e ∈ es := by simp [split]
    by_cases there : i < m.threads.length
    · have old := List.getElem?_eq_getElem there
      by_cases cut : ∃ applied x, e = .abort i applied x
      · -- Of the threads that are cut off nothing is said.
        obtain ⟨applied, x, rfl⟩ := cut
        rcases uncut with running | uncut
        · rw [next_abort taken found] at running
          cases running
        · exact (uncut applied x member).elim
      rcases next_thread taken old (fun applied x same => cut ⟨applied, x, same⟩) with
        same | ⟨rest, step, moved⟩
      · cases Option.some.inj (found.symm.trans same)
        obtain ⟨k, moment, here, rest, onward⟩ := now _ old request uncut
        exact ⟨k, moment, here, rest, d.trans onward (moves m e n passes member taken)⟩
      · cases Option.some.inj (found.symm.trans moved)
        obtain ⟨k, -, -, rest, onward⟩ := now _ old request (.inl step.running)
        refine ⟨n, moment_after split reached next bound ?_, found,
          rest.step onward (inv m passes) step, d.refl _⟩
        intro t' there'
        exact Option.some.inj (old.symm.trans there') ▸ step.running
    · have first := next_started taken found (by omega)
      refine ⟨n, moment_after split reached next bound ?_, found, ?_, d.refl _⟩
      · intro t' there'
        exact (there (List.getElem?_eq_some_iff.mp there').1).elim
      · rw [first]
        refine request ▸ ends _ (inv n ?_)
        exact ⟨before ++ [e], after, by simp [split], runs_snoc reached next⟩

end Pool

end Haystack.Calls
