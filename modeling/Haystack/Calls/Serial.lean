import Haystack.Calls.Pool

/-! Requests handled one after another. Every such history is one of the
interleavings: each thread is started and takes all its steps in a row. -/
namespace Haystack.Calls

variable {Q C : Type} {R : C → Type} {S ε α : Type}
  (exec : (c : C) → S → Except ε (S × R c)) (handler : Q → Program R ε α)

def Program.ended : Except ε α → Program R ε α
  | .ok a => done a
  | .error e => throw e

@[simp] theorem Program.outcome_ended (r : Except ε α) :
    (ended r : Program R ε α).outcome = some r := by
  cases r <;> rfl

/-- The state after all requests and the outcome of each. -/
def serve : S → List Q → S × List (Except ε α)
  | s, [] => (s, [])
  | s, q :: qs =>
    let first := (handler q).run exec s
    let rest := serve first.1 qs
    (rest.1, first.2 :: rest.2)

theorem serve_append (s : S) (xs ys : List Q) :
    serve exec handler s (xs ++ ys) =
      ((serve exec handler (serve exec handler s xs).1 ys).1,
        (serve exec handler s xs).2 ++ (serve exec handler (serve exec handler s xs).1 ys).2) := by
  induction xs generalizing s with
  | nil => rfl
  | cons q qs ih => simp only [List.cons_append, serve, ih]

theorem serve_induction {motive : List Q → S → Prop} {s : S} {qs : List Q} (done : List Q)
    (start : motive done s)
    (step : ∀ before q t, q ∈ qs → motive before t →
      motive (before ++ [q]) ((handler q).run exec t).1) :
    motive (done ++ qs) (serve exec handler s qs).1 := by
  induction qs generalizing s done with
  | nil => simpa [serve] using start
  | cons q qs ih =>
    have first := step done q s List.mem_cons_self start
    have rest :=
      ih (done ++ [q])
        first (fun before r t member => step before r t (List.mem_cons_of_mem q member))
    simpa [serve] using rest

namespace Pool

theorem next_step {p : Pool Q R S ε α} {i : Nat} {t : Thread Q R ε α} {c : C}
    {k : R c → Program R ε α} (found : p.threads[i]? = some t) (rest : t.rest = .call c k) :
    p.next exec handler (.step i) = some (match exec c p.state with
      | .ok (s, r) => p.advance i t s (k r)
      | .error e => p.advance i t p.state (.throw e)) := by
  simp only [next, found, rest]
  cases exec c p.state <;> rfl

theorem finish {p : Pool Q R S ε α} {i : Nat} {t : Thread Q R ε α}
    (found : p.threads[i]? = some t) :
    ∃ n calls, p.runs exec handler (List.replicate n (.step i)) =
      some ⟨(t.rest.run exec p.state).1,
        p.threads.set i ⟨t.request, calls, .ended (t.rest.run exec p.state).2⟩⟩ := by
  obtain ⟨request, calls, rest⟩ := t
  induction rest generalizing p calls with
  | done a =>
    refine ⟨0, calls, ?_⟩
    obtain ⟨bound, value⟩ := List.getElem?_eq_some_iff.mp found
    simp only [List.replicate_zero, runs, Program.run, Program.ended, ← value,
      List.set_getElem_self]
  | throw e =>
    refine ⟨0, calls, ?_⟩
    obtain ⟨bound, value⟩ := List.getElem?_eq_some_iff.mp found
    simp only [List.replicate_zero, runs, Program.run, Program.ended, ← value,
      List.set_getElem_self]
  | call c k ih =>
    have bound := (List.getElem?_eq_some_iff.mp found).1
    have first := next_step exec handler found rfl
    cases answer : exec c p.state with
    | error e =>
      rw [answer] at first
      refine ⟨1, calls + 1, ?_⟩
      simp only [List.replicate_one, runs, first, Option.bind_some, Program.run, answer,
        Program.ended]
      rfl
    | ok reply =>
      rw [answer] at first
      have there : (p.advance i ⟨request, calls, .call c k⟩ reply.1 (k reply.2)).threads[i]? =
          some ⟨request, calls + 1, k reply.2⟩ := by
        simp [advance, bound]
      obtain ⟨n, count, tail⟩ := ih reply.2 (calls + 1) there
      refine ⟨n + 1, count, ?_⟩
      simp only [List.replicate_succ, runs, first, Option.bind_some, tail, Program.run, answer]
      simp [advance]

theorem started_replicate (n i : Nat) :
    started (List.replicate n (.step i) : List (Event Q ε)) = [] := by
  induction n with
  | zero => rfl
  | succ n ih => simpa [List.replicate_succ, started] using ih

theorem serve_runs (p : Pool Q R S ε α) (qs : List Q) : ∃ es threads,
    started es = qs ∧ (∀ e ∈ es, e.unfailing = true) ∧
    p.runs exec handler es = some ⟨(serve exec handler p.state qs).1, p.threads ++ threads⟩ ∧
    threads.map (fun t => t.request) = qs ∧
    threads.map (fun t => t.rest.outcome) = (serve exec handler p.state qs).2.map some := by
  induction qs generalizing p with
  | nil => exact ⟨[], [], rfl, by simp, by simp [runs, serve], rfl, rfl⟩
  | cons q qs ih =>
    have found :
        (⟨p.state, p.threads ++ [⟨q, 0, handler q⟩]⟩ : Pool Q R S ε α).threads[p.threads.length]? =
        some ⟨q, 0, handler q⟩ := by simp
    obtain ⟨n, calls, done⟩ := finish exec handler found
    obtain ⟨es, threads, begun, unfailing, run, requests, outcomes⟩ :=
      ih ⟨((handler q).run exec p.state).1,
        p.threads ++ [⟨q, calls, .ended ((handler q).run exec p.state).2⟩]⟩
    refine ⟨.start q :: (List.replicate n (.step p.threads.length) ++ es),
      ⟨q, calls, .ended ((handler q).run exec p.state).2⟩ :: threads, ?_, ?_, ?_, ?_, ?_⟩
    · simp [started, started_append, started_replicate, begun]
    · intro e member
      rcases List.mem_cons.mp member with rfl | member
      · rfl
      · rcases List.mem_append.mp member with step | later
        · rw [(List.mem_replicate.mp step).2]
          rfl
        · exact unfailing e later
    · have start : p.next exec handler (.start q) =
          some ⟨p.state, p.threads ++ [⟨q, 0, handler q⟩]⟩ := rfl
      rw [runs, start, Option.bind_some, runs_append, done, Option.bind_some]
      simp only [List.set_append_right _ _ (Nat.le_refl _), Nat.sub_self,
        List.set_cons_zero, run, serve, List.append_assoc, List.singleton_append]
    · simp [requests]
    · simp [outcomes, serve]

theorem answer_runs (p : Pool Q R S ε α) {q : Q} {s : S} {x : Except ε α}
    (answer : (handler q).run exec p.state = (s, x)) : ∃ es thread,
      started es = [q] ∧ (∀ e ∈ es, e.unfailing = true) ∧
      p.runs exec handler es = some ⟨s, p.threads ++ [thread]⟩ ∧
      thread.request = q ∧ thread.rest.outcome = some x := by
  obtain ⟨es, threads, begun, unfailing, reached, requests, outcomes⟩ :=
    p.serve_runs exec handler [q]
  have single : threads.length = 1 := by
    rw [← List.length_map (fun t => t.request), requests]
    rfl
  obtain ⟨thread, rfl⟩ := List.length_eq_one_iff.mp single
  simp only [serve, answer, List.map_cons, List.map_nil, List.cons.injEq, and_true]
    at reached requests outcomes
  exact ⟨es, thread, begun, unfailing, reached, requests, outcomes⟩

end Pool

end Haystack.Calls
