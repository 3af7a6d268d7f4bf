import Haystack.Calls.Pool

/-! Outcomes that are right at one moment. A program learns of the shared state call by
call while others change it, and what it says in the end is compared with a single
state of the run, one between its start and its end. -/
namespace Haystack.Calls

variable {Q C : Type} {R : C → Type} {S ε α β : Type}

namespace Program

variable (exec : (c : C) → S → Except ε (S × R c)) (I : S → Prop)

def Leaves (P : Except ε α → Prop) : Program R ε α → Prop
  | done a => P (.ok a)
  | throw e => P (.error e)
  | call c next => ∀ s, I s → match exec c s with
    | .ok (_, r) => (next r).Leaves P
    | .error e => P (.error e)

/-- The outcome of the program will be right of a state that it has still to meet: the
last one, or one from which, or to which, it makes a call. -/
def Sees (P : S → Except ε α → Prop) : Program R ε α → Prop
  | done a => ∀ s, I s → P s (.ok a)
  | throw e => ∀ s, I s → P s (.error e)
  | call c next => ∀ s, I s → match exec c s with
    | .ok (t, r) =>
      (next r).Leaves exec I (P s) ∨ (next r).Leaves exec I (P t) ∨ (next r).Sees P
    | .error e => P s (.error e)

variable {exec I}

theorem Leaves.step {P : Except ε α → Prop} {p p' : Program R ε α} {s t : S}
    (leaves : p.Leaves exec I P) (inv : I s) (step : p.Step exec s p' t) : p'.Leaves exec I P := by
  cases step with
  | answered answer =>
    have h := leaves s inv
    rw [answer] at h
    exact h
  | refused answer =>
    have h := leaves s inv
    rw [answer] at h
    exact h

theorem Leaves.outcome {P : Except ε α → Prop} {p : Program R ε α} {x : Except ε α}
    (leaves : p.Leaves exec I P) (ended : p.outcome = some x) : P x := by
  cases p with
  | done a => exact Option.some.inj ended ▸ leaves
  | throw e => exact Option.some.inj ended ▸ leaves
  | call c next => contradiction

variable {P : S → Except ε α → Prop}

theorem Sees.step {p p' : Program R ε α} {s t : S} (sees : p.Sees exec I P) (inv : I s)
    (step : p.Step exec s p' t) :
    p'.Leaves exec I (P s) ∨ p'.Leaves exec I (P t) ∨ p'.Sees exec I P := by
  cases step with
  | answered answer =>
    have h := sees s inv
    rw [answer] at h
    exact h
  | refused answer =>
    have h := sees s inv
    rw [answer] at h
    exact .inl h

theorem Sees.outcome {p : Program R ε α} {s : S} {x : Except ε α} (sees : p.Sees exec I P)
    (inv : I s) (ended : p.outcome = some x) : P s x := by
  cases p with
  | done a => exact Option.some.inj ended ▸ sees s inv
  | throw e => exact Option.some.inj ended ▸ sees s inv
  | call c next => contradiction

theorem sees_read {c : C} {next : R c → Program R ε α}
    (h : ∀ s, I s → ∃ r, exec c s = .ok (s, r) ∧
      ((next r).Leaves exec I (P s) ∨ (next r).Sees exec I P)) : (call c next).Sees exec I P := by
  intro s inv
  obtain ⟨r, answer, rest⟩ := h s inv
  rw [answer]
  exact rest.elim .inl (fun sees => .inr (.inr sees))

theorem sees_call {c : C} {next : R c → Program R ε α}
    (h : ∀ s, I s → ∃ t r, exec c s = .ok (t, r) ∧ (next r).Sees exec I P) :
    (call c next).Sees exec I P := by
  intro s inv
  obtain ⟨t, r, answer, sees⟩ := h s inv
  rw [answer]
  exact .inr (.inr sees)

theorem sees_write {c : C} {next : R c → Program R ε α}
    (h : ∀ s, I s → ∃ t r, exec c s = .ok (t, r) ∧ (next r).Leaves exec I (P t)) :
    (call c next).Sees exec I P := by
  intro s inv
  obtain ⟨t, r, answer, leaves⟩ := h s inv
  rw [answer]
  exact .inr (.inl leaves)

theorem sees_refused {c : C} {next : R c → Program R ε α} {e : ε}
    (h : ∀ s, I s → exec c s = .error e ∧ P s (.error e)) : (call c next).Sees exec I P := by
  intro s inv
  rw [(h s inv).1]
  exact (h s inv).2

theorem leaves_call {P : Except ε α → Prop} {c : C} {next : R c → Program R ε α}
    (h : ∀ s, I s → ∃ t r, exec c s = .ok (t, r) ∧ (next r).Leaves exec I P) :
    (call c next).Leaves exec I P := by
  intro s inv
  obtain ⟨t, r, answer, leaves⟩ := h s inv
  rw [answer]
  exact leaves

theorem leaves_map {P : Except ε α → Prop} (f : α → β) {p : Program R ε α}
    (leaves : p.Leaves exec I P) : (f <$> p).Leaves exec I (fun y => ∃ x, y = x.map f ∧ P x) := by
  induction p with
  | done a => exact ⟨.ok a, rfl, leaves⟩
  | throw e => exact ⟨.error e, rfl, leaves⟩
  | call c next ih =>
    intro s inv
    have h := leaves s inv
    cases answer : exec c s with
    | error e =>
      rw [answer] at h
      exact ⟨.error e, rfl, h⟩
    | ok reply =>
      rw [answer] at h
      exact ih reply.2 h

theorem sees_map (f : α → β) {p : Program R ε α} (sees : p.Sees exec I P) :
    (f <$> p).Sees exec I (fun s y => ∃ x, y = x.map f ∧ P s x) := by
  induction p with
  | done a => exact fun s inv => ⟨.ok a, rfl, sees s inv⟩
  | throw e => exact fun s inv => ⟨.error e, rfl, sees s inv⟩
  | call c next ih =>
    intro s inv
    have h := sees s inv
    cases answer : exec c s with
    | error e =>
      rw [answer] at h
      exact ⟨.error e, rfl, h⟩
    | ok reply =>
      rw [answer] at h
      rcases h with before | after | later
      · exact .inl (leaves_map f before)
      · exact .inr (.inl (leaves_map f after))
      · exact .inr (.inr (ih reply.2 later))

/-- In states with the invariant the program ends with x after exactly n calls. -/
def Takes (exec : (c : C) → S → Except ε (S × R c)) (I : S → Prop) (x : Except ε α) :
    Nat → Program R ε α → Prop
  | 0, p => p.outcome = some x
  | n + 1, call c next => ∀ s, I s → ∃ t r, exec c s = .ok (t, r) ∧ (next r).Takes exec I x n
  | _ + 1, done _ => False
  | _ + 1, throw _ => False

theorem Takes.step {x : Except ε α} {n : Nat} {p p' : Program R ε α} {s t : S}
    (takes : p.Takes exec I x n) (inv : I s) (step : p.Step exec s p' t) :
    ∃ k, n = k + 1 ∧ p'.Takes exec I x k := by
  cases n with
  | zero => cases step <;> cases takes
  | succ k =>
    refine ⟨k, rfl, ?_⟩
    cases p with
    | done a => exact takes.elim
    | throw e => exact takes.elim
    | call c next =>
      obtain ⟨t', r, answer, rest⟩ := takes s inv
      exact (step.of_ok _ answer).1 ▸ rest

end Program

namespace Pool

variable (exec : (c : C) → S → Except ε (S × R c)) (handler : Q → Program R ε α)

def Passes (p : Pool Q R S ε α) (es : List (Event Q ε)) (m : Pool Q R S ε α) : Prop :=
  ∃ before after, es = before ++ after ∧ p.runs exec handler before = some m

/-- The run passes through the pool m while request i is being handled: after its start, and at
the latest right after the call that ends it. -/
def Moment (p : Pool Q R S ε α) (es : List (Event Q ε)) (i : Nat) (m : Pool Q R S ε α) : Prop :=
  ∃ before after, es = before ++ after ∧ p.runs exec handler before = some m ∧
    i < m.threads.length ∧ ∀ xs e n t, before = xs ++ [e] → p.runs exec handler xs = some n →
      n.threads[i]? = some t → t.rest.running = true

variable {exec handler} {p q m n : Pool Q R S ε α} {e : Event Q ε} {es : List (Event Q ε)}

theorem Moment.passes {i : Nat} (moment : p.Moment exec handler es i m) :
    p.Passes exec handler es m := by
  obtain ⟨before, after, split, reached, -⟩ := moment
  exact ⟨before, after, split, reached⟩

theorem passes_last (run : p.runs exec handler es = some q) : p.Passes exec handler es q :=
  ⟨es, [], (List.append_nil es).symm, run⟩

theorem runs_snoc {before : List (Event Q ε)} (reached : p.runs exec handler before = some m)
    (taken : m.next exec handler e = some n) : p.runs exec handler (before ++ [e]) = some n := by
  rw [runs_append, reached]
  simp only [Option.bind_some, runs, taken]

theorem passes_induction {motive : Pool Q R S ε α → Prop} (initial : motive p)
    (preserved : ∀ before e after m n, es = before ++ e :: after →
      p.runs exec handler before = some m → m.next exec handler e = some n → motive m → motive n)
    (run : p.runs exec handler es = some q) : motive q := by
  suffices onward : ∀ after before m, es = before ++ after → p.runs exec handler before = some m →
      motive m → m.runs exec handler after = some q →
        motive q from onward es [] p rfl rfl initial run
  intro after
  induction after with
  | nil => exact fun _ _ _ _ now rest => Option.some.inj rest ▸ now
  | cons e after ih =>
    intro before m split reached now rest
    simp only [runs, Option.bind_eq_some_iff] at rest
    obtain ⟨n, first, rest⟩ := rest
    have longer : es = before ++ [e] ++ after := by
      rw [split, List.append_assoc, List.singleton_append]
    exact ih (before ++ [e]) n longer (runs_snoc reached first)
      (preserved before e after m n split reached first now) rest

def Uncut (i : Nat) (es : List (Event Q ε)) : Prop := ∀ applied x, .abort i applied x ∉ es

variable {i : Nat} {t u : Thread Q R ε α}

theorem next_thread (taken : Next exec handler p e m) (found : p.threads[i]? = some t)
    (uncut : ∀ applied x, e ≠ .abort i applied x) :
    m.threads[i]? = some t ∨ ∃ rest, t.rest.Step exec p.state rest m.state ∧
      m.threads[i]? = some ⟨t.request, t.calls + 1, rest⟩ := by
  have bound := (List.getElem?_eq_some_iff.mp found).1
  cases taken with
  | start r =>
    left
    rw [List.getElem?_append_left bound]
    exact found
  | @answered j v c k s r there rest answer =>
    by_cases same : j = i
    · subst same
      cases Option.some.inj (found.symm.trans there)
      right
      refine ⟨k r, ?_, by simp [advance, bound]⟩
      rw [rest]
      exact .answered answer
    · left
      simp [advance, same, found]
  | @refused j v c k x there rest answer =>
    by_cases same : j = i
    · subst same
      cases Option.some.inj (found.symm.trans there)
      right
      refine ⟨.throw x, ?_, by simp [advance, bound]⟩
      rw [rest]
      exact .refused answer
    · left
      simp [advance, same, found]
  | @lost j v c k x there =>
    have differ : j ≠ i := fun same => uncut false x (same ▸ rfl)
    left
    simp [advance, differ, found]
  | @cut j v c k x there =>
    have differ : j ≠ i := fun same => uncut true x (same ▸ rfl)
    left
    simp [advance, differ, found]

theorem next_abort {applied : Bool} {x : ε} (taken : Next exec handler p (.abort i applied x) m)
    (found : m.threads[i]? = some t) : t.rest.running = false := by
  cases taken with
  | lost =>
    rcases advance_found found with ⟨-, rfl⟩ | ⟨differ, -⟩
    · rfl
    · exact (differ rfl).elim
  | cut =>
    rcases advance_found found with ⟨-, rfl⟩ | ⟨differ, -⟩
    · rfl
    · exact (differ rfl).elim

theorem running_before (taken : Next exec handler p e m) (found : p.threads[i]? = some t)
    (later : m.threads[i]? = some u) (running : u.rest.running = true) :
    t.rest.running = true := by
  obtain ⟨v, there, -, same⟩ := (next_extends taken).threads i t found
  cases Option.some.inj (later.symm.trans there)
  cases active : t.rest.running with
  | true => rfl
  | false => rw [same active, active] at running; exact running

theorem moment_of_running {before after : List (Event Q ε)} (split : es = before ++ after)
    (reached : p.runs exec handler before = some m) (found : m.threads[i]? = some t)
    (running : t.rest.running = true) : p.Moment exec handler es i m := by
  refine ⟨before, after, split, reached, (List.getElem?_eq_some_iff.mp found).1, ?_⟩
  rintro xs e n u rfl earlier there
  rw [runs_append, earlier, Option.bind_some] at reached
  simp only [runs, Option.bind_eq_some_iff, Option.some.injEq] at reached
  obtain ⟨_, taken, rfl⟩ := reached
  exact running_before (next_cases exec handler taken) there found running

theorem moment_after {before after : List (Event Q ε)} (split : es = before ++ e :: after)
    (reached : p.runs exec handler before = some m) (taken : m.next exec handler e = some n)
    (begun : i < n.threads.length)
    (running : ∀ t, m.threads[i]? = some t → t.rest.running = true) :
    p.Moment exec handler es i n := by
  refine ⟨before ++ [e], after, by simp [split], runs_snoc reached taken, begun, ?_⟩
  intro xs e' k t same earlier there
  obtain ⟨rfl, -⟩ := List.append_inj' same rfl
  cases Option.some.inj (reached.symm.trans earlier)
  exact running t there

theorem next_started (taken : Next exec handler p e m) (found : m.threads[i]? = some t)
    (fresh : p.threads.length ≤ i) : t = ⟨t.request, 0, handler t.request⟩ := by
  have bound := (List.getElem?_eq_some_iff.mp found).1
  cases taken with
  | start r =>
    rcases start_found handler found with ⟨-, rfl⟩ | old
    · rfl
    · have bound' := (List.getElem?_eq_some_iff.mp old).1
      omega
  | answered => simp only [advance, List.length_set] at bound; omega
  | refused => simp only [advance, List.length_set] at bound; omega
  | lost => simp only [advance, List.length_set] at bound; omega
  | cut => simp only [advance, List.length_set] at bound; omega

theorem request_induction {motive : Thread Q R ε α → Prop} (run : p.runs exec handler es = some q)
    (uncut : Uncut i es) (fresh : p.threads.length ≤ i) (present : q.threads[i]? = some u)
    (begun : ∀ m r, p.Moment exec handler es i m → r = u.request → motive ⟨r, 0, handler r⟩)
    (steps : ∀ m n t rest, p.Moment exec handler es i m → p.Moment exec handler es i n →
      t.rest.Step exec m.state rest n.state → motive t →
      motive ⟨t.request, t.calls + 1, rest⟩) : motive u := by
  have whole := passes_induction (motive := fun m => ∀ t : Thread Q R ε α, m.threads[i]? = some t →
    t.request = u.request → motive t) ?_ ?_ run
  · exact whole u present rfl
  · intro t found
    have bound := (List.getElem?_eq_some_iff.mp found).1
    omega
  · intro before e after m n split reached next now t found request
    have taken := next_cases exec handler next
    have bound := (List.getElem?_eq_some_iff.mp found).1
    by_cases there : i < m.threads.length
    · have old := List.getElem?_eq_getElem there
      rcases next_thread taken old
        (fun applied x same => uncut applied x (by simp [split, same])) with
        same | ⟨rest, step, moved⟩
      · cases Option.some.inj (found.symm.trans same)
        exact now _ old request
      · cases Option.some.inj (found.symm.trans moved)
        have active : m.threads[i].rest.running = true := step.running
        refine steps m n _ rest (moment_of_running split reached old active) ?_ step
          (now _ old request)
        refine moment_after split reached next bound ?_
        intro t' there'
        exact Option.some.inj (old.symm.trans there') ▸ active
    · have first := next_started taken found (by omega)
      rw [first]
      refine begun n t.request (moment_after split reached next bound ?_) request
      intro t' there'
      exact (there (List.getElem?_eq_some_iff.mp there').1).elim

variable {I : S → Prop}

theorem moment_of_request {P : S → Except ε α → Prop} {x : Except ε α}
    (run : p.runs exec handler es = some q)
    (inv : ∀ m, p.Passes exec handler es m → I m.state) (uncut : Uncut i es)
    (fresh : p.threads.length ≤ i) (present : q.threads[i]? = some u)
    (sees : (handler u.request).Sees exec I P) (ended : u.rest.outcome = some x) :
    ∃ m, p.Moment exec handler es i m ∧ P m.state x := by
  have seen := request_induction (motive := fun t => ∃ m, p.Moment exec handler es i m ∧
    (t.rest.Sees exec I P ∨ t.rest.Leaves exec I (P m.state))) run uncut fresh present ?_ ?_
  · obtain ⟨m, moment, still | leaves⟩ := seen
    · exact ⟨m, moment, still.outcome (inv m moment.passes) ended⟩
    · exact ⟨m, moment, leaves.outcome ended⟩
  · rintro m r moment rfl
    exact ⟨m, moment, .inl sees⟩
  · rintro m n t rest before after step ⟨k, moment, still | leaves⟩
    · rcases still.step (inv m before.passes) step with here | next | later
      · exact ⟨m, before, .inr here⟩
      · exact ⟨n, after, .inr next⟩
      · exact ⟨n, after, .inl later⟩
    · exact ⟨k, moment, .inr (leaves.step (inv m before.passes) step)⟩

theorem unbegun_of_request (run : p.runs exec handler es = some q) (uncut : Uncut i es)
    (fresh : p.threads.length ≤ i) (present : q.threads[i]? = some u) (none : u.calls = 0) :
    u.rest = handler u.request := by
  refine request_induction (motive := fun t => t.calls = 0 → t.rest = handler t.request)
    run uncut fresh present (fun _ _ _ _ _ => rfl) ?_ none
  intro m n t rest _ _ _ _ some
  cases some

theorem takes_of_request {x : Except ε α} {k : Nat} (run : p.runs exec handler es = some q)
    (inv : ∀ m, p.Passes exec handler es m → I m.state) (uncut : Uncut i es)
    (fresh : p.threads.length ≤ i) (present : q.threads[i]? = some u)
    (takes : (handler u.request).Takes exec I x k) :
    ∃ left, u.calls + left = k ∧ u.rest.Takes exec I x left := by
  refine request_induction
    (motive := fun t => ∃ left, t.calls + left = k ∧ t.rest.Takes exec I x left)
    run uncut fresh present ?_ ?_
  · rintro m r - rfl
    exact ⟨k, Nat.zero_add k, takes⟩
  · rintro m n t rest before after step ⟨left, count, now⟩
    obtain ⟨l, rfl, rest'⟩ := now.step (inv m before.passes) step
    exact ⟨l, by dsimp only; omega, rest'⟩

end Pool

end Haystack.Calls
