import Haystack.Calls.Pool

/-! Assertions about one program of a pool. The other programs are not named:
they may move the state, at any time between two calls, along a relation, and the
program promises in turn what its own calls do. An assertion proved for each
handler alone therefore holds in every interleaving. -/
namespace Haystack.Calls

variable {Q C : Type} {R : C → Type} {S ε α : Type}

/-- What every call keeps of a state, how far the others may move it between two
calls, and what a call of the program itself may do to it. -/
structure Discipline (S : Type) where
  invariant : S → Prop
  moves : S → S → Prop
  steps : S → S → Prop
  refl : ∀ s, moves s s
  trans : ∀ {s t u}, moves s t → moves t u → moves s u
  still : ∀ s, steps s s

def Discipline.shared (invariant : S → Prop) (moves : S → S → Prop) (refl : ∀ s, moves s s)
    (trans : ∀ {s t u}, moves s t → moves t u → moves s u) : Discipline S :=
  ⟨invariant, moves, moves, refl, trans, refl⟩

def Discipline.ofInvariant (invariant : S → Prop) : Discipline S :=
  .shared invariant (fun _ _ => True) (fun _ => trivial) (fun _ _ => trivial)

def Discipline.alone (invariant : S → Prop) : Discipline S :=
  ⟨invariant, Eq, fun _ _ => True, fun _ => rfl, Eq.trans, fun _ => trivial⟩

namespace Discipline

/-- From the state s on, whatever happens. -/
def Onward (d : Discipline S) (s : S) (P : S → Prop) : Prop :=
  ∀ t, d.moves s t → d.invariant t → P t

def Keeps (d : Discipline S) (s t : S) : Prop := d.invariant t ∧ d.steps s t

/-- The answer to a call made in the state s: the effect keeps the discipline and
the continuation holds, or the exception is accounted for from then on. -/
def Answered {A : Type} (d : Discipline S) (s : S) (continuation : A → S → Prop)
    (exception : ε → S → Prop) : Except ε (S × A) → Prop
  | .ok (t, a) => d.Keeps s t ∧ continuation a t
  | .error e => d.Onward s (exception e)

variable {d : Discipline S} {s t : S} {P P' : S → Prop}

theorem Onward.later (onward : d.Onward s P) (moved : d.moves s t) : d.Onward t P :=
  fun u later inv => onward u (d.trans moved later) inv

theorem Onward.mono (onward : d.Onward s P) (implies : ∀ t, d.invariant t → P t → P' t) :
    d.Onward s P' :=
  fun t later inv => implies t inv (onward t later inv)

end Discipline

variable (d : Discipline S) (exec : (c : C) → S → Except ε (S × R c))

/-- From the state s on, whatever the others do, each call of the program keeps
the discipline and its outcome satisfies the postcondition from then on. -/
def Program.Holds (post : Except ε α → S → Prop) : Program R ε α → S → Prop
  | .done a, s => d.Onward s (post (.ok a))
  | .throw e, s => d.Onward s (post (.error e))
  | .call c next, s => d.Onward s (fun t =>
    d.Answered t (fun r u => (next r).Holds post u) (fun e => post (.error e)) (exec c t))

namespace Program

variable {d exec} {post weaker : Except ε α → S → Prop} {s t : S}

theorem Holds.later {p : Program R ε α} (holds : p.Holds d exec post s) (moved : d.moves s t) :
    p.Holds d exec post t := by
  cases p with
  | done a => exact Discipline.Onward.later holds moved
  | throw e => exact Discipline.Onward.later holds moved
  | call c next => exact Discipline.Onward.later holds moved

theorem Holds.answered {c : C} {next : R c → Program R ε α}
    (holds : (call c next).Holds d exec post s) (moved : d.moves s t) (inv : d.invariant t) :
    d.Answered t (fun r u => (next r).Holds d exec post u) (fun e => post (.error e)) (exec c t) :=
  holds t moved inv

theorem Holds.weaken {p : Program R ε α} (holds : p.Holds d exec post s)
    (implies : ∀ r t, d.invariant t → post r t → weaker r t) : p.Holds d exec weaker s := by
  induction p generalizing s with
  | done a => exact Discipline.Onward.mono holds (implies _)
  | throw e => exact Discipline.Onward.mono holds (implies _)
  | call c next ih =>
    intro t later inv
    have h := holds.answered later inv
    cases answer : exec c t with
    | ok reply =>
      rw [answer] at h
      exact ⟨h.1, ih reply.2 h.2⟩
    | error e =>
      rw [answer] at h
      exact h.mono (implies _)

theorem Holds.outcome {p : Program R ε α} {r : Except ε α} (holds : p.Holds d exec post s)
    (inv : d.invariant s) (ended : p.outcome = some r) : post r s := by
  cases p with
  | done a =>
    cases Option.some.inj ended
    exact holds s (d.refl s) inv
  | throw e =>
    cases Option.some.inj ended
    exact holds s (d.refl s) inv
  | call c next => contradiction

theorem Holds.step {p p' : Program R ε α} (holds : p.Holds d exec post s) (inv : d.invariant s)
    (step : p.Step exec s p' t) : d.Keeps s t ∧ p'.Holds d exec post t := by
  cases step with
  | answered answer =>
    have h := holds.answered (d.refl s) inv
    rw [answer] at h
    exact h
  | refused answer =>
    have h := holds.answered (d.refl s) inv
    rw [answer] at h
    exact ⟨⟨inv, d.still s⟩, h⟩

theorem holds_call {c : C} {next : R c → Program R ε α}
    (h : d.Onward s (fun t => ∃ u r, exec c t = .ok (u, r) ∧ d.Keeps t u ∧
      (next r).Holds d exec post u)) :
    (call c next).Holds d exec post s := by
  intro t later inv
  obtain ⟨u, r, answered, rest⟩ := h t later inv
  rw [answered]
  exact rest

theorem holds_read {c : C} {next : R c → Program R ε α}
    (h : d.Onward s (fun t => ∃ r, exec c t = .ok (t, r) ∧ (next r).Holds d exec post t)) :
    (call c next).Holds d exec post s := by
  apply holds_call
  intro t later inv
  obtain ⟨r, answered, rest⟩ := h t later inv
  exact ⟨t, r, answered, ⟨inv, d.still t⟩, rest⟩

theorem holds_refused {c : C} {next : R c → Program R ε α} {e : ε}
    (h : d.Onward s (fun t => exec c t = .error e)) (onward : d.Onward s (post (.error e))) :
    (call c next).Holds d exec post s := by
  intro t later inv
  rw [h t later inv]
  exact onward.later later

theorem holds_onward {p : Program R ε α} (h : d.Onward s (fun t => p.Holds d exec post t)) :
    p.Holds d exec post s := by
  cases p with
  | done a => exact fun t later inv => h t later inv t (d.refl t) inv
  | throw e => exact fun t later inv => h t later inv t (d.refl t) inv
  | call c next => exact fun t later inv => h t later inv t (d.refl t) inv

theorem holds_bind {β : Type} {p : Program R ε β} {f : β → Program R ε α}
    (h : p.Holds d exec (fun x t => match x with
      | .ok b => (f b).Holds d exec post t
      | .error e => post (.error e) t) s) : (p >>= f).Holds d exec post s := by
  induction p generalizing s with
  | done b => exact holds_onward h
  | throw e => exact h
  | call c next ih =>
    intro t later inv
    have answered := h.answered later inv
    cases answer : exec c t with
    | ok reply =>
      rw [answer] at answered
      exact ⟨answered.1, ih reply.2 answered.2⟩
    | error e =>
      rw [answer] at answered
      exact answered

theorem holds_seq {β : Type} {p : Program R ε β} {f : β → Program R ε α}
    (first : p.Holds d exec (fun _ _ => True) s)
    (rest : ∀ b t, (f b).Holds d exec (fun _ _ => True) t) :
    (p >>= f).Holds d exec (fun _ _ => True) s := by
  apply holds_bind
  apply first.weaken
  intro x t _ _
  cases x with
  | ok b => exact rest b t
  | error e => trivial

theorem holds_map {β : Type} {post : Except ε β → S → Prop} (f : α → β) {p : Program R ε α}
    (h : p.Holds d exec (fun x t => post (x.map f) t) s) : (f <$> p).Holds d exec post s := by
  induction p generalizing s with
  | done a => exact h
  | throw e => exact h
  | call c next ih =>
    intro t later inv
    have answered := h.answered later inv
    cases answer : exec c t with
    | ok reply =>
      rw [answer] at answered
      exact ⟨answered.1, ih reply.2 answered.2⟩
    | error e =>
      rw [answer] at answered
      exact answered

theorem Holds.since (fair : ∀ {t u}, d.steps t u → d.moves t u) {p : Program R ε α}
    (holds : p.Holds d exec post s) (moved : d.moves t s) :
    p.Holds d exec (fun x u => post x u ∧ d.moves t u) s := by
  induction p generalizing s with
  | done a => exact fun u later inv => ⟨holds u later inv, d.trans moved later⟩
  | throw e => exact fun u later inv => ⟨holds u later inv, d.trans moved later⟩
  | call c next ih =>
    intro u later inv
    have answered := holds.answered later inv
    have reached := d.trans moved later
    cases answer : exec c u with
    | ok reply =>
      rw [answer] at answered
      exact ⟨answered.1, ih reply.2 answered.2 (d.trans reached (fair answered.1.2))⟩
    | error e =>
      rw [answer] at answered
      exact fun v later' inv' => ⟨answered v later' inv', d.trans reached later'⟩

theorem Holds.refine {D : Discipline S} {post' : Except ε α → S → Prop} {p : Program R ε α}
    (finer : ∀ t, D.invariant t → d.invariant t) (less : ∀ t u, D.moves t u → d.moves t u)
    (holds : p.Holds d exec post s) (holds' : p.Holds D exec post' s) :
    p.Holds D exec (fun x t => post x t ∧ post' x t) s := by
  induction p generalizing s with
  | done a => exact fun t later inv => ⟨holds t (less s t later) (finer t inv), holds' t later inv⟩
  | throw e => exact fun t later inv => ⟨holds t (less s t later) (finer t inv), holds' t later inv⟩
  | call c next ih =>
    intro t later inv
    have coarse := holds.answered (less s t later) (finer t inv)
    have fine := holds'.answered later inv
    cases answer : exec c t with
    | ok reply =>
      rw [answer] at coarse fine
      exact ⟨fine.1, ih reply.2 coarse.2 fine.2⟩
    | error e =>
      rw [answer] at coarse fine
      exact fun u moved inv' => ⟨coarse u (less t u moved) (finer u inv'), fine u moved inv'⟩

section Invariant

variable {I : S → Prop}

theorem holds_kept {c : C} {next : R c → Program R ε α}
    (h : ∀ s t r, I s → exec c s = .ok (t, r) →
      I t ∧ (next r).Holds (.ofInvariant I) exec (fun _ _ => True) t) :
    (call c next).Holds (.ofInvariant I) exec (fun _ _ => True) s := by
  intro t _ inv
  cases answer : exec c t with
  | ok reply =>
    have kept := h t reply.1 reply.2 inv answer
    exact ⟨⟨kept.1, trivial⟩, kept.2⟩
  | error e => exact fun _ _ _ => trivial

theorem holds_lift {β : Type} (x : Except ε β) (f : β → Program R ε α)
    (h : ∀ b, x = .ok b → (f b).Holds (.ofInvariant I) exec (fun _ _ => True) s) :
    ((lift x : Program R ε β) >>= f).Holds (.ofInvariant I) exec (fun _ _ => True) s := by
  cases x with
  | ok b => exact h b rfl
  | error e => exact fun _ _ _ => trivial

theorem holds_everywhere {P : C → Prop} {p : Program R ε α}
    (kept : ∀ c s t r, P c → I s → exec c s = .ok (t, r) → I t) (all : p.Everywhere P) :
    p.Holds (.ofInvariant I) exec (fun _ _ => True) s := by
  induction p generalizing s with
  | done a => exact fun _ _ _ => trivial
  | throw e => exact fun _ _ _ => trivial
  | call c next ih =>
    exact holds_kept fun s t r inv answer => ⟨kept c s t r all.1 inv answer, ih r (all.2 r)⟩

end Invariant

theorem Holds.run {p : Program R ε α} (holds : p.Holds d exec post s) (inv : d.invariant s) :
    d.invariant (p.run exec s).1 ∧ post (p.run exec s).2 (p.run exec s).1 := by
  induction p generalizing s with
  | done a => exact ⟨inv, holds s (d.refl s) inv⟩
  | throw e => exact ⟨inv, holds s (d.refl s) inv⟩
  | call c next ih =>
    have h := holds.answered (d.refl s) inv
    simp only [Program.run]
    cases answer : exec c s with
    | ok reply =>
      rw [answer] at h
      exact ih reply.2 h.2 h.1.1
    | error e =>
      rw [answer] at h
      exact ⟨inv, h s (d.refl s) inv⟩

theorem Holds.effect {c : C} {next : R c → Program R ε α}
    (holds : (call c next).Holds d exec post s) (inv : d.invariant s) :
    d.Keeps s (effect exec c s) := by
  have h := holds.answered (d.refl s) inv
  unfold Calls.effect
  cases answer : exec c s with
  | ok reply =>
    rw [answer] at h
    exact h.1
  | error e => exact ⟨inv, d.still s⟩

theorem Holds.faulty {p : Program R ε α} (holds : p.Holds d exec post s) (inv : d.invariant s)
    (fs : List Fault) : d.invariant (p.faulty exec fs s).1 := by
  induction p generalizing s fs with
  | done a => exact inv
  | throw e => exact inv
  | call c next ih =>
    have cut := holds.effect inv
    have h := holds.answered (d.refl s) inv
    simp only [Program.faulty]
    split
    · exact inv
    · exact cut.1
    · cases answer : exec c s with
      | ok reply =>
        rw [answer] at h
        exact ih reply.2 h.2 h.1.1 fs.tail
      | error e => exact inv

end Program

namespace Pool

variable {d exec} {handler : Q → Program R ε α} {post : Nat → Q → Except ε α → S → Prop}
  {p q : Pool Q R S ε α}

/-- Every thread of the pool satisfies its own postcondition, which may depend
on when it was started. -/
structure Good (d : Discipline S) (exec : (c : C) → S → Except ε (S × R c))
    (post : Nat → Q → Except ε α → S → Prop) (p : Pool Q R S ε α) : Prop where
  fair : ∀ {s t}, d.steps s t → d.moves s t
  invariant : d.invariant p.state
  threads : ∀ (i : Nat) (t : Thread Q R ε α), p.threads[i]? = some t →
    t.rest.Holds d exec (post i t.request) p.state

theorem Good.empty (post : Nat → Q → Except ε α → S → Prop) {s : S}
    (fair : ∀ {s t}, d.steps s t → d.moves s t) (inv : d.invariant s) :
    Good d exec post (⟨s, []⟩ : Pool Q R S ε α) :=
  ⟨fair, inv, fun i t found => by simp at found⟩

theorem Good.outcome (good : p.Good d exec post) {i : Nat} {t : Thread Q R ε α}
    {r : Except ε α} (found : p.threads[i]? = some t) (ended : t.rest.outcome = some r) :
    post i t.request r p.state :=
  (good.threads i t found).outcome good.invariant ended

theorem Good.advance (good : p.Good d exec post) {i : Nat} {t : Thread Q R ε α} {s : S}
    {rest : Program R ε α} (kept : d.Keeps p.state s)
    (holds : rest.Holds d exec (post i t.request) s) :
    (p.advance i t s rest).Good d exec post := by
  refine ⟨good.fair, kept.1, ?_⟩
  intro j u found
  rcases advance_found found with ⟨rfl, rfl⟩ | ⟨_, other⟩
  · exact holds
  · exact (good.threads j u other).later (good.fair kept.2)

theorem Good.next (good : p.Good d exec post) {e : Event Q ε} (taken : Next exec handler p e q)
    (fresh : ∀ r, e = .start r →
      (handler r).Holds d exec (post p.threads.length r) p.state)
    (tolerant : ∀ i applied x, e = .abort i applied x → ∀ r s, post i r (.error x) s) :
    q.Good d exec post ∧ d.moves p.state q.state := by
  cases taken with
  | start r =>
    refine ⟨⟨good.fair, good.invariant, ?_⟩, d.refl _⟩
    intro j u found
    rcases start_found handler found with ⟨rfl, rfl⟩ | old
    · exact fresh r rfl
    · exact good.threads j u old
  | @answered i t c k s r found rest answer =>
    have h := good.threads i t found
    rw [rest] at h
    have step := h.step good.invariant (.answered answer)
    exact ⟨good.advance step.1 step.2, good.fair step.1.2⟩
  | @refused i t c k e found rest answer =>
    have h := good.threads i t found
    rw [rest] at h
    have step := h.step good.invariant (.refused answer)
    exact ⟨good.advance step.1 step.2, good.fair step.1.2⟩
  | @lost i t c k e found rest =>
    exact ⟨good.advance ⟨good.invariant, d.still _⟩
      (fun u _ _ => tolerant i false e rfl _ u), d.refl _⟩
  | @cut i t c k e found rest =>
    have h := good.threads i t found
    rw [rest] at h
    have after := h.effect good.invariant
    exact ⟨good.advance after (fun u _ _ => tolerant i true e rfl _ u), good.fair after.2⟩

theorem Good.runs_cut (good : p.Good d exec post) {es : List (Event Q ε)}
    (fresh : ∀ i r s, .start r ∈ es → p.threads.length ≤ i → d.invariant s →
      d.moves p.state s → (handler r).Holds d exec (post i r) s)
    (tolerant : ∀ i applied x, .abort i applied x ∈ es → ∀ r s, post i r (.error x) s)
    (run : p.runs exec handler es = some q) :
    q.Good d exec post ∧ d.moves p.state q.state := by
  have h := runs_induction exec handler
    (motive := fun m => m.Good d exec post ∧ d.moves p.state m.state ∧
      p.threads.length ≤ m.threads.length) ⟨good, d.refl _, Nat.le_refl _⟩ ?_ run
  · exact ⟨h.1, h.2.1⟩
  intro m e n member now taken
  have step := now.1.next taken
    (fun r eq => fresh _ r _ (eq ▸ member) now.2.2 now.1.invariant now.2.1)
    (fun i applied x eq => tolerant i applied x (eq ▸ member))
  exact ⟨step.1, d.trans now.2.1 step.2, Nat.le_trans now.2.2 (next_extends taken).length⟩

theorem Good.runs (good : p.Good d exec post) {es : List (Event Q ε)}
    (fresh : ∀ i r s, .start r ∈ es → p.threads.length ≤ i → d.invariant s →
      d.moves p.state s → (handler r).Holds d exec (post i r) s)
    (tolerant : ∀ e ∈ es, e.unfailing = false → ∀ i r x s, post i r (.error x) s)
    (run : p.runs exec handler es = some q) :
    q.Good d exec post ∧ d.moves p.state q.state :=
  good.runs_cut fresh (fun i _ x member r s => tolerant _ member rfl i r x s) run

theorem Good.runs_unfailing (good : p.Good d exec post) {es : List (Event Q ε)}
    (fresh : ∀ i r s, .start r ∈ es → p.threads.length ≤ i → d.invariant s →
      d.moves p.state s → (handler r).Holds d exec (post i r) s)
    (unfailing : ∀ e ∈ es, e.unfailing = true) (run : p.runs exec handler es = some q) :
    q.Good d exec post ∧ d.moves p.state q.state := by
  refine good.runs fresh ?_ run
  intro e member failing
  rw [unfailing e member] at failing
  contradiction

theorem runs_invariant {I : S → Prop} {s : S} {es : List (Event Q ε)} (start : I s)
    (kept : ∀ r ∈ started es, ∀ s, (handler r).Holds (.ofInvariant I) exec (fun _ _ => True) s)
    (run : (⟨s, []⟩ : Pool Q R S ε α).runs exec handler es = some q) : I q.state :=
  ((Good.empty (d := .ofInvariant I) (fun _ _ _ _ => True) (fun moved => moved) start).runs
    (fun _ r s begun _ _ _ => kept r (mem_started.mpr begun) s)
    (fun _ _ _ _ _ _ _ => trivial) run).1.invariant

theorem Good.restart (good : p.Good d exec post) (later : Q → Except ε α → S → Prop) :
    p.Good d exec (fun i r x s => p.threads.length ≤ i → later r x s) := by
  refine ⟨good.fair, good.invariant, ?_⟩
  intro i t found
  have bound := (List.getElem?_eq_some_iff.mp found).1
  exact (good.threads i t found).weaken (fun _ _ _ _ above => by omega)

end Pool

end Haystack.Calls
