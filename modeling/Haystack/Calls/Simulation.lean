import Haystack.Calls.Pool

/-! One way of answering calls that looks like another one. What the programs of a pool see is
then the same, and so is every run of the pool. -/
namespace Haystack.Calls

variable {Q C : Type} {R : C → Type} {S T ε α : Type}

/-- From the states that satisfy I on, the calls on S are those on T as seen through f. -/
structure Mimics (exec : (c : C) → S → Except ε (S × R c))
    (other : (c : C) → T → Except ε (T × R c)) (f : S → T) (I : S → Prop) : Prop where
  answers : ∀ c s, I s → other c (f s) = (exec c s).map (fun answer => (f answer.1, answer.2))
  kept : ∀ c s t r, I s → exec c s = .ok (t, r) → I t

/-- The same for the calls that satisfy ok, as long as no more calls are made than the states have
room for. -/
structure MimicsWithin (exec : (c : C) → S → Except ε (S × R c))
    (other : (c : C) → T → Except ε (T × R c))
    (f : S → T) (I : Nat → S → Prop) (ok : C → Prop) : Prop where
  answers : ∀ n c s, I (n + 1) s → ok c →
    other c (f s) = (exec c s).map (fun answer => (f answer.1, answer.2))
  kept : ∀ n c s t r, I (n + 1) s → ok c → exec c s = .ok (t, r) → I n t
  less : ∀ n s, I (n + 1) s → I n s

def Program.Begins (ok : C → Prop) : Program R ε α → Prop
  | .call c _ => ok c
  | _ => True

instance (ok : C → Prop) [DecidablePred ok] : (p : Program R ε α) → Decidable (p.Begins ok)
  | .call c _ => inferInstanceAs (Decidable (ok c))
  | .done _ => .isTrue trivial
  | .throw _ => .isTrue trivial

def Pool.map (f : S → T) (p : Pool Q R S ε α) : Pool Q R T ε α := ⟨f p.state, p.threads⟩

def Pool.Begins (ok : C → Prop) (p : Pool Q R S ε α) : Prop := ∀ t ∈ p.threads, t.rest.Begins ok

instance (ok : C → Prop) [DecidablePred ok] (p : Pool Q R S ε α) : Decidable (p.Begins ok) :=
  inferInstanceAs (Decidable (∀ t ∈ p.threads, t.rest.Begins ok))

variable {exec : (c : C) → S → Except ε (S × R c)} {other : (c : C) → T → Except ε (T × R c)}
  {handler : Q → Program R ε α} {f : S → T}

theorem Mimics.within {I : S → Prop} (mimics : Mimics exec other f I) :
    MimicsWithin exec other f (fun _ => I) (fun _ => True) :=
  ⟨fun _ c s inv _ => mimics.answers c s inv,
    fun _ c s t r inv _ answer => mimics.kept c s t r inv answer, fun _ _ inv => inv⟩

namespace Pool

variable {p q : Pool Q R S ε α}

section Within

variable {I : Nat → S → Prop} {ok : C → Prop} {n : Nat}

theorem next_within (mimics : MimicsWithin exec other f I ok) (inv : I (n + 1) p.state)
    (begins : p.Begins ok) {e : Event Q ε} (taken : p.next exec handler e = some q) :
    I n q.state ∧ (p.map f).next other handler e = some (q.map f) := by
  have fits : ∀ {i : Nat} {t : Thread Q R ε α} {c : C} {k : R c → Program R ε α},
      p.threads[i]? = some t →
      t.rest = .call c k → ok c := by
    intro i t c k found rest
    have fit := begins t (List.mem_of_getElem? found)
    rw [rest] at fit
    exact fit
  cases next_cases exec handler taken with
  | start r => exact ⟨mimics.less n _ inv, rfl⟩
  | @answered i t c k s r found rest answer =>
    refine ⟨mimics.kept n c _ s r inv (fits found rest) answer, ?_⟩
    have same : other c (f p.state) = .ok (f s, r) := by
      rw [mimics.answers n c _ inv (fits found rest), answer]
      rfl
    simp only [next, map, found, rest, same]
    rfl
  | @refused i t c k e found rest answer =>
    refine ⟨mimics.less n _ inv, ?_⟩
    have same : other c (f p.state) = .error e := by
      rw [mimics.answers n c _ inv (fits found rest), answer]
      rfl
    simp only [next, map, found, rest, same]
    rfl
  | @lost i t c k e found rest =>
    refine ⟨mimics.less n _ inv, ?_⟩
    simp only [next, map, found, rest]
    rfl
  | @cut i t c k e found rest =>
    have after : I n (effect exec c p.state) ∧
        effect other c (f p.state) = f (effect exec c p.state) := by
      unfold effect
      rw [mimics.answers n c _ inv (fits found rest)]
      cases answer : exec c p.state with
      | error e => exact ⟨mimics.less n _ inv, rfl⟩
      | ok reply => exact ⟨mimics.kept n c _ reply.1 reply.2 inv (fits found rest) answer, rfl⟩
    refine ⟨after.1, ?_⟩
    simp only [next, map, found, rest, after.2]
    rfl

theorem next_none (f : S → T) {e : Event Q ε} (impossible : p.next exec handler e = none) :
    (p.map f).next other handler e = none := by
  cases e with
  | start r => cases impossible
  | step i =>
    simp only [next, map] at impossible ⊢
    cases found : p.threads[i]? with
    | none => rfl
    | some t =>
      cases rest : t.rest with
      | done a => simp only [rest]
      | throw e => simp only [rest]
      | call c k =>
        simp only [found, rest] at impossible
        split at impossible <;> cases impossible
  | abort i applied e =>
    simp only [next, map] at impossible ⊢
    cases found : p.threads[i]? with
    | none => rfl
    | some t =>
      cases rest : t.rest with
      | done a => simp only [rest]
      | throw e => simp only [rest]
      | call c k =>
        simp only [found, rest] at impossible
        cases impossible

theorem runs_within (mimics : MimicsWithin exec other f I ok) {es : List (Event Q ε)}
    (inv : I es.length p.state)
    (begins : Along other handler (fun m _ => m.Begins ok) (p.map f) es) :
    (p.runs exec handler es).map (map f) = (p.map f).runs other handler es := by
  induction es generalizing p with
  | nil => rfl
  | cons e es ih =>
    simp only [Along] at begins
    cases taken : p.next exec handler e with
    | none => simp only [runs, taken, next_none f taken, Option.bind_none, Option.map_none]
    | some m =>
      obtain ⟨inv', same⟩ := next_within mimics inv begins.1 taken
      rw [same] at begins
      simp only [runs, taken, same, Option.bind_some]
      exact ih inv' begins.2

end Within

variable {I : S → Prop}

theorem next_map (mimics : Mimics exec other f I) (inv : I p.state) {e : Event Q ε}
    (taken : p.next exec handler e = some q) :
    I q.state ∧ (p.map f).next other handler e = some (q.map f) := by
  have all : p.Begins (fun _ => True) := by
    intro t _
    cases t.rest with
    | call c k => trivial
    | done a => trivial
    | throw e => trivial
  exact next_within (n := 0) mimics.within inv all taken

theorem runs_map (mimics : Mimics exec other f I) (inv : I p.state) {es : List (Event Q ε)}
    (run : p.runs exec handler es = some q) :
    I q.state ∧ (p.map f).runs other handler es = some (q.map f) := by
  induction es generalizing p with
  | nil =>
    cases Option.some.inj run
    exact ⟨inv, rfl⟩
  | cons e es ih =>
    simp only [runs, Option.bind_eq_some_iff] at run ⊢
    obtain ⟨m, first, rest⟩ := run
    have step := next_map mimics inv first
    have later := ih step.1 rest
    exact ⟨later.1, m.map f, step.2, later.2⟩

end Pool

end Haystack.Calls
