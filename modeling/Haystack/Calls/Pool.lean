import Haystack.Calls.Program

/-! Pools of programs over one shared state. An event starts a request, lets one
thread make its next call, or cuts a thread off at its next call. A run is any
list of events, so a statement about all runs is one about all interleavings. -/
namespace Haystack.Calls

variable {Q C : Type} {R : C → Type} {S ε α : Type}

structure Thread (Q : Type) (R : C → Type) (ε α : Type) where
  request : Q
  calls : Nat
  rest : Program R ε α

structure Pool (Q : Type) (R : C → Type) (S ε α : Type) where
  state : S
  threads : List (Thread Q R ε α)

inductive Event (Q ε : Type) where
  | start (q : Q)
  | step (i : Nat)
  | abort (i : Nat) (applied : Bool) (e : ε)

def Event.unfailing : Event Q ε → Bool
  | abort _ _ _ => false
  | _ => true

/-- The thread has ended with the outcome r, or is still running and has made less
than so many calls. -/
def Thread.Ends (t : Thread Q R ε α) (bound : Nat) (r : Except ε α) : Prop :=
  t.rest.outcome = some r ∨ (t.rest.running = true ∧ t.calls < bound)

theorem Thread.Ends.unique {t : Thread Q R ε α} {bound : Nat} {r x : Except ε α}
    (ends : t.Ends bound r) (ended : t.rest.outcome = some x) : x = r := by
  rcases ends with outcome | ⟨running, -⟩
  · rw [outcome] at ended
    exact (Option.some.inj ended).symm
  · cases rest : t.rest with
    | done a => simp [rest, Program.running] at running
    | throw e => simp [rest, Program.running] at running
    | call c next => simp [rest, Program.outcome] at ended

theorem Thread.Ends.ended {t : Thread Q R ε α} {bound : Nat} {r : Except ε α}
    (ends : t.Ends bound r) (idle : t.rest.running = false) : t.rest.outcome = some r := by
  rcases ends with outcome | ⟨running, -⟩
  · exact outcome
  · rw [idle] at running
    cases running

def started : List (Event Q ε) → List Q
  | [] => []
  | .start q :: es => q :: started es
  | .step _ :: es => started es
  | .abort _ _ _ :: es => started es

theorem started_append (xs ys : List (Event Q ε)) :
    started (xs ++ ys) = started xs ++ started ys := by
  induction xs with
  | nil => rfl
  | cons e es ih => cases e <;> simp [started, ih]

theorem mem_started {q : Q} {es : List (Event Q ε)} : q ∈ started es ↔ .start q ∈ es := by
  induction es with
  | nil => simp [started]
  | cons e es ih => cases e <;> simp [started, ih]

variable (exec : (c : C) → S → Except ε (S × R c)) (handler : Q → Program R ε α)

namespace Pool

def advance (p : Pool Q R S ε α) (i : Nat) (t : Thread Q R ε α) (s : S) (rest : Program R ε α) :
    Pool Q R S ε α :=
  ⟨s, p.threads.set i ⟨t.request, t.calls + 1, rest⟩⟩

/-- One event. Only a running thread can make a call or be cut off. -/
def next (p : Pool Q R S ε α) : Event Q ε → Option (Pool Q R S ε α)
  | .start q => some ⟨p.state, p.threads ++ [⟨q, 0, handler q⟩]⟩
  | .step i =>
    match p.threads[i]? with
    | none => none
    | some t =>
      match t.rest with
      | .call c k =>
        match exec c p.state with
        | .ok (s, r) => some (p.advance i t s (k r))
        | .error e => some (p.advance i t p.state (.throw e))
      | _ => none
  | .abort i applied e =>
    match p.threads[i]? with
    | none => none
    | some t =>
      match t.rest with
      | .call c _ =>
        some (p.advance i t (if applied then effect exec c p.state else p.state) (.throw e))
      | _ => none

def runs (p : Pool Q R S ε α) : List (Event Q ε) → Option (Pool Q R S ε α)
  | [] => some p
  | e :: es => (p.next exec handler e).bind (fun q => q.runs es)

theorem runs_append (p : Pool Q R S ε α) (xs ys : List (Event Q ε)) :
    p.runs exec handler (xs ++ ys) =
      (p.runs exec handler xs).bind (fun q => q.runs exec handler ys) := by
  induction xs generalizing p with
  | nil => rfl
  | cons e es ih =>
    simp only [List.cons_append, runs, Option.bind_assoc]
    exact Option.bind_congr (fun q _ => ih q)

inductive Next (p : Pool Q R S ε α) : Event Q ε → Pool Q R S ε α → Prop where
  | start (q : Q) : Next p (.start q) ⟨p.state, p.threads ++ [⟨q, 0, handler q⟩]⟩
  | answered {i : Nat} {t : Thread Q R ε α} {c : C} {k : R c → Program R ε α} {s : S} {r : R c} :
      p.threads[i]? = some t → t.rest = .call c k → exec c p.state = .ok (s, r) →
        Next p (.step i) (p.advance i t s (k r))
  | refused {i : Nat} {t : Thread Q R ε α} {c : C} {k : R c → Program R ε α} {e : ε} :
      p.threads[i]? = some t → t.rest = .call c k → exec c p.state = .error e →
        Next p (.step i) (p.advance i t p.state (.throw e))
  | lost {i : Nat} {t : Thread Q R ε α} {c : C} {k : R c → Program R ε α} {e : ε} :
      p.threads[i]? = some t → t.rest = .call c k →
        Next p (.abort i false e) (p.advance i t p.state (.throw e))
  | cut {i : Nat} {t : Thread Q R ε α} {c : C} {k : R c → Program R ε α} {e : ε} :
      p.threads[i]? = some t → t.rest = .call c k →
        Next p (.abort i true e) (p.advance i t (effect exec c p.state) (.throw e))

theorem next_cases {p q : Pool Q R S ε α} {e : Event Q ε} (taken : p.next exec handler e = some q) :
    Next exec handler p e q := by
  cases e with
  | start r =>
    cases Option.some.inj taken
    exact .start r
  | step i =>
    simp only [next] at taken
    split at taken
    · contradiction
    · rename_i t found
      split at taken
      · rename_i c k rest
        split at taken
        · rename_i s r answer
          cases Option.some.inj taken
          exact .answered found rest answer
        · rename_i e answer
          cases Option.some.inj taken
          exact .refused found rest answer
      · contradiction
  | abort i applied e =>
    simp only [next] at taken
    split at taken
    · contradiction
    · rename_i t found
      split at taken
      · rename_i c k rest
        cases Option.some.inj taken
        cases applied with
        | false => exact .lost found rest
        | true => exact .cut found rest
      · contradiction

theorem next_step_cases {p q : Pool Q R S ε α} {i : Nat} (taken : Next exec handler p (.step i) q) :
    ∃ t s rest, p.threads[i]? = some t ∧ t.rest.Step exec p.state rest s ∧
      q = p.advance i t s rest := by
  cases taken with
  | answered found rest answer =>
    refine ⟨_, _, _, found, ?_, rfl⟩
    rw [rest]
    exact .answered answer
  | refused found rest answer =>
    refine ⟨_, _, _, found, ?_, rfl⟩
    rw [rest]
    exact .refused answer

theorem next_step_eq {p : Pool Q R S ε α} {i : Nat} {t : Thread Q R ε α} {c : C}
    {k : R c → Program R ε α}
    (found : p.threads[i]? = some t) (rest : t.rest = .call c k) : p.next exec handler (.step i) =
      some (p.advance i t (effect exec c p.state)
        (.lift ((exec c p.state).map Prod.snd) >>= k)) := by
  simp only [next, found, rest, effect]
  cases exec c p.state <;> rfl

theorem runs_induction {motive : Pool Q R S ε α → Prop} {p q : Pool Q R S ε α}
    {es : List (Event Q ε)} (initial : motive p)
    (preserved : ∀ p e q, e ∈ es → motive p → Next exec handler p e q → motive q)
    (run : p.runs exec handler es = some q) : motive q := by
  induction es generalizing p with
  | nil => exact Option.some.inj run ▸ initial
  | cons e es ih =>
    simp only [runs, Option.bind_eq_some_iff] at run
    obtain ⟨m, first, rest⟩ := run
    apply ih (preserved p e m List.mem_cons_self initial (next_cases exec handler first)) _ rest
    exact fun p e q member => preserved p e q (List.mem_cons_of_mem _ member)

def Along (cond : Pool Q R S ε α → Event Q ε → Prop) : Pool Q R S ε α → List (Event Q ε) → Prop
  | _, [] => True
  | p, e :: es => cond p e ∧ match p.next exec handler e with
    | none => True
    | some q => Along cond q es

instance (cond : Pool Q R S ε α → Event Q ε → Prop) [∀ p e, Decidable (cond p e)] :
    ∀ p es, Decidable (Along exec handler cond p es)
  | _, [] => inferInstanceAs (Decidable True)
  | p, e :: es =>
    match h : p.next exec handler e with
    | none => decidable_of_iff (cond p e) (by simp [Along, h])
    | some q =>
      have := instDecidableAlong cond q es
      decidable_of_iff (cond p e ∧ Along exec handler cond q es) (by simp [Along, h])

theorem along_append {cond : Pool Q R S ε α → Event Q ε → Prop} {p q : Pool Q R S ε α}
    {xs ys : List (Event Q ε)} (along : Along exec handler cond p (xs ++ ys))
    (run : p.runs exec handler xs = some q) :
    Along exec handler cond p xs ∧ Along exec handler cond q ys := by
  induction xs generalizing p with
  | nil => exact ⟨trivial, Option.some.inj run ▸ along⟩
  | cons e es ih =>
    simp only [runs, Option.bind_eq_some_iff] at run
    obtain ⟨m, first, rest⟩ := run
    simp only [List.cons_append, Along, first] at along ⊢
    have later := ih along.2 rest
    exact ⟨⟨along.1, later.1⟩, later.2⟩

theorem along_induction {cond : Pool Q R S ε α → Event Q ε → Prop} {motive : Pool Q R S ε α → Prop}
    {p q : Pool Q R S ε α} {es : List (Event Q ε)} (initial : motive p)
    (along : Along exec handler cond p es)
    (preserved : ∀ p e q, e ∈ es → cond p e → motive p → Next exec handler p e q → motive q)
    (run : p.runs exec handler es = some q) : motive q := by
  induction es generalizing p with
  | nil => exact Option.some.inj run ▸ initial
  | cons e es ih =>
    simp only [runs, Option.bind_eq_some_iff] at run
    obtain ⟨m, first, rest⟩ := run
    simp only [Along, first] at along
    apply ih (preserved p e m List.mem_cons_self along.1 initial (next_cases exec handler first))
      along.2 _ rest
    exact fun p e q member => preserved p e q (List.mem_cons_of_mem _ member)

def made (p : Pool Q R S ε α) : Event Q ε → Option C
  | .start _ => none
  | .step i => p.threads[i]?.bind (fun t => t.rest.head)
  | .abort i applied _ => if applied then p.threads[i]?.bind (fun t => t.rest.head) else none

theorem along_kept {ok : C → Prop} {I : S → Prop} {p q : Pool Q R S ε α} {es : List (Event Q ε)}
    (kept : ∀ c s t r, ok c → I s → exec c s = .ok (t, r) → I t) (initial : I p.state)
    (along : Along exec handler (fun m e => ∀ c ∈ m.made e, ok c) p es)
    (run : p.runs exec handler es = some q) : I q.state := by
  refine along_induction exec handler (motive := fun m => I m.state) initial along ?_ run
  intro m e n _ spared now taken
  have called : ∀ {i : Nat} {t : Thread Q R ε α} {c : C} {k : R c → Program R ε α},
      m.threads[i]? = some t → t.rest = .call c k →
      m.threads[i]?.bind (fun t => t.rest.head) = some c := by
    intro i t c k found rest
    rw [found, Option.bind_some, rest]
    rfl
  cases taken with
  | start r => exact now
  | answered found rest answer => exact kept _ _ _ _ (spared _ (called found rest)) now answer
  | refused found rest answer => exact now
  | lost found rest => exact now
  | @cut i t c k x found rest =>
    change I (effect exec c m.state)
    unfold effect
    cases answer : exec c m.state with
    | error e => exact now
    | ok reply => exact kept c _ _ _ (spared c (called found rest)) now answer

theorem advance_found {p : Pool Q R S ε α} {i j : Nat} {t u : Thread Q R ε α} {s : S}
    {rest : Program R ε α} (found : (p.advance i t s rest).threads[j]? = some u) :
    (j = i ∧ u = ⟨t.request, t.calls + 1, rest⟩) ∨ (j ≠ i ∧ p.threads[j]? = some u) := by
  simp only [advance, List.getElem?_set] at found
  split at found
  · rename_i same
    split at found
    · exact .inl ⟨same.symm, (Option.some.inj found).symm⟩
    · contradiction
  · rename_i differ
    exact .inr ⟨fun same => differ same.symm, found⟩

theorem start_found {p : Pool Q R S ε α} {q : Q} {j : Nat} {u : Thread Q R ε α}
    (found : (p.threads ++ [⟨q, 0, handler q⟩])[j]? = some u) :
    (j = p.threads.length ∧ u = ⟨q, 0, handler q⟩) ∨ p.threads[j]? = some u := by
  rcases Nat.lt_trichotomy j p.threads.length with below | same | above
  · rw [List.getElem?_append_left below] at found
    exact .inr found
  · subst same
    simp at found
    exact .inl ⟨rfl, found.symm⟩
  · rw [List.getElem?_append_right (Nat.le_of_lt above)] at found
    obtain ⟨k, hk⟩ := Nat.exists_eq_add_of_lt above
    rw [hk, show p.threads.length + k + 1 - p.threads.length = k + 1 by omega] at found
    simp at found

/-- A later pool of the same run: threads stay where they are, for the same
requests, and those that have ended stay as they are. -/
structure Extends (p q : Pool Q R S ε α) : Prop where
  length : p.threads.length ≤ q.threads.length
  threads : ∀ (i : Nat) (t : Thread Q R ε α), p.threads[i]? = some t →
    ∃ u : Thread Q R ε α, q.threads[i]? = some u ∧ u.request = t.request ∧
      (t.rest.running = false → u = t)

theorem advance_extends {p : Pool Q R S ε α} {i : Nat} {t : Thread Q R ε α} (s : S)
    (rest : Program R ε α) (found : p.threads[i]? = some t) (active : t.rest.running = true) :
    p.Extends (p.advance i t s rest) := by
  refine ⟨by simp [advance], ?_⟩
  intro j u other
  by_cases same : i = j
  · subst same
    cases Option.some.inj (found.symm.trans other)
    have bound := (List.getElem?_eq_some_iff.mp found).1
    refine ⟨⟨t.request, t.calls + 1, rest⟩, by simp [advance, bound], rfl, ?_⟩
    intro idle
    rw [active] at idle
    contradiction
  · exact ⟨u, by simp [advance, same, other], rfl, fun _ => rfl⟩

theorem next_extends {exec : (c : C) → S → Except ε (S × R c)} {handler : Q → Program R ε α}
    {p q : Pool Q R S ε α} {e : Event Q ε} (taken : Next exec handler p e q) : p.Extends q := by
  cases taken with
  | start r =>
    refine ⟨by simp, ?_⟩
    intro i t found
    have bound := (List.getElem?_eq_some_iff.mp found).1
    exact ⟨t, by simp [List.getElem?_append_left bound, found], rfl, fun _ => rfl⟩
  | answered found rest => exact advance_extends _ _ found (by rw [rest]; rfl)
  | refused found rest => exact advance_extends _ _ found (by rw [rest]; rfl)
  | lost found rest => exact advance_extends _ _ found (by rw [rest]; rfl)
  | cut found rest => exact advance_extends _ _ found (by rw [rest]; rfl)

theorem advance_requests {p : Pool Q R S ε α} {i : Nat} {t : Thread Q R ε α} (s : S)
    (rest : Program R ε α) (found : p.threads[i]? = some t) :
    (p.advance i t s rest).threads.map Thread.request = p.threads.map Thread.request := by
  apply List.ext_getElem?
  intro j
  by_cases same : i = j
  · subst same
    obtain ⟨bound, value⟩ := List.getElem?_eq_some_iff.mp found
    simp [advance, bound, value]
  · simp [advance, same]

theorem runs_requests {p q : Pool Q R S ε α} {es : List (Event Q ε)}
    (run : p.runs exec handler es = some q) :
    q.threads.map Thread.request = p.threads.map Thread.request ++ started es := by
  induction es generalizing p with
  | nil =>
    cases Option.some.inj run
    simp [started]
  | cons e es ih =>
    simp only [runs, Option.bind_eq_some_iff] at run
    obtain ⟨m, first, rest⟩ := run
    rw [ih rest]
    cases next_cases exec handler first with
    | start r => simp [started]
    | answered found => simp [started, advance_requests _ _ found]
    | refused found => simp [started, advance_requests _ _ found]
    | lost found => simp [started, advance_requests _ _ found]
    | cut found => simp [started, advance_requests _ _ found]

/-- Each thread has made some of the calls its request may make, and has the others
left. -/
def Bounded (bound : Q → Nat) (P : Q → α → Prop) (p : Pool Q R S ε α) : Prop :=
  ∀ (i : Nat) (t : Thread Q R ε α), p.threads[i]? = some t →
    ∃ left, t.rest.Within (P t.request) left ∧ t.calls + left ≤ bound t.request

section Bounds

variable {bound : Q → Nat} {P : Q → α → Prop} {p q : Pool Q R S ε α} {s : S} {i : Nat}
  {t : Thread Q R ε α} {es : List (Event Q ε)}

theorem Bounded.advance (bounded : p.Bounded bound P) {c : C} {k : R c → Program R ε α}
    {rest : Program R ε α} (s : S) (found : p.threads[i]? = some t) (running : t.rest = .call c k)
    (shorter : ∀ left, t.rest.Within (P t.request) (left + 1) → rest.Within (P t.request) left) :
    (p.advance i t s rest).Bounded bound P := by
  intro j u later
  rcases advance_found later with ⟨rfl, rfl⟩ | ⟨_, other⟩
  · obtain ⟨left, within, count⟩ := bounded j t found
    cases left with
    | zero =>
      rw [running] at within
      exact within.elim
    | succ left => exact ⟨left, shorter left within, by dsimp only; omega⟩
  · exact bounded j u other

variable {exec handler}

theorem Bounded.next (short : ∀ r, (handler r).Within (P r) (bound r)) {e : Event Q ε}
    (bounded : p.Bounded bound P) (taken : Next exec handler p e q) : q.Bounded bound P := by
  cases taken with
  | start r =>
    intro j u found
    rcases start_found handler found with ⟨_, rfl⟩ | old
    · exact ⟨bound r, short r, by simp⟩
    · exact bounded j u old
  | answered found rest =>
    exact bounded.advance _ found rest (fun left within => by rw [rest] at within; exact within _)
  | refused found rest => exact bounded.advance _ found rest (fun left _ => by simp)
  | lost found rest => exact bounded.advance _ found rest (fun left _ => by simp)
  | cut found rest => exact bounded.advance _ found rest (fun left _ => by simp)

theorem bounded_runs (short : ∀ r, (handler r).Within (P r) (bound r))
    (run : (⟨s, []⟩ : Pool Q R S ε α).runs exec handler es = some q) : q.Bounded bound P :=
  runs_induction exec handler (motive := Bounded bound P) (fun _ _ none => by simp at none)
    (fun _ _ _ _ sofar taken => sofar.next short taken) run

theorem Bounded.returned (bounded : p.Bounded bound P) (found : p.threads[i]? = some t) {a : α}
    (ended : t.rest.outcome = some (.ok a)) : P t.request a := by
  obtain ⟨left, within, _⟩ := bounded i t found
  cases rest : t.rest with
  | done b =>
    rw [rest] at ended within
    cases ended
    exact Program.within_done _ |>.mp within
  | throw e =>
    rw [rest] at ended
    cases ended
  | call c k =>
    rw [rest] at ended
    cases ended

theorem Bounded.ends (bounded : p.Bounded bound P) (found : p.threads[i]? = some t) {r : Except ε α}
    (outcome : ∀ x, t.rest.outcome = some x → x = r) : t.Ends (bound t.request) r := by
  obtain ⟨left, within, count⟩ := bounded i t found
  cases rest : t.rest with
  | done a => exact .inl (by rw [← outcome (.ok a) (by rw [rest]; rfl), rest]; rfl)
  | throw e => exact .inl (by rw [← outcome (.error e) (by rw [rest]; rfl), rest]; rfl)
  | call c k =>
    refine .inr ⟨by rw [rest]; rfl, ?_⟩
    cases left with
    | zero =>
      rw [rest] at within
      exact within.elim
    | succ left => omega

end Bounds

end Pool

end Haystack.Calls
