import Mathlib.Data.List.Basic

/-! Programs that do nothing but call backends. A program is the tree of its
calls, each continuing with the answer it receives; how a call is answered is
not part of it. One tree is run alone here, with failures in Fault below, and in
any interleaving with others in the module on pools. -/
namespace Haystack.Calls

variable {C : Type} {R : C → Type} {S ε α β : Type}

inductive Program (R : C → Type) (ε α : Type) where
  | done (a : α)
  | throw (e : ε)
  | call (c : C) (next : R c → Program R ε α)

namespace Program

def bind : Program R ε α → (α → Program R ε β) → Program R ε β
  | done a, f => f a
  | throw e, _ => throw e
  | call c next, f => call c (fun r => (next r).bind f)

instance : Monad (Program R ε) where
  pure := done
  bind := bind

def request (c : C) : Program R ε (R c) := call c done

def lift : Except ε α → Program R ε α
  | .ok a => done a
  | .error e => throw e

@[simp] theorem pure_eq (a : α) : (pure a : Program R ε α) = done a := rfl
@[simp] theorem bind_done (a : α) (f : α → Program R ε β) : done a >>= f = f a := rfl
@[simp] theorem bind_throw (e : ε) (f : α → Program R ε β) :
    (throw e : Program R ε α) >>= f = throw e := rfl
@[simp] theorem bind_call (c : C) (next : R c → Program R ε α) (f : α → Program R ε β) :
    call c next >>= f = call c (fun r => next r >>= f) := rfl
@[simp] theorem bind_request (c : C) (f : R c → Program R ε β) :
    (request c : Program R ε (R c)) >>= f = call c f := rfl
@[simp] theorem lift_ok (a : α) : (lift (.ok a) : Program R ε α) = done a := rfl
@[simp] theorem lift_error (e : ε) : (lift (.error e) : Program R ε α) = throw e := rfl

def running : Program R ε α → Bool
  | call _ _ => true
  | _ => false

def head : Program R ε α → Option C
  | call c _ => some c
  | _ => none

def outcome : Program R ε α → Option (Except ε α)
  | done a => some (.ok a)
  | throw e => some (.error e)
  | call _ _ => none

variable (exec : (c : C) → S → Except ε (S × R c))

/-- The program run alone. A call that throws has no effect and ends it. -/
def run : Program R ε α → S → S × Except ε α
  | done a, s => (s, .ok a)
  | throw e, s => (s, .error e)
  | call c next, s =>
    match exec c s with
    | .ok (t, r) => (next r).run t
    | .error e => (s, .error e)

theorem run_call_ok {c : C} {next : R c → Program R ε α} {s t : S} {r : R c}
    (answered : exec c s = .ok (t, r)) : (call c next).run exec s = (next r).run exec t := by
  simp only [run, answered]

theorem run_call_error {c : C} {next : R c → Program R ε α} {s : S} {e : ε}
    (refused : exec c s = .error e) : (call c next).run exec s = (s, .error e) := by
  simp only [run, refused]

theorem run_bind (p : Program R ε α) (f : α → Program R ε β) (s : S) : (p >>= f).run exec s =
    match p.run exec s with
    | (t, .ok a) => (f a).run exec t
    | (t, .error e) => (t, .error e) := by
  induction p generalizing s with
  | done a => rfl
  | throw e => rfl
  | call c next ih =>
    rw [bind_call]
    simp only [run]
    cases exec c s with
    | error e => rfl
    | ok reply => exact ih reply.2 reply.1

theorem run_bind_ok {p : Program R ε α} {f : α → Program R ε β} {s t : S} {a : α}
    (first : p.run exec s = (t, .ok a)) : (p >>= f).run exec s = (f a).run exec t := by
  rw [run_bind, first]

theorem run_bind_error {p : Program R ε α} {f : α → Program R ε β} {s : S} {e : ε}
    (first : (p.run exec s).2 = .error e) : ((p >>= f).run exec s).2 = .error e := by
  rw [run_bind, ← Prod.eta (p.run exec s), first]

inductive Step : Program R ε α → S → Program R ε α → S → Prop where
  | answered {c : C} {next : R c → Program R ε α} {s t : S} {r : R c} :
      exec c s = .ok (t, r) → Step (call c next) s (next r) t
  | refused {c : C} {next : R c → Program R ε α} {s : S} {e : ε} :
      exec c s = .error e → Step (call c next) s (throw e) s

theorem Step.of_ok {c : C} {next : R c → Program R ε α} {s t u : S} {r : R c} {p : Program R ε α}
    (step : Step exec (call c next) s p u) (answer : exec c s = .ok (t, r)) :
    p = next r ∧ t = u := by
  cases step with
  | answered h =>
    cases answer.symm.trans h
    exact ⟨rfl, rfl⟩
  | refused h => cases answer.symm.trans h

theorem Step.of_error {c : C} {next : R c → Program R ε α} {s u : S} {e : ε} {p : Program R ε α}
    (step : Step exec (call c next) s p u) (answer : exec c s = .error e) :
    p = throw e ∧ s = u := by
  cases step with
  | answered h => cases answer.symm.trans h
  | refused h =>
    cases answer.symm.trans h
    exact ⟨rfl, rfl⟩

theorem Step.running {p p' : Program R ε α} {s t : S} (step : Step exec p s p' t) :
    p.running = true := by
  cases step <;> rfl

/-- Every path of the program makes at most so many calls, and what it returns
satisfies P, whatever the answers are. -/
def Within (P : α → Prop) : Nat → Program R ε α → Prop
  | _, done a => P a
  | _, throw _ => True
  | 0, call _ _ => False
  | n + 1, call _ next => ∀ r, (next r).Within P n

@[simp] theorem within_done {P : α → Prop} {n : Nat} (a : α) :
    (done a : Program R ε α).Within P n ↔ P a := by
  cases n <;> rfl

@[simp] theorem within_throw {P : α → Prop} {n : Nat} (e : ε) :
    (throw e : Program R ε α).Within P n := by
  cases n <;> trivial

theorem within_lift {β : Type} {P : α → Prop} {n : Nat} (x : Except ε β) (f : β → Program R ε α)
    (h : ∀ b, (f b).Within P n) : ((lift x : Program R ε β) >>= f).Within P n := by
  cases x with
  | ok b => exact h b
  | error e => exact within_throw e

theorem Within.mono {P : α → Prop} {m n : Nat} {p : Program R ε α} (within : p.Within P m)
    (more : m ≤ n) : p.Within P n := by
  induction p generalizing m n with
  | done a =>
    rw [within_done] at within ⊢
    exact within
  | throw e => exact within_throw e
  | call c next ih =>
    cases m with
    | zero => exact within.elim
    | succ m =>
      obtain ⟨k, rfl⟩ : ∃ k, n = k + 1 := ⟨n - 1, by omega⟩
      exact fun r => ih r (within r) (by omega)

theorem within_bind {P : α → Prop} {Q : β → Prop} {m n : Nat} {p : Program R ε β}
    {f : β → Program R ε α} (first : p.Within Q m) (rest : ∀ b, Q b → (f b).Within P n) :
    (p >>= f).Within P (m + n) := by
  induction p generalizing m with
  | done b => exact (rest b ((within_done b).mp first)).mono (by omega)
  | throw e => exact within_throw e
  | call c next ih =>
    cases m with
    | zero => exact first.elim
    | succ m =>
      rw [Nat.succ_add]
      exact fun r => ih r (first r)

theorem within_request {c : C} {P : R c → Prop} (all : ∀ r, P r) :
    (request c : Program R ε (R c)).Within P 1 :=
  fun r => all r

def Everywhere (P : C → Prop) : Program R ε α → Prop
  | done _ => True
  | throw _ => True
  | call c next => P c ∧ ∀ r, (next r).Everywhere P

theorem everywhere_bind {P : C → Prop} {p : Program R ε α} {f : α → Program R ε β}
    (first : p.Everywhere P) (rest : ∀ a, (f a).Everywhere P) : (p >>= f).Everywhere P := by
  induction p with
  | done a => exact rest a
  | throw e => trivial
  | call c next ih => exact ⟨first.1, fun r => ih r (first.2 r)⟩

theorem everywhere_request {P : C → Prop} {c : C} (here : P c) :
    (request c : Program R ε (R c)).Everywhere P :=
  ⟨here, fun _ => trivial⟩

theorem everywhere_lift {P : C → Prop} (x : Except ε α) :
    (lift x : Program R ε α).Everywhere P := by
  cases x <;> trivial

theorem run_everywhere {P : C → Prop} {I : S → Prop} {p : Program R ε α} {s : S}
    (kept : ∀ c s t r, P c → I s → exec c s = .ok (t, r) → I t)
    (all : p.Everywhere P) (start : I s) : I (p.run exec s).1 := by
  induction p generalizing s with
  | done a => exact start
  | throw e => exact start
  | call c next ih =>
    simp only [run]
    cases answer : exec c s with
    | error e => exact start
    | ok reply => exact ih reply.2 (all.2 reply.2) (kept c s reply.1 reply.2 all.1 start answer)

theorem run_congr {exec' : (c : C) → S → Except ε (S × R c)} {P : C → Prop} {p : Program R ε α}
    (agree : ∀ c s, P c → exec c s = exec' c s) (all : p.Everywhere P) (s : S) :
    p.run exec s = p.run exec' s := by
  induction p generalizing s with
  | done a => rfl
  | throw e => rfl
  | call c next ih =>
    simp only [run, agree c s all.1]
    cases exec' c s with
    | error e => rfl
    | ok reply => exact ih reply.2 (all.2 reply.2) reply.1

def record (c : C) (s : S × List C) : Except ε ((S × List C) × R c) :=
  (exec c s.1).map (fun answer => ((answer.1, s.2 ++ [c]), answer.2))

theorem record_ok {c : C} {s t : S} {r : R c} (answered : exec c s = .ok (t, r)) (log : List C) :
    record exec c (s, log) = .ok ((t, log ++ [c]), r) := by
  simp only [record, answered]
  rfl

/-- The program with some of its calls removed: the answer it would have got is
fixed beforehand. -/
def without (fixed : (c : C) → Option (R c)) : Program R ε α → Program R ε α
  | done a => done a
  | throw e => throw e
  | call c next =>
    match fixed c with
    | some r => (next r).without fixed
    | none => call c (fun r => (next r).without fixed)

theorem without_removed {fixed : (c : C) → Option (R c)} {c : C} {r : R c}
    (removed : fixed c = some r) (next : R c → Program R ε α) :
    (call c next).without fixed = (next r).without fixed := by
  simp only [without, removed]

theorem without_kept {fixed : (c : C) → Option (R c)} {c : C} (kept : fixed c = none)
    (next : R c → Program R ε α) :
    (call c next).without fixed = call c (fun r => (next r).without fixed) := by
  simp only [without, kept]

theorem without_lift {fixed : (c : C) → Option (R c)} (x : Except ε β) (f : β → Program R ε α) :
    ((lift x : Program R ε β) >>= f).without fixed = lift x >>= fun b => (f b).without fixed := by
  cases x <;> rfl

end Program

/-- What becomes of one call: it goes through, or the caller sees an exception
and the call has had no effect, or has had its effect all the same. -/
inductive Fault where
  | none | before | after
  deriving DecidableEq, Repr

def effect (exec : (c : C) → S → Except ε (S × R c)) (c : C) (s : S) : S :=
  match exec c s with
  | .ok (t, _) => t
  | .error _ => s

theorem effect_ok {exec : (c : C) → S → Except ε (S × R c)} {c : C} {s t : S} {r : R c}
    (answered : exec c s = .ok (t, r)) : effect exec c s = t := by
  simp only [effect, answered]

/-- The program run alone, the n-th call meeting the n-th fault of the list and
every call past its end going through. An answer is given only by a run that is
neither cut off nor ended by an exception. -/
def Program.faulty (exec : (c : C) → S → Except ε (S × R c)) :
    Program R ε α → List Fault → S → S × Option α
  | .done a, _, s => (s, some a)
  | .throw _, _, s => (s, none)
  | .call c next, fs, s =>
    match fs.headD .none with
    | .before => (s, none)
    | .after => (effect exec c s, none)
    | .none =>
      match exec c s with
      | .ok (t, r) => (next r).faulty exec fs.tail t
      | .error _ => (s, none)

theorem Program.faulty_nil (exec : (c : C) → S → Except ε (S × R c)) (p : Program R ε α) (s : S) :
    p.faulty exec [] s = ((p.run exec s).1, (p.run exec s).2.toOption) := by
  induction p generalizing s with
  | done a => rfl
  | throw e => rfl
  | call c next ih =>
    simp only [faulty, run, List.headD_nil, List.tail_nil]
    cases exec c s with
    | error e => rfl
    | ok answer => exact ih answer.2 answer.1

def Fault.single : Option Nat → List Fault
  | Option.none => []
  | some n => List.replicate n .none ++ [.before]

section Single

variable (exec : (c : C) → S → Except ε (S × R c)) {c : C} {next : R c → Program R ε α} {s t : S}

theorem Program.faulty_refused {e : ε} (refused : exec c s = .error e) (fs : List Fault) :
    (call c next).faulty exec fs s = (s, none) := by
  simp only [faulty, effect, refused]
  split <;> rfl

theorem Program.faulty_answered {r : R c} (answered : exec c s = .ok (t, r)) (k : Option Nat) :
    (call c next).faulty exec (Fault.single k) s =
      if k = some 0 then (s, none) else (next r).faulty exec (Fault.single (k.map Nat.pred)) t := by
  match k with
  | none => simp [faulty, Fault.single, answered]
  | some 0 => rfl
  | some (n + 1) => simp [faulty, Fault.single, List.replicate_succ, answered]

end Single

theorem Program.run_of_faulty (exec : (c : C) → S → Except ε (S × R c)) {p : Program R ε α}
    {fs : List Fault} {s t : S} {a : α} (answered : p.faulty exec fs s = (t, some a)) :
    p.run exec s = (t, .ok a) := by
  induction p generalizing s fs with
  | done b =>
    cases answered
    rfl
  | throw e => cases answered
  | call c next ih =>
    simp only [faulty] at answered
    split at answered
    · cases answered
    · cases answered
    · simp only [run]
      cases answer : exec c s with
      | error e =>
        rw [answer] at answered
        cases answered
      | ok reply =>
        rw [answer] at answered
        exact ih reply.2 answered

end Haystack.Calls
