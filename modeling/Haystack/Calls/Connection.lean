import Haystack.Calls.Pool

/-! Calls over connections that several threads share. A call writes its command to the connection
and then, as a step of its own, takes the next reply that nobody has taken yet. The other side
executes the commands, and replies to them, in the order in which they were written. -/
namespace Haystack.Calls

variable {Q C K : Type} {R : C → Type} {S ε α Reply : Type}

/-- The steps of a call. The ticket is the number of commands that were written before; it tells
whose reply is whose and has no part in what is received. -/
inductive Half (C K : Type) where
  | whole (c : C)
  | send (k : K) (c : C)
  | receive (k : K) (c : C) (ticket : Nat)

@[reducible] def Half.Answer (R : C → Type) (K ε : Type) : Half C K → Type
  | .whole c => R c
  | .send _ _ => Nat
  | .receive _ c _ => Except ε (R c)

/-- The connection of each call, if it has one, the reply to its command, and what it makes of a
reply, be it its own or not. -/
structure Wiring (R : C → Type) (K ε Reply : Type) where
  connection : C → Option K
  encode : (c : C) → Except ε (R c) → Reply
  decode : (c : C) → Reply → Except ε (R c)
  own : ∀ c k x, connection c = some k → decode c (encode c x) = x
  timeout : ε

structure Wired (S K Reply : Type) where
  state : S
  replies : K → List Reply
  taken : K → Nat

def Wired.start (s : S) : Wired S K Reply := ⟨s, fun _ => [], fun _ => 0⟩

namespace Wiring

variable (w : Wiring R K ε Reply)

def split : Program R ε α → Program (Half.Answer R K ε) ε α
  | .done a => .done a
  | .throw e => .throw e
  | .call c next =>
    match w.connection c with
    | none => .call (.whole c) (fun r => split (next r))
    | some k =>
      .call (.send k c)
        (fun n => .call (.receive k c n) (fun x => .lift x >>= fun r => split (next r)))

variable [DecidableEq K] (exec : (c : C) → S → Except ε (S × R c))

def execHalf : (h : Half C K) → Wired S K Reply → Except ε (Wired S K Reply × h.Answer R K ε)
  | .whole c, x => (exec c x.state).map (fun answer => (⟨answer.1, x.replies, x.taken⟩, answer.2))
  | .send k c, x =>
    let reply := w.encode c ((exec c x.state).map Prod.snd)
    .ok (⟨effect exec c x.state, Function.update x.replies k (x.replies k ++ [reply]), x.taken⟩,
      (x.replies k).length)
  | .receive k c _, x =>
    match (x.replies k)[x.taken k]? with
    | none => .error w.timeout
    | some reply =>
      .ok (⟨x.state, x.replies, Function.update x.taken k (x.taken k + 1)⟩, w.decode c reply)

end Wiring

/-- A thread takes a reply only if all replies to earlier commands have been taken. -/
def InOrder (p : Pool Q (Half.Answer R K ε) (Wired S K Reply) ε α) : Event Q ε → Prop
  | .step i =>
    match p.threads[i]? with
    | none => True
    | some t =>
      match t.rest with
      | .call (.receive k _ ticket) _ => ticket = p.state.taken k
      | _ => True
  | _ => True

def overlapped (q q' : Q) : List (Event Q ε) :=
  [.start q, .start q', .step 0, .step 1, .step 1, .step 0]

variable {w : Wiring R K ε Reply}

theorem Wiring.split_outcome {p : Program R ε α} {x : Except ε α}
    (ended : (w.split p).outcome = some x) :
    p.outcome = some x := by
  cases p with
  | done a => exact ended
  | throw e => exact ended
  | call c next =>
    rw [Wiring.split] at ended
    cases connected : w.connection c with
    | none => simp [connected, Program.outcome] at ended
    | some k => simp [connected, Program.outcome] at ended

theorem Wiring.split_lift {c : C} (x : Except ε (R c)) (next : R c → Program R ε α) :
    w.split (.lift x >>= next) = .lift x >>= fun r => w.split (next r) := by
  cases x <;> rfl

/-- Where a thread with halved calls stands and where the thread with whole calls does. A thread
that has written its command counts as answered. -/
inductive Matches (w : Wiring R K ε Reply) (replies : K → List Reply)
    (rest : Program (Half.Answer R K ε) ε α) (whole : Program R ε α) : Prop where
  | between : rest = w.split whole → Matches w replies rest whole
  | waiting {k : K} {c : C} {ticket : Nat} {x : Except ε (R c)} {next : R c → Program R ε α} :
      w.connection c = some k →
      rest = .call (.receive k c ticket) (fun x => .lift x >>= fun r => w.split (next r)) →
      whole = .lift x >>= next → (replies k)[ticket]? = some (w.encode c x) →
        Matches w replies rest whole

theorem Matches.outcome {replies : K → List Reply} {rest : Program (Half.Answer R K ε) ε α}
    {whole : Program R ε α}
    (matched : Matches w replies rest whole) {x : Except ε α} (ended : rest.outcome = some x) :
    whole.outcome = some x := by
  cases matched with
  | between same =>
    rw [same] at ended
    exact Wiring.split_outcome ended
  | waiting _ same =>
    rw [same] at ended
    cases ended

theorem Matches.written [DecidableEq K] {replies : K → List Reply}
    {rest : Program (Half.Answer R K ε) ε α}
    {whole : Program R ε α} (matched : Matches w replies rest whole) (k : K) (reply : Reply) :
    Matches w (Function.update replies k (replies k ++ [reply])) rest whole := by
  cases matched with
  | between same => exact .between same
  | @waiting k' c ticket x next connected same ahead queued =>
    refine .waiting connected same ahead ?_
    by_cases here : k' = k
    · subst here
      have within := (List.getElem?_eq_some_iff.mp queued).1
      rw [Function.update_self, List.getElem?_append_left within]
      exact queued
    · rw [Function.update_of_ne here]
      exact queued

structure Follows (w : Wiring R K ε Reply) (p : Pool Q (Half.Answer R K ε) (Wired S K Reply) ε α)
    (u : Pool Q R S ε α) : Prop where
  state : u.state = p.state.state
  length : u.threads.length = p.threads.length
  threads : ∀ (i : Nat) t v, p.threads[i]? = some t → u.threads[i]? = some v →
    v.request = t.request ∧ Matches w p.state.replies t.rest v.rest

namespace Follows

variable {exec : (c : C) → S → Except ε (S × R c)} {handler : Q → Program R ε α}
  {p q : Pool Q (Half.Answer R K ε) (Wired S K Reply) ε α} {u : Pool Q R S ε α}

theorem start (s : S) :
    Follows w (⟨.start s, []⟩ : Pool Q (Half.Answer R K ε) (Wired S K Reply) ε α) ⟨s, []⟩ :=
  ⟨rfl, rfl, fun i t v found => by cases found⟩

theorem found (follows : Follows w p u) {i : Nat} {t : Thread Q (Half.Answer R K ε) ε α}
    (present : p.threads[i]? = some t) :
    ∃ v, u.threads[i]? = some v ∧ v.request = t.request ∧
      Matches w p.state.replies t.rest v.rest := by
  have within := (List.getElem?_eq_some_iff.mp present).1
  rw [← follows.length] at within
  exact ⟨_, List.getElem?_eq_getElem within,
    follows.threads i t _ present (List.getElem?_eq_getElem within)⟩

theorem advance (follows : Follows w p u) {i : Nat} {t : Thread Q (Half.Answer R K ε) ε α}
    {v : Thread Q R ε α}
    {x : Wired S K Reply} {rest : Program (Half.Answer R K ε) ε α} (request : v.request = t.request)
    (kept : ∀ rest whole, Matches (α := α) w p.state.replies rest whole →
      Matches w x.replies rest whole)
    (matched : Matches w x.replies rest v.rest) :
    Follows w (p.advance i t x rest) ⟨x.state, u.threads.set i v⟩ := by
  refine ⟨rfl, by simp [Pool.advance, follows.length], ?_⟩
  intro j t' v' present present'
  simp only [Pool.advance, List.getElem?_set] at present present'
  by_cases here : i = j
  · subst here
    rw [if_pos rfl] at present present'
    split at present <;> split at present'
    · cases present
      cases present'
      exact ⟨request, matched⟩
    all_goals contradiction
  · rw [if_neg here] at present present'
    obtain ⟨asked, stands⟩ := follows.threads j t' v' present present'
    exact ⟨asked, kept _ _ stands⟩

theorem begin (follows : Follows w p u) (r : Q) :
    Follows w ⟨p.state, p.threads ++ [⟨r, 0, w.split (handler r)⟩]⟩
      ⟨u.state, u.threads ++ [⟨r, 0, handler r⟩]⟩ := by
  refine ⟨follows.state, by simp [follows.length], ?_⟩
  intro i t v present present'
  rcases Nat.lt_or_ge i p.threads.length with old | new
  · rw [List.getElem?_append_left old] at present
    rw [List.getElem?_append_left (follows.length ▸ old)] at present'
    exact follows.threads i t v present present'
  · rw [List.getElem?_append_right new] at present
    rw [List.getElem?_append_right (follows.length ▸ new), follows.length] at present'
    cases List.mem_singleton.mp (List.mem_of_getElem? present)
    cases List.mem_singleton.mp (List.mem_of_getElem? present')
    exact ⟨rfl, .between rfl⟩

variable [DecidableEq K]

section Steps

variable {i : Nat} {t : Thread Q (Half.Answer R K ε) ε α} {c : C} {next : R c → Program R ε α}

theorem whole (follows : Follows w p u) {v : Thread Q R ε α} (present : u.threads[i]? = some v)
    (request : v.request = t.request) (rest : v.rest = .call c next) :
    ∃ u', u.next exec handler (.step i) = some u' ∧
      Follows w (p.advance i t (effect (w.execHalf exec) (.whole c) p.state)
        (.lift ((w.execHalf exec (.whole c) p.state).map Prod.snd) >>= fun r => w.split (next r)))
          u' := by
  refine ⟨_, Pool.next_step_eq exec handler present rest, ?_⟩
  have state : effect (w.execHalf exec) (.whole c) p.state =
      ⟨effect exec c p.state.state, p.state.replies, p.state.taken⟩ := by
    simp only [effect, Wiring.execHalf]
    cases exec c p.state.state <;> rfl
  have answer : (w.execHalf exec (.whole c) p.state).map Prod.snd =
      (exec c p.state.state).map Prod.snd := by
    simp only [Wiring.execHalf]
    cases exec c p.state.state <;> rfl
  rw [state, answer, follows.state]
  exact follows.advance request (fun _ _ stands => stands) (.between (Wiring.split_lift _ _).symm)

theorem send (follows : Follows w p u) {k : K} {v : Thread Q R ε α}
    (connected : w.connection c = some k)
    (present : u.threads[i]? = some v) (request : v.request = t.request)
    (rest : v.rest = .call c next) :
    ∃ u', u.next exec handler (.step i) = some u' ∧
      Follows w (p.advance i t (effect (w.execHalf exec) (.send k c) p.state)
        (.lift ((w.execHalf exec (.send k c) p.state).map Prod.snd) >>= fun n =>
          .call (.receive k c n) (fun x => .lift x >>= fun r => w.split (next r)))) u' := by
  refine ⟨_, Pool.next_step_eq exec handler present rest, ?_⟩
  rw [follows.state]
  refine follows.advance request (fun _ _ stands => stands.written k _) ?_
  refine .waiting connected rfl rfl ?_
  change (Function.update p.state.replies k
    (p.state.replies k ++ [_]) k)[(p.state.replies k).length]? = _
  rw [Function.update_self, List.getElem?_concat_length]

theorem receive (follows : Follows w p u) {k : K} {v : Thread Q R ε α} {x : Except ε (R c)}
    (connected : w.connection c = some k) (present : u.threads[i]? = some v)
    (request : v.request = t.request) (rest : v.rest = .lift x >>= next)
    (queued : (p.state.replies k)[p.state.taken k]? = some (w.encode c x)) :
    Follows w (p.advance i t (effect (w.execHalf exec) (.receive k c (p.state.taken k)) p.state)
      (.lift ((w.execHalf exec (.receive k c (p.state.taken k)) p.state).map Prod.snd) >>= fun x =>
        .lift x >>= fun r => w.split (next r))) u := by
  have answer : w.execHalf exec (.receive k c (p.state.taken k)) p.state =
      .ok (⟨p.state.state, p.state.replies, Function.update p.state.taken k (p.state.taken k + 1)⟩,
        x) := by
    simp only [Wiring.execHalf, queued, w.own c k x connected]
  have same : u = ⟨p.state.state, u.threads.set i v⟩ := by
    obtain ⟨within, rfl⟩ := List.getElem?_eq_some_iff.mp present
    rw [List.set_getElem_self, ← follows.state]
  rw [effect_ok answer, answer, same]
  refine follows.advance request (fun _ _ stands => stands) (.between ?_)
  rw [rest, Wiring.split_lift]
  rfl

end Steps

theorem between {i : Nat} {t : Thread Q (Half.Answer R K ε) ε α} {v : Thread Q R ε α}
    (follows : Follows w p u)
    (present : p.threads[i]? = some t) (present' : u.threads[i]? = some v)
    (request : v.request = t.request)
    (same : t.rest = w.split v.rest)
    (taken : p.next (w.execHalf exec) (fun r => w.split (handler r)) (.step i) = some q) :
    ∃ u', u.next exec handler (.step i) = some u' ∧ Follows w q u' := by
  cases rest : v.rest with
  | done a => simp [Pool.next, present, same, rest, Wiring.split] at taken
  | throw e => simp [Pool.next, present, same, rest, Wiring.split] at taken
  | call c next =>
    rw [rest, Wiring.split] at same
    cases connected : w.connection c with
    | none =>
      simp only [connected] at same
      rw [Pool.next_step_eq _ _ present same] at taken
      cases Option.some.inj taken
      exact follows.whole present' request rest
    | some k =>
      simp only [connected] at same
      rw [Pool.next_step_eq _ _ present same] at taken
      cases Option.some.inj taken
      exact follows.send connected present' request rest

theorem next (follows : Follows w p u) {e : Event Q ε} (unfailing : e.unfailing = true)
    (inOrder : InOrder p e)
    (taken : p.next (w.execHalf exec) (fun r => w.split (handler r)) e = some q) :
    ∃ es u', started es = started [e] ∧ (∀ f ∈ es, f.unfailing = true) ∧
      u.runs exec handler es = some u' ∧ Follows w q u' := by
  cases e with
  | start r =>
    cases Option.some.inj taken
    exact ⟨[.start r], _, rfl, by simp [Event.unfailing], rfl, follows.begin r⟩
  | step i =>
    obtain ⟨t, -, -, present, -, -⟩ := Pool.next_step_cases _ _ (Pool.next_cases _ _ taken)
    obtain ⟨v, present', request, matched⟩ := follows.found present
    cases matched with
    | between same =>
      obtain ⟨u', moved, after⟩ := follows.between present present' request same taken
      refine ⟨[.step i], u', rfl, by simp [Event.unfailing], ?_, after⟩
      rw [Pool.runs, moved]
      rfl
    | @waiting k c ticket x next connected same ahead queued =>
      have due : ticket = p.state.taken k := by simpa [InOrder, present, same] using inOrder
      subst due
      rw [Pool.next_step_eq _ _ present same] at taken
      refine ⟨[], u, rfl, by simp, rfl, ?_⟩
      rw [← Option.some.inj taken]
      exact follows.receive connected present' request ahead queued
  | abort i applied e => cases unfailing

theorem runs (follows : Follows w p u) {es : List (Event Q ε)}
    (unfailing : ∀ e ∈ es, e.unfailing = true)
    (inOrder : Pool.Along (w.execHalf exec) (fun r => w.split (handler r)) InOrder p es)
    (run : p.runs (w.execHalf exec) (fun r => w.split (handler r)) es = some q) :
    ∃ fs u', started fs = started es ∧ (∀ f ∈ fs, f.unfailing = true) ∧
      u.runs exec handler fs = some u' ∧ Follows w q u' := by
  induction es generalizing p u with
  | nil =>
    cases Option.some.inj run
    exact ⟨[], u, rfl, by simp, rfl, follows⟩
  | cons e es ih =>
    simp only [Pool.runs, Option.bind_eq_some_iff] at run
    obtain ⟨m, first, rest⟩ := run
    simp only [Pool.Along, first] at inOrder
    obtain ⟨fs, v, begun, calm, reached, follows'⟩ :=
      follows.next (unfailing e List.mem_cons_self) inOrder.1 first
    obtain ⟨gs, u', begun', calm', reached', after⟩ :=
      ih follows' (fun f member => unfailing f (List.mem_cons_of_mem e member)) inOrder.2 rest
    refine ⟨fs ++ gs, u', ?_, ?_, ?_, after⟩
    · rw [started_append, begun, begun', ← started_append]
      rfl
    · intro f member
      exact (List.mem_append.mp member).elim (calm f) (calm' f)
    · rw [Pool.runs_append, reached, Option.bind_some, reached']

end Follows

theorem overlapped_runs [DecidableEq K] (exec : (c : C) → S → Except ε (S × R c))
    (handler : Q → Program R ε α) (q q' : Q) {c d : C}
    {k : K} {next : R c → Program R ε α} {next' : R d → Program R ε α}
    (first : handler q = .call c next)
    (second : handler q' = .call d next') (connected : w.connection c = some k)
    (connected' : w.connection d = some k) (s : S) :
    ∃ x, (⟨.start s, []⟩ : Pool Q (Half.Answer R K ε) (Wired S K Reply) ε α).runs (w.execHalf exec)
      (fun r => w.split (handler r)) (overlapped q q') = some ⟨x, [
        ⟨q, 2,
          .lift (w.decode c (w.encode d ((exec d (effect exec c s)).map Prod.snd))) >>=
            fun r => w.split (next r)⟩,
        ⟨q', 2,
          .lift (w.decode d (w.encode c ((exec c s).map Prod.snd))) >>=
            fun r => w.split (next' r)⟩]⟩ := by
  have left : w.split (handler q) = .call (.send k c) (fun n => .call (.receive k c n) (fun x =>
      .lift x >>= fun r => w.split (next r))) := by
    simp only [first, Wiring.split, connected]
  have right : w.split (handler q') = .call (.send k d) (fun n => .call (.receive k d n) (fun x =>
      .lift x >>= fun r => w.split (next' r))) := by
    simp only [second, Wiring.split, connected']
  refine ⟨⟨effect exec d (effect exec c s),
    Function.update (fun _ => []) k
      [w.encode c ((exec c s).map Prod.snd), w.encode d ((exec d (effect exec c s)).map Prod.snd)],
        Function.update (fun _ => 0) k 2⟩, ?_⟩
  simp only [overlapped, Pool.runs, Pool.next, Pool.advance, Wiring.execHalf, Wired.start, left,
    right, Option.bind_some, List.nil_append, List.cons_append, List.length_nil,
    List.getElem?_cons_zero, List.getElem?_cons_succ, Nat.zero_add, List.set_cons_zero,
    List.set_cons_succ, Function.update_self, Function.update_idem, Nat.reduceAdd]

end Haystack.Calls
