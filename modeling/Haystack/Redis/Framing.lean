import Haystack.Redis.Server

/-! Requests arrive as they were sent, whatever the pieces are in which their bytes are read. -/
namespace Haystack.Redis

open Digits

/-- The longest buffer of a client that is not reading a large argument: the rest of a small one
and what one call of read can add to it. -/
def bufferBound : Nat := 1024 * 32 + 1 + 1024 * 16

def line (h : Sds) : Sds := h ++ crlf

theorem newlineIndex_line {h : Sds} (plain : ∀ b ∈ h, b ≠ 13 ∧ b ≠ 0) (rest : Sds) :
    newlineIndex (line h ++ rest) = some h.length := by
  induction h with
  | nil => rfl
  | cons b h ih =>
    obtain ⟨notReturn, notZero⟩ := plain b List.mem_cons_self
    have later := ih (fun b member => plain b (List.mem_cons_of_mem _ member))
    change newlineIndex (b :: (line h ++ rest)) = _
    rw [newlineIndex, if_neg notReturn, if_neg notZero, later]
    rfl

theorem newlineIndex_part {h part missing : Sds} (plain : ∀ b ∈ h, b ≠ 13 ∧ b ≠ 0)
    (cut : line h = part ++ missing) (rest : missing ≠ []) :
    newlineIndex part = none ∨ ∃ n, newlineIndex part = some n ∧ part.length < n + 2 := by
  induction h generalizing part with
  | nil =>
    cases part with
    | nil => exact .inl rfl
    | cons b part =>
      have first : b = 13 := (List.cons.inj cut).1.symm
      have later : [10] = part ++ missing := (List.cons.inj cut).2
      have empty : part = [] := by
        cases part with
        | nil => rfl
        | cons b part =>
          exact absurd (List.append_eq_nil_iff.mp (List.cons.inj later).2.symm).2 rest
      exact .inr ⟨0, by rw [first, newlineIndex, if_pos rfl], by rw [empty]; simp⟩
  | cons b h ih =>
    cases part with
    | nil => exact .inl rfl
    | cons b' part =>
      have first : b = b' := (List.cons.inj cut).1
      have later : line h = part ++ missing := (List.cons.inj cut).2
      subst first
      obtain ⟨notReturn, notZero⟩ := plain b List.mem_cons_self
      rw [newlineIndex, if_neg notReturn, if_neg notZero]
      rcases ih (fun b member => plain b (List.mem_cons_of_mem _ member)) later with
        none | ⟨n, found, short⟩
      · exact .inl (by rw [none]; rfl)
      · exact .inr ⟨n + 1, by rw [found]; rfl, by simpa using short⟩

theorem line_split {h buf stream rest : Sds} (plain : ∀ b ∈ h, b ≠ 13 ∧ b ≠ 0)
    (data : buf ++ stream = line h ++ rest) :
    (∃ more, buf = line h ++ more ∧ more ++ stream = rest) ∨
    (stream ≠ [] ∧ buf.length < (line h).length ∧
      (newlineIndex buf = none ∨ ∃ n, newlineIndex buf = some n ∧ buf.length < n + 2)) := by
  rcases List.append_eq_append_iff.mp data with ⟨missing, cut, left⟩ | ⟨more, whole, left⟩
  · by_cases complete : missing = []
    · rw [complete, List.append_nil] at cut
      rw [complete, List.nil_append] at left
      exact .inl ⟨[], by rw [List.append_nil, cut], by rw [List.nil_append, left]⟩
    · have positive := List.length_pos_of_ne_nil complete
      refine .inr ⟨?_, ?_, newlineIndex_part plain cut complete⟩
      · rw [left]
        simp [complete]
      · rw [cut, List.length_append]
        omega
  · exact .inl ⟨more, whole, left.symm⟩

theorem ll2string_nat {n : Nat} (bound : n < 2 ^ 63) : ll2string 31 n = decimal n := by
  rw [ll2string_eq (by omega) (by omega) (by omega), text, if_neg (by omega)]
  rfl

theorem string2ll_nat {n : Nat} (bound : n < 2 ^ 63) : string2ll (decimal n) = some (n : Int) := by
  apply (string2ll_iff _ _).mpr
  refine ⟨by omega, by omega, ?_⟩
  rw [text, if_neg (by omega)]
  rfl

theorem plain_header (first : UInt8) (notReturn : first ≠ 13) (notZero : first ≠ 0) (n : Nat) :
    ∀ b ∈ first :: decimal n, b ≠ 13 ∧ b ≠ 0 := by
  intro b member
  rcases List.mem_cons.mp member with rfl | member
  · exact ⟨notReturn, notZero⟩
  · have low := (mem_decimal member).1
    constructor
    · rintro rfl
      exact absurd low (by decide)
    · rintro rfl
      exact absurd low (by decide)

theorem length_header {n : Nat} (bound : n ≤ protoMaxBulkLen) (first : UInt8) :
    (line (first :: decimal n)).length ≤ 12 := by
  have digits : (decimal n).length ≤ 9 :=
    length_decimal_le (by unfold protoMaxBulkLen at bound; omega)
  simp only [line, crlf, List.length_append, List.length_cons, List.length_nil]
  omega

theorem argText_eq {a : Sds} (bound : a.length ≤ protoMaxBulkLen) :
    argText a = line (36 :: decimal a.length) ++ (a ++ crlf) := by
  rw [argText, ll2string_nat (by unfold protoMaxBulkLen at bound; omega)]
  simp [line]

theorem argText_ne_nil (a : Sds) : argText a ≠ [] := by
  simp [argText]

theorem requestText_cons {argv : List Sds} (bound : argv.length ≤ 1024 * 1024)
    (requests : List (List Sds)) : requestText (argv :: requests) =
      line (42 :: decimal argv.length) ++ (argv.flatMap argText ++ requestText requests) := by
  have shift : ∀ (requests : List (List Sds)) (dst : Sds),
      requests.foldl catAppendOnlyGenericCommand dst =
        dst ++ requests.foldl catAppendOnlyGenericCommand [] := by
    intro requests
    induction requests with
    | nil => simp
    | cons argv requests ih =>
      intro dst
      rw [List.foldl_cons, ih, List.foldl_cons, ih (catAppendOnlyGenericCommand [] argv)]
      simp [catAppendOnlyGenericCommand]
  rw [requestText, List.foldl_cons, shift, catAppendOnlyGenericCommand, ll2string_nat (by omega)]
  simp [line, requestText]

section Arguments

variable {c : Client} {pos : Nat} {a stream tail : Sds}

theorem readBulkLen_spec (unread : c.bulklen = none) (bound : a.length ≤ protoMaxBulkLen)
    (inside : pos ≤ c.querybuf.length) (small : c.querybuf.length ≤ bufferBound)
    (data : c.querybuf.drop pos ++ stream = argText a ++ tail) :
    (∃ q pos',
      readBulkLen c pos = .go { c with querybuf := q, bulklen := some a.length } pos' a.length ∧
      pos' ≤ q.length ∧ q.length ≤ bufferBound ∧ q.drop pos' ++ stream = a ++ crlf ++ tail) ∨
    (readBulkLen c pos = .wait ∧ stream ≠ [] ∧ (c.querybuf.drop pos).length < 12) := by
  have length : (c.querybuf.drop pos).length = c.querybuf.length - pos := List.length_drop
  have header := length_header bound 36
  have large : ¬ 1024 * 64 < c.querybuf.length := by unfold bufferBound at small; omega
  rw [argText_eq bound, List.append_assoc] at data
  simp only [readBulkLen, unread]
  rcases line_split (plain_header 36 (by decide) (by decide) a.length) data with
    ⟨more, whole, rest⟩ | ⟨missing, short, none | ⟨n, found, part⟩⟩
  · left
    have index := newlineIndex_line (plain_header 36 (by decide) (by decide) a.length) more
    have first : c.querybuf[pos]? = some 36 := by
      rw [← List.head?_drop, whole]
      rfl
    have digits : (c.querybuf.drop (pos + 1)).take ((36 :: decimal a.length).length - 1) =
        decimal a.length := by
      rw [← List.drop_drop, whole]
      simp [line]
    have onward : c.querybuf.drop (pos + (36 :: decimal a.length).length + 2) = more := by
      rw [Nat.add_assoc, ← List.drop_drop, whole]
      simp [line, crlf]
    have complete : ¬ c.querybuf.length < pos + (36 :: decimal a.length).length + 2 := by
      have sum := congrArg List.length whole
      simp only [line, crlf, List.length_append, List.length_cons, List.length_nil] at sum ⊢
      omega
    have value := string2ll_nat (n := a.length) (by unfold protoMaxBulkLen at bound; omega)
    have allowed : ¬ ((a.length : Int) < 0 ∨ (protoMaxBulkLen : Int) < (a.length : Int)) := by omega
    rw [whole, index]
    simp only [complete, if_false, first, ne_eq, not_true, digits, value, allowed,
      Int.toNat_natCast]
    split
    · exact ⟨_, 0, rfl, by simp, by rw [List.length_drop]; omega,
        by rw [onward, List.drop_zero, rest, List.append_assoc]⟩
    · exact ⟨c.querybuf, _, rfl, by omega, small, by rw [onward, rest, List.append_assoc]⟩
  · right
    refine ⟨?_, missing, by omega⟩
    rw [none]
    simp only [large, if_false]
  · right
    refine ⟨?_, missing, by omega⟩
    rw [found]
    simp only [if_pos (show c.querybuf.length < pos + n + 2 by omega)]

theorem readBulk_spec (inside : pos ≤ c.querybuf.length)
    (room : c.querybuf.length ≤ bufferBound ∨
      pos = 0 ∧ 1024 * 32 ≤ a.length ∧ c.querybuf.length ≤ a.length + 2)
    (data : c.querybuf.drop pos ++ stream = a ++ crlf ++ tail) :
    (∃ q pos', readBulk c pos a.length =
        some ({ c with argv := c.argv ++ [a], querybuf := q, bulklen := none }, pos') ∧
      pos' ≤ q.length ∧ q.length ≤ bufferBound ∧ q.drop pos' ++ stream = tail) ∨
    (readBulk c pos a.length = none ∧ stream ≠ [] ∧
      (c.querybuf.drop pos).length < a.length + 2) := by
  have length : (c.querybuf.drop pos).length = c.querybuf.length - pos := List.length_drop
  have ends : (a ++ crlf).length = a.length + 2 := by simp [crlf]
  unfold readBulk
  split
  · rename_i missing
    right
    refine ⟨rfl, ?_, by omega⟩
    intro nothing
    have sum := congrArg List.length data
    rw [nothing, List.append_nil, List.length_append, ends] at sum
    omega
  · rename_i enough
    left
    obtain ⟨more, whole, rest⟩ :
        ∃ more, c.querybuf.drop pos = a ++ crlf ++ more ∧ more ++ stream = tail := by
      rcases List.append_eq_append_iff.mp data with ⟨missing, cut, left⟩ | ⟨more, whole, left⟩
      · have sum := congrArg List.length cut
        rw [ends, List.length_append] at sum
        have none : missing = [] := List.length_eq_zero_iff.mp (by omega)
        rw [none, List.append_nil] at cut
        rw [none, List.nil_append] at left
        exact ⟨[], by rw [List.append_nil, cut], by rw [List.nil_append, left]⟩
      · exact ⟨more, whole, left.symm⟩
    split
    · rename_i exactly
      obtain ⟨rfl, -, all⟩ := exactly
      have sum := congrArg List.length whole
      rw [List.length_append, ends] at sum
      have none : more = [] := List.length_eq_zero_iff.mp (by omega)
      rw [List.drop_zero, none, List.append_nil] at whole
      rw [none, List.nil_append] at rest
      refine ⟨[], 0, ?_, Nat.le_refl 0, Nat.zero_le _, by rw [List.drop_nil, List.nil_append, rest]⟩
      rw [all, Nat.add_sub_cancel, whole, List.take_left']
      rfl
    · rename_i copied
      refine ⟨c.querybuf, pos + a.length + 2, ?_, by omega, ?_, ?_⟩
      · rw [whole, List.append_assoc, List.take_left']
        rfl
      · rcases room with small | ⟨start, large, fits⟩
        · exact small
        · exact absurd ⟨start, large, by omega⟩ copied
      · rw [Nat.add_assoc, ← List.drop_drop, whole, ← ends, List.drop_left', rest]
        rfl

end Arguments

/-- Where in the arguments of a request the bytes from here on begin: before the length of the next
argument, or after it. -/
def Position (bulklen : Option Nat) (bytes : Sds) (todo : List Sds) (after : Sds) : Prop :=
  match bulklen with
  | none => bytes = todo.flatMap argText ++ after
  | some len => ∃ a rest, todo = a :: rest ∧ a.length = len ∧
    bytes = a ++ crlf ++ (rest.flatMap argText ++ after)

structure Waits (argv : List Sds) (after stream : Sds) (c : Client) : Prop where
  alive : c.closing = false
  multibulk : c.multibulk = true
  short : c.querybuf.length < c.bulklen.getD 10 + 2
  arguments : ∃ todo, todo ≠ [] ∧ argv = c.argv ++ todo ∧ c.multibulklen = todo.length ∧
    Position c.bulklen (c.querybuf ++ stream) todo after

structure Complete (argv : List Sds) (after stream : Sds) (c : Client) : Prop where
  alive : c.closing = false
  arguments : c.argv = argv
  small : c.querybuf.length ≤ bufferBound
  rest : c.querybuf ++ stream = after

def Room (bulklen : Option Nat) (pos length : Nat) : Prop :=
  length ≤ bufferBound ∨
    pos = 0 ∧ ∃ len, bulklen = some len ∧ 1024 * 32 ≤ len ∧ length ≤ len + 2

section Requests

variable {c : Client} {stream after : Sds}

theorem bulkLoop_spec (pos : Nat) {todo : List Sds} (fits : ∀ a ∈ todo, a.length ≤ protoMaxBulkLen)
    (alive : c.closing = false) (multibulk : c.multibulk = true) (inside : pos ≤ c.querybuf.length)
    (room : Room c.bulklen pos c.querybuf.length)
    (position : Position c.bulklen (c.querybuf.drop pos ++ stream) todo after) :
    ∃ c', c'.reply = c.reply ∧
      (bulkLoop todo.length c pos = (true, c') ∧ Complete (c.argv ++ todo) after stream c' ∨
      bulkLoop todo.length c pos = (false, c') ∧ stream ≠ [] ∧
        Waits (c.argv ++ todo) after stream c') := by
  induction todo generalizing c pos with
  | nil =>
    cases unread : c.bulklen with
    | some len =>
      rw [unread] at position
      obtain ⟨a, rest, impossible, -⟩ := position
      cases impossible
    | none =>
      rw [unread] at position room
      refine ⟨{ c with multibulklen := 0, querybuf := c.querybuf.drop pos }, rfl,
        .inl ⟨rfl, alive, (List.append_nil _).symm, ?_, position⟩⟩
      rcases room with small | ⟨-, len, impossible, -⟩
      · exact Nat.le_trans (by simp) small
      · cases impossible
  | cons a todo ih =>
    have bound := fits a List.mem_cons_self
    have later := fun b member => fits b (List.mem_cons_of_mem a member)
    -- The argument itself, from behind its length on.
    have argument : ∀ (q : Sds) (pos' : Nat), pos' ≤ q.length → Room (some a.length) pos' q.length →
        q.drop pos' ++ stream = a ++ crlf ++ (todo.flatMap argText ++ after) →
        readBulkLen c pos = .go { c with querybuf := q, bulklen := some a.length } pos' a.length →
        ∃ c', c'.reply = c.reply ∧
          (bulkLoop (a :: todo).length c pos = (true, c') ∧
            Complete (c.argv ++ a :: todo) after stream c' ∨
          bulkLoop (a :: todo).length c pos = (false, c') ∧ stream ≠ [] ∧
            Waits (c.argv ++ a :: todo) after stream c') := by
      intro q pos' inside' room' data stage
      have space : q.length ≤ bufferBound ∨
          pos' = 0 ∧ 1024 * 32 ≤ a.length ∧ q.length ≤ a.length + 2 := by
        rcases room' with small | ⟨start, len, same, large, fit⟩
        · exact .inl small
        · cases Option.some.inj same
          exact .inr ⟨start, large, fit⟩
      rcases readBulk_spec (c := { c with querybuf := q, bulklen := some a.length }) inside' space
          data with ⟨q', pos'', read, inside'', small, rest⟩ | ⟨missing, more, short⟩
      · have continued :=
          ih (c := { c with argv := c.argv ++ [a], querybuf := q', bulklen := none })
          pos'' later alive multibulk inside'' (.inl small) rest
        simp only [List.length_cons, bulkLoop, stage, read]
        simpa using continued
      · simp only [List.length_cons, bulkLoop, stage, missing]
        exact ⟨{ c with
          querybuf := q.drop pos', bulklen := some a.length, multibulklen := todo.length + 1 }, rfl,
          .inr
            ⟨rfl, more, alive, multibulk, short, a :: todo, List.cons_ne_nil _ _, rfl, rfl, a, todo,
            rfl, rfl, data⟩⟩
    cases read : c.bulklen with
    | some len =>
      rw [read] at position room
      obtain ⟨b, rest, same, length, data⟩ := position
      cases same
      subst length
      exact argument c.querybuf pos inside room data
        (by simp only [readBulkLen, read]; rw [← read])
    | none =>
      rw [read] at position room
      have small : c.querybuf.length ≤ bufferBound := by
        rcases room with small | ⟨-, len, impossible, -⟩
        · exact small
        · cases impossible
      have data : c.querybuf.drop pos ++ stream = argText a ++ (todo.flatMap argText ++ after) := by
        rw [← List.append_assoc]
        exact position
      rcases readBulkLen_spec read bound inside small data with
        ⟨q, pos', stage, inside', small', data'⟩ | ⟨stage, more, short⟩
      · exact argument q pos' inside' (.inl small') data' stage
      · simp only [List.length_cons, bulkLoop, stage]
        refine ⟨{ c with querybuf := c.querybuf.drop pos, multibulklen := todo.length + 1 }, rfl,
          .inr ⟨rfl, more, alive, multibulk, ?_, a :: todo, List.cons_ne_nil _ _, rfl, rfl, ?_⟩⟩
        · simpa [read] using short
        · simpa [read, Position] using position

theorem Position.longer {bulklen : Option Nat} {bytes : Sds} {todo : List Sds}
    (some_left : todo ≠ []) (position : Position bulklen bytes todo after) :
    after.length < bytes.length := by
  cases bulklen with
  | none =>
    obtain ⟨a, rest, rfl⟩ := List.exists_cons_of_ne_nil some_left
    have positive := List.length_pos_of_ne_nil (argText_ne_nil a)
    rw [position, List.flatMap_cons]
    simp only [List.length_append]
    omega
  | some len =>
    obtain ⟨a, rest, -, -, rfl⟩ := position
    simp only [List.length_append, crlf, List.length_cons, List.length_nil]
    omega

/-- A request that redis takes: it has a name, and it keeps to the limits on arguments. -/
structure Sendable (argv : List Sds) : Prop where
  named : argv ≠ []
  count : argv.length ≤ 1024 * 1024
  lengths : ∀ a ∈ argv, a.length ≤ protoMaxBulkLen

theorem sendable_iff (argv : List Sds) :
    (argv ≠ [] ∧ argv.length ≤ 1024 * 1024 ∧ ∀ a ∈ argv, a.length ≤ protoMaxBulkLen) ↔
      Sendable argv :=
  ⟨fun ⟨named, count, lengths⟩ => ⟨named, count, lengths⟩,
    fun sendable => ⟨sendable.named, sendable.count, sendable.lengths⟩⟩

instance (argv : List Sds) : Decidable (Sendable argv) := decidable_of_iff _ (sendable_iff argv)

theorem Sendable.longer {argv : List Sds} (sendable : Sendable argv) (later : List (List Sds)) :
    (requestText later).length < (requestText (argv :: later)).length := by
  rw [requestText_cons sendable.count]
  simp only [line, crlf, List.length_append, List.length_cons, List.length_nil]
  omega

structure Idle (requests : List (List Sds)) (stream : Sds) (c : Client) : Prop where
  alive : c.closing = false
  multibulklen : c.multibulklen = 0
  bulklen : c.bulklen = none
  argv : c.argv = []
  text : c.querybuf ++ stream = requestText requests

/-- All that has come of these requests has been taken from the buffer as far as it goes. -/
def Expects (requests : List (List Sds)) (stream : Sds) (c : Client) : Prop :=
  Idle requests stream c ∧ c.querybuf.length < 12 ∨
  ∃ argv later, requests = argv :: later ∧ Waits argv (requestText later) stream c

/-- These requests are still to come from the buffer and the stream. -/
def Ready (requests : List (List Sds)) (stream : Sds) (c : Client) : Prop :=
  Idle requests stream c ∧ c.querybuf.length ≤ bufferBound ∨
  ∃ argv later todo, requests = argv :: later ∧ c.closing = false ∧ c.multibulk = true ∧
    todo ≠ [] ∧ argv = c.argv ++ todo ∧ c.multibulklen = todo.length ∧
    Room c.bulklen 0 c.querybuf.length ∧
    Position c.bulklen (c.querybuf ++ stream) todo (requestText later)

variable {requests : List (List Sds)}

theorem Ready.alive (ready : Ready requests stream c) : c.closing = false := by
  rcases ready with ⟨idle, -⟩ | ⟨argv, later, todo, -, alive, -⟩
  · exact idle.alive
  · exact alive

theorem Expects.alive (expects : Expects requests stream c) : c.closing = false := by
  rcases expects with ⟨idle, -⟩ | ⟨argv, later, -, waits⟩
  · exact idle.alive
  · exact waits.alive

theorem Ready.multibulk (ready : Ready requests stream c) :
    Ready requests stream { c with multibulk := true } := by
  rcases ready with
    ⟨⟨alive, multibulklen, bulklen, argv, text⟩, small⟩ | ⟨argv, later, todo, same, alive, -, rest⟩
  · exact .inl ⟨⟨alive, multibulklen, bulklen, argv, text⟩, small⟩
  · exact .inr ⟨argv, later, todo, same, alive, rfl, rest⟩

theorem Ready.starts (ready : Ready requests stream c) (sendable : ∀ argv ∈ requests, Sendable argv)
    (nonempty : c.querybuf ≠ []) : ¬ (c.multibulk = false ∧ c.querybuf.head? ≠ some 42) := by
  rintro ⟨unknown, other⟩
  rcases ready with ⟨idle, -⟩ | ⟨argv, later, todo, -, -, multibulk, -⟩
  · obtain ⟨b, buf, split⟩ := List.exists_cons_of_ne_nil nonempty
    have text := idle.text
    cases requests with
    | nil => exact nonempty (List.append_eq_nil_iff.mp text).1
    | cons argv later =>
      rw [requestText_cons (sendable argv List.mem_cons_self).count, split] at text
      rw [split] at other
      exact other (congrArg some (List.cons.inj text).1)
  · rw [unknown] at multibulk
    cases multibulk

theorem requests_nil (sendable : ∀ argv ∈ requests, Sendable argv)
    (empty : requestText requests = []) : requests = [] := by
  cases requests with
  | nil => rfl
  | cons argv later =>
    have longer := (sendable argv List.mem_cons_self).longer later
    rw [empty] at longer
    exact absurd longer (Nat.not_lt_zero _)

theorem processMultibulkBuffer_idle {argv : List Sds} {later : List (List Sds)}
    (sendable : Sendable argv) (idle : Idle (argv :: later) stream c)
    (small : c.querybuf.length ≤ bufferBound) (multibulk : c.multibulk = true) :
    ∃ c', c'.reply = c.reply ∧
      (processMultibulkBuffer c = some (true, c') ∧
        Complete argv (requestText later) stream c' ∨
      processMultibulkBuffer c = some (false, c') ∧ stream ≠ [] ∧
        Expects (argv :: later) stream c') := by
  obtain ⟨alive, multibulklen, bulklen, none, text⟩ := idle
  obtain ⟨named, count, lengths⟩ := sendable
  have header := length_header (n := argv.length) (by unfold protoMaxBulkLen; omega) 42
  have large : ¬ 1024 * 64 < c.querybuf.length := by unfold bufferBound at small; omega
  have before := text
  rw [requestText_cons count] at text
  simp only [processMultibulkBuffer, multibulklen, none, ne_eq, not_true, if_false, if_true]
  rcases line_split (plain_header 42 (by decide) (by decide) argv.length) text with
    ⟨more, split, rest⟩ | ⟨missing, short, noReturn | ⟨n, found, part⟩⟩
  · have index := newlineIndex_line (plain_header 42 (by decide) (by decide) argv.length) more
    have complete : ¬ c.querybuf.length < (42 :: decimal argv.length).length + 2 := by
      rw [split]
      simp [line, crlf]
    have first : c.querybuf.head? = some 42 := by
      rw [split]
      rfl
    have digits : (c.querybuf.drop 1).take ((42 :: decimal argv.length).length - 1) =
        decimal argv.length := by
      rw [split]
      simp [line]
    have onward : c.querybuf.drop ((42 :: decimal argv.length).length + 2) = more := by
      rw [split]
      simp [line, crlf]
    have value := string2ll_nat (n := argv.length) (by omega)
    have positive := List.length_pos_of_ne_nil named
    have few : ¬ (1024 * 1024 : Int) < (argv.length : Int) := by omega
    have some_args : ¬ (argv.length : Int) ≤ 0 := by omega
    rw [split, index, ← split]
    simp only [complete, first, not_true, digits, value, few, some_args, if_false,
      Int.toNat_natCast]
    have position : Position c.bulklen
        (c.querybuf.drop ((42 :: decimal argv.length).length + 2) ++ stream) argv
        (requestText later) := by
      rw [bulklen, onward]
      exact rest
    obtain ⟨c', reply, read⟩ :=
      bulkLoop_spec _ lengths alive multibulk (by omega) (.inl small) position
    rw [none, List.nil_append] at read
    refine ⟨c', reply, ?_⟩
    rcases read with ⟨done, whole⟩ | ⟨done, more', waits⟩
    · exact .inl ⟨by rw [done], whole⟩
    · exact .inr ⟨by rw [done], more', .inr ⟨argv, later, rfl, waits⟩⟩
  · refine ⟨c, rfl,
      .inr ⟨?_, missing, .inl ⟨⟨alive, multibulklen, bulklen, none, before⟩, by omega⟩⟩⟩
    rw [noReturn]
    simp only [large, if_false]
  · refine ⟨c, rfl,
      .inr ⟨?_, missing, .inl ⟨⟨alive, multibulklen, bulklen, none, before⟩, by omega⟩⟩⟩
    rw [found]
    simp only [part, if_true]

theorem processMultibulkBuffer_spec (sendable : ∀ argv ∈ requests, Sendable argv)
    (ready : Ready requests stream c) (nonempty : c.querybuf ≠ [])
    (multibulk : c.multibulk = true) :
    ∃ argv later c', requests = argv :: later ∧ c'.reply = c.reply ∧
      (processMultibulkBuffer c = some (true, c') ∧ Complete argv (requestText later) stream c' ∧
        c'.querybuf.length < c.querybuf.length ∨
      processMultibulkBuffer c = some (false, c') ∧ stream ≠ [] ∧ Expects requests stream c') := by
  rcases ready with
    ⟨idle, small⟩ | ⟨argv, later, todo, same, alive, -, left, whole, count, room, position⟩
  · cases requests with
    | nil => exact absurd (List.append_eq_nil_iff.mp idle.text).1 nonempty
    | cons argv later =>
      have longer := (sendable argv List.mem_cons_self).longer later
      obtain ⟨c', reply, read⟩ :=
        processMultibulkBuffer_idle (sendable argv List.mem_cons_self) idle small multibulk
      refine ⟨argv, later, c', rfl, reply,
        read.imp (fun ⟨done, complete⟩ => ⟨done, complete, ?_⟩) id⟩
      rw [← complete.rest, ← idle.text] at longer
      simp only [List.length_append] at longer
      omega
  · subst same
    have longer := position.longer left
    have positive := List.length_pos_of_ne_nil left
    have lengths := (sendable argv List.mem_cons_self).lengths
    obtain ⟨c', reply, read⟩ := bulkLoop_spec 0
      (fun a member => lengths a (whole ▸ List.mem_append_right _ member)) alive multibulk
      (Nat.zero_le _) room position
    rw [← whole] at read
    refine ⟨argv, later, c', rfl, reply, ?_⟩
    rw [processMultibulkBuffer, if_neg (by omega), count]
    rcases read with ⟨done, complete⟩ | ⟨done, more, waits⟩
    · refine .inl ⟨by rw [done], complete, ?_⟩
      rw [← complete.rest] at longer
      simp only [List.length_append] at longer
      omega
    · exact .inr ⟨by rw [done], more, .inr ⟨argv, later, rfl, waits⟩⟩

end Requests

section Execution

variable {σ : Type} {processCommand : σ → List Sds → Option (Done σ)} {requests : List (List Sds)}
  {stream : Sds} {c : Client} {s : σ}

def served (processCommand : σ → List Sds → Option (Done σ)) :
    List (List Sds) → σ → Option (Sds × σ)
  | [], s => some ([], s)
  | argv :: later, s => (processCommand s argv).bind (fun done =>
      if done.ok then
        (served processCommand later done.server).map (fun rest => (done.reply ++ rest.1, rest.2))
      else none)

theorem served_cons {argv : List Sds} {later : List (List Sds)} {done : Done σ}
    (executed : processCommand s argv = some done) (ok : done.ok = true) :
    served processCommand (argv :: later) s =
      (served processCommand later done.server).map
        (fun rest => (done.reply ++ rest.1, rest.2)) := by
  rw [served, executed, Option.bind_some, if_pos ok]

theorem served_cons_isSome {argv : List Sds} {later : List (List Sds)}
    (possible : (served processCommand (argv :: later) s).isSome = true) :
    ∃ done, processCommand s argv = some done ∧ done.ok = true ∧
      (served processCommand later done.server).isSome = true := by
  cases executed : processCommand s argv with
  | none => simp [served, executed] at possible
  | some done =>
    by_cases ok : done.ok = true
    · rw [served_cons executed ok, Option.isSome_map] at possible
      exact ⟨done, rfl, ok, possible⟩
    · simp [served, executed, ok] at possible

theorem served_append (first rest : List (List Sds)) (s : σ) :
    served processCommand (first ++ rest) s = (served processCommand first s).bind (fun r =>
      (served processCommand rest r.2).map (fun q => (r.1 ++ q.1, q.2))) := by
  induction first generalizing s with
  | nil => simp [served]
  | cons argv first ih =>
    simp only [List.cons_append, served, ih]
    cases processCommand s argv with
    | none => rfl
    | some done =>
      simp only [Option.bind_some]
      split
      · cases served processCommand first done.server with
        | none => rfl
        | some r => simp [Option.map_map, Function.comp_def, List.append_assoc]
      · rfl

def Advances (processCommand : σ → List Sds → Option (Done σ)) (requests later : List (List Sds))
    (before after : Client × σ) : Prop :=
  ∃ executed out, requests = executed ++ later ∧
    served processCommand executed before.2 = some (out, after.2) ∧
    after.1.reply = before.1.reply ++ out

theorem Advances.refl (requests : List (List Sds)) {before after : Client × σ}
    (server : after.2 = before.2) (reply : after.1.reply = before.1.reply) :
    Advances processCommand requests requests before after :=
  ⟨[], [], rfl, by rw [served, server], by rw [reply, List.append_nil]⟩

theorem Advances.trans {later last : List (List Sds)} {x y z : Client × σ}
    (first : Advances processCommand requests later x y)
    (second : Advances processCommand later last y z) :
    Advances processCommand requests last x z := by
  obtain ⟨executed, out, rfl, done, reply⟩ := first
  obtain ⟨executed', out', rfl, done', reply'⟩ := second
  refine ⟨executed ++ executed', out ++ out', (List.append_assoc ..).symm, ?_, ?_⟩
  · rw [served_append, done, Option.bind_some, done']
    rfl
  · rw [reply', reply, List.append_assoc]

theorem Advances.possible {later : List (List Sds)} {x y : Client × σ}
    (advances : Advances processCommand requests later x y)
    (possible : (served processCommand requests x.2).isSome = true) :
    (served processCommand later y.2).isSome = true := by
  obtain ⟨executed, out, rfl, done, -⟩ := advances
  rw [served_append, done, Option.bind_some, Option.isSome_map] at possible
  exact possible

theorem inputLoop_spec {rounds : Nat} (sendable : ∀ argv ∈ requests, Sendable argv)
    (possible : (served processCommand requests s).isSome = true) (ready : Ready requests stream c)
    (enough : c.querybuf.length < rounds) :
    ∃ later c' s', inputLoop processCommand rounds c s = some (c', s') ∧
      Advances processCommand requests later (c, s) (c', s') ∧ Expects later stream c' ∧
      (stream = [] → later = []) := by
  induction rounds generalizing c requests s with
  | zero => omega
  | succ rounds ih =>
    rw [inputLoop]
    by_cases empty : c.querybuf = []
    · rw [if_pos (.inl empty)]
      refine ⟨requests, c, s, rfl, .refl requests rfl rfl, ?_⟩
      rcases ready with
        ⟨idle, -⟩ | ⟨argv, later, todo, same, alive, multibulk, left, whole, count, -, position⟩
      · refine ⟨.inl ⟨idle, by rw [empty]; decide⟩, fun nothing => requests_nil sendable ?_⟩
        rw [← idle.text, empty, nothing]
        rfl
      · refine ⟨.inr ⟨argv, later, same, alive, multibulk, by rw [empty]; simp, todo, left, whole,
          count, position⟩, ?_⟩
        intro nothing
        have longer := position.longer left
        rw [empty, nothing] at longer
        exact absurd longer (Nat.not_lt_zero _)
    · rw [if_neg (by rw [ready.alive]; simp [empty]), if_neg (ready.starts sendable empty)]
      obtain ⟨argv, later, c', rfl, reply, next⟩ :=
        processMultibulkBuffer_spec sendable ready.multibulk empty rfl
      rcases next with ⟨read, complete, shorter⟩ | ⟨read, missing, expects⟩
      · have named := (sendable argv List.mem_cons_self).named
        obtain ⟨done, executed, ok, possible'⟩ := served_cons_isSome possible
        have client : done.client c' = resetClient { c' with reply := c'.reply ++ done.reply } := by
          rw [Done.client, if_pos ok, addReply, complete.alive]
          rfl
        have again : Ready later stream (done.client c') := by
          rw [client]
          exact .inl ⟨⟨complete.alive, rfl, rfl, rfl, complete.rest⟩, complete.small⟩
        have fewer : (done.client c').querybuf.length < rounds := by
          rw [client]
          exact Nat.lt_of_lt_of_le shorter (Nat.le_of_lt_succ enough)
        obtain ⟨left, c'', s'', rest, advances, expects, finished⟩ := ih
          (fun argv member => sendable argv (List.mem_cons_of_mem _ member)) possible' again fewer
        refine ⟨left, c'', s'', ?_, ?_, expects, finished⟩
        · rw [read, Option.bind_some, if_neg (by simp),
            if_neg (by rw [complete.arguments]; exact named), complete.arguments, executed,
            Option.bind_some, rest]
        · refine .trans ⟨[argv], done.reply, rfl, ?_, ?_⟩ advances
          · rw [served_cons executed ok]
            simp [served]
          · rw [client]
            exact congrArg (· ++ done.reply) reply
      · refine ⟨argv :: later, c', s, ?_, .refl _ rfl reply, expects,
          fun nothing => absurd nothing missing⟩
        rw [read, Option.bind_some, if_pos rfl]

theorem Expects.append (expects : Expects requests stream c) {chunk rest : Sds}
    (split : stream = chunk ++ rest) (bound : chunk.length ≤ readlen c) :
    Ready requests rest { c with querybuf := c.querybuf ++ chunk } := by
  have length : (c.querybuf ++ chunk).length = c.querybuf.length + chunk.length :=
    List.length_append
  rcases expects with
    ⟨⟨alive, multibulklen, bulklen, argv, text⟩, small⟩ | ⟨argv, later, same, waits⟩
  · simp only [readlen, bulklen] at bound
    refine .inl ⟨⟨alive, multibulklen, bulklen, argv, ?_⟩, ?_⟩
    · rw [← text, split, List.append_assoc]
    · show (c.querybuf ++ chunk).length ≤ bufferBound
      unfold bufferBound
      omega
  · obtain ⟨alive, multibulk, short, todo, left, whole, count, position⟩ := waits
    have positive := List.length_pos_of_ne_nil left
    refine .inr ⟨argv, later, todo, same, alive, multibulk, left, whole, count, ?_, ?_⟩
    · show Room c.bulklen 0 (c.querybuf ++ chunk).length
      cases unread : c.bulklen with
      | none =>
        simp only [readlen, unread] at bound
        simp only [unread, Option.getD_none] at short
        left
        unfold bufferBound
        omega
      | some len =>
        simp only [readlen, unread, multibulk, true_and] at bound
        simp only [unread, Option.getD_some] at short
        by_cases large : 1024 * 32 ≤ len
        · rw [if_pos ⟨by omega, large⟩] at bound
          exact .inr ⟨rfl, len, rfl, large, by omega⟩
        · rw [if_neg (fun all => large all.2)] at bound
          left
          unfold bufferBound
          omega
    · rw [List.append_assoc, ← split]
      exact position

theorem Ready.bounded (ready : Ready requests stream c)
    (sendable : ∀ argv ∈ requests, Sendable argv) : c.querybuf.length ≤ 1024 * 1024 * 1024 := by
  rcases ready with ⟨-, small⟩ | ⟨argv, later, todo, rfl, -, -, -, whole, -, room, position⟩
  · unfold bufferBound at small
    omega
  · rcases room with small | ⟨-, len, reading, -, fit⟩
    · unfold bufferBound at small
      omega
    · rw [reading] at position
      obtain ⟨a, rest, same, length, -⟩ := position
      have bound := (sendable argv List.mem_cons_self).lengths a (by rw [whole, same]; simp)
      unfold protoMaxBulkLen at bound
      omega

theorem read_spec {k : Connection} (sendable : ∀ argv ∈ requests, Sendable argv)
    (possible : (served processCommand requests s).isSome = true)
    (expects : Expects requests k.stream k.client)
    (begun : k.stream = [] → requests = []) (n : Nat) :
    ∃ later k' s', k.read processCommand n s = some (k', s') ∧
      Advances processCommand requests later (k.client, s) (k'.client, s') ∧
      Expects later k'.stream k'.client ∧ (k'.stream = [] → later = []) := by
  simp only [Connection.read]
  split
  · exact ⟨requests, k, s, rfl, .refl requests rfl rfl, expects, begun⟩
  · have split := (List.take_append_drop
      (min n (min (readlen k.client) k.stream.length)) k.stream).symm
    have ready := expects.append split (by rw [List.length_take]; omega)
    obtain ⟨later, c', s', done, advances, expects', finished⟩ :=
      inputLoop_spec sendable possible ready (Nat.lt_succ_self _)
    refine ⟨later, ⟨c', _⟩, s', ?_, advances, expects', finished⟩
    rw [readQueryFromClient, if_neg (Nat.not_lt.mpr (ready.bounded sendable)), processInputBuffer,
      done]
    rfl

theorem reads_spec {k : Connection} (sendable : ∀ argv ∈ requests, Sendable argv)
    (possible : (served processCommand requests s).isSome = true)
    (expects : Expects requests k.stream k.client) (begun : k.stream = [] → requests = [])
    (sizes : List Nat) :
    ∃ later k' s', k.reads processCommand sizes s = some (k', s') ∧
      Advances processCommand requests later (k.client, s) (k'.client, s') ∧
      Expects later k'.stream k'.client ∧ (k'.stream = [] → later = []) := by
  induction sizes generalizing k requests s with
  | nil => exact ⟨requests, k, s, rfl, .refl requests rfl rfl, expects, begun⟩
  | cons n sizes ih =>
    obtain ⟨later, k₁, s₁, read, advances, expects₁, begun₁⟩ :=
      read_spec sendable possible expects begun n
    obtain ⟨executed, -, split, -⟩ := id advances
    obtain ⟨last, k₂, s₂, reads, advances', expects₂, begun₂⟩ := ih
      (fun argv member => sendable argv (split ▸ List.mem_append_right _ member))
      (advances.possible possible) expects₁ begun₁
    refine ⟨last, k₂, s₂, ?_, advances.trans advances', expects₂, begun₂⟩
    rw [Connection.reads, read, Option.bind_some, reads]

end Execution

end Haystack.Redis
