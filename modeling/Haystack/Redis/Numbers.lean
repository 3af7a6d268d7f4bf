import Haystack.Digits

/-! The integers of redis as texts, util.c. -/
namespace Haystack.Redis

open Digits

abbrev Sds := List UInt8

def ascii (s : String) : Sds := s.toList.map (fun c => UInt8.ofNat c.toNat)

/-- The recursion of digits10. A uint64 needs two rounds at most. -/
def digits10From : Nat → Nat → Nat
  | 0, _ => 0
  | rounds + 1, v =>
    if v < 10 then 1
    else if v < 100 then 2
    else if v < 1000 then 3
    else if v < 1000000000000 then
      if v < 100000000 then
        if v < 1000000 then
          if v < 10000 then 4 else 5 + (if 100000 ≤ v then 1 else 0)
        else 7 + (if 10000000 ≤ v then 1 else 0)
      else if v < 10000000000 then 9 + (if 1000000000 ≤ v then 1 else 0)
      else 11 + (if 100000000000 ≤ v then 1 else 0)
    else 12 + digits10From rounds (v / 1000000000000)

def digits10 (v : Nat) : Nat := digits10From 2 v

def digitPairs : Sds :=
  ["0001020304050607080910111213141516171819", "2021222324252627282930313233343536373839",
    "4041424344454647484950515253545556575859", "6061626364656667686970717273747576777879",
    "8081828384858687888990919293949596979899"].flatMap ascii

def digitPair (i : Nat) : UInt8 := digitPairs[i]?.getD 0

/-- Write a number into the buffer, two digits at a time from the index next backwards. A uint64
needs ten rounds at most. -/
def writeDigits : Nat → Sds → Nat → Nat → Sds
  | 0, dst, _, _ => dst
  | rounds + 1, dst, next, value =>
    if 100 ≤ value then
      let i := value % 100 * 2
      writeDigits rounds ((dst.set next (digitPair (i + 1))).set (next - 1) (digitPair i))
        (next - 2) (value / 100)
    else if value < 10 then dst.set next (UInt8.ofNat (48 + value))
    else (dst.set next (digitPair (value * 2 + 1))).set (next - 1) (digitPair (value * 2))

/-- The text of a long long in a buffer of dstlen bytes, empty if there is no room. -/
def ll2string (dstlen : Nat) (svalue : Int) : Sds :=
  let negative := if svalue < 0 then 1 else 0
  let length := digits10 svalue.natAbs + negative
  if dstlen ≤ length then []
  else
    let dst := writeDigits 10 (List.replicate length 0) (length - 1) svalue.natAbs
    if svalue < 0 then dst.set 0 45 else dst

def digitLoop : Nat → Sds → Option Nat
  | v, [] => some v
  | v, b :: s =>
    if 48 ≤ b.toNat ∧ b.toNat ≤ 57 then
      if (2 ^ 64 - 1) / 10 < v then none
      else if 2 ^ 64 - 1 - (b.toNat - 48) < v * 10 then none
      else digitLoop (v * 10 + (b.toNat - 48)) s
    else none

def digitText : Sds → Option Nat
  | [] => none
  | b :: s => if 49 ≤ b.toNat ∧ b.toNat ≤ 57 then digitLoop (b.toNat - 48) s else none

def string2ll (s : Sds) : Option Int :=
  if s = [48] then some 0
  else if s.head? = some 45 then
    (digitText s.tail).bind (fun v => if 2 ^ 63 < v then none else some (-(v : Int)))
  else (digitText s).bind (fun v => if 2 ^ 63 - 1 < v then none else some (v : Int))

def text (n : Int) : Sds := if n < 0 then 45 :: decimal n.natAbs else decimal n.natAbs

theorem digits10_low {v : Nat} (bound : v < 10 ^ 12) (rounds : Nat) :
    digits10From (rounds + 1) v = (decimal v).length := by
  have exact : ∀ k, 10 ^ k ≤ v → v < 10 ^ (k + 1) → (decimal v).length = k + 1 :=
    fun k lower upper => length_decimal lower upper
  rw [digits10From]
  split
  · rw [decimal_small (by assumption)]
    rfl
  · split
    · rw [exact 1 (by omega) (by omega)]
    · split
      · rw [exact 2 (by omega) (by omega)]
      · rw [if_pos (by omega)]
        split
        · split
          · split
            · rw [exact 3 (by omega) (by omega)]
            · split
              · rw [exact 5 (by omega) (by omega)]
              · rw [exact 4 (by omega) (by omega)]
          · split
            · rw [exact 7 (by omega) (by omega)]
            · rw [exact 6 (by omega) (by omega)]
        · split
          · split
            · rw [exact 9 (by omega) (by omega)]
            · rw [exact 8 (by omega) (by omega)]
          · split
            · rw [exact 11 (by omega) (by omega)]
            · rw [exact 10 (by omega) (by omega)]

theorem digits10_eq {v : Nat} (bound : v < 10 ^ 20) : digits10 v = (decimal v).length := by
  by_cases small : v < 10 ^ 12
  · exact digits10_low small 1
  · have rest : v / 10 ^ 12 < 10 ^ 12 := by omega
    rw [digits10, digits10From, if_neg (by omega), if_neg (by omega), if_neg (by omega),
      if_neg (by omega), length_decimal_div (k := 12) (by omega)]
    exact congrArg (12 + ·) (digits10_low rest 0)

theorem digitPairs_eq : digitPairs =
    (List.range 200).map (fun k => if k % 2 = 0 then digit (k / 20) else digit (k / 2 % 10)) := by
  decide +kernel

theorem digitPair_eq {i : Nat} (small : i < 100) :
    digitPair (i * 2) = digit (i / 10) ∧ digitPair (i * 2 + 1) = digit (i % 10) := by
  have even : i * 2 / 20 = i / 10 := by omega
  have odd : (i * 2 + 1) / 2 % 10 = i % 10 := by omega
  constructor
  · rw [digitPair, digitPairs_eq, List.getElem?_map, List.getElem?_range (by omega),
      Option.map_some, if_pos (by omega), even, Option.getD_some]
  · rw [digitPair, digitPairs_eq, List.getElem?_map, List.getElem?_range (by omega),
      Option.map_some, if_neg (by omega), odd, Option.getD_some]

theorem set_two {dst : Sds} {next : Nat} (inside : next < dst.length) (room : 1 ≤ next)
    (a b : UInt8) :
    (dst.set next b).set (next - 1) a = dst.take (next - 1) ++ a :: b :: dst.drop (next + 1) := by
  rw [List.set_eq_take_append_cons_drop, if_pos (by rw [List.length_set]; omega),
    List.set_eq_take_append_cons_drop, if_pos inside]
  have back : next - 1 + 1 = next := by omega
  rw [back, List.take_append_of_le_length (by simp; omega), List.take_take,
    Nat.min_eq_left (by omega), List.drop_append_of_le_length (by simp; omega)]
  simp

theorem writeDigits_eq {rounds next value : Nat} {dst : Sds} (bound : value < 100 ^ (rounds + 1))
    (inside : next < dst.length) (room : (decimal value).length ≤ next + 1) :
    writeDigits (rounds + 1) dst next value =
      dst.take (next + 1 - (decimal value).length) ++ decimal value ++ dst.drop (next + 1) := by
  induction rounds generalizing next value dst with
  | zero =>
    rw [writeDigits, if_neg (by omega)]
    split
    · rename_i small
      rw [decimal_small small, List.set_eq_take_append_cons_drop, if_pos inside]
      simp [digit]
    · rename_i two
      have pairs := digitPair_eq (i := value) (by omega)
      have digits : decimal value = [digit (value / 10), digit (value % 10)] := by
        rw [decimal_large (by omega), decimal_small (n := value / 10) (by omega)]
        rfl
      rw [digits] at room ⊢
      simp only [List.length_cons, List.length_nil] at room ⊢
      rw [pairs.1, pairs.2, set_two inside (by omega)]
      simp
  | succ rounds ih =>
    have wider : 100 ^ (rounds + 1 + 1) = 100 ^ (rounds + 1) * 100 := Nat.pow_succ _ _
    rw [writeDigits]
    by_cases large : 100 ≤ value
    · rw [if_pos large]
      have pairs := digitPair_eq (i := value % 100) (by omega)
      have digits := decimal_hundred large
      have shorter : (decimal value).length = (decimal (value / 100)).length + 2 := by
        rw [digits, List.length_append]
        rfl
      have positive := List.length_pos_of_ne_nil (decimal_ne_nil (value / 100))
      have back : next - 2 + 1 = next - 1 := by omega
      dsimp only
      rw [pairs.1, pairs.2, set_two inside (by omega), ih (by omega) (by simp; omega) (by omega),
        back, shorter, digits, List.take_append_of_le_length (by simp; omega), List.take_take,
        Nat.min_eq_left (by omega), List.drop_append_of_le_length (by simp; omega)]
      have place : next - 1 - (decimal (value / 100)).length =
          next + 1 - ((decimal (value / 100)).length + 2) := by omega
      simp [place]
    · rw [if_neg large, ← ih (by omega) inside room, writeDigits, if_neg large]

theorem ll2string_eq {n : Int} (lower : -2 ^ 63 ≤ n) (upper : n < 2 ^ 63) {dstlen : Nat}
    (room : 21 ≤ dstlen) :
    ll2string dstlen n = text n := by
  have count := digits10_eq (v := n.natAbs) (by omega)
  have short : (decimal n.natAbs).length ≤ 19 := length_decimal_le (by omega)
  have positive := List.length_pos_of_ne_nil (decimal_ne_nil n.natAbs)
  simp only [ll2string, count, text]
  by_cases negative : n < 0
  · rw [if_pos negative, if_neg (by omega), if_pos negative, if_pos negative,
      writeDigits_eq (by omega) (by simp) (by omega)]
    have gap : (decimal n.natAbs).length + 1 - 1 + 1 - (decimal n.natAbs).length = 1 := by omega
    rw [gap]
    simp
  · rw [if_neg negative, if_neg (by omega), if_neg negative, if_neg negative,
      writeDigits_eq (by omega) (by simp; omega) (by omega)]
    have gap : (decimal n.natAbs).length + 0 - 1 + 1 - (decimal n.natAbs).length = 0 := by omega
    rw [gap]
    simp
    omega

theorem digitLoop_sound {s : Sds} {v w : Nat} (positive : 0 < v) (read : digitLoop v s = some w) :
    decimal w = decimal v ++ s := by
  induction s generalizing v with
  | nil =>
    cases Option.some.inj read
    rw [List.append_nil]
  | cons b s ih =>
    rw [digitLoop] at read
    split at read
    · rename_i isDigit
      split at read
      · cases read
      · split at read
        · cases read
        · have rest := ih (by omega) read
          rw [decimal_snoc positive (by omega), digit_toNat isDigit.1] at rest
          rw [rest, List.append_assoc]
          rfl
    · cases read

theorem digitLoop_complete {s : Sds} {v : Nat} (digits : ∀ b ∈ s, 48 ≤ b.toNat ∧ b.toNat ≤ 57)
    (bound : value v s < 2 ^ 64) : digitLoop v s = some (value v s) := by
  induction s generalizing v with
  | nil => rfl
  | cons b s ih =>
    have isDigit := digits b List.mem_cons_self
    have reached : v * 10 + (b.toNat - 48) ≤ value v (b :: s) := le_value _ s
    rw [digitLoop, if_pos isDigit, if_neg (by omega), if_neg (by omega)]
    exact ih (fun b member => digits b (List.mem_cons_of_mem _ member)) bound

theorem digitText_iff (s : Sds) (v : Nat) (bound : v < 2 ^ 64) :
    digitText s = some v ↔ 0 < v ∧ s = decimal v := by
  constructor
  · intro read
    cases s with
    | nil => cases read
    | cons b s =>
      rw [digitText] at read
      split at read
      · rename_i isDigit
        have whole := digitLoop_sound (by omega) read
        rw [decimal_small (n := b.toNat - 48) (by omega), digit_toNat (by omega)] at whole
        refine ⟨?_, whole.symm⟩
        by_contra zero
        have nothing : v = 0 := by omega
        rw [nothing, decimal_small (by omega)] at whole
        have first := congrArg UInt8.toNat (List.cons.inj whole).1
        rw [toNat_digit (by omega)] at first
        omega
      · cases read
  · rintro ⟨positive, rfl⟩
    obtain ⟨d, ds, digits, low, high⟩ := decimal_head positive
    have all : ∀ b ∈ decimal v, 48 ≤ b.toNat ∧ b.toNat ≤ 57 := fun b member => mem_decimal member
    have whole : value (d : Nat) ds = v := by
      have total := value_decimal v
      rw [digits] at total
      simpa [value, toNat_digit (show d < 10 by omega)] using total
    rw [digits] at all ⊢
    rw [digitText, toNat_digit (by omega), if_pos (by omega), Nat.add_sub_cancel_left,
      digitLoop_complete (fun b member => all b (List.mem_cons_of_mem _ member)) (by omega), whole]

theorem digitLoop_lt {s : Sds} {v w : Nat} (bound : v < 2 ^ 64) (read : digitLoop v s = some w) :
    w < 2 ^ 64 := by
  induction s generalizing v with
  | nil =>
    cases Option.some.inj read
    exact bound
  | cons b s ih =>
    rw [digitLoop] at read
    split at read
    · split at read
      · cases read
      · split at read
        · cases read
        · exact ih (by omega) read
    · cases read

theorem digitText_lt {s : Sds} {v : Nat} (read : digitText s = some v) : v < 2 ^ 64 := by
  cases s with
  | nil => cases read
  | cons b s =>
    rw [digitText] at read
    split at read
    · exact digitLoop_lt (by omega) read
    · cases read

theorem string2ll_iff (s : Sds) (n : Int) :
    string2ll s = some n ↔ -2 ^ 63 ≤ n ∧ n < 2 ^ 63 ∧ s = text n := by
  constructor
  · intro read
    unfold string2ll at read
    split at read
    · rename_i zero
      cases Option.some.inj read
      exact ⟨by omega, by omega, zero.trans (by decide +kernel)⟩
    · split at read
      · rename_i minus
        obtain ⟨v, digits, rest⟩ := Option.bind_eq_some_iff.mp read
        split at rest
        · cases rest
        · cases Option.some.inj rest
          obtain ⟨positive, tail⟩ := (digitText_iff _ v (digitText_lt digits)).mp digits
          refine ⟨by omega, by omega, ?_⟩
          rw [text, if_pos (by omega), Int.natAbs_neg, Int.natAbs_natCast, ← tail]
          exact (List.cons_head?_tail minus).symm
      · obtain ⟨v, digits, rest⟩ := Option.bind_eq_some_iff.mp read
        split at rest
        · cases rest
        · cases Option.some.inj rest
          obtain ⟨positive, whole⟩ := (digitText_iff _ v (digitText_lt digits)).mp digits
          refine ⟨by omega, by omega, ?_⟩
          rw [text, if_neg (by omega), Int.natAbs_natCast]
          exact whole
  · rintro ⟨lower, upper, rfl⟩
    unfold string2ll text
    by_cases negative : n < 0
    · rw [if_pos negative, if_neg (by simp), if_pos List.head?_cons, List.tail_cons,
        (digitText_iff _ n.natAbs (by omega)).mpr ⟨by omega, rfl⟩, Option.bind_some,
        if_neg (by omega)]
      congr 1
      omega
    · rw [if_neg negative]
      by_cases zero : n = 0
      · subst zero
        have single : decimal (Int.natAbs 0) = [48] := decimal_small (n := 0) (by omega)
        rw [if_pos single]
      · obtain ⟨d, ds, digits, low, high⟩ := decimal_head (n := n.natAbs) (by omega)
        have first := toNat_digit (d := d) (by omega)
        rw [if_neg, if_neg, (digitText_iff _ n.natAbs (by omega)).mpr ⟨by omega, rfl⟩,
          Option.bind_some, if_neg (by omega)]
        · congr 1
          omega
        · intro minus
          rw [digits, List.head?_cons] at minus
          rw [Option.some.inj minus] at first
          change 45 = 48 + d at first
          omega
        · intro same
          rw [digits] at same
          rw [(List.cons.inj same).1] at first
          change 48 = 48 + d at first
          omega

/-- The texts that string2ll reads as a number are those that ll2string writes for it into a
buffer with room for every number. -/
theorem string2ll_iff_ll2string (s : Sds) (n : Int) {dstlen : Nat} (room : 21 ≤ dstlen) :
    string2ll s = some n ↔ -2 ^ 63 ≤ n ∧ n < 2 ^ 63 ∧ s = ll2string dstlen n := by
  rw [string2ll_iff]
  constructor
  · rintro ⟨lower, upper, same⟩
    exact ⟨lower, upper, same.trans (ll2string_eq lower upper room).symm⟩
  · rintro ⟨lower, upper, same⟩
    exact ⟨lower, upper, same.trans (ll2string_eq lower upper room)⟩

theorem string2ll_iff_ll2string_least : string2ll (ascii "-9223372036854775808") = some (-2 ^ 63) ∧
    ll2string 21 (-2 ^ 63) = ascii "-9223372036854775808" := by
  have written : ascii "-9223372036854775808" = ll2string 21 (-2 ^ 63) := by
    rw [ll2string_eq (by omega) (by omega) (by omega)]
    decide +kernel
  constructor
  · exact (string2ll_iff_ll2string _ _ (Nat.le_refl 21)).mpr ⟨by omega, by omega, written⟩
  · exact written.symm

end Haystack.Redis
