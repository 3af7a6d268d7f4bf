import Haystack.Calls.Assertion
import Mathlib

/-! What the sources take from Java: exceptions, wrapping int and long
arithmetic, strings, and loops over an int counter. -/
namespace Haystack.Java

open Calls

inductive Exception where
  | arithmetic
  | nullPointer
  | arrayIndex
  | illegalArgument
  | invalidQuery
  | unavailable
  | endless
  deriving DecidableEq, Repr

/-- The remainder has the sign of the dividend and throws on zero. -/
def remainder (a b : Int64) : Except Exception Int64 :=
  if b = 0 then .error .arithmetic else .ok (a % b)

def trim (s : String) : String :=
  String.ofList ((s.toList.dropWhile (· ≤ ' ')).rdropWhile (· ≤ ' '))

theorem trim_ne_empty {s : String} {c : Char} (first : s.toList.head? = some c)
    (shown : ¬ c ≤ ' ') :
    trim s ≠ "" := by
  cases h : s.toList with
  | nil => simp [h] at first
  | cons d ds =>
    rw [h] at first
    have same : d = c := Option.some.inj first
    subst same
    intro empty
    have gone : (s.toList.dropWhile (· ≤ ' ')).rdropWhile (· ≤ ' ') = [] := by
      simpa [trim] using congrArg String.toList empty
    rw [h, List.dropWhile_cons_of_neg (by simpa using shown), List.rdropWhile_eq_nil_iff] at gone
    exact shown (by simpa using gone d List.mem_cons_self)

theorem remainder_range {a b : Int64} (ha : 0 ≤ a.toInt) (hb : 0 < b.toInt) :
    ∃ r, remainder a b = .ok r ∧ 0 ≤ r.toInt ∧ r.toInt < b.toInt ∧
      r.toInt = a.toInt % b.toInt := by
  have nonzero : b ≠ 0 := by
    rintro rfl
    simp at hb
  have value : (a % b).toInt = a.toInt % b.toInt := by
    rw [Int64.toInt_mod, Int.tmod_eq_emod_of_nonneg ha]
  refine ⟨a % b, by simp [remainder, nonzero], ?_, ?_, value⟩
  · rw [value]; exact Int.emod_nonneg _ (by omega)
  · rw [value]; exact Int.emod_lt_of_pos _ hb

theorem narrow_toInt {a : Int64} (lower : 0 ≤ a.toInt) (upper : a.toInt < 2 ^ 31) :
    a.toInt32.toInt = a.toInt := by
  rw [Int64.toInt_toInt32]
  exact Int.bmod_eq_of_le (by omega) (by omega)

theorem succ_toInt {a : Int32} (lower : 0 ≤ a.toInt) (upper : a.toInt + 1 < 2 ^ 31) :
    (a + 1).toInt = a.toInt + 1 := by
  rw [Int32.toInt_add, show (1 : Int32).toInt = 1 from rfl]
  exact Int.bmod_eq_of_le (by omega) (by omega)

theorem pred_toInt {a : Int32} (positive : 0 < a.toInt) : (a - 1).toInt = a.toInt - 1 := by
  have upper := a.toInt_lt
  rw [Int32.toInt_sub, show (1 : Int32).toInt = 1 from rfl]
  exact Int.bmod_eq_of_le (by omega) (by omega)

theorem toString_injective {m n : Int64} (same : toString m = toString n) : m = n :=
  Int64.toInt_inj.mp (Int.repr_injective same)

theorem digits_of_nonneg {a : Int} (nonneg : 0 ≤ a) {c : Char} (member : c ∈ (toString a).toList) :
    c.isDigit = true := by
  rw [Int.toString_eq_repr, Int.repr_eq_if, if_pos nonneg] at member
  simp only [Nat.repr, String.toList_ofList] at member
  exact Nat.isDigit_of_mem_toDigits (by decide) (by decide) member

theorem digit_or_minus {a : Int} {c : Char} (member : c ∈ (toString a).toList) :
    c.isDigit = true ∨ c = '-' := by
  by_cases nonneg : 0 ≤ a
  · exact .inl (digits_of_nonneg nonneg member)
  · rw [Int.toString_eq_repr, Int.repr_eq_if, if_neg nonneg] at member
    simp only [Nat.repr, String.toList_append, String.toList_ofList, List.mem_append] at member
    rcases member with sign | digit
    · exact .inr (by simpa using sign)
    · exact .inl (Nat.isDigit_of_mem_toDigits (by decide) (by decide) digit)

theorem toString_ne_empty (a : Int) : toString a ≠ "" := by
  rw [Int.toString_eq_repr, Int.repr_eq_if]
  split
  · exact Nat.repr_ne_empty
  · intro empty
    have length := congrArg String.length empty
    simp at length

variable {C : Type} {R : C → Type}

/-- A loop over an int counter. The counter has 2^32 values and is all the loop
depends on, so one that has not ended after that many rounds never does. -/
def forInt (test : Int32 → Bool) (update : Int32 → Int32)
    (body : Int32 → Program R Exception Unit) :
    Nat → Int32 → Program R Exception Unit
  | 0, _ => .throw .endless
  | fuel + 1, i =>
    if test i then do
      body i
      forInt test update body fuel (update i)
    else pure ()

def rounds : Nat := 2 ^ 32 + 1

section Loops

variable {S : Type} {exec : (c : C) → S → Except Exception (S × R c)} {n : Int32}
  {body : Int32 → Program R Exception Unit} {P : Int → S → Prop}

theorem everywhere_forInt {P : C → Prop} (test : Int32 → Bool) (update : Int32 → Int32)
    (each : ∀ i, (body i).Everywhere P) (fuel : Nat) (i : Int32) :
    (forInt test update body fuel i).Everywhere P := by
  induction fuel generalizing i with
  | zero => trivial
  | succ fuel ih =>
    simp only [forInt]
    split
    · exact Program.everywhere_bind (each i) (fun _ => ih (update i))
    · trivial

theorem within_forInt {m : Nat} (test : Int32 → Bool) (update : Int32 → Int32)
    (each : ∀ i, (body i).Within (fun _ => True) m) (fuel : Nat) (i : Int32) :
    (forInt test update body fuel i).Within (fun _ => True) (fuel * m) := by
  induction fuel generalizing i with
  | zero => exact Program.within_throw _
  | succ fuel ih =>
    simp only [forInt]
    split
    · rw [Nat.succ_mul, Nat.add_comm]
      exact Program.within_bind (each i) (fun _ _ => ih (update i))
    · exact (Program.within_done ()).mpr trivial

theorem forInt_stops {test : Int32 → Bool} {i : Int32} (fails : test i = false)
    (update : Int32 → Int32)
    (body : Int32 → Program R Exception Unit) : forInt test update body rounds i = pure () := by
  simp only [rounds, forInt, fails]
  rfl

theorem forInt_run (test : Int32 → Bool) (update : Int32 → Int32) (P : Int32 → S → Prop)
    (left : Int32 → Nat) (round : ∀ i s, test i = true → P i s →
      left (update i) < left i ∧ ∃ t, (body i).run exec s = (t, .ok ()) ∧ P (update i) t)
    {fuel : Nat} {i : Int32} {s : S} (enough : left i < fuel) (start : P i s) :
    ∃ j t, (forInt test update body fuel i).run exec s = (t, .ok ()) ∧ test j = false ∧ P j t := by
  induction fuel generalizing i s with
  | zero => omega
  | succ fuel ih =>
    simp only [forInt]
    cases more : test i with
    | false => exact ⟨i, s, rfl, more, start⟩
    | true =>
      obtain ⟨closer, t, ran, next⟩ := round i s more start
      rw [if_pos rfl, Program.run_bind_ok exec ran]
      exact ih (by omega) next

theorem forInt_up (below : n.toInt < 2 ^ 31 - 1)
    (round : ∀ i s, 1 ≤ i.toInt → i.toInt ≤ n.toInt → P i.toInt s →
      ∃ t, (body i).run exec s = (t, .ok ()) ∧ P (i.toInt + 1) t)
    {fuel : Nat} {i : Int32} {s : S} (lower : 1 ≤ i.toInt) (upper : i.toInt ≤ n.toInt + 1)
    (enough : n.toInt + 1 - i.toInt < fuel) (start : P i.toInt s) :
    ∃ t, (forInt (fun i => i ≤ n) (fun i => i + 1) body fuel i).run exec s = (t, .ok ()) ∧
      P (n.toInt + 1) t := by
  obtain ⟨j, t, ran, ended, ⟨-, upper'⟩, reached⟩ := forInt_run (fun i => i ≤ n) (fun i => i + 1)
    (fun i s => (1 ≤ i.toInt ∧ i.toInt ≤ n.toInt + 1) ∧ P i.toInt s)
      (fun i => (n.toInt + 1 - i.toInt).toNat) (by
      rintro i s more ⟨⟨lower, -⟩, now⟩
      have within : i.toInt ≤ n.toInt := by simpa [Int32.le_iff_toInt_le] using more
      have counted : (i + 1).toInt = i.toInt + 1 := succ_toInt (by omega) (by omega)
      obtain ⟨t, ran, next⟩ := round i s lower within now
      rw [counted]
      exact ⟨by omega, t, ran, by omega, next⟩) (by omega : _ < fuel) ⟨⟨lower, upper⟩, start⟩
  have past : ¬ j.toInt ≤ n.toInt := by simpa [Int32.le_iff_toInt_le] using ended
  have last : n.toInt + 1 = j.toInt := by omega
  exact ⟨t, ran, last ▸ reached⟩

theorem forInt_down
    (round : ∀ i s, 0 < i.toInt → i.toInt ≤ n.toInt → P i.toInt s →
      ∃ t, (body i).run exec s = (t, .ok ()) ∧ P (i.toInt - 1) t)
    {fuel : Nat} {i : Int32} {s : S} (lower : 0 ≤ i.toInt) (upper : i.toInt ≤ n.toInt)
    (enough : i.toInt < fuel) (start : P i.toInt s) :
    ∃ t, (forInt (fun i => 0 < i) (fun i => i - 1) body fuel i).run exec s =
      (t, .ok ()) ∧ P 0 t := by
  obtain ⟨j, t, ran, ended, ⟨lower', -⟩, reached⟩ := forInt_run (fun i => 0 < i) (fun i => i - 1)
    (fun i s => (0 ≤ i.toInt ∧ i.toInt ≤ n.toInt) ∧ P i.toInt s) (fun i => i.toInt.toNat) (by
      rintro i s more ⟨⟨-, upper⟩, now⟩
      have within : 0 < i.toInt := by simpa [Int32.lt_iff_toInt_lt] using more
      have counted : (i - 1).toInt = i.toInt - 1 := pred_toInt within
      obtain ⟨t, ran, next⟩ := round i s within upper now
      rw [counted]
      exact ⟨by omega, t, ran, by omega, next⟩) (by omega : _ < fuel) ⟨⟨lower, upper⟩, start⟩
  have past : ¬ 0 < j.toInt := by simpa [Int32.lt_iff_toInt_lt] using ended
  have last : 0 = j.toInt := by omega
  exact ⟨t, ran, last ▸ reached⟩

theorem forInt_holds {d : Discipline S} {post : Except Exception Unit → S → Prop}
    {test : Int32 → Bool} {update : Int32 → Int32} (P : Int32 → S → Prop) (left : Int32 → Nat)
    (round : ∀ i s, test i = true → P i s → left (update i) < left i ∧
      (body i).Holds d exec (fun x t => match x with
        | .ok _ => P (update i) t
        | .error e => post (.error e) t) s)
    (exit : ∀ i s, test i = false → P i s → d.Onward s (post (.ok ())))
    {fuel : Nat} {i : Int32} {s : S} (enough : left i < fuel) (start : P i s) :
    (forInt test update body fuel i).Holds d exec post s := by
  induction fuel generalizing i s with
  | zero => omega
  | succ fuel ih =>
    simp only [forInt]
    cases more : test i with
    | false => exact exit i s more start
    | true =>
      obtain ⟨closer, holds⟩ := round i s more start
      rw [if_pos rfl]
      apply Program.holds_bind
      apply holds.weaken
      intro x t _ given
      cases x with
      | ok _ => exact ih (by omega) given
      | error e => exact given

theorem forInt_endless {test : Int32 → Bool} {update : Int32 → Int32} {Q : S → Prop}
    (always : ∀ i, test i = true)
    (round : ∀ i s, Q s → ∃ t, (body i).run exec s = (t, .ok ()) ∧ Q t) (fuel : Nat)
    (i : Int32) {s : S}
    (start : Q s) : ((forInt test update body fuel i).run exec s).2 = .error .endless := by
  induction fuel generalizing i s with
  | zero => rfl
  | succ fuel ih =>
    obtain ⟨t, ran, next⟩ := round i s start
    rw [forInt, if_pos (always i), Program.run_bind_ok exec ran]
    exact ih (update i) next

end Loops

end Haystack.Java
